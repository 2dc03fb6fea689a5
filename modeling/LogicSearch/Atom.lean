namespace LogicSearch

structure Atom where
  name : String
  deriving DecidableEq, Repr

namespace Atom

def nil : Atom := ⟨"[]"⟩

def dot : Atom := ⟨"."⟩

def comma : Atom := ⟨","⟩

def semicolon : Atom := ⟨";"⟩

def cut : Atom := ⟨"!"⟩

def truth : Atom := ⟨"true"⟩

def fail : Atom := ⟨"fail"⟩

def plus : Atom := ⟨"+"⟩

def minus : Atom := ⟨"-"⟩

def star : Atom := ⟨"*"⟩

def intDiv : Atom := ⟨"//"⟩

def mod : Atom := ⟨"mod"⟩

def min : Atom := ⟨"min"⟩

def max : Atom := ⟨"max"⟩

def abs : Atom := ⟨"abs"⟩

def is : Atom := ⟨"is"⟩

def sameValue : Atom := ⟨"=:="⟩

def otherValue : Atom := ⟨"=\\="⟩

def less : Atom := ⟨"<"⟩

def atMost : Atom := ⟨"=<"⟩

def greater : Atom := ⟨">"⟩

def atLeast : Atom := ⟨">="⟩

def equals : Atom := ⟨"="⟩

def notUnifiable : Atom := ⟨"\\="⟩

def atom : Atom := ⟨"atom"⟩

def integer : Atom := ⟨"integer"⟩

def var : Atom := ⟨"var"⟩

def nonvar : Atom := ⟨"nonvar"⟩

def compound : Atom := ⟨"compound"⟩

def callable : Atom := ⟨"callable"⟩

def member : Atom := ⟨"member"⟩

def predefined : List Atom :=
  [nil, dot, comma, semicolon, cut, truth, fail, plus, minus, star, intDiv, mod, min, max, abs, is,
    sameValue, otherValue, less, atMost, greater, atLeast, equals, notUnifiable, atom, integer,
    var, nonvar, compound, callable, member]

def isSymbolChar (c : Char) : Bool :=
  ['+', '-', '*', '/', '\\', '^', '<', '>', '=', '~', ':', '.', '?', '@', '#', '&', '$'].contains c

def isWordChar (c : Char) : Bool := c.isAlphanum || c == '_'

/-- A name read back as one atom without quotes: one of four punctuation atoms, an ASCII word that
starts with a small letter, or a run of symbol characters. -/
def isBare : List Char → Bool
  | ['[', ']'] | ['!'] | [';'] | ['\x7b', '\x7d'] => true
  | [] => false
  | c :: cs => (c.isLower && cs.all isWordChar) || (c :: cs).all isSymbolChar

def escape : List Char → List Char
  | [] => []
  | c :: cs => if c == '\\' || c == '\'' then '\\' :: c :: escape cs else c :: escape cs

def chars (a : Atom) : List Char :=
  if isBare a.name.toList then a.name.toList else '\'' :: escape a.name.toList ++ ['\'']

def text (a : Atom) : String := String.ofList a.chars

def taggedText (a : Atom) : String := "Atom(" ++ a.text ++ ")"

end Atom

end LogicSearch
