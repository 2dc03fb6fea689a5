import LogicSearch.Term.Text

namespace LogicSearch

namespace Atom

def isNameChar (c : Char) : Bool := isWordChar c || isSymbolChar c

def readQuoted : List Char → List Char × List Char
  | [] => ([], [])
  | '\'' :: rest => ([], rest)
  | '\\' :: c :: rest => (c :: (readQuoted rest).1, (readQuoted rest).2)
  | c :: rest => (c :: (readQuoted rest).1, (readQuoted rest).2)

theorem readQuoted_escape (cs rest : List Char) :
    readQuoted (escape cs ++ '\'' :: rest) = (cs, rest) := by
  induction cs with
  | nil => rfl
  | cons c cs ih =>
      simp only [escape]
      split
      · simp [readQuoted, ih]
      · rename_i plain
        simp only [Bool.or_eq_true, beq_iff_eq, not_or] at plain
        rw [List.cons_append, readQuoted, ih]
        · exact plain.2
        · intro d rest backslash
          exact absurd backslash plain.1

def punctuation : List (List Char) := [['[', ']'], ['!'], [';'], ['\x7b', '\x7d']]

theorem isBare_cases {cs : List Char} (bare : isBare cs = true) :
    cs ∈ punctuation ∨
      (∃ c rest, cs = c :: rest ∧ c.isLower = true ∧ ∀ d ∈ rest, isWordChar d = true) ∨
      cs ≠ [] ∧ ∀ c ∈ cs, isSymbolChar c = true := by
  unfold isBare at bare
  split at bare
  · simp [punctuation]
  · simp [punctuation]
  · simp [punctuation]
  · simp [punctuation]
  · cases bare
  · simp only [Bool.or_eq_true, Bool.and_eq_true, List.all_eq_true] at bare
    rcases bare with word | symbols
    · exact .inr (.inl ⟨_, _, rfl, word⟩)
    · exact .inr (.inr ⟨by simp, symbols⟩)

theorem not_isDigit_of_isSymbolChar {c : Char} (symbol : isSymbolChar c = true) :
    c.isDigit = false := by
  simp only [isSymbolChar, List.contains_eq_mem, decide_eq_true_eq] at symbol
  revert c
  simp

theorem isBare_of_digit {c d : Char} {cs : List Char} (lower : c.isLower = false)
    (member : d ∈ c :: cs) (digit : d.isDigit = true) : isBare (c :: cs) = false := by
  rw [Bool.eq_false_iff]
  intro bare
  rcases isBare_cases bare with mark | ⟨c', rest, split, word, -⟩ | ⟨-, symbols⟩
  · have none : punctuation.all (fun mark => mark.all fun d => !d.isDigit) = true := by decide
    simp only [List.all_eq_true, Bool.not_eq_true'] at none
    rw [none _ mark d member] at digit
    cases digit
  · injection split with head
    rw [← head, lower] at word
    cases word
  · rw [not_isDigit_of_isSymbolChar (symbols d member)] at digit
    cases digit

end Atom

namespace Decimal

theorem ofNat_injective {m n : Nat} (same : ofNat m = ofNat n) : m = n := by
  rw [← Nat.ofDigitChars_ten_toDigits (n := m), ← Nat.ofDigitChars_ten_toDigits (n := n)]
  exact congrArg (Nat.ofDigitChars 10 · 0) same

theorem isDigit_of_mem_ofNat {n : Nat} {c : Char} (member : c ∈ ofNat n) : c.isDigit = true :=
  Nat.isDigit_of_mem_toDigits (by decide) (by decide) member

theorem ofNat_eq_cons (n : Nat) : ∃ c cs, ofNat n = c :: cs ∧ c.isDigit = true := by
  obtain ⟨c, cs, split⟩ := List.exists_cons_of_ne_nil (Nat.toDigits_ne_nil (n := n) (b := 10))
  exact ⟨c, cs, split, isDigit_of_mem_ofNat (n := n) (by rw [ofNat, split]; simp)⟩

theorem ofInt_injective {m n : Int} (same : ofInt m = ofInt n) : m = n := by
  have unsigned (k : Nat) (cs : List Char) : ofNat k ≠ '-' :: cs := by
    intro same
    exact absurd (isDigit_of_mem_ofNat (n := k) (c := '-') (by simp [same])) (by decide)
  cases m with
  | ofNat m =>
      cases n with
      | ofNat n => rw [ofNat_injective same]
      | negSucc n => exact absurd same (unsigned m _)
  | negSucc m =>
      cases n with
      | ofNat n => exact absurd same.symm (unsigned n _)
      | negSucc n =>
          injection same with _ digits
          rw [Nat.succ.inj (ofNat_injective digits)]

theorem ofInt_eq_cons (n : Int) :
    ∃ c cs, ofInt n = c :: cs ∧ (c = '-' ∨ c.isDigit = true) ∧ ∃ d ∈ c :: cs, d.isDigit = true := by
  cases n with
  | ofNat n =>
      obtain ⟨c, cs, split, digit⟩ := ofNat_eq_cons n
      exact ⟨c, cs, split, .inr digit, c, List.mem_cons_self, digit⟩
  | negSucc n =>
      obtain ⟨c, cs, split, digit⟩ := ofNat_eq_cons (n + 1)
      exact ⟨'-', c :: cs, by rw [ofInt, split], .inl rfl, c, by simp, digit⟩

end Decimal

open Atom

inductive Token : List Char → Prop where
  | mark {cs : List Char} : cs ∈ punctuation → Token cs
  | run {cs : List Char} : cs ≠ [] → (∀ c ∈ cs, isNameChar c = true) → Token cs
  | quoted (cs : List Char) : Token ('\'' :: escape cs ++ ['\''])

/-- The end of a text, or a character that belongs to no name. -/
def Stops (after : List Char) : Prop := ∀ c ∈ after.head?, isNameChar c = false

def readToken : List Char → List Char × List Char
  | '[' :: ']' :: rest => (['[', ']'], rest)
  | '!' :: rest => (['!'], rest)
  | ';' :: rest => ([';'], rest)
  | '\x7b' :: '\x7d' :: rest => (['\x7b', '\x7d'], rest)
  | '\'' :: rest => ('\'' :: escape (readQuoted rest).1 ++ ['\''], (readQuoted rest).2)
  | cs => (cs.takeWhile isNameChar, cs.dropWhile isNameChar)

theorem readToken_run {c : Char} {cs : List Char} (name : isNameChar c = true) :
    readToken (c :: cs) = ((c :: cs).takeWhile isNameChar, (c :: cs).dropWhile isNameChar) := by
  rw [readToken]
  all_goals
    intro rest same
    injection same with head
    subst head
    exact absurd name (by decide)

theorem Token.read {cs after : List Char} (token : Token cs) (stops : Stops after) :
    readToken (cs ++ after) = (cs, after) := by
  cases token with
  | mark member =>
      simp only [punctuation, List.mem_cons, List.not_mem_nil, or_false] at member
      rcases member with rfl | rfl | rfl | rfl <;> rfl
  | run some names =>
      obtain ⟨c, rest, rfl⟩ := List.exists_cons_of_ne_nil some
      have nothing : after.takeWhile isNameChar = [] ∧ after.dropWhile isNameChar = after := by
        cases after with
        | nil => exact ⟨rfl, rfl⟩
        | cons d after => simp [stops d rfl]
      rw [List.cons_append, readToken_run (names c List.mem_cons_self), ← List.cons_append,
        List.takeWhile_append_of_pos names, List.dropWhile_append_of_pos names, nothing.1,
        nothing.2, List.append_nil]
  | quoted cs =>
      simp [readToken, readQuoted_escape]

/-- The front of a text is one token at most. -/
theorem Token.unambiguous {a b x y : List Char} (left : Token a) (right : Token b)
    (leftStops : Stops x) (rightStops : Stops y) (same : a ++ x = b ++ y) : a = b ∧ x = y := by
  have read := congrArg readToken same
  rw [left.read leftStops, right.read rightStops] at read
  exact Prod.mk.inj read

theorem Token.eq_cons {cs : List Char} (token : Token cs) :
    ∃ c rest, cs = c :: rest ∧ c ≠ ']' ∧ (c = '[' → rest = [']']) := by
  cases token with
  | mark member =>
      simp only [punctuation, List.mem_cons, List.not_mem_nil, or_false] at member
      rcases member with rfl | rfl | rfl | rfl <;> exact ⟨_, _, rfl, by decide, by decide⟩
  | run some names =>
      obtain ⟨c, rest, rfl⟩ := List.exists_cons_of_ne_nil some
      have name := names c List.mem_cons_self
      refine ⟨c, rest, rfl, ?_, ?_⟩
      · intro close
        rw [close] at name
        exact absurd name (by decide)
      · intro bracket
        rw [bracket] at name
        exact absurd name (by decide)
  | quoted cs => exact ⟨_, _, rfl, by decide, by simp⟩

theorem Atom.token_chars (a : Atom) : Token a.chars := by
  unfold chars
  split
  · rename_i bare
    rcases isBare_cases bare with mark | ⟨c, rest, split, lower, word⟩ | ⟨some, symbols⟩
    · exact .mark mark
    · rw [split]
      refine .run (List.cons_ne_nil c rest) ?_
      intro d member
      rcases List.mem_cons.mp member with rfl | member
      · have letter : d.isAlpha = true := Bool.or_eq_true_iff.mpr (.inr lower)
        simp [isNameChar, isWordChar, Char.isAlphanum, letter]
      · simp [isNameChar, word d member]
    · refine .run some ?_
      intro c member
      simp [isNameChar, symbols c member]
  · exact .quoted _

theorem Atom.chars_ne {a : Atom} {c : Char} {cs : List Char} (noQuote : c ≠ '\'')
    (quotes : isBare (c :: cs) = false) : a.chars ≠ c :: cs := by
  intro same
  unfold chars at same
  split at same
  · rename_i bare
    rw [same, quotes] at bare
    cases bare
  · injection same with head
    exact noQuote head.symm

def readName : List Char → List Char
  | '\'' :: rest => (readQuoted rest).1
  | cs => cs

theorem Atom.readName_chars (a : Atom) : readName a.chars = a.name.toList := by
  unfold chars
  split
  · rename_i bare
    rw [readName]
    intro rest same
    rw [same] at bare
    exact absurd bare (by simp [isBare, show isSymbolChar '\'' = false by decide])
  · simp [readName, readQuoted_escape]

theorem Atom.chars_injective {a b : Atom} (same : a.chars = b.chars) : a = b := by
  have names := congrArg readName same
  rw [readName_chars, readName_chars, String.toList_inj] at names
  rw [Atom.mk.injEq]
  exact names

theorem isNameChar_of_isDigit {c : Char} (digit : c.isDigit = true) : isNameChar c = true := by
  simp [isNameChar, isWordChar, Char.isAlphanum, digit]

theorem not_isLower_of_isDigit {c : Char} (digit : c.isDigit = true) : c.isLower = false := by
  have high := of_decide_eq_true (Bool.and_eq_true_iff.mp digit).2
  rw [Bool.eq_false_iff]
  intro lower
  have low := of_decide_eq_true (Bool.and_eq_true_iff.mp lower).1
  exact absurd (UInt32.le_trans low high) (by decide)

theorem token_ofInt (n : Int) : Token (Decimal.ofInt n) := by
  obtain ⟨c, cs, split, -, -⟩ := Decimal.ofInt_eq_cons n
  refine .run (by simp [split]) ?_
  intro d member
  cases n with
  | ofNat n => exact isNameChar_of_isDigit (Decimal.isDigit_of_mem_ofNat member)
  | negSucc n =>
      rcases List.mem_cons.mp member with rfl | member
      · decide
      · exact isNameChar_of_isDigit (Decimal.isDigit_of_mem_ofNat member)

theorem token_var (v : Nat) : Token ('_' :: 'G' :: Decimal.ofNat v) := by
  refine .run (by simp) ?_
  intro d member
  simp only [List.mem_cons] at member
  rcases member with rfl | rfl | member
  · decide
  · decide
  · exact isNameChar_of_isDigit (Decimal.isDigit_of_mem_ofNat member)

theorem Atom.chars_ne_ofInt (a : Atom) (n : Int) : a.chars ≠ Decimal.ofInt n := by
  obtain ⟨c, cs, split, sign, d, member, digit⟩ := Decimal.ofInt_eq_cons n
  have lower : c.isLower = false := by
    rcases sign with rfl | digit
    · rfl
    · exact not_isLower_of_isDigit digit
  have noQuote : c ≠ '\'' := by
    rintro rfl
    simp at sign
  rw [split]
  exact chars_ne noQuote (isBare_of_digit lower member digit)

theorem Atom.chars_ne_var (a : Atom) (v : Nat) : a.chars ≠ '_' :: 'G' :: Decimal.ofNat v := by
  obtain ⟨c, cs, split, digit⟩ := Decimal.ofNat_eq_cons v
  exact chars_ne (by decide) (isBare_of_digit rfl (by simp [split]) digit)

theorem ofInt_ne_var (n : Int) (v : Nat) : Decimal.ofInt n ≠ '_' :: 'G' :: Decimal.ofNat v := by
  obtain ⟨c, cs, split, sign, -⟩ := Decimal.ofInt_eq_cons n
  rw [split]
  intro same
  injection same with head
  subst head
  simp at sign

end LogicSearch
