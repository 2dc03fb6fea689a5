import LogicSearch.Atom

namespace LogicSearch

inductive Operator where
  | add
  | sub
  | mul
  | intDiv
  | mod
  | min
  | max
  | neg
  | abs
  deriving DecidableEq, Repr

namespace Operator

def all : List Operator := [add, sub, mul, intDiv, mod, min, max, neg, abs]

def name : Operator → String
  | add => "Add"
  | sub => "Sub"
  | mul => "Mul"
  | intDiv => "IntDiv"
  | mod => "Mod"
  | min => "Min"
  | max => "Max"
  | neg => "Neg"
  | abs => "Abs"

def ofName? (name : String) : Option Operator := all.find? fun op => op.name == name

def functor : Operator → Atom
  | add => .plus
  | sub => .minus
  | mul => .star
  | intDiv => .intDiv
  | mod => .mod
  | min => .min
  | max => .max
  | neg => .minus
  | abs => .abs

def arity : Operator → Nat
  | neg | abs => 1
  | _ => 2

def ofFunctor? (functor : Atom) (arity : Nat) : Option Operator :=
  all.find? fun op => op.functor == functor && op.arity == arity

end Operator

end LogicSearch
