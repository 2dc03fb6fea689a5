import LogicSearch.Store.Basic

namespace LogicSearch

inductive Kind where
  | atom
  | integer
  | var
  | nonvar
  | compound
  | callable
  deriving DecidableEq, Repr

namespace Kind

def holds : Kind → Term → Bool
  | atom, .atom _ => true
  | integer, .int _ => true
  | var, .var _ => true
  | nonvar, .var _ => false
  | nonvar, _ => true
  | compound, .compound _ _ _ => true
  | callable, .atom _ | callable, .compound _ _ _ => true
  | _, _ => false

end Kind

def Store.is (s : Store) (kind : Kind) (t : Term) : Option Bool := (s.deref t).map kind.holds

end LogicSearch
