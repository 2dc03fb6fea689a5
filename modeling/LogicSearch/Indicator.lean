import LogicSearch.Atom
import LogicSearch.Decimal

namespace LogicSearch

structure Indicator where
  functor : Atom
  arity : Nat
  deriving DecidableEq, Repr

namespace Indicator

def text (p : Indicator) : String := p.functor.text ++ "/" ++ Decimal.text p.arity

end Indicator

end LogicSearch
