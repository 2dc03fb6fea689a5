import LogicSearch.Halt
import LogicSearch.Term.Basic

namespace LogicSearch

namespace Term

def compoundOf (functor : Atom) : List Term → Except Halt Term
  | [] => .error (.defect (.noArguments functor))
  | first :: rest => .ok (compound functor first rest)

end Term

end LogicSearch
