import LogicSearch.Store.Basic

namespace LogicSearch

namespace Term

mutual

def expand (value : Var → Option Term) : Term → Option Term
  | atom a => some (atom a)
  | int n => some (int n)
  | var v => value v
  | compound f first rest =>
    match expand value first with
    | none => none
    | some first =>
      match expandAll value rest with
      | none => none
      | some rest => some (compound f first rest)

def expandAll (value : Var → Option Term) : List Term → Option (List Term)
  | [] => some []
  | t :: ts =>
    match expand value t with
    | none => none
    | some t =>
      match expandAll value ts with
      | none => none
      | some ts => some (t :: ts)

end

end Term

namespace Store

def treeOfVar? (s : Store) : Nat → Var → Option Term
  | 0, v => if s.isBound v then none else some (.var v)
  | depth + 1, v =>
    match s.lookup v with
    | none => some (.var v)
    | some t => t.expand (s.treeOfVar? depth)

/-- The tree of a term. Below a variable no binding of it is met again unless the term contains
itself, so the nesting of bindings is no deeper than the store is large. -/
def tree? (s : Store) (t : Term) : Option Term := t.expand (s.treeOfVar? s.size)

end Store

end LogicSearch
