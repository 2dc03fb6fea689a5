import LogicSearch.Loop
import LogicSearch.Store.Basic

namespace LogicSearch

/-- A compound whose arguments are being resolved: those done, the latest first, and those to do. -/
structure OpenCompound where
  functor : Atom
  done : List Term
  todo : List Term

inductive Focus where
  | visit (t : Term)
  | resolved (t : Term)

namespace Store

def resolveStep (s : Store) :
    Focus × List OpenCompound → Option (Turn (Focus × List OpenCompound) Term)
  | (.visit t, enclosing) =>
    match s.deref t with
    | none => none
    | some (.compound f first rest) => some (.again (.visit first, ⟨f, [], rest⟩ :: enclosing))
    | some t => some (.again (.resolved t, enclosing))
  | (.resolved t, []) => some (.finish t)
  | (.resolved t, ⟨f, done, next :: todo⟩ :: enclosing) =>
      some (.again (.visit next, ⟨f, t :: done, todo⟩ :: enclosing))
  | (.resolved t, ⟨f, done, []⟩ :: enclosing) =>
      some (.again (.resolved (.app f (t :: done).reverse), enclosing))

def resolve (s : Store) (fuel : Nat) (t : Term) : Option Term :=
  Turn.iterate s.resolveStep fuel (.visit t, [])

theorem resolve_mono {s : Store} {fuel more : Nat} (enough : fuel ≤ more) {t u : Term}
    (done : s.resolve fuel t = some u) : s.resolve more t = some u :=
  Turn.iterate_mono (fun _ _ same => same) enough done

end Store

end LogicSearch
