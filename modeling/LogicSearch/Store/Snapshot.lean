import LogicSearch.Loop
import LogicSearch.Store.Basic

namespace LogicSearch

structure Snapshot where
  vars : List Var
  deriving DecidableEq, Repr

namespace Snapshot

def empty : Snapshot := ⟨[]⟩

def join (p q : Snapshot) : Snapshot := ⟨p.vars ++ q.vars⟩

def size (p : Snapshot) : Nat := p.vars.length

def isEmpty (p : Snapshot) : Bool := p.vars.isEmpty

end Snapshot

namespace Store

def restore (s : Store) (p : Snapshot) : Store := p.vars.foldl unbind s

/-- Visit the next term; `found` holds the free occurrences met so far, the latest first. -/
def snapshotStep (s : Store) :
    List Term × List Var → Option (Turn (List Term × List Var) Snapshot)
  | ([], found) => some (.finish ⟨found.reverse⟩)
  | (t :: pending, found) =>
    match s.deref t with
    | none => none
    | some (.var v) => some (.again (pending, v :: found))
    | some (.compound _ first rest) => some (.again (first :: rest ++ pending, found))
    | some (.atom _) | some (.int _) => some (.again (pending, found))

def snapshot (s : Store) (fuel : Nat) (t : Term) : Option Snapshot :=
  Turn.iterate s.snapshotStep fuel ([t], [])

theorem snapshot_mono {s : Store} {fuel more : Nat} (enough : fuel ≤ more) {t : Term}
    {p : Snapshot} (done : s.snapshot fuel t = some p) : s.snapshot more t = some p :=
  Turn.iterate_mono (fun _ _ same => same) enough done

theorem lookup_restore (s : Store) (p : Snapshot) (v : Var) :
    (s.restore p).lookup v = if v ∈ p.vars then none else s.lookup v := by
  obtain ⟨vars⟩ := p
  simp only [restore]
  induction vars generalizing s with
  | nil => simp
  | cons w vars ih =>
      simp only [List.foldl_cons, ih, lookup_unbind, List.mem_cons]
      grind

end Store

end LogicSearch
