import LogicSearch.Proofs.Store.Chain
import LogicSearch.Proofs.Loop
import LogicSearch.Store.Unify

namespace LogicSearch

/-- Variables, each with the binding it had when it was captured. -/
structure Capture where
  saved : List (Var × Option Term)
  deriving DecidableEq

namespace Capture

def join (p q : Capture) : Capture := ⟨p.saved ++ q.saved⟩

end Capture

namespace Store

/-- Give each variable the binding that was saved, those saved last first. -/
def reinstate (s : Store) (p : Capture) : Store :=
  p.saved.foldr (fun entry s => s.assign entry.1 entry.2) s

def captureStep (s : Store) : List Term × List (Var × Option Term) →
    Option (Turn (List Term × List (Var × Option Term)) Capture)
  | ([], saved) => some (.finish ⟨saved.reverse⟩)
  | (t :: pending, saved) =>
    match s.deref t with
    | none => none
    | some (.var v) => some (.again (pending, (v, s.lookup v) :: saved))
    | some (.compound _ first rest) => some (.again (first :: rest ++ pending, saved))
    | some (.atom _) | some (.int _) => some (.again (pending, saved))

def capture (s : Store) (fuel : Nat) (t : Term) : Option Capture :=
  Turn.iterate s.captureStep fuel ([t], [])

def attempt (s : Store) (fuel : Nat) (left right : Term) : Option (Option Capture × Store) :=
  match s.capture fuel left, s.capture fuel right with
  | some p, some q =>
    match s.unify fuel left right with
    | some (true, bound) => some (some (p.join q), bound)
    | some (false, bound) => some (none, bound.reinstate (p.join q))
    | none => none
  | _, _ => none

end Store

def unboundEach (vars : List Var) : List (Var × Option Term) := vars.map fun v => (v, none)

def Snapshot.capture (p : Snapshot) : Capture := ⟨unboundEach p.vars⟩

namespace Snapshot

theorem capture_join (p q : Snapshot) : (p.join q).capture = p.capture.join q.capture := by
  simp [capture, join, Capture.join, unboundEach]

theorem unbound_of_mem_capture {p : Snapshot} {entry : Var × Option Term}
    (member : entry ∈ p.capture.saved) : entry.1 ∈ p.vars ∧ entry.2 = none := by
  obtain ⟨v, saved, rfl⟩ := List.mem_map.mp member
  exact ⟨saved, rfl⟩

end Snapshot

namespace Store

variable {s : Store} {t l r : Term} {fuel : Nat}

theorem captureStep_eq (todo : List Term × List Var) :
    s.captureStep (Prod.map id unboundEach todo) =
      (s.snapshotStep todo).map (Turn.map (Prod.map id unboundEach) Snapshot.capture) := by
  obtain ⟨pending, found⟩ := todo
  cases pending with
  | nil => simp [captureStep, snapshotStep, Turn.map, Snapshot.capture, unboundEach]
  | cons t pending =>
      cases ends : s.deref t with
      | none => simp [captureStep, snapshotStep, ends]
      | some u =>
          cases u with
          | var v =>
              have unbound : s.lookup v = none := lookup_of_deref ends
              simp [captureStep, snapshotStep, ends, unbound, Turn.map, unboundEach]
          | _ => simp [captureStep, snapshotStep, ends, Turn.map]

theorem capture_eq : s.capture fuel t = (s.snapshot fuel t).map Snapshot.capture :=
  Turn.iterate_map captureStep_eq fuel ([t], [])

theorem lookup_assign (s : Store) (v w : Var) (binding : Option Term) :
    (s.assign v binding).lookup w = if v = w then binding else s.lookup w := by
  cases binding with
  | none => exact lookup_unbind s v w
  | some t => exact lookup_bind s v w t

theorem lookup_reinstate (s : Store) (p : Snapshot) (v : Var) :
    (s.reinstate p.capture).lookup v = if v ∈ p.vars then none else s.lookup v := by
  obtain ⟨vars⟩ := p
  simp only [reinstate, Snapshot.capture, unboundEach]
  induction vars with
  | nil => simp
  | cons w vars ih =>
      rw [List.map_cons, List.foldr_cons, lookup_assign, ih]
      grind

theorem reinstate_capture (s : Store) (p : Snapshot) : s.reinstate p.capture = s.restore p := by
  apply Store.ext
  intro v
  rw [lookup_reinstate, lookup_restore]

theorem attempt_eq : s.attempt fuel l r =
    (s.tryUnify fuel l r).map fun result => (result.1.map Snapshot.capture, result.2) := by
  simp only [attempt, tryUnify, capture_eq]
  cases s.snapshot fuel l with
  | none => rfl
  | some p =>
      cases s.snapshot fuel r with
      | none => rfl
      | some q =>
          cases s.unify fuel l r with
          | none => rfl
          | some result =>
              obtain ⟨answer, bound⟩ := result
              cases answer <;>
                simp only [Option.map_some, Option.map_none, ← Snapshot.capture_join,
                  reinstate_capture]

end Store

end LogicSearch
