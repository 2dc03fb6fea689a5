import LogicSearch.Store.Unify

/-!
Membership: an element is unified with the head of each list cell in turn. The walk ends at the
first tail that is no list cell, and an open list is not extended.
-/

namespace LogicSearch

inductive Member.Phase where
  | fresh (list : Term)
  /-- The element was tried on the cell before `tail`; its free variables and those of the head
  undo the attempt. -/
  | tried (element head : Snapshot) (tail : Term)
  | done
  deriving DecidableEq

namespace Member

def undo (s : Store) (element head : Snapshot) : Store := (s.restore head).restore element

def step (fuel : Nat) (element : Term) (saved : Snapshot) :
    Term × Store → Option (Turn (Term × Store) (Bool × Phase × Store))
  | (list, s) =>
    match s.cell? list with
    | none => none
    | some none => some (.finish (false, .done, s))
    | some (some (head, tail)) =>
      match s.snapshot fuel head with
      | none => none
      | some savedHead =>
        match s.unify fuel element head with
        | none => none
        | some (true, s) => some (.finish (true, .tried saved savedHead tail, s))
        | some (false, s) => some (.again (tail, undo s saved savedHead))

def next (fuel : Nat) (element : Term) (s : Store) : Phase → Option (Bool × Phase × Store)
  | .done => some (false, .done, s)
  | .fresh list =>
    match s.snapshot fuel element with
    | none => none
    | some saved => Turn.iterate (step fuel element saved) fuel (list, s)
  | .tried saved savedHead tail =>
      Turn.iterate (step fuel element saved) fuel (tail, undo s saved savedHead)

theorem step_mono {fuel more : Nat} (enough : fuel ≤ more) {element : Term} {saved : Snapshot}
    (position : Term × Store) (turn : Turn (Term × Store) (Bool × Phase × Store))
    (done : step fuel element saved position = some turn) :
    step more element saved position = some turn := by
  obtain ⟨list, s⟩ := position
  simp only [step] at done ⊢
  split at done
  · exact done
  · exact done
  · rename_i head tail _
    cases first : s.snapshot fuel head with
    | none => simp [first] at done
    | some savedHead =>
        cases attempt : s.unify fuel element head with
        | none => simp [first, attempt] at done
        | some answer =>
            rw [first, attempt] at done
            rw [Store.snapshot_mono enough first, Store.unify_mono enough attempt]
            exact done

theorem next_mono {fuel more : Nat} (enough : fuel ≤ more) {element : Term} {s : Store}
    {phase : Phase} {r : Bool × Phase × Store} (done : next fuel element s phase = some r) :
    next more element s phase = some r := by
  cases phase with
  | done => exact done
  | tried saved savedHead tail => exact Turn.iterate_mono (step_mono enough) enough done
  | fresh list =>
      simp only [next] at done ⊢
      cases first : s.snapshot fuel element with
      | none => simp [first] at done
      | some saved =>
          rw [first] at done
          rw [Store.snapshot_mono enough first]
          exact Turn.iterate_mono (step_mono enough) enough done

def abort (s : Store) : Phase → Phase × Store
  | .tried saved savedHead _ => (.done, undo s saved savedHead)
  | _ => (.done, s)

end Member

end LogicSearch
