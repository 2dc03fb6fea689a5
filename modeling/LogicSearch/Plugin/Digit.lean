import LogicSearch.Machine
import LogicSearch.Search.Solver
import LogicSearch.Store.Unify

namespace LogicSearch

structure Digit where
  arg : Term
  saved : Option Snapshot
  upcoming : Nat

namespace Digit

def start (arg : Term) : Digit := ⟨arg, none, 0⟩

def step (fuel : Nat) (arg : Term) (saved : Snapshot) :
    Nat × Store → Option (Turn (Nat × Store) (Bool × Nat × Store))
  | (digit, s) =>
    if digit < 10 then
      match (s.restore saved).unify fuel arg (.int (Int64.ofNat digit)) with
      | none => none
      | some (true, s) => some (.finish (true, digit + 1, s))
      | some (false, s) => some (.again (digit + 1, s))
    else some (.finish (false, digit, s.restore saved))

def snapshot (fuel : Nat) (d : Digit) (s : Store) : Option Snapshot :=
  match d.saved with
  | some saved => some saved
  | none => s.snapshot fuel d.arg

def next (fuel : Nat) (d : Digit) (m : Machine) : Option (Reply Machine Digit) :=
  match d.snapshot fuel m.store with
  | none => none
  | some saved =>
    (Turn.iterate (step fuel d.arg saved) fuel (d.upcoming, m.store)).map fun r =>
      ⟨.ok r.1, ⟨d.arg, some saved, r.2.1⟩, m.withStore r.2.2⟩

theorem step_mono {fuel more : Nat} (enough : fuel ≤ more) {arg : Term} {saved : Snapshot}
    (position : Nat × Store) (turn : Turn (Nat × Store) (Bool × Nat × Store))
    (done : step fuel arg saved position = some turn) :
    step more arg saved position = some turn := by
  obtain ⟨digit, s⟩ := position
  simp only [step] at done ⊢
  by_cases left : digit < 10
  · rw [if_pos left] at done ⊢
    cases attempt : (s.restore saved).unify fuel arg (.int (Int64.ofNat digit)) with
    | none => simp [attempt] at done
    | some answer =>
        rw [attempt] at done
        rw [Store.unify_mono enough attempt]
        exact done
  · rw [if_neg left] at done ⊢
    exact done

theorem next_mono {fuel more : Nat} (enough : fuel ≤ more) {d : Digit} {m : Machine}
    {r : Reply Machine Digit} (done : d.next fuel m = some r) : d.next more m = some r := by
  unfold next at done ⊢
  cases first : d.snapshot fuel m.store with
  | none => simp [first] at done
  | some saved =>
      have kept : d.snapshot more m.store = some saved := by
        unfold snapshot at first ⊢
        split at first
        · exact first
        · exact Store.snapshot_mono enough first
      rw [first] at done
      rw [kept]
      obtain ⟨found, ended, same⟩ := Option.map_eq_some_iff.mp done
      exact Option.map_eq_some_iff.mpr
        ⟨found, Turn.iterate_mono (step_mono enough) enough ended, same⟩

def abort (d : Digit) (m : Machine) : Digit × Machine :=
  (⟨d.arg, d.saved, 10⟩, match d.saved with
    | some saved => m.restore saved
    | none => m)

end Digit

end LogicSearch
