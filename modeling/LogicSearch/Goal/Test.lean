import LogicSearch.Arithmetic.Eval
import LogicSearch.Store.Kind
import LogicSearch.Store.Unify

namespace LogicSearch

inductive Comparison where
  | equal
  | notEqual
  | less
  | lessOrEqual
  | greater
  | greaterOrEqual
  deriving DecidableEq, Repr

namespace Comparison

def holds : Comparison → Int64 → Int64 → Bool
  | equal, x, y => x == y
  | notEqual, x, y => x != y
  | less, x, y => x < y
  | lessOrEqual, x, y => x ≤ y
  | greater, x, y => x > y
  | greaterOrEqual, x, y => x ≥ y

end Comparison

inductive Test where
  | truth
  | failure
  | cut
  | notUnifiable (left right : Term)
  | ofKind (kind : Kind) (t : Term)
  | compare (comparison : Comparison) (left right : Term)
  deriving DecidableEq

namespace Test

/-- Run a test. Terms that unify are separated again at once. -/
def run (fuel : Nat) (s : Store) : Test → Option (Except Halt Bool × Store)
  | truth | cut => some (.ok true, s)
  | failure => some (.ok false, s)
  | ofKind kind t =>
    match s.is kind t with
    | none => none
    | some holds => some (.ok holds, s)
  | notUnifiable left right =>
    match s.tryUnify fuel left right with
    | none => none
    | some (some undo, bound) => some (.ok false, bound.restore undo)
    | some (none, restored) => some (.ok true, restored)
  | compare comparison left right =>
    match s.eval left with
    | none => none
    | some (.error halt) => some (.error halt, s)
    | some (.ok x) =>
      match s.eval right with
      | none => none
      | some (.error halt) => some (.error halt, s)
      | some (.ok y) => some (.ok (comparison.holds x y), s)

theorem run_mono {fuel more : Nat} (enough : fuel ≤ more) {s : Store} {t : Test}
    {r : Except Halt Bool × Store} (done : t.run fuel s = some r) : t.run more s = some r := by
  cases t with
  | notUnifiable left right =>
      simp only [run] at done ⊢
      cases attempt : s.tryUnify fuel left right with
      | none => simp [attempt] at done
      | some answer =>
          rw [attempt] at done
          rw [Store.tryUnify_mono enough attempt]
          exact done
  | _ => exact done

end Test

end LogicSearch
