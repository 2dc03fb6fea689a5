import LogicSearch.Arithmetic.Eval
import LogicSearch.Store.Unify

namespace LogicSearch

inductive Equation where
  | unify (left right : Term)
  | evaluate (result expression : Term)
  deriving DecidableEq

inductive Equation.Phase where
  | fresh
  | bound (undo : Snapshot)
  | spent
  deriving DecidableEq, Repr

namespace Equation

def sides (s : Store) : Equation → Option (Except Halt (Term × Term))
  | unify left right => some (.ok (left, right))
  | evaluate result expression =>
    match s.eval expression with
    | none => none
    | some (.error halt) => some (.error halt)
    | some (.ok value) => some (.ok (result, .int value))

def next (fuel : Nat) (e : Equation) (s : Store) : Phase →
    Option (Except Halt Bool × Phase × Store)
  | .spent => some (.ok false, .spent, s)
  | .bound undo => some (.ok false, .spent, s.restore undo)
  | .fresh =>
    match e.sides s with
    | none => none
    | some (.error halt) => some (.error halt, .spent, s)
    | some (.ok (left, right)) =>
      match s.tryUnify fuel left right with
      | none => none
      | some (some undo, s) => some (.ok true, .bound undo, s)
      | some (none, s) => some (.ok false, .spent, s)

theorem next_mono {fuel more : Nat} (enough : fuel ≤ more) {e : Equation} {s : Store}
    {phase : Phase} {r : Except Halt Bool × Phase × Store}
    (done : e.next fuel s phase = some r) : e.next more s phase = some r := by
  cases phase with
  | fresh =>
      simp only [next] at done ⊢
      split at done
      · exact done
      · exact done
      · rename_i left right _
        cases attempt : s.tryUnify fuel left right with
        | none => simp [attempt] at done
        | some answer =>
            rw [attempt] at done
            rw [Store.tryUnify_mono enough attempt]
            exact done
  | _ => exact done

/-- Giving up undoes an answer. An equation that was never asked can still be asked. -/
def abort (s : Store) : Phase → Phase × Store
  | .bound undo => (.spent, s.restore undo)
  | phase => (phase, s)

end Equation

end LogicSearch
