import LogicSearch.Loop
import LogicSearch.Search.Solver

/-!
Disjunctions. The answers of the left goal come before those of the right one; a cut on the left
discards the right goal.
-/

namespace LogicSearch

inductive Disjunction.Phase (G : Type) where
  | fresh
  | left (goal : G)
  /-- The left goal has no more answers and the right one is not called yet. -/
  | between
  | right (goal : G)
  | done (committed : Bool)

structure Disjunction (G : Type) where
  left : Term
  right : Term
  phase : Disjunction.Phase G

namespace Disjunction

variable {σ G : Type}

def start (left right : Term) : Disjunction G := ⟨left, right, .fresh⟩

def goals (d : Disjunction G) : List G :=
  match d.phase with
  | .left goal | .right goal => [goal]
  | .fresh | .between | .done _ => []

def committed (d : Disjunction G) : Bool :=
  match d.phase with
  | .done committed => committed
  | _ => false

def close (d : Disjunction G) : Disjunction G := ⟨d.left, d.right, .done d.committed⟩

def abort (solver : Solver σ G) (d : Disjunction G) (state : σ) : Disjunction G × σ :=
  (d.close, d.goals.foldl (fun state goal => (solver.abort goal state).2) state)

def step (solver : Solver σ G) :
    Disjunction G × σ → Option (Turn (Disjunction G × σ) (Reply σ (Disjunction G)))
  | (⟨l, r, .done committed⟩, state) => some (.finish ⟨.ok false, ⟨l, r, .done committed⟩, state⟩)
  | (⟨l, r, .fresh⟩, state) =>
    match solver.call l state with
    | none => none
    | some (.ok goal, state) => some (.again (⟨l, r, .left goal⟩, state))
    | some (.error halt, state) => some (.finish ⟨.error halt, ⟨l, r, .fresh⟩, state⟩)
  | (⟨l, r, .between⟩, state) =>
    match solver.call r state with
    | none => none
    | some (.ok goal, state) => some (.again (⟨l, r, .right goal⟩, state))
    | some (.error halt, state) => some (.finish ⟨.error halt, ⟨l, r, .between⟩, state⟩)
  | (⟨l, r, .left goal⟩, state) =>
    match solver.next goal state with
    | none => none
    | some ⟨.error halt, goal, state⟩ =>
        some (.finish ⟨.error halt, ⟨l, r, .left goal⟩, state⟩)
    | some ⟨.ok true, goal, state⟩ => some (.finish ⟨.ok true, ⟨l, r, .left goal⟩, state⟩)
    | some ⟨.ok false, goal, state⟩ =>
        if solver.committed goal then some (.finish ⟨.ok false, ⟨l, r, .done true⟩, state⟩)
        else some (.again (⟨l, r, .between⟩, state))
  | (⟨l, r, .right goal⟩, state) =>
    match solver.next goal state with
    | none => none
    | some ⟨.error halt, goal, state⟩ =>
        some (.finish ⟨.error halt, ⟨l, r, .right goal⟩, state⟩)
    | some ⟨.ok true, goal, state⟩ => some (.finish ⟨.ok true, ⟨l, r, .right goal⟩, state⟩)
    | some ⟨.ok false, goal, state⟩ =>
        some (.finish ⟨.ok false, ⟨l, r, .done (solver.committed goal)⟩, state⟩)

theorem step_within {narrow wide : Solver σ G} (within : narrow.Within wide)
    (present : Disjunction G × σ) (turn : Turn (Disjunction G × σ) (Reply σ (Disjunction G)))
    (done : step narrow present = some turn) : step wide present = some turn := by
  obtain ⟨⟨l, r, phase⟩, state⟩ := present
  cases phase with
  | done committed => exact done
  | fresh =>
      simp only [step, ← within.call] at done ⊢
      exact done
  | between =>
      simp only [step, ← within.call] at done ⊢
      exact done
  | left goal =>
      simp only [step, ← within.committed] at done ⊢
      cases reply : narrow.next goal state with
      | none => simp [reply] at done
      | some found =>
          rw [reply] at done
          rw [within.next _ _ _ reply]
          exact done
  | right goal =>
      simp only [step, ← within.committed] at done ⊢
      cases reply : narrow.next goal state with
      | none => simp [reply] at done
      | some found =>
          rw [reply] at done
          rw [within.next _ _ _ reply]
          exact done

def next (solver : Solver σ G) (fuel : Nat) (d : Disjunction G) (state : σ) :
    Option (Reply σ (Disjunction G)) :=
  Turn.iterate (step solver) fuel (d, state)

theorem next_within {narrow wide : Solver σ G} (within : narrow.Within wide) {fuel more : Nat}
    (enough : fuel ≤ more) {d : Disjunction G} {state : σ} {reply : Reply σ (Disjunction G)}
    (done : d.next narrow fuel state = some reply) : d.next wide more state = some reply :=
  Turn.iterate_mono (step_within within) enough done

end Disjunction

end LogicSearch
