import LogicSearch.Loop
import LogicSearch.Search.Solver

/-!
Conjunctions. Each answer of the left goal is paired with all answers the right goal has under it; a
cut on the right ends the left goal too.
-/

namespace LogicSearch

inductive Conjunction.Phase (G : Type) where
  | fresh
  | left (goal : G)
  /-- The right goal, called under the present answer of the left one, is asked next. -/
  | right (below goal : G)
  | done (committed : Bool)

structure Conjunction (G : Type) where
  left : Term
  right : Term
  phase : Conjunction.Phase G

namespace Conjunction

variable {σ G : Type}

def start (left right : Term) : Conjunction G := ⟨left, right, .fresh⟩

def goals (c : Conjunction G) : List G :=
  match c.phase with
  | .fresh | .done _ => []
  | .left goal => [goal]
  | .right below goal => [goal, below]

def committed (c : Conjunction G) : Bool :=
  match c.phase with
  | .done committed => committed
  | _ => false

def close (c : Conjunction G) : Conjunction G := ⟨c.left, c.right, .done c.committed⟩

/-- Give up the goals in progress, the right one before the left one. -/
def abort (solver : Solver σ G) (c : Conjunction G) (state : σ) : Conjunction G × σ :=
  (c.close, c.goals.foldl (fun state goal => (solver.abort goal state).2) state)

def step (solver : Solver σ G) :
    Conjunction G × σ → Option (Turn (Conjunction G × σ) (Reply σ (Conjunction G)))
  | (⟨l, r, .done committed⟩, state) => some (.finish ⟨.ok false, ⟨l, r, .done committed⟩, state⟩)
  | (⟨l, r, .fresh⟩, state) =>
    match solver.call l state with
    | none => none
    | some (.ok goal, state) => some (.again (⟨l, r, .left goal⟩, state))
    | some (.error halt, state) => some (.finish ⟨.error halt, ⟨l, r, .fresh⟩, state⟩)
  | (⟨l, r, .left goal⟩, state) =>
    match solver.next goal state with
    | none => none
    | some ⟨.error halt, goal, state⟩ =>
        some (.finish ⟨.error halt, ⟨l, r, .left goal⟩, state⟩)
    | some ⟨.ok false, goal, state⟩ =>
        some (.finish ⟨.ok false, ⟨l, r, .done (solver.committed goal)⟩, state⟩)
    | some ⟨.ok true, below, state⟩ =>
      match solver.call r state with
      | none => none
      | some (.ok goal, state) => some (.again (⟨l, r, .right below goal⟩, state))
      | some (.error halt, state) => some (.finish ⟨.error halt, ⟨l, r, .left below⟩, state⟩)
  | (⟨l, r, .right below goal⟩, state) =>
    match solver.next goal state with
    | none => none
    | some ⟨.error halt, goal, state⟩ =>
        some (.finish ⟨.error halt, ⟨l, r, .right below goal⟩, state⟩)
    | some ⟨.ok true, goal, state⟩ =>
        some (.finish ⟨.ok true, ⟨l, r, .right below goal⟩, state⟩)
    | some ⟨.ok false, goal, state⟩ =>
        if solver.committed goal then
          some (.finish ⟨.ok false, ⟨l, r, .done true⟩, (solver.abort below state).2⟩)
        else some (.again (⟨l, r, .left below⟩, state))

theorem step_within {narrow wide : Solver σ G} (within : narrow.Within wide)
    (present : Conjunction G × σ) (turn : Turn (Conjunction G × σ) (Reply σ (Conjunction G)))
    (done : step narrow present = some turn) : step wide present = some turn := by
  obtain ⟨⟨l, r, phase⟩, state⟩ := present
  cases phase with
  | done committed => exact done
  | fresh =>
      simp only [step, ← within.call] at done ⊢
      exact done
  | left goal =>
      simp only [step, ← within.call, ← within.committed] at done ⊢
      cases reply : narrow.next goal state with
      | none => simp [reply] at done
      | some found =>
          rw [reply] at done
          rw [within.next _ _ _ reply]
          exact done
  | right below goal =>
      simp only [step, ← within.abort, ← within.committed] at done ⊢
      cases reply : narrow.next goal state with
      | none => simp [reply] at done
      | some found =>
          rw [reply] at done
          rw [within.next _ _ _ reply]
          exact done

def next (solver : Solver σ G) (fuel : Nat) (c : Conjunction G) (state : σ) :
    Option (Reply σ (Conjunction G)) :=
  Turn.iterate (step solver) fuel (c, state)

theorem next_within {narrow wide : Solver σ G} (within : narrow.Within wide) {fuel more : Nat}
    (enough : fuel ≤ more) {c : Conjunction G} {state : σ} {reply : Reply σ (Conjunction G)}
    (done : c.next narrow fuel state = some reply) : c.next wide more state = some reply :=
  Turn.iterate_mono (step_within within) enough done

end Conjunction

end LogicSearch
