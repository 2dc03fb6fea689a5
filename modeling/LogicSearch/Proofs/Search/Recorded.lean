import LogicSearch.Proofs.Loop
import LogicSearch.Search.Conjunction
import LogicSearch.Search.Disjunction

/-!
Children under observation. A recorded solver does what another one does, and besides numbers the
goals it starts and writes down what happens to each. The combinators do not look into their
children, so over a recorded solver they do what they do over the plain one.
-/

namespace LogicSearch

inductive ChildEvent where
  | created (child : Nat) (goal : Term)
  | refused (goal : Term)
  /-- A request for the next answer, and whether the child says afterwards that it committed. -/
  | asked (child : Nat) (answer : Except Halt Bool) (committed : Bool)
  | aborted (child : Nat)

abbrev History := List ChildEvent

def ChildEvent.isCreated : ChildEvent → Bool
  | created _ _ => true
  | _ => false

def History.children (h : History) : Nat := h.countP ChildEvent.isCreated

structure Child (G : Type) where
  number : Nat
  goal : G

structure Recorded (σ : Type) where
  state : σ
  history : History

namespace Recorded

variable {σ : Type}

def note (w : Recorded σ) (state : σ) (event : ChildEvent) : Recorded σ :=
  ⟨state, w.history ++ [event]⟩

end Recorded

variable {σ σ' G G' : Type}

def Solver.recorded (solver : Solver σ G) : Solver (Recorded σ) (Child G) where
  call t w := (solver.call t w.state).map fun called =>
    match called.1 with
    | .ok goal =>
        (.ok ⟨w.history.children, goal⟩, w.note called.2 (.created w.history.children t))
    | .error halt => (.error halt, w.note called.2 (.refused t))
  next child w := (solver.next child.goal w.state).map fun r =>
    ⟨r.answer, ⟨child.number, r.goal⟩,
      w.note r.state (.asked child.number r.answer (solver.committed r.goal))⟩
  abort child w :=
    (⟨child.number, (solver.abort child.goal w.state).1⟩,
      w.note (solver.abort child.goal w.state).2 (.aborted child.number))
  committed child := solver.committed child.goal

/-- The second solver is what the first one looks like through two views. -/
structure Solver.SeenAs (view : σ → σ') (look : G → G') (p : Solver σ G) (q : Solver σ' G') :
    Prop where
  call : ∀ t s, q.call t (view s) = (p.call t s).map fun r => (r.1.map look, view r.2)
  next : ∀ g s, q.next (look g) (view s) =
    (p.next g s).map fun r => ⟨r.answer, look r.goal, view r.state⟩
  abort : ∀ g s, q.abort (look g) (view s) = (look (p.abort g s).1, view (p.abort g s).2)
  committed : ∀ g, q.committed (look g) = p.committed g

theorem Solver.recorded_seenAs (solver : Solver σ G) :
    solver.recorded.SeenAs Recorded.state Child.goal solver where
  call t w := by
    simp only [recorded, Option.map_map]
    cases solver.call t w.state with
    | none => rfl
    | some called =>
        obtain ⟨result, s⟩ := called
        cases result <;> rfl
  next child w := by
    simp only [recorded, Option.map_map]
    cases solver.next child.goal w.state <;> rfl
  abort child w := rfl
  committed child := rfl

def Reply.view (view : σ → σ') (look : G → G') (r : Reply σ G) : Reply σ' G' :=
  ⟨r.answer, look r.goal, view r.state⟩

variable {view : σ → σ'} {look : G → G'} {p : Solver σ G} {q : Solver σ' G'}

namespace Conjunction

def Phase.map (look : G → G') : Phase G → Phase G'
  | .fresh => .fresh
  | .left goal => .left (look goal)
  | .right below goal => .right (look below) (look goal)
  | .done committed => .done committed

def map (look : G → G') (c : Conjunction G) : Conjunction G' :=
  ⟨c.left, c.right, c.phase.map look⟩

theorem step_seenAs (seen : p.SeenAs view look q) (c : Conjunction G) (s : σ) :
    step q (c.map look, view s) = (step p (c, s)).map
      (Turn.map (fun present => (present.1.map look, view present.2))
        (Reply.view view (map look))) := by
  obtain ⟨l, r, phase⟩ := c
  cases phase with
  | done committed => rfl
  | fresh =>
      simp only [map, Phase.map, step, seen.call]
      cases p.call l s with
      | none => rfl
      | some called =>
          obtain ⟨result, s⟩ := called
          cases result <;> rfl
  | left goal =>
      simp only [map, Phase.map, step, seen.next]
      cases p.next goal s with
      | none => rfl
      | some reply =>
          obtain ⟨answer, below, s⟩ := reply
          rcases answer with halt | _ | _
          · rfl
          · simp only [Option.map_some, seen.committed]
            rfl
          · simp only [Option.map_some, seen.call]
            cases p.call r s with
            | none => rfl
            | some called =>
                obtain ⟨result, s⟩ := called
                cases result <;> rfl
  | right below goal =>
      simp only [map, Phase.map, step, seen.next]
      cases p.next goal s with
      | none => rfl
      | some reply =>
          obtain ⟨answer, goal, s⟩ := reply
          rcases answer with halt | _ | _
          · rfl
          · simp only [Option.map_some, seen.committed, seen.abort]
            cases p.committed goal <;> rfl
          · rfl

theorem next_seenAs (seen : p.SeenAs view look q) (fuel : Nat) (c : Conjunction G) (s : σ) :
    (c.map look).next q fuel (view s) = (c.next p fuel s).map (Reply.view view (map look)) :=
  Turn.iterate_map (f := fun present : Conjunction G × σ => (present.1.map look, view present.2))
    (fun present => step_seenAs seen present.1 present.2) fuel (c, s)

theorem abort_seenAs (seen : p.SeenAs view look q) (c : Conjunction G) (s : σ) :
    (c.map look).abort q (view s) = ((c.abort p s).1.map look, view (c.abort p s).2) := by
  obtain ⟨l, r, phase⟩ := c
  cases phase <;> simp [abort, close, committed, goals, map, Phase.map, seen.abort]

end Conjunction

namespace Disjunction

def Phase.map (look : G → G') : Phase G → Phase G'
  | .fresh => .fresh
  | .left goal => .left (look goal)
  | .between => .between
  | .right goal => .right (look goal)
  | .done committed => .done committed

def map (look : G → G') (d : Disjunction G) : Disjunction G' :=
  ⟨d.left, d.right, d.phase.map look⟩

theorem step_seenAs (seen : p.SeenAs view look q) (d : Disjunction G) (s : σ) :
    step q (d.map look, view s) = (step p (d, s)).map
      (Turn.map (fun present => (present.1.map look, view present.2))
        (Reply.view view (map look))) := by
  obtain ⟨l, r, phase⟩ := d
  cases phase with
  | done committed => rfl
  | fresh =>
      simp only [map, Phase.map, step, seen.call]
      cases p.call l s with
      | none => rfl
      | some called =>
          obtain ⟨result, s⟩ := called
          cases result <;> rfl
  | between =>
      simp only [map, Phase.map, step, seen.call]
      cases p.call r s with
      | none => rfl
      | some called =>
          obtain ⟨result, s⟩ := called
          cases result <;> rfl
  | left goal =>
      simp only [map, Phase.map, step, seen.next]
      cases p.next goal s with
      | none => rfl
      | some reply =>
          obtain ⟨answer, goal, s⟩ := reply
          rcases answer with halt | _ | _
          · rfl
          · simp only [Option.map_some, seen.committed]
            cases p.committed goal <;> rfl
          · rfl
  | right goal =>
      simp only [map, Phase.map, step, seen.next]
      cases p.next goal s with
      | none => rfl
      | some reply =>
          obtain ⟨answer, goal, s⟩ := reply
          rcases answer with halt | _ | _
          · rfl
          · simp only [Option.map_some, seen.committed]
            rfl
          · rfl

theorem next_seenAs (seen : p.SeenAs view look q) (fuel : Nat) (d : Disjunction G) (s : σ) :
    (d.map look).next q fuel (view s) = (d.next p fuel s).map (Reply.view view (map look)) :=
  Turn.iterate_map (f := fun present : Disjunction G × σ => (present.1.map look, view present.2))
    (fun present => step_seenAs seen present.1 present.2) fuel (d, s)

theorem abort_seenAs (seen : p.SeenAs view look q) (d : Disjunction G) (s : σ) :
    (d.map look).abort q (view s) = ((d.abort p s).1.map look, view (d.abort p s).2) := by
  obtain ⟨l, r, phase⟩ := d
  cases phase <;> simp [abort, close, committed, goals, map, Phase.map, seen.abort]

end Disjunction

end LogicSearch
