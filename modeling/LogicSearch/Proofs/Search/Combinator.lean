import LogicSearch.Proofs.Search.History
import LogicSearch.Proofs.Search.Moves

namespace LogicSearch

variable {σ G : Type}

namespace Turn

def present {α : Type} : Turn (α × σ) (Reply σ α) → α × σ
  | again next => next
  | finish reply => (reply.goal, reply.state)

end Turn

namespace Solver

variable {solver : Solver σ G} {t : Term} {child child' : Child G} {w w' : Recorded σ} {halt : Halt}
  {answer : Except Halt Bool}

theorem recorded_created (called : solver.recorded.call t w = some (.ok child, w')) :
    child.number = w.history.children ∧
      w'.history = w.history ++ [.created w.history.children t] := by
  obtain ⟨⟨result, s⟩, -, same⟩ := Option.map_eq_some_iff.mp called
  cases result <;> cases same
  exact ⟨rfl, rfl⟩

theorem recorded_refused (called : solver.recorded.call t w = some (.error halt, w')) :
    w'.history = w.history ++ [.refused t] := by
  obtain ⟨⟨result, s⟩, -, same⟩ := Option.map_eq_some_iff.mp called
  cases result <;> cases same
  rfl

theorem recorded_asked (asked : solver.recorded.next child w = some ⟨answer, child', w'⟩) :
    child'.number = child.number ∧
      w'.history = w.history ++
        [.asked child.number answer (solver.recorded.committed child')] := by
  obtain ⟨r, -, same⟩ := Option.map_eq_some_iff.mp asked
  cases same
  exact ⟨rfl, rfl⟩

theorem recorded_abort_each (children : List (Child G)) (w : Recorded σ) :
    (children.foldl (fun w child => (solver.recorded.abort child w).2) w).history =
      w.history ++ (children.map Child.number).map .aborted := by
  induction children generalizing w with
  | nil => simp
  | cons child children ih =>
      rw [List.foldl_cons, ih]
      exact List.append_assoc _ [_] _

end Solver

/-- Goals made of other goals. They do not look into these, and treat them as a stack: only the one
on top is asked, and one that fails is taken off. -/
class Combinator (X : Type → Type) where
  next {σ G : Type} : Solver σ G → Nat → X G → σ → Option (Reply σ (X G))
  abort {σ G : Type} : Solver σ G → X G → σ → X G × σ
  goals {G : Type} : X G → List G
  Over {G : Type} : X G → Prop
  map {G G' : Type} : (G → G') → X G → X G'
  next_seenAs {σ σ' G G' : Type} {view : σ → σ'} {look : G → G'} {p : Solver σ G}
    {q : Solver σ' G'} : p.SeenAs view look q → ∀ fuel x s,
      next q fuel (map look x) (view s) = (next p fuel x s).map (Reply.view view (map look))
  abort_seenAs {σ σ' G G' : Type} {view : σ → σ'} {look : G → G'} {p : Solver σ G}
    {q : Solver σ' G'} : p.SeenAs view look q → ∀ x s,
      abort q (map look x) (view s) = (map look (abort p x s).1, view (abort p x s).2)
  stacked_next {σ G : Type} {solver : Solver σ G} {fuel : Nat} {x : X (Child G)} {w : Recorded σ}
    {reply : Reply (Recorded σ) (X (Child G))} :
    History.Stacked ((goals x).map Child.number) w.history →
      next solver.recorded fuel x w = some reply →
        History.Stacked ((goals reply.goal).map Child.number) reply.state.history
  abort_state {σ G : Type} (solver : Solver σ G) (x : X G) (s : σ) :
    (abort solver x s).2 = (goals x).foldl (fun s goal => (solver.abort goal s).2) s
  over_abort {σ G : Type} (solver : Solver σ G) (x : X G) (s : σ) : Over (abort solver x s).1
  over_of_failure {σ G : Type} {solver : Solver σ G} {fuel : Nat} {x x' : X G} {s s' : σ} :
    next solver fuel x s = some ⟨.ok false, x', s'⟩ → Over x'
  goals_of_over {G : Type} {x : X G} : Over x → goals x = []
  next_of_over {σ G : Type} {solver : Solver σ G} {fuel : Nat} {x : X G} {s : σ}
    {reply : Reply σ (X G)} : Over x → next solver fuel x s = some reply → reply = ⟨.ok false, x, s⟩

namespace Conjunction

variable {solver : Solver σ G}

/-- Every move leaves on the stack what was there, with a new child or without the top. -/
theorem Moves.stacked {present : Conjunction (Child G) × Recorded σ}
    {turn : Turn (Conjunction (Child G) × Recorded σ)
      (Reply (Recorded σ) (Conjunction (Child G)))}
    (moves : Moves solver.recorded.protocol present turn)
    (stacked : History.Stacked (present.1.goals.map Child.number) present.2.history) :
    History.Stacked (turn.present.1.goals.map Child.number) turn.present.2.history := by
  cases moves with
  | done => exact stacked
  | calls called =>
      obtain ⟨number, history⟩ := Solver.recorded_created called
      simpa [Turn.present, goals, number, history] using stacked.created
  | refused called =>
      simpa [Turn.present, goals, Solver.recorded_refused called] using stacked.refused
  | leftHalts asked | rightHalts asked | rightAnswers asked =>
      obtain ⟨number, history⟩ := Solver.recorded_asked asked
      simpa [Turn.present, goals, number, history] using stacked.asked (by simp)
  | leftFails asked | rightFails asked _ =>
      obtain ⟨number, history⟩ := Solver.recorded_asked asked
      simpa [Turn.present, goals, history] using stacked.failed
  | leftAnswers asked called =>
      obtain ⟨number, history⟩ := Solver.recorded_asked asked
      obtain ⟨number', history'⟩ := Solver.recorded_created called
      simpa [Turn.present, goals, number, number', history, history'] using
        (stacked.asked (by simp)).created
  | rightRefused asked called =>
      obtain ⟨number, history⟩ := Solver.recorded_asked asked
      simpa [Turn.present, goals, number, history, Solver.recorded_refused called] using
        (stacked.asked (by simp)).refused
  | @rightCommits l r below g g' w w' asked _ =>
      have popped : History.Stacked [below.number] w'.history := by
        rw [(Solver.recorded_asked asked).2]
        exact stacked.failed
      exact popped.aborted

instance : Combinator Conjunction where
  next := next
  abort := abort
  goals := goals
  Over c := ∃ committed, c.phase = .done committed
  map := map
  next_seenAs := next_seenAs
  abort_seenAs := abort_seenAs
  stacked_next stacked done :=
    (Turn.leads_of_iterate (fun _ _ => moves_of_step) done).invariant
      (fun present => History.Stacked (present.1.goals.map Child.number) present.2.history)
      (fun reply => History.Stacked (reply.goal.goals.map Child.number) reply.state.history)
      (fun _ _ stacked moves => moves.stacked stacked)
      (fun _ _ stacked moves => moves.stacked stacked) stacked
  abort_state _ _ _ := rfl
  over_abort _ c _ := ⟨c.committed, rfl⟩
  over_of_failure failed := by
    obtain ⟨l, r, committed, rfl⟩ := done_of_failure failed
    exact ⟨committed, rfl⟩
  goals_of_over ended := by
    obtain ⟨committed, done⟩ := ended
    rw [goals, done]
  next_of_over := by
    rintro σ G solver fuel ⟨l, r, phase⟩ s reply ⟨committed, rfl⟩ done
    cases fuel with
    | zero => cases done
    | succ fuel =>
        cases done
        rfl

end Conjunction

namespace Disjunction

variable {solver : Solver σ G}

theorem Moves.stacked {present : Disjunction (Child G) × Recorded σ}
    {turn : Turn (Disjunction (Child G) × Recorded σ)
      (Reply (Recorded σ) (Disjunction (Child G)))}
    (moves : Moves solver.recorded.protocol present turn)
    (stacked : History.Stacked (present.1.goals.map Child.number) present.2.history) :
    History.Stacked (turn.present.1.goals.map Child.number) turn.present.2.history := by
  cases moves with
  | done => exact stacked
  | calls called | callsRight called =>
      obtain ⟨number, history⟩ := Solver.recorded_created called
      simpa [Turn.present, goals, number, history] using stacked.created
  | refused called | rightRefused called =>
      simpa [Turn.present, goals, Solver.recorded_refused called] using stacked.refused
  | leftHalts asked | leftAnswers asked | rightHalts asked | rightAnswers asked =>
      obtain ⟨number, history⟩ := Solver.recorded_asked asked
      simpa [Turn.present, goals, number, history] using stacked.asked (by simp)
  | leftFails asked _ | leftCommits asked _ | rightFails asked =>
      obtain ⟨number, history⟩ := Solver.recorded_asked asked
      simpa [Turn.present, goals, history] using stacked.failed

instance : Combinator Disjunction where
  next := next
  abort := abort
  goals := goals
  Over d := ∃ committed, d.phase = .done committed
  map := map
  next_seenAs := next_seenAs
  abort_seenAs := abort_seenAs
  stacked_next stacked done :=
    (Turn.leads_of_iterate (fun _ _ => moves_of_step) done).invariant
      (fun present => History.Stacked (present.1.goals.map Child.number) present.2.history)
      (fun reply => History.Stacked (reply.goal.goals.map Child.number) reply.state.history)
      (fun _ _ stacked moves => moves.stacked stacked)
      (fun _ _ stacked moves => moves.stacked stacked) stacked
  abort_state _ _ _ := rfl
  over_abort _ d _ := ⟨d.committed, rfl⟩
  over_of_failure failed := by
    obtain ⟨l, r, committed, rfl⟩ := done_of_failure failed
    exact ⟨committed, rfl⟩
  goals_of_over ended := by
    obtain ⟨committed, done⟩ := ended
    rw [goals, done]
  next_of_over := by
    rintro σ G solver fuel ⟨l, r, phase⟩ s reply ⟨committed, rfl⟩ done
    cases fuel with
    | zero => cases done
    | succ fuel =>
        cases done
        rfl

end Disjunction

namespace Combinator

variable {X : Type → Type} [Combinator X] {solver : Solver σ G} {first x : X (Child G)}
  {h : History} {ended : Bool}

/-- Requests made on a combinator one after the other, and what became of its children. It has ended
once it has failed or has been given up. Every request may find children that behave differently,
and another state. -/
inductive Session (σ : Type) (first : X (Child G)) : Bool → X (Child G) → History → Prop where
  | start : Session σ first false first []
  | goesOn {ended : Bool} {x : X (Child G)} {h : History} {solver : Solver σ G} {fuel : Nat} {s : σ}
      {reply : Reply (Recorded σ) (X (Child G))} : Session σ first ended x h →
      next solver.recorded fuel x ⟨s, h⟩ = some reply → reply.answer ≠ .ok false →
      Session σ first ended reply.goal reply.state.history
  | fails {ended : Bool} {x : X (Child G)} {h : History} {solver : Solver σ G} {fuel : Nat} {s : σ}
      {reply : Reply (Recorded σ) (X (Child G))} : Session σ first ended x h →
      next solver.recorded fuel x ⟨s, h⟩ = some reply → reply.answer = .ok false →
      Session σ first true reply.goal reply.state.history
  | aborted {ended : Bool} {x : X (Child G)} {h : History} {solver : Solver σ G} {s : σ} :
      Session σ first ended x h →
      Session σ first true (abort solver.recorded x ⟨s, h⟩).1
        (abort solver.recorded x ⟨s, h⟩).2.history

theorem Session.failed {h' : History} {fuel : Nat} {s : σ} (session : Session σ first ended x h)
    (done : (next solver.recorded fuel x ⟨s, h⟩).map (fun r => (r.answer, r.state.history)) =
      some (.ok false, h')) : ∃ x', Session σ first true x' h' := by
  obtain ⟨reply, asked, same⟩ := Option.map_eq_some_iff.mp done
  simp only [Prod.mk.injEq] at same
  obtain ⟨failed, rfl⟩ := same
  exact ⟨reply.goal, .fails session asked failed⟩

/-- Observing the children makes no difference to what a combinator does. -/
theorem next_recorded (fuel : Nat) (x : X (Child G)) (w : Recorded σ) :
    next solver fuel (map Child.goal x) w.state =
      (next solver.recorded fuel x w).map (Reply.view Recorded.state (map Child.goal)) :=
  next_seenAs solver.recorded_seenAs fuel x w

theorem abort_recorded (x : X (Child G)) (w : Recorded σ) :
    abort solver (map Child.goal x) w.state =
      (map Child.goal (abort solver.recorded x w).1, (abort solver.recorded x w).2.state) :=
  abort_seenAs solver.recorded_seenAs x w

theorem abort_history (x : X (Child G)) (w : Recorded σ) :
    (abort solver.recorded x w).2.history =
      w.history ++ ((goals x).map Child.number).map .aborted := by
  rw [abort_state, Solver.recorded_abort_each]

theorem Session.stacked (session : Session σ first ended x h) (unstarted : goals first = []) :
    History.Stacked ((goals x).map Child.number) h ∧ (ended = true → Over x) := by
  induction session with
  | start =>
      rw [unstarted]
      exact ⟨.nil, nofun⟩
  | goesOn _ done _ ih =>
      refine ⟨stacked_next ih.1 done, fun ended => ?_⟩
      rw [next_of_over (ih.2 ended) done]
      exact ih.2 ended
  | @fails _ _ _ _ _ _ reply _ done failed ih =>
      obtain ⟨answer, x', w⟩ := reply
      cases failed
      exact ⟨stacked_next ih.1 done, fun _ => over_of_failure done⟩
  | @aborted _ x h solver s _ ih =>
      refine ⟨?_, fun _ => over_abort solver.recorded x ⟨s, h⟩⟩
      rw [goals_of_over (over_abort solver.recorded x ⟨s, h⟩), abort_history]
      exact ih.1.abort_all

/-- Nothing is left to do for the children: each has ended, and no request reaches any of them or
makes another. -/
def Finished (σ : Type) (x : X (Child G)) (h : History) : Prop :=
  h.Settled ∧ ∀ (solver : Solver σ G) (s : σ),
    (∀ fuel reply, next solver.recorded fuel x ⟨s, h⟩ = some reply →
      reply.answer = .ok false ∧ reply.state.history = h) ∧
    (abort solver.recorded x ⟨s, h⟩).2.history = h

theorem Session.finished (session : Session σ first true x h) (unstarted : goals first = []) :
    Finished σ x h := by
  obtain ⟨stacked, ends⟩ := session.stacked unstarted
  have none := goals_of_over (ends rfl)
  rw [none] at stacked
  refine ⟨stacked.settled, fun solver s => ⟨?_, ?_⟩⟩
  · intro fuel reply done
    rw [next_of_over (ends rfl) done]
    exact ⟨rfl, rfl⟩
  · rw [abort_history, none]
    exact List.append_nil h

end Combinator

end LogicSearch
