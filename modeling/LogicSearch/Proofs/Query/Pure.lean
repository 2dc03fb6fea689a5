import LogicSearch.Proofs.Query.Session
import LogicSearch.Proofs.Search.Pure

namespace LogicSearch

open Activation (Gives)
open Store (Spine)

variable {U : Type} [Plugin U] {q : Query U} {m : Machine} {answers : List Machine}
  {last : Except Halt Bool}

/-- Asking a query until it gives no more answers: the machines at its answers, and the last
reply. -/
inductive Query.Exhausts : Query U → Machine → List Machine → Except Halt Bool → Prop where
  | last {q : Query U} {m : Machine} {fuel : Nat} {reply : Reply Machine (Query U)} :
      q.next fuel m = some reply → reply.answer ≠ .ok true → Exhausts q m [] reply.answer
  | answer {q : Query U} {m : Machine} {fuel : Nat} {reply : Reply Machine (Query U)}
      {answers : List Machine} {last : Except Halt Bool} :
      q.next fuel m = some reply → reply.answer = .ok true →
      Exhausts reply.goal reply.state answers last → Exhausts q m (reply.state :: answers) last

def Run.End.reply : Run.End → Except Halt Bool
  | failed | committed => .ok false
  | halted halt => .error halt

theorem Run.reply_endOf (committed : Bool) : (Run.endOf committed).reply = .ok false := by
  cases committed <;> rfl

theorem Query.Exhausts.gives (exhausts : q.Exhausts m answers last) (running : q.running = true) :
    ∃ e, Gives q.registry q.activation m answers (some e) ∧ last = e.reply := by
  induction exhausts with
  | last asked given =>
      rw [Query.next, if_pos running] at asked
      obtain ⟨⟨answer, a, m'⟩, replied, rfl⟩ := Option.map_eq_some_iff.mp asked
      cases answer with
      | error halt =>
          refine ⟨.halted halt, .halts ⟨_, replied⟩, ?_⟩
          cases halt <;> rfl
      | ok more =>
          cases more with
          | true => exact (given rfl).elim
          | false =>
              refine ⟨_, .fails ⟨_, replied⟩, ?_⟩
              rw [Run.reply_endOf]
              simp only [Query.settle]
              split <;> rfl
  | answer asked given _ ih =>
      rw [Query.next, if_pos running] at asked
      obtain ⟨⟨answer, a, m'⟩, replied, rfl⟩ := Option.map_eq_some_iff.mp asked
      cases answer with
      | error halt =>
          cases halt <;> cases given
      | ok more =>
          cases more with
          | true =>
              obtain ⟨e, gives, same⟩ := ih rfl
              exact ⟨e, .answer ⟨_, replied⟩ gives, same⟩
          | false =>
              simp only [Query.settle] at given
              split at given <;> cases given

namespace PureGoal

variable {p : PureGoal}

omit [Plugin U] in
theorem call_term (p : PureGoal) (m : Machine) :
    ∃ a, (Registry.builtins : Registry U).call p.term m = some (.ok a, m) := by
  cases p <;> exact ⟨_, rfl⟩

/-- The engine is sound and complete on the pure fragment. A query for a pure goal starts, and when
it comes to its end, it has failed plainly, and the models of its answers are the models of the
store that satisfy the goal as a formula. Stores with cyclic bindings need not be kept apart, since
a cycle through a compound leaves no model. -/
theorem answers_are_solutions (closed : p.Closed m.store) :
    ∃ q, Query.start (Registry.builtins : Registry U) p.term m = some (.ok q, m) ∧
      ∀ answers last, q.Exhausts m answers last → last = .ok false ∧
        ∀ θ, (∃ a ∈ answers, a.store.Models θ) ↔ m.store.Models θ ∧ p.Satisfied m.store θ := by
  obtain ⟨a, called⟩ := call_term (U := U) p m
  refine ⟨⟨p.term, a, Registry.builtins, true, 0⟩, by simp only [Query.start, called], ?_⟩
  intro answers last exhausts
  obtain ⟨e, gives, rfl⟩ := exhausts.gives rfl
  obtain ⟨ended, covers⟩ := returns_pure (Run.returns_of_gives called gives) closed
  refine ⟨?_, covers⟩
  rw [show e = .failed from ended]
  rfl

theorem answers_are_solutions_one_member :
    (member (.var 0) (.list [.int 1])).Closed Machine.empty.store ∧
      ∃ (q : Query Empty) (a : Machine), q.Exhausts Machine.empty [a] (.ok false) ∧
        ∀ θ, a.store.Models θ ↔
          (member (.var 0) (.list [.int 1])).Satisfied Machine.empty.store θ := by
  have closed : (member (.var 0) (.list [.int 1])).Closed Machine.empty.store :=
    ⟨[.int 1], .cell rfl (.ends rfl rfl (by simp [Term.nil]))⟩
  let q : Query Empty := ⟨(member (.var 0) (.list [.int 1])).term,
    .member (.var 0) (.fresh (.list [.int 1])), Registry.builtins, true, 0⟩
  have started : Query.start (Registry.builtins : Registry Empty)
      (member (.var 0) (.list [.int 1])).term Machine.empty = some (.ok q, Machine.empty) := rfl
  have first : (q.next 9 Machine.empty).map (·.answer) = some (.ok true) := rfl
  have second : ((q.next 9 Machine.empty).bind fun r => r.goal.next 9 r.state).map (·.answer) =
      some (.ok false) := rfl
  obtain ⟨reply, asked, given⟩ := Option.map_eq_some_iff.mp first
  rw [asked, Option.bind_some] at second
  obtain ⟨reply', asked', given'⟩ := Option.map_eq_some_iff.mp second
  have exhausts : q.Exhausts Machine.empty [reply.state] (.ok false) := by
    rw [← given']
    exact .answer asked given (.last asked' (by simp [given']))
  obtain ⟨q', started', ended⟩ := answers_are_solutions (U := Empty) closed
  rw [started] at started'
  cases started'
  refine ⟨closed, q, reply.state, exhausts, fun θ => ?_⟩
  have covers := (ended _ _ exhausts).2 θ
  simpa [Machine.empty, Store.models_empty] using covers

end PureGoal

end LogicSearch
