import LogicSearch.Proofs.Registry.Started
import LogicSearch.Proofs.Search.Request

namespace LogicSearch

variable {U : Type} [Plugin U] {registry : Registry U} {goal : Term} {a b c : Activation U}
  {m m' : Machine}

namespace Equation

theorem phase_of_next {e : Equation} {fuel : Nat} {s t : Store} {phase phase' : Phase}
    {answer : Except Halt Bool} (done : e.next fuel s phase = some (answer, phase', t)) :
    (answer = .ok true ∧ ∃ undo, phase' = .bound undo) ∨ phase' = .spent := by
  cases phase with
  | spent | bound =>
      cases done
      exact .inr rfl
  | fresh =>
      simp only [next] at done
      split at done
      · cases done
      · cases done
        exact .inr rfl
      · split at done <;> cases done
        · exact .inl ⟨rfl, _, rfl⟩
        · exact .inr rfl

end Equation

namespace Member

theorem done_of_failure {fuel : Nat} {element : Term} {s t : Store} {phase phase' : Phase}
    (failed : next fuel element s phase = some (false, phase', t)) : phase' = .done := by
  have last (saved : Snapshot) (position : Term × Store) (result : Bool × Phase × Store)
      (taken : step fuel element saved position = some (.finish result)) (none : result.1 = false) :
      result.2.1 = .done := by
    simp only [step] at taken
    split at taken
    · cases taken
    · cases taken
      rfl
    · split at taken
      · cases taken
      · split at taken <;> cases taken
        cases none
  have walk (saved : Snapshot) (position : Term × Store)
      (walked : Turn.iterate (step fuel element saved) fuel position = some (false, phase', t)) :
      phase' = .done :=
    (Turn.leads_iff.mpr ⟨fuel, walked⟩).invariant (fun _ => True)
      (fun result => result.1 = false → result.2.1 = .done) (fun _ _ _ _ => trivial)
      (fun position result _ taken => last saved position result taken) trivial rfl
  cases phase with
  | done =>
      cases failed
      rfl
  | tried saved savedHead tail => exact walk saved _ failed
  | fresh list =>
      simp only [next] at failed
      split at failed
      · cases failed
      · exact walk _ _ failed

end Member

namespace Activation

/-- Requests made on an activation one after the other. Each may find another machine: in between,
others may bind, unbind and rebind whatever they like. -/
inductive Later (registry : Registry U) : Activation U → Activation U → Prop where
  | now {a : Activation U} : Later registry a a
  | asked {a b : Activation U} {m : Machine} {reply : Reply Machine (Activation U)} :
      Later registry a b → Asks registry b m reply → Later registry a reply.goal
  | aborted {a b : Activation U} {m : Machine} :
      Later registry a b → Later registry a (b.abort m).1

/-- The activation is one of this goal, at any point of its life. -/
def Lives (registry : Registry U) (goal : Term) (a : Activation U) : Prop :=
  ∃ m m' first, registry.call goal m = some (.ok first, m') ∧ Later registry first a

/-- The activation fails when it is asked and changes nothing, on whatever machine. -/
def Inert (registry : Registry U) (a : Activation U) : Prop :=
  ∀ m, (∃ a', Asks registry a m ⟨.ok false, a', m⟩) ∧ (a.abort m).2 = m

def IsBuiltin : Activation U → Prop
  | plugged _ => False
  | _ => True

inductive Spent : Activation U → Prop where
  | test {t : Test} : Spent (.test t true)
  | equation {e : Equation} : Spent (.equation e .spent)
  | member {e : Term} : Spent (.member e .done)
  | conjunction {l r : Term} {committed : Bool} : Spent (.conjunction ⟨l, r, .done committed⟩)
  | disjunction {l r : Term} {committed : Bool} : Spent (.disjunction ⟨l, r, .done committed⟩)

/-- A goal that takes no notice of being given up, since it was not asked before. -/
inductive Unasked : Activation U → Prop where
  | test {t : Test} : Unasked (.test t false)
  | equation {e : Equation} : Unasked (.equation e .fresh)

theorem Spent.asks (spent : Spent a) (m : Machine) : Asks registry a m ⟨.ok false, a, m⟩ := by
  cases spent with
  | test | equation | member => exact ⟨1, rfl⟩
  | conjunction | disjunction => exact ⟨2, rfl⟩

omit [Plugin U] in
theorem IsBuiltin.of_fresh {args : List Term} (fresh : Fresh args a) : a.IsBuiltin := by
  cases fresh <;> trivial

theorem Spent.abort (spent : Spent a) (m : Machine) : a.abort m = (a, m) := by
  cases spent <;> rfl

theorem Unasked.abort (unasked : Unasked a) (m : Machine) : a.abort m = (a, m) := by
  cases unasked <;> rfl

theorem Spent.later (spent : Spent a) (later : Later registry a b) : b = a := by
  induction later with
  | now => rfl
  | asked _ asked same =>
      rw [same] at asked
      rw [asked.unique (spent.asks _)]
  | aborted _ same => rw [same, spent.abort]

theorem Spent.inert (spent : Spent a) : Inert registry a := by
  intro m
  exact ⟨⟨a, spent.asks m⟩, by rw [spent.abort m]⟩

inductive Leaves : Activation U → Except Halt Bool → Activation U → Prop where
  | test {t : Test} {called : Bool} {answer : Except Halt Bool} :
      Leaves (.test t called) answer (.test t true)
  | bound {e : Equation} {phase : Equation.Phase} {undo : Snapshot} :
      Leaves (.equation e phase) (.ok true) (.equation e (.bound undo))
  | spent {e : Equation} {phase : Equation.Phase} {answer : Except Halt Bool} :
      Leaves (.equation e phase) answer (.equation e .spent)
  | member {e : Term} {phase phase' : Member.Phase} {answer : Except Halt Bool} :
      (answer = .ok false → phase' = .done) → Leaves (.member e phase) answer (.member e phase')
  | conjunction {c c' : Conjunction (Activation U)} {answer : Except Halt Bool} :
      (answer = .ok false → ∃ l r committed, c' = ⟨l, r, .done committed⟩) →
      Leaves (.conjunction c) answer (.conjunction c')
  | disjunction {d d' : Disjunction (Activation U)} {answer : Except Halt Bool} :
      (answer = .ok false → ∃ l r committed, d' = ⟨l, r, .done committed⟩) →
      Leaves (.disjunction d) answer (.disjunction d')
  | plugged {u u' : U} {answer : Except Halt Bool} : Leaves (.plugged u) answer (.plugged u')

theorem Asks.leaves {reply : Reply Machine (Activation U)} (asked : Asks registry a m reply) :
    Leaves a reply.answer reply.goal := by
  obtain ⟨fuel, done⟩ := asked
  cases fuel with
  | zero => cases done
  | succ fuel =>
      cases a with
      | test t called =>
          cases called with
          | true =>
              cases done
              exact .test
          | false =>
              obtain ⟨r, -, rfl⟩ := Option.map_eq_some_iff.mp done
              exact .test
      | equation e phase =>
          obtain ⟨⟨answer, phase', t⟩, asked, rfl⟩ := Option.map_eq_some_iff.mp done
          rcases Equation.phase_of_next asked with ⟨rfl, undo, rfl⟩ | rfl
          · exact .bound
          · exact .spent
      | member e phase =>
          obtain ⟨⟨answer, phase', t⟩, asked, rfl⟩ := Option.map_eq_some_iff.mp done
          refine .member fun failed => ?_
          cases failed
          exact Member.done_of_failure asked
      | conjunction c =>
          obtain ⟨⟨answer, c', t⟩, asked, rfl⟩ := Option.map_eq_some_iff.mp done
          refine .conjunction fun failed => ?_
          cases failed
          exact Conjunction.done_of_failure asked
      | disjunction d =>
          obtain ⟨⟨answer, d', t⟩, asked, rfl⟩ := Option.map_eq_some_iff.mp done
          refine .disjunction fun failed => ?_
          cases failed
          exact Disjunction.done_of_failure asked
      | plugged u =>
          obtain ⟨r, -, rfl⟩ := Option.map_eq_some_iff.mp done
          exact .plugged

theorem Asks.isBuiltin {reply : Reply Machine (Activation U)} (asked : Asks registry a m reply)
    (builtin : a.IsBuiltin) : reply.goal.IsBuiltin := by
  obtain ⟨answer, b, m'⟩ := reply
  cases asked.leaves with
  | plugged => exact builtin.elim
  | _ => trivial

theorem IsBuiltin.abort (builtin : a.IsBuiltin) (m : Machine) : (a.abort m).1.IsBuiltin := by
  cases a with
  | test | equation | member => trivial
  | conjunction c =>
      rw [abort_conjunction Registry.builtins 0]
      trivial
  | disjunction d =>
      rw [abort_disjunction Registry.builtins 0]
      trivial
  | plugged u => exact builtin.elim

theorem Lives.isBuiltin (lives : Lives Registry.builtins goal a) : a.IsBuiltin := by
  obtain ⟨m, m', first, called, later⟩ := lives
  obtain ⟨-, ⟨_, _, same, fresh, -⟩ | ⟨_, wrong⟩⟩ := builtins_call called
  · cases same
    clear called
    induction later with
    | now => exact .of_fresh fresh
    | asked _ asked builtin => exact asked.isBuiltin builtin
    | aborted _ builtin => exact builtin.abort _
  · cases wrong

theorem Asks.spent (failed : Asks registry a m ⟨.ok false, b, m'⟩) (builtin : a.IsBuiltin) :
    b.Spent := by
  cases failed.leaves with
  | test => exact .test
  | spent => exact .equation
  | member ends =>
      rw [ends rfl]
      exact .member
  | conjunction ends =>
      obtain ⟨l, r, committed, rfl⟩ := ends rfl
      exact .conjunction
  | disjunction ends =>
      obtain ⟨l, r, committed, rfl⟩ := ends rfl
      exact .disjunction
  | plugged => exact builtin.elim

theorem IsBuiltin.abort_spent (builtin : a.IsBuiltin) (noticed : ¬ a.Unasked) (m : Machine) :
    (a.abort m).1.Spent := by
  cases a with
  | test t called =>
      cases called with
      | true => exact .test
      | false => exact (noticed .test).elim
  | equation e phase =>
      cases phase with
      | fresh => exact (noticed .equation).elim
      | bound | spent => exact .equation
  | member e phase => cases phase <;> exact .member
  | conjunction c =>
      rw [abort_conjunction Registry.builtins 0]
      exact .conjunction
  | disjunction d =>
      rw [abort_disjunction Registry.builtins 0]
      exact .disjunction
  | plugged u => exact builtin.elim

theorem Asks.noticed {reply : Reply Machine (Activation U)} (asked : Asks registry a m reply) :
    ¬ reply.goal.Unasked := by
  obtain ⟨answer, b, m'⟩ := reply
  intro unasked
  cases asked.leaves <;> cases unasked

def firstMember : Term :=
  .compound .comma (.compound .member (.var 0) [.list [.int 1, .int 2]]) [.atom .cut]

theorem asks_firstMember : ∃ (a b c : Activation Empty) (m : Machine),
    Registry.builtins.call firstMember Machine.empty = some (.ok a, Machine.empty) ∧
      Asks Registry.builtins a Machine.empty ⟨.ok true, b, m⟩ ∧
      m.store.lookup 0 = some (.int 1) ∧
      Asks Registry.builtins b m ⟨.ok false, c, Machine.empty⟩ ∧ c.committed = true := by
  let a : Activation Empty :=
    .conjunction (.start (.compound .member (.var 0) [.list [.int 1, .int 2]]) (.atom .cut))
  have first : (a.next Registry.builtins 9 Machine.empty).map
      (fun r => (r.answer, r.state.store.lookup 0)) = some (.ok true, some (.int 1)) := rfl
  have second : ((a.next Registry.builtins 9 Machine.empty).bind fun r =>
      r.goal.next Registry.builtins 9 r.state).map
      (fun r => (r.answer, r.state, r.goal.committed)) =
        some (.ok false, Machine.empty, true) := rfl
  obtain ⟨⟨answer, b, m⟩, answered, same⟩ := Option.map_eq_some_iff.mp first
  rw [answered, Option.bind_some] at second
  obtain ⟨⟨answer', c, m'⟩, failed, same'⟩ := Option.map_eq_some_iff.mp second
  simp only [Prod.mk.injEq] at same same'
  obtain ⟨rfl, bound⟩ := same
  obtain ⟨rfl, rfl, committed⟩ := same'
  exact ⟨a, b, c, m, rfl, ⟨9, answered⟩, bound, ⟨9, failed⟩, committed⟩

/-- Exhaustion is terminal. After a failure of a built-in goal its activation fails whenever it is
asked and changes nothing when it is asked or given up, whatever was requested of it or done to the
machine in the meantime, and it is committed exactly if it was right after the failure. -/
theorem failure_is_final (lives : Lives Registry.builtins goal a)
    (failed : Asks Registry.builtins a m ⟨.ok false, b, m'⟩)
    (later : Later Registry.builtins b c) :
    Inert Registry.builtins c ∧ c.committed = b.committed := by
  have spent := failed.spent lives.isBuiltin
  rw [spent.later later]
  exact ⟨spent.inert, rfl⟩

theorem failure_is_final_after_cut : ∃ (a b : Activation Empty) (m : Machine),
    Lives Registry.builtins firstMember a ∧ m.store.lookup 0 = some (.int 1) ∧
      Asks Registry.builtins a m ⟨.ok false, b, Machine.empty⟩ ∧
      Inert Registry.builtins (b.abort m).1 ∧ (b.abort m).1.committed = true := by
  obtain ⟨first, a, b, m, called, answered, bound, failed, committed⟩ := asks_firstMember
  have lives : Lives Registry.builtins firstMember a :=
    ⟨Machine.empty, Machine.empty, first, called, .asked .now answered⟩
  obtain ⟨inert, same⟩ := failure_is_final lives failed (.aborted .now)
  exact ⟨a, b, m, lives, bound, failed, inert, same.trans committed⟩

/-- Giving up is terminal for every activation of a built-in goal but a test or an equation that was
never asked. Such a one is left as it was, and so can still answer and bind; one request, whatever
its outcome, is enough to make it notice. -/
theorem abort_is_final (lives : Lives Registry.builtins goal a) :
    (¬ a.Unasked → ∀ m b, Later Registry.builtins (a.abort m).1 b → Inert Registry.builtins b) ∧
      (a.Unasked → ∀ m, a.abort m = (a, m)) ∧
      ∀ m reply, Asks Registry.builtins a m reply → ¬ reply.goal.Unasked := by
  refine ⟨?_, Unasked.abort, fun _ _ => Asks.noticed⟩
  intro noticed m b later
  have spent := lives.isBuiltin.abort_spent noticed m
  rw [spent.later later]
  exact spent.inert

theorem abort_is_final_at_answer : ∃ (a : Activation Empty) (m : Machine),
    Lives Registry.builtins firstMember a ∧ ¬ a.Unasked ∧ m.store.lookup 0 = some (.int 1) ∧
      Inert Registry.builtins (a.abort m).1 := by
  obtain ⟨first, a, -, m, called, answered, bound, -, -⟩ := asks_firstMember
  have lives : Lives Registry.builtins firstMember a :=
    ⟨Machine.empty, Machine.empty, first, called, .asked .now answered⟩
  have noticed : ¬ a.Unasked := answered.noticed
  exact ⟨a, m, lives, noticed, bound, (abort_is_final lives).1 noticed m _ .now⟩

/-- An equation that is given up before it was asked answers all the same, and binds. -/
theorem abort_of_unasked_equation_not_final : ∃ (a b : Activation Empty) (m : Machine),
    Lives Registry.builtins (.compound .equals (.var 0) [.int 1]) a ∧
      Asks Registry.builtins (a.abort Machine.empty).1 Machine.empty ⟨.ok true, b, m⟩ ∧
      m.store.lookup 0 = some (.int 1) ∧ ¬ Inert Registry.builtins (a.abort Machine.empty).1 := by
  let a : Activation Empty := .equation (.unify (.var 0) (.int 1)) .fresh
  have first : ((a.abort Machine.empty).1.next Registry.builtins 9 Machine.empty).map
      (fun r => (r.answer, r.state.store.lookup 0)) = some (.ok true, some (.int 1)) := rfl
  obtain ⟨⟨answer, b, m⟩, answered, same⟩ := Option.map_eq_some_iff.mp first
  simp only [Prod.mk.injEq] at same
  obtain ⟨rfl, bound⟩ := same
  have asked : Asks Registry.builtins (a.abort Machine.empty).1 Machine.empty ⟨.ok true, b, m⟩ :=
    ⟨9, answered⟩
  refine ⟨a, b, m, ⟨Machine.empty, Machine.empty, a, rfl, .now⟩, asked, bound, ?_⟩
  intro inert
  obtain ⟨_, failed⟩ := (inert Machine.empty).1
  cases asked.unique failed

end Activation

end LogicSearch
