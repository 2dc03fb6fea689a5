import LogicSearch.Proofs.Search.Tame
import LogicSearch.Proofs.Search.Terminal

namespace LogicSearch

variable {U : Type} [Plugin U] {registry : Registry U} {a b : Activation U} {m m' n : Machine}
  {log : List (Except Halt Bool)} {answer : Except Halt Bool}

namespace Activation

/-- Requests made one after the other, with their answers. Each of them returns, and none makes a
cyclic binding at any moment. -/
inductive Steady (registry : Registry U) :
    Activation U → Machine → List (Except Halt Bool) → Activation U → Machine → Prop where
  | start {a : Activation U} {m : Machine} : Steady registry a m [] a m
  | next {a b c : Activation U} {m m' n : Machine} {answer : Except Halt Bool}
      {log : List (Except Halt Bool)} : Calm registry a m → Asks registry a m ⟨answer, b, m'⟩ →
      Steady registry b m' log c n → Steady registry a m (answer :: log) c n

theorem Tame.returns (tame : Tame registry a m) (calm : a.Calm registry m) :
    ∃ reply, Asks registry a m reply := by
  cases tame with
  | cyclic passes cyclic => exact (cyclic (calm _ passes)).elim
  | fails asked => exact ⟨_, asked⟩
  | stuck asked => exact ⟨_, asked⟩
  | halts asked => exact ⟨_, asked⟩
  | answers asked => exact ⟨_, asked⟩

theorem Tame.next (tame : Tame registry a m) (builtin : a.IsBuiltin) (calm : a.Calm registry m)
    (asked : Asks registry a m ⟨answer, b, m'⟩) : Tame registry b m' := by
  cases tame with
  | cyclic passes cyclic => exact (cyclic (calm _ passes)).elim
  | fails asked' =>
      cases asked.unique asked'
      exact .fails ((asked.spent builtin).asks m')
  | stuck asked' =>
      cases asked.unique asked'
      exact .stuck asked
  | halts asked' _ later =>
      cases asked.unique asked'
      exact later
  | answers asked' _ later =>
      cases asked.unique asked'
      exact later

theorem Steady.tame (steady : Steady registry a m log b n) (tame : Tame registry a m)
    (builtin : a.IsBuiltin) : Tame registry b n := by
  induction steady with
  | start => exact tame
  | next calm asked _ ih => exact ih (tame.next builtin calm asked) (asked.isBuiltin builtin)

theorem Steady.count_of_spent (steady : Steady registry a m log b n) (spent : a.Spent) :
    log.count (.ok true) = 0 := by
  induction steady with
  | start => rfl
  | next _ asked _ ih =>
      cases asked.unique (spent.asks _)
      rw [List.count_cons_of_ne (by simp)]
      exact ih spent

theorem Steady.count_of_stuck (steady : Steady registry a m log b n) {halt : Halt}
    (asked : Asks registry a m ⟨.error halt, a, m⟩) : log.count (.ok true) = 0 := by
  induction steady with
  | start => rfl
  | next _ asked' _ ih =>
      cases asked'.unique asked
      rw [List.count_cons_of_ne (by simp)]
      exact ih asked

theorem Tame.bounded (tame : Tame registry a m) (builtin : a.IsBuiltin) :
    ∃ bound, ∀ log b n, Steady registry a m log b n → log.count (.ok true) ≤ bound := by
  induction tame with
  | cyclic passes cyclic =>
      refine ⟨0, fun log b n steady => ?_⟩
      cases steady with
      | start => exact Nat.le_refl 0
      | next calm => exact (cyclic (calm _ passes)).elim
  | fails asked =>
      refine ⟨0, fun log b n steady => ?_⟩
      cases steady with
      | start => exact Nat.le_refl 0
      | next _ asked' later =>
          cases asked.unique asked'
          rw [List.count_cons_of_ne (by simp)]
          exact Nat.le_of_eq (later.count_of_spent (asked.spent builtin))
  | stuck asked => exact ⟨0, fun log b n steady => Nat.le_of_eq (steady.count_of_stuck asked)⟩
  | halts asked _ _ ih =>
      obtain ⟨bound, most⟩ := ih (asked.isBuiltin builtin)
      refine ⟨bound, fun log b n steady => ?_⟩
      cases steady with
      | start => exact Nat.zero_le bound
      | next _ asked' later =>
          cases asked.unique asked'
          rw [List.count_cons_of_ne (by simp)]
          exact most _ _ _ later
  | answers asked _ _ ih =>
      obtain ⟨bound, most⟩ := ih (asked.isBuiltin builtin)
      refine ⟨bound + 1, fun log b n steady => ?_⟩
      cases steady with
      | start => exact Nat.zero_le _
      | next _ asked' later =>
          cases asked.unique asked'
          rw [List.count_cons_self]
          exact Nat.succ_le_succ (most _ _ _ later)

theorem Tame.gives (tame : Tame registry a m)
    (calm : ∀ log b n, Steady registry a m log b n → (∀ answer ∈ log, answer = .ok true) →
      b.Calm registry n) : ∃ answers e, Gives registry a m answers (some e) := by
  induction tame with
  | cyclic passes cyclic => exact (cyclic (calm [] _ _ .start (by simp) _ passes)).elim
  | fails asked => exact ⟨[], _, .fails asked⟩
  | stuck asked => exact ⟨[], _, .halts asked⟩
  | halts asked => exact ⟨[], _, .halts asked⟩
  | answers asked _ _ ih =>
      have first := calm [] _ _ .start (by simp)
      obtain ⟨answers, e, gives⟩ := ih fun log b n steady all =>
        calm (.ok true :: log) b n (.next first asked steady) (by simpa using all)
      exact ⟨_ :: answers, e, .answer asked gives⟩

theorem calm_of_bound_equations {e e' : Equation} {undo undo' : Snapshot} {l r : Term} :
    (.conjunction ⟨l, r, .right (.equation e (.bound undo)) (.equation e' (.bound undo'))⟩ :
      Activation U).Calm registry m := by
  have spent (m : Machine) : Asks registry (.equation e (.bound undo)) m
      ⟨.ok false, .equation e .spent, m.restore undo⟩ := ⟨1, rfl⟩
  intro s passes
  cases passes with
  | conjunction path head inside =>
      rcases path.cases_head with same | ⟨_, failed, path⟩
      · cases same
        cases head
        cases inside with
        | equation passes => exact passes.elim
      · cases failed with
        | rightFails =>
            rcases path.cases_head with same | ⟨_, answered, -⟩
            · cases same
              cases head
              cases inside with
              | equation passes => exact passes.elim
            · cases answered with
              | leftAnswers asked => cases (spent _).unique asked

end Activation

open Activation (Steady Asks)

/-- A goal that is called in a store without cyclic bindings is refused at once, or gives an
activation each of whose requests returns, with a bound on the answers there can be, as long as no
binding that is made on the way is cyclic. If none is made in the whole run, the run returns. -/
theorem search_is_finite (goal : Term) (acyclic : m.store.Acyclic) :
    (∃ halt, (Registry.builtins : Registry U).call goal m = some (.error halt, m)) ∨
    ∃ a : Activation U, Registry.builtins.call goal m = some (.ok a, m) ∧
      (∀ log b n, Steady Registry.builtins a m log b n → b.Calm Registry.builtins n →
        ∃ reply, Asks Registry.builtins b n reply) ∧
      (∃ bound, ∀ log b n, Steady Registry.builtins a m log b n →
        log.count (.ok true) ≤ bound) ∧
      ((∀ log b n, Steady Registry.builtins a m log b n → (∀ answer ∈ log, answer = .ok true) →
        b.Calm Registry.builtins n) →
        ∃ run, Run.Returns (Registry.builtins : Registry U) goal m run) := by
  obtain ⟨result, called⟩ := exists_call (U := U) acyclic.chainsEnd goal
  cases result with
  | error halt => exact .inl ⟨halt, called⟩
  | ok a =>
      obtain ⟨u, ends, fresh⟩ := fresh_of_call called
      have builtin := Activation.IsBuiltin.of_fresh fresh
      have confined : m.store.Confined (· ∈ m.store.freeVars goal) goal := fun v free =>
        (Store.mem_freeVars acyclic).mpr free
      have tame := Activation.tame_of_call acyclic confined called
      refine .inr ⟨a, called, ?_, tame.bounded builtin, ?_⟩
      · exact fun log b n steady calm => (steady.tame tame builtin).returns calm
      · intro calm
        obtain ⟨answers, e, gives⟩ := tame.gives calm
        exact ⟨_, Run.returns_of_gives called gives⟩

theorem search_is_finite_bound_goal :
    let goal : Term := .compound .comma
      (.compound .equals (.var 0) [.compound .equals (.var 1) [.int 1]]) [.var 0]
    ∃ a : Activation Empty,
      Registry.builtins.call goal Machine.empty = some (.ok a, Machine.empty) ∧
      (∃ reply, Asks Registry.builtins a Machine.empty reply) ∧
      (∃ bound, ∀ log b n, Steady Registry.builtins a Machine.empty log b n →
        log.count (.ok true) ≤ bound) ∧
      ∃ run, Run.Returns (Registry.builtins : Registry Empty) goal Machine.empty run := by
  let inner : Term := .compound .equals (.var 1) [.int 1]
  let outer : Term := .compound .equals (.var 0) [inner]
  let m₁ : Machine := ⟨Store.empty.bind 0 inner, []⟩
  let m₂ : Machine := ⟨m₁.store.bind 1 (.int 1), []⟩
  let left (phase : Equation.Phase) : Activation Empty := .equation (.unify (.var 0) inner) phase
  let right (phase : Equation.Phase) : Activation Empty :=
    .equation (.unify (.var 1) (.int 1)) phase
  let both (phase : Conjunction.Phase (Activation Empty)) : Activation Empty :=
    .conjunction ⟨outer, .var 0, phase⟩
  have acyclic₂ : m₂.store.Acyclic := by
    apply Store.acyclic_of_rank fun v => if v = 0 then 1 else 0
    rintro v w ⟨t, found, occurs⟩
    simp only [m₂, m₁, Store.lookup_bind] at found
    split at found
    · cases found
      cases occurs
    · split at found
      · rename_i same
        cases found
        cases List.mem_singleton.mp occurs
        simp [← same]
      · simp at found
  have acyclic₁ : m₁.store.Acyclic := acyclic₂.of_le (Store.le_bind rfl _)
  have asked₁ : Asks Registry.builtins (left .fresh) Machine.empty
      ⟨.ok true, left (.bound ⟨[0, 1]⟩), m₁⟩ := ⟨9, rfl⟩
  have asked₂ : Asks Registry.builtins (right .fresh) m₁
      ⟨.ok true, right (.bound ⟨[1]⟩), m₂⟩ := ⟨9, rfl⟩
  have first : (both .fresh).Calm Registry.builtins Machine.empty := by
    intro s passes
    cases passes with
    | conjunction path head inside =>
        rcases path.cases_head with same | ⟨_, called, path⟩
        · cases same
          cases head
        · cases called with
          | calls called =>
              cases called
              rcases path.cases_head with same | ⟨_, answered, path⟩
              · cases same
                cases head
                cases inside with
                | equation passes =>
                    obtain ⟨_, _, sides, passes⟩ := passes
                    cases sides
                    rcases passes.cases_once (t := m₁.store) rfl with rfl | rfl
                    · exact Store.acyclic_empty
                    · exact acyclic₁
              · cases answered with
                | leftAnswers asked called =>
                    cases asked₁.unique asked
                    cases called
                    rcases path.cases_head with same | ⟨_, failed, -⟩
                    · cases same
                      cases head
                      cases inside with
                      | equation passes =>
                          obtain ⟨_, _, sides, passes⟩ := passes
                          cases sides
                          rcases passes.cases_once (t := m₂.store) rfl with rfl | rfl
                          · exact acyclic₁
                          · exact acyclic₂
                    · cases failed with
                      | rightFails asked => cases asked₂.unique asked
  have second : (both (.right (left (.bound ⟨[0, 1]⟩)) (right (.bound ⟨[1]⟩)))).Calm
      Registry.builtins m₂ := Activation.calm_of_bound_equations
  rcases search_is_finite (U := Empty) (m := Machine.empty) (.compound .comma outer [.var 0])
    Store.acyclic_empty with ⟨halt, refused⟩ | ⟨a, called, requests, bounded, returns⟩
  · cases refused
  · cases called
    refine ⟨_, rfl, requests [] _ _ .start first, bounded, returns ?_⟩
    intro log b n steady all
    cases steady with
    | start => exact first
    | next _ asked later =>
        cases all _ List.mem_cons_self
        have known : Asks Registry.builtins (both .fresh) Machine.empty ⟨.ok true,
          both (.right (left (.bound ⟨[0, 1]⟩)) (right (.bound ⟨[1]⟩))), m₂⟩ := ⟨9, rfl⟩
        cases known.unique asked
        cases later with
        | start => exact second
        | next _ asked =>
            cases all _ (List.mem_cons_of_mem _ List.mem_cons_self)
            have known : Asks Registry.builtins
                (both (.right (left (.bound ⟨[0, 1]⟩)) (right (.bound ⟨[1]⟩)))) m₂
                ⟨.ok false, both (.done false), Machine.empty⟩ := ⟨9, rfl⟩
            cases known.unique asked

end LogicSearch
