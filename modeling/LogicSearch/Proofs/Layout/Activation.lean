import LogicSearch.Proofs.Layout.Combinator
import LogicSearch.Proofs.Registry.Started
import LogicSearch.Search.Drive

namespace LogicSearch

inductive Laid (U : Type) where
  | test (t : Test) (called : Bool)
  | equation (e : Equation) (phase : Equation.Phase)
  | member (element : Term) (phase : Member.Phase)
  | conjunction (c : Stacked (Laid U))
  | disjunction (d : Branching (Laid U))
  | plugged (u : U)

namespace Laid

variable {U : Type}

def ofActivation : Activation U → Laid U
  | .test t called => test t called
  | .equation e phase => equation e phase
  | .member element phase => member element phase
  | .conjunction ⟨l, r, .fresh⟩ => conjunction (.start l r)
  | .conjunction ⟨l, r, .left goal⟩ => conjunction ⟨l, r, [ofActivation goal], .left, false⟩
  | .conjunction ⟨l, r, .right below goal⟩ =>
      conjunction ⟨l, r, [ofActivation goal, ofActivation below], .right, false⟩
  | .conjunction ⟨l, r, .done committed⟩ => conjunction ⟨l, r, [], .exhausted, committed⟩
  | .disjunction ⟨l, r, .fresh⟩ => disjunction (.start l r)
  | .disjunction ⟨l, r, .left goal⟩ =>
      disjunction ⟨l, r, .left, some (ofActivation goal), false⟩
  | .disjunction ⟨l, r, .between⟩ => disjunction ⟨l, r, .right, none, false⟩
  | .disjunction ⟨l, r, .right goal⟩ =>
      disjunction ⟨l, r, .right, some (ofActivation goal), false⟩
  | .disjunction ⟨l, r, .done committed⟩ => disjunction ⟨l, r, .exhausted, none, committed⟩
  | .plugged u => plugged u

theorem ofActivation_conjunction (c : Conjunction (Activation U)) :
    ofActivation (.conjunction c) = conjunction (c.stacked ofActivation) := by
  obtain ⟨l, r, phase⟩ := c
  cases phase <;> simp [ofActivation, Conjunction.stacked]

theorem ofActivation_disjunction (d : Disjunction (Activation U)) :
    ofActivation (.disjunction d) = disjunction (d.branching ofActivation) := by
  obtain ⟨l, r, phase⟩ := d
  cases phase <;> simp [ofActivation, Disjunction.branching]

/-- Every conjunction inside has as many goals on its stack as its step says, and no disjunction
inside that is exhausted has a goal. -/
inductive InOrder : Laid U → Prop where
  | test {t : Test} {called : Bool} : InOrder (test t called)
  | equation {e : Equation} {phase : Equation.Phase} : InOrder (equation e phase)
  | member {element : Term} {phase : Member.Phase} : InOrder (member element phase)
  | conjunction {c : Stacked (Laid U)} : c.goals.length = c.step.depth →
      (∀ goal ∈ c.goals, InOrder goal) → InOrder (conjunction c)
  | disjunction {d : Branching (Laid U)} : (d.branch = .exhausted → d.current = none) →
      (∀ goal, d.current = some goal → InOrder goal) → InOrder (disjunction d)
  | plugged {u : U} : InOrder (plugged u)

theorem inOrder_ofActivation (a : Activation U) : (ofActivation a).InOrder := by
  fun_induction ofActivation a with
  | case1 => exact .test
  | case2 => exact .equation
  | case3 => exact .member
  | case4 | case7 => exact .conjunction rfl (by simp [Stacked.start])
  | case5 l r goal ih => exact .conjunction rfl (by simpa using ih)
  | case6 l r below goal right left => exact .conjunction rfl (by simpa using ⟨right, left⟩)
  | case8 | case10 => exact .disjunction (by simp [Branching.start]) (by simp [Branching.start])
  | case12 => exact .disjunction (fun _ => rfl) (by simp)
  | case9 l r goal ih | case11 l r goal ih =>
      refine .disjunction (by simp) ?_
      rintro _ ⟨⟩
      exact ih
  | case13 => exact .plugged

def call (registry : Registry U) (t : Term) (m : Machine) :
    Option (Except Halt (Laid U) × Machine) :=
  (registry.call t m).map fun r => (r.1.map ofActivation, r.2)

variable [Plugin U]

def committed : Laid U → Bool
  | test .cut called => called
  | test _ _ | equation _ _ | member _ _ => false
  | conjunction c => c.committed
  | disjunction d => d.committed
  | plugged u => Plugin.committed u

mutual

def abort : Laid U → Machine → Laid U × Machine
  | test t called, m => (test t called, m)
  | equation e phase, m =>
      let r := Equation.abort m.store phase
      (equation e r.1, m.withStore r.2)
  | member element phase, m =>
      let r := Member.abort m.store phase
      (member element r.1, m.withStore r.2)
  | conjunction ⟨l, r, goals, _, committed⟩, m =>
      (conjunction ⟨l, r, [], .exhausted, committed⟩, abortEach goals m)
  | disjunction ⟨l, r, _, current, committed⟩, m =>
      (disjunction ⟨l, r, .exhausted, none, committed⟩, abortCurrent current m)
  | plugged u, m =>
      let r := Plugin.abort u m
      (plugged r.1, r.2)

def abortEach : List (Laid U) → Machine → Machine
  | [], m => m
  | goal :: goals, m => abortEach goals (abort goal m).2

def abortCurrent : Option (Laid U) → Machine → Machine
  | none, m => m
  | some goal, m => (abort goal m).2

end

def next (registry : Registry U) :
    Nat → Laid U → Machine → Option (Except Breach (Reply Machine (Laid U)))
  | 0, _, _ => none
  | fuel + 1, x, m =>
    match x with
    | test t true => some (.ok ⟨.ok false, test t true, m⟩)
    | test t false =>
        (t.run fuel m.store).map fun r => .ok ⟨r.1, test t true, m.withStore r.2⟩
    | equation e phase =>
        (e.next fuel m.store phase).map fun r =>
          .ok ⟨r.1, equation e r.2.1, m.withStore r.2.2⟩
    | member element phase =>
        (Member.next fuel element m.store phase).map fun r =>
          .ok ⟨.ok r.1, member element r.2.1, m.withStore r.2.2⟩
    | conjunction c =>
        (c.next ⟨call registry, next registry fuel, abort, committed⟩ fuel m).map
          (Except.map (Reply.map conjunction))
    | disjunction d =>
        (d.next ⟨call registry, next registry fuel, abort, committed⟩ fuel m).map
          (Except.map (Reply.map disjunction))
    | plugged u =>
        (Plugin.next registry (Activation.solver registry fuel) fuel u m).map fun reply =>
          .ok (reply.map plugged)

def solver (registry : Registry U) (fuel : Nat) : CheckedSolver Machine (Laid U) :=
  ⟨call registry, next registry fuel, abort, committed⟩

theorem committed_ofActivation (a : Activation U) : (ofActivation a).committed = a.committed := by
  cases a with
  | test t called => cases t <;> rfl
  | equation | member | plugged => rfl
  | conjunction c =>
      obtain ⟨l, r, phase⟩ := c
      cases phase <;> rfl
  | disjunction d =>
      obtain ⟨l, r, phase⟩ := d
      cases phase <;> rfl

theorem abort_ofActivation (a : Activation U) (m : Machine) :
    (ofActivation a).abort m = (ofActivation (a.abort m).1, (a.abort m).2) := by
  match a with
  | .test .. | .equation .. | .member .. | .plugged _ => rfl
  | .conjunction ⟨_, _, .fresh⟩ | .conjunction ⟨_, _, .done _⟩ => rfl
  | .conjunction ⟨l, r, .left goal⟩ =>
      have inner := abort_ofActivation goal m
      simp [ofActivation, abort, abortEach, Activation.abort, inner]
  | .conjunction ⟨l, r, .right below goal⟩ =>
      have top := abort_ofActivation goal m
      have rest := abort_ofActivation below (goal.abort m).2
      simp [ofActivation, abort, abortEach, Activation.abort, top, rest]
  | .disjunction ⟨_, _, .fresh⟩ | .disjunction ⟨_, _, .between⟩ => rfl
  | .disjunction ⟨_, _, .done _⟩ => rfl
  | .disjunction ⟨l, r, .left goal⟩ | .disjunction ⟨l, r, .right goal⟩ =>
      have inner := abort_ofActivation goal m
      simp [ofActivation, abort, abortCurrent, Activation.abort, inner]

/-- A goal that is laid out replies as the activation does, and no check fails. -/
theorem next_ofActivation (registry : Registry U) (fuel : Nat) (a : Activation U) (m : Machine) :
    (ofActivation a).next registry fuel m =
      (a.next registry fuel m).map fun reply => .ok (reply.map ofActivation) := by
  induction fuel generalizing a m with
  | zero => rfl
  | succ fuel ih =>
      have laid : (Activation.solver registry fuel).LaidOut ofActivation (solver registry fuel) :=
        ⟨fun _ _ => rfl, ih, abort_ofActivation, committed_ofActivation⟩
      cases a with
      | test t called =>
          cases called with
          | true => rfl
          | false =>
              simp only [ofActivation, next, Activation.next, Option.map_map]
              rfl
      | equation e phase =>
          simp only [ofActivation, next, Activation.next, Option.map_map]
          rfl
      | member element phase =>
          simp only [ofActivation, next, Activation.next, Option.map_map]
          rfl
      | conjunction c =>
          have child : (c.stacked ofActivation).next (solver registry fuel) fuel m = _ :=
            Stacked.next_stacked laid fuel c m
          rw [ofActivation_conjunction]
          change ((c.stacked ofActivation).next (solver registry fuel) fuel m).map _ =
            ((c.next (Activation.solver registry fuel) fuel m).map _).map _
          rw [child, Option.map_map, Option.map_map]
          congr 1
          funext reply
          simp only [Function.comp_apply, Except.map, Reply.map, ofActivation_conjunction]
      | disjunction d =>
          have child : (d.branching ofActivation).next (solver registry fuel) fuel m = _ :=
            Branching.next_branching laid fuel d m
          rw [ofActivation_disjunction]
          change ((d.branching ofActivation).next (solver registry fuel) fuel m).map _ =
            ((d.next (Activation.solver registry fuel) fuel m).map _).map _
          rw [child, Option.map_map, Option.map_map]
          congr 1
          funext reply
          simp only [Function.comp_apply, Except.map, Reply.map, ofActivation_disjunction]
      | plugged u =>
          simp only [ofActivation, next, Activation.next, Option.map_map]
          rfl

/-- A layout that no activation has: the check on the stack fails. -/
example (l r : Term) (m : Machine) :
    (conjunction ⟨l, r, [], .left, false⟩ : Laid Empty).next Registry.builtins 2 m =
      some (.error (.emptyStack .left)) := rfl

/-- A goal that was called or started, and then driven in any way: asked or given up at any time and
on any machine, also after it has failed, halted or been given up. -/
inductive Reached (registry : Registry U) : Laid U → Prop where
  | called {t : Term} {m m' : Machine} {x : Laid U} :
      call registry t m = some (.ok x, m') → Reached registry x
  | started {args : List Term} {a : Activation U} :
      Activation.Fresh args a → Reached registry (ofActivation a)
  | asked {x : Laid U} {fuel : Nat} {m : Machine} {reply : Reply Machine (Laid U)} :
      Reached registry x → x.next registry fuel m = some (.ok reply) → Reached registry reply.goal
  | aborted {x : Laid U} {m : Machine} : Reached registry x → Reached registry (x.abort m).1

theorem Reached.exists_activation {registry : Registry U} {x : Laid U}
    (reached : Reached registry x) : ∃ a, x = ofActivation a := by
  induction reached with
  | called called =>
      obtain ⟨⟨result, m⟩, -, same⟩ := Option.map_eq_some_iff.mp called
      cases result with
      | error halt => cases same
      | ok a =>
          cases same
          exact ⟨a, rfl⟩
  | started => exact ⟨_, rfl⟩
  | asked _ asked ih =>
      obtain ⟨a, rfl⟩ := ih
      rw [next_ofActivation] at asked
      obtain ⟨reply, -, same⟩ := Option.map_eq_some_iff.mp asked
      cases same
      exact ⟨reply.goal, rfl⟩
  | aborted _ ih =>
      obtain ⟨a, rfl⟩ := ih
      rw [abort_ofActivation]
      exact ⟨_, rfl⟩

end Laid

end LogicSearch
