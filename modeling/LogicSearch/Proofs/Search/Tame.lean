import LogicSearch.Proofs.Goal.Passes
import LogicSearch.Proofs.Search.Kept

/-!
Searches that come to an end. Asked again and again, a tame activation gets to a failure, to an
error it will repeat for ever, or to a request that passes a store with a cyclic binding. What is
called in a store without cyclic bindings is tame: a goal inside it is called either in the same
store and has a smaller tree, or after one of finitely many variables has been bound. The second
case is that of a goal called through a variable, whose tree can be larger than all before.
-/

namespace LogicSearch

variable {U : Type} [Plugin U]

open Activation (Asks protocol)

def Conjunction.Continues (registry : Registry U)
    (present next : Conjunction (Activation U) × Machine) : Prop :=
  Moves (protocol registry) present (.again next)

def Disjunction.Continues (registry : Registry U)
    (present next : Disjunction (Activation U) × Machine) : Prop :=
  Moves (protocol registry) present (.again next)

namespace Activation

open Relation (ReflTransGen)

/-- Asking the activation is at this store at some moment, of its own or of a goal inside. -/
inductive Passes (registry : Registry U) : Activation U → Machine → Store → Prop where
  | test {t : Test} {m : Machine} {s : Store} :
      t.Passes m.store s → Passes registry (.test t false) m s
  | equation {e : Equation} {phase : Equation.Phase} {m : Machine} {s : Store} :
      e.Passes m.store s phase → Passes registry (.equation e phase) m s
  | member {element : Term} {phase : Member.Phase} {m : Machine} {s : Store} :
      Member.Passes element m.store s phase → Passes registry (.member element phase) m s
  | conjunction {c c' : Conjunction (Activation U)} {m m' : Machine} {a : Activation U}
      {s : Store} : ReflTransGen (Conjunction.Continues registry) (c, m) (c', m') →
      c'.goals.head? = some a → Passes registry a m' s → Passes registry (.conjunction c) m s
  | disjunction {d d' : Disjunction (Activation U)} {m m' : Machine} {a : Activation U}
      {s : Store} : ReflTransGen (Disjunction.Continues registry) (d, m) (d', m') →
      d'.goals.head? = some a → Passes registry a m' s → Passes registry (.disjunction d) m s

/-- Asking the activation never makes a binding that is cyclic. -/
def Calm (registry : Registry U) (a : Activation U) (m : Machine) : Prop :=
  ∀ s, Passes registry a m s → s.Acyclic

/-- Asking again and again comes to an end. -/
inductive Tame (registry : Registry U) : Activation U → Machine → Prop where
  | cyclic {a : Activation U} {m : Machine} {s : Store} :
      Passes registry a m s → ¬ s.Acyclic → Tame registry a m
  | fails {a b : Activation U} {m m' : Machine} :
      Asks registry a m ⟨.ok false, b, m'⟩ → Tame registry a m
  | stuck {a : Activation U} {m : Machine} {halt : Halt} :
      Asks registry a m ⟨.error halt, a, m⟩ → Tame registry a m
  | halts {a b : Activation U} {m m' : Machine} {halt : Halt} :
      Asks registry a m ⟨.error halt, b, m'⟩ → m'.store.Acyclic → Tame registry b m' →
      Tame registry a m
  | answers {a b : Activation U} {m m' : Machine} :
      Asks registry a m ⟨.ok true, b, m'⟩ → m'.store.Acyclic → Tame registry b m' →
      Tame registry a m

variable {registry : Registry U} {a below : Activation U} {m m' : Machine} {l r : Term}
  {V : Var → Prop} {s : Store}

theorem Tame.of_calm (tame : a.Calm registry m → Tame registry a m) : Tame registry a m := by
  by_cases calm : a.Calm registry m
  · exact tame calm
  · simp only [Calm, not_forall] at calm
    obtain ⟨s, passes, cyclic⟩ := calm
    exact .cyclic passes cyclic

theorem Tame.sooner {b : Activation U} (tame : Tame registry b m') (acyclic : m'.store.Acyclic)
    (passes : ∀ s, Passes registry b m' s → Passes registry a m s)
    (asks : ∀ reply, Asks registry b m' reply → Asks registry a m reply) :
    Tame registry a m := by
  cases tame with
  | cyclic inside cyclic => exact .cyclic (passes _ inside) cyclic
  | fails asked => exact .fails (asks _ asked)
  | stuck asked => exact .halts (asks _ asked) acyclic (.stuck asked)
  | halts asked after later => exact .halts (asks _ asked) after later
  | answers asked after later => exact .answers (asks _ asked) after later

/-- A goal whose errors and answers are those of another one around it. What that one does besides
comes after the failure of the inner goal, on the machine the inner goal was started on. -/
theorem Tame.wrapped (tame : Tame Registry.builtins a m) (wrap : Activation U → Activation U)
    (holds : Holds anywhere s a m.store)
    (passes : ∀ a m t, Passes Registry.builtins a m t → Passes Registry.builtins (wrap a) m t)
    (halts : ∀ a b m m' halt, Asks Registry.builtins a m ⟨.error halt, b, m'⟩ →
      Asks Registry.builtins (wrap a) m ⟨.error halt, wrap b, m'⟩)
    (answers : ∀ a b m m', Asks Registry.builtins a m ⟨.ok true, b, m'⟩ →
      Asks Registry.builtins (wrap a) m ⟨.ok true, wrap b, m'⟩)
    (fails : ∀ a b m', m'.journal = m.journal →
      Asks Registry.builtins a m' ⟨.ok false, b, m'.withStore s⟩ →
      Tame Registry.builtins (wrap a) m') :
    Tame Registry.builtins (wrap a) m := by
  induction tame with
  | cyclic inside cyclic => exact .cyclic (passes _ _ _ inside) cyclic
  | fails asked =>
      obtain rfl := (holds.asks asked).state
      exact fails _ _ _ rfl asked
  | stuck asked => exact .stuck (halts _ _ _ _ _ asked)
  | halts asked after _ ih =>
      have kept := holds.asks asked
      exact .halts (halts _ _ _ _ _ asked) after (ih kept.holds fun a b m' same =>
        fails a b m' (same.trans kept.journal))
  | answers asked after _ ih =>
      have kept := holds.asks asked
      exact .answers (answers _ _ _ _ asked) after (ih kept.holds fun a b m' same =>
        fails a b m' (same.trans kept.journal))

theorem tame_test (acyclic : m.store.Acyclic) (t : Test) :
    Tame registry (.test t false : Activation U) m := by
  refine .of_calm fun calm => ?_
  obtain ⟨fuel, ⟨answer, s⟩, ran⟩ := Test.run_returns acyclic fun s passes => calm s (.test passes)
  obtain ⟨rfl, -⟩ := keeps_of_run ran
  have asked : Asks registry (.test t false) m ⟨answer, .test t true, m⟩ :=
    ⟨fuel + 1, by simp only [next, ran, Option.map_some]; rfl⟩
  have spent : Tame registry (.test t true : Activation U) m := .fails ⟨1, rfl⟩
  rcases answer with halt | _ | _
  · exact .halts asked acyclic spent
  · exact .fails asked
  · exact .answers asked acyclic spent

theorem tame_equation (acyclic : m.store.Acyclic) (e : Equation) :
    Tame registry (.equation e .fresh : Activation U) m := by
  refine .of_calm fun calm => ?_
  obtain ⟨fuel, outcome⟩ := Equation.next_fresh acyclic fun s passes => calm s (.equation passes)
  have asks {answer : Except Halt Bool} {phase : Equation.Phase} {t : Store}
      (done : e.next fuel m.store .fresh = some (answer, phase, t)) :
      Asks registry (.equation e .fresh) m ⟨answer, .equation e phase, m.withStore t⟩ :=
    ⟨fuel + 1, by simp only [next, done, Option.map_some]⟩
  rcases outcome with ⟨halt, done⟩ | done | ⟨undo, t, done, -, after⟩
  · exact .halts (asks done) acyclic (.fails ⟨1, rfl⟩)
  · exact .fails (asks done)
  · exact .answers (asks done) after (.fails ⟨1, rfl⟩)

theorem tame_member {element list : Term} {phase : Member.Phase}
    (standing : Member.Standing s element list phase m.store) (acyclic : s.Acyclic) :
    Tame registry (.member element phase : Activation U) m := by
  induction size : (list.subst s.trees).nodes using Nat.strong_induction_on
    generalizing list phase m with
  | _ n ih =>
      refine .of_calm fun calm => ?_
      obtain ⟨saved, result, fuel, exact, finds, done⟩ :=
        Member.next_returns standing acyclic fun u passes => calm u (.member passes)
      have asked : Asks registry (.member element phase) m
          ⟨.ok result.1, .member element result.2.1, m.withStore result.2.2⟩ :=
        ⟨fuel + 1, by simp only [next, done, Option.map_some]⟩
      rcases finds with rfl | ⟨savedHead, tail, t, rfl, undone, after, smaller⟩
      · exact .fails asked
      · have standing' : Member.Standing s element tail (.tried saved savedHead tail)
            (m.withStore t).store := .tried exact undone
        exact .answers asked after (ih _ (size ▸ smaller) standing' rfl)

section Conjunction

variable {c c' : Conjunction (Activation U)}

theorem asks_of_finish_conjunction {reply : Reply Machine (Conjunction (Activation U))}
    (moves : Conjunction.Moves (protocol registry) (c, m) (.finish reply)) :
    Asks registry (.conjunction c) m (reply.map .conjunction) :=
  asks_conjunction.mpr ⟨reply, .finish moves, rfl⟩

theorem Tame.again_conjunction (continues : Conjunction.Continues registry (c, m) (c', m'))
    (acyclic : m'.store.Acyclic) (tame : Tame registry (.conjunction c') m') :
    Tame registry (.conjunction c) m := by
  apply tame.sooner acyclic
  · intro s passes
    cases passes with
    | conjunction path first inside => exact .conjunction (path.head continues) first inside
  · intro reply asked
    obtain ⟨found, leads, same⟩ := asks_conjunction.mp asked
    exact asks_conjunction.mpr ⟨found, .again continues leads, same⟩

theorem Tame.conjunction_right (tame : Tame Registry.builtins a m)
    (holds : Holds anywhere s a m.store) (acyclic : s.Acyclic)
    (back : Tame Registry.builtins (.conjunction ⟨l, r, .left below⟩) (m.withStore s)) :
    Tame Registry.builtins (.conjunction ⟨l, r, .right below a⟩) m := by
  apply tame.wrapped (fun g => .conjunction ⟨l, r, .right below g⟩) holds
  · exact fun a m t passes => .conjunction .refl rfl passes
  · exact fun a b m m' halt asked => asks_of_finish_conjunction (.rightHalts asked)
  · exact fun a b m m' asked => asks_of_finish_conjunction (.rightAnswers asked)
  · intro a b m' journal asked
    rw [← Machine.withStore_eq journal s] at back
    cases cut : b.committed with
    | true => exact .fails (asks_of_finish_conjunction (.rightCommits asked cut))
    | false => exact .again_conjunction (.rightFails asked cut) acyclic back

theorem Tame.conjunction_left (tame : Tame Registry.builtins a m) (holds : Holds V s a m.store)
    (right : ∀ m' b, Store.Grows V s m'.store → m'.store.Acyclic →
      (Registry.builtins : Registry U).call r m' = some (.ok b, m') →
      Tame Registry.builtins b m') :
    Tame Registry.builtins (.conjunction ⟨l, r, .left a⟩) m := by
  induction tame with
  | cyclic passes cyclic => exact .cyclic (.conjunction .refl rfl passes) cyclic
  | fails asked => exact .fails (asks_of_finish_conjunction (.leftFails asked))
  | stuck asked => exact .stuck (asks_of_finish_conjunction (.leftHalts asked))
  | halts asked after _ ih =>
      have kept := holds.asks asked
      exact .halts (asks_of_finish_conjunction (.leftHalts asked)) after (ih kept.holds)
  | @answers _ b _ m' asked after _ ih =>
      have kept := holds.asks asked
      have later := ih kept.holds
      obtain ⟨result, called⟩ := exists_call (U := U) after.chainsEnd r
      cases result with
      | error halt =>
          exact .halts (asks_of_finish_conjunction (.rightRefused asked called)) after later
      | ok goal =>
          obtain ⟨-, started⟩ := started_of_call called
          have inner := right m' goal kept.holds.grows after called
          exact .again_conjunction (.leftAnswers asked called) after
            (inner.conjunction_right started after later)

theorem tame_conjunction (acyclic : m.store.Acyclic) (confined : m.store.Confined V l)
    (left : ∀ b : Activation U, Registry.builtins.call l m = some (.ok b, m) →
      Tame Registry.builtins b m)
    (right : ∀ (m' : Machine) (b : Activation U), Store.Grows V m.store m'.store →
      m'.store.Acyclic → Registry.builtins.call r m' = some (.ok b, m') →
      Tame Registry.builtins b m') :
    Tame (Registry.builtins : Registry U) (.conjunction (.start l r)) m := by
  obtain ⟨result, called⟩ := exists_call (U := U) acyclic.chainsEnd l
  cases result with
  | error halt => exact .stuck (asks_of_finish_conjunction (.refused called))
  | ok goal =>
      obtain ⟨-, -, started⟩ := holds_of_call called confined
      exact .again_conjunction (.calls called) acyclic
        ((left goal called).conjunction_left (started goal rfl) right)

end Conjunction

section Disjunction

variable {d d' : Disjunction (Activation U)}

theorem asks_of_finish_disjunction {reply : Reply Machine (Disjunction (Activation U))}
    (moves : Disjunction.Moves (protocol registry) (d, m) (.finish reply)) :
    Asks registry (.disjunction d) m (reply.map .disjunction) :=
  asks_disjunction.mpr ⟨reply, .finish moves, rfl⟩

theorem Tame.again_disjunction (continues : Disjunction.Continues registry (d, m) (d', m'))
    (acyclic : m'.store.Acyclic) (tame : Tame registry (.disjunction d') m') :
    Tame registry (.disjunction d) m := by
  apply tame.sooner acyclic
  · intro s passes
    cases passes with
    | disjunction path first inside => exact .disjunction (path.head continues) first inside
  · intro reply asked
    obtain ⟨found, leads, same⟩ := asks_disjunction.mp asked
    exact asks_disjunction.mpr ⟨found, .again continues leads, same⟩

theorem Tame.disjunction_right (tame : Tame Registry.builtins a m)
    (holds : Holds anywhere s a m.store) :
    Tame Registry.builtins (.disjunction ⟨l, r, .right a⟩) m := by
  apply tame.wrapped (fun g => .disjunction ⟨l, r, .right g⟩) holds
  · exact fun a m t passes => .disjunction .refl rfl passes
  · exact fun a b m m' halt asked => asks_of_finish_disjunction (.rightHalts asked)
  · exact fun a b m m' asked => asks_of_finish_disjunction (.rightAnswers asked)
  · exact fun a b m' _ asked => .fails (asks_of_finish_disjunction (.rightFails asked))

theorem Tame.disjunction_left (tame : Tame Registry.builtins a m)
    (holds : Holds anywhere s a m.store) (acyclic : s.Acyclic)
    (rest : Tame (Registry.builtins : Registry U) (.disjunction ⟨l, r, .between⟩)
      (m.withStore s)) : Tame Registry.builtins (.disjunction ⟨l, r, .left a⟩) m := by
  apply tame.wrapped (fun g => .disjunction ⟨l, r, .left g⟩) holds
  · exact fun a m t passes => .disjunction .refl rfl passes
  · exact fun a b m m' halt asked => asks_of_finish_disjunction (.leftHalts asked)
  · exact fun a b m m' asked => asks_of_finish_disjunction (.leftAnswers asked)
  · intro a b m' journal asked
    rw [← Machine.withStore_eq journal s] at rest
    cases cut : b.committed with
    | true => exact .fails (asks_of_finish_disjunction (.leftCommits asked cut))
    | false => exact .again_disjunction (.leftFails asked cut) acyclic rest

theorem tame_disjunction (acyclic : m.store.Acyclic)
    (left : ∀ b : Activation U, Registry.builtins.call l m = some (.ok b, m) →
      Tame Registry.builtins b m)
    (right : ∀ b : Activation U, Registry.builtins.call r m = some (.ok b, m) →
      Tame Registry.builtins b m) :
    Tame (Registry.builtins : Registry U) (.disjunction (.start l r)) m := by
  have rest : Tame (Registry.builtins : Registry U) (.disjunction ⟨l, r, .between⟩) m := by
    obtain ⟨result, called⟩ := exists_call (U := U) acyclic.chainsEnd r
    cases result with
    | error halt => exact .stuck (asks_of_finish_disjunction (.rightRefused called))
    | ok goal =>
        obtain ⟨-, started⟩ := started_of_call called
        exact .again_disjunction (.callsRight called) acyclic
          ((right goal called).disjunction_right started)
  obtain ⟨result, called⟩ := exists_call (U := U) acyclic.chainsEnd l
  cases result with
  | error halt => exact .stuck (asks_of_finish_disjunction (.refused called))
  | ok goal =>
      obtain ⟨-, started⟩ := started_of_call called
      exact .again_disjunction (.calls called) acyclic
        ((left goal called).disjunction_left started acyclic rest)

end Disjunction

/-- What is called in a store without cyclic bindings comes to an end. -/
theorem tame_of_call {W : Finset Var} {goal : Term} (acyclic : m.store.Acyclic)
    (confined : m.store.Confined (· ∈ W) goal)
    (called : (Registry.builtins : Registry U).call goal m = some (.ok a, m)) :
    Tame Registry.builtins a m := by
  induction left : m.store.unboundIn W using Nat.strong_induction_on generalizing goal a m with
  | _ n binds =>
      induction size : (goal.subst m.store.trees).nodes using Nat.strong_induction_on
        generalizing goal a m with
      | _ k shrinks =>
          obtain ⟨u, ends, fresh⟩ := fresh_of_call called
          have inside {x : Term} (member : x ∈ u.args) : m.store.Confined (· ∈ W) x :=
            fun v free => confined v (Store.free_of_arg ends member free)
          have arg {x : Term} (member : x ∈ u.args) (m' : Machine) (b : Activation U)
              (grows : Store.Grows (· ∈ W) m.store m'.store) (after : m'.store.Acyclic)
              (calls : (Registry.builtins : Registry U).call x m' = some (.ok b, m')) :
              Tame Registry.builtins b m' := by
            have confined' := (inside member).grow grows
            -- With nothing bound since the call the argument is smaller; otherwise its tree may
            -- have grown, but there is less left to bind.
            rcases grows.eq_or_fewer with same | fewer
            · have smaller := acyclic.nodes_lt_of_arg ends member
              rw [← same] at smaller size left
              exact shrinks _ (size ▸ smaller) after confined' calls left rfl
            · exact binds _ (left ▸ fewer) after confined' calls rfl
          have child {x : Term} (member : x ∈ u.args) (b : Activation U)
              (calls : (Registry.builtins : Registry U).call x m = some (.ok b, m)) :
              Tame Registry.builtins b m :=
            arg member m b (.refl _) acyclic calls
          generalize u.args = args at fresh inside arg child
          cases fresh with
          | test => exact tame_test acyclic _
          | unify | evaluate => exact tame_equation acyclic _
          | member => exact tame_member .fresh acyclic
          | conjunction =>
              exact tame_conjunction acyclic (inside (by simp)) (child (by simp)) (arg (by simp))
          | disjunction => exact tame_disjunction acyclic (child (by simp)) (child (by simp))

end Activation

end LogicSearch
