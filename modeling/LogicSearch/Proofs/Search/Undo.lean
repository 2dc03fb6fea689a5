import LogicSearch.Proofs.Arithmetic.Faults
import LogicSearch.Proofs.Goal.Member
import LogicSearch.Proofs.Registry.Started
import LogicSearch.Proofs.Search.Moves

/-!
What undoes a search. `Holds` relates an activation to the store it was started in and to the one it
is at: the growth in between is among a set of variables, and failing or giving up leads back to the
start. Every request keeps it, whatever the reply.
-/

namespace LogicSearch

variable {U : Type} {V : Var → Prop}

theorem Machine.withStore_eq {m m' : Machine} (same : m'.journal = m.journal) (s : Store) :
    m'.withStore s = m.withStore s := by
  simp only [withStore, same]

def Store.Confined (V : Var → Prop) (s : Store) (t : Term) : Prop := ∀ v, s.Free t v → V v

theorem Store.Confined.grow {s t : Store} {u : Term} (confined : s.Confined V u)
    (grows : Grows V s t) : t.Confined V u := grows.within confined

namespace Activation

open Store (Grows)

/-- The activation was started in the first store and is at the second one now. -/
inductive Holds (V : Var → Prop) : Store → Activation U → Store → Prop where
  | test {s : Store} {t : Test} {called : Bool} : Holds V s (.test t called) s
  | equationFresh {s : Store} {e : Equation} :
      (∀ l r, e.sides s = some (.ok (l, r)) → s.Confined V l ∧ s.Confined V r) →
      Holds V s (.equation e .fresh) s
  | equationBound {s t : Store} {e : Equation} {undo : Snapshot} :
      Grows V s t → t.restore undo = s → Holds V s (.equation e (.bound undo)) t
  | equationSpent {s : Store} {e : Equation} : Holds V s (.equation e .spent) s
  | member {s t : Store} {e list : Term} {phase : Member.Phase} :
      Grows V s t → Member.Standing s e list phase t → s.Confined V e → s.Confined V list →
      Holds V s (.member e phase) t
  | memberDone {s : Store} {e : Term} : Holds V s (.member e .done) s
  | conjunctionFresh {s : Store} {l r : Term} :
      s.Confined V l → s.Confined V r → Holds V s (.conjunction ⟨l, r, .fresh⟩) s
  | conjunctionLeft {s t : Store} {l r : Term} {a : Activation U} :
      s.Confined V r → Holds V s a t → Holds V s (.conjunction ⟨l, r, .left a⟩) t
  | conjunctionRight {s t u : Store} {l r : Term} {below a : Activation U} :
      s.Confined V r → Holds V s below t → Holds V t a u →
      Holds V s (.conjunction ⟨l, r, .right below a⟩) u
  | conjunctionDone {s : Store} {l r : Term} {committed : Bool} :
      Holds V s (.conjunction ⟨l, r, .done committed⟩) s
  | disjunctionFresh {s : Store} {l r : Term} :
      s.Confined V l → s.Confined V r → Holds V s (.disjunction ⟨l, r, .fresh⟩) s
  | disjunctionLeft {s t : Store} {l r : Term} {a : Activation U} :
      s.Confined V r → Holds V s a t → Holds V s (.disjunction ⟨l, r, .left a⟩) t
  | disjunctionBetween {s : Store} {l r : Term} :
      s.Confined V r → Holds V s (.disjunction ⟨l, r, .between⟩) s
  | disjunctionRight {s t : Store} {l r : Term} {a : Activation U} :
      Holds V s a t → Holds V s (.disjunction ⟨l, r, .right a⟩) t
  | disjunctionDone {s : Store} {l r : Term} {committed : Bool} :
      Holds V s (.disjunction ⟨l, r, .done committed⟩) s

theorem Holds.grows {s t : Store} {a : Activation U} (holds : Holds V s a t) : Grows V s t := by
  induction holds with
  | equationBound grows => exact grows
  | member grows => exact grows
  | conjunctionLeft _ _ ih => exact ih
  | conjunctionRight _ _ _ below right => exact below.trans right
  | disjunctionLeft _ _ ih => exact ih
  | disjunctionRight _ ih => exact ih
  | _ => exact .refl _

theorem Fresh.holds {s : Store} {args : List Term} {a : Activation U} (fresh : Fresh args a)
    (confined : ∀ u ∈ args, s.Confined V u) : Holds V s a s := by
  cases fresh with
  | test => exact .test
  | unify =>
      refine .equationFresh ?_
      intro l r same
      cases same
      exact ⟨confined _ (by simp), confined _ (by simp)⟩
  | evaluate =>
      refine .equationFresh ?_
      intro l r same
      simp only [Equation.sides] at same
      split at same <;> cases same
      exact ⟨confined _ (by simp), fun v free => (Store.not_free_int free).elim⟩
  | member => exact .member (.refl s) .fresh (confined _ (by simp)) (confined _ (by simp))
  | conjunction => exact .conjunctionFresh (confined _ (by simp)) (confined _ (by simp))
  | disjunction => exact .disjunctionFresh (confined _ (by simp)) (confined _ (by simp))

theorem holds_of_call {t : Term} {m m' : Machine} {result : Except Halt (Activation U)}
    (called : (Registry.builtins : Registry U).call t m = some (result, m'))
    (confined : m.store.Confined V t) :
    m' = m ∧ Sound result ∧ ∀ a, result = .ok a → Holds V m.store a m.store := by
  obtain ⟨same, started⟩ := builtins_call called
  refine ⟨same, ?_⟩
  rcases started with ⟨a, args, rfl, fresh, inside⟩ | ⟨cause, rfl⟩
  · refine ⟨sound_ok a, ?_⟩
    intro a' same
    cases same
    exact fresh.holds fun u member v free => confined v (inside u member v free)
  · refine ⟨sound_error cause, ?_⟩
    intro a wrong
    cases wrong

/-- What every request keeps of an activation that was started in a store. -/
structure Keeps (V : Var → Prop) (s : Store) (m : Machine)
    (reply : Reply Machine (Activation U)) : Prop where
  holds : Holds V s reply.goal reply.state.store
  journal : reply.state.journal = m.journal
  back : reply.answer = .ok false → reply.state.store = s
  sound : Sound reply.answer

theorem Keeps.state {s : Store} {m : Machine} {a : Activation U} {m' : Machine}
    (keeps : Keeps V s m ⟨.ok false, a, m'⟩) : m' = m.withStore s := by
  obtain ⟨t, journal⟩ := m'
  have store : t = s := keeps.back rfl
  have same : journal = m.journal := keeps.journal
  rw [store, same]
  rfl

theorem sound_of_sides {e : Equation} {s : Store} {result : Except Halt (Term × Term)}
    (done : e.sides s = some result) : Sound result := by
  cases e with
  | unify l r =>
      cases done
      exact sound_ok _
  | evaluate x t =>
      simp only [Equation.sides] at done
      split at done
      · cases done
      · rename_i halted
        cases done
        exact (Store.sound_eval halted).error
      · cases done
        exact sound_ok _

theorem keeps_of_run {s : Store} {fuel : Nat} {t : Test} {r : Except Halt Bool × Store}
    (done : t.run fuel s = some r) : r.2 = s ∧ Sound r.1 := by
  cases t with
  | truth | failure | cut =>
      cases done
      exact ⟨rfl, sound_ok _⟩
  | notUnifiable left right =>
      simp only [Test.run] at done
      split at done
      · cases done
      · rename_i undo bound tried
        cases done
        rcases Store.tryUnify_cases tried with ⟨_, _, same, -, undone⟩ | ⟨_, same, -⟩
        · cases same
          exact ⟨undone, sound_ok _⟩
        · cases same
      · rename_i restored tried
        cases done
        rcases Store.tryUnify_cases tried with ⟨_, _, same, -, -⟩ | ⟨_, same, -⟩
        · cases same
        · cases same
          exact ⟨rfl, sound_ok _⟩
  | ofKind kind t =>
      simp only [Test.run] at done
      split at done <;> cases done
      exact ⟨rfl, sound_ok _⟩
  | compare comparison left right =>
      simp only [Test.run] at done
      split at done
      · cases done
      · rename_i halted
        cases done
        exact ⟨rfl, (Store.sound_eval halted).error⟩
      · split at done
        · cases done
        · rename_i halted
          cases done
          exact ⟨rfl, (Store.sound_eval halted).error⟩
        · cases done
          exact ⟨rfl, sound_ok _⟩

variable [Plugin U]

theorem Holds.abort {s : Store} {a : Activation U} {m : Machine} (holds : Holds V s a m.store) :
    (a.abort m).2 = m.withStore s ∧ Holds V s (a.abort m).1 s := by
  generalize at_ : m.store = t at holds
  induction holds generalizing m with
  | test => exact ⟨at_ ▸ rfl, .test⟩
  | equationFresh confined => exact ⟨at_ ▸ rfl, .equationFresh confined⟩
  | equationBound _ undone => exact ⟨by subst at_; rw [← undone]; rfl, .equationSpent⟩
  | equationSpent => exact ⟨at_ ▸ rfl, .equationSpent⟩
  | member _ standing =>
      cases standing with
      | fresh => exact ⟨at_ ▸ rfl, .memberDone⟩
      | tried _ undone => exact ⟨by subst at_; rw [← undone]; rfl, .memberDone⟩
  | memberDone => exact ⟨at_ ▸ rfl, .memberDone⟩
  | conjunctionFresh => exact ⟨at_ ▸ rfl, .conjunctionDone⟩
  | conjunctionLeft _ _ ih => exact ⟨(ih at_).1, .conjunctionDone⟩
  | conjunctionRight _ _ _ below right =>
      refine ⟨?_, .conjunctionDone⟩
      simp only [Activation.abort, (right at_).1]
      exact (below (m := m.withStore _) rfl).1
  | conjunctionDone => exact ⟨at_ ▸ rfl, .conjunctionDone⟩
  | disjunctionFresh => exact ⟨at_ ▸ rfl, .disjunctionDone⟩
  | disjunctionLeft _ _ ih => exact ⟨(ih at_).1, .disjunctionDone⟩
  | disjunctionBetween => exact ⟨at_ ▸ rfl, .disjunctionDone⟩
  | disjunctionRight _ ih => exact ⟨(ih at_).1, .disjunctionDone⟩
  | disjunctionDone => exact ⟨at_ ▸ rfl, .disjunctionDone⟩

theorem Holds.next_test {s : Store} {m : Machine} {fuel : Nat} {t : Test} {called : Bool}
    {reply : Reply Machine (Activation U)} {registry : Registry U}
    (holds : Holds V s (.test t called : Activation U) m.store)
    (done : (.test t called : Activation U).next registry (fuel + 1) m = some reply) :
    Keeps V s m reply := by
  cases holds with
  | test =>
      cases called with
      | true =>
          cases done
          exact ⟨.test, rfl, fun _ => rfl, sound_ok _⟩
      | false =>
          obtain ⟨r, ran, rfl⟩ := Option.map_eq_some_iff.mp done
          obtain ⟨back, sound⟩ := keeps_of_run ran
          exact ⟨by rw [← back]; exact .test, rfl, fun _ => back, sound⟩

theorem Holds.next_equation {s : Store} {m : Machine} {fuel : Nat} {e : Equation}
    {phase : Equation.Phase} {reply : Reply Machine (Activation U)} {registry : Registry U}
    (holds : Holds V s (.equation e phase : Activation U) m.store)
    (done : (.equation e phase : Activation U).next registry (fuel + 1) m = some reply) :
    Keeps V s m reply := by
  obtain ⟨r, answered, rfl⟩ := Option.map_eq_some_iff.mp done
  cases holds with
  | equationSpent =>
      cases answered
      exact ⟨.equationSpent, rfl, fun _ => rfl, sound_ok _⟩
  | equationBound _ undone =>
      cases answered
      exact ⟨by rw [← undone]; exact .equationSpent, rfl, fun _ => undone, sound_ok _⟩
  | equationFresh confined =>
      simp only [Equation.next] at answered
      split at answered
      · cases answered
      · rename_i halt halted
        cases answered
        have sound := sound_of_sides halted
        exact ⟨.equationSpent, rfl, (fun wrong => by cases wrong), sound.error⟩
      · rename_i l r sides
        obtain ⟨left, right⟩ := confined l r sides
        split at answered
        · cases answered
        · rename_i undo bound tried
          cases answered
          rcases Store.tryUnify_cases tried with ⟨_, _, same, unified, undone⟩ | ⟨_, same, -⟩
          · cases same
            have grows := (Store.unify_grows unified).mono fun v free =>
              free.elim (left v) (right v)
            exact ⟨.equationBound grows undone, rfl, (fun wrong => by cases wrong), sound_ok _⟩
          · cases same
        · rename_i restored tried
          cases answered
          rcases Store.tryUnify_cases tried with ⟨_, _, same, -, -⟩ | ⟨_, same, -⟩
          · cases same
          · cases same
            exact ⟨.equationSpent, rfl, fun _ => rfl, sound_ok _⟩

theorem Holds.next_member {s : Store} {m : Machine} {fuel : Nat} {e : Term}
    {phase : Member.Phase} {reply : Reply Machine (Activation U)} {registry : Registry U}
    (holds : Holds V s (.member e phase : Activation U) m.store)
    (done : (.member e phase : Activation U).next registry (fuel + 1) m = some reply) :
    Keeps V s m reply := by
  obtain ⟨r, answered, rfl⟩ := Option.map_eq_some_iff.mp done
  suffices kept : Holds V s (.member e r.2.1 : Activation U) r.2.2 ∧ (r.1 = false → r.2.2 = s) from
    ⟨kept.1, rfl, fun same => kept.2 (by injection same), sound_ok _⟩
  cases holds with
  | memberDone =>
      cases answered
      exact ⟨.memberDone, fun _ => rfl⟩
  | @member _ _ _ list _ _ standing element confined =>
      obtain ⟨saved, exact, leads⟩ := standing.walk answered
      -- At every position the walk is back at the start, and what is left of the list is confined.
      apply leads.invariant (fun position => position.2 = s ∧ s.Confined V position.1)
        (fun r => Holds V s (.member e r.2.1 : Activation U) r.2.2 ∧ (r.1 = false → r.2.2 = s))
      · rintro ⟨list, here⟩ next ⟨rfl, confined⟩ taken
        rcases Member.step_cases exact taken with ⟨-, same⟩ | ⟨head, tail, cell, outcome⟩
        · cases same
        · rcases outcome with ⟨_, _, -, -, same⟩ | ⟨_, -, same⟩
          · cases same
          · cases same
            exact ⟨rfl, fun v free => confined v (Store.free_tail cell free)⟩
      · rintro ⟨list, here⟩ result ⟨rfl, confined⟩ taken
        rcases Member.step_cases exact taken with ⟨-, same⟩ | ⟨head, tail, cell, outcome⟩
        · cases same
          exact ⟨.memberDone, fun _ => rfl⟩
        · rcases outcome with ⟨savedHead, t, unified, undone, same⟩ | ⟨_, -, same⟩
          · cases same
            have inside : ∀ v, Store.Free _ head v → V v := fun v free =>
              confined v (Store.free_head cell free)
            have rest : Store.Confined V _ tail := fun v free =>
              confined v (Store.free_tail cell free)
            have grows := (Store.unify_grows unified).mono fun v free =>
              free.elim (element v) (inside v)
            exact ⟨.member grows (.tried exact undone) element rest, fun wrong => by cases wrong⟩
          · cases same
      · exact ⟨rfl, confined⟩

end Activation

end LogicSearch
