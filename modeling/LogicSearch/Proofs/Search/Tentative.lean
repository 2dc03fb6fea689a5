import LogicSearch.Proofs.Search.Request
import LogicSearch.Proofs.Store.Passes
import LogicSearch.Registry.Builtin

namespace LogicSearch

namespace Store

variable {s t : Store} {l r : Term}

theorem tryUnify_of_unify {fuel : Nat} {answer : Bool} (acyclic : s.Acyclic)
    (unified : s.unify fuel l r = some (answer, t)) :
    ∃ fuel undo, s.tryUnify fuel l r = some (undo, if answer then t else s) ∧
      undo.isSome = answer := by
  obtain ⟨_, p, left⟩ := snapshot_returns acyclic l
  obtain ⟨_, q, right⟩ := snapshot_returns acyclic r
  obtain ⟨more, tried⟩ := tryUnify_of_parts left right unified
  cases answer with
  | true => exact ⟨more, some (p.join q), tried, rfl⟩
  | false =>
      have undone : t.restore (p.join q) = s := restore_unify unified fun v => by
        rw [mem_join, mem_snapshot left, mem_snapshot right]
      simp only [Bool.false_eq_true, if_false, undone] at tried
      exact ⟨more, none, tried, rfl⟩

end Store

open Activation (Asks)

variable {U : Type} [Plugin U] {m : Machine} {l r : Term} {fuel : Nat} {t : Store}

theorem asks_notUnifiable {undo : Option Snapshot}
    (tried : m.store.tryUnify fuel l r = some (undo, t)) :
    Asks (Registry.builtins : Registry U) (.test (.notUnifiable l r) false) m
      ⟨.ok undo.isNone, .test (.notUnifiable l r) true, m⟩ := by
  refine ⟨fuel + 1, ?_⟩
  rcases Store.tryUnify_cases tried with ⟨p, bound, same, -, undone⟩ | ⟨bound, same, -⟩
  · cases same
    simp only [Activation.next, Test.run, tried, undone]
    rfl
  · cases same
    simp only [Activation.next, Test.run, tried]
    rfl

theorem asks_unify {undo : Option Snapshot}
    (tried : m.store.tryUnify fuel l r = some (undo, t)) :
    ∃ phase, Asks (Registry.builtins : Registry U) (.equation (.unify l r) .fresh) m
      ⟨.ok undo.isSome, .equation (.unify l r) phase, m.withStore t⟩ := by
  cases undo with
  | none =>
      refine ⟨.spent, fuel + 1, ?_⟩
      simp only [Activation.next, Equation.next, Equation.sides, tried]
      rfl
  | some p =>
      refine ⟨.bound p, fuel + 1, ?_⟩
      simp only [Activation.next, Equation.next, Equation.sides, tried]
      rfl

/-- On a store without cyclic bindings a tentative attempt returns whenever unification does. It
fails exactly if unification does, with the store as it was, and otherwise binds the same; what it
then saves leads back from every store that differs only on variables that were free in the two
terms. So the goal that the terms do not unify succeeds exactly if their equation fails, and leaves
the machine alone on every request. -/
theorem tentative_unification_undoable {answer : Bool} (acyclic : m.store.Acyclic)
    (unified : m.store.unify fuel l r = some (answer, t)) :
    (∃ fuel undo u, m.store.tryUnify fuel l r = some (undo, u) ∧
      (undo = none ↔ answer = false) ∧ u = (if answer then t else m.store) ∧
      ∀ p, undo = some p → ∀ later,
        Store.SameOutside (fun v => m.store.Free l v ∨ m.store.Free r v) u later →
          later.restore p = m.store) ∧
    ∃ apart apart' equal equal' : Activation U,
      Registry.builtins.call (.compound .notUnifiable l [r]) m = some (.ok apart, m) ∧
      Registry.builtins.call (.compound .equals l [r]) m = some (.ok equal, m) ∧
      Asks Registry.builtins apart m ⟨.ok (!answer), apart', m⟩ ∧
      (∀ m', Asks Registry.builtins apart' m' ⟨.ok false, apart', m'⟩) ∧
      Asks Registry.builtins equal m
        ⟨.ok answer, equal', m.withStore (if answer then t else m.store)⟩ := by
  obtain ⟨more, undo, tried, rfl⟩ := Store.tryUnify_of_unify acyclic unified
  refine ⟨⟨more, undo, _, tried, by simp, rfl, ?_⟩, ?_⟩
  · rintro p rfl later changed
    have bound := (Store.unify_grows unified).sameOutside
    exact Store.restore_of_exact (bound.trans changed) (Store.mem_tryUnify tried)
  · obtain ⟨phase, equal⟩ := asks_unify (U := U) tried
    have apart := asks_notUnifiable (U := U) tried
    rw [← Option.not_isSome] at apart
    exact ⟨_, _, _, _, rfl, rfl, apart, fun m' => ⟨1, rfl⟩, equal⟩

theorem tentative_unification_undoable_below_binding :
    let m : Machine := ⟨Store.empty.bind 0 (.compound ⟨"f"⟩ (.var 1) []), []⟩
    let l : Term := .compound ⟨"g"⟩ (.var 0) [.var 2]
    let r : Term := .compound ⟨"g"⟩ (.compound ⟨"f"⟩ (.atom ⟨"a"⟩) []) [.var 1]
    m.store.Acyclic ∧ ∃ fuel t p, m.store.unify 9 l r = some (true, t) ∧
      m.store.tryUnify fuel l r = some (some p, t) ∧
      ((t.unbind 1).bind 2 (.int 7)).restore p = m.store ∧
      ∃ apart apart' : Activation Empty,
        Registry.builtins.call (.compound .notUnifiable l [r]) m = some (.ok apart, m) ∧
        Asks Registry.builtins apart m ⟨.ok false, apart', m⟩ := by
  intro m l r
  have acyclic : m.store.Acyclic := Store.acyclic_empty.bind_new (by decide) (by simp)
  have returns : (m.store.unify 9 l r).map (·.1) = some true := rfl
  obtain ⟨⟨answer, t⟩, unified, success⟩ := Option.map_eq_some_iff.mp returns
  obtain rfl : answer = true := success
  have first : m.store.Free l 1 :=
    .inside rfl List.mem_cons_self (.inside rfl List.mem_cons_self (.here rfl))
  have second : m.store.Free l 2 :=
    .inside rfl (List.mem_cons_of_mem _ List.mem_cons_self) (.here rfl)
  obtain ⟨⟨fuel, undo, u, tried, none, same, back⟩, apart, apart', -, -, called, -, asked, -⟩ :=
    tentative_unification_undoable (U := Empty) acyclic unified
  rw [if_pos rfl] at same
  subst same
  cases undo with
  | none => cases none.mp rfl
  | some p =>
      refine ⟨acyclic, fuel, u, p, unified, tried, back p rfl _ ?_, apart, apart', called, asked⟩
      intro v outside
      have other : 1 ≠ v ∧ 2 ≠ v := by
        constructor <;> rintro rfl
        · exact outside (.inl first)
        · exact outside (.inl second)
      rw [Store.lookup_bind, if_neg other.2, Store.lookup_unbind, if_neg other.1]

end LogicSearch
