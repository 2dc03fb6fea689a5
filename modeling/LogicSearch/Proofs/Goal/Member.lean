import LogicSearch.Goal.Member
import LogicSearch.Proofs.Store.Attempt

namespace LogicSearch

namespace Store

variable {s : Store} {list head tail : Term} {v : Var}

theorem deref_of_cell (found : s.cell? list = some (some (head, tail))) :
    s.deref list = some (.cons head tail) := by
  obtain ⟨u, ends, cell⟩ := Option.map_eq_some_iff.mp found
  rw [ends]
  unfold Term.cell? at cell
  split at cell
  · split at cell
    · rename_i dot
      cases cell
      rw [dot]
      rfl
    · cases cell
  · cases cell

theorem free_head (found : s.cell? list = some (some (head, tail))) (free : s.Free head v) :
    s.Free list v :=
  .inside (deref_of_cell found) List.mem_cons_self free

theorem free_tail (found : s.cell? list = some (some (head, tail))) (free : s.Free tail v) :
    s.Free list v :=
  .inside (deref_of_cell found) (List.mem_cons_of_mem _ List.mem_cons_self) free

end Store

namespace Member

variable {s : Store} {fuel : Nat} {element list : Term} {saved : Snapshot}
  {turn : Turn (Term × Store) (Bool × Phase × Store)}

theorem undo_of_exact {t : Store} {head : Term} {savedHead : Snapshot}
    (exact : ∀ v, v ∈ saved.vars ↔ s.Free element v)
    (exactHead : ∀ v, v ∈ savedHead.vars ↔ s.Free head v)
    (same : Store.SameOutside (fun v => s.Free element v ∨ s.Free head v) s t) :
    undo t saved savedHead = s := by
  rw [undo, ← Store.restore_join]
  refine Store.restore_of_exact same fun v => ?_
  rw [Store.mem_join, exact, exactHead]
  exact or_comm

/-- All that a step can do, when what was saved of the element are its free variables. -/
theorem step_cases (exact : ∀ v, v ∈ saved.vars ↔ s.Free element v)
    (taken : step fuel element saved (list, s) = some turn) :
    (s.cell? list = some none ∧ turn = .finish (false, .done, s)) ∨
      ∃ head tail, s.cell? list = some (some (head, tail)) ∧
        ((∃ savedHead t, s.unify fuel element head = some (true, t) ∧ undo t saved savedHead = s ∧
            turn = .finish (true, .tried saved savedHead tail, t)) ∨
          (∃ t, s.unify fuel element head = some (false, t) ∧ turn = .again (tail, s))) := by
  simp only [step] at taken
  split at taken
  · cases taken
  · rename_i ended
    cases taken
    exact .inl ⟨ended, rfl⟩
  · rename_i head tail cell
    refine .inr ⟨head, tail, cell, ?_⟩
    split at taken
    · cases taken
    · rename_i savedHead snapped
      have undone {answer : Bool} {t : Store}
          (unified : s.unify fuel element head = some (answer, t)) :
          undo t saved savedHead = s :=
        undo_of_exact exact (fun v => Store.mem_snapshot snapped)
          (Store.unify_grows unified).sameOutside
      split at taken
      · cases taken
      · rename_i t unified
        cases taken
        exact .inl ⟨savedHead, t, unified, undone unified, rfl⟩
      · rename_i t unified
        cases taken
        exact .inr ⟨t, unified, by rw [undone unified]⟩

/-- A membership that was started in the first store, is at the second one, and goes on with the
list. -/
inductive Standing (s : Store) (element list : Term) : Phase → Store → Prop where
  | fresh : Standing s element list (.fresh list) s
  | tried {saved head : Snapshot} {t : Store} : (∀ v, v ∈ saved.vars ↔ s.Free element v) →
      undo t saved head = s → Standing s element list (.tried saved head list) t

theorem Standing.walk {t : Store} {phase : Phase} {result : Bool × Phase × Store}
    (standing : Standing s element list phase t)
    (asked : next fuel element t phase = some result) :
    ∃ saved, (∀ v, v ∈ saved.vars ↔ s.Free element v) ∧
      Turn.Leads (fun position turn => step fuel element saved position = some turn)
        (list, s) result := by
  cases standing with
  | fresh =>
      simp only [next] at asked
      split at asked
      · cases asked
      · rename_i saved snapped
        exact ⟨saved, fun v => Store.mem_snapshot snapped, Turn.leads_iff.mpr ⟨fuel, asked⟩⟩
  | tried exact undone =>
      simp only [next, undone] at asked
      exact ⟨_, exact, Turn.leads_iff.mpr ⟨fuel, asked⟩⟩

end Member

end LogicSearch
