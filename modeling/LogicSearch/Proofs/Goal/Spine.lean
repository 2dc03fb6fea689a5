import LogicSearch.Proofs.Goal.Member
import LogicSearch.Proofs.Store.Model

namespace LogicSearch

namespace Store

/-- List cells with these heads, followed through bindings to an end that is no variable. -/
inductive Spine (s : Store) : Term → List Term → Prop where
  | ends {list u : Term} : s.deref list = some u → u.cell? = none → (∀ v, u ≠ .var v) →
      Spine s list []
  | cell {list head tail : Term} {heads : List Term} :
      s.cell? list = some (some (head, tail)) → Spine s tail heads → Spine s list (head :: heads)

variable {s t : Store} {list : Term} {heads : List Term}

theorem cell?_of_deref {u : Term} (done : s.deref list = some u) : s.cell? list = some u.cell? := by
  simp [cell?, done]

theorem deref_value_of_le (larger : s ≤ t) {u : Term} (done : s.deref list = some u)
    (value : ∀ v, u ≠ .var v) : t.deref list = some u := by
  rw [deref_le larger done]
  apply deref_of_isEnd
  cases u with
  | var v => exact (value v rfl).elim
  | _ => trivial

theorem Spine.le (spine : s.Spine list heads) (larger : s ≤ t) : t.Spine list heads := by
  induction spine with
  | ends done none value => exact .ends (deref_value_of_le larger done value) none value
  | cell found _ ih =>
      have done := deref_value_of_le larger (deref_of_cell found) (by simp [Term.cons])
      exact .cell (cell?_of_deref done) ih

theorem Spine.unique {heads' : List Term} (spine : s.Spine list heads)
    (other : s.Spine list heads') : heads = heads' := by
  induction spine generalizing heads' with
  | ends done none _ =>
      cases other with
      | ends => rfl
      | cell found =>
          rw [cell?_of_deref done, none] at found
          cases found
  | cell found _ ih =>
      cases other with
      | ends done none =>
          rw [cell?_of_deref done, none] at found
          cases found
      | cell found' rest =>
          rw [found] at found'
          cases found'
          rw [ih rest]

end Store

namespace Member

open Store (Spine)

variable {s : Store} {fuel : Nat} {element list : Term} {heads : List Term} {saved : Snapshot}
  {result : Bool × Phase × Store}

theorem walk_cases (exact : ∀ v, v ∈ saved.vars ↔ s.Free element v)
    (walked : Turn.Leads (fun position turn => step fuel element saved position = some turn)
      (list, s) result) (spine : s.Spine list heads) :
    (result = (false, .done, s) ∧
      ∀ θ, s.Models θ → ∀ head ∈ heads, element.subst θ ≠ head.subst θ) ∨
    ∃ passed head rest savedHead tail t, heads = passed ++ head :: rest ∧
      (∀ θ, s.Models θ → ∀ head ∈ passed, element.subst θ ≠ head.subst θ) ∧
      s.unify fuel element head = some (true, t) ∧ s.Spine tail rest ∧
      undo t saved savedHead = s ∧ result = (true, .tried saved savedHead tail, t) := by
  generalize at_ : (list, s) = position at walked
  induction walked generalizing list heads with
  | again taken _ ih =>
      subst at_
      rcases step_cases exact taken with ⟨-, same⟩ | ⟨head, tail, cell, outcome⟩
      · cases same
      · rcases outcome with ⟨_, _, -, -, same⟩ | ⟨_, failed, same⟩
        · cases same
        · cases same
          cases spine with
          | ends done none =>
              rw [Store.cell?_of_deref done, none] at cell
              cases cell
          | cell found rest =>
              rw [found] at cell
              cases cell
              have apart := fun θ (model : s.Models θ) => Store.no_models_of_unify failed model
              rcases ih rest rfl with ⟨same, none⟩ | ⟨passed, hit, later, _, _, _, rfl, none, found⟩
              · refine .inl ⟨same, fun θ model => List.forall_mem_cons.mpr ?_⟩
                exact ⟨apart θ model, none θ model⟩
              · refine .inr ⟨_ :: passed, hit, later, _, _, _, rfl, fun θ model => ?_, found⟩
                exact List.forall_mem_cons.mpr ⟨apart θ model, none θ model⟩
  | finish taken =>
      subst at_
      rcases step_cases exact taken with ⟨ended, same⟩ | ⟨head, tail, cell, outcome⟩
      · cases same
        cases spine with
        | ends => exact .inl ⟨rfl, by simp⟩
        | cell found =>
            rw [found] at ended
            cases ended
      · rcases outcome with ⟨savedHead, t, unified, undone, same⟩ | ⟨_, -, same⟩
        · cases same
          cases spine with
          | ends done none =>
              rw [Store.cell?_of_deref done, none] at cell
              cases cell
          | cell found rest =>
              rw [found] at cell
              cases cell
              exact .inr ⟨[], _, _, _, _, _, rfl, by simp, unified, rest, undone, rfl⟩
        · cases same

end Member

end LogicSearch
