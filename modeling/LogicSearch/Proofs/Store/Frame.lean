import LogicSearch.Proofs.Store.Likeness

/-!
The part of a store that a term can see. What is reached from a term through arguments and bindings
is a set of variables closed under bindings; stores that agree there go along with one another, and
keep what they are elsewhere.
-/

namespace LogicSearch

/-- Terms over a set of variables, each standing for itself only. -/
def Likeness.over (W : Var → Prop) : Likeness where
  own := W
  terms u w := w = u ∧ ∀ v ∈ u.vars, W v

namespace Store

/-- A variable that occurs in a term, or in what is reached from it through bindings. -/
inductive Reaches (s : Store) : Term → Var → Prop where
  | here {t : Term} {v : Var} : v ∈ t.vars → Reaches s t v
  | through {t u : Term} {v w : Var} : v ∈ t.vars → s.lookup v = some u → Reaches s u w →
      Reaches s t w

/-- Two stores that bind the variables of `W` alike and to terms over `W`, and are two given stores
everywhere else. -/
structure Shares (W : Var → Prop) (left right s t : Store) : Prop where
  same : ∀ v, W v → t.lookup v = s.lookup v
  closed : ∀ v u, W v → s.lookup v = some u → ∀ w ∈ u.vars, W w
  left : ∀ v, ¬ W v → s.lookup v = left.lookup v
  right : ∀ v, ¬ W v → t.lookup v = right.lookup v

variable {W : Var → Prop} {left right s t : Store} {u w x : Term} {v : Var}

theorem Reaches.of_closed (closed : ∀ v u, W v → s.lookup v = some u → ∀ w ∈ u.vars, W w)
    (inside : ∀ v ∈ u.vars, W v) (reaches : s.Reaches u v) : W v := by
  induction reaches with
  | here occurs => exact inside _ occurs
  | through occurs found _ ih => exact ih (closed _ _ (inside _ occurs) found)

theorem Reaches.closed {goal : Term} (reaches : s.Reaches goal v) (found : s.lookup v = some u)
    {y : Var} (occurs : y ∈ u.vars) : s.Reaches goal y := by
  induction reaches with
  | here inside => exact .through inside found (.here occurs)
  | through inside bound _ ih => exact .through inside bound (ih found)

theorem reaches_empty (reaches : empty.Reaches u v) : v ∈ u.vars := by
  refine reaches.of_closed (W := fun v => v ∈ u.vars) ?_ fun _ occurs => occurs
  intro x t _ found
  simp at found

theorem shares_refl (closed : ∀ v u, W v → s.lookup v = some u → ∀ w ∈ u.vars, W w) :
    Shares W s s s s :=
  ⟨fun _ _ => rfl, closed, fun _ _ => rfl, fun _ _ => rfl⟩

theorem Shares.symm (shares : Shares W left right s t) : Shares W right left t s where
  same v inside := (shares.same v inside).symm
  closed v u inside found := shares.closed v u inside (shares.same v inside ▸ found)
  left := shares.right
  right := shares.left

theorem matches_over (inside : ∀ v ∈ u.vars, W v) : (Likeness.over W).Matches u u := by
  cases u with
  | atom a => exact .atom
  | int n => exact .int
  | var v => exact .var (inside v (by simp [Term.vars]))
  | compound f first rest =>
      have each : ∀ u ∈ first :: rest, (Likeness.over W).terms u u := fun u member =>
        ⟨rfl, fun v occurs => inside v (Term.mem_vars_compound.mpr ⟨u, member, occurs⟩)⟩
      refine .compound (each first List.mem_cons_self) (List.forall₂_same.mpr ?_)
      exact fun u member => each u (List.mem_cons_of_mem _ member)

theorem isEnd_shares (shares : Shares W left right s t) (inside : ∀ v ∈ u.vars, W v)
    (atEnd : s.IsEnd u) : t.IsEnd u := by
  cases u with
  | var v =>
      have same := shares.same v (inside v (by simp [Term.vars]))
      exact same.trans atEnd
  | _ => trivial

theorem Shares.ends (shares : Shares W left right s t) (inside : ∀ v ∈ u.vars, W v)
    (ends : s.Ends u x) : t.Ends u x ∧ ∀ v ∈ x.vars, W v := by
  induction ends with
  | here atEnd => exact ⟨.here (isEnd_shares shares inside atEnd), inside⟩
  | @step v u x found _ ih =>
      have own : W v := inside v (by simp [Term.vars])
      obtain ⟨ends', inside'⟩ := ih (shares.closed v u own found)
      exact ⟨.step ((shares.same v own).trans found) ends', inside'⟩

theorem Shares.deref (shares : Shares W left right s t) (inside : ∀ v ∈ u.vars, W v)
    (done : s.deref u = some x) : t.deref u = some x ∧ (Likeness.over W).EndsAs s t x x := by
  obtain ⟨ends, inside'⟩ := shares.ends inside (deref_eq_some_iff.mp done)
  have done' := deref_eq_some_iff.mpr ends
  exact ⟨done', deref_isEnd done, deref_isEnd done', ⟨rfl, inside'⟩, matches_over inside'⟩

theorem Shares.bind (shares : Shares W left right s t) (own : W v) (inside : ∀ v ∈ x.vars, W v) :
    Shares W left right (s.bind v x) (t.bind v x) where
  same y member := by
    rw [lookup_bind, lookup_bind, shares.same y member]
  closed y u member found := by
    rw [lookup_bind] at found
    split at found
    · cases found
      exact inside
    · exact shares.closed y u member found
  left y outside := by
    have apart : v ≠ y := fun same => outside (same ▸ own)
    rw [lookup_bind, if_neg apart]
    exact shares.left y outside
  right y outside := by
    have apart : v ≠ y := fun same => outside (same ▸ own)
    rw [lookup_bind, if_neg apart]
    exact shares.right y outside

theorem Shares.unbind (shares : Shares W left right s t) (own : W v) :
    Shares W left right (s.unbind v) (t.unbind v) where
  same y member := by
    rw [lookup_unbind, lookup_unbind, shares.same y member]
  closed y u member found := by
    rw [lookup_unbind] at found
    split at found
    · cases found
    · exact shares.closed y u member found
  left y outside := by
    have apart : v ≠ y := fun same => outside (same ▸ own)
    rw [lookup_unbind, if_neg apart]
    exact shares.left y outside
  right y outside := by
    have apart : v ≠ y := fun same => outside (same ▸ own)
    rw [lookup_unbind, if_neg apart]
    exact shares.right y outside

/-- Stores that agree on a closed set of variables go along with one another over it. -/
theorem simulates_over (W : Var → Prop) (left right : Store) :
    (Likeness.over W).Simulates (Shares W left right) where
  int n := ⟨rfl, by simp [Term.vars]⟩
  deref shares like done := by
    obtain ⟨rfl, inside⟩ := like
    exact ⟨_, shares.deref inside done⟩
  bind shares target value _ := by
    obtain ⟨rfl, inside⟩ := value.like
    cases target.same with
    | var own => exact shares.bind own inside
  unbind shares own := shares.unbind own
  idle shares done like like' := by
    obtain ⟨rfl, inside⟩ := like
    obtain ⟨rfl, -⟩ := like'
    exact idle_of_sameVar (shares.deref inside done).1 (by simp [Term.sameVar])

end Store

end LogicSearch
