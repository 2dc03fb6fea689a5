import LogicSearch.Proofs.Store.Equality

namespace LogicSearch

namespace Store

variable {s : Store} {l r t : Term}

theorem unify_closed (acyclic : s.Acyclic) (left : ∀ v, ¬ s.Free l v) (right : ∀ v, ¬ s.Free r v) :
    ∃ fuel, s.unify fuel l r = some (decide (s.tree? l = s.tree? r), s) := by
  have closed : PendingWithin (fun _ => False) s [(l, r)] := by
    intro pair member v free
    rw [List.mem_singleton] at member
    rw [member] at free
    exact free.elim (left v) (right v)
  obtain ⟨answer, leads⟩ := leads_of_closed (s, [(l, r)]) closed acyclic
  obtain ⟨fuel, done⟩ := unify_of_leads leads
  have fits := fits_of_leads (θ := s.trees) leads
  have same : answer = decide (s.tree? l = s.tree? r) := by
    rw [Bool.eq_iff_iff, decide_eq_true_iff, acyclic.tree?, acyclic.tree?, Option.some_inj]
    constructor
    · intro success
      exact (fits_start.mp ((fits.1 success).mp acyclic.models_trees)).2
    · intro equal
      cases answer with
      | true => rfl
      | false => exact (fits.2 rfl (fits_start.mpr ⟨acyclic.models_trees, equal⟩)).elim
  exact ⟨fuel, same ▸ done⟩

theorem not_free_of_no_vars (closed : t.vars = []) (v : Var) : ¬ s.Free t v := by
  induction t using Term.inductionOn with
  | atom a => exact not_free_atom
  | int n => exact not_free_int
  | var x => cases closed
  | compound f first rest ih =>
      intro free
      obtain ⟨u, member, free⟩ := free_compound.mp free
      refine ih u member ?_ free
      rw [List.eq_nil_iff_forall_not_mem]
      intro x occurs
      have inside : x ∈ (Term.compound f first rest).vars :=
        Term.mem_vars_compound.mpr ⟨u, member, occurs⟩
      rw [closed] at inside
      cases inside

theorem tree?_of_no_vars (closed : t.vars = []) : s.tree? t = some t := by
  have plain : s.tree? t = some (t.subst .var) := by
    apply Term.expand_eq_subst
    intro v occurs
    rw [closed] at occurs
    cases occurs
  rw [plain, Term.subst_var]

/-- On a store without cyclic bindings, terms that some model makes equal unify, and the bindings
stay without cycles. A success keeps all bindings and leaves exactly the models that make both terms
equal, so both are one tree afterwards if that tree is finite. After a failure no model makes them
equal, and all bindings are kept. Terms without free variables unify exactly when they are the same
tree, without any change. -/
theorem unify_most_general (acyclic : s.Acyclic) (l r : Term) :
    ((∃ θ, s.Models θ ∧ l.subst θ = r.subst θ) →
      ∃ fuel t, s.unify fuel l r = some (true, t) ∧ t.Acyclic) ∧
    (∀ fuel t, s.unify fuel l r = some (true, t) →
      s ≤ t ∧ (∀ θ, t.Models θ ↔ s.Models θ ∧ l.subst θ = r.subst θ) ∧
        (t.Acyclic → ∃ fuel, t.equal fuel l r = some true)) ∧
    (∀ fuel t, s.unify fuel l r = some (false, t) →
      s ≤ t ∧ ∀ θ, s.Models θ → l.subst θ ≠ r.subst θ) ∧
    ((∀ v, ¬ s.Free l v) → (∀ v, ¬ s.Free r v) →
      ∃ fuel, s.unify fuel l r = some (decide (s.tree? l = s.tree? r), s)) ∧
    (l.vars = [] → r.vars = [] → ∃ fuel, s.unify fuel l r = some (decide (l = r), s)) := by
  refine ⟨?_, ?_, ?_, unify_closed acyclic, ?_⟩
  · rintro ⟨θ, model, equal⟩
    exact unify_of_models acyclic model equal
  · intro fuel t done
    refine ⟨(unify_grows done).kept, fun θ => models_unify done, fun acyclic' => ?_⟩
    have equal := ((models_unify done).mp acyclic'.models_trees).2
    obtain ⟨fuel, answer⟩ := equal_of_acyclic acyclic' l r
    rw [acyclic'.tree?, acyclic'.tree?, equal] at answer
    exact ⟨fuel, by simpa using answer⟩
  · intro fuel t done
    exact ⟨(unify_grows done).kept, fun θ model => no_models_of_unify done model⟩
  · intro left right
    obtain ⟨fuel, done⟩ := unify_closed acyclic (not_free_of_no_vars left)
      (not_free_of_no_vars right)
    rw [tree?_of_no_vars left, tree?_of_no_vars right] at done
    exact ⟨fuel, by simpa using done⟩

theorem unify_most_general_below_binding :
    (empty.bind 0 (.compound ⟨"f"⟩ (.var 1) [])).Acyclic ∧
      ∃ fuel t, (empty.bind 0 (.compound ⟨"f"⟩ (.var 1) [])).unify fuel
        (.compound ⟨"g"⟩ (.var 0) [.var 2])
        (.compound ⟨"g"⟩ (.compound ⟨"f"⟩ (.atom ⟨"a"⟩) []) [.var 1]) = some (true, t) ∧
        t.Acyclic := by
  have acyclic : (empty.bind 0 (.compound ⟨"f"⟩ (.var 1) [])).Acyclic := by
    apply acyclic_of_rank fun v => if v = 0 then 1 else 0
    rintro v w ⟨t, found, occurs⟩
    rw [lookup_bind] at found
    split at found
    · rename_i same
      cases found
      cases List.mem_singleton.mp occurs
      simp [← same]
    · simp at found
  refine ⟨acyclic, (unify_most_general acyclic _ _).1 ?_⟩
  refine ⟨fun v => if v = 0 then .compound ⟨"f"⟩ (.atom ⟨"a"⟩) [] else .atom ⟨"a"⟩, ?_, rfl⟩
  exact (models_bind (lookup_empty 0)).mpr ⟨models_empty _, rfl⟩

end Store

end LogicSearch
