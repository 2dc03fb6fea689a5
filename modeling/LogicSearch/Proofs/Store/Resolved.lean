import LogicSearch.Proofs.Store.Equality
import LogicSearch.Store.Resolve

namespace LogicSearch

namespace Store

variable {s : Store} {t u w : Term} {v : Var}

theorem mem_vars_trees_of_free (acyclic : s.Acyclic) (free : s.Free t v) :
    v ∈ (t.subst s.trees).vars := by
  induction free with
  | here done =>
      rw [acyclic.models_trees.deref done, Term.subst, trees_of_free (lookup_of_deref done)]
      exact List.mem_singleton.mpr rfl
  | inside done member _ ih =>
      rw [acyclic.models_trees.deref done, Term.subst, Term.substAll_eq_map, Term.mem_vars_compound]
      exact ⟨_, by rw [← List.map_cons]; exact List.mem_map_of_mem member, ih⟩

theorem free_of_mem_vars_trees (acyclic : s.Acyclic) (occurs : v ∈ (t.subst s.trees).vars) :
    s.Free t v := by
  induction size : (t.subst s.trees).nodes using Nat.strong_induction_on generalizing t with
  | _ n ih =>
      obtain ⟨w, done⟩ := acyclic.chainsEnd t
      rw [free_deref done]
      rw [acyclic.models_trees.deref done] at occurs size
      cases w with
      | atom a => cases occurs
      | int n => cases occurs
      | var x =>
          have unbound := lookup_of_deref done
          rw [Term.subst, trees_of_free unbound, Term.vars, List.mem_singleton] at occurs
          exact (free_var unbound).mpr occurs
      | compound f first rest =>
          rw [Term.subst, Term.substAll_eq_map] at occurs size
          obtain ⟨_, inside, occurs⟩ := Term.mem_vars_compound.mp occurs
          have smaller := Term.nodes_lt_of_arg (f := f) inside
          rw [← List.map_cons] at inside
          obtain ⟨u, member, rfl⟩ := List.mem_map.mp inside
          exact free_compound.mpr ⟨u, member, ih _ (size ▸ smaller) occurs rfl⟩

theorem mem_vars_trees (acyclic : s.Acyclic) : v ∈ (t.subst s.trees).vars ↔ s.Free t v :=
  ⟨free_of_mem_vars_trees acyclic, mem_vars_trees_of_free acyclic⟩

def ResolvesTo (s : Store) (state : Focus × List OpenCompound) (t : Term) : Prop :=
  Turn.Leads (fun state turn => s.resolveStep state = some turn) state t

theorem resolvesTo_args {θ : Assignment} {f : Atom} {todo : List Term}
    (each : ∀ u ∈ todo, ∀ enclosing, s.ResolvesTo (.resolved (u.subst θ), enclosing) w →
      s.ResolvesTo (.visit u, enclosing) w) (last : Term) (done : List Term)
    (enclosing : List OpenCompound)
    (after : s.ResolvesTo
      (.resolved (.app f ((last :: done).reverse ++ todo.map (Term.subst θ))), enclosing) w) :
    s.ResolvesTo (.resolved last, ⟨f, done, todo⟩ :: enclosing) w := by
  induction todo generalizing last done with
  | nil =>
      rw [List.map_nil, List.append_nil] at after
      exact .again rfl after
  | cons u todo ih =>
      refine .again rfl (each u List.mem_cons_self _ ?_)
      apply ih fun u member => each u (List.mem_cons_of_mem _ member)
      simpa using after

theorem resolvesTo_visit (acyclic : s.Acyclic) (enclosing : List OpenCompound)
    (after : s.ResolvesTo (.resolved (t.subst s.trees), enclosing) w) :
    s.ResolvesTo (.visit t, enclosing) w := by
  induction size : (t.subst s.trees).nodes using Nat.strong_induction_on
    generalizing t enclosing with
  | _ n ih =>
      obtain ⟨u, done⟩ := acyclic.chainsEnd t
      rw [acyclic.models_trees.deref done] at after size
      cases u with
      | atom a =>
          rw [Term.subst] at after
          exact .again (by simp only [resolveStep, done]) after
      | int n =>
          rw [Term.subst] at after
          exact .again (by simp only [resolveStep, done]) after
      | var x =>
          rw [Term.subst, trees_of_free (lookup_of_deref done)] at after
          exact .again (by simp only [resolveStep, done]) after
      | compound f first rest =>
          rw [Term.subst, Term.substAll_eq_map] at after size
          have smaller : ∀ u ∈ first :: rest, (u.subst s.trees).nodes < n := by
            intro u member
            rw [← size]
            apply Term.nodes_lt_of_arg
            rw [← List.map_cons]
            exact List.mem_map_of_mem member
          have taken : s.resolveStep (.visit t, enclosing) =
              some (.again (.visit first, ⟨f, [], rest⟩ :: enclosing)) := by
            simp only [resolveStep, done]
          refine .again taken (ih _ (smaller first List.mem_cons_self) _ ?_ rfl)
          apply resolvesTo_args fun u member enclosing after =>
            ih _ (smaller u (List.mem_cons_of_mem _ member)) enclosing after rfl
          simpa [Term.app] using after

theorem resolve_of_acyclic (acyclic : s.Acyclic) (t : Term) :
    ∃ fuel, s.resolve fuel t = some (t.subst s.trees) :=
  Turn.leads_iff.mp (resolvesTo_visit acyclic [] (.finish rfl))

theorem Acyclic.resolved (acyclic : s.Acyclic) {fuel : Nat} {t u : Term}
    (done : s.resolve fuel t = some u) : u = t.subst s.trees := by
  obtain ⟨more, tree⟩ := resolve_of_acyclic acyclic t
  have left := resolve_mono (Nat.le_max_left fuel more) done
  have right := resolve_mono (Nat.le_max_right fuel more) tree
  exact Option.some_inj.mp (left.symm.trans right)

end Store

end LogicSearch
