import LogicSearch.Proofs.Store.Model
import LogicSearch.Store.Tree
import Mathlib.Data.Prod.Lex
import Mathlib.Logic.Relation

namespace LogicSearch

namespace Store

def Refers (s : Store) (v w : Var) : Prop := ∃ t, s.lookup v = some t ∧ w ∈ t.vars

/-- Following bindings never leads from a variable back to it. -/
def Acyclic (s : Store) : Prop := ∀ v, ¬ Relation.TransGen s.Refers v v

/-- Every chain of variables ends. -/
def ChainsEnd (s : Store) : Prop := ∀ u, ∃ w, s.deref u = some w

variable {s t : Store} {u w : Term} {v x : Var} {θ : Assignment}

theorem acyclic_of_rank {β : Type} [Preorder β] (rank : Var → β)
    (lower : ∀ v w, s.Refers v w → rank w < rank v) : s.Acyclic := by
  intro v cycle
  have below : ∀ w, Relation.TransGen s.Refers v w → rank w < rank v := by
    intro w path
    induction path with
    | single refers => exact lower _ _ refers
    | tail _ refers ih => exact lt_trans (lower _ _ refers) ih
  exact lt_irrefl _ (below v cycle)

theorem acyclic_empty : empty.Acyclic := by
  apply acyclic_of_rank fun _ => 0
  rintro v w ⟨t, found, -⟩
  simp at found

def Descending (s : Store) : Prop := ∀ v t, s.lookup v = some t → ∀ w ∈ t.vars, w < v

theorem descending_empty : empty.Descending := by
  intro v t found
  simp at found

theorem Descending.bind (descending : s.Descending) (below : ∀ w ∈ u.vars, w < v) :
    (s.bind v u).Descending := by
  intro x t found
  rw [lookup_bind] at found
  split at found
  · rename_i same
    cases found
    rw [← same]
    exact below
  · exact descending x t found

theorem Descending.acyclic (descending : s.Descending) : s.Acyclic := by
  apply acyclic_of_rank fun v => v
  rintro v w ⟨t, found, occurs⟩
  exact descending v t found w occurs

theorem Acyclic.bind_new (acyclic : s.Acyclic) (own : x ∉ u.vars)
    (new : ∀ v t, s.lookup v = some t → x ∉ t.vars) : (s.bind x u).Acyclic := by
  have avoids {v w : Var} (refers : (s.bind x u).Refers v w) : w ≠ x := by
    rintro rfl
    obtain ⟨t, found, occurs⟩ := refers
    rw [lookup_bind] at found
    split at found
    · cases found
      exact own occurs
    · exact new v t found occurs
  have before {v w : Var} (other : v ≠ x) (refers : (s.bind x u).Refers v w) : s.Refers v w := by
    obtain ⟨t, found, occurs⟩ := refers
    rw [lookup_bind, if_neg other.symm] at found
    exact ⟨t, found, occurs⟩
  intro v cycle
  have apart {w : Var} (path : Relation.TransGen (s.bind x u).Refers v w) : w ≠ x := by
    cases path with
    | single refers => exact avoids refers
    | tail _ refers => exact avoids refers
  have inside {w : Var} (path : Relation.TransGen (s.bind x u).Refers v w) :
      Relation.TransGen s.Refers v w := by
    induction path with
    | single refers => exact .single (before (apart cycle) refers)
    | tail path refers ih => exact ih.tail (before (apart path) refers)
  exact acyclic v (inside cycle)

theorem treeOfVar?_of_free (free : s.lookup v = none) (depth : Nat) :
    s.treeOfVar? depth v = some (.var v) := by
  cases depth <;> simp [treeOfVar?, isBound, free]

theorem treeOfVar?_succ_mono {depth : Nat} (found : s.treeOfVar? depth v = some u) :
    s.treeOfVar? (depth + 1) v = some u := by
  induction depth generalizing v u with
  | zero =>
      simp only [treeOfVar?] at found
      split at found
      · cases found
      · rename_i free
        have unbound : s.lookup v = none := by simpa [isBound] using free
        rw [treeOfVar?_of_free unbound, found]
  | succ depth ih =>
      rw [treeOfVar?] at found ⊢
      split at found
      · rename_i unbound
        exact found
      · rename_i t bound
        exact Term.expand_mono (fun x w known => ih known) found

/-- The nesting of bindings is no deeper than the variables that are left: those bound already on
the way down to a variable are all different from it. -/
theorem Acyclic.treeOfVar? (acyclic : s.Acyclic) {depth : Nat} {path : List Var}
    (apart : path.Nodup) (above : ∀ a ∈ path, Relation.TransGen s.Refers a v)
    (bound : ∀ a ∈ path, ∃ t, s.lookup a = some t) (left : path.length + depth = s.size) :
    ∃ u, s.treeOfVar? depth v = some u := by
  have fresh : v ∉ path := fun again => acyclic v (above v again)
  induction depth generalizing path v with
  | zero =>
      have unbound : s.lookup v = none := by
        by_contra found
        obtain ⟨t, found⟩ := Option.ne_none_iff_exists'.mp found
        have longer : (v :: path).length ≤ s.size := by
          apply length_le_size (List.nodup_cons.mpr ⟨fresh, apart⟩)
          intro a member
          rcases List.mem_cons.mp member with rfl | member
          · exact ⟨t, found⟩
          · exact bound a member
        simp only [List.length_cons] at longer
        omega
      exact ⟨.var v, treeOfVar?_of_free unbound 0⟩
  | succ depth ih =>
      cases found : s.lookup v with
      | none => exact ⟨.var v, treeOfVar?_of_free found (depth + 1)⟩
      | some t =>
          have each : ∀ x ∈ t.vars, ∃ u, s.treeOfVar? depth x = some u := by
            intro x occurs
            have refers : s.Refers v x := ⟨t, found, occurs⟩
            have above' : ∀ a ∈ v :: path, Relation.TransGen s.Refers a x := by
              intro a member
              rcases List.mem_cons.mp member with rfl | member
              · exact .single refers
              · exact (above a member).tail refers
            apply ih (List.nodup_cons.mpr ⟨fresh, apart⟩) above'
            · intro a member
              rcases List.mem_cons.mp member with rfl | member
              · exact ⟨t, found⟩
              · exact bound a member
            · simp only [List.length_cons]
              omega
            · exact fun again => acyclic x (above' x again)
          refine ⟨t.subst fun x => (s.treeOfVar? depth x).getD (.var x), ?_⟩
          simp only [Store.treeOfVar?, found]
          apply Term.expand_eq_subst
          intro x occurs
          obtain ⟨u, known⟩ := each x occurs
          simp [known]

/-- The finite tree of every variable, as long as the store has no cyclic binding. -/
def trees (s : Store) : Assignment := fun v => (s.treeOfVar? s.size v).getD (.var v)

theorem Acyclic.treeOfVar?_size (acyclic : s.Acyclic) (v : Var) :
    s.treeOfVar? s.size v = some (s.trees v) := by
  obtain ⟨u, found⟩ := acyclic.treeOfVar? (v := v) List.nodup_nil (by simp) (by simp)
    (Nat.zero_add _)
  simp [trees, found]

theorem Acyclic.tree? (acyclic : s.Acyclic) (t : Term) : s.tree? t = some (t.subst s.trees) :=
  Term.expand_eq_subst fun v _ => acyclic.treeOfVar?_size v

theorem Acyclic.models_trees (acyclic : s.Acyclic) : s.Models s.trees := by
  intro v t found
  have tree := treeOfVar?_succ_mono (acyclic.treeOfVar?_size v)
  simp only [Store.treeOfVar?, found] at tree
  rw [Term.expand_eq_subst fun x _ => acyclic.treeOfVar?_size x] at tree
  injection tree with tree
  exact tree.symm

theorem Acyclic.induction {motive : Var → Prop} (acyclic : s.Acyclic)
    (step : ∀ v, (∀ w, s.Refers v w → motive w) → motive v) (v : Var) : motive v := by
  suffices known : ∀ depth v u, s.treeOfVar? depth v = some u → motive v from
    known _ v _ (acyclic.treeOfVar?_size v)
  intro depth
  induction depth with
  | zero =>
      intro v u found
      apply step
      rintro w ⟨t, bound, -⟩
      simp [Store.treeOfVar?, isBound, bound] at found
  | succ depth ih =>
      intro v u found
      apply step
      rintro w ⟨t, bound, occurs⟩
      simp only [Store.treeOfVar?, bound] at found
      obtain ⟨x, known⟩ := Term.known_of_expand found occurs
      exact ih w x known

theorem Acyclic.chainsEnd (acyclic : s.Acyclic) : s.ChainsEnd := by
  have each : ∀ v, ∃ w, s.deref (.var v) = some w := by
    refine acyclic.induction (motive := fun v => ∃ w, s.deref (.var v) = some w) ?_
    intro v ih
    cases found : s.lookup v with
    | none => exact ⟨.var v, deref_of_isEnd found⟩
    | some t =>
        rw [deref_var found]
        cases t with
        | var x => exact ih x ⟨.var x, found, by simp [Term.vars]⟩
        | _ => exact ⟨_, rfl⟩
  intro u
  cases u with
  | var v => exact each v
  | _ => exact ⟨_, rfl⟩

theorem ChainsEnd.length (chains : s.ChainsEnd) (v : Var) : ∃ n w, s.EndsIn n (.var v) w := by
  obtain ⟨w, done⟩ := chains (.var v)
  obtain ⟨n, ends⟩ := (deref_eq_some_iff.mp done).counted
  exact ⟨n, w, ends⟩

/-- Along a binding the tree gets smaller, or else the chain of variables gets shorter. -/
theorem acyclic_of_models (chains : s.ChainsEnd) (model : s.Models θ) : s.Acyclic := by
  choose length target counted using chains.length
  apply acyclic_of_rank fun v => toLex ((θ v).nodes, length v)
  rintro v w ⟨t, found, occurs⟩
  rw [Prod.Lex.toLex_lt_toLex]
  have value := model v t found
  cases t with
  | atom a => cases occurs
  | int n => cases occurs
  | var x =>
      rw [Term.vars, List.mem_singleton] at occurs
      subst occurs
      have longer := (counted v).length_eq (.step found (counted w))
      exact .inr ⟨by rw [value]; rfl, by simp only; omega⟩
  | compound f first rest =>
      refine .inl ?_
      simp only [value]
      exact Term.nodes_subst_lt θ occurs

end Store

end LogicSearch
