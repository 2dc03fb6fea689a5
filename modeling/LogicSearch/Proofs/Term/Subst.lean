import LogicSearch.Store.Tree
import Mathlib.Data.List.Forall2

namespace LogicSearch

/-- Which finite tree each variable stands for. -/
abbrev Assignment := Var → Term

namespace Term

@[elab_as_elim] theorem inductionOn {motive : Term → Prop} (t : Term)
    (atom : ∀ a, motive (.atom a)) (int : ∀ n, motive (.int n)) (var : ∀ v, motive (.var v))
    (compound : ∀ f first rest, (∀ u ∈ first :: rest, motive u) →
      motive (.compound f first rest)) : motive t := by
  refine @Term.rec motive (fun ts => ∀ u ∈ ts, motive u) atom int var ?_ ?_ ?_ t
  · intro f first rest here there
    apply compound
    intro u member
    rcases List.mem_cons.mp member with rfl | member
    · exact here
    · exact there u member
  · intro u member
    cases member
  · intro first rest here there u member
    rcases List.mem_cons.mp member with rfl | member
    · exact here
    · exact there u member

mutual

def subst (θ : Assignment) : Term → Term
  | atom a => atom a
  | int n => int n
  | var v => θ v
  | compound f first rest => compound f (subst θ first) (substAll θ rest)

def substAll (θ : Assignment) : List Term → List Term
  | [] => []
  | t :: ts => subst θ t :: substAll θ ts

end

mutual

def vars : Term → List Var
  | atom _ | int _ => []
  | var v => [v]
  | compound _ first rest => vars first ++ varsAll rest

def varsAll : List Term → List Var
  | [] => []
  | t :: ts => vars t ++ varsAll ts

end

mutual

def nodes : Term → Nat
  | atom _ | int _ | var _ => 1
  | compound _ first rest => nodes first + nodesAll rest + 1

def nodesAll : List Term → Nat
  | [] => 0
  | t :: ts => nodes t + nodesAll ts

end

theorem substAll_eq_map (θ : Assignment) (ts : List Term) : substAll θ ts = ts.map (subst θ) := by
  induction ts with
  | nil => rfl
  | cons t ts ih => simp [substAll, ih]

theorem shape_of_subst_eq {θ η : Assignment} {f g : Atom} {a b : Term} {as bs : List Term}
    (equal : (compound f a as).subst θ = (compound g b bs).subst η) :
    f = g ∧ as.length = bs.length := by
  injection equal with functor _ rest
  rw [substAll_eq_map, substAll_eq_map] at rest
  exact ⟨functor, by simpa using congrArg List.length rest⟩

theorem mem_varsAll {v : Var} {ts : List Term} : v ∈ varsAll ts ↔ ∃ t ∈ ts, v ∈ t.vars := by
  induction ts with
  | nil => simp [varsAll]
  | cons t ts ih => simp [varsAll, ih]

theorem mem_vars_compound {v : Var} {f : Atom} {first : Term} {rest : List Term} :
    v ∈ (compound f first rest).vars ↔ ∃ u ∈ first :: rest, v ∈ u.vars := by
  simp [vars, mem_varsAll]

theorem nodes_le_of_mem {u : Term} {ts : List Term} (member : u ∈ ts) : u.nodes ≤ nodesAll ts := by
  induction ts with
  | nil => cases member
  | cons t ts ih =>
      simp only [nodesAll]
      rcases List.mem_cons.mp member with rfl | member
      · omega
      · have later := ih member
        omega

theorem nodes_lt_of_arg {f : Atom} {first u : Term} {rest : List Term}
    (member : u ∈ first :: rest) : u.nodes < (compound f first rest).nodes := by
  have bound := nodes_le_of_mem member
  simp only [nodes, nodesAll] at bound ⊢
  omega

theorem nodesAll_append (ts us : List Term) :
    nodesAll (ts ++ us) = nodesAll ts + nodesAll us := by
  induction ts with
  | nil => simp [nodesAll]
  | cons t ts ih => simp only [List.cons_append, nodesAll, ih, Nat.add_assoc]

theorem nodes_pos (t : Term) : 0 < t.nodes := by
  cases t <;> simp [nodes]

theorem nodes_subst_le (θ : Assignment) {v : Var} {t : Term} (occurs : v ∈ t.vars) :
    (θ v).nodes ≤ (t.subst θ).nodes := by
  induction t using Term.inductionOn with
  | atom a => cases occurs
  | int n => cases occurs
  | var w =>
      rw [vars, List.mem_singleton] at occurs
      rw [occurs]
      exact Nat.le_refl _
  | compound f first rest ih =>
      obtain ⟨u, member, occurs⟩ := mem_vars_compound.mp occurs
      have inside : u.subst θ ∈ subst θ first :: substAll θ rest := by
        rw [substAll_eq_map, ← List.map_cons]
        exact List.mem_map_of_mem member
      exact Nat.le_trans (ih u member occurs) (Nat.le_of_lt (nodes_lt_of_arg inside))

theorem nodes_subst_lt (θ : Assignment) {f : Atom} {first : Term} {rest : List Term} {v : Var}
    (occurs : v ∈ (compound f first rest).vars) :
    (θ v).nodes < ((compound f first rest).subst θ).nodes := by
  obtain ⟨u, member, occurs⟩ := mem_vars_compound.mp occurs
  have inside : u.subst θ ∈ subst θ first :: substAll θ rest := by
    rw [substAll_eq_map, ← List.map_cons]
    exact List.mem_map_of_mem member
  exact Nat.lt_of_le_of_lt (nodes_subst_le θ occurs) (nodes_lt_of_arg inside)

@[simp] theorem subst_var (t : Term) : t.subst .var = t := by
  induction t using Term.inductionOn with
  | atom a => rfl
  | int n => rfl
  | var v => rfl
  | compound f first rest ih =>
      have head := ih first List.mem_cons_self
      have tail : rest.map (subst .var) = rest :=
        (List.map_congr_left fun u member => ih u (List.mem_cons_of_mem _ member)).trans
          (List.map_id rest)
      simp only [subst, substAll_eq_map, head, tail]

theorem subst_congr {θ η : Assignment} {t : Term} (agree : ∀ v ∈ t.vars, θ v = η v) :
    t.subst θ = t.subst η := by
  induction t using Term.inductionOn with
  | atom a => rfl
  | int n => rfl
  | var v => exact agree v (by simp [vars])
  | compound f first rest ih =>
      have each : ∀ u ∈ first :: rest, u.subst θ = u.subst η := fun u member =>
        ih u member fun v occurs => agree v (mem_vars_compound.mpr ⟨u, member, occurs⟩)
      have head := each first List.mem_cons_self
      have tail : rest.map (subst θ) = rest.map (subst η) :=
        List.map_congr_left fun u member => each u (List.mem_cons_of_mem _ member)
      simp only [subst, substAll_eq_map, head, tail]

theorem subst_subst (θ η : Assignment) (t : Term) :
    (t.subst η).subst θ = t.subst fun v => (η v).subst θ := by
  induction t using Term.inductionOn with
  | atom a => rfl
  | int n => rfl
  | var v => rfl
  | compound f first rest ih =>
      have head := ih first List.mem_cons_self
      have tail : (rest.map (subst η)).map (subst θ) =
          rest.map (subst fun v => (η v).subst θ) := by
        rw [List.map_map]
        exact List.map_congr_left fun u member => ih u (List.mem_cons_of_mem _ member)
      simp only [subst, substAll_eq_map, head, tail]

variable {value wider : Var → Option Term}

private theorem exists_of_forall₂ {R : Term → Term → Prop} {t : Term} {ts us : List Term}
    (all : List.Forall₂ R ts us) (member : t ∈ ts) : ∃ u, R t u := by
  induction all with
  | nil => cases member
  | cons here _ ih =>
      rcases List.mem_cons.mp member with rfl | member
      · exact ⟨_, here⟩
      · exact ih member

theorem expandAll_eq_some {ts us : List Term} :
    expandAll value ts = some us ↔ List.Forall₂ (fun t u => expand value t = some u) ts us := by
  induction ts generalizing us with
  | nil =>
      rw [List.forall₂_nil_left_iff]
      simp [expandAll, eq_comm]
  | cons t ts ih =>
      rw [List.forall₂_cons_left_iff]
      simp only [expandAll]
      constructor
      · intro done
        split at done
        · cases done
        · rename_i here
          split at done
          · cases done
          · rename_i there
            cases done
            exact ⟨_, _, here, ih.mp there, rfl⟩
      · rintro ⟨u, us', here, there, rfl⟩
        simp only [here, ih.mpr there]

theorem expand_compound {f : Atom} {first : Term} {rest : List Term} {u : Term} :
    expand value (compound f first rest) = some u ↔
      ∃ a as, u = compound f a as ∧ expand value first = some a ∧
        List.Forall₂ (fun t u => expand value t = some u) rest as := by
  simp only [expand]
  constructor
  · intro done
    split at done
    · cases done
    · rename_i here
      split at done
      · cases done
      · rename_i there
        cases done
        exact ⟨_, _, rfl, here, expandAll_eq_some.mp there⟩
  · rintro ⟨a, as, rfl, here, there⟩
    simp only [here, expandAll_eq_some.mpr there]

theorem expand_eq_subst {θ : Assignment} {t : Term} (known : ∀ v ∈ t.vars, value v = some (θ v)) :
    t.expand value = some (t.subst θ) := by
  induction t using inductionOn with
  | atom a => rfl
  | int n => rfl
  | var v => exact known v (by simp [vars])
  | compound f first rest ih =>
      have each : ∀ u ∈ first :: rest, u.expand value = some (u.subst θ) := fun u member =>
        ih u member fun v occurs => known v (mem_vars_compound.mpr ⟨u, member, occurs⟩)
      refine expand_compound.mpr ⟨_, _, rfl, each first List.mem_cons_self, ?_⟩
      rw [substAll_eq_map, List.forall₂_map_right_iff, List.forall₂_same]
      intro u member
      exact each u (List.mem_cons_of_mem _ member)

theorem known_of_expand {t u : Term} {v : Var} (done : t.expand value = some u)
    (occurs : v ∈ t.vars) : ∃ w, value v = some w := by
  induction t using inductionOn generalizing u with
  | atom a => cases occurs
  | int n => cases occurs
  | var x =>
      rw [vars, List.mem_singleton] at occurs
      rw [occurs]
      exact ⟨u, done⟩
  | compound f first rest ih =>
      obtain ⟨a, as, rfl, here, there⟩ := expand_compound.mp done
      obtain ⟨arg, member, inner⟩ := mem_vars_compound.mp occurs
      rcases List.mem_cons.mp member with rfl | later
      · exact ih _ member here inner
      · obtain ⟨w, found⟩ := exists_of_forall₂ there later
        exact ih arg member found inner

theorem subst_of_expand {t u : Term} (done : t.expand value = some u) :
    (t.subst fun v => (value v).getD (var v)) = u := by
  have tree : t.expand value = some (t.subst fun v => (value v).getD (var v)) := by
    apply expand_eq_subst
    intro v occurs
    obtain ⟨w, found⟩ := known_of_expand done occurs
    simp [found]
  exact Option.some_inj.mp (tree.symm.trans done)

theorem expand_mono (kept : ∀ v w, value v = some w → wider v = some w) {t u : Term}
    (done : t.expand value = some u) : t.expand wider = some u := by
  rw [← subst_of_expand done]
  apply expand_eq_subst
  intro v occurs
  obtain ⟨w, found⟩ := known_of_expand done occurs
  simp [found, kept v w found]

end Term

end LogicSearch
