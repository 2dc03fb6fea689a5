import LogicSearch.Proofs.Store.Likeness
import LogicSearch.Proofs.Store.Resolved
import Mathlib.Data.Option.Defs

/-!
Terms up to equality in a store. Over a base store without cyclic bindings terms stand for one
another when they are the same tree there, and stores when they bind the same further variables to
the same trees. Such stores go along with one another, and every variable resolves alike in both.
-/

namespace LogicSearch

namespace Store

/-- Terms that are the same tree in a base store. -/
def upTo (base : Store) : Likeness where
  own v := base.lookup v = none
  terms u w := u.subst base.trees = w.subst base.trees

structure AgreeOver (base s t : Store) : Prop where
  left : base ≤ s
  right : base ≤ t
  leftEnds : s.ChainsEnd
  rightEnds : t.ChainsEnd
  values : ∀ v, base.lookup v = none → Option.Rel base.upTo.terms (s.lookup v) (t.lookup v)

variable {base s t : Store} {l r u w x y : Term} {v : Var} {θ : Assignment}

theorem AgreeOver.refl (acyclic : base.Acyclic) : AgreeOver base base base where
  left := le_refl base
  right := le_refl base
  leftEnds := acyclic.chainsEnd
  rightEnds := acyclic.chainsEnd
  values v free := by
    rw [free]
    exact .none

theorem AgreeOver.symm (agree : AgreeOver base s t) : AgreeOver base t s where
  left := agree.right
  right := agree.left
  leftEnds := agree.rightEnds
  rightEnds := agree.leftEnds
  values v free := by
    have values := agree.values v free
    generalize s.lookup v = left, t.lookup v = right at values ⊢
    cases values with
    | none => exact .none
    | some same => exact .some same.symm

theorem AgreeOver.bound (agree : AgreeOver base s t) (own : base.lookup v = none)
    (found : s.lookup v = some u) : ∃ w, t.lookup v = some w ∧ base.upTo.terms u w := by
  have values := agree.values v own
  rw [found] at values
  generalize t.lookup v = value at values
  cases values with
  | some same => exact ⟨_, rfl, same⟩

theorem AgreeOver.free (agree : AgreeOver base s t) (own : base.lookup v = none)
    (free : s.lookup v = none) : t.lookup v = none := by
  cases found : t.lookup v with
  | none => rfl
  | some w =>
      obtain ⟨u, found, -⟩ := agree.symm.bound own found
      rw [free] at found
      cases found

theorem isEnd_of_le (larger : s ≤ t) (atEnd : t.IsEnd u) : s.IsEnd u := by
  cases u with
  | var v =>
      cases found : s.lookup v with
      | none => exact found
      | some x =>
          have bound : t.lookup v = none := atEnd
          rw [larger v x found] at bound
          cases bound
  | _ => trivial

theorem matches_of_same (left : base.IsEnd x) (right : base.IsEnd y)
    (same : base.upTo.terms x y) : base.upTo.Matches x y := by
  have equal : x.subst base.trees = y.subst base.trees := same
  cases x with
  | var v =>
      cases y with
      | var w =>
          simp only [Term.subst, trees_of_free left, trees_of_free right] at equal
          cases equal
          exact .var left
      | _ => exact (trees_ne_var left (by simp) equal.symm).elim
  | atom a =>
      cases y with
      | atom b =>
          cases equal
          exact .atom
      | var w => exact (trees_ne_var right (by simp) equal).elim
      | _ => cases equal
  | int n =>
      cases y with
      | int k =>
          cases equal
          exact .int
      | var w => exact (trees_ne_var right (by simp) equal).elim
      | _ => cases equal
  | compound f a as =>
      cases y with
      | compound g b bs =>
          simp only [Term.subst, Term.substAll_eq_map] at equal
          injection equal with functor first rest
          subst functor
          refine .compound first ?_
          rw [← List.forall₂_eq_eq_eq, List.forall₂_map_left_iff,
            List.forall₂_map_right_iff] at rest
          exact rest
      | var w => exact (trees_ne_var right (by simp) equal).elim
      | _ => cases equal

theorem AgreeOver.ends (acyclic : base.Acyclic) (agree : AgreeOver base s t) (ends : s.Ends u x)
    (same : base.upTo.terms u w) : ∃ y, t.deref w = some y ∧ base.upTo.terms x y := by
  have model := acyclic.models_trees
  induction ends generalizing w with
  | @here u atEnd =>
      obtain ⟨z, done⟩ := acyclic.chainsEnd w
      have like : base.upTo.terms u z := same.trans (model.deref done)
      rw [deref_le agree.right done]
      cases matches_of_same (isEnd_of_le agree.left atEnd) (deref_isEnd done) like with
      | var own => exact ⟨_, deref_of_isEnd (agree.free own atEnd), rfl⟩
      | _ => exact ⟨_, rfl, like⟩
  | @step v u x found _ ih =>
      cases known : base.lookup v with
      | some z =>
          have equal := agree.left v z known
          rw [found] at equal
          cases equal
          exact ih ((model v u known).symm.trans same)
      | none =>
          obtain ⟨z, done⟩ := acyclic.chainsEnd w
          have like : base.upTo.terms (.var v) z := same.trans (model.deref done)
          rw [deref_le agree.right done]
          have atEnd : base.IsEnd (.var v) := known
          cases matches_of_same atEnd (deref_isEnd done) like with
          | var =>
              obtain ⟨value, bound, same⟩ := agree.bound known found
              rw [deref_var bound]
              exact ih same

theorem AgreeOver.deref (acyclic : base.Acyclic) (agree : AgreeOver base s t)
    (same : base.upTo.terms u w) (done : s.deref u = some x) :
    ∃ y, t.deref w = some y ∧ base.upTo.EndsAs s t x y := by
  obtain ⟨y, done', like⟩ := agree.ends acyclic (deref_eq_some_iff.mp done) same
  have left := deref_isEnd done
  have right := deref_isEnd done'
  exact ⟨y, done', left, right, like,
    matches_of_same (isEnd_of_le agree.left left) (isEnd_of_le agree.right right) like⟩

theorem ChainsEnd.unbind (chains : s.ChainsEnd) (v : Var) : (s.unbind v).ChainsEnd := by
  have along : ∀ {u w}, s.Ends u w → ∃ x, (s.unbind v).Ends u x := by
    intro u w ends
    induction ends with
    | @here u atEnd =>
        refine ⟨u, .here ?_⟩
        cases u with
        | var x =>
            have free : s.lookup x = none := atEnd
            simp [IsEnd, lookup_unbind, free]
        | _ => trivial
    | @step x u w found _ ih =>
        by_cases gone : v = x
        · exact ⟨.var x, .here (by simp [IsEnd, lookup_unbind, gone])⟩
        · obtain ⟨z, ends⟩ := ih
          exact ⟨z, .step (by rw [lookup_unbind, if_neg gone]; exact found) ends⟩
  intro u
  obtain ⟨w, done⟩ := chains u
  obtain ⟨x, ends⟩ := along (deref_eq_some_iff.mp done)
  exact ⟨x, deref_eq_some_iff.mpr ends⟩

theorem AgreeOver.bind (agree : AgreeOver base s t)
    (target : base.upTo.EndsAs s t (.var v) (.var v)) (value : base.upTo.EndsAs s t x y)
    (other : x ≠ .var v) : AgreeOver base (s.bind v x) (t.bind v y) where
  left := le_trans agree.left (le_bind target.left x)
  right := le_trans agree.right (le_bind target.right y)
  leftEnds := agree.leftEnds.bind target.left value.left other
  rightEnds := by
    refine agree.rightEnds.bind target.right value.right ?_
    rintro rfl
    cases value.same
    exact other rfl
  values w free := by
    rw [lookup_bind, lookup_bind]
    by_cases here : v = w
    · rw [if_pos here, if_pos here]
      exact .some value.like
    · rw [if_neg here, if_neg here]
      exact agree.values w free

theorem le_unbind (larger : base ≤ s) (free : base.lookup v = none) : base ≤ s.unbind v := by
  intro w u found
  rw [lookup_unbind, if_neg]
  · exact larger w u found
  · rintro rfl
    rw [free] at found
    cases found

theorem AgreeOver.unbind (agree : AgreeOver base s t) (own : base.lookup v = none) :
    AgreeOver base (s.unbind v) (t.unbind v) where
  left := le_unbind agree.left own
  right := le_unbind agree.right own
  leftEnds := agree.leftEnds.unbind v
  rightEnds := agree.rightEnds.unbind v
  values w free := by
    rw [lookup_unbind, lookup_unbind]
    by_cases here : v = w
    · rw [if_pos here, if_pos here]
      exact .none
    · rw [if_neg here, if_neg here]
      exact agree.values w free

theorem idle_of_ends (left : t.deref l = some x) (right : t.deref r = some y)
    {pairs : List (Term × Term)} (idle : ∀ pair ∈ pairs, t.Idle pair.1 pair.2)
    (meets : ∀ pending, t.unifyEnds pending x y = .again (t, pairs ++ pending)) : t.Idle l r := by
  by_cases same : l.sameVar r = true
  · exact idle_of_sameVar left same
  · apply idle_of_step
    intro pending
    exact ⟨pairs, by simp only [unifyStep, left, right, if_neg same, meets], idle⟩

theorem unifyEnds_self (pending : List (Term × Term)) (x : Term) :
    t.unifyEnds pending x x = .again (t, x.args.zip x.args ++ pending) := by
  cases x <;> simp [unifyEnds, Term.args]

theorem idle_self (chains : t.ChainsEnd) (u : Term) : t.Idle u u := by
  induction u using Term.inductionOn with
  | var v =>
      obtain ⟨x, done⟩ := chains (.var v)
      exact idle_of_sameVar done (by simp [Term.sameVar])
  | compound f first rest ih =>
      have all : List.Forall₂ t.Idle (first :: rest) (first :: rest) := List.forall₂_same.mpr ih
      exact idle_of_ends rfl rfl (fun pair member => List.forall₂_zip all member)
        fun pending => unifyEnds_self pending _
  | atom a => exact idle_of_ends rfl rfl (by simp [Term.args]) fun _ => unifyEnds_self _ _
  | int n => exact idle_of_ends rfl rfl (by simp [Term.args]) fun _ => unifyEnds_self _ _

theorem idle_of_deref (chains : t.ChainsEnd) (left : t.deref l = some x)
    (right : t.deref r = some x) : t.Idle l r :=
  idle_of_ends left right (fun pair member => by
    have all : List.Forall₂ t.Idle x.args x.args :=
      List.forall₂_same.mpr fun u _ => idle_self chains u
    exact List.forall₂_zip all member) fun pending => unifyEnds_self pending x

/-- Terms that are one finite tree in the base are idle over it: their trees get smaller on the way
down, and below a variable of the base both are one term. -/
theorem idle_of_same (acyclic : base.Acyclic) (larger : base ≤ t) (chains : t.ChainsEnd)
    (same : base.upTo.terms l r) : t.Idle l r := by
  have model := acyclic.models_trees
  -- The trees get smaller on the way down; below a variable of the base both sides are one term.
  induction size : (l.subst base.trees).nodes using Nat.strong_induction_on generalizing l r with
  | _ n ih =>
      obtain ⟨x, left⟩ := acyclic.chainsEnd l
      obtain ⟨y, right⟩ := acyclic.chainsEnd r
      have like : base.upTo.terms x y :=
        (model.deref left).symm.trans (Eq.trans same (model.deref right))
      have leftEnd := deref_le larger left
      have rightEnd := deref_le larger right
      cases matches_of_same (deref_isEnd left) (deref_isEnd right) like with
      | @var v =>
          obtain ⟨z, done⟩ := chains (.var v)
          exact idle_of_deref chains (leftEnd.trans done) (rightEnd.trans done)
      | atom => exact idle_of_deref chains leftEnd rightEnd
      | int => exact idle_of_deref chains leftEnd rightEnd
      | @compound f a b as bs first rest =>
          have all : List.Forall₂ base.upTo.terms (a :: as) (b :: bs) := .cons first rest
          have meets (pending) : t.unifyEnds pending (.compound f a as) (.compound f b bs) =
              .again (t, (a :: as).zip (b :: bs) ++ pending) := by
            simp [unifyEnds, rest.length_eq]
          refine idle_of_ends leftEnd rightEnd ?_ meets
          rintro ⟨c, d⟩ member
          have smaller : (c.subst base.trees).nodes < n := by
            rw [← size, model.deref left, Term.subst, Term.substAll_eq_map]
            apply Term.nodes_lt_of_arg
            rw [← List.map_cons]
            exact List.mem_map_of_mem (List.of_mem_zip member).1
          exact ih _ smaller (List.forall₂_zip all member) rfl

theorem simulates_upTo (acyclic : base.Acyclic) : base.upTo.Simulates (AgreeOver base) where
  int _ := rfl
  deref agree same done := agree.deref acyclic same done
  bind agree target value other := agree.bind target value other
  unbind agree own := agree.unbind own
  idle agree _ left right :=
    idle_of_same acyclic agree.right agree.rightEnds (Eq.trans (Eq.symm left) right)

theorem Models.subst_trees (model : base.Models θ) (acyclic : base.Acyclic) (u : Term) :
    (u.subst base.trees).subst θ = u.subst θ := by
  have each : ∀ v, (base.trees v).subst θ = θ v := by
    refine acyclic.induction (motive := fun v => (base.trees v).subst θ = θ v) ?_
    intro v ih
    cases found : base.lookup v with
    | none => rw [trees_of_free found, Term.subst]
    | some t =>
        rw [acyclic.models_trees v t found, model v t found, Term.subst_subst]
        exact Term.subst_congr fun w occurs => ih w ⟨t, found, occurs⟩
  rw [Term.subst_subst]
  exact Term.subst_congr fun v _ => each v

theorem AgreeOver.models (acyclic : base.Acyclic) (agree : AgreeOver base s t)
    (model : s.Models θ) : t.Models θ := by
  have below := model.le agree.left
  intro v w found
  cases known : base.lookup v with
  | some u =>
      have same := agree.right v u known
      rw [found] at same
      cases same
      exact below v w known
  | none =>
      obtain ⟨u, bound, like⟩ := agree.symm.bound known found
      calc
        θ v = u.subst θ := model v u bound
        _ = (u.subst base.trees).subst θ := (below.subst_trees acyclic u).symm
        _ = (w.subst base.trees).subst θ := by rw [show w.subst base.trees = _ from like]
        _ = w.subst θ := below.subst_trees acyclic w

theorem AgreeOver.acyclic (acyclic : base.Acyclic) (agree : AgreeOver base s t)
    (left : s.Acyclic) : t.Acyclic :=
  acyclic_of_models agree.rightEnds (agree.models acyclic left.models_trees)

theorem AgreeOver.trees (acyclic : base.Acyclic) (agree : AgreeOver base s t)
    (left : s.Acyclic) : t.trees = s.trees := by
  have right := agree.acyclic acyclic left
  have model := agree.models acyclic left.models_trees
  funext v
  -- What is left open in the tree on the right is free on the left too.
  have leaves : ∀ x ∈ (t.trees v).vars, Term.var x = s.trees x := by
    intro x occurs
    have free : t.lookup x = none := ((mem_vars_trees right (t := .var v)).mp occurs).lookup
    have unbound : s.lookup x = none := by
      cases known : base.lookup x with
      | some u =>
          rw [agree.right x u known] at free
          cases free
      | none => exact agree.symm.free known free
    exact (trees_of_free unbound).symm
  calc
    t.trees v = (t.trees v).subst .var := (Term.subst_var _).symm
    _ = (t.trees v).subst s.trees := Term.subst_congr leaves
    _ = s.trees v := model.subst_trees right (.var v)

end Store

end LogicSearch
