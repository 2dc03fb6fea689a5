import LogicSearch.Proofs.Layout.Term
import LogicSearch.Proofs.Store.UpTo

namespace LogicSearch

inductive Node.HoldsOperators : Node → Prop where
  | atom {a : Atom} : HoldsOperators (.atom a)
  | int {n : Int64} : HoldsOperators (.int n)
  | var {v : Var} : HoldsOperators (.var v)
  | compound {f : Atom} {op : Option Operator} {first : Node} {rest : List Node} :
      op = Operator.ofFunctor? f (rest.length + 1) → (∀ n ∈ first :: rest, HoldsOperators n) →
      HoldsOperators (.compound f op first rest)

theorem Node.holdsOperators_ofTerm (t : Term) : (Node.ofTerm t).HoldsOperators := by
  induction t using Term.inductionOn with
  | atom a => exact .atom
  | int n => exact .int
  | var v => exact .var
  | compound f first rest ih =>
      rw [Node.ofTerm, Node.ofTerms_eq_map, Node.build]
      refine .compound rfl ?_
      rw [← List.map_cons]
      intro n member
      obtain ⟨t, inside, rfl⟩ := List.mem_map.mp member
      exact ih t inside

namespace Store

/-- A function that replaces each bound variable by its value, and what is bound inside the value
too. All else stays, in its place. -/
structure Replaces (s : Store) (R : Term → Term) : Prop where
  atom : ∀ a, R (.atom a) = .atom a
  int : ∀ n, R (.int n) = .int n
  free : ∀ v, s.lookup v = none → R (.var v) = .var v
  bound : ∀ v t, s.lookup v = some t → R (.var v) = R t
  compound : ∀ f first rest, R (.compound f first rest) = .compound f (R first) (rest.map R)

variable {s : Store} {R : Term → Term}

theorem replaces_trees (acyclic : s.Acyclic) : s.Replaces (Term.subst s.trees) where
  atom a := rfl
  int n := rfl
  free v free := trees_of_free free
  bound v t found := acyclic.models_trees v t found
  compound f first rest := by rw [Term.subst, Term.substAll_eq_map]

theorem Replaces.eq_subst (replaces : s.Replaces R) {t : Term}
    (known : ∀ v ∈ t.vars, R (.var v) = s.trees v) : R t = t.subst s.trees := by
  induction t using Term.inductionOn with
  | atom a => exact replaces.atom a
  | int n => exact replaces.int n
  | var v => exact known v (by simp [Term.vars])
  | compound f first rest ih =>
      have each : ∀ u ∈ first :: rest, R u = u.subst s.trees := fun u member =>
        ih u member fun v occurs => known v (Term.mem_vars_compound.mpr ⟨u, member, occurs⟩)
      have head := each first List.mem_cons_self
      have tail : rest.map R = rest.map (Term.subst s.trees) :=
        List.map_congr_left fun u member => each u (List.mem_cons_of_mem _ member)
      rw [replaces.compound, head, tail, Term.subst, Term.substAll_eq_map]

theorem Replaces.unique (replaces : s.Replaces R) (acyclic : s.Acyclic) :
    R = Term.subst s.trees := by
  have each : ∀ v, R (.var v) = s.trees v := by
    refine acyclic.induction (motive := fun v => R (.var v) = s.trees v) ?_
    intro v ih
    cases found : s.lookup v with
    | none => rw [replaces.free v found, trees_of_free found]
    | some t =>
        rw [replaces.bound v t found, acyclic.models_trees v t found]
        exact replaces.eq_subst fun w occurs => ih w ⟨t, found, occurs⟩
  funext t
  exact replaces.eq_subst fun v _ => each v

theorem lookup_of_mem_trees (acyclic : s.Acyclic) {t : Term} {v : Var}
    (occurs : v ∈ (t.subst s.trees).vars) : s.lookup v = none :=
  ((mem_vars_trees acyclic).mp occurs).lookup

theorem resolveNode_of_built (acyclic : s.Acyclic) {n : Node} (built : n.Built) :
    ∃ t, n = .ofTerm t ∧
      ∃ fuel, s.resolveNode fuel n = some (.ok (.ofTerm (t.subst s.trees))) := by
  obtain ⟨t, rfl⟩ := Node.built_iff.mp built
  exact ⟨t, rfl, resolveNode_ofTerm.mpr ⟨_, rfl, resolve_of_acyclic acyclic t⟩⟩

theorem isEqual_equivalence (acyclic : s.Acyclic) : Equivalence s.IsEqual where
  refl _ := (isEqual_iff acyclic).mpr rfl
  symm equal := (isEqual_iff acyclic).mpr ((isEqual_iff acyclic).mp equal).symm
  trans first second :=
    (isEqual_iff acyclic).mpr
      (((isEqual_iff acyclic).mp first).trans ((isEqual_iff acyclic).mp second))

theorem isEqual_compound (acyclic : s.Acyclic) {f : Atom} {a b : Term} {as bs : List Term}
    (first : s.IsEqual a b) (rest : List.Forall₂ s.IsEqual as bs) :
    s.IsEqual (.compound f a as) (.compound f b bs) := by
  have head := (isEqual_iff acyclic).mp first
  have tail : as.map (Term.subst s.trees) = bs.map (Term.subst s.trees) := by
    rw [← List.forall₂_eq_eq_eq, List.forall₂_map_left_iff, List.forall₂_map_right_iff]
    exact rest.imp fun _ _ equal => (isEqual_iff acyclic).mp equal
  rw [isEqual_iff acyclic, Term.subst, Term.subst, Term.substAll_eq_map, Term.substAll_eq_map,
    head, tail]

/-- In a store without cyclic bindings one function replaces the bound variables. Resolving gives
what it gives, compounds as they are laid out keep the operators of their functors, and no variable
in a resolved term is bound, so that resolving again changes nothing. Comparing tells whether it
gives one tree for both terms; a term is equal to what it resolves to, equality is an equivalence,
and compounds of equal arguments are equal. -/
theorem resolve_and_equal_by_replacing (acyclic : s.Acyclic) :
    ∃ R : Term → Term, s.Replaces R ∧ (∀ other, s.Replaces other → other = R) ∧
      (∀ t, ∃ fuel, s.resolve fuel t = some (R t)) ∧
      (∀ n : Node, n.Built → ∃ t, n = .ofTerm t ∧ n.HoldsOperators ∧
        (Node.ofTerm (R t)).HoldsOperators ∧
        ∃ fuel, s.resolveNode fuel n = some (.ok (.ofTerm (R t)))) ∧
      (∀ t, ∀ v ∈ (R t).vars, s.lookup v = none) ∧
      (∀ t, R (R t) = R t) ∧
      (∀ t, s.IsEqual (R t) t) ∧
      (∀ t u, ∃ fuel, s.equal fuel t u = some (decide (R t = R u))) ∧
      Equivalence s.IsEqual ∧
      ∀ f a b as bs, s.IsEqual a b → List.Forall₂ s.IsEqual as bs →
        s.IsEqual (.compound f a as) (.compound f b bs) := by
  have again (t : Term) : (t.subst s.trees).subst s.trees = t.subst s.trees :=
    acyclic.models_trees.subst_trees acyclic t
  refine ⟨Term.subst s.trees, replaces_trees acyclic, fun _ other => other.unique acyclic,
    resolve_of_acyclic acyclic, ?_, fun _ _ => lookup_of_mem_trees acyclic, again,
    fun t => (isEqual_iff acyclic).mpr (again t), equal_of_trees acyclic,
    isEqual_equivalence acyclic, fun _ _ _ _ _ => isEqual_compound acyclic⟩
  intro n built
  obtain ⟨t, rfl, done⟩ := resolveNode_of_built acyclic built
  exact ⟨t, rfl, Node.holdsOperators_ofTerm t, Node.holdsOperators_ofTerm _, done⟩

theorem resolve_and_equal_by_replacing_shared_value :
    let s := (empty.bind 1 (.int 7)).bind 2 (.compound .plus (.var 1) [.var 0])
    let t : Term := .list [.var 2, .var 1, .var 0]
    let u : Term := .list [.compound .plus (.int 7) [.var 0], .int 7, .var 0]
    s.Acyclic ∧ (∃ fuel, s.resolve fuel t = some u) ∧ s.IsEqual t u ∧
      ∃ fuel, s.equal fuel (.var 2) (.var 1) = some false := by
  intro s t u
  have acyclic : s.Acyclic :=
    ((descending_empty.bind (by decide)).bind (by decide)).acyclic
  obtain ⟨R, replaces, -, resolved, -, -, -, back, compared, equal, -⟩ :=
    resolve_and_equal_by_replacing acyclic
  have one : R (.var 1) = .int 7 := (replaces.bound 1 _ rfl).trans (replaces.int 7)
  have zero : R (.var 0) = .var 0 := replaces.free 0 rfl
  have two : R (.var 2) = .compound .plus (.int 7) [.var 0] := by
    rw [replaces.bound 2 _ rfl, replaces.compound, one, List.map_singleton, zero]
  have whole : R t = u := by
    simp [t, u, Term.list, Term.listOnto, Term.cons, Term.nil, replaces.compound, replaces.atom,
      zero, one, two]
  refine ⟨acyclic, whole ▸ resolved t, equal.symm (whole ▸ back t), ?_⟩
  simpa [one, two] using compared (.var 2) (.var 1)

end Store

end LogicSearch
