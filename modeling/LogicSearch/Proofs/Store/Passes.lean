import LogicSearch.Proofs.Arithmetic.Evaluates
import LogicSearch.Proofs.Store.Resolved
import Mathlib.Data.Finset.Card

/-!
Attempts without a model in sight. Unification has no occurs check, so it can run on forever, but
only over terms that contain themselves: as long as no store on its way has a cyclic binding, a move
binds one of finitely many variables or goes on with smaller trees, and so the attempt returns.
-/

namespace LogicSearch

namespace Store

variable {s t : Store} {l r u w : Term} {V : Finset Var}

theorem Acyclic.of_le (larger : s ≤ t) (acyclic : t.Acyclic) : s.Acyclic := by
  intro v cycle
  apply acyclic v
  have refers : s.Refers ≤ t.Refers := by
    rintro x y ⟨u, found, occurs⟩
    exact ⟨u, larger x u found, occurs⟩
  exact Relation.TransGen.mono refers v v cycle

theorem Acyclic.nodes_lt_of_arg (acyclic : s.Acyclic) {x : Term} (done : s.deref w = some x)
    (member : u ∈ x.args) : (u.subst s.trees).nodes < (w.subst s.trees).nodes := by
  cases x with
  | compound f first rest =>
      rw [acyclic.models_trees.deref done, Term.subst, Term.substAll_eq_map]
      apply Term.nodes_lt_of_arg
      rw [← List.map_cons]
      exact List.mem_map_of_mem member
  | _ => cases member

def unboundIn (s : Store) (V : Finset Var) : Nat := (V.filter fun v => s.lookup v = none).card

theorem Grows.eq_or_fewer (grows : Grows (· ∈ V) s t) :
    t = s ∨ t.unboundIn V < s.unboundIn V := by
  by_cases same : ∀ v, s.lookup v = none → t.lookup v = none
  · refine .inl (Store.ext fun v => ?_)
    cases before : s.lookup v with
    | none => exact same v before
    | some u => exact grows.kept v u before
  · right
    push Not at same
    obtain ⟨v, free, bound⟩ := same
    apply Finset.card_lt_card
    refine (Finset.ssubset_iff_of_subset ?_).mpr ⟨v, ?_, ?_⟩
    · intro x left
      obtain ⟨member, unbound⟩ := Finset.mem_filter.mp left
      refine Finset.mem_filter.mpr ⟨member, ?_⟩
      cases before : s.lookup x with
      | none => rfl
      | some u =>
          rw [grows.kept x u before] at unbound
          cases unbound
    · exact Finset.mem_filter.mpr ⟨grows.among v free bound, free⟩
    · exact fun left => bound (Finset.mem_filter.mp left).2

def freeVars (s : Store) (t : Term) : Finset Var := (t.subst s.trees).vars.toFinset

theorem mem_freeVars (acyclic : s.Acyclic) {v : Var} : v ∈ s.freeVars u ↔ s.Free u v := by
  rw [freeVars, List.mem_toFinset, mem_vars_trees acyclic]

def Continues (state next : Store × List (Term × Term)) : Prop :=
  unifyStep state = some (.again next)

/-- An attempt to unify the two terms is at this store at some moment. -/
def Passes (s : Store) (l r : Term) (t : Store) : Prop :=
  ∃ pending, Relation.ReflTransGen Continues (s, [(l, r)]) (t, pending)

theorem Passes.start : s.Passes l r s := ⟨_, .refl⟩

theorem Passes.cases_once {now : Store} (passes : s.Passes l r now)
    (once : Continues (s, [(l, r)]) (t, [])) : now = s ∨ now = t := by
  obtain ⟨pending, path⟩ := passes
  rcases path.cases_head with same | ⟨next, continues, path⟩
  · cases same
    exact .inl rfl
  · rw [Continues, once] at continues
    cases continues
    rcases path.cases_head with same | ⟨next, continues, -⟩
    · cases same
      exact .inr rfl
    · cases continues

theorem passes_of_unify {fuel : Nat} {answer : Bool} (done : s.unify fuel l r = some (answer, t)) :
    s.Passes l r t := by
  apply (leads_of_unify done).invariant
    (fun state => Relation.ReflTransGen Continues (s, [(l, r)]) state)
    (fun result => s.Passes l r result.2)
  · exact fun _ _ path taken => path.tail taken
  · rintro ⟨now, pending⟩ result path taken
    cases pending with
    | nil =>
        cases unifyStep_nil taken
        exact ⟨_, path⟩
    | cons pair pending =>
        obtain ⟨_, _, -, -, meets⟩ := unifyStep_meets taken
        rw [(meets.store_of_finish rfl).1]
        exact ⟨_, path⟩
  · exact .refl

/-- What is left to do: variables to bind first, then trees to walk through. Between two bindings
the store is the same, and so are the trees that are measured. -/
def effort (V : Finset Var) (state : Store × List (Term × Term)) : Nat ×ₗ Nat :=
  toLex (state.1.unboundIn V, weight state.1.trees state.2)

theorem Meets.progress {a b : Term} {pending : List (Term × Term)}
    {next : Store × List (Term × Term)} (meets : Meets s pending l r (.again next))
    (left : s.deref a = some l) (right : s.deref b = some r)
    (within : PendingWithin (· ∈ V) s ((a, b) :: pending)) (acyclic : s.Acyclic) :
    PendingWithin (· ∈ V) next.1 next.2 ∧ effort V next < effort V (s, (a, b) :: pending) := by
  have inside : ∀ v, s.Free l v ∨ s.Free r v → v ∈ V := by
    intro v free
    rw [← free_deref left, ← free_deref right] at free
    exact within (a, b) List.mem_cons_self v free
  have later : PendingWithin (· ∈ V) s pending := fun pair member =>
    within pair (List.mem_cons_of_mem _ member)
  obtain ⟨grows, within'⟩ := meets.grows (deref_of_isEnd (deref_isEnd left))
    (deref_of_isEnd (deref_isEnd right)) inside later rfl
  refine ⟨within', Prod.Lex.toLex_lt_toLex.mpr ?_⟩
  rcases grows.eq_or_fewer with same | fewer
  · obtain ⟨-, smaller⟩ := meets.descends (θ := s.trees) (deref_isEnd left)
      (deref_isEnd right) acyclic.chainsEnd rfl
    rw [weight_cons, ← acyclic.models_trees.deref left] at smaller
    rw [same]
    exact .inr ⟨rfl, smaller⟩
  · exact .inl fewer

theorem leads_of_calm {state : Store × List (Term × Term)}
    (within : PendingWithin (· ∈ V) state.1 state.2)
    (calm : ∀ next, Relation.ReflTransGen Continues state next → next.1.Acyclic) :
    ∃ result, Turn.Leads (fun state turn => unifyStep state = some turn) state result := by
  apply Turn.leads_of_descends (effort V) (fun state => PendingWithin (· ∈ V) state.1 state.2 ∧
    ∀ next, Relation.ReflTransGen Continues state next → next.1.Acyclic)
  · rintro ⟨s, pending⟩ ⟨-, calm⟩
    exact unifyStep_returns (calm _ .refl).chainsEnd pending
  · rintro ⟨s, pending⟩ next ⟨within, calm⟩ taken
    have later : ∀ far, Relation.ReflTransGen Continues next far → far.1.Acyclic :=
      fun far path => calm far (path.head taken)
    cases pending with
    | nil => cases taken
    | cons pair pending =>
        obtain ⟨l, r, left, right, meets⟩ := unifyStep_meets taken
        obtain ⟨within', smaller⟩ := meets.progress left right within (calm _ .refl)
        exact ⟨⟨within', later⟩, smaller⟩
  · exact ⟨within, calm⟩

theorem unify_returns (calm : ∀ t, s.Passes l r t → t.Acyclic) :
    ∃ fuel answer t, s.unify fuel l r = some (answer, t) := by
  have acyclic := calm s .start
  have within : PendingWithin (· ∈ s.freeVars l ∪ s.freeVars r) s [(l, r)] := by
    intro pair member v free
    cases List.mem_singleton.mp member
    simpa only [Finset.mem_union, mem_freeVars acyclic] using free
  obtain ⟨⟨answer, t⟩, leads⟩ := leads_of_calm within fun next path => calm _ ⟨_, path⟩
  obtain ⟨fuel, done⟩ := unify_of_leads leads
  exact ⟨fuel, answer, t, done⟩

theorem leads_snapshot (acyclic : s.Acyclic) (state : List Term × List Var) :
    ∃ p, Turn.Leads (fun state turn => s.snapshotStep state = some turn) state p := by
  apply Turn.leads_of_descends (fun state => Term.nodesAll (state.1.map (Term.subst s.trees)))
    (fun _ => True)
  · intro state _
    obtain ⟨_ | ⟨t, pending⟩, found⟩ := state
    · exact ⟨_, rfl⟩
    · obtain ⟨u, done⟩ := acyclic.chainsEnd t
      simp only [snapshotStep, done]
      cases u <;> exact ⟨_, rfl⟩
  · intro state next _ taken
    refine ⟨trivial, ?_⟩
    obtain ⟨_ | ⟨t, pending⟩, found⟩ := state
    · cases taken
    · obtain ⟨u, done⟩ := acyclic.chainsEnd t
      have positive := (u.subst s.trees).nodes_pos
      simp only [snapshotStep, done] at taken
      simp only [List.map_cons, Term.nodesAll, acyclic.models_trees.deref done]
      cases u with
      | compound f first rest =>
          cases taken
          rw [Term.subst, Term.nodes, Term.substAll_eq_map, List.map_append, Term.nodesAll_append,
            List.map_cons, Term.nodesAll]
          omega
      | _ =>
          cases taken
          simp only
          omega
  · trivial

theorem snapshot_returns (acyclic : s.Acyclic) (t : Term) :
    ∃ fuel p, s.snapshot fuel t = some p := by
  obtain ⟨p, leads⟩ := leads_snapshot acyclic ([t], [])
  obtain ⟨fuel, done⟩ := Turn.leads_iff.mp leads
  exact ⟨fuel, p, done⟩

theorem tryUnify_returns (calm : ∀ t, s.Passes l r t → t.Acyclic) :
    ∃ fuel result, s.tryUnify fuel l r = some result := by
  have acyclic := calm s .start
  obtain ⟨_, _, first⟩ := snapshot_returns acyclic l
  obtain ⟨_, _, second⟩ := snapshot_returns acyclic r
  obtain ⟨_, _, _, attempt⟩ := unify_returns calm
  obtain ⟨fuel, done⟩ := tryUnify_of_parts first second attempt
  exact ⟨fuel, _, done⟩

theorem evaluates_of_acyclic (acyclic : s.Acyclic) (t : Term) :
    ∃ result, s.Evaluates t result := by
  induction size : (t.subst s.trees).nodes using Nat.strong_induction_on generalizing t with
  | _ n ih =>
      obtain ⟨u, done⟩ := acyclic.chainsEnd t
      cases u with
      | atom a => exact ⟨_, .atom done⟩
      | int k => exact ⟨_, .int done⟩
      | var v => exact ⟨_, .free done⟩
      | compound f x rest =>
          have arg : ∀ u ∈ x :: rest, ∃ result, s.Evaluates u result := fun u member =>
            ih _ (size ▸ acyclic.nodes_lt_of_arg done member) u rfl
          cases found : Operator.ofFunctor? f (rest.length + 1) with
          | none => exact ⟨_, .plain done found⟩
          | some op =>
              obtain ⟨first, here⟩ := arg x List.mem_cons_self
              cases first with
              | error halt => exact ⟨_, .first done found here⟩
              | ok k =>
                  match rest with
                  | [] => exact ⟨_, .unary done found here⟩
                  | [y] =>
                      obtain ⟨second, there⟩ := arg y (by simp)
                      cases second with
                      | error halt => exact ⟨_, .second done found here there⟩
                      | ok j => exact ⟨_, .binary done found here there⟩
                  | y :: z :: rest =>
                      rw [Operator.ofFunctor?_long f (by simp)] at found
                      cases found

theorem eval_returns (acyclic : s.Acyclic) (t : Term) : ∃ result, s.eval t = some result := by
  obtain ⟨result, evaluates⟩ := evaluates_of_acyclic acyclic t
  exact ⟨result, eval_eq_some_iff.mpr evaluates⟩

end Store

end LogicSearch
