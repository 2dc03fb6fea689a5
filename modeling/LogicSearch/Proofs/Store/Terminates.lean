import LogicSearch.Proofs.Store.Acyclic
import LogicSearch.Store.Equal

/-!
Work lists that come to an end. Under an assignment every pair of terms has a size, and a move
replaces the pair it takes by smaller ones. Unification therefore returns as long as some model
solves what is pending, and comparing always does where the terms have trees.
-/

namespace LogicSearch

namespace Store

def weight (θ : Assignment) : List (Term × Term) → Nat
  | [] => 0
  | pair :: pending => (pair.1.subst θ).nodes + weight θ pending

variable {s t : Store} {l r : Term} {pending : List (Term × Term)} {θ : Assignment} {x : Var}
  {turn : Turn (Store × List (Term × Term)) (Bool × Store)}

theorem weight_cons :
    weight θ ((l, r) :: pending) = (l.subst θ).nodes + weight θ pending := rfl

theorem weight_rest_lt : weight θ pending < weight θ ((l, r) :: pending) := by
  have positive := (l.subst θ).nodes_pos
  rw [weight_cons]
  omega

theorem weight_zip_le (as bs : List Term) (pending : List (Term × Term)) :
    weight θ (as.zip bs ++ pending) ≤ Term.nodesAll (as.map (Term.subst θ)) + weight θ pending := by
  induction as generalizing bs with
  | nil => simp [Term.nodesAll]
  | cons a as ih =>
      cases bs with
      | nil => simp
      | cons b bs =>
          have later := ih bs
          rw [List.zip_cons_cons, List.cons_append, weight_cons, List.map_cons, Term.nodesAll]
          omega

theorem weight_args_lt {f : Atom} {a b : Term} {as bs : List Term} :
    weight θ ((a, b) :: as.zip bs ++ pending) <
      weight θ ((.compound f a as, r) :: pending) := by
  have size : ((Term.compound f a as).subst θ).nodes =
      1 + Term.nodesAll ((a :: as).map (Term.subst θ)) := by
    rw [Term.subst, Term.nodes, Term.substAll_eq_map, List.map_cons, Term.nodesAll]
    omega
  calc
    weight θ ((a, b) :: as.zip bs ++ pending)
      ≤ Term.nodesAll ((a :: as).map (Term.subst θ)) + weight θ pending :=
        weight_zip_le (a :: as) (b :: bs) pending
    _ < ((Term.compound f a as).subst θ).nodes + weight θ pending := by
      rw [size]
      omega
    _ = weight θ ((.compound f a as, r) :: pending) := weight_cons.symm

theorem ChainsEnd.bind (chains : s.ChainsEnd) (free : s.lookup x = none) (atEnd : s.IsEnd l)
    (other : l ≠ .var x) : (s.bind x l).ChainsEnd := by
  intro u
  obtain ⟨w, done⟩ := chains u
  rw [deref_bind free atEnd other, done]
  exact ⟨_, rfl⟩

theorem Meets.descends (meets : Meets s pending l r turn) (leftEnd : s.IsEnd l)
    (rightEnd : s.IsEnd r) (chains : s.ChainsEnd) {next : Store × List (Term × Term)}
    (again : turn = .again next) :
    next.1.ChainsEnd ∧ weight θ next.2 < weight θ ((l, r) :: pending) := by
  cases meets with
  | same =>
      cases again
      exact ⟨chains, weight_rest_lt⟩
  | bindLeft other =>
      cases again
      exact ⟨chains.bind leftEnd rightEnd other, weight_rest_lt⟩
  | bindRight other =>
      cases again
      exact ⟨chains.bind rightEnd leftEnd other, weight_rest_lt⟩
  | args length =>
      cases again
      exact ⟨chains, weight_args_lt⟩
  | clash => cases again

theorem unifyStep_returns (chains : s.ChainsEnd) (pending : List (Term × Term)) :
    ∃ turn, unifyStep (s, pending) = some turn := by
  cases pending with
  | nil => exact ⟨_, rfl⟩
  | cons pair pending =>
      obtain ⟨l, left⟩ := chains pair.1
      obtain ⟨r, right⟩ := chains pair.2
      simp only [unifyStep, left, right]
      exact ⟨_, rfl⟩

/-- A model that solves the pending pairs gives unification a size that every move lowers, and
rules a mismatch out. -/
theorem leads_of_fits {state : Store × List (Term × Term)} (fits : Fits θ state)
    (chains : state.1.ChainsEnd) :
    ∃ t, Turn.Leads (fun state turn => unifyStep state = some turn) state (true, t) ∧
      t.ChainsEnd := by
  induction size : weight θ state.2 using Nat.strong_induction_on generalizing state with
  | _ n ih =>
      obtain ⟨s, pending⟩ := state
      obtain ⟨turn, taken⟩ := unifyStep_returns chains pending
      cases pending with
      | nil =>
          cases unifyStep_nil taken
          exact ⟨s, .finish taken, chains⟩
      | cons pair pending =>
          obtain ⟨a, b⟩ := pair
          obtain ⟨l, r, left, right, meets⟩ := unifyStep_meets taken
          have equal : l.subst θ = r.subst θ := by
            rw [← fits.1.deref left, ← fits.1.deref right]
            exact (solves_cons.mp fits.2).1
          cases turn with
          -- A mismatch would leave the model nothing to solve.
          | finish result => exact ((meets.store_of_finish rfl).2 θ equal).elim
          | again next =>
              have fits' := (fits_unifyStep taken).mpr fits
              obtain ⟨chains', smaller⟩ :=
                meets.descends (θ := θ) (deref_isEnd left) (deref_isEnd right) chains rfl
              rw [weight_cons, ← fits.1.deref left] at smaller
              simp only [weight_cons] at size
              obtain ⟨t, leads, ends⟩ := ih _ (size ▸ smaller) fits' chains' rfl
              exact ⟨t, .again taken leads, ends⟩

theorem unify_of_models (acyclic : s.Acyclic) (model : s.Models θ)
    (equal : l.subst θ = r.subst θ) :
    ∃ fuel t, s.unify fuel l r = some (true, t) ∧ t.Acyclic := by
  obtain ⟨t, leads, chains⟩ := leads_of_fits (fits_start.mpr ⟨model, equal⟩) acyclic.chainsEnd
  obtain ⟨fuel, done⟩ := unify_of_leads leads
  have model' : t.Models θ := (models_unify done).mpr ⟨model, equal⟩
  exact ⟨fuel, t, done, acyclic_of_models chains model'⟩

theorem leads_of_closed (state : Store × List (Term × Term))
    (closed : PendingWithin (fun _ => False) state.1 state.2) (acyclic : state.1.Acyclic) :
    ∃ answer, Turn.Leads (fun state turn => unifyStep state = some turn) state
      (answer, state.1) := by
  induction size : weight state.1.trees state.2 using Nat.strong_induction_on
    generalizing state with
  | _ n ih =>
      obtain ⟨s, pending⟩ := state
      obtain ⟨turn, taken⟩ := unifyStep_returns acyclic.chainsEnd pending
      cases pending with
      | nil =>
          cases unifyStep_nil taken
          exact ⟨true, .finish taken⟩
      | cons pair pending =>
          obtain ⟨a, b⟩ := pair
          obtain ⟨l, r, left, right, meets⟩ := unifyStep_meets taken
          have inside : ∀ v, s.Free l v ∨ s.Free r v → False := by
            intro v free
            rw [← free_deref left, ← free_deref right] at free
            exact closed (a, b) List.mem_cons_self v free
          have later : PendingWithin (fun _ => False) s pending := fun pair member =>
            closed pair (List.mem_cons_of_mem _ member)
          cases turn with
          | finish result =>
              rw [(meets.store_of_finish rfl).1] at taken
              exact ⟨false, .finish taken⟩
          | again next =>
              -- Nothing is free in the terms that meet, so the move binds nothing.
              obtain ⟨grows, closed'⟩ := meets.grows (deref_of_isEnd (deref_isEnd left))
                (deref_of_isEnd (deref_isEnd right)) inside later rfl
              have same : next.1 = s := grows.eq_of_none
              obtain ⟨-, smaller⟩ := meets.descends (θ := s.trees) (deref_isEnd left)
                (deref_isEnd right) acyclic.chainsEnd rfl
              rw [weight_cons, ← acyclic.models_trees.deref left] at smaller
              simp only [weight_cons] at size
              rw [← same] at acyclic smaller size
              obtain ⟨answer, leads⟩ := ih _ (size ▸ smaller) next closed' acyclic rfl
              rw [same] at leads
              exact ⟨answer, .again taken leads⟩

end Store

end LogicSearch
