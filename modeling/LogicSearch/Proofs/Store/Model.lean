import LogicSearch.Proofs.Store.Attempt

/-!
Models of stores. An assignment is a model when it gives each bound variable the tree of its value.
Unification never changes which assignments are models and solve what is pending, so the models of
its result are those of the store before that make both terms equal.
-/

namespace LogicSearch

namespace Store

/-- The assignment agrees with every binding of the store. -/
def Models (s : Store) (θ : Assignment) : Prop := ∀ v t, s.lookup v = some t → θ v = t.subst θ

def Solves (θ : Assignment) (pending : List (Term × Term)) : Prop :=
  ∀ pair ∈ pending, pair.1.subst θ = pair.2.subst θ

variable {s t : Store} {l r u w : Term} {pending : List (Term × Term)} {θ : Assignment} {x : Var}
  {turn : Turn (Store × List (Term × Term)) (Bool × Store)}

theorem Models.le (model : t.Models θ) (larger : s ≤ t) : s.Models θ :=
  fun v u found => model v u (larger v u found)

theorem models_empty (θ : Assignment) : empty.Models θ := by
  intro v t found
  simp at found

theorem Models.deref (model : s.Models θ) (done : s.deref u = some w) :
    u.subst θ = w.subst θ := by
  have ends := deref_eq_some_iff.mp done
  clear done
  induction ends with
  | here => rfl
  | @step v u w found _ ih =>
      calc
        θ v = u.subst θ := model v u found
        _ = w.subst θ := ih

theorem models_bind (free : s.lookup x = none) :
    (s.bind x w).Models θ ↔ s.Models θ ∧ θ x = w.subst θ := by
  constructor
  · intro model
    exact ⟨model.le (le_bind free w), model x w (lookup_bind_self s x w)⟩
  · rintro ⟨model, value⟩ v t found
    rw [lookup_bind] at found
    split at found
    · rename_i same
      cases found
      rw [← same]
      exact value
    · exact model v t found

theorem solves_cons : Solves θ ((l, r) :: pending) ↔ l.subst θ = r.subst θ ∧ Solves θ pending := by
  simp [Solves]

theorem solves_append {first second : List (Term × Term)} :
    Solves θ (first ++ second) ↔ Solves θ first ∧ Solves θ second := by
  simp [Solves, or_imp, forall_and]

theorem solves_zip {as bs : List Term} (length : as.length = bs.length) :
    Solves θ (as.zip bs) ↔ as.map (Term.subst θ) = bs.map (Term.subst θ) := by
  induction as generalizing bs with
  | nil =>
      cases bs with
      | nil => simp [Solves]
      | cons => cases length
  | cons a as ih =>
      cases bs with
      | nil => cases length
      | cons b bs =>
          rw [List.zip_cons_cons, solves_cons, ih (by simpa using length)]
          simp

theorem subst_compound_eq {f : Atom} {a b : Term} {as bs : List Term} :
    (Term.compound f a as).subst θ = (Term.compound f b bs).subst θ ↔
      (a :: as).map (Term.subst θ) = (b :: bs).map (Term.subst θ) := by
  simp [Term.subst, Term.substAll_eq_map]

/-- A move trades the pair it takes for bindings or for further pairs with the same solutions. -/
theorem Meets.models (meets : Meets s pending l r turn) (leftEnd : s.IsEnd l)
    (rightEnd : s.IsEnd r) {next : Store × List (Term × Term)} (again : turn = .again next) :
    (next.1.Models θ ∧ Solves θ next.2) ↔ s.Models θ ∧ Solves θ ((l, r) :: pending) := by
  rw [solves_cons]
  cases meets with
  | same =>
      cases again
      simp
  | bindLeft other =>
      cases again
      rw [models_bind leftEnd, and_assoc]
      rfl
  | bindRight other =>
      cases again
      rw [models_bind rightEnd, and_assoc, eq_comm (a := l.subst θ)]
      rfl
  | args length =>
      cases again
      rw [← List.zip_cons_cons, solves_append, solves_zip (by simpa using length),
        subst_compound_eq]
  | clash => cases again

def Fits (θ : Assignment) (state : Store × List (Term × Term)) : Prop :=
  state.1.Models θ ∧ Solves θ state.2

theorem fits_unifyStep {state next : Store × List (Term × Term)}
    (taken : unifyStep state = some (.again next)) : Fits θ next ↔ Fits θ state := by
  obtain ⟨s, pending⟩ := state
  cases pending with
  | nil => cases taken
  | cons pair pending =>
      obtain ⟨l, r, left, right, meets⟩ := unifyStep_meets taken
      rw [Fits, meets.models (deref_isEnd left) (deref_isEnd right) rfl, Fits]
      apply and_congr_right
      intro model
      obtain ⟨a, b⟩ := pair
      rw [solves_cons, solves_cons, model.deref left, model.deref right]

/-- A finished unification: the models of the result are what fits the start, and after a failure
nothing fits it. -/
theorem fits_of_leads {state : Store × List (Term × Term)} {result : Bool × Store}
    (leads : Turn.Leads (fun state turn => unifyStep state = some turn) state result) :
    (result.1 = true → (result.2.Models θ ↔ Fits θ state)) ∧
      (result.1 = false → ¬ Fits θ state) := by
  apply leads.invariant (fun now => Fits θ now ↔ Fits θ state)
    (fun result => (result.1 = true → (result.2.Models θ ↔ Fits θ state)) ∧
      (result.1 = false → ¬ Fits θ state))
  · intro now next same taken
    calc
      Fits θ next ↔ Fits θ now := fits_unifyStep taken
      _ ↔ Fits θ state := same
  · rintro ⟨now, pending⟩ result same taken
    cases pending with
    | nil =>
        cases unifyStep_nil taken
        refine ⟨fun _ => ?_, fun wrong => by cases wrong⟩
        rw [← same]
        simp [Fits, Solves]
    | cons pair pending =>
        obtain ⟨l, r, left, right, meets⟩ := unifyStep_meets taken
        obtain ⟨rfl, differ⟩ := meets.store_of_finish rfl
        refine ⟨fun wrong => (by cases wrong), fun _ fits => ?_⟩
        rw [← same] at fits
        obtain ⟨a, b⟩ := pair
        have equal := (solves_cons.mp fits.2).1
        rw [fits.1.deref left, fits.1.deref right] at equal
        exact differ θ equal
  · exact Iff.rfl

theorem fits_start : Fits θ (s, [(l, r)]) ↔ s.Models θ ∧ l.subst θ = r.subst θ := by
  simp [Fits, Solves]

theorem models_unify {fuel : Nat} (done : s.unify fuel l r = some (true, t)) :
    t.Models θ ↔ s.Models θ ∧ l.subst θ = r.subst θ := by
  have fits := (fits_of_leads (θ := θ) (leads_of_unify done)).1 rfl
  calc
    t.Models θ ↔ Fits θ (s, [(l, r)]) := fits
    _ ↔ s.Models θ ∧ l.subst θ = r.subst θ := fits_start

theorem no_models_of_unify {fuel : Nat} (done : s.unify fuel l r = some (false, t))
    (model : s.Models θ) : l.subst θ ≠ r.subst θ := fun equal =>
  (fits_of_leads (leads_of_unify done)).2 rfl (fits_start.mpr ⟨model, equal⟩)

end Store

end LogicSearch
