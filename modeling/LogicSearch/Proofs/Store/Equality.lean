import LogicSearch.Proofs.Store.Terminates

namespace LogicSearch

namespace Store

variable {s : Store} {l r : Term} {pending : List (Term × Term)} {θ : Assignment} {x : Var}
  {turn : Turn (List (Term × Term)) Bool}

theorem trees_of_free (free : s.lookup x = none) : s.trees x = .var x := by
  simp [trees, treeOfVar?_of_free free]

theorem trees_ne_var (free : s.lookup x = none) (value : ∀ v, l ≠ .var v) :
    l.subst s.trees ≠ (Term.var x).subst s.trees := by
  intro equal
  rw [Term.subst, trees_of_free free] at equal
  cases l with
  | var v => exact value v rfl
  | _ => cases equal

/-- What comparing of two terms at the ends of their chains leads to. -/
inductive Compares (s : Store) (pending : List (Term × Term)) :
    Term → Term → Turn (List (Term × Term)) Bool → Prop where
  | same {t : Term} : Compares s pending t t (.again pending)
  | args {f : Atom} {a b : Term} {as bs : List Term} :
      as.length = bs.length → Compares s pending (.compound f a as) (.compound f b bs)
        (.again ((a, b) :: as.zip bs ++ pending))
  | differ {t u : Term} :
      t.subst s.trees ≠ u.subst s.trees → Compares s pending t u (.finish false)

theorem compareEnds_compares (leftEnd : s.IsEnd l) (rightEnd : s.IsEnd r) :
    Compares s pending l r (compareEnds pending l r) := by
  cases l with
  | var x =>
      cases r with
      | var y =>
          by_cases same : x = y
          · subst same
            simp only [compareEnds, if_true]
            exact .same
          · simp only [compareEnds, if_neg same]
            refine .differ fun equal => same ?_
            simp only [Term.subst] at equal
            rw [trees_of_free leftEnd, trees_of_free rightEnd] at equal
            injection equal
      | _ => exact .differ (trees_ne_var leftEnd (by simp)).symm
  | atom a =>
      cases r with
      | var y => exact .differ (trees_ne_var rightEnd (by simp))
      | atom b =>
          by_cases same : a = b
          · subst same
            simp only [compareEnds, if_true]
            exact .same
          · simp only [compareEnds, if_neg same]
            exact .differ fun equal => same (by injection equal)
      | _ => exact .differ fun equal => by injection equal
  | int a =>
      cases r with
      | var y => exact .differ (trees_ne_var rightEnd (by simp))
      | int b =>
          by_cases same : a = b
          · subst same
            simp only [compareEnds, if_true]
            exact .same
          · simp only [compareEnds, if_neg same]
            exact .differ fun equal => same (by injection equal)
      | _ => exact .differ fun equal => by injection equal
  | compound f a as =>
      cases r with
      | var y => exact .differ (trees_ne_var rightEnd (by simp))
      | compound g b bs =>
          by_cases shape : f = g ∧ as.length = bs.length
          · simp only [compareEnds, if_pos shape]
            obtain ⟨rfl, length⟩ := shape
            exact .args length
          · simp only [compareEnds, if_neg shape]
            exact .differ fun equal => shape (Term.shape_of_subst_eq equal)
      | _ => exact .differ fun equal => by injection equal

inductive Compared (s : Store) :
    List (Term × Term) → Turn (List (Term × Term)) Bool → Prop where
  | nil : Compared s [] (.finish true)
  | pair {a b l r : Term} {pending : List (Term × Term)} {turn : Turn (List (Term × Term)) Bool} :
      s.deref a = some l → s.deref b = some r → Compares s pending l r turn →
      Compared s ((a, b) :: pending) turn

theorem equalStep_compared (taken : s.equalStep pending = some turn) :
    Compared s pending turn := by
  cases pending with
  | nil =>
      cases taken
      exact .nil
  | cons pair pending =>
      simp only [equalStep] at taken
      split at taken
      · rename_i l r left right
        cases taken
        refine .pair left right ?_
        by_cases same : pair.1.sameVar pair.2 = true
        · rw [if_pos same, ends_eq_of_sameVar same left right]
          exact .same
        · rw [if_neg same]
          exact compareEnds_compares (deref_isEnd left) (deref_isEnd right)
      · cases taken

theorem equalStep_returns (chains : s.ChainsEnd) (pending : List (Term × Term)) :
    ∃ turn, s.equalStep pending = some turn := by
  cases pending with
  | nil => exact ⟨_, rfl⟩
  | cons pair pending =>
      obtain ⟨l, left⟩ := chains pair.1
      obtain ⟨r, right⟩ := chains pair.2
      simp only [equalStep, left, right]
      exact ⟨_, rfl⟩

theorem Compares.descends (compares : Compares s pending l r turn) {next : List (Term × Term)}
    (again : turn = .again next) :
    (Solves s.trees next ↔ Solves s.trees ((l, r) :: pending)) ∧
      weight s.trees next < weight s.trees ((l, r) :: pending) := by
  cases compares with
  | same =>
      cases again
      exact ⟨by simp [solves_cons], weight_rest_lt⟩
  | args length =>
      cases again
      refine ⟨?_, weight_args_lt⟩
      rw [solves_cons, ← List.zip_cons_cons, solves_append, solves_zip (by simpa using length),
        subst_compound_eq]
  | differ => cases again

theorem Compared.descends {next : List (Term × Term)} (acyclic : s.Acyclic)
    (compared : Compared s pending (.again next)) :
    (Solves s.trees next ↔ Solves s.trees pending) ∧
      weight s.trees next < weight s.trees pending := by
  have model := acyclic.models_trees
  cases compared with
  | pair left right compares =>
      obtain ⟨solves, smaller⟩ := compares.descends rfl
      rw [solves_cons, ← model.deref left, ← model.deref right, ← solves_cons] at solves
      rw [weight_cons, ← model.deref left] at smaller
      exact ⟨solves, smaller⟩

theorem Compared.answer {answer : Bool} (acyclic : s.Acyclic)
    (compared : Compared s pending (.finish answer)) :
    answer = true ↔ Solves s.trees pending := by
  have model := acyclic.models_trees
  cases compared with
  | nil => simp [Solves]
  | pair left right compares =>
      cases compares with
      | differ differ =>
          rw [solves_cons, model.deref left, model.deref right]
          simp [differ]

theorem leads_of_compared {State : Type} {takes : State → Turn State Bool → Prop}
    (pairs : State → List (Term × Term)) (acyclic : s.Acyclic)
    (returns : ∀ a, ∃ turn, takes a turn)
    (compared : ∀ a turn, takes a turn → Compared s (pairs a) (turn.map pairs id)) (a : State) :
    ∃ answer, Turn.Leads takes a answer ∧ (answer = true ↔ Solves s.trees (pairs a)) := by
  have ends : ∃ answer, Turn.Leads takes a answer := by
    apply Turn.leads_of_descends (fun a => weight s.trees (pairs a)) (fun _ => True)
    · exact fun a _ => returns a
    · exact fun a next _ taken => ⟨trivial, ((compared a _ taken).descends acyclic).2⟩
    · trivial
  obtain ⟨answer, leads⟩ := ends
  refine ⟨answer, leads, ?_⟩
  apply leads.invariant (fun now => Solves s.trees (pairs now) ↔ Solves s.trees (pairs a))
    (fun answer => answer = true ↔ Solves s.trees (pairs a))
  · exact fun now next same taken => ((compared now _ taken).descends acyclic).1.trans same
  · exact fun now answer same taken => ((compared now _ taken).answer acyclic).trans same
  · exact Iff.rfl

/-- Comparing tells whether two terms stand for the same tree. -/
theorem equal_of_acyclic (acyclic : s.Acyclic) (l r : Term) :
    ∃ fuel, s.equal fuel l r = some (decide (s.tree? l = s.tree? r)) := by
  obtain ⟨answer, leads, exact⟩ := leads_of_compared id acyclic
    (equalStep_returns acyclic.chainsEnd)
    (fun pending turn taken => by cases turn <;> exact equalStep_compared taken) [(l, r)]
  obtain ⟨fuel, done⟩ := Turn.leads_iff.mp leads
  have same : answer = decide (s.tree? l = s.tree? r) := by
    rw [Bool.eq_iff_iff, decide_eq_true_iff, acyclic.tree?, acyclic.tree?, exact]
    simp [Solves]
  exact ⟨fuel, by rw [← same]; exact done⟩

theorem equal_of_trees (acyclic : s.Acyclic) (l r : Term) :
    ∃ fuel, s.equal fuel l r = some (decide (l.subst s.trees = r.subst s.trees)) := by
  obtain ⟨fuel, done⟩ := equal_of_acyclic acyclic l r
  have same : (s.tree? l = s.tree? r) ↔ l.subst s.trees = r.subst s.trees := by
    rw [acyclic.tree?, acyclic.tree?, Option.some_inj]
  exact ⟨fuel, by rw [done, decide_eq_decide.mpr same]⟩

def IsEqual (s : Store) (l r : Term) : Prop := ∃ fuel, s.equal fuel l r = some true

theorem isEqual_iff (acyclic : s.Acyclic) :
    s.IsEqual l r ↔ l.subst s.trees = r.subst s.trees := by
  obtain ⟨more, answer⟩ := equal_of_trees acyclic l r
  constructor
  · rintro ⟨fuel, equal⟩
    have left := equal_mono (Nat.le_max_left fuel more) equal
    have right := equal_mono (Nat.le_max_right fuel more) answer
    rw [left] at right
    simpa using right
  · intro same
    exact ⟨more, by rw [answer, decide_eq_true same]⟩

end Store

end LogicSearch
