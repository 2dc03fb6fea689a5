import LogicSearch.Proofs.Search.Answers

namespace LogicSearch

variable {U : Type} [Plugin U]

/-- The answers a combinator gives and its end, move by move. -/
inductive Traced {X : Type} (takes : X × Machine → Turn (X × Machine) (Reply Machine X) → Prop)
    (committed : X → Bool) : X → Machine → List Machine → Run.End → Prop where
  | again {x x' : X} {m m' : Machine} {answers : List Machine} {e : Run.End} :
      takes (x, m) (.again (x', m')) → Traced takes committed x' m' answers e →
      Traced takes committed x m answers e
  | answer {x x' : X} {m m' : Machine} {answers : List Machine} {e : Run.End} :
      takes (x, m) (.finish ⟨.ok true, x', m'⟩) → Traced takes committed x' m' answers e →
      Traced takes committed x m (m' :: answers) e
  | fails {x x' : X} {m m' : Machine} : takes (x, m) (.finish ⟨.ok false, x', m'⟩) →
      Traced takes committed x m [] (Run.endOf (committed x'))
  | halts {x x' : X} {m m' : Machine} {halt : Halt} :
      takes (x, m) (.finish ⟨.error halt, x', m'⟩) → Traced takes committed x m [] (.halted halt)

section Traced

variable {X : Type} {takes : X × Machine → Turn (X × Machine) (Reply Machine X) → Prop}
  {committed : X → Bool} {x : X} {m : Machine} {answers : List Machine} {e : Run.End}
  {registry : Registry U} {wrap : X → Activation U}

theorem traced_of_leads {r : Reply Machine X} (leads : Turn.Leads takes (x, m) r)
    (ends : ∀ x' m', takes (x', m') (.finish r) → Traced takes committed x' m' answers e) :
    Traced takes committed x m answers e := by
  generalize same : (x, m) = present at leads
  induction leads generalizing x m with
  | @again _ next _ taken _ ih =>
      subst same
      exact .again taken (ih ends rfl)
  | finish taken =>
      subst same
      exact ends x m taken

open Activation (Asks Gives)

theorem gives_iff_traced
    (asks : ∀ x m reply, Asks registry (wrap x) m reply ↔
      ∃ r, Turn.Leads takes (x, m) r ∧ reply = r.map wrap)
    (same : ∀ x, (wrap x).committed = committed x) :
    Gives registry (wrap x) m answers (some e) ↔ Traced takes committed x m answers e := by
  constructor
  · intro gives
    generalize outer : wrap x = a at gives
    generalize full : some e = ending at gives
    induction gives generalizing x with
    | pause => cases full
    | answer asked _ ih =>
        subst outer
        obtain ⟨⟨_, x', m'⟩, leads, equal⟩ := (asks _ _ _).mp asked
        cases equal
        exact traced_of_leads leads fun _ _ taken => .answer taken (ih rfl full)
    | fails asked =>
        subst outer
        obtain ⟨⟨_, x', m'⟩, leads, equal⟩ := (asks _ _ _).mp asked
        cases equal
        cases full
        rw [same]
        exact traced_of_leads leads fun _ _ taken => .fails taken
    | halts asked =>
        subst outer
        obtain ⟨⟨_, x', m'⟩, leads, equal⟩ := (asks _ _ _).mp asked
        cases equal
        cases full
        exact traced_of_leads leads fun _ _ taken => .halts taken
  · intro traced
    induction traced with
    | @again x x' m m' _ _ taken _ ih =>
        have earlier {reply} (asked : Asks registry (wrap x') m' reply) :
            Asks registry (wrap x) m reply := by
          obtain ⟨r, leads, equal⟩ := (asks _ _ _).mp asked
          exact (asks _ _ _).mpr ⟨r, .again taken leads, equal⟩
        cases ih with
        | answer asked later => exact .answer (earlier asked) later
        | fails asked => exact .fails (earlier asked)
        | halts asked => exact .halts (earlier asked)
    | answer taken _ ih => exact .answer ((asks _ _ _).mpr ⟨_, .finish taken, rfl⟩) ih
    | fails taken =>
        rw [← same]
        exact .fails ((asks _ _ _).mpr ⟨_, .finish taken, rfl⟩)
    | halts taken => exact .halts ((asks _ _ _).mpr ⟨_, .finish taken, rfl⟩)

end Traced

end LogicSearch
