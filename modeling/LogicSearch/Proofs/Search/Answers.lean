import LogicSearch.Proofs.Search.Request
import LogicSearch.Search.Run

namespace LogicSearch

variable {U : Type} [Plugin U] {registry : Registry U} {a : Activation U} {goal : Term}
  {m : Machine} {answers : List Machine} {ending : Option Run.End} {run : Run}

def Run.endOf (committed : Bool) : Run.End := if committed then .committed else .failed

/-- Asking the activation again and again gives these answers first, and nothing after them when
there is an end. -/
inductive Activation.Gives (registry : Registry U) :
    Activation U → Machine → List Machine → Option Run.End → Prop where
  | pause {a : Activation U} {m : Machine} : Gives registry a m [] none
  | answer {a a' : Activation U} {m m' : Machine} {answers : List Machine}
      {ending : Option Run.End} : Asks registry a m ⟨.ok true, a', m'⟩ →
      Gives registry a' m' answers ending → Gives registry a m (m' :: answers) ending
  | fails {a a' : Activation U} {m m' : Machine} : Asks registry a m ⟨.ok false, a', m'⟩ →
      Gives registry a m [] (some (Run.endOf a'.committed))
  | halts {a a' : Activation U} {m m' : Machine} {halt : Halt} :
      Asks registry a m ⟨.error halt, a', m'⟩ → Gives registry a m [] (some (.halted halt))

namespace Activation

theorem Gives.first {e : Run.End} (gives : Gives registry a m answers (some e)) :
    ∃ reply, Asks registry a m reply := by
  cases gives with
  | answer asked => exact ⟨_, asked⟩
  | fails asked => exact ⟨_, asked⟩
  | halts asked => exact ⟨_, asked⟩

theorem Gives.of_answer {a' : Activation U} {m' : Machine} {e : Run.End}
    (gives : Gives registry a m answers (some e)) (asked : Asks registry a m ⟨.ok true, a', m'⟩) :
    ∃ later, answers = m' :: later ∧ Gives registry a' m' later (some e) := by
  cases gives with
  | answer asked' later =>
      cases asked.unique asked'
      exact ⟨_, rfl, later⟩
  | fails asked' => cases asked.unique asked'
  | halts asked' => cases asked.unique asked'

theorem Gives.of_failure {a' : Activation U} {m' : Machine} {e : Run.End}
    (gives : Gives registry a m answers (some e)) (asked : Asks registry a m ⟨.ok false, a', m'⟩) :
    answers = [] ∧ e = Run.endOf a'.committed := by
  cases gives with
  | answer asked' => cases asked.unique asked'
  | fails asked' =>
      cases asked.unique asked'
      exact ⟨rfl, rfl⟩
  | halts asked' => cases asked.unique asked'

theorem Gives.of_halt {a' : Activation U} {m' : Machine} {halt : Halt} {e : Run.End}
    (gives : Gives registry a m answers (some e))
    (asked : Asks registry a m ⟨.error halt, a', m'⟩) :
    answers = [] ∧ e = .halted halt := by
  cases gives with
  | answer asked' => cases asked.unique asked'
  | fails asked' => cases asked.unique asked'
  | halts asked' =>
      cases asked.unique asked'
      exact ⟨rfl, rfl⟩

end Activation

open Activation (Asks Gives)

namespace Run

inductive Shows (registry : Registry U) (goal : Term) (m : Machine) :
    List Machine → Option End → Prop where
  | refused {halt : Halt} {m' : Machine} : registry.call goal m = some (.error halt, m') →
      Shows registry goal m [] (some (.halted halt))
  | called {a : Activation U} {m' : Machine} {answers : List Machine} {ending : Option End} :
      registry.call goal m = some (.ok a, m') → Gives registry a m' answers ending →
      Shows registry goal m answers ending

theorem Shows.cases (shown : Shows registry goal m answers ending) :
    (∃ halt m', registry.call goal m = some (.error halt, m') ∧ answers = [] ∧
      ending = some (.halted halt)) ∨
    ∃ a m', registry.call goal m = some (.ok a, m') ∧ Gives registry a m' answers ending := by
  cases shown with
  | refused called => exact .inl ⟨_, _, called, rfl, rfl⟩
  | called called gives => exact .inr ⟨_, _, called, gives⟩

/-- Calling the goal and driving it to its end returns with this run. -/
def Returns (registry : Registry U) (goal : Term) (m : Machine) (run : Run) : Prop :=
  ∃ fuel m', ofGoal registry fuel goal m = some (run, m')

inductive Asked (registry : Registry U) : List Machine × Activation U × Machine →
    Turn (List Machine × Activation U × Machine) (Run × Machine) → Prop where
  | answer {before : List Machine} {a a' : Activation U} {m m' : Machine} :
      Asks registry a m ⟨.ok true, a', m'⟩ →
      Asked registry (before, a, m) (.again (m' :: before, a', m'))
  | fails {before : List Machine} {a a' : Activation U} {m m' : Machine} :
      Asks registry a m ⟨.ok false, a', m'⟩ →
      Asked registry (before, a, m) (.finish (⟨before.reverse, endOf a'.committed⟩, m'))
  | halts {before : List Machine} {a a' : Activation U} {m m' : Machine} {halt : Halt} :
      Asks registry a m ⟨.error halt, a', m'⟩ →
      Asked registry (before, a, m) (.finish (⟨before.reverse, .halted halt⟩, m'))

theorem asked_of_step {fuel : Nat} {present : List Machine × Activation U × Machine}
    {turn : Turn (List Machine × Activation U × Machine) (Run × Machine)}
    (taken : step registry fuel present = some turn) : Asked registry present turn := by
  obtain ⟨before, a, m⟩ := present
  simp only [step] at taken
  split at taken
  · cases taken
  · rename_i asked
    cases taken
    exact .answer ⟨fuel, asked⟩
  · rename_i asked
    cases taken
    exact .fails ⟨fuel, asked⟩
  · rename_i asked
    cases taken
    exact .halts ⟨fuel, asked⟩

theorem step_of_asked {present : List Machine × Activation U × Machine}
    {turn : Turn (List Machine × Activation U × Machine) (Run × Machine)}
    (asked : Asked registry present turn) : ∃ fuel, step registry fuel present = some turn := by
  cases asked with
  | answer asked =>
      obtain ⟨fuel, asked⟩ := asked
      exact ⟨fuel, by simp only [step, asked]⟩
  | fails asked =>
      obtain ⟨fuel, asked⟩ := asked
      refine ⟨fuel, ?_⟩
      simp only [step, asked]
      rfl
  | halts asked =>
      obtain ⟨fuel, asked⟩ := asked
      exact ⟨fuel, by simp only [step, asked]⟩

theorem gives_of_leads {present : List Machine × Activation U × Machine} {result : Run × Machine}
    (leads : Turn.Leads (Asked registry) present result) :
    ∃ later, result.1.answers = present.1.reverse ++ later ∧
      Gives registry present.2.1 present.2.2 later (some result.1.ending) := by
  induction leads with
  | again asked _ ih =>
      obtain ⟨later, same, gives⟩ := ih
      cases asked with
      | answer asked =>
          refine ⟨_ :: later, ?_, .answer asked gives⟩
          simpa using same
  | finish asked =>
      cases asked with
      | fails asked => exact ⟨[], by simp, .fails asked⟩
      | halts asked => exact ⟨[], by simp, .halts asked⟩

theorem leads_of_gives {e : End} (gives : Gives registry a m answers (some e))
    (before : List Machine) :
    ∃ m', Turn.Leads (Asked registry) (before, a, m) (⟨before.reverse ++ answers, e⟩, m') := by
  generalize same : some e = ending at gives
  induction gives generalizing before with
  | pause => cases same
  | @answer _ _ _ m' _ _ asked _ ih =>
      obtain ⟨last, leads⟩ := ih (m' :: before) same
      exact ⟨last, .again (.answer asked) (by simpa using leads)⟩
  | fails asked =>
      cases same
      exact ⟨_, .finish (by simpa using Asked.fails asked)⟩
  | halts asked =>
      cases same
      exact ⟨_, .finish (by simpa using Asked.halts asked)⟩

theorem returns_iff_shows :
    Returns registry goal m run ↔ Shows registry goal m run.answers (some run.ending) := by
  constructor
  · rintro ⟨fuel, last, done⟩
    simp only [ofGoal] at done
    split at done
    · cases done
    · rename_i called
      cases done
      exact .refused called
    · rename_i called
      obtain ⟨later, same, gives⟩ := gives_of_leads
        (Turn.leads_of_iterate (fun _ _ => asked_of_step) done)
      rw [List.reverse_nil, List.nil_append] at same
      exact .called called (same ▸ gives)
  · intro shown
    obtain ⟨answers, e⟩ := run
    rcases shown.cases with ⟨halt, last, called, rfl, same⟩ | ⟨a, m', called, gives⟩
    · cases same
      exact ⟨0, last, by simp only [ofGoal, called]⟩
    · obtain ⟨last, leads⟩ := leads_of_gives gives []
      obtain ⟨fuel, done⟩ := Turn.iterate_of_leads (step registry)
        (fun enough => step_mono enough) (fun _ _ => step_of_asked) leads
      refine ⟨fuel, last, ?_⟩
      simp only [ofGoal, called]
      exact done

theorem Returns.cases (returned : Returns registry goal m run) :
    (∃ halt m', registry.call goal m = some (.error halt, m') ∧ run = ⟨[], .halted halt⟩) ∨
    ∃ a m', registry.call goal m = some (.ok a, m') ∧
      Gives registry a m' run.answers (some run.ending) := by
  obtain ⟨answers, e⟩ := run
  rcases (returns_iff_shows.mp returned).cases with ⟨halt, m', called, none, same⟩ | called
  · cases none
    cases same
    exact .inl ⟨halt, m', called, rfl⟩
  · exact .inr called

theorem Returns.gives {m' : Machine} (returned : Returns registry goal m run)
    (called : registry.call goal m = some (.ok a, m')) :
    Gives registry a m' run.answers (some run.ending) := by
  rcases returned.cases with ⟨_, _, refused, -⟩ | ⟨_, _, same, gives⟩
  · rw [called] at refused
    cases refused
  · rw [called] at same
    cases same
    exact gives

theorem returns_of_gives {m' : Machine} {e : End}
    (called : registry.call goal m = some (.ok a, m'))
    (gives : Gives registry a m' answers (some e)) : Returns registry goal m ⟨answers, e⟩ :=
  returns_iff_shows.mpr (.called called gives)

theorem returns_of_refused {m' : Machine} {halt : Halt}
    (called : registry.call goal m = some (.error halt, m')) :
    Returns registry goal m ⟨[], .halted halt⟩ :=
  returns_iff_shows.mpr (.refused called)

end Run

end LogicSearch
