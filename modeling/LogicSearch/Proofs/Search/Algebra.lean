import LogicSearch.Proofs.Search.Feeds

/-!
The algebra of control. Goals that feed every use alike have the same runs, so the laws of
conjunction and disjunction are equations between what their sides feed: a conjunction is a
composition of uses, a disjunction a join of runs.
-/

namespace LogicSearch

variable {U : Type} [Plugin U]

open Activation (Asks)
open Disjunction (Joins)
open Run (Feeds Returns Shows Single)

namespace Term

def both (l r : Term) : Term := compound .comma l [r]

def either (l r : Term) : Term := compound .semicolon l [r]

end Term

open Term (both either)

/-- Two goals are equivalent when a run of the one, from any machine, is one of the other: the same
answers in the same order, the same end, and both return or none does. -/
def Equivalent (U : Type) [Plugin U] (a b : Term) : Prop :=
  ∀ m run, Returns (Registry.builtins : Registry U) a m run ↔
    Returns (Registry.builtins : Registry U) b m run

variable {a b c : Term} {m : Machine} {run : Run} {uses : Machine → Run → Prop}

theorem equivalent_of_feeds (same : Feeds (Registry.builtins : Registry U) Single a =
    Feeds (Registry.builtins : Registry U) Single b) : Equivalent U a b := by
  intro m run
  rw [Run.returns_iff_feeds, Run.returns_iff_feeds, same]

theorem feeds_both (a b : Term) : Feeds (Registry.builtins : Registry U) uses (both a b) =
    Feeds (Registry.builtins : Registry U) (Feeds (Registry.builtins : Registry U) uses b) a := by
  funext m run
  exact propext Conjunction.feeds_iff

theorem feeds_either (a b : Term) : Feeds (Registry.builtins : Registry U) uses (either a b) =
    fun m => Joins (Feeds (Registry.builtins : Registry U) uses a m)
      (Feeds (Registry.builtins : Registry U) uses b m) := by
  funext m run
  exact propext Disjunction.feeds_iff

/-- A run after which the goal that led to it ends with plain failure or by a cut. -/
def Run.endingWith (front : Run) (committed : Bool) : Run :=
  if front.ending = .failed then ⟨front.answers, endOf committed⟩ else front

theorem feeds_test {goal : Term} {t : Test}
    (called : (Registry.builtins : Registry U).call goal m = some (.ok (.test t false), m))
    (holds : Asks (Registry.builtins : Registry U) (.test t false) m ⟨.ok true, .test t true, m⟩) :
    Feeds (Registry.builtins : Registry U) uses goal m run ↔
      ∃ front, uses m front ∧
        run = front.endingWith (Activation.test t true : Activation U).committed := by
  have last : Asks (Registry.builtins : Registry U) (.test t true) m
      ⟨.ok false, .test t true, m⟩ := ⟨1, rfl⟩
  constructor
  · intro feeds
    rcases feeds.cases with ⟨_, _, refused, -⟩ | ⟨_, _, started, answers, ending, gives, binds⟩
    · rw [called] at refused
      cases refused
    · rw [called] at started
      cases started
      cases binds with
      | ends =>
          cases gives with
          | fails asked => cases asked.unique holds
          | halts asked => cases asked.unique holds
      | @goOn _ _ front _ _ used binds =>
          cases gives with
          | answer asked gives =>
              cases asked.unique holds
              refine ⟨_, used, ?_⟩
              cases binds with
              | ends =>
                  obtain ⟨-, rfl⟩ := gives.of_failure last
                  simp [Run.endingWith]
              | goOn => cases gives with | answer asked => cases asked.unique last
              | stop => cases gives with | answer asked => cases asked.unique last
      | stop used other =>
          cases gives with
          | answer asked =>
              cases asked.unique holds
              exact ⟨run, used, by simp [Run.endingWith, other]⟩
  · rintro ⟨front, used, rfl⟩
    by_cases failed : front.ending = .failed
    · have feeds := Activation.Feeds.goOn holds used failed (.fails last)
      rw [List.append_nil] at feeds
      rw [Run.endingWith, if_pos failed]
      exact .called called feeds
    · rw [Run.endingWith, if_neg failed]
      exact .called called (.stop holds used failed)

theorem feeds_truth : Feeds (Registry.builtins : Registry U) uses (.atom .truth) = uses := by
  funext m run
  apply propext
  rw [feeds_test (t := .truth) rfl ⟨1, rfl⟩]
  have same (front : Run) :
      front.endingWith (Activation.test .truth true : Activation U).committed = front := by
    obtain ⟨answers, e⟩ := front
    simp only [Run.endingWith, Activation.committed, Run.endOf]
    split
    · rename_i failed
      rw [show e = .failed from failed]
      rfl
    · rfl
  simp only [same]
  constructor
  · rintro ⟨front, used, rfl⟩
    exact used
  · exact fun used => ⟨run, used, rfl⟩

theorem feeds_failure : Feeds (Registry.builtins : Registry U) uses (.atom .fail) =
    fun _ run => run = ⟨[], .failed⟩ := by
  funext m run
  apply propext
  have failed : Asks (Registry.builtins : Registry U) (.test .failure false) m
      ⟨.ok false, .test .failure true, m⟩ := ⟨1, rfl⟩
  constructor
  · rintro ⟨answers, ending, shown, binds⟩
    rcases shown.cases with ⟨_, _, called, -, -⟩ | ⟨_, _, called, gives⟩
    · cases called
    · cases called
      cases binds with
      | ends =>
          obtain ⟨-, rfl⟩ := gives.of_failure failed
          rfl
      | goOn => cases gives with | answer asked => cases asked.unique failed
      | stop => cases gives with | answer asked => cases asked.unique failed
  · rintro rfl
    exact .called rfl (.fails failed)

theorem feeds_single_cut :
    Feeds (Registry.builtins : Registry U) Single (.atom .cut) m run ↔
      run = ⟨[m], .committed⟩ := by
  rw [feeds_test (t := .cut) rfl ⟨1, rfl⟩]
  simp [Single, Run.endingWith, Activation.committed, Run.endOf]

section Joins

variable {p q r : Run → Prop}

theorem joins_failed_left : Joins (fun run => run = ⟨[], .failed⟩) p run ↔ p run := by
  constructor
  · rintro (⟨_, back, same, right, rfl⟩ | ⟨other, same⟩)
    · cases same
      exact right
    · cases same
      exact (other rfl).elim
  · intro right
    exact .inl ⟨[], run, rfl, right, rfl⟩

theorem joins_failed_right : Joins p (fun run => run = ⟨[], .failed⟩) run ↔ p run := by
  constructor
  · rintro (⟨front, _, left, rfl, rfl⟩ | ⟨-, left⟩)
    · rw [List.append_nil]
      exact left
    · exact left
  · intro left
    by_cases failed : run.ending = .failed
    · obtain ⟨answers, e⟩ := run
      cases failed
      exact .inl ⟨answers, _, left, rfl, by simp⟩
    · exact .inr ⟨failed, left⟩

theorem joins_assoc : Joins (Joins p q) r run ↔ Joins p (Joins q r) run := by
  constructor
  · rintro (⟨_, back, (⟨front, mid, left, middle, same⟩ | ⟨other, -⟩), right, rfl⟩ |
      ⟨other, (⟨front, mid, left, middle, rfl⟩ | ⟨-, left⟩)⟩)
    · obtain ⟨middle_answers, e⟩ := mid
      cases same
      exact .inl ⟨front, _, left, .inl ⟨_, back, middle, right, rfl⟩, by simp⟩
    · exact (other rfl).elim
    · exact .inl ⟨front, mid, left, .inr ⟨other, middle⟩, rfl⟩
    · exact .inr ⟨other, left⟩
  · rintro (⟨front, _, left, (⟨mid, back, middle, right, rfl⟩ | ⟨other, middle⟩), rfl⟩ |
      ⟨other, left⟩)
    · exact .inl ⟨front ++ mid, back, .inl ⟨front, _, left, middle, rfl⟩, right, by simp⟩
    · exact .inr ⟨other, .inl ⟨front, _, left, middle, rfl⟩⟩
    · exact .inr ⟨other, .inr ⟨other, left⟩⟩

end Joins

theorem both_assoc (a b c : Term) : Equivalent U (both (both a b) c) (both a (both b c)) := by
  apply equivalent_of_feeds
  simp only [feeds_both]

theorem either_assoc (a b c : Term) :
    Equivalent U (either (either a b) c) (either a (either b c)) := by
  apply equivalent_of_feeds
  simp only [feeds_either]
  funext m run
  exact propext joins_assoc

theorem truth_both (a : Term) : Equivalent U (both (.atom .truth) a) a := by
  apply equivalent_of_feeds
  rw [feeds_both, feeds_truth]

theorem both_truth (a : Term) : Equivalent U (both a (.atom .truth)) a := by
  apply equivalent_of_feeds
  rw [feeds_both, feeds_truth]

theorem failure_either (a : Term) : Equivalent U (either (.atom .fail) a) a := by
  apply equivalent_of_feeds
  rw [feeds_either, feeds_failure]
  funext m run
  exact propext joins_failed_left

theorem either_failure (a : Term) : Equivalent U (either a (.atom .fail)) a := by
  apply equivalent_of_feeds
  rw [feeds_either, feeds_failure]
  funext m run
  exact propext joins_failed_right

theorem either_both (a b c : Term) :
    Equivalent U (both (either a b) c) (either (both a c) (both b c)) := by
  apply equivalent_of_feeds
  rw [feeds_both, feeds_either, feeds_either, feeds_both, feeds_both]

theorem returns_both_cut :
    Returns (Registry.builtins : Registry U) (both a (.atom .cut)) m run ↔
      (∃ first, Shows (Registry.builtins : Registry U) a m [first] none ∧
        run = ⟨[first], .committed⟩) ∨
      (run.answers = [] ∧ Returns (Registry.builtins : Registry U) a m run) := by
  rw [Run.returns_iff_feeds, feeds_both]
  constructor
  · rintro ⟨answers, ending, shown, binds⟩
    cases binds with
    | ends => exact .inr ⟨rfl, Run.returns_iff_shows.mpr shown⟩
    | goOn used => cases feeds_single_cut.mp used
    | @stop first _ _ _ used =>
        cases feeds_single_cut.mp used
        rcases shown.cases with ⟨_, _, -, same, -⟩ | ⟨_, _, called, gives⟩
        · cases same
        · cases gives with
          | answer asked => exact .inl ⟨first, .called called (.answer asked .pause), rfl⟩
  · rintro (⟨first, shown, rfl⟩ | ⟨none, returned⟩)
    · exact ⟨[first], none, shown, .stop (feeds_single_cut.mpr rfl) (by simp)⟩
    · obtain ⟨answers, e⟩ := run
      cases none
      exact ⟨[], some e, Run.returns_iff_shows.mp returned, .ends⟩

/-- The algebra of control, for all goals, with cuts, errors and shared variables allowed:
conjunction and disjunction are associative, truth and failure are their units, conjunction
distributes over a disjunction on its left, and a cut keeps the first answer. -/
theorem control_laws (a b c : Term) :
    Equivalent U (both (both a b) c) (both a (both b c)) ∧
    Equivalent U (either (either a b) c) (either a (either b c)) ∧
    Equivalent U (both (.atom .truth) a) a ∧
    Equivalent U (both a (.atom .truth)) a ∧
    Equivalent U (either (.atom .fail) a) a ∧
    Equivalent U (either a (.atom .fail)) a ∧
    Equivalent U (both (either a b) c) (either (both a c) (both b c)) ∧
    ∀ m run, Returns (Registry.builtins : Registry U) (both a (.atom .cut)) m run ↔
      (∃ first, Shows (Registry.builtins : Registry U) a m [first] none ∧
        run = ⟨[first], .committed⟩) ∨
      (run.answers = [] ∧ Returns (Registry.builtins : Registry U) a m run) :=
  ⟨both_assoc a b c, either_assoc a b c, truth_both a, both_truth a, failure_either a,
    either_failure a, either_both a b c, fun _ _ => returns_both_cut⟩

end LogicSearch
