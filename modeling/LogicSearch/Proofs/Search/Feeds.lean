import LogicSearch.Proofs.Search.Laws

/-!
Goals that feed what comes after them. The meaning of a goal is taken relative to the use that is
made of each answer: the runs of the uses follow one another until one of them does not end by plain
failure. In this form the meaning of a conjunction is that of its left goal, fed into that of its
right goal, and nothing has to be said about searches that are left before their end.
-/

namespace LogicSearch

variable {U : Type} [Plugin U]

open Activation (Asks Gives Holds protocol)
open Conjunction (Binds)
open Run (Returns Shows)

/-- The run of a goal whose answers are used one after the other. -/
def Activation.Feeds (registry : Registry U) (uses : Machine → Run → Prop) (a : Activation U)
    (m : Machine) (run : Run) : Prop :=
  ∃ answers ending, Gives registry a m answers ending ∧ Binds uses answers ending run

def Run.Feeds (registry : Registry U) (uses : Machine → Run → Prop) (goal : Term) (m : Machine)
    (run : Run) : Prop :=
  ∃ answers ending, Shows registry goal m answers ending ∧ Binds uses answers ending run

def Run.Single (m : Machine) (run : Run) : Prop := run = ⟨[m], .failed⟩

section Steps

variable {registry : Registry U} {uses : Machine → Run → Prop} {a b : Activation U} {goal : Term}
  {m m' : Machine} {front run : Run} {halt : Halt}

namespace Activation

theorem Feeds.goOn (asked : Asks registry a m ⟨.ok true, b, m'⟩) (used : uses m' front)
    (failed : front.ending = .failed) (later : b.Feeds registry uses m' run) :
    a.Feeds registry uses m ⟨front.answers ++ run.answers, run.ending⟩ := by
  obtain ⟨answers, ending, gives, binds⟩ := later
  obtain ⟨front, e⟩ := front
  cases failed
  exact ⟨m' :: answers, ending, .answer asked gives, .goOn used binds⟩

theorem Feeds.stop (asked : Asks registry a m ⟨.ok true, b, m'⟩) (used : uses m' run)
    (other : run.ending ≠ .failed) : a.Feeds registry uses m run :=
  ⟨[m'], none, .answer asked .pause, .stop used other⟩

theorem Feeds.fails (asked : Asks registry a m ⟨.ok false, b, m'⟩) :
    a.Feeds registry uses m ⟨[], Run.endOf b.committed⟩ :=
  ⟨[], _, .fails asked, .ends⟩

theorem Feeds.halts (asked : Asks registry a m ⟨.error halt, b, m'⟩) :
    a.Feeds registry uses m ⟨[], .halted halt⟩ :=
  ⟨[], _, .halts asked, .ends⟩

end Activation

namespace Run

theorem Feeds.refused (called : registry.call goal m = some (.error halt, m')) :
    Feeds registry uses goal m ⟨[], .halted halt⟩ :=
  ⟨[], _, .refused called, .ends⟩

theorem Feeds.called (called : registry.call goal m = some (.ok a, m'))
    (feeds : a.Feeds registry uses m' run) : Feeds registry uses goal m run := by
  obtain ⟨answers, ending, gives, binds⟩ := feeds
  exact ⟨answers, ending, .called called gives, binds⟩

theorem Feeds.cases (feeds : Feeds registry uses goal m run) :
    (∃ halt m', registry.call goal m = some (.error halt, m') ∧ run = ⟨[], .halted halt⟩) ∨
    ∃ a m', registry.call goal m = some (.ok a, m') ∧ a.Feeds registry uses m' run := by
  obtain ⟨answers, ending, shown, binds⟩ := feeds
  rcases shown.cases with ⟨halt, m', called, rfl, rfl⟩ | ⟨a, m', called, gives⟩
  · cases binds
    exact .inl ⟨halt, m', called, rfl⟩
  · exact .inr ⟨a, m', called, answers, ending, gives, binds⟩

theorem returns_iff_feeds : Returns registry goal m run ↔ Feeds registry Single goal m run := by
  rw [returns_iff_shows]
  have all (answers : List Machine) (e : End) : Binds Single answers (some e) ⟨answers, e⟩ := by
    induction answers with
    | nil => exact .ends
    | cons m answers ih =>
        have used : Single m ⟨[m], .failed⟩ := rfl
        exact .goOn used ih
  constructor
  · intro shown
    exact ⟨_, _, shown, all _ _⟩
  · rintro ⟨answers, ending, shown, binds⟩
    have same : answers = run.answers ∧ ending = some run.ending := by
      clear shown
      induction binds with
      | ends => exact ⟨rfl, rfl⟩
      | goOn used _ ih =>
          cases used
          exact ⟨by rw [ih.1]; rfl, ih.2⟩
      | stop used other =>
          cases used
          exact (other rfl).elim
    rw [← same.1, ← same.2]
    exact shown

end Run

end Steps

inductive Fed {X : Type} (takes : X × Machine → Turn (X × Machine) (Reply Machine X) → Prop)
    (committed : X → Bool) (uses : Machine → Run → Prop) : X → Machine → Run → Prop where
  | again {x x' : X} {m m' : Machine} {run : Run} : takes (x, m) (.again (x', m')) →
      Fed takes committed uses x' m' run → Fed takes committed uses x m run
  | goOn {x x' : X} {m m' : Machine} {front : List Machine} {run : Run} :
      takes (x, m) (.finish ⟨.ok true, x', m'⟩) → uses m' ⟨front, .failed⟩ →
      Fed takes committed uses x' m' run →
      Fed takes committed uses x m ⟨front ++ run.answers, run.ending⟩
  | stop {x x' : X} {m m' : Machine} {run : Run} : takes (x, m) (.finish ⟨.ok true, x', m'⟩) →
      uses m' run → run.ending ≠ .failed → Fed takes committed uses x m run
  | fails {x x' : X} {m m' : Machine} : takes (x, m) (.finish ⟨.ok false, x', m'⟩) →
      Fed takes committed uses x m ⟨[], Run.endOf (committed x')⟩
  | halts {x x' : X} {m m' : Machine} {halt : Halt} :
      takes (x, m) (.finish ⟨.error halt, x', m'⟩) →
      Fed takes committed uses x m ⟨[], .halted halt⟩

section Fed

variable {X : Type} {takes : X × Machine → Turn (X × Machine) (Reply Machine X) → Prop}
  {committed : X → Bool} {uses : Machine → Run → Prop} {x : X} {m : Machine} {run : Run}
  {registry : Registry U} {wrap : X → Activation U}

theorem fed_of_leads {r : Reply Machine X} (leads : Turn.Leads takes (x, m) r)
    (ends : ∀ x' m', takes (x', m') (.finish r) → Fed takes committed uses x' m' run) :
    Fed takes committed uses x m run := by
  generalize same : (x, m) = present at leads
  induction leads generalizing x m with
  | again taken _ ih =>
      subst same
      exact .again taken (ih ends rfl)
  | finish taken =>
      subst same
      exact ends x m taken

theorem feeds_iff_fed
    (asks : ∀ x m reply, Asks registry (wrap x) m reply ↔
      ∃ r, Turn.Leads takes (x, m) r ∧ reply = r.map wrap)
    (same : ∀ x, (wrap x).committed = committed x) :
    (wrap x).Feeds registry uses m run ↔ Fed takes committed uses x m run := by
  constructor
  · rintro ⟨answers, ending, gives, binds⟩
    induction binds generalizing x m with
    | ends =>
        cases gives with
        | fails asked =>
            obtain ⟨⟨_, x', m'⟩, leads, equal⟩ := (asks _ _ _).mp asked
            cases equal
            rw [same]
            exact fed_of_leads leads fun _ _ taken => .fails taken
        | halts asked =>
            obtain ⟨⟨_, x', m'⟩, leads, equal⟩ := (asks _ _ _).mp asked
            cases equal
            exact fed_of_leads leads fun _ _ taken => .halts taken
    | goOn used _ ih =>
        cases gives with
        | answer asked later =>
            obtain ⟨⟨_, x', m'⟩, leads, equal⟩ := (asks _ _ _).mp asked
            cases equal
            exact fed_of_leads leads fun _ _ taken => .goOn taken used (ih later)
    | stop used other =>
        cases gives with
        | answer asked =>
            obtain ⟨⟨_, x', m'⟩, leads, equal⟩ := (asks _ _ _).mp asked
            cases equal
            exact fed_of_leads leads fun _ _ taken => .stop taken used other
  · intro fed
    induction fed with
    | @again x x' m m' _ taken _ ih =>
        have earlier {reply} (asked : Asks registry (wrap x') m' reply) :
            Asks registry (wrap x) m reply := by
          obtain ⟨r, leads, equal⟩ := (asks _ _ _).mp asked
          exact (asks _ _ _).mpr ⟨r, .again taken leads, equal⟩
        obtain ⟨answers, ending, gives, binds⟩ := ih
        refine ⟨answers, ending, ?_, binds⟩
        cases gives with
        | pause => exact .pause
        | answer asked later => exact .answer (earlier asked) later
        | fails asked => exact .fails (earlier asked)
        | halts asked => exact .halts (earlier asked)
    | goOn taken used _ ih => exact .goOn ((asks _ _ _).mpr ⟨_, .finish taken, rfl⟩) used rfl ih
    | stop taken used other => exact .stop ((asks _ _ _).mpr ⟨_, .finish taken, rfl⟩) used other
    | fails taken =>
        rw [← same]
        exact .fails ((asks _ _ _).mpr ⟨_, .finish taken, rfl⟩)
    | halts taken => exact .halts ((asks _ _ _).mpr ⟨_, .finish taken, rfl⟩)

end Fed

namespace Conjunction

variable {l r : Term} {g below : Activation U} {m : Machine} {run front : Run} {t : Store}
  {uses : Machine → Run → Prop}

abbrev FedBy (uses : Machine → Run → Prop) (c : Conjunction (Activation U)) :
    Machine → Run → Prop :=
  Fed (Moves (protocol Registry.builtins)) committed uses c

def FeedsLeft (uses : Machine → Run → Prop) (r : Term) (g : Activation U) (m : Machine)
    (run : Run) : Prop :=
  g.Feeds Registry.builtins (Run.Feeds (Registry.builtins : Registry U) uses r) m run

def Feeding (uses : Machine → Run → Prop) (c : Conjunction (Activation U)) (m : Machine)
    (run : Run) : Prop :=
  match c.phase with
  | .fresh => Run.Feeds (Registry.builtins : Registry U)
      (Run.Feeds (Registry.builtins : Registry U) uses c.right) c.left m run
  | .left g => FeedsLeft uses c.right g m run
  | .right below g => ∀ t, Holds anywhere t g m.store →
      ∃ front, g.Feeds Registry.builtins uses m front ∧
        ((front.ending ≠ .failed ∧ run = front) ∨
          (front.ending = .failed ∧ ∃ back, FeedsLeft uses c.right below (m.withStore t) back ∧
            run = ⟨front.answers ++ back.answers, back.ending⟩))
  | .done committed => run = ⟨[], Run.endOf committed⟩

theorem feeding_of_fed {c : Conjunction (Activation U)} (fed : c.FedBy uses m run) :
    c.Feeding uses m run := by
  induction fed with
  | again moves _ ih =>
      cases moves with
      | calls called => exact .called called ih
      | leftAnswers asked called =>
          obtain ⟨rfl, holds⟩ := started_of_call called
          obtain ⟨front, feeds, ⟨other, rfl⟩ | ⟨failed, back, later, rfl⟩⟩ := ih _ holds
          · exact .stop asked (.called called feeds) other
          · exact .goOn asked (.called called feeds) failed later
      | rightFails asked cut =>
          intro t holds
          obtain rfl := (holds.asks asked).state
          have ended : Activation.Feeds _ uses _ _ _ := .fails asked
          rw [show Activation.committed _ = false from cut] at ended
          exact ⟨_, ended, .inr ⟨rfl, _, ih, rfl⟩⟩
  | goOn moves used _ ih =>
      cases moves with
      | rightAnswers asked =>
          intro t holds
          have kept := holds.asks asked
          obtain ⟨front, feeds, rest⟩ := ih t kept.holds
          refine ⟨_, .goOn asked used rfl feeds, ?_⟩
          rcases rest with ⟨other, rfl⟩ | ⟨failed, back, later, rfl⟩
          · exact .inl ⟨other, rfl⟩
          · rw [Machine.withStore_eq kept.journal t] at later
            exact .inr ⟨failed, back, later, by simp⟩
  | stop moves used other =>
      cases moves with
      | rightAnswers asked =>
          intro t holds
          exact ⟨_, .stop asked used other, .inl ⟨other, rfl⟩⟩
  | fails moves =>
      cases moves with
      | done => rfl
      | leftFails asked => exact .fails asked
      | rightCommits asked cut =>
          intro t holds
          have ended : Activation.Feeds _ uses _ _ _ := .fails asked
          rw [show Activation.committed _ = true from cut] at ended
          exact ⟨_, ended, .inl ⟨by simp [Run.endOf], rfl⟩⟩
  | halts moves =>
      cases moves with
      | refused called => exact .refused called
      | leftHalts asked => exact .halts asked
      | rightRefused asked called => exact .stop asked (.refused called) (by simp)
      | rightHalts asked =>
          intro t holds
          exact ⟨_, .halts asked, .inl ⟨by simp, rfl⟩⟩

theorem fed_right (feeds : g.Feeds Registry.builtins uses m front)
    (holds : Holds anywhere t g m.store) :
    (front.ending ≠ .failed → FedBy uses ⟨l, r, .right below g⟩ m front) ∧
    (front.ending = .failed → ∀ back, FedBy uses ⟨l, r, .left below⟩ (m.withStore t) back →
      FedBy uses ⟨l, r, .right below g⟩ m ⟨front.answers ++ back.answers, back.ending⟩) := by
  obtain ⟨answers, ending, gives, binds⟩ := feeds
  induction binds generalizing g m with
  | ends =>
      cases gives with
      | @fails _ g' _ _ asked =>
          obtain rfl := (holds.asks asked).state
          cases cut : g'.committed with
          | true =>
              refine ⟨fun _ => ?_, fun ends => by simp [Run.endOf] at ends⟩
              exact .fails (Moves.rightCommits asked cut)
          | false =>
              refine ⟨fun other => (other rfl).elim, fun _ back later => ?_⟩
              exact .again (.rightFails asked cut) later
      | halts asked => exact ⟨fun _ => .halts (.rightHalts asked), fun ends => by cases ends⟩
  | goOn used _ ih =>
      cases gives with
      | answer asked later =>
          have kept := holds.asks asked
          obtain ⟨other, failed⟩ := ih kept.holds later
          refine ⟨fun ends => .goOn (.rightAnswers asked) used (other ends),
            fun ends back rest => ?_⟩
          rw [← Machine.withStore_eq kept.journal t] at rest
          have whole := Fed.goOn (Moves.rightAnswers asked) used (failed ends back rest)
          rw [← List.append_assoc] at whole
          exact whole
  | stop used other =>
      cases gives with
      | answer asked =>
          exact ⟨fun _ => .stop (.rightAnswers asked) used other, fun ends => (other ends).elim⟩

theorem fed_left {answers : List Machine} {ending : Option Run.End}
    (binds : Binds (Run.Feeds (Registry.builtins : Registry U) uses r) answers ending run)
    (gives : Gives Registry.builtins g m answers ending) :
    FedBy uses ⟨l, r, .left g⟩ m run := by
  induction binds generalizing g m with
  | ends =>
      cases gives with
      | fails asked => exact .fails (Moves.leftFails asked)
      | halts asked => exact .halts (.leftHalts asked)
  | goOn fed _ ih =>
      cases gives with
      | answer asked later =>
          rcases fed.cases with ⟨_, _, -, same⟩ | ⟨_, _, called, feeds⟩
          · cases same
          · obtain ⟨rfl, holds⟩ := started_of_call called
            exact .again (.leftAnswers asked called) ((fed_right feeds holds).2 rfl _ (ih later))
  | stop fed other =>
      cases gives with
      | answer asked later =>
          rcases fed.cases with ⟨_, _, called, rfl⟩ | ⟨_, _, called, feeds⟩
          · exact .halts (.rightRefused asked called)
          · obtain ⟨rfl, holds⟩ := started_of_call called
            exact .again (.leftAnswers asked called) ((fed_right feeds holds).1 other)

/-- A conjunction is its left goal, fed into its right one. -/
theorem feeds_iff : Run.Feeds (Registry.builtins : Registry U) uses (.compound .comma l [r]) m run ↔
    Run.Feeds (Registry.builtins : Registry U)
      (Run.Feeds (Registry.builtins : Registry U) uses r) l m run := by
  have moves {c : Conjunction (Activation U)} {m : Machine} {run : Run} :
      (Activation.conjunction c).Feeds Registry.builtins uses m run ↔ c.FedBy uses m run :=
    feeds_iff_fed (fun _ _ _ => Activation.asks_conjunction)
      fun _ => by simp only [Activation.committed]
  constructor
  · intro feeds
    rcases feeds.cases with ⟨_, _, called, -⟩ | ⟨_, _, called, feeds⟩
    · cases called
    · cases called
      exact feeding_of_fed (moves.mp feeds)
  · intro feeds
    refine .called (call_comma l r m) (moves.mpr ?_)
    rcases feeds.cases with ⟨_, _, called, rfl⟩ | ⟨_, _, called, _, _, gives, binds⟩
    · exact .halts (.refused called)
    · exact .again (.calls called) (fed_left binds gives)

end Conjunction

namespace Disjunction

variable {l r : Term} {g : Activation U} {m : Machine} {run : Run} {t : Store}
  {uses : Machine → Run → Prop}

abbrev FedBy (uses : Machine → Run → Prop) (d : Disjunction (Activation U)) :
    Machine → Run → Prop :=
  Fed (Moves (protocol Registry.builtins)) committed uses d

def Feeding (uses : Machine → Run → Prop) (d : Disjunction (Activation U)) (m : Machine)
    (run : Run) : Prop :=
  match d.phase with
  | .fresh => Joins (Run.Feeds (Registry.builtins : Registry U) uses d.left m)
      (Run.Feeds (Registry.builtins : Registry U) uses d.right m) run
  | .left g => ∀ t, Holds anywhere t g m.store →
      Joins (g.Feeds Registry.builtins uses m)
        (Run.Feeds (Registry.builtins : Registry U) uses d.right (m.withStore t)) run
  | .between => Run.Feeds (Registry.builtins : Registry U) uses d.right m run
  | .right g => g.Feeds Registry.builtins uses m run
  | .done committed => run = ⟨[], Run.endOf committed⟩

theorem feeding_of_fed {d : Disjunction (Activation U)} (fed : d.FedBy uses m run) :
    d.Feeding uses m run := by
  induction fed with
  | again moves _ ih =>
      cases moves with
      | calls called =>
          obtain ⟨rfl, holds⟩ := started_of_call called
          rcases ih _ holds with ⟨front, back, left, right, same⟩ | ⟨other, left⟩
          · exact .inl ⟨front, back, .called called left, right, same⟩
          · exact .inr ⟨other, .called called left⟩
      | callsRight called => exact .called called ih
      | leftFails asked cut =>
          intro t holds
          obtain rfl := (holds.asks asked).state
          have ended : Activation.Feeds _ uses _ _ _ := .fails asked
          rw [show Activation.committed _ = false from cut] at ended
          exact .inl ⟨[], _, ended, ih, rfl⟩
  | goOn moves used _ ih =>
      cases moves with
      | leftAnswers asked =>
          intro t holds
          have kept := holds.asks asked
          rcases ih t kept.holds with ⟨front, back, left, right, rfl⟩ | ⟨other, left⟩
          · rw [Machine.withStore_eq kept.journal t] at right
            exact .inl ⟨_, back, .goOn asked used rfl left, right, by simp⟩
          · exact .inr ⟨other, .goOn asked used rfl left⟩
      | rightAnswers asked => exact .goOn asked used rfl ih
  | stop moves used other =>
      cases moves with
      | leftAnswers asked =>
          intro t holds
          exact .inr ⟨other, .stop asked used other⟩
      | rightAnswers asked => exact .stop asked used other
  | fails moves =>
      cases moves with
      | done => rfl
      | leftCommits asked cut =>
          intro t holds
          have ended : Activation.Feeds _ uses _ _ _ := .fails asked
          rw [show Activation.committed _ = true from cut] at ended
          exact .inr ⟨by simp [Run.endOf, committed], ended⟩
      | rightFails asked => exact .fails asked
  | halts moves =>
      cases moves with
      | refused called => exact .inr ⟨by simp, .refused called⟩
      | rightRefused called => exact .refused called
      | leftHalts asked =>
          intro t holds
          exact .inr ⟨by simp, .halts asked⟩
      | rightHalts asked => exact .halts asked

theorem fed_right (feeds : g.Feeds Registry.builtins uses m run) :
    FedBy uses ⟨l, r, .right g⟩ m run := by
  obtain ⟨answers, ending, gives, binds⟩ := feeds
  induction binds generalizing g m with
  | ends =>
      cases gives with
      | fails asked => exact .fails (Moves.rightFails asked)
      | halts asked => exact .halts (.rightHalts asked)
  | goOn used _ ih =>
      cases gives with
      | answer asked later => exact .goOn (.rightAnswers asked) used (ih later)
  | stop used other =>
      cases gives with
      | answer asked => exact .stop (.rightAnswers asked) used other

theorem fed_between (feeds : Run.Feeds (Registry.builtins : Registry U) uses r m run) :
    FedBy uses (⟨l, r, .between⟩ : Disjunction (Activation U)) m run := by
  rcases feeds.cases with ⟨_, _, called, rfl⟩ | ⟨_, _, called, feeds⟩
  · exact .halts (.rightRefused called)
  · exact .again (.callsRight called) (fed_right feeds)

theorem fed_left (feeds : g.Feeds Registry.builtins uses m run)
    (holds : Holds anywhere t g m.store) :
    (run.ending ≠ .failed → FedBy uses ⟨l, r, .left g⟩ m run) ∧
    (run.ending = .failed → ∀ back,
      Run.Feeds (Registry.builtins : Registry U) uses r (m.withStore t) back →
      FedBy uses ⟨l, r, .left g⟩ m ⟨run.answers ++ back.answers, back.ending⟩) := by
  obtain ⟨answers, ending, gives, binds⟩ := feeds
  induction binds generalizing g m with
  | ends =>
      cases gives with
      | @fails _ g' _ _ asked =>
          obtain rfl := (holds.asks asked).state
          cases cut : g'.committed with
          | true =>
              refine ⟨fun _ => ?_, fun ends => by simp [Run.endOf] at ends⟩
              exact .fails (Moves.leftCommits asked cut)
          | false =>
              refine ⟨fun other => (other rfl).elim, fun _ back later => ?_⟩
              exact .again (.leftFails asked cut) (fed_between later)
      | halts asked => exact ⟨fun _ => .halts (.leftHalts asked), fun ends => by cases ends⟩
  | goOn used _ ih =>
      cases gives with
      | answer asked later =>
          have kept := holds.asks asked
          obtain ⟨other, failed⟩ := ih kept.holds later
          refine ⟨fun ends => .goOn (.leftAnswers asked) used (other ends),
            fun ends back rest => ?_⟩
          rw [← Machine.withStore_eq kept.journal t] at rest
          have whole := Fed.goOn (Moves.leftAnswers asked) used (failed ends back rest)
          rw [← List.append_assoc] at whole
          exact whole
  | stop used other =>
      cases gives with
      | answer asked =>
          exact ⟨fun _ => .stop (.leftAnswers asked) used other, fun ends => (other ends).elim⟩

theorem feeds_iff :
    Run.Feeds (Registry.builtins : Registry U) uses (.compound .semicolon l [r]) m run ↔
      Joins (Run.Feeds (Registry.builtins : Registry U) uses l m)
        (Run.Feeds (Registry.builtins : Registry U) uses r m) run := by
  have moves {d : Disjunction (Activation U)} {m : Machine} {run : Run} :
      (Activation.disjunction d).Feeds Registry.builtins uses m run ↔ d.FedBy uses m run :=
    feeds_iff_fed (fun _ _ _ => Activation.asks_disjunction)
      fun _ => by simp only [Activation.committed]
  constructor
  · intro feeds
    rcases feeds.cases with ⟨_, _, called, -⟩ | ⟨_, _, called, feeds⟩
    · cases called
    · cases called
      exact feeding_of_fed (moves.mp feeds)
  · intro joined
    refine .called (call_semicolon l r m) (moves.mpr ?_)
    rcases joined with ⟨front, back, left, right, rfl⟩ | ⟨other, left⟩
    · rcases left.cases with ⟨_, _, -, same⟩ | ⟨_, _, called, feeds⟩
      · cases same
      · obtain ⟨rfl, holds⟩ := started_of_call called
        exact .again (.calls called) ((fed_left feeds holds).2 rfl back right)
    · rcases left.cases with ⟨_, _, called, rfl⟩ | ⟨_, _, called, feeds⟩
      · exact .halts (.refused called)
      · obtain ⟨rfl, holds⟩ := started_of_call called
        exact .again (.calls called) ((fed_left feeds holds).1 other)

end Disjunction

end LogicSearch
