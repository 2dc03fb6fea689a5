import LogicSearch.Proofs.Search.Kept
import LogicSearch.Proofs.Search.Traced

/-!
The laws of conjunction and disjunction on whole runs. The goals of a conjunction take turns on one
machine; since a goal that fails gives back the machine it was started on, the run is the same as if
the right goal were run to its end for one answer of the left goal after the other.
-/

namespace LogicSearch

variable {U : Type}

theorem call_comma (l r : Term) (m : Machine) :
    (Registry.builtins : Registry U).call (.compound .comma l [r]) m =
      some (.ok (.conjunction (Conjunction.start l r)), m) := rfl

theorem call_semicolon (l r : Term) (m : Machine) :
    (Registry.builtins : Registry U).call (.compound .semicolon l [r]) m =
      some (.ok (.disjunction (Disjunction.start l r)), m) := rfl

variable [Plugin U]

open Activation (Asks Gives Holds protocol)
open Run (Shows Returns)

namespace Conjunction

/-- The runs of a goal from one machine after the other, up to the first that does not end by plain
failure; if all do, the end is the given one. -/
inductive Binds (returns : Machine → Run → Prop) : List Machine → Option Run.End → Run → Prop where
  | ends {e : Run.End} : Binds returns [] (some e) ⟨[], e⟩
  | goOn {m : Machine} {answers front : List Machine} {ending : Option Run.End} {run : Run} :
      returns m ⟨front, .failed⟩ → Binds returns answers ending run →
      Binds returns (m :: answers) ending ⟨front ++ run.answers, run.ending⟩
  | stop {m : Machine} {answers : List Machine} {ending : Option Run.End} {run : Run} :
      returns m run → run.ending ≠ .failed → Binds returns (m :: answers) ending run

abbrev Follows (c : Conjunction (Activation U)) : Machine → List Machine → Run.End → Prop :=
  Traced (Moves (protocol Registry.builtins)) committed c

variable {l r : Term} {g below : Activation U} {m : Machine} {answers front : List Machine}
  {ending : Option Run.End} {run : Run} {e : Run.End}

def FromLeft (r : Term) (g : Activation U) (m : Machine) (run : Run) : Prop :=
  ∃ answers ending, Gives Registry.builtins g m answers ending ∧
    Binds (Returns (Registry.builtins : Registry U) r) answers ending run

/-- The run that a conjunction in some phase has before it. -/
def Means (c : Conjunction (Activation U)) (m : Machine) (run : Run) : Prop :=
  match c.phase with
  | .fresh => ∃ answers ending, Shows (Registry.builtins : Registry U) c.left m answers ending ∧
      Binds (Returns (Registry.builtins : Registry U) c.right) answers ending run
  | .left g => FromLeft c.right g m run
  | .right below g => ∀ t, Holds anywhere t g m.store →
      ∃ front e, Gives Registry.builtins g m front (some e) ∧
        ((e ≠ .failed ∧ run = ⟨front, e⟩) ∨
          (e = .failed ∧ ∃ back, FromLeft c.right below (m.withStore t) back ∧
            run = ⟨front ++ back.answers, back.ending⟩))
  | .done committed => run = ⟨[], Run.endOf committed⟩

theorem means_of_traced {c : Conjunction (Activation U)}
    (traced : Follows c m answers e) : c.Means m ⟨answers, e⟩ := by
  induction traced with
  | @again _ _ _ m' _ _ moves _ ih =>
      cases moves with
      | calls called =>
          obtain ⟨answers, ending, gives, binds⟩ := ih
          exact ⟨answers, ending, .called called gives, binds⟩
      | @leftAnswers _ r _ _ _ _ _ _ asked called =>
          obtain ⟨rfl, holds⟩ := started_of_call called
          obtain ⟨front, e, gives, rest⟩ := ih _ holds
          have returns := Run.returns_of_gives called gives
          rcases rest with ⟨other, same⟩ | ⟨rfl, back, ⟨answers, ending, below, binds⟩, same⟩
          · exact ⟨[m'], none, .answer asked .pause, same ▸ .stop returns other⟩
          · exact ⟨m' :: answers, ending, .answer asked below, same ▸ .goOn returns binds⟩
      | rightFails asked cut =>
          intro t holds
          obtain rfl := (holds.asks asked).state
          have ended := Gives.fails asked
          rw [show Activation.committed _ = false from cut] at ended
          exact ⟨[], .failed, ended, .inr ⟨rfl, _, ih, rfl⟩⟩
  | answer moves _ ih =>
      cases moves with
      | rightAnswers asked =>
          intro t holds
          have kept := holds.asks asked
          obtain ⟨front, e, gives, rest⟩ := ih t kept.holds
          refine ⟨_ :: front, e, .answer asked gives, ?_⟩
          rcases rest with ⟨other, same⟩ | ⟨rfl, back, later, same⟩
          · cases same
            exact .inl ⟨other, rfl⟩
          · rw [Machine.withStore_eq kept.journal t] at later
            cases same
            exact .inr ⟨rfl, back, later, rfl⟩
  | fails moves =>
      cases moves with
      | done => rfl
      | leftFails asked => exact ⟨[], _, .fails asked, .ends⟩
      | rightCommits asked cut =>
          intro t holds
          have ended := Gives.fails asked
          rw [show Activation.committed _ = true from cut] at ended
          exact ⟨[], .committed, ended, .inl ⟨by simp, rfl⟩⟩
  | halts moves =>
      cases moves with
      | refused called => exact ⟨[], _, .refused called, .ends⟩
      | leftHalts asked => exact ⟨[], _, .halts asked, .ends⟩
      | rightRefused asked called =>
          have returns := Run.returns_of_refused called
          exact ⟨[_], none, .answer asked .pause, .stop returns (by simp)⟩
      | rightHalts asked =>
          intro t holds
          exact ⟨[], _, .halts asked, .inl ⟨by simp, rfl⟩⟩

theorem traced_right {t : Store} (gives : Gives Registry.builtins g m front (some e))
    (holds : Holds anywhere t g m.store) :
    (e ≠ .failed → Follows ⟨l, r, .right below g⟩ m front e) ∧
    (e = .failed → ∀ back : Run,
      Follows ⟨l, r, .left below⟩ (m.withStore t) back.answers back.ending →
      Follows ⟨l, r, .right below g⟩ m (front ++ back.answers) back.ending) := by
  generalize full : some e = ending at gives
  induction gives with
  | pause => cases full
  | answer asked _ ih =>
      have kept := holds.asks asked
      obtain ⟨other, failed⟩ := ih kept.holds full
      refine ⟨fun ends => .answer (.rightAnswers asked) (other ends), fun ends back later => ?_⟩
      rw [← Machine.withStore_eq kept.journal t] at later
      exact .answer (.rightAnswers asked) (failed ends back later)
  | @fails g g' _ _ asked =>
      -- A goal that has failed is back on the machine it was started on.
      obtain rfl := (holds.asks asked).state
      injection full with same
      subst same
      cases cut : g'.committed with
      | true =>
          refine ⟨fun _ => ?_, fun ends => by simp [Run.endOf] at ends⟩
          exact .fails (Moves.rightCommits asked cut)
      | false =>
          refine ⟨fun other => (other rfl).elim, fun _ back later => ?_⟩
          exact .again (.rightFails asked cut) later
  | halts asked =>
      cases full
      exact ⟨fun _ => .halts (.rightHalts asked), fun ends => by cases ends⟩

theorem traced_left (binds : Binds (Returns (Registry.builtins : Registry U) r) answers ending run)
    (gives : Gives Registry.builtins g m answers ending) :
    Follows ⟨l, r, .left g⟩ m run.answers run.ending := by
  induction binds generalizing g m with
  | ends =>
      cases gives with
      | fails asked => exact .fails (Moves.leftFails asked)
      | halts asked => exact .halts (.leftHalts asked)
  | goOn returns _ ih =>
      cases gives with
      | answer asked later =>
          rcases returns.cases with ⟨_, _, -, same⟩ | ⟨_, _, called, gives⟩
          · cases same
          · obtain ⟨rfl, holds⟩ := started_of_call called
            exact .again (.leftAnswers asked called)
              ((traced_right gives holds).2 rfl _ (ih later))
  | stop returns other =>
      cases gives with
      | answer asked later =>
          rcases returns.cases with ⟨_, _, called, rfl⟩ | ⟨_, _, called, gives⟩
          · exact .halts (.rightRefused asked called)
          · obtain ⟨rfl, holds⟩ := started_of_call called
            exact .again (.leftAnswers asked called) ((traced_right gives holds).1 other)

/-- A conjunction returns with the runs of its right goal from the answers of its left goal, joined
in their order. -/
theorem returns_iff : Returns (Registry.builtins : Registry U) (.compound .comma l [r]) m run ↔
    ∃ answers ending, Shows (Registry.builtins : Registry U) l m answers ending ∧
      Binds (Returns (Registry.builtins : Registry U) r) answers ending run := by
  have traces {answers : List Machine} {e : Run.End} {c : Conjunction (Activation U)} :
      Gives Registry.builtins (.conjunction c) m answers (some e) ↔ Follows c m answers e :=
    gives_iff_traced (fun _ _ _ => Activation.asks_conjunction)
      fun _ => by simp only [Activation.committed]
  constructor
  · intro returned
    exact means_of_traced (traces.mp (returned.gives (call_comma l r m)))
  · rintro ⟨answers, ending, shown, binds⟩
    refine Run.returns_of_gives (call_comma l r m) (traces.mpr ?_)
    rcases shown.cases with ⟨_, _, called, rfl, rfl⟩ | ⟨_, _, called, gives⟩
    · cases binds
      exact .halts (.refused called)
    · exact .again (.calls called) (traced_left binds gives)

theorem Binds.complete {returns : Machine → Run → Prop} {shown : List Machine}
    (binds : Binds returns shown ending run) (first : Gives Registry.builtins g m shown ending)
    (all : Gives Registry.builtins g m answers (some e)) :
    Binds returns answers (some e) run := by
  induction binds generalizing g m answers with
  | ends =>
      cases first with
      | fails asked =>
          obtain ⟨rfl, rfl⟩ := all.of_failure asked
          exact .ends
      | halts asked =>
          obtain ⟨rfl, rfl⟩ := all.of_halt asked
          exact .ends
  | goOn returned _ ih =>
      cases first with
      | answer asked later =>
          obtain ⟨answers, rfl, later'⟩ := all.of_answer asked
          exact .goOn returned (ih later later')
  | stop returned other =>
      cases first with
      | answer asked =>
          obtain ⟨answers, rfl, -⟩ := all.of_answer asked
          exact .stop returned other

theorem returns_iff_of_returns
    (left : Returns (Registry.builtins : Registry U) l m ⟨answers, e⟩) :
    Returns (Registry.builtins : Registry U) (.compound .comma l [r]) m run ↔
      Binds (Returns (Registry.builtins : Registry U) r) answers (some e) run := by
  rw [returns_iff]
  constructor
  · rintro ⟨shown, ending, first, binds⟩
    rcases first.cases with ⟨_, _, refused, rfl, rfl⟩ | ⟨_, _, called, gives⟩
    · rcases left.cases with ⟨_, _, refused', same⟩ | ⟨_, _, called, _⟩
      · rw [refused] at refused'
        cases refused'
        cases same
        exact binds
      · rw [refused] at called
        cases called
    · exact binds.complete gives (left.gives called)
  · intro binds
    exact ⟨answers, some e, Run.returns_iff_shows.mp left, binds⟩

end Conjunction

namespace Disjunction

/-- A run of the left goal that ends by plain failure and then one of the right goal, or a run of
the left goal alone that ends otherwise. -/
def Joins (left right : Run → Prop) (run : Run) : Prop :=
  (∃ front back, left ⟨front, .failed⟩ ∧ right back ∧
    run = ⟨front ++ back.answers, back.ending⟩) ∨ (run.ending ≠ .failed ∧ left run)

abbrev Follows (d : Disjunction (Activation U)) : Machine → List Machine → Run.End → Prop :=
  Traced (Moves (protocol Registry.builtins)) committed d

variable {l r : Term} {g : Activation U} {m : Machine} {answers : List Machine} {run : Run}
  {e : Run.End}

def FromGoal (g : Activation U) (m : Machine) (run : Run) : Prop :=
  Gives Registry.builtins g m run.answers (some run.ending)

def Means (d : Disjunction (Activation U)) (m : Machine) (run : Run) : Prop :=
  match d.phase with
  | .fresh => Joins (Returns (Registry.builtins : Registry U) d.left m)
      (Returns (Registry.builtins : Registry U) d.right m) run
  | .left g => ∀ t, Holds anywhere t g m.store →
      Joins (FromGoal g m) (Returns (Registry.builtins : Registry U) d.right (m.withStore t)) run
  | .between => Returns (Registry.builtins : Registry U) d.right m run
  | .right g => FromGoal g m run
  | .done committed => run = ⟨[], Run.endOf committed⟩

theorem means_of_traced {d : Disjunction (Activation U)}
    (traced : Follows d m answers e) : d.Means m ⟨answers, e⟩ := by
  induction traced with
  | again moves _ ih =>
      cases moves with
      | calls called =>
          obtain ⟨rfl, holds⟩ := started_of_call called
          rcases ih _ holds with ⟨front, back, left, right, same⟩ | ⟨other, left⟩
          · exact .inl ⟨front, back, Run.returns_of_gives called left, right, same⟩
          · exact .inr ⟨other, Run.returns_of_gives called left⟩
      | callsRight called => exact Run.returns_of_gives called ih
      | leftFails asked cut =>
          intro t holds
          obtain rfl := (holds.asks asked).state
          have ended := Gives.fails asked
          rw [show Activation.committed _ = false from cut] at ended
          exact .inl ⟨[], _, ended, ih, rfl⟩
  | answer moves _ ih =>
      cases moves with
      | leftAnswers asked =>
          intro t holds
          have kept := holds.asks asked
          rcases ih t kept.holds with ⟨front, back, left, right, same⟩ | ⟨other, left⟩
          · rw [Machine.withStore_eq kept.journal t] at right
            cases same
            exact .inl ⟨_ :: front, back, .answer asked left, right, rfl⟩
          · exact .inr ⟨other, .answer asked left⟩
      | rightAnswers asked => exact .answer asked ih
  | fails moves =>
      cases moves with
      | done => rfl
      | leftCommits asked cut =>
          intro t holds
          have ended := Gives.fails asked
          rw [show Activation.committed _ = true from cut] at ended
          exact .inr ⟨by simp [Run.endOf, committed], ended⟩
      | rightFails asked => exact .fails asked
  | halts moves =>
      cases moves with
      | refused called => exact .inr ⟨by simp, Run.returns_of_refused called⟩
      | rightRefused called => exact Run.returns_of_refused called
      | leftHalts asked =>
          intro t holds
          exact .inr ⟨by simp, .halts asked⟩
      | rightHalts asked => exact .halts asked

theorem traced_right (gives : FromGoal g m run) :
    Follows ⟨l, r, .right g⟩ m run.answers run.ending := by
  obtain ⟨answers, e⟩ := run
  simp only [FromGoal] at gives
  generalize full : some e = ending at gives
  induction gives with
  | pause => cases full
  | answer asked _ ih => exact .answer (.rightAnswers asked) (ih full)
  | fails asked =>
      cases full
      exact .fails (Moves.rightFails asked)
  | halts asked =>
      cases full
      exact .halts (.rightHalts asked)

theorem traced_between (returns : Returns (Registry.builtins : Registry U) r m run) :
    Follows (⟨l, r, .between⟩ : Disjunction (Activation U)) m run.answers run.ending := by
  rcases returns.cases with ⟨_, _, called, rfl⟩ | ⟨_, _, called, gives⟩
  · exact .halts (.rightRefused called)
  · exact .again (.callsRight called) (traced_right gives)

theorem traced_left {t : Store} (gives : Gives Registry.builtins g m answers (some e))
    (holds : Holds anywhere t g m.store) :
    (e ≠ .failed → Follows ⟨l, r, .left g⟩ m answers e) ∧
    (e = .failed → ∀ back, Returns (Registry.builtins : Registry U) r (m.withStore t) back →
      Follows ⟨l, r, .left g⟩ m (answers ++ back.answers) back.ending) := by
  generalize full : some e = ending at gives
  induction gives with
  | pause => cases full
  | answer asked _ ih =>
      have kept := holds.asks asked
      obtain ⟨other, failed⟩ := ih kept.holds full
      refine ⟨fun ends => .answer (.leftAnswers asked) (other ends), fun ends back later => ?_⟩
      rw [← Machine.withStore_eq kept.journal t] at later
      exact .answer (.leftAnswers asked) (failed ends back later)
  | @fails g g' _ _ asked =>
      obtain rfl := (holds.asks asked).state
      injection full with same
      subst same
      cases cut : g'.committed with
      | true =>
          refine ⟨fun _ => ?_, fun ends => by simp [Run.endOf] at ends⟩
          exact .fails (Moves.leftCommits asked cut)
      | false =>
          refine ⟨fun other => (other rfl).elim, fun _ back later => ?_⟩
          exact .again (.leftFails asked cut) (traced_between later)
  | halts asked =>
      cases full
      exact ⟨fun _ => .halts (.leftHalts asked), fun ends => by cases ends⟩

theorem returns_iff : Returns (Registry.builtins : Registry U) (.compound .semicolon l [r]) m run ↔
    Joins (Returns (Registry.builtins : Registry U) l m)
      (Returns (Registry.builtins : Registry U) r m) run := by
  have traces {answers : List Machine} {e : Run.End} {d : Disjunction (Activation U)} :
      Gives Registry.builtins (.disjunction d) m answers (some e) ↔ Follows d m answers e :=
    gives_iff_traced (fun _ _ _ => Activation.asks_disjunction)
      fun _ => by simp only [Activation.committed]
  constructor
  · intro returned
    exact means_of_traced (traces.mp (returned.gives (call_semicolon l r m)))
  · intro joined
    refine Run.returns_of_gives (call_semicolon l r m) (traces.mpr ?_)
    rcases joined with ⟨front, back, left, right, rfl⟩ | ⟨other, left⟩
    · rcases left.cases with ⟨_, _, -, same⟩ | ⟨_, _, called, gives⟩
      · cases same
      · obtain ⟨rfl, holds⟩ := started_of_call called
        exact .again (.calls called) ((traced_left gives holds).2 rfl back right)
    · rcases left.cases with ⟨_, _, called, rfl⟩ | ⟨_, _, called, gives⟩
      · exact .halts (.refused called)
      · obtain ⟨rfl, holds⟩ := started_of_call called
        exact .again (.calls called) ((traced_left gives holds).1 other)

end Disjunction

/-- The laws of the two combinators on whole runs, for all goals and from every machine. A
conjunction is the left-major bind of the runs of its goals; only as many answers of the left goal
matter as are asked for, and where the left goal returns by itself these are among its answers. A
disjunction runs its right goal only after its left one ended by plain failure. -/
theorem combinator_laws (l r : Term) (m : Machine) (run : Run) :
    (Returns (Registry.builtins : Registry U) (.compound .comma l [r]) m run ↔
      ∃ answers ending, Shows (Registry.builtins : Registry U) l m answers ending ∧
        Conjunction.Binds (Returns (Registry.builtins : Registry U) r) answers ending run) ∧
    (∀ answers e, Returns (Registry.builtins : Registry U) l m ⟨answers, e⟩ →
      (Returns (Registry.builtins : Registry U) (.compound .comma l [r]) m run ↔
        Conjunction.Binds (Returns (Registry.builtins : Registry U) r) answers (some e) run)) ∧
    (Returns (Registry.builtins : Registry U) (.compound .semicolon l [r]) m run ↔
      Disjunction.Joins (Returns (Registry.builtins : Registry U) l m)
        (Returns (Registry.builtins : Registry U) r m) run) :=
  ⟨Conjunction.returns_iff, fun _ _ => Conjunction.returns_iff_of_returns, Disjunction.returns_iff⟩

end LogicSearch
