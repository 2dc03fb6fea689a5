import LogicSearch.Proofs.Search.Combinator
import LogicSearch.Registry.Builtin

/-!
The lives of the children of a conjunction. Its first child is the left one and the others are right
ones, of which each stands for an answer of the left one. A history is put together from pieces that
a single move writes, and each piece obeys the order on its own.
-/

namespace LogicSearch

namespace ChildEvent

def LeftAnswers (e : ChildEvent) : Prop := ∃ committed, e = asked 0 (.ok true) committed

def CreatesRight (e : ChildEvent) : Prop := ∃ i t, i ≠ 0 ∧ e = created i t

def RightCommits (e : ChildEvent) : Prop := ∃ i, i ≠ 0 ∧ e = asked i (.ok false) true

end ChildEvent

namespace History

variable {h h' : History} {live : List Nat} {i : Nat}

theorem Stacked.top_of_answer {committed : Bool}
    (stacked : Stacked live (h ++ [.asked i (.ok true) committed])) :
    ∃ below, live = i :: below := by
  generalize same : h ++ [.asked i (.ok true) committed] = whole at stacked
  cases stacked with
  | nil => simp at same
  | created | refused | failed | aborted =>
      obtain ⟨-, wrong⟩ := List.append_inj' same rfl
      cases wrong
  | asked =>
      obtain ⟨-, event⟩ := List.append_inj' same rfl
      cases event
      exact ⟨_, rfl⟩

theorem Stacked.created_new {t : Term} (stacked : Stacked live (h ++ [.created i t])) :
    i = h.children := by
  generalize same : h ++ [.created i t] = whole at stacked
  cases stacked with
  | nil => simp at same
  | asked | refused | failed | aborted =>
      obtain ⟨-, wrong⟩ := List.append_inj' same rfl
      cases wrong
  | created =>
      obtain ⟨rfl, event⟩ := List.append_inj' same rfl
      cases event
      rfl

end History

namespace Conjunction

variable {σ G : Type} {l r : Term} {h h' : History} {live : List Nat} {i : Nat}

structure Adjacent (r : Term) (e next : ChildEvent) : Prop where
  answered : e.LeftAnswers → next = .refused r ∨ ∃ i, i ≠ 0 ∧ next = .created i r
  created : next.CreatesRight → e.LeftAnswers
  committed : e.RightCommits → next = .aborted 0

structure Orderly (r : Term) (h : History) : Prop where
  starts : ∀ e ∈ h.head?, ¬ e.CreatesRight
  follows : h.IsChain (Adjacent r)

/-- Nothing is out of order, and no event waits for one to come. -/
structure Regular (l r : Term) (h : History) : Prop extends Orderly r h where
  sides : ∀ i t, .created i t ∈ h → t = if i = 0 then l else r
  ends : ∀ e ∈ h.getLast?, ¬ e.LeftAnswers ∧ ¬ e.RightCommits

theorem Orderly.earlier (orderly : Orderly r (h ++ h')) : Orderly r h where
  starts e first := orderly.starts e (by simp [List.head?_append, Option.mem_def.mp first])
  follows := orderly.follows.left_of_append

theorem Orderly.shape (orderly : Orderly r h) (stacked : History.Stacked live h) :
    live = [] ∨ live = [0] ∨ ∃ i, i ≠ 0 ∧ live = [i, 0] := by
  induction stacked with
  | nil => exact .inl rfl
  | refused _ ih | asked _ _ ih => exact ih orderly.earlier
  | failed _ ih | aborted _ ih =>
      rcases ih orderly.earlier with wrong | alone | ⟨i, right, both⟩
      · cases wrong
      · cases alone
        exact .inl rfl
      · cases both
        exact .inr (.inl rfl)
  | @created live h t stacked ih =>
      by_cases first : h.children = 0
      · have none : live = [] := by
          rw [List.eq_nil_iff_forall_not_mem]
          intro i member
          have := stacked.lt_children i member
          omega
        exact .inr (.inl (by rw [none, first]))
      · -- A right child is created on an answer of the left one, which is then on top.
        rcases List.eq_nil_or_concat' h with rfl | ⟨before, e, rfl⟩
        · exact (first rfl).elim
        · have next := (List.isChain_append.mp orderly.follows).2.2 e (by simp) _ rfl
          obtain ⟨committed, rfl⟩ := next.created ⟨_, _, first, rfl⟩
          obtain ⟨below, rfl⟩ := stacked.top_of_answer
          have alone : below = [] := by
            rw [List.eq_nil_iff_forall_not_mem]
            intro i member
            exact Nat.not_lt_zero i ((List.pairwise_cons.mp stacked.decreasing).1 i member)
          exact .inr (.inr ⟨_, first, by rw [alone]⟩)

theorem Regular.nil : Regular l r [] := ⟨⟨by simp, .nil⟩, by simp, by simp⟩

theorem Regular.append (first : Regular l r h) (second : Regular l r h') :
    Regular l r (h ++ h') where
  starts e member := by
    rw [List.head?_append, Option.mem_def, Option.or_eq_some_iff] at member
    exact member.elim (first.starts e) fun member => second.starts e member.2
  follows := by
    refine List.isChain_append.mpr ⟨first.follows, second.follows, ?_⟩
    intro e last e' next
    obtain ⟨unanswered, uncommitted⟩ := first.ends e last
    exact ⟨fun answered => (unanswered answered).elim,
      fun created => (second.starts e' next created).elim,
      fun committed => (uncommitted committed).elim⟩
  sides i t member := (List.mem_append.mp member).elim (first.sides i t) (second.sides i t)
  ends e member := by
    rw [List.getLast?_append, Option.mem_def, Option.or_eq_some_iff] at member
    exact member.elim (second.ends e) fun member => first.ends e member.2

theorem regular_singleton {e : ChildEvent} (side : ∀ i t, e = .created i t → i = 0 ∧ t = l)
    (unanswered : ¬ e.LeftAnswers) (uncommitted : ¬ e.RightCommits) : Regular l r [e] where
  starts e' first := by
    cases Option.mem_some.mp first
    rintro ⟨i, t, right, created⟩
    exact right (side i t created).1
  follows := .singleton e
  sides i t member := by
    obtain ⟨rfl, rfl⟩ := side i t (List.mem_singleton.mp member).symm
    rfl
  ends e' last := by
    cases Option.mem_some.mp last
    exact ⟨unanswered, uncommitted⟩

theorem regular_created : Regular l r [.created 0 l] := by
  refine regular_singleton ?_ ?_ ?_
  · rintro i t ⟨⟩
    exact ⟨rfl, rfl⟩
  · simp [ChildEvent.LeftAnswers]
  · simp [ChildEvent.RightCommits]

theorem regular_refused : Regular l r [.refused l] := by
  refine regular_singleton (by simp) ?_ ?_
  · simp [ChildEvent.LeftAnswers]
  · simp [ChildEvent.RightCommits]

theorem regular_asked {answer : Except Halt Bool} {committed : Bool}
    (unanswered : i = 0 → answer ≠ .ok true)
    (uncommitted : i ≠ 0 → answer = .ok false → committed = false) :
    Regular l r [.asked i answer committed] := by
  refine regular_singleton (by simp) ?_ ?_
  · rintro ⟨_, same⟩
    cases same
    exact unanswered rfl rfl
  · rintro ⟨_, right, same⟩
    cases same
    cases uncommitted right rfl

theorem regular_aborts (children : List Nat) : Regular l r (children.map .aborted) := by
  induction children with
  | nil => exact .nil
  | cons child children ih =>
      have first : Regular l r [.aborted child] := by
        refine regular_singleton (by simp) ?_ ?_
        · simp [ChildEvent.LeftAnswers]
        · simp [ChildEvent.RightCommits]
      exact first.append ih

theorem regular_answered {committed : Bool} {next : ChildEvent}
    (called : next = .refused r ∨ ∃ i, i ≠ 0 ∧ next = .created i r) :
    Regular l r [.asked 0 (.ok true) committed, next] := by
  refine ⟨⟨?_, ?_⟩, ?_, ?_⟩
  · simp [ChildEvent.CreatesRight]
  · rw [List.isChain_pair]
    refine ⟨fun _ => called, fun _ => ⟨committed, rfl⟩, ?_⟩
    simp [ChildEvent.RightCommits]
  · rcases called with rfl | ⟨i, right, rfl⟩
    · simp
    · simp only [List.mem_cons, List.not_mem_nil, or_false, reduceCtorEq, false_or,
        ChildEvent.created.injEq]
      rintro _ _ ⟨rfl, rfl⟩
      rw [if_neg right]
  · rcases called with rfl | ⟨i, right, rfl⟩ <;>
      simp [ChildEvent.LeftAnswers, ChildEvent.RightCommits]

theorem regular_committed : Regular l r [.asked i (.ok false) true, .aborted 0] := by
  refine ⟨⟨?_, ?_⟩, ?_, ?_⟩
  · simp [ChildEvent.CreatesRight]
  · rw [List.isChain_pair]
    refine ⟨?_, ?_, fun _ => rfl⟩
    · simp [ChildEvent.LeftAnswers]
    · simp [ChildEvent.CreatesRight]
  · simp
  · simp [ChildEvent.LeftAnswers, ChildEvent.RightCommits]

/-- What every request keeps of a conjunction of these goals and of its history. -/
structure Tended (l r : Term) (c : Conjunction (Child G)) (h : History) : Prop where
  left : c.left = l
  right : c.right = r
  unstarted : c.phase = .fresh → h.children = 0
  stacked : History.Stacked (c.goals.map Child.number) h
  regular : Regular l r h

theorem Regular.number_left (regular : Regular l r h) {n : Nat}
    (stacked : History.Stacked [n] h) : n = 0 := by
  rcases regular.shape stacked with wrong | alone | ⟨i, -, wrong⟩
  · cases wrong
  · cases alone
    rfl
  · cases wrong

theorem Regular.number_right (regular : Regular l r h) {n below : Nat}
    (stacked : History.Stacked [n, below] h) : n ≠ 0 ∧ below = 0 := by
  rcases regular.shape stacked with wrong | wrong | ⟨i, right, both⟩
  · cases wrong
  · cases wrong
  · cases both
    exact ⟨right, rfl⟩

theorem Moves.tended {solver : Solver σ G} {present : Conjunction (Child G) × Recorded σ}
    {turn : Turn (Conjunction (Child G) × Recorded σ)
      (Reply (Recorded σ) (Conjunction (Child G)))}
    (moves : Moves solver.recorded.protocol present turn)
    (tended : Tended l r present.1 present.2.history) :
    Tended l r turn.present.1 turn.present.2.history := by
  have stacked := moves.stacked tended.stacked
  obtain ⟨rfl, rfl, unstarted, below, regular⟩ := tended
  cases moves with
  | done => exact ⟨rfl, rfl, unstarted, stacked, regular⟩
  | calls called =>
      refine ⟨rfl, rfl, by simp [Turn.present], stacked, ?_⟩
      simp only [Turn.present, (Solver.recorded_created called).2, unstarted rfl]
      exact regular.append regular_created
  | refused called =>
      simp only [Turn.present, Solver.recorded_refused called] at stacked ⊢
      refine ⟨rfl, rfl, fun _ => ?_, stacked, regular.append regular_refused⟩
      rw [History.children_append, unstarted rfl]
      rfl
  | leftHalts asked =>
      refine ⟨rfl, rfl, by simp [Turn.present], stacked, ?_⟩
      simp only [Turn.present, (Solver.recorded_asked asked).2]
      exact regular.append (regular_asked (by simp) (by simp))
  | leftFails asked =>
      refine ⟨rfl, rfl, by simp [Turn.present], stacked, ?_⟩
      simp only [Turn.present, (Solver.recorded_asked asked).2, regular.number_left below]
      exact regular.append (regular_asked (by simp) (by simp))
  | @leftAnswers l r g _ _ w _ _ asked called =>
      refine ⟨rfl, rfl, by simp [Turn.present], stacked, ?_⟩
      have started : g.number < w.history.children := below.lt_children _ List.mem_cons_self
      simp only [Turn.present, (Solver.recorded_created called).2,
        (Solver.recorded_asked asked).2, regular.number_left below, List.append_assoc]
      refine regular.append (regular_answered (.inr ⟨_, ?_, rfl⟩))
      rw [History.children_append]
      omega
  | rightRefused asked called =>
      refine ⟨rfl, rfl, by simp [Turn.present], stacked, ?_⟩
      simp only [Turn.present, Solver.recorded_refused called,
        (Solver.recorded_asked asked).2, regular.number_left below, List.append_assoc]
      exact regular.append (regular_answered (.inl rfl))
  | rightHalts asked =>
      refine ⟨rfl, rfl, by simp [Turn.present], stacked, ?_⟩
      simp only [Turn.present, (Solver.recorded_asked asked).2]
      exact regular.append (regular_asked (by simp) (by simp))
  | rightAnswers asked =>
      refine ⟨rfl, rfl, by simp [Turn.present], stacked, ?_⟩
      obtain ⟨right, -⟩ := regular.number_right below
      simp only [Turn.present, (Solver.recorded_asked asked).2]
      exact regular.append (regular_asked (by simp [right]) (by simp))
  | rightFails asked kept =>
      refine ⟨rfl, rfl, by simp [Turn.present], stacked, ?_⟩
      simp only [Turn.present, (Solver.recorded_asked asked).2]
      exact regular.append (regular_asked (by simp) fun _ _ => kept)
  | @rightCommits l r under g g' w w' asked cut =>
      refine ⟨rfl, rfl, by simp [Turn.present], stacked, ?_⟩
      obtain ⟨-, last⟩ := regular.number_right below
      have aborted : (solver.recorded.abort under w').2.history =
          w.history ++ [.asked g.number (.ok false) true, .aborted 0] := by
        have history := (Solver.recorded_asked asked).2
        rw [show solver.recorded.committed g' = true from cut] at history
        rw [← last]
        simp [Solver.recorded, Recorded.note, history]
      have kept := regular.append (regular_committed (i := g.number))
      rwa [← aborted] at kept

theorem Tended.session {ended : Bool} {c : Conjunction (Child G)}
    (session : Combinator.Session σ (start l r) ended c h) : Tended l r c h := by
  induction session with
  | start => exact ⟨rfl, rfl, fun _ => rfl, .nil, .nil⟩
  | goesOn _ done _ tended | fails _ done _ tended =>
      exact (Turn.leads_of_iterate (fun _ _ => moves_of_step) done).invariant
        (fun present => Tended l r present.1 present.2.history)
        (fun reply => Tended l r reply.goal reply.state.history)
        (fun _ _ tended moves => moves.tended tended)
        (fun _ _ tended moves => moves.tended tended) tended
  | @aborted _ c h solver s session tended =>
      have given : Combinator.Session σ (start l r) true
          (c.abort solver.recorded ⟨s, h⟩).1 (c.abort solver.recorded ⟨s, h⟩).2.history :=
        .aborted session
      have aborted : Regular l r ((c.goals.map Child.number).map .aborted) := regular_aborts _
      refine ⟨tended.left, tended.right, ?_, (given.stacked rfl).1, ?_⟩
      · simp [Combinator.abort, abort, close]
      rw [Combinator.abort_history]
      exact tended.regular.append aborted

/-- How a conjunction of these goals treats its children, the first of which is the left one. -/
structure Disciplined (l r : Term) (h : History) : Prop where
  sides : ∀ i t, .created i t ∈ h → t = if i = 0 then l else r
  /-- A right child is a new one, created directly after an answer of the left one. -/
  right_created : ∀ before i t after, h = before ++ .created i t :: after → i ≠ 0 →
    ¬ History.Created before i ∧
      ∃ earlier committed, before = earlier ++ [.asked 0 (.ok true) committed]
  /-- There is one for each answer of the left child, unless calling the right goal halts. -/
  left_answered : ∀ before committed after, h = before ++ .asked 0 (.ok true) committed :: after →
    ∃ e later, after = e :: later ∧ (e = .refused r ∨ ∃ i, i ≠ 0 ∧ e = .created i r)
  one_right : ∀ before after, h = before ++ after → ∀ i j, i ≠ 0 → j ≠ 0 →
    History.Alive before i → History.Alive before j → i = j
  /-- A right child that fails by a cut takes the left one with it. -/
  right_committed : ∀ before i after, h = before ++ .asked i (.ok false) true :: after → i ≠ 0 →
    ∃ later, after = .aborted 0 :: later

theorem Orderly.right_created {before after : History} {t : Term}
    (orderly : Orderly r (before ++ .created i t :: after)) (right : i ≠ 0) :
    ∃ earlier committed, before = earlier ++ [.asked 0 (.ok true) committed] := by
  rcases List.eq_nil_or_concat' before with rfl | ⟨earlier, e, rfl⟩
  · exact (orderly.starts (.created i t) rfl ⟨i, t, right, rfl⟩).elim
  · have next := (List.isChain_append.mp orderly.follows).2.2 e (by simp) _ rfl
    obtain ⟨committed, rfl⟩ := next.created ⟨i, t, right, rfl⟩
    exact ⟨earlier, committed, rfl⟩

theorem Regular.followed {before after : History} {e : ChildEvent}
    (regular : Regular l r (before ++ e :: after)) (waits : e.LeftAnswers ∨ e.RightCommits) :
    ∃ next later, after = next :: later ∧ Adjacent r e next := by
  cases after with
  | nil =>
      obtain ⟨unanswered, uncommitted⟩ := regular.ends e (by simp)
      exact (waits.elim unanswered uncommitted).elim
  | cons next later =>
      refine ⟨next, later, rfl, ?_⟩
      exact (List.isChain_cons_cons.mp regular.follows.right_of_append).1

theorem Regular.disciplined (regular : Regular l r h) (stacked : History.Stacked live h) :
    Disciplined l r h where
  sides := regular.sides
  right_created before i t after same right := by
    subst same
    refine ⟨?_, regular.toOrderly.right_created right⟩
    rw [← List.singleton_append, ← List.append_assoc] at stacked
    obtain ⟨_, until_then⟩ := stacked.earlier
    obtain ⟨_, before_then⟩ := until_then.earlier
    intro known
    have less := before_then.lt_of_known (.inl known)
    rw [until_then.created_new] at less
    exact Nat.lt_irrefl _ less
  left_answered before committed after same := by
    subst same
    obtain ⟨next, later, rfl, follows⟩ := regular.followed (.inl ⟨committed, rfl⟩)
    exact ⟨next, later, rfl, follows.answered ⟨committed, rfl⟩⟩
  one_right before after same i j right right' alive alive' := by
    subst same
    obtain ⟨live, earlier⟩ := stacked.earlier
    rw [← earlier.mem_iff] at alive alive'
    rcases regular.earlier.shape earlier with rfl | rfl | ⟨n, -, rfl⟩
    · cases alive
    · simp_all
    · simp_all
  right_committed before i after same right := by
    subst same
    obtain ⟨next, later, rfl, follows⟩ := regular.followed (.inr ⟨i, right, rfl⟩)
    rw [follows.committed ⟨i, right, rfl⟩]
    exact ⟨later, rfl⟩

end Conjunction

namespace Combinator

variable {X : Type → Type} [Combinator X] {σ G : Type}

/-- Plain children are treated in the same way: the record only observes. -/
def Unobserved (σ : Type) (x : X (Child G)) (h : History) : Prop :=
  ∀ (solver : Solver σ G) (s : σ),
    (∀ fuel, next solver fuel (map Child.goal x) s =
      (next solver.recorded fuel x ⟨s, h⟩).map (Reply.view Recorded.state (map Child.goal))) ∧
    abort solver (map Child.goal x) s =
      (map Child.goal (abort solver.recorded x ⟨s, h⟩).1,
        (abort solver.recorded x ⟨s, h⟩).2.state)

theorem unobserved (x : X (Child G)) (h : History) : Unobserved σ x h :=
  fun _ s => ⟨fun fuel => next_recorded fuel x ⟨s, h⟩, abort_recorded x ⟨s, h⟩⟩

/-- The lives of the children of combinators, however they behave and whatever is requested of the
combinator. No request is made of a child that has failed or was given up. A conjunction creates a
right child for each answer of the left one, directly after it, has only one of them alive at a time
and gives it up before the left one. Once a combinator has failed or was given up, each child has
ended in exactly one of the two ways, and there is none that comes later. -/
theorem children_lifecycle (σ G : Type) :
    (∀ l r ended (c : Conjunction (Child G)) h, Session σ (Conjunction.start l r) ended c h →
      h.EndsOnce ∧ Conjunction.Disciplined l r h ∧
      (∀ i, i ≠ 0 → h.Alive 0 → h.Alive i → ∀ (solver : Solver σ G) s,
        (c.abort solver.recorded ⟨s, h⟩).2.history = h ++ [.aborted i, .aborted 0]) ∧
      (ended = true → Finished σ c h) ∧ Unobserved σ c h) ∧
    ∀ l r ended (d : Disjunction (Child G)) h, Session σ (Disjunction.start l r) ended d h →
      h.EndsOnce ∧ (ended = true → Finished σ d h) ∧ Unobserved σ d h := by
  constructor
  · intro l r ended c h session
    have tended := Conjunction.Tended.session session
    refine ⟨tended.stacked.endsOnce, tended.regular.disciplined tended.stacked, ?_, ?_,
      unobserved c h⟩
    · intro i right alive alive' solver s
      rw [← tended.stacked.mem_iff] at alive alive'
      have both : c.goals.map Child.number = [i, 0] := by
        rcases tended.regular.shape tended.stacked with none | alone | ⟨n, -, both⟩
        · simp [none] at alive
        · simp [alone, right] at alive'
        · simp_all
      calc (c.abort solver.recorded ⟨s, h⟩).2.history
          = h ++ (c.goals.map Child.number).map .aborted := abort_history c ⟨s, h⟩
        _ = h ++ [.aborted i, .aborted 0] := by
          rw [both]
          rfl
    · rintro rfl
      exact session.finished rfl
  · intro l r ended d h session
    obtain ⟨stacked, -⟩ := session.stacked rfl
    refine ⟨stacked.endsOnce, ?_, unobserved d h⟩
    rintro rfl
    exact session.finished rfl

theorem children_lifecycle_under_cut :
    let first : Term := .compound .member (.var 0) [.list [.int 1, .int 2]]
    let cut : Term := .atom .cut
    let answered : History := [.created 0 first, .asked 0 (.ok true) false, .created 1 cut,
      .asked 1 (.ok true) true]
    let failed : History := answered ++ [.asked 1 (.ok false) true, .aborted 0]
    let committed : History := [.created 0 cut, .asked 0 (.ok true) true, .asked 0 (.ok false) true]
    ∃ (c c' : Conjunction (Child (Activation Empty))) (d : Disjunction (Child (Activation Empty))),
      Session Machine (Conjunction.start first cut) false c answered ∧
      (∀ (solver : Solver Machine (Activation Empty)) s,
        (c.abort solver.recorded ⟨s, answered⟩).2.history = answered ++ [.aborted 1, .aborted 0]) ∧
      Session Machine (Conjunction.start first cut) true c' failed ∧
      Conjunction.Disciplined first cut failed ∧ Finished Machine c' failed ∧
      Session Machine (Disjunction.start cut first) true d committed ∧ committed.EndsOnce ∧
      Finished Machine d committed := by
  intro first cut answered failed committed
  let children := (Activation.solver (U := Empty) Registry.builtins 9).recorded
  let c : Conjunction (Child (Activation Empty)) := .start first cut
  let d : Disjunction (Child (Activation Empty)) := .start cut first
  have once : (c.next children 9 ⟨Machine.empty, []⟩).map
      (fun r => (r.answer, r.state.history)) = some (.ok true, answered) := rfl
  have twice : ((c.next children 9 ⟨Machine.empty, []⟩).bind fun r =>
      r.goal.next children 9 r.state).map
      (fun r => (r.answer, r.state.history)) = some (.ok false, failed) := rfl
  have begun : (d.next children 9 ⟨Machine.empty, []⟩).map (·.answer) = some (.ok true) := rfl
  have finishes : ((d.next children 9 ⟨Machine.empty, []⟩).bind fun r =>
      r.goal.next children 9 r.state).map
      (fun r => (r.answer, r.state.history)) = some (.ok false, committed) := rfl
  obtain ⟨conjunctions, disjunctions⟩ := children_lifecycle Machine (Activation Empty)
  obtain ⟨r, asked, same⟩ := Option.map_eq_some_iff.mp once
  rw [asked, Option.bind_some] at twice
  simp only [Prod.mk.injEq] at same
  have goes : Session Machine c false r.goal r.state.history :=
    .goesOn .start asked (by simp [same.1])
  obtain ⟨c', ends⟩ := goes.failed twice
  rw [same.2] at goes
  obtain ⟨r', asked', answer⟩ := Option.map_eq_some_iff.mp begun
  rw [asked', Option.bind_some] at finishes
  have goes' : Session Machine d false r'.goal r'.state.history :=
    .goesOn .start asked' (by simp [answer])
  obtain ⟨d', ends'⟩ := goes'.failed finishes
  have alive (i : Nat) (known : i = 0 ∨ i = 1) : answered.Alive i := by
    rcases known with rfl | rfl <;>
      simp [answered, History.Alive, History.Created, History.Failed, History.Aborted]
  obtain ⟨-, -, aborted, -, -⟩ := conjunctions _ _ _ _ _ goes
  obtain ⟨-, disciplined, -, finished, -⟩ := conjunctions _ _ _ _ _ ends
  obtain ⟨once', finished', -⟩ := disjunctions _ _ _ _ _ ends'
  exact ⟨r.goal, c', d', goes,
    aborted 1 (by decide) (alive 0 (.inl rfl)) (alive 1 (.inr rfl)), ends, disciplined,
    finished rfl, ends', once', finished' rfl⟩

end Combinator

end LogicSearch
