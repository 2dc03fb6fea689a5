import LogicSearch.Plugin.Samples
import LogicSearch.Proofs.Search.Lifecycle
import LogicSearch.Query

namespace LogicSearch

namespace Conjunction

variable {l r : Term} {h : History} {i : Nat}

theorem Regular.left_aborted (regular : Regular l r h)
    (committed : .asked i (.ok false) true ∈ h) (right : i ≠ 0) : h.Aborted 0 := by
  obtain ⟨before, after, rfl⟩ := List.append_of_mem committed
  have cut : ChildEvent.RightCommits (.asked i (.ok false) true) := ⟨i, right, rfl⟩
  obtain ⟨next, later, rfl, adjacent⟩ := regular.followed (.inr cut)
  exact ⟨next, by simp, by rw [adjacent.committed cut]; rfl⟩

end Conjunction

namespace Query

/-- Who gives up an activation that has failed by a cut: a query, but neither a conjunction nor a
disjunction, whatever is requested of it. -/
theorem committed_failure_given_up_by_query {U : Type} [Plugin U] (σ G : Type) :
    (∀ (q : Query U) fuel m a m', q.running = true →
      q.activation.next q.registry fuel m = some ⟨.ok false, a, m'⟩ → a.committed = true →
      q.next fuel m =
        some ⟨.ok false, ⟨q.goal, (a.abort m').1, q.registry, false, q.found⟩, (a.abort m').2⟩) ∧
    (∀ l r ended (c : Conjunction (Child G)) h,
      Combinator.Session σ (Conjunction.start l r) ended c h →
      ∀ i, .asked i (.ok false) true ∈ h → ¬ h.Aborted i ∧ (i ≠ 0 → h.Aborted 0)) ∧
    ∀ l r ended (d : Disjunction (Child G)) h,
      Combinator.Session σ (Disjunction.start l r) ended d h →
      ∀ i, .asked i (.ok false) true ∈ h → ¬ h.Aborted i := by
  refine ⟨?_, ?_, ?_⟩
  · intro q fuel m a m' running failed committed
    simp only [next, if_pos running, failed, Option.map_some, settle, if_pos committed, abort,
      if_true]
  · intro l r ended c h session i failed
    have tended := Conjunction.Tended.session session
    refine ⟨fun aborted => ?_, tended.regular.left_aborted failed⟩
    exact tended.stacked.not_both ⟨⟨_, failed, rfl, rfl⟩, aborted⟩
  · intro l r ended d h session i failed aborted
    exact (session.stacked rfl).1.not_both ⟨⟨_, failed, rfl, rfl⟩, aborted⟩

def probed : Registry Sample := (Registry.builtins.register ⟨⟨"probe"⟩, 2⟩ Sample.probes).2

def committing : Term := .compound ⟨"probe"⟩ (.atom ⟨"p"⟩) [.list [.atom ⟨"c"⟩]]

def journalOf (goal : Term) : Option (List String) :=
  match start probed goal Machine.empty with
  | some (.ok q, m) => (q.next 9 m).map (·.state.journal)
  | _ => none

theorem committed_failure_given_up_by_query_of_probe :
    let truth : Term := .atom .truth
    let right : History := [.created 0 truth, .asked 0 (.ok true) false, .created 1 committing,
      .asked 1 (.ok false) true, .aborted 0]
    let left : History := [.created 0 committing, .asked 0 (.ok false) true]
    (∃ (q : Query Sample) (m m' : Machine) (a : Activation Sample),
      start probed committing Machine.empty = some (.ok q, m) ∧ a.committed = true ∧
      q.next 9 m = some ⟨.ok false, ⟨q.goal, (a.abort m').1, q.registry, false, 0⟩,
        (a.abort m').2⟩) ∧
    (∃ c : Conjunction (Child (Activation Sample)),
      Combinator.Session Machine (Conjunction.start truth committing) true c right ∧
      ¬ right.Aborted 1 ∧ right.Aborted 0) ∧
    ∃ d : Disjunction (Child (Activation Sample)),
      Combinator.Session Machine (Disjunction.start committing truth) true d left ∧
      ¬ left.Aborted 0 := by
  intro truth right left
  let children := (Activation.solver probed 9).recorded
  let c : Conjunction (Child (Activation Sample)) := .start truth committing
  let d : Disjunction (Child (Activation Sample)) := .start committing truth
  obtain ⟨queries, conjunctions, disjunctions⟩ :=
    committed_failure_given_up_by_query (U := Sample) Machine (Activation Sample)
  refine ⟨?_, ?_, ?_⟩
  · let probe : Probe := ⟨.atom ⟨"p"⟩, .list [.atom ⟨"c"⟩], false⟩
    let q : Query Sample := ⟨committing, .plugged (.probe probe), probed, true, 0⟩
    let m : Machine := ⟨Store.empty, ["p create"]⟩
    have failed : q.activation.next q.registry 9 m =
        some ⟨.ok false, .plugged (.probe ⟨.atom ⟨"p"⟩, .nil, true⟩),
          ⟨Store.empty, ["p create", "p next c"]⟩⟩ := rfl
    exact ⟨q, m, _, _, rfl, rfl, queries q 9 m _ _ rfl failed rfl⟩
  · have done : (c.next children 9 ⟨Machine.empty, []⟩).map
        (fun r => (r.answer, r.state.history)) = some (.ok false, right) := rfl
    have begun : Combinator.Session Machine c false c [] := .start
    obtain ⟨c', session⟩ := begun.failed done
    obtain ⟨kept, given⟩ := conjunctions _ _ _ _ _ session 1 (by simp [right])
    exact ⟨c', session, kept, given (by decide)⟩
  · have done : (d.next children 9 ⟨Machine.empty, []⟩).map
        (fun r => (r.answer, r.state.history)) = some (.ok false, left) := rfl
    have begun : Combinator.Session Machine d false d [] := .start
    obtain ⟨d', session⟩ := begun.failed done
    exact ⟨d', session, disjunctions _ _ _ _ _ session 0 (by simp [left])⟩

/-- A query for the probe itself gives it up, but not one for a conjunction or a disjunction that
holds the probe, on either side. -/
theorem committed_failure_dropped_by_combinators :
    journalOf committing = some ["p create", "p next c", "p abort"] ∧
    journalOf (.compound .comma committing [.atom .truth]) = some ["p create", "p next c"] ∧
    journalOf (.compound .comma (.atom .truth) [committing]) = some ["p create", "p next c"] ∧
    journalOf (.compound .semicolon committing [.atom .fail]) = some ["p create", "p next c"] ∧
    journalOf (.compound .semicolon (.atom .fail) [committing]) = some ["p create", "p next c"] :=
  ⟨rfl, rfl, rfl, rfl, rfl⟩

end Query

end LogicSearch
