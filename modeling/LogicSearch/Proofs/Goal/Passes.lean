import LogicSearch.Goal.Equation
import LogicSearch.Goal.Test
import LogicSearch.Proofs.Goal.Member
import LogicSearch.Proofs.Store.Passes

namespace LogicSearch

variable {s t : Store}

def Test.Passes (s : Store) (t : Store) : Test → Prop
  | notUnifiable left right => s.Passes left right t
  | _ => False

theorem Test.run_returns {test : Test} (acyclic : s.Acyclic)
    (calm : ∀ t, test.Passes s t → t.Acyclic) : ∃ fuel r, test.run fuel s = some r := by
  cases test with
  | truth | failure | cut => exact ⟨0, _, rfl⟩
  | notUnifiable left right =>
      obtain ⟨fuel, ⟨undo, bound⟩, done⟩ := Store.tryUnify_returns calm
      refine ⟨fuel, ?_⟩
      simp only [run, done]
      cases undo <;> exact ⟨_, rfl⟩
  | ofKind kind t =>
      obtain ⟨u, done⟩ := acyclic.chainsEnd t
      refine ⟨0, ?_⟩
      simp only [run, Store.is, done, Option.map_some]
      exact ⟨_, rfl⟩
  | compare comparison left right =>
      obtain ⟨first, here⟩ := Store.eval_returns acyclic left
      obtain ⟨second, there⟩ := Store.eval_returns acyclic right
      refine ⟨0, ?_⟩
      simp only [run, here, there]
      cases first <;> cases second <;> exact ⟨_, rfl⟩

namespace Equation

def Passes (e : Equation) (s t : Store) : Phase → Prop
  | .fresh => ∃ left right, e.sides s = some (.ok (left, right)) ∧ s.Passes left right t
  | _ => False

theorem sides_returns (acyclic : s.Acyclic) (e : Equation) : ∃ sides, e.sides s = some sides := by
  cases e with
  | unify left right => exact ⟨_, rfl⟩
  | evaluate result expression =>
      obtain ⟨value, done⟩ := Store.eval_returns acyclic expression
      simp only [sides, done]
      cases value <;> exact ⟨_, rfl⟩

theorem next_fresh {e : Equation} (acyclic : s.Acyclic)
    (calm : ∀ t, e.Passes s t .fresh → t.Acyclic) :
    ∃ fuel, (∃ halt, e.next fuel s .fresh = some (.error halt, .spent, s)) ∨
      e.next fuel s .fresh = some (.ok false, .spent, s) ∨
      ∃ undo t, e.next fuel s .fresh = some (.ok true, .bound undo, t) ∧ t.restore undo = s ∧
        t.Acyclic := by
  obtain ⟨sides, found⟩ := e.sides_returns acyclic
  rcases sides with halt | ⟨left, right⟩
  · exact ⟨0, .inl ⟨halt, by simp only [next, found]⟩⟩
  · obtain ⟨fuel, result, done⟩ := Store.tryUnify_returns fun t passes =>
      calm t ⟨left, right, found, passes⟩
    refine ⟨fuel, .inr ?_⟩
    simp only [next, found, done]
    rcases Store.tryUnify_cases done with ⟨undo, t, rfl, unified, undone⟩ | ⟨_, rfl, -⟩
    · exact .inr ⟨undo, t, rfl, undone, calm t ⟨left, right, found, Store.passes_of_unify unified⟩⟩
    · exact .inl rfl

end Equation

namespace Member

variable {element list : Term} {saved : Snapshot}

def Continues (element : Term) (saved : Snapshot) (position next : Term × Store) : Prop :=
  ∃ fuel, step fuel element saved position = some (.again next)

def PassesFrom (element : Term) (saved : Snapshot) (position : Term × Store) (t : Store) : Prop :=
  ∃ list s head tail, Relation.ReflTransGen (Continues element saved) position (list, s) ∧
    s.cell? list = some (some (head, tail)) ∧ s.Passes element head t

/-- Asking the membership is at this store at some moment. -/
def Passes (element : Term) (s t : Store) : Phase → Prop
  | .fresh list =>
      ∃ fuel saved, s.snapshot fuel element = some saved ∧ PassesFrom element saved (list, s) t
  | .tried saved savedHead tail => PassesFrom element saved (tail, undo s saved savedHead) t
  | .done => False

theorem step_returns (acyclic : s.Acyclic)
    (calm : ∀ t, PassesFrom element saved (list, s) t → t.Acyclic) :
    ∃ fuel turn, step fuel element saved (list, s) = some turn := by
  obtain ⟨u, done⟩ := acyclic.chainsEnd list
  cases found : u.cell? with
  | none =>
      refine ⟨0, ?_⟩
      simp only [step, Store.cell?, done, Option.map_some, found]
      exact ⟨_, rfl⟩
  | some cell =>
      obtain ⟨head, tail⟩ := cell
      have cell : s.cell? list = some (some (head, tail)) := by
        simp only [Store.cell?, done, Option.map_some, found]
      obtain ⟨m, savedHead, snapped⟩ := Store.snapshot_returns acyclic head
      obtain ⟨n, answer, bound, unified⟩ := Store.unify_returns fun t passes =>
        calm t ⟨list, s, head, tail, .refl, cell, passes⟩
      refine ⟨max m n, ?_⟩
      simp only [step, cell, Store.snapshot_mono (Nat.le_max_left m n) snapped,
        Store.unify_mono (Nat.le_max_right m n) unified]
      cases answer <;> exact ⟨_, rfl⟩

/-- What a walk over the rest of a list comes to: nothing, or an answer with less of it left. -/
def Finds (s : Store) (saved : Snapshot) (list : Term) (result : Bool × Phase × Store) : Prop :=
  result = (false, .done, s) ∨ ∃ savedHead tail t, result = (true, .tried saved savedHead tail, t) ∧
    undo t saved savedHead = s ∧ t.Acyclic ∧
    (tail.subst s.trees).nodes < (list.subst s.trees).nodes

theorem leads_of_calm (acyclic : s.Acyclic) (exact : ∀ v, v ∈ saved.vars ↔ s.Free element v)
    (calm : ∀ t, PassesFrom element saved (list, s) t → t.Acyclic) :
    ∃ result, Finds s saved list result ∧
      Turn.Leads (fun position turn => ∃ fuel, step fuel element saved position = some turn)
        (list, s) result := by
  induction size : (list.subst s.trees).nodes using Nat.strong_induction_on generalizing list with
  | _ n ih =>
      obtain ⟨fuel, turn, taken⟩ := step_returns acyclic calm
      rcases step_cases exact taken with ⟨-, rfl⟩ | ⟨head, tail, cell, outcome⟩
      · exact ⟨_, .inl rfl, .finish ⟨fuel, taken⟩⟩
      · have smaller : (tail.subst s.trees).nodes < (list.subst s.trees).nodes :=
          acyclic.nodes_lt_of_arg (Store.deref_of_cell cell) (by simp [Term.cons, Term.args])
        rcases outcome with ⟨savedHead, t, unified, undone, rfl⟩ | ⟨_, -, rfl⟩
        · have passes := Store.passes_of_unify unified
          have after := calm t ⟨list, s, head, tail, .refl, cell, passes⟩
          exact ⟨_, .inr ⟨savedHead, tail, t, rfl, undone, after, smaller⟩, .finish ⟨fuel, taken⟩⟩
        · have calm' : ∀ t, PassesFrom element saved (tail, s) t → t.Acyclic := by
            rintro t ⟨list', s', head', tail', path, cell', passes⟩
            exact calm t ⟨list', s', head', tail', path.head ⟨fuel, taken⟩, cell', passes⟩
          obtain ⟨result, finds, leads⟩ := ih _ (size ▸ smaller) calm' rfl
          refine ⟨result, ?_, .again ⟨fuel, taken⟩ leads⟩
          rcases finds with same | ⟨savedHead, rest, t, same, undone, after, less⟩
          · exact .inl same
          · exact .inr ⟨savedHead, rest, t, same, undone, after, by omega⟩

theorem Standing.exists_walk {phase : Phase} (standing : Standing s element list phase t)
    (acyclic : s.Acyclic) :
    ∃ saved, (∀ v, v ∈ saved.vars ↔ s.Free element v) ∧
      (∀ u, PassesFrom element saved (list, s) u → Passes element t u phase) ∧
      ∀ result,
        Turn.Leads (fun position turn => ∃ fuel, step fuel element saved position = some turn)
          (list, s) result → ∃ fuel, next fuel element t phase = some result := by
  have iterates {saved : Snapshot} {result : Bool × Phase × Store} (leads : Turn.Leads
        (fun position turn => ∃ fuel, step fuel element saved position = some turn)
        (list, s) result) :
      ∃ fuel, Turn.iterate (step fuel element saved) fuel (list, s) = some result :=
    Turn.iterate_of_leads (fun fuel => step fuel element saved) (fun enough => step_mono enough)
      (fun _ _ taken => taken) leads
  cases standing with
  | fresh =>
      obtain ⟨m, saved, snapped⟩ := Store.snapshot_returns acyclic element
      refine ⟨saved, fun v => Store.mem_snapshot snapped,
        fun u passes => ⟨m, saved, snapped, passes⟩, fun result leads => ?_⟩
      obtain ⟨n, done⟩ := iterates leads
      refine ⟨max m n, ?_⟩
      simp only [next, Store.snapshot_mono (Nat.le_max_left m n) snapped]
      exact Turn.iterate_mono (step_mono (Nat.le_max_right m n)) (Nat.le_max_right m n) done
  | @tried saved savedHead _ exact undone =>
      refine ⟨saved, exact, fun u passes => ?_, fun result leads => ?_⟩
      · simp only [Passes, undone]
        exact passes
      · obtain ⟨fuel, done⟩ := iterates leads
        exact ⟨fuel, by simp only [next, undone, done]⟩

theorem next_returns {phase : Phase} (standing : Standing s element list phase t)
    (acyclic : s.Acyclic) (calm : ∀ u, Passes element t u phase → u.Acyclic) :
    ∃ saved result fuel, (∀ v, v ∈ saved.vars ↔ s.Free element v) ∧ Finds s saved list result ∧
      next fuel element t phase = some result := by
  obtain ⟨saved, exact, passes, returns⟩ := standing.exists_walk acyclic
  obtain ⟨result, finds, leads⟩ := leads_of_calm acyclic exact fun u walked =>
    calm u (passes u walked)
  obtain ⟨fuel, done⟩ := returns result leads
  exact ⟨saved, result, fuel, exact, finds, done⟩

end Member

end LogicSearch
