import LogicSearch.Goal.Equation
import LogicSearch.Goal.Test
import LogicSearch.Proofs.Store.Likeness

namespace LogicSearch

variable {L : Likeness} {S : Store → Store → Prop} {s t : Store} {fuel : Nat}

inductive Test.Alike (L : Likeness) : Test → Test → Prop where
  | truth : Alike L .truth .truth
  | failure : Alike L .failure .failure
  | cut : Alike L .cut .cut
  | notUnifiable {l r l' r' : Term} : L.terms l l' → L.terms r r' →
      Alike L (.notUnifiable l r) (.notUnifiable l' r')
  | ofKind {kind : Kind} {t t' : Term} : L.terms t t' → Alike L (.ofKind kind t) (.ofKind kind t')
  | compare {comparison : Comparison} {l r l' r' : Term} : L.terms l l' → L.terms r r' →
      Alike L (.compare comparison l r) (.compare comparison l' r')

theorem Test.Alike.run {test test' : Test} (sim : L.Simulates S) (alike : test.Alike L test')
    (stores : S s t) {answer : Except Halt Bool} {s₁ : Store}
    (done : test.run fuel s = some (answer, s₁)) :
    ∃ more t₁, test'.run more t = some (answer, t₁) ∧ S s₁ t₁ := by
  cases alike with
  | truth =>
      cases done
      exact ⟨0, t, rfl, stores⟩
  | failure =>
      cases done
      exact ⟨0, t, rfl, stores⟩
  | cut =>
      cases done
      exact ⟨0, t, rfl, stores⟩
  | notUnifiable left right =>
      simp only [Test.run] at done
      split at done
      · cases done
      · rename_i undo bound tried
        cases done
        obtain ⟨more, bound', tried', related, own⟩ := sim.tryUnify stores left right tried
        refine ⟨more, bound'.restore undo, ?_, sim.restore related (own undo rfl)⟩
        simp only [Test.run, tried']
      · rename_i restored tried
        cases done
        obtain ⟨more, restored', tried', related, -⟩ := sim.tryUnify stores left right tried
        exact ⟨more, restored', by simp only [Test.run, tried'], related⟩
  | ofKind like =>
      simp only [Test.run] at done
      split at done
      · cases done
      · rename_i answer holds
        cases done
        exact ⟨0, t, by simp only [Test.run, sim.kind stores like holds], stores⟩
  | compare left right =>
      simp only [Test.run] at done
      split at done
      · cases done
      · rename_i halt first
        cases done
        exact ⟨0, t, by simp only [Test.run, sim.eval stores left first], stores⟩
      · rename_i x first
        split at done
        · cases done
        · rename_i halt second
          cases done
          refine ⟨0, t, ?_, stores⟩
          simp only [Test.run, sim.eval stores left first, sim.eval stores right second]
        · rename_i y second
          cases done
          refine ⟨0, t, ?_, stores⟩
          simp only [Test.run, sim.eval stores left first, sim.eval stores right second]

inductive Equation.Alike (L : Likeness) : Equation → Equation → Prop where
  | unify {l r l' r' : Term} : L.terms l l' → L.terms r r' → Alike L (.unify l r) (.unify l' r')
  | evaluate {x e x' e' : Term} : L.terms x x' → L.terms e e' →
      Alike L (.evaluate x e) (.evaluate x' e')

def Equation.Phase.Owned (L : Likeness) : Equation.Phase → Prop
  | .bound undo => ∀ v ∈ undo.vars, L.own v
  | _ => True

theorem Equation.Alike.sides_ok {e e' : Equation} (sim : L.Simulates S) (alike : e.Alike L e')
    (stores : S s t) {l r : Term} (sides : e.sides s = some (.ok (l, r))) :
    ∃ l' r', e'.sides t = some (.ok (l', r')) ∧ L.terms l l' ∧ L.terms r r' := by
  cases alike with
  | unify left right =>
      cases sides
      exact ⟨_, _, rfl, left, right⟩
  | evaluate result expression =>
      simp only [Equation.sides] at sides ⊢
      split at sides <;> cases sides
      rename_i value
      rw [sim.eval stores expression value]
      exact ⟨_, _, rfl, result, sim.int _⟩

theorem Equation.Alike.sides_error {e e' : Equation} (sim : L.Simulates S) (alike : e.Alike L e')
    (stores : S s t) {halt : Halt} (sides : e.sides s = some (.error halt)) :
    e'.sides t = some (.error halt) := by
  cases alike with
  | unify left right => cases sides
  | evaluate result expression =>
      simp only [Equation.sides] at sides ⊢
      split at sides <;> cases sides
      rename_i value
      rw [sim.eval stores expression value]

theorem Equation.Alike.next {e e' : Equation} (sim : L.Simulates S) (alike : e.Alike L e')
    (stores : S s t) {phase : Equation.Phase} (owned : phase.Owned L)
    {r : Except Halt Bool × Equation.Phase × Store} (done : e.next fuel s phase = some r) :
    ∃ more s', e'.next more t phase = some (r.1, r.2.1, s') ∧ r.2.1.Owned L ∧ S r.2.2 s' := by
  cases phase with
  | spent =>
      cases done
      exact ⟨0, _, rfl, trivial, stores⟩
  | bound undo =>
      cases done
      exact ⟨0, _, rfl, trivial, sim.restore stores owned⟩
  | fresh =>
      simp only [Equation.next] at done
      split at done
      · cases done
      · rename_i halt sides
        cases done
        refine ⟨0, t, ?_, trivial, stores⟩
        simp only [Equation.next, alike.sides_error sim stores sides]
      · rename_i l r sides
        obtain ⟨l', r', sides', left, right⟩ := alike.sides_ok sim stores sides
        split at done
        · cases done
        · rename_i undo bound tried
          cases done
          obtain ⟨more, bound', tried', related, own⟩ := sim.tryUnify stores left right tried
          exact ⟨more, bound', by simp only [Equation.next, sides', tried'], own undo rfl, related⟩
        · rename_i restored tried
          cases done
          obtain ⟨more, restored', tried', related, -⟩ := sim.tryUnify stores left right tried
          exact ⟨more, restored', by simp only [Equation.next, sides', tried'], trivial, related⟩

theorem Equation.Phase.Owned.abort {phase : Equation.Phase} (sim : L.Simulates S)
    (owned : phase.Owned L) (stores : S s t) :
    (Equation.abort t phase).1 = (Equation.abort s phase).1 ∧
      (Equation.abort s phase).1.Owned L ∧
      S (Equation.abort s phase).2 (Equation.abort t phase).2 := by
  cases phase with
  | bound undo => exact ⟨rfl, trivial, sim.restore stores owned⟩
  | _ => exact ⟨rfl, owned, stores⟩

namespace Member

inductive Phase.Alike (L : Likeness) : Phase → Phase → Prop where
  | fresh {list list' : Term} : L.terms list list' → Alike L (.fresh list) (.fresh list')
  | tried {saved head : Snapshot} {tail tail' : Term} : (∀ v ∈ saved.vars, L.own v) →
      (∀ v ∈ head.vars, L.own v) → L.terms tail tail' →
      Alike L (.tried saved head tail) (.tried saved head tail')
  | done : Alike L .done .done

def Positions (L : Likeness) (S : Store → Store → Prop) (a b : Term × Store) : Prop :=
  L.terms a.1 b.1 ∧ S a.2 b.2

def Results (L : Likeness) (S : Store → Store → Prop) (a b : Bool × Phase × Store) : Prop :=
  b.1 = a.1 ∧ a.2.1.Alike L b.2.1 ∧ S a.2.2 b.2.2

theorem undo_alike {saved head : Snapshot} (sim : L.Simulates S) (stores : S s t)
    (own : ∀ v ∈ saved.vars, L.own v) (ownHead : ∀ v ∈ head.vars, L.own v) :
    S (undo s saved head) (undo t saved head) :=
  sim.restore (sim.restore stores ownHead) own

theorem step_alike {element element' : Term} {saved : Snapshot} {a b : Term × Store}
    (sim : L.Simulates S) (like : L.terms element element') (own : ∀ v ∈ saved.vars, L.own v)
    (positions : Positions L S a b) {turn : Turn (Term × Store) (Bool × Phase × Store)}
    (taken : step fuel element saved a = some turn) :
    Turn.Answered (fun b turn => ∃ more, step more element' saved b = some turn) (Positions L S)
      (Results L S) b turn := by
  suffices answer : ∃ turn', (∃ more, step more element' saved b = some turn') ∧
      Turn.Alike (Positions L S) (Results L S) turn turn' by
    obtain ⟨turn', taken', alike⟩ := answer
    exact alike.answered taken'
  obtain ⟨list, s⟩ := a
  obtain ⟨list', t⟩ := b
  obtain ⟨lists, stores⟩ := positions
  simp only [step] at taken ⊢
  split at taken
  · cases taken
  · rename_i ended
    cases taken
    rw [sim.cell_none stores lists ended]
    exact ⟨.finish (false, .done, t), ⟨0, rfl⟩, .finish ⟨rfl, .done, stores⟩⟩
  · rename_i head tail found
    obtain ⟨head', tail', found', heads, tails⟩ := sim.cell_some stores lists found
    rw [found']
    split at taken
    · cases taken
    · rename_i savedHead snapped
      obtain ⟨⟨m, snapped'⟩, ownHead⟩ := sim.snapshot stores heads snapped
      split at taken
      · cases taken
      · rename_i bound attempt
        cases taken
        obtain ⟨n, bound', attempt', related⟩ := sim.unify stores like heads attempt
        refine ⟨.finish (true, .tried saved savedHead tail', bound'), ⟨max m n, ?_⟩,
          .finish ⟨rfl, .tried own ownHead tails, related⟩⟩
        simp only [Store.snapshot_mono (Nat.le_max_left m n) snapped',
          Store.unify_mono (Nat.le_max_right m n) attempt']
      · rename_i bound attempt
        cases taken
        obtain ⟨n, bound', attempt', related⟩ := sim.unify stores like heads attempt
        refine ⟨.again (tail', undo bound' saved savedHead), ⟨max m n, ?_⟩,
          .again ⟨tails, undo_alike sim related own ownHead⟩⟩
        simp only [Store.snapshot_mono (Nat.le_max_left m n) snapped',
          Store.unify_mono (Nat.le_max_right m n) attempt']

theorem walk_alike {element element' list list' : Term} {saved : Snapshot} {limit : Nat}
    (sim : L.Simulates S) (like : L.terms element element') (own : ∀ v ∈ saved.vars, L.own v)
    (lists : L.terms list list') (stores : S s t) {r : Bool × Phase × Store}
    (done : Turn.iterate (step fuel element saved) limit (list, s) = some r) :
    ∃ more r', Turn.iterate (step more element' saved) more (list', t) = some r' ∧
      Results L S r r' := by
  have start : Positions L S (list, s) (list', t) := ⟨lists, stores⟩
  obtain ⟨r', leads, results⟩ := (Turn.leads_of_iterate (fun _ _ taken => taken) done).along
    (fun _ _ _ positions taken => step_alike sim like own positions taken) start
  obtain ⟨more, done'⟩ := Turn.iterate_of_leads (fun fuel => step fuel element' saved)
    (fun enough => step_mono enough) (fun _ _ taken => taken) leads
  exact ⟨more, r', done', results⟩

theorem next_alike {element element' : Term} {phase phase' : Phase} (sim : L.Simulates S)
    (like : L.terms element element') (phases : phase.Alike L phase') (stores : S s t)
    {r : Bool × Phase × Store} (done : next fuel element s phase = some r) :
    ∃ more r', next more element' t phase' = some r' ∧ Results L S r r' := by
  cases phases with
  | done =>
      cases done
      exact ⟨0, _, rfl, rfl, .done, stores⟩
  | tried own ownHead tails =>
      exact walk_alike sim like own tails (undo_alike sim stores own ownHead) done
  | fresh lists =>
      simp only [next] at done
      split at done
      · cases done
      · rename_i saved snapped
        obtain ⟨⟨m, snapped'⟩, own⟩ := sim.snapshot stores like snapped
        obtain ⟨n, r', done', results⟩ := walk_alike sim like own lists stores done
        refine ⟨max m n, r', ?_, results⟩
        simp only [next, Store.snapshot_mono (Nat.le_max_left m n) snapped']
        exact Turn.iterate_mono (step_mono (Nat.le_max_right m n)) (Nat.le_max_right m n) done'

theorem abort_alike {phase phase' : Phase} (sim : L.Simulates S) (phases : phase.Alike L phase')
    (stores : S s t) :
    (abort s phase).1.Alike L (abort t phase').1 ∧ S (abort s phase).2 (abort t phase').2 := by
  cases phases with
  | tried own ownHead _ => exact ⟨.done, undo_alike sim stores own ownHead⟩
  | _ => exact ⟨.done, stores⟩

end Member

end LogicSearch
