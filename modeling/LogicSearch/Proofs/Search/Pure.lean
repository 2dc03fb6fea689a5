import LogicSearch.Proofs.Goal.Spine
import LogicSearch.Proofs.Search.Laws

namespace LogicSearch

inductive PureGoal where
  | truth
  | failure
  | equation (left right : Term)
  | member (element list : Term)
  | both (left right : PureGoal)
  | either (left right : PureGoal)

namespace PureGoal

def term : PureGoal → Term
  | truth => .atom .truth
  | failure => .atom .fail
  | equation l r => .compound .equals l [r]
  | member e l => .compound .member e [l]
  | both p q => .compound .comma p.term [q.term]
  | either p q => .compound .semicolon p.term [q.term]

/-- Every list that is searched has a spine in the store. -/
def Closed (s : Store) : PureGoal → Prop
  | member _ l => ∃ heads, s.Spine l heads
  | both p q | either p q => p.Closed s ∧ q.Closed s
  | truth | failure | equation _ _ => True

/-- The goal read as a formula. -/
def Satisfied (s : Store) (θ : Assignment) : PureGoal → Prop
  | truth => True
  | failure => False
  | equation l r => l.subst θ = r.subst θ
  | member e l => ∃ heads, s.Spine l heads ∧ ∃ head ∈ heads, e.subst θ = head.subst θ
  | both p q => p.Satisfied s θ ∧ q.Satisfied s θ
  | either p q => p.Satisfied s θ ∨ q.Satisfied s θ

variable {s t : Store} {θ : Assignment}

theorem Closed.le {p : PureGoal} (closed : p.Closed s) (larger : s ≤ t) : p.Closed t := by
  induction p with
  | member e l =>
      obtain ⟨heads, spine⟩ := closed
      exact ⟨heads, spine.le larger⟩
  | both p q left right => exact ⟨left closed.1, right closed.2⟩
  | either p q left right => exact ⟨left closed.1, right closed.2⟩
  | _ => trivial

theorem Closed.satisfied_le {p : PureGoal} (closed : p.Closed s) (larger : s ≤ t) :
    p.Satisfied t θ ↔ p.Satisfied s θ := by
  induction p with
  | member e l =>
      obtain ⟨heads, spine⟩ := closed
      constructor
      · rintro ⟨heads', spine', found⟩
        rw [spine'.unique (spine.le larger)] at found
        exact ⟨heads, spine, found⟩
      · rintro ⟨heads', spine', found⟩
        exact ⟨heads', spine'.le larger, found⟩
  | both p q left right => exact and_congr (left closed.1) (right closed.2)
  | either p q left right => exact or_congr (left closed.1) (right closed.2)
  | _ => exact Iff.rfl

end PureGoal

/-- The models of the answers are the models of the store that fit the formula. -/
def Covers (s : Store) (formula : Assignment → Prop) (answers : List Machine) : Prop :=
  ∀ θ, (∃ a ∈ answers, a.store.Models θ) ↔ s.Models θ ∧ formula θ

section Covers

variable {s t : Store} {formula other : Assignment → Prop} {answers more : List Machine}
  {m : Machine}

theorem covers_nil (none : ∀ θ, s.Models θ → ¬ formula θ) : Covers s formula [] := by
  intro θ
  simpa using none θ

theorem Covers.append (first : Covers s formula answers) (second : Covers s other more) :
    Covers s (fun θ => formula θ ∨ other θ) (answers ++ more) := by
  intro θ
  simp only [List.mem_append, or_and_right, exists_or, first θ, second θ, and_or_left]

theorem covers_singleton (models : ∀ θ, m.store.Models θ ↔ s.Models θ ∧ formula θ) :
    Covers s formula [m] := by
  intro θ
  simpa using models θ

theorem Covers.congr (covers : Covers s formula answers)
    (same : ∀ θ, s.Models θ → (formula θ ↔ other θ)) : Covers s other answers := by
  intro θ
  calc
    (∃ a ∈ answers, a.store.Models θ) ↔ s.Models θ ∧ formula θ := covers θ
    _ ↔ s.Models θ ∧ other θ := and_congr_right (same θ)

end Covers

open Activation (Asks Gives)
open Member (Standing)
open Run (Returns)

variable {U : Type} [Plugin U] {m : Machine} {answers : List Machine} {e : Run.End}

theorem gives_truth (gives : Gives (Registry.builtins : Registry U) (.test .truth false) m answers
    (some e)) : e = .failed ∧ Covers m.store (fun _ => True) answers := by
  have first : Asks (Registry.builtins : Registry U) (.test .truth false) m
      ⟨.ok true, .test .truth true, m⟩ := ⟨1, rfl⟩
  have second : Asks (Registry.builtins : Registry U) (.test .truth true) m
      ⟨.ok false, .test .truth true, m⟩ := ⟨1, rfl⟩
  obtain ⟨later, rfl, rest⟩ := gives.of_answer first
  obtain ⟨rfl, ended⟩ := rest.of_failure second
  exact ⟨ended, covers_singleton fun θ => by simp⟩

theorem gives_failure (gives : Gives (Registry.builtins : Registry U) (.test .failure false) m
    answers (some e)) : e = .failed ∧ Covers m.store (fun _ => False) answers := by
  have first : Asks (Registry.builtins : Registry U) (.test .failure false) m
      ⟨.ok false, .test .failure true, m⟩ := ⟨1, rfl⟩
  obtain ⟨rfl, ended⟩ := gives.of_failure first
  exact ⟨ended, covers_nil fun _ _ impossible => impossible⟩

theorem gives_equation {l r : Term} (gives : Gives (Registry.builtins : Registry U)
    (.equation (.unify l r) .fresh) m answers (some e)) :
    e = .failed ∧ Covers m.store (fun θ => l.subst θ = r.subst θ) answers := by
  obtain ⟨reply, fuel, asked⟩ := gives.first
  cases fuel with
  | zero => cases asked
  | succ fuel =>
      have first : Asks (Registry.builtins : Registry U) (.equation (.unify l r) .fresh) m reply :=
        ⟨fuel + 1, asked⟩
      obtain ⟨result, tried, rfl⟩ := Option.map_eq_some_iff.mp asked
      simp only [Equation.next, Equation.sides] at tried
      split at tried
      · cases tried
      · rename_i undo bound attempt
        cases tried
        rcases Store.tryUnify_cases attempt with ⟨_, t, same, unified, undone⟩ | ⟨_, same, -⟩
        · cases same
          have second : Asks (Registry.builtins : Registry U)
              (.equation (.unify l r) (.bound undo)) (m.withStore bound)
              ⟨.ok false, .equation (.unify l r) .spent, m.withStore (bound.restore undo)⟩ :=
            ⟨1, rfl⟩
          obtain ⟨later, rfl, rest⟩ := gives.of_answer first
          obtain ⟨rfl, ended⟩ := rest.of_failure second
          exact ⟨ended, covers_singleton fun θ => Store.models_unify unified⟩
        · cases same
      · rename_i restored attempt
        cases tried
        rcases Store.tryUnify_cases attempt with ⟨_, _, same, -, -⟩ | ⟨_, same, failed⟩
        · cases same
        · obtain ⟨rfl, ended⟩ := gives.of_failure first
          exact ⟨ended, covers_nil fun θ model => Store.no_models_of_unify failed model⟩

theorem asks_member {s : Store} {element list : Term} {phase : Member.Phase} {heads : List Term}
    {reply : Reply Machine (Activation U)}
    (asked : Asks (Registry.builtins : Registry U) (.member element phase) m reply)
    (standing : Standing s element list phase m.store) (spine : s.Spine list heads) :
    (reply = ⟨.ok false, .member element .done, m.withStore s⟩ ∧
      ∀ θ, s.Models θ → ∀ head ∈ heads, element.subst θ ≠ head.subst θ) ∨
    ∃ passed head rest fuel tail phase' t, heads = passed ++ head :: rest ∧
      (∀ θ, s.Models θ → ∀ head ∈ passed, element.subst θ ≠ head.subst θ) ∧
      s.unify fuel element head = some (true, t) ∧ s.Spine tail rest ∧
      Standing s element tail phase' t ∧
      reply = ⟨.ok true, .member element phase', m.withStore t⟩ := by
  obtain ⟨fuel, asked⟩ := asked
  cases fuel with
  | zero => cases asked
  | succ fuel =>
      obtain ⟨result, walked, rfl⟩ := Option.map_eq_some_iff.mp asked
      obtain ⟨saved, exact, leads⟩ := standing.walk walked
      rcases Member.walk_cases exact leads spine with
        ⟨rfl, none⟩ |
        ⟨passed, head, rest, savedHead, tail, t, split, none, unified, later, undone, rfl⟩
      · exact .inl ⟨rfl, none⟩
      · exact .inr ⟨passed, head, rest, fuel, tail, _, t, split, none, unified, later,
          .tried exact undone, rfl⟩

theorem gives_member {s : Store} {element list : Term} {phase : Member.Phase} {heads : List Term}
    (gives : Gives (Registry.builtins : Registry U) (.member element phase) m answers (some e))
    (standing : Standing s element list phase m.store) (spine : s.Spine list heads) :
    e = .failed ∧
      Covers s (fun θ => ∃ head ∈ heads, element.subst θ = head.subst θ) answers := by
  induction size : heads.length using Nat.strongRecOn
    generalizing m list heads phase answers with
  | ind n ih =>
      obtain ⟨reply, asked⟩ := gives.first
      rcases asks_member asked standing spine with
        ⟨rfl, none⟩ |
        ⟨passed, head, rest, fuel, tail, phase', t, rfl, none, unified, later, standing', rfl⟩
      · obtain ⟨rfl, ended⟩ := gives.of_failure asked
        refine ⟨ended, covers_nil fun θ model => ?_⟩
        rintro ⟨head, member, equal⟩
        exact none θ model head member equal
      · obtain ⟨others, rfl, gives'⟩ := gives.of_answer asked
        have shorter : rest.length < n := by
          rw [← size]
          simp only [List.length_append, List.length_cons]
          omega
        obtain ⟨ended, after⟩ := ih _ shorter gives' standing' later rfl
        have here : Covers s (fun θ => element.subst θ = head.subst θ) [m.withStore t] :=
          covers_singleton fun θ => Store.models_unify unified
        refine ⟨ended, (here.append after).congr fun θ model => ?_⟩
        have before := none θ model
        simp only [List.mem_append, List.mem_cons]
        constructor
        · rintro (equal | ⟨other, member, equal⟩)
          · exact ⟨head, .inr (.inl rfl), equal⟩
          · exact ⟨other, .inr (.inr member), equal⟩
        · rintro ⟨other, member | rfl | member, equal⟩
          · exact (before other member equal).elim
          · exact .inl equal
          · exact .inr ⟨other, member, equal⟩

theorem models_of_binds {right : Assignment → Prop} {returns : Machine → Run → Prop}
    {ending : Option Run.End} {run : Run} (binds : Conjunction.Binds returns answers ending run)
    (each : ∀ a ∈ answers, ∀ run, returns a run →
      run.ending = .failed ∧ Covers a.store right run.answers) :
    ending = some run.ending ∧ ∀ θ, (∃ a ∈ run.answers, a.store.Models θ) ↔
      (∃ a ∈ answers, a.store.Models θ) ∧ right θ := by
  induction binds with
  | ends => exact ⟨rfl, by simp⟩
  | stop returned other => exact (other (each _ List.mem_cons_self _ returned).1).elim
  | @goOn m answers front ending run returned _ ih =>
      have here := (each m List.mem_cons_self _ returned).2
      obtain ⟨ended, models⟩ := ih fun a member => each a (List.mem_cons_of_mem _ member)
      refine ⟨ended, fun θ => ?_⟩
      simp only [List.mem_append, or_and_right, exists_or, here θ, models, List.mem_cons,
        exists_eq_left]

/-- A run of a pure goal ends by plain failure and covers the goal read as a formula. -/
theorem returns_pure {p : PureGoal} {run : Run}
    (returned : Returns (Registry.builtins : Registry U) p.term m run)
    (closed : p.Closed m.store) :
    run.ending = .failed ∧ Covers m.store (fun θ => p.Satisfied m.store θ) run.answers := by
  induction p generalizing m run with
  | truth => exact gives_truth (returned.gives rfl)
  | failure => exact gives_failure (returned.gives rfl)
  | equation l r => exact gives_equation (returned.gives rfl)
  | member element list =>
      obtain ⟨heads, spine⟩ := closed
      obtain ⟨ended, covers⟩ := gives_member (returned.gives rfl) .fresh spine
      refine ⟨ended, covers.congr fun θ _ => ⟨fun found => ⟨heads, spine, found⟩, ?_⟩⟩
      rintro ⟨heads', spine', found⟩
      rw [spine'.unique spine] at found
      exact found
  | both p q left right =>
      obtain ⟨answers, ending, shown, binds⟩ := Conjunction.returns_iff.mp returned
      have each : ∀ a ∈ answers, ∀ run, Returns (Registry.builtins : Registry U) q.term a run →
          run.ending = .failed ∧ Covers a.store (fun θ => q.Satisfied m.store θ) run.answers := by
        intro a member run returned
        have larger := shown.kept a member
        obtain ⟨ended, covers⟩ := right returned (closed.2.le larger)
        exact ⟨ended, covers.congr fun θ _ => closed.2.satisfied_le larger⟩
      obtain ⟨rfl, models⟩ := models_of_binds binds each
      have first : Returns (Registry.builtins : Registry U) p.term m ⟨answers, run.ending⟩ :=
        Run.returns_iff_shows.mpr shown
      obtain ⟨ended, covers⟩ := left first closed.1
      refine ⟨ended, fun θ => ?_⟩
      rw [models θ, covers θ, and_assoc]
      rfl
  | either p q left right =>
      rcases Disjunction.returns_iff.mp returned with
        ⟨front, back, first, second, rfl⟩ | ⟨other, first⟩
      · obtain ⟨ended, covers⟩ := right second closed.2
        exact ⟨ended, (left first closed.1).2.append covers⟩
      · exact (other (left first closed.1).1).elim

end LogicSearch
