import LogicSearch.Proofs.Loop
import LogicSearch.Search.Drive

/-!
What one move of a conjunction or a disjunction can do, and what asking an activation leads to when
no bound is put on its turns. Every later fact about a combinator is a case analysis over `Moves`.
-/

namespace LogicSearch

/-- A solver as relations, so that it may also stand for one without fuel. -/
structure Protocol (σ G : Type) where
  call : Term → σ → Except Halt G × σ → Prop
  asks : G → σ → Reply σ G → Prop
  abort : G → σ → G × σ
  committed : G → Bool

def Solver.protocol {σ G : Type} (solver : Solver σ G) : Protocol σ G where
  call t state called := solver.call t state = some called
  asks goal state reply := solver.next goal state = some reply
  abort := solver.abort
  committed := solver.committed

structure Protocol.Within {σ G : Type} (p q : Protocol σ G) : Prop where
  call : ∀ t state called, p.call t state called → q.call t state called
  asks : ∀ goal state reply, p.asks goal state reply → q.asks goal state reply
  abort : p.abort = q.abort
  committed : p.committed = q.committed

namespace Conjunction

variable {σ G : Type}

inductive Moves (p : Protocol σ G) :
    Conjunction G × σ → Turn (Conjunction G × σ) (Reply σ (Conjunction G)) → Prop where
  | done {l r : Term} {committed : Bool} {s : σ} :
      Moves p (⟨l, r, .done committed⟩, s) (.finish ⟨.ok false, ⟨l, r, .done committed⟩, s⟩)
  | calls {l r : Term} {g : G} {s s' : σ} :
      p.call l s (.ok g, s') → Moves p (⟨l, r, .fresh⟩, s) (.again (⟨l, r, .left g⟩, s'))
  | refused {l r : Term} {halt : Halt} {s s' : σ} : p.call l s (.error halt, s') →
      Moves p (⟨l, r, .fresh⟩, s) (.finish ⟨.error halt, ⟨l, r, .fresh⟩, s'⟩)
  | leftHalts {l r : Term} {halt : Halt} {g g' : G} {s s' : σ} :
      p.asks g s ⟨.error halt, g', s'⟩ →
      Moves p (⟨l, r, .left g⟩, s) (.finish ⟨.error halt, ⟨l, r, .left g'⟩, s'⟩)
  | leftFails {l r : Term} {g g' : G} {s s' : σ} : p.asks g s ⟨.ok false, g', s'⟩ →
      Moves p (⟨l, r, .left g⟩, s) (.finish ⟨.ok false, ⟨l, r, .done (p.committed g')⟩, s'⟩)
  | leftAnswers {l r : Term} {g below right : G} {s s' s'' : σ} :
      p.asks g s ⟨.ok true, below, s'⟩ → p.call r s' (.ok right, s'') →
      Moves p (⟨l, r, .left g⟩, s) (.again (⟨l, r, .right below right⟩, s''))
  | rightRefused {l r : Term} {halt : Halt} {g below : G} {s s' s'' : σ} :
      p.asks g s ⟨.ok true, below, s'⟩ → p.call r s' (.error halt, s'') →
      Moves p (⟨l, r, .left g⟩, s) (.finish ⟨.error halt, ⟨l, r, .left below⟩, s''⟩)
  | rightHalts {l r : Term} {halt : Halt} {below g g' : G} {s s' : σ} :
      p.asks g s ⟨.error halt, g', s'⟩ →
      Moves p (⟨l, r, .right below g⟩, s) (.finish ⟨.error halt, ⟨l, r, .right below g'⟩, s'⟩)
  | rightAnswers {l r : Term} {below g g' : G} {s s' : σ} : p.asks g s ⟨.ok true, g', s'⟩ →
      Moves p (⟨l, r, .right below g⟩, s) (.finish ⟨.ok true, ⟨l, r, .right below g'⟩, s'⟩)
  | rightFails {l r : Term} {below g g' : G} {s s' : σ} :
      p.asks g s ⟨.ok false, g', s'⟩ → p.committed g' = false →
      Moves p (⟨l, r, .right below g⟩, s) (.again (⟨l, r, .left below⟩, s'))
  | rightCommits {l r : Term} {below g g' : G} {s s' : σ} :
      p.asks g s ⟨.ok false, g', s'⟩ → p.committed g' = true →
      Moves p (⟨l, r, .right below g⟩, s)
        (.finish ⟨.ok false, ⟨l, r, .done true⟩, (p.abort below s').2⟩)

theorem moves_of_step {solver : Solver σ G} {present : Conjunction G × σ}
    {turn : Turn (Conjunction G × σ) (Reply σ (Conjunction G))}
    (taken : step solver present = some turn) : Moves solver.protocol present turn := by
  obtain ⟨⟨l, r, phase⟩, s⟩ := present
  cases phase with
  | done committed =>
      cases taken
      exact .done
  | fresh =>
      simp only [step] at taken
      split at taken
      · cases taken
      · rename_i called
        cases taken
        exact .calls called
      · rename_i called
        cases taken
        exact .refused called
  | left g =>
      simp only [step] at taken
      split at taken
      · cases taken
      · rename_i asked
        cases taken
        exact .leftHalts asked
      · rename_i asked
        cases taken
        exact .leftFails asked
      · rename_i asked
        split at taken
        · cases taken
        · rename_i called
          cases taken
          exact .leftAnswers asked called
        · rename_i called
          cases taken
          exact .rightRefused asked called
  | right below g =>
      simp only [step] at taken
      split at taken
      · cases taken
      · rename_i asked
        cases taken
        exact .rightHalts asked
      · rename_i asked
        cases taken
        exact .rightAnswers asked
      · rename_i g' s' asked
        by_cases cut : solver.committed g' = true
        · rw [if_pos cut] at taken
          cases taken
          exact .rightCommits asked cut
        · rw [if_neg cut] at taken
          cases taken
          exact .rightFails asked (Bool.eq_false_iff.mpr cut)

theorem step_of_moves {solver : Solver σ G} {present : Conjunction G × σ}
    {turn : Turn (Conjunction G × σ) (Reply σ (Conjunction G))}
    (moves : Moves solver.protocol present turn) : step solver present = some turn := by
  cases moves with
  | done => rfl
  | calls called => simp only [step, show solver.call _ _ = _ from called]
  | refused called => simp only [step, show solver.call _ _ = _ from called]
  | leftHalts asked => simp only [step, show solver.next _ _ = _ from asked]
  | leftFails asked =>
      simp only [step, show solver.next _ _ = _ from asked]
      rfl
  | leftAnswers asked called =>
      simp only [step, show solver.next _ _ = _ from asked, show solver.call _ _ = _ from called]
  | rightRefused asked called =>
      simp only [step, show solver.next _ _ = _ from asked, show solver.call _ _ = _ from called]
  | rightHalts asked => simp only [step, show solver.next _ _ = _ from asked]
  | rightAnswers asked => simp only [step, show solver.next _ _ = _ from asked]
  | rightFails asked cut =>
      simp only [step, show solver.next _ _ = _ from asked,
        show solver.committed _ = false from cut, Bool.false_eq_true, if_false]
  | rightCommits asked cut =>
      simp only [step, show solver.next _ _ = _ from asked,
        show solver.committed _ = true from cut, if_true]
      rfl

theorem Moves.within {p q : Protocol σ G} (within : p.Within q) {present : Conjunction G × σ}
    {turn : Turn (Conjunction G × σ) (Reply σ (Conjunction G))} (moves : Moves p present turn) :
    Moves q present turn := by
  cases moves with
  | done => exact .done
  | calls called => exact .calls (within.call _ _ _ called)
  | refused called => exact .refused (within.call _ _ _ called)
  | leftHalts asked => exact .leftHalts (within.asks _ _ _ asked)
  | leftFails asked =>
      rw [within.committed]
      exact .leftFails (within.asks _ _ _ asked)
  | leftAnswers asked called =>
      exact .leftAnswers (within.asks _ _ _ asked) (within.call _ _ _ called)
  | rightRefused asked called =>
      exact .rightRefused (within.asks _ _ _ asked) (within.call _ _ _ called)
  | rightHalts asked => exact .rightHalts (within.asks _ _ _ asked)
  | rightAnswers asked => exact .rightAnswers (within.asks _ _ _ asked)
  | rightFails asked cut =>
      rw [within.committed] at cut
      exact .rightFails (within.asks _ _ _ asked) cut
  | rightCommits asked cut =>
      rw [within.committed] at cut
      rw [within.abort]
      exact .rightCommits (within.asks _ _ _ asked) cut

theorem done_of_failure {solver : Solver σ G} {fuel : Nat} {c c' : Conjunction G} {s s' : σ}
    (failed : c.next solver fuel s = some ⟨.ok false, c', s'⟩) :
    ∃ l r committed, c' = ⟨l, r, .done committed⟩ := by
  refine (Turn.leads_of_iterate (fun _ _ => moves_of_step) failed).invariant (fun _ => True)
    (fun reply => reply.answer = .ok false → ∃ l r committed, reply.goal = ⟨l, r, .done committed⟩)
    (fun _ _ _ _ => trivial) ?_ trivial rfl
  intro present reply _ moves failed
  cases moves with
  | done | leftFails | rightCommits => exact ⟨_, _, _, rfl⟩
  | _ => cases failed

end Conjunction

namespace Disjunction

variable {σ G : Type}

inductive Moves (p : Protocol σ G) :
    Disjunction G × σ → Turn (Disjunction G × σ) (Reply σ (Disjunction G)) → Prop where
  | done {l r : Term} {committed : Bool} {s : σ} :
      Moves p (⟨l, r, .done committed⟩, s) (.finish ⟨.ok false, ⟨l, r, .done committed⟩, s⟩)
  | calls {l r : Term} {g : G} {s s' : σ} :
      p.call l s (.ok g, s') → Moves p (⟨l, r, .fresh⟩, s) (.again (⟨l, r, .left g⟩, s'))
  | refused {l r : Term} {halt : Halt} {s s' : σ} : p.call l s (.error halt, s') →
      Moves p (⟨l, r, .fresh⟩, s) (.finish ⟨.error halt, ⟨l, r, .fresh⟩, s'⟩)
  | callsRight {l r : Term} {g : G} {s s' : σ} :
      p.call r s (.ok g, s') → Moves p (⟨l, r, .between⟩, s) (.again (⟨l, r, .right g⟩, s'))
  | rightRefused {l r : Term} {halt : Halt} {s s' : σ} : p.call r s (.error halt, s') →
      Moves p (⟨l, r, .between⟩, s) (.finish ⟨.error halt, ⟨l, r, .between⟩, s'⟩)
  | leftHalts {l r : Term} {halt : Halt} {g g' : G} {s s' : σ} :
      p.asks g s ⟨.error halt, g', s'⟩ →
      Moves p (⟨l, r, .left g⟩, s) (.finish ⟨.error halt, ⟨l, r, .left g'⟩, s'⟩)
  | leftAnswers {l r : Term} {g g' : G} {s s' : σ} : p.asks g s ⟨.ok true, g', s'⟩ →
      Moves p (⟨l, r, .left g⟩, s) (.finish ⟨.ok true, ⟨l, r, .left g'⟩, s'⟩)
  | leftFails {l r : Term} {g g' : G} {s s' : σ} :
      p.asks g s ⟨.ok false, g', s'⟩ → p.committed g' = false →
      Moves p (⟨l, r, .left g⟩, s) (.again (⟨l, r, .between⟩, s'))
  | leftCommits {l r : Term} {g g' : G} {s s' : σ} :
      p.asks g s ⟨.ok false, g', s'⟩ → p.committed g' = true →
      Moves p (⟨l, r, .left g⟩, s) (.finish ⟨.ok false, ⟨l, r, .done true⟩, s'⟩)
  | rightHalts {l r : Term} {halt : Halt} {g g' : G} {s s' : σ} :
      p.asks g s ⟨.error halt, g', s'⟩ →
      Moves p (⟨l, r, .right g⟩, s) (.finish ⟨.error halt, ⟨l, r, .right g'⟩, s'⟩)
  | rightAnswers {l r : Term} {g g' : G} {s s' : σ} : p.asks g s ⟨.ok true, g', s'⟩ →
      Moves p (⟨l, r, .right g⟩, s) (.finish ⟨.ok true, ⟨l, r, .right g'⟩, s'⟩)
  | rightFails {l r : Term} {g g' : G} {s s' : σ} : p.asks g s ⟨.ok false, g', s'⟩ →
      Moves p (⟨l, r, .right g⟩, s) (.finish ⟨.ok false, ⟨l, r, .done (p.committed g')⟩, s'⟩)

theorem moves_of_step {solver : Solver σ G} {present : Disjunction G × σ}
    {turn : Turn (Disjunction G × σ) (Reply σ (Disjunction G))}
    (taken : step solver present = some turn) : Moves solver.protocol present turn := by
  obtain ⟨⟨l, r, phase⟩, s⟩ := present
  cases phase with
  | done committed =>
      cases taken
      exact .done
  | fresh =>
      simp only [step] at taken
      split at taken
      · cases taken
      · rename_i called
        cases taken
        exact .calls called
      · rename_i called
        cases taken
        exact .refused called
  | between =>
      simp only [step] at taken
      split at taken
      · cases taken
      · rename_i called
        cases taken
        exact .callsRight called
      · rename_i called
        cases taken
        exact .rightRefused called
  | left g =>
      simp only [step] at taken
      split at taken
      · cases taken
      · rename_i asked
        cases taken
        exact .leftHalts asked
      · rename_i asked
        cases taken
        exact .leftAnswers asked
      · rename_i g' s' asked
        by_cases cut : solver.committed g' = true
        · rw [if_pos cut] at taken
          cases taken
          exact .leftCommits asked cut
        · rw [if_neg cut] at taken
          cases taken
          exact .leftFails asked (Bool.eq_false_iff.mpr cut)
  | right g =>
      simp only [step] at taken
      split at taken
      · cases taken
      · rename_i asked
        cases taken
        exact .rightHalts asked
      · rename_i asked
        cases taken
        exact .rightAnswers asked
      · rename_i asked
        cases taken
        exact .rightFails asked

theorem step_of_moves {solver : Solver σ G} {present : Disjunction G × σ}
    {turn : Turn (Disjunction G × σ) (Reply σ (Disjunction G))}
    (moves : Moves solver.protocol present turn) : step solver present = some turn := by
  cases moves with
  | done => rfl
  | calls called => simp only [step, show solver.call _ _ = _ from called]
  | refused called => simp only [step, show solver.call _ _ = _ from called]
  | callsRight called => simp only [step, show solver.call _ _ = _ from called]
  | rightRefused called => simp only [step, show solver.call _ _ = _ from called]
  | leftHalts asked => simp only [step, show solver.next _ _ = _ from asked]
  | leftAnswers asked => simp only [step, show solver.next _ _ = _ from asked]
  | leftFails asked cut =>
      simp only [step, show solver.next _ _ = _ from asked,
        show solver.committed _ = false from cut, Bool.false_eq_true, if_false]
  | leftCommits asked cut =>
      simp only [step, show solver.next _ _ = _ from asked,
        show solver.committed _ = true from cut, if_true]
  | rightHalts asked => simp only [step, show solver.next _ _ = _ from asked]
  | rightAnswers asked => simp only [step, show solver.next _ _ = _ from asked]
  | rightFails asked =>
      simp only [step, show solver.next _ _ = _ from asked]
      rfl

theorem Moves.within {p q : Protocol σ G} (within : p.Within q) {present : Disjunction G × σ}
    {turn : Turn (Disjunction G × σ) (Reply σ (Disjunction G))} (moves : Moves p present turn) :
    Moves q present turn := by
  cases moves with
  | done => exact .done
  | calls called => exact .calls (within.call _ _ _ called)
  | refused called => exact .refused (within.call _ _ _ called)
  | callsRight called => exact .callsRight (within.call _ _ _ called)
  | rightRefused called => exact .rightRefused (within.call _ _ _ called)
  | leftHalts asked => exact .leftHalts (within.asks _ _ _ asked)
  | leftAnswers asked => exact .leftAnswers (within.asks _ _ _ asked)
  | leftFails asked cut =>
      rw [within.committed] at cut
      exact .leftFails (within.asks _ _ _ asked) cut
  | leftCommits asked cut =>
      rw [within.committed] at cut
      exact .leftCommits (within.asks _ _ _ asked) cut
  | rightHalts asked => exact .rightHalts (within.asks _ _ _ asked)
  | rightAnswers asked => exact .rightAnswers (within.asks _ _ _ asked)
  | rightFails asked =>
      rw [within.committed]
      exact .rightFails (within.asks _ _ _ asked)

theorem done_of_failure {solver : Solver σ G} {fuel : Nat} {d d' : Disjunction G} {s s' : σ}
    (failed : d.next solver fuel s = some ⟨.ok false, d', s'⟩) :
    ∃ l r committed, d' = ⟨l, r, .done committed⟩ := by
  refine (Turn.leads_of_iterate (fun _ _ => moves_of_step) failed).invariant (fun _ => True)
    (fun reply => reply.answer = .ok false → ∃ l r committed, reply.goal = ⟨l, r, .done committed⟩)
    (fun _ _ _ _ => trivial) ?_ trivial rfl
  intro present reply _ moves failed
  cases moves with
  | done | leftCommits | rightFails => exact ⟨_, _, _, rfl⟩
  | _ => cases failed

end Disjunction

end LogicSearch
