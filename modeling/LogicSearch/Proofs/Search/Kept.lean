import LogicSearch.Proofs.Search.Answers
import LogicSearch.Proofs.Search.Undo

/-!
Every request keeps what an activation holds. The goals inside a conjunction or a disjunction are
asked by the same rule, so this is one induction over the depth of nested goals; after a failure the
store is the one the activation was started in.
-/

namespace LogicSearch

variable {U : Type}

abbrev anywhere : Var → Prop := fun _ => True

theorem confined_anywhere (s : Store) (t : Term) : s.Confined anywhere t := fun _ _ => trivial

theorem started_of_call {t : Term} {a : Activation U} {m m' : Machine}
    (called : (Registry.builtins : Registry U).call t m = some (.ok a, m')) :
    m' = m ∧ Activation.Holds anywhere m.store a m.store := by
  obtain ⟨same, -, holds⟩ := Activation.holds_of_call called (confined_anywhere m.store t)
  exact ⟨same, holds a rfl⟩

variable [Plugin U] {V : Var → Prop}

namespace Activation

/-- A way of asking activations of the built-in predicates that keeps what they hold. -/
structure Undoes (p : Protocol Machine (Activation U)) : Prop where
  call : ∀ t m called, p.call t m called → Registry.builtins.call t m = some called
  asks : ∀ (V : Var → Prop) s a m reply, Holds V s a m.store → p.asks a m reply →
    Keeps V s m reply
  abort : p.abort = Activation.abort

section Moves

variable {p : Protocol Machine (Activation U)} {s : Store} {m : Machine}

theorem Undoes.again_conjunction (undoes : Undoes p) {c : Conjunction (Activation U)}
    {next : Conjunction (Activation U) × Machine} (holds : Holds V s (.conjunction c) m.store)
    (moves : Conjunction.Moves p (c, m) (.again next)) :
    Holds V s (.conjunction next.1) next.2.store ∧ next.2.journal = m.journal := by
  cases moves with
  | calls called =>
      cases holds with
      | conjunctionFresh left right =>
          obtain ⟨rfl, -, started⟩ := holds_of_call (undoes.call _ _ _ called) left
          exact ⟨.conjunctionLeft right (started _ rfl), rfl⟩
  | leftAnswers asked called =>
      cases holds with
      | conjunctionLeft right child =>
          have kept := undoes.asks _ _ _ _ _ child asked
          obtain ⟨rfl, -, started⟩ := holds_of_call (undoes.call _ _ _ called)
            (right.grow kept.holds.grows)
          exact ⟨.conjunctionRight right kept.holds (started _ rfl), kept.journal⟩
  | rightFails asked cut =>
      cases holds with
      | conjunctionRight right below child =>
          have kept := undoes.asks _ _ _ _ _ child asked
          exact ⟨.conjunctionLeft right ((kept.back rfl).symm ▸ below), kept.journal⟩

theorem Undoes.finish_conjunction (undoes : Undoes p) {c : Conjunction (Activation U)}
    {reply : Reply Machine (Conjunction (Activation U))}
    (holds : Holds V s (.conjunction c) m.store)
    (moves : Conjunction.Moves p (c, m) (.finish reply)) :
    Keeps V s m (reply.map .conjunction) := by
  cases moves with
  | done =>
      cases holds with
      | conjunctionDone => exact ⟨.conjunctionDone, rfl, fun _ => rfl, sound_ok _⟩
  | refused called =>
      cases holds with
      | conjunctionFresh left right =>
          obtain ⟨rfl, sound, -⟩ := holds_of_call (undoes.call _ _ _ called) left
          exact ⟨.conjunctionFresh left right, rfl, (fun wrong => by cases wrong), sound.error⟩
  | leftHalts asked =>
      cases holds with
      | conjunctionLeft right child =>
          have kept := undoes.asks _ _ _ _ _ child asked
          exact ⟨.conjunctionLeft right kept.holds, kept.journal, (fun wrong => by cases wrong),
            kept.sound⟩
  | leftFails asked =>
      cases holds with
      | conjunctionLeft right child =>
          have kept := undoes.asks _ _ _ _ _ child asked
          have back := kept.back rfl
          exact ⟨by rw [← back]; exact .conjunctionDone, kept.journal, fun _ => back, sound_ok _⟩
  | rightRefused asked called =>
      cases holds with
      | conjunctionLeft right child =>
          have kept := undoes.asks _ _ _ _ _ child asked
          obtain ⟨rfl, sound, -⟩ := holds_of_call (undoes.call _ _ _ called)
            (right.grow kept.holds.grows)
          exact ⟨.conjunctionLeft right kept.holds, kept.journal, (fun wrong => by cases wrong),
            sound.error⟩
  | rightHalts asked =>
      cases holds with
      | conjunctionRight right below child =>
          have kept := undoes.asks _ _ _ _ _ child asked
          exact ⟨.conjunctionRight right below kept.holds, kept.journal,
            (fun wrong => by cases wrong), kept.sound⟩
  | rightAnswers asked =>
      cases holds with
      | conjunctionRight right below child =>
          have kept := undoes.asks _ _ _ _ _ child asked
          exact ⟨.conjunctionRight right below kept.holds, kept.journal,
            (fun wrong => by cases wrong), sound_ok _⟩
  | rightCommits asked cut =>
      cases holds with
      | conjunctionRight right below child =>
          have kept := undoes.asks _ _ _ _ _ child asked
          have given := ((kept.back rfl).symm ▸ below).abort.1
          refine ⟨?_, ?_, fun _ => ?_, sound_ok _⟩
          · simp only [Reply.map, undoes.abort, given]
            exact .conjunctionDone
          · simp only [Reply.map, undoes.abort, given]
            exact kept.journal
          · simp only [Reply.map, undoes.abort, given]
            rfl

theorem Undoes.again_disjunction (undoes : Undoes p) {d : Disjunction (Activation U)}
    {next : Disjunction (Activation U) × Machine} (holds : Holds V s (.disjunction d) m.store)
    (moves : Disjunction.Moves p (d, m) (.again next)) :
    Holds V s (.disjunction next.1) next.2.store ∧ next.2.journal = m.journal := by
  cases moves with
  | calls called =>
      cases holds with
      | disjunctionFresh left right =>
          obtain ⟨rfl, -, started⟩ := holds_of_call (undoes.call _ _ _ called) left
          exact ⟨.disjunctionLeft right (started _ rfl), rfl⟩
  | callsRight called =>
      cases holds with
      | disjunctionBetween right =>
          obtain ⟨rfl, -, started⟩ := holds_of_call (undoes.call _ _ _ called) right
          exact ⟨.disjunctionRight (started _ rfl), rfl⟩
  | leftFails asked cut =>
      cases holds with
      | disjunctionLeft right child =>
          have kept := undoes.asks _ _ _ _ _ child asked
          have back := kept.back rfl
          exact ⟨by rw [back]; exact .disjunctionBetween right, kept.journal⟩

theorem Undoes.finish_disjunction (undoes : Undoes p) {d : Disjunction (Activation U)}
    {reply : Reply Machine (Disjunction (Activation U))}
    (holds : Holds V s (.disjunction d) m.store)
    (moves : Disjunction.Moves p (d, m) (.finish reply)) :
    Keeps V s m (reply.map .disjunction) := by
  cases moves with
  | done =>
      cases holds with
      | disjunctionDone => exact ⟨.disjunctionDone, rfl, fun _ => rfl, sound_ok _⟩
  | refused called =>
      cases holds with
      | disjunctionFresh left right =>
          obtain ⟨rfl, sound, -⟩ := holds_of_call (undoes.call _ _ _ called) left
          exact ⟨.disjunctionFresh left right, rfl, (fun wrong => by cases wrong), sound.error⟩
  | rightRefused called =>
      cases holds with
      | disjunctionBetween right =>
          obtain ⟨rfl, sound, -⟩ := holds_of_call (undoes.call _ _ _ called) right
          exact ⟨.disjunctionBetween right, rfl, (fun wrong => by cases wrong), sound.error⟩
  | leftHalts asked =>
      cases holds with
      | disjunctionLeft right child =>
          have kept := undoes.asks _ _ _ _ _ child asked
          exact ⟨.disjunctionLeft right kept.holds, kept.journal, (fun wrong => by cases wrong),
            kept.sound⟩
  | leftAnswers asked =>
      cases holds with
      | disjunctionLeft right child =>
          have kept := undoes.asks _ _ _ _ _ child asked
          exact ⟨.disjunctionLeft right kept.holds, kept.journal, (fun wrong => by cases wrong),
            sound_ok _⟩
  | leftCommits asked cut =>
      cases holds with
      | disjunctionLeft right child =>
          have kept := undoes.asks _ _ _ _ _ child asked
          have back := kept.back rfl
          exact ⟨by rw [← back]; exact .disjunctionDone, kept.journal, fun _ => back, sound_ok _⟩
  | rightHalts asked =>
      cases holds with
      | disjunctionRight child =>
          have kept := undoes.asks _ _ _ _ _ child asked
          exact ⟨.disjunctionRight kept.holds, kept.journal, (fun wrong => by cases wrong),
            kept.sound⟩
  | rightAnswers asked =>
      cases holds with
      | disjunctionRight child =>
          have kept := undoes.asks _ _ _ _ _ child asked
          exact ⟨.disjunctionRight kept.holds, kept.journal, (fun wrong => by cases wrong),
            sound_ok _⟩
  | rightFails asked =>
      cases holds with
      | disjunctionRight child =>
          have kept := undoes.asks _ _ _ _ _ child asked
          have back := kept.back rfl
          exact ⟨by rw [← back]; exact .disjunctionDone, kept.journal, fun _ => back, sound_ok _⟩

end Moves

/-- Asking an activation of a built-in predicate keeps what it holds. After a failure the store is
the one it was started in. -/
theorem Holds.next {s : Store} {a : Activation U} {m : Machine} {fuel : Nat}
    {reply : Reply Machine (Activation U)} (holds : Holds V s a m.store)
    (done : a.next Registry.builtins fuel m = some reply) : Keeps V s m reply := by
  induction fuel generalizing V s a m reply with
  | zero => cases done
  | succ fuel ih =>
      -- The goals inside are asked by the same rule, with one unit of fuel less.
      have undoes : Undoes (solver (Registry.builtins : Registry U) fuel).protocol :=
        ⟨fun _ _ _ called => called, fun _ _ _ _ _ holds asked => ih holds asked, rfl⟩
      cases a with
      | test t called => exact holds.next_test done
      | equation e phase => exact holds.next_equation done
      | member e phase => exact holds.next_member done
      | conjunction c =>
          obtain ⟨r, answered, rfl⟩ := Option.map_eq_some_iff.mp done
          apply (Turn.leads_of_iterate (fun _ _ => Conjunction.moves_of_step) answered).invariant
            (fun present =>
              Holds V s (.conjunction present.1) present.2.store ∧ present.2.journal = m.journal)
            (fun r => Keeps V s m (r.map .conjunction))
          · rintro ⟨c, here⟩ next ⟨holds, journal⟩ moves
            obtain ⟨kept, same⟩ := undoes.again_conjunction holds moves
            exact ⟨kept, same.trans journal⟩
          · rintro ⟨c, here⟩ r ⟨holds, journal⟩ moves
            have kept := undoes.finish_conjunction holds moves
            exact ⟨kept.holds, kept.journal.trans journal, kept.back, kept.sound⟩
          · exact ⟨holds, rfl⟩
      | disjunction d =>
          obtain ⟨r, answered, rfl⟩ := Option.map_eq_some_iff.mp done
          apply (Turn.leads_of_iterate (fun _ _ => Disjunction.moves_of_step) answered).invariant
            (fun present =>
              Holds V s (.disjunction present.1) present.2.store ∧ present.2.journal = m.journal)
            (fun r => Keeps V s m (r.map .disjunction))
          · rintro ⟨d, here⟩ next ⟨holds, journal⟩ moves
            obtain ⟨kept, same⟩ := undoes.again_disjunction holds moves
            exact ⟨kept, same.trans journal⟩
          · rintro ⟨d, here⟩ r ⟨holds, journal⟩ moves
            have kept := undoes.finish_disjunction holds moves
            exact ⟨kept.holds, kept.journal.trans journal, kept.back, kept.sound⟩
          · exact ⟨holds, rfl⟩
      | plugged u =>
          generalize m.store = here at holds
          cases holds

end Activation

open Activation (Asks Gives Holds)

theorem Activation.Holds.asks {s : Store} {a : Activation U} {m : Machine}
    {reply : Reply Machine (Activation U)} (holds : Holds V s a m.store)
    (asked : Asks Registry.builtins a m reply) : Activation.Keeps V s m reply := by
  obtain ⟨fuel, done⟩ := asked
  exact holds.next done

theorem Activation.Gives.kept {a : Activation U} {s : Store} {m : Machine} {answers : List Machine}
    {ending : Option Run.End} (gives : Gives Registry.builtins a m answers ending)
    (holds : Holds anywhere s a m.store) : ∀ answer ∈ answers, s ≤ answer.store := by
  induction gives with
  | answer asked _ ih =>
      have kept := holds.asks asked
      exact List.forall_mem_cons.mpr ⟨kept.holds.grows.kept, ih kept.holds⟩
  | _ => simp

theorem Run.Shows.kept {goal : Term} {m : Machine} {answers : List Machine}
    {ending : Option Run.End}
    (shown : Run.Shows (Registry.builtins : Registry U) goal m answers ending) :
    ∀ answer ∈ answers, m.store ≤ answer.store := by
  rcases shown.cases with ⟨_, _, -, rfl, -⟩ | ⟨_, _, called, gives⟩
  · simp
  · obtain ⟨rfl, holds⟩ := started_of_call called
    exact gives.kept holds

end LogicSearch
