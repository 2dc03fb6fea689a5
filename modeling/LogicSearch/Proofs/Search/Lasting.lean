import LogicSearch.Proofs.Search.Combinator
import LogicSearch.Proofs.Search.Request
import LogicSearch.Proofs.Search.Undo
import LogicSearch.Proofs.Store.Lasting

/-!
What asking or giving up an activation does not break, wherever it is driven from. An activation
makes free only what its snapshots cover, and what it newly covers was free; nothing is assumed of
what happened to the store since it was asked last.
-/

namespace LogicSearch

open Store (Lasts)

namespace Activation

def snapshots {U : Type} : Activation U → List Snapshot
  | equation _ (.bound undo) => [undo]
  | member _ (.tried element head _) => [element, head]
  | conjunction ⟨_, _, .left goal⟩ => snapshots goal
  | conjunction ⟨_, _, .right below goal⟩ => snapshots goal ++ snapshots below
  | disjunction ⟨_, _, .left goal⟩ => snapshots goal
  | disjunction ⟨_, _, .right goal⟩ => snapshots goal
  | _ => []

def Frees {U : Type} (loose : Var → Prop) (a : Activation U) : Prop :=
  ∀ p ∈ a.snapshots, ∀ v ∈ p.vars, loose v

section Parts

variable {U : Type} {loose : Var → Prop}

theorem frees_of_none {a : Activation U} (none : a.snapshots = []) : a.Frees loose := by
  simp [Frees, none]

theorem frees_conjunction {c : Conjunction (Activation U)} :
    (conjunction c).Frees loose ↔ ∀ goal ∈ c.goals, goal.Frees loose := by
  obtain ⟨l, r, phase⟩ := c
  cases phase <;> simp [Frees, snapshots, Conjunction.goals, or_imp, forall_and]

theorem frees_disjunction {d : Disjunction (Activation U)} :
    (disjunction d).Frees loose ↔ ∀ goal ∈ d.goals, goal.Frees loose := by
  obtain ⟨l, r, phase⟩ := d
  cases phase <;> simp [Frees, snapshots, Disjunction.goals]

theorem Fresh.frees {args : List Term} {a : Activation U} (fresh : Fresh args a) :
    a.Frees loose := by
  cases fresh <;> exact frees_of_none rfl

end Parts

variable {P : Store → Prop} {loose : Var → Prop} {m : Machine}

/-- The store of the machine has the property, and the activation makes only loose variables
free. -/
structure Lasting (P : Store → Prop) (loose : Var → Prop) (a : Activation Empty) (m : Machine) :
    Prop where
  store : P m.store
  frees : a.Frees loose

theorem undo_lasts (lasts : Lasts P loose) {s : Store} {element head : Snapshot} (holds : P s)
    (first : ∀ v ∈ element.vars, loose v) (second : ∀ v ∈ head.vars, loose v) :
    P (Member.undo s element head) :=
  lasts.restore (lasts.restore holds second) first

theorem Lasting.abort (lasts : Lasts P loose) {a : Activation Empty}
    (lasting : Lasting P loose a m) :
    Lasting P loose (a.abort m).1 (a.abort m).2 := by
  obtain ⟨store, frees⟩ := lasting
  fun_induction Activation.abort a m with
  | case1 => exact ⟨store, frees⟩
  | case2 e phase m =>
      cases phase with
      | bound undo => exact ⟨lasts.restore store (frees undo List.mem_cons_self), frees_of_none rfl⟩
      | fresh | spent => exact ⟨store, frees_of_none rfl⟩
  | case3 element phase m =>
      cases phase with
      | tried saved head tail =>
          have first := frees saved List.mem_cons_self
          have second := frees head (List.mem_cons_of_mem _ List.mem_cons_self)
          exact ⟨undo_lasts lasts store first second, frees_of_none rfl⟩
      | fresh | done => exact ⟨store, frees_of_none rfl⟩
  | case4 l r goal m ih => exact ⟨(ih store frees).store, frees_of_none rfl⟩
  | case5 l r below goal m right left =>
      obtain ⟨first, second⟩ : goal.Frees loose ∧ below.Frees loose := by
        simpa [frees_conjunction, Conjunction.goals] using frees
      exact ⟨(left (right store first).store second).store, frees_of_none rfl⟩
  | case7 l r goal m ih | case8 l r goal m ih => exact ⟨(ih store frees).store, frees_of_none rfl⟩
  | case6 | case9 => exact ⟨store, frees_of_none rfl⟩
  | case10 u => exact u.elim

variable {registry : Registry Empty} {fuel : Nat} {reply : Reply Machine (Activation Empty)}

theorem Lasting.next_test {t : Test} {called : Bool}
    (lasting : Lasting P loose (.test t called) m)
    (done : (test t called).next registry (fuel + 1) m = some reply) :
    Lasting P loose reply.goal reply.state := by
  cases called with
  | true =>
      cases done
      exact lasting
  | false =>
      obtain ⟨r, ran, rfl⟩ := Option.map_eq_some_iff.mp done
      obtain ⟨back, -⟩ := keeps_of_run ran
      exact ⟨back.symm ▸ lasting.store, frees_of_none rfl⟩

theorem Lasting.next_equation (lasts : Lasts P loose) {e : Equation} {phase : Equation.Phase}
    (lasting : Lasting P loose (.equation e phase) m)
    (done : (equation e phase).next registry (fuel + 1) m = some reply) :
    Lasting P loose reply.goal reply.state := by
  obtain ⟨store, frees⟩ := lasting
  obtain ⟨r, answered, rfl⟩ := Option.map_eq_some_iff.mp done
  cases phase with
  | spent =>
      cases answered
      exact ⟨store, frees⟩
  | bound undo =>
      cases answered
      exact ⟨lasts.restore store (frees undo List.mem_cons_self), frees_of_none rfl⟩
  | fresh =>
      simp only [Equation.next] at answered
      split at answered
      · cases answered
      · cases answered
        exact ⟨store, frees_of_none rfl⟩
      · split at answered
        · cases answered
        · rename_i undo bound tried
          cases answered
          obtain ⟨bound, covers⟩ := lasts.tryUnify store tried
          exact ⟨bound, by simpa [Frees, snapshots] using covers⟩
        · rename_i tried
          cases answered
          exact ⟨(lasts.tryUnify store tried).1, frees_of_none rfl⟩

theorem lasting_of_walk (lasts : Lasts P loose) {element : Term} {saved : Snapshot}
    (covers : ∀ v ∈ saved.vars, loose v) {position : Term × Store} (holds : P position.2)
    {result : Bool × Member.Phase × Store}
    (walked : Turn.iterate (Member.step fuel element saved) fuel position = some result) :
    P result.2.2 ∧ (member element result.2.1 : Activation Empty).Frees loose := by
  apply (Turn.leads_iff.mpr ⟨fuel, walked⟩).invariant (fun position => P position.2)
    (fun result => P result.2.2 ∧ (member element result.2.1 : Activation Empty).Frees loose)
  · rintro ⟨list, s⟩ next holds taken
    simp only [Member.step] at taken
    split at taken
    · cases taken
    · cases taken
    · split at taken
      · cases taken
      · rename_i snapped
        split at taken
        · cases taken
        · cases taken
        · rename_i unified
          cases taken
          exact undo_lasts lasts (lasts.unify holds unified) covers (lasts.snapshot holds snapped)
  · rintro ⟨list, s⟩ result holds taken
    simp only [Member.step] at taken
    split at taken
    · cases taken
    · cases taken
      exact ⟨holds, frees_of_none rfl⟩
    · split at taken
      · cases taken
      · rename_i savedHead snapped
        split at taken
        · cases taken
        · rename_i unified
          cases taken
          refine ⟨lasts.unify holds unified, ?_⟩
          simp only [Frees, snapshots, List.forall_mem_cons]
          exact ⟨covers, lasts.snapshot holds snapped, by simp⟩
        · cases taken
  · exact holds

theorem Lasting.next_member (lasts : Lasts P loose) {element : Term} {phase : Member.Phase}
    (lasting : Lasting P loose (.member element phase) m)
    (done : (member element phase).next registry (fuel + 1) m = some reply) :
    Lasting P loose reply.goal reply.state := by
  obtain ⟨store, frees⟩ := lasting
  obtain ⟨r, answered, rfl⟩ := Option.map_eq_some_iff.mp done
  cases phase with
  | done =>
      cases answered
      exact ⟨store, frees⟩
  | fresh list =>
      simp only [Member.next] at answered
      split at answered
      · cases answered
      · rename_i saved snapped
        obtain ⟨store, frees⟩ := lasting_of_walk lasts (lasts.snapshot store snapped) store answered
        exact ⟨store, frees⟩
  | tried saved head tail =>
      have first := frees saved List.mem_cons_self
      have second := frees head (List.mem_cons_of_mem _ List.mem_cons_self)
      obtain ⟨store, frees⟩ :=
        lasting_of_walk lasts first (undo_lasts lasts store first second) answered
      exact ⟨store, frees⟩

structure KeepsLasting (P : Store → Prop) (loose : Var → Prop)
    (p : Protocol Machine (Activation Empty)) : Prop where
  call : ∀ t m called, p.call t m called → Registry.builtins.call t m = some called
  asks : ∀ a m reply, Lasting P loose a m → p.asks a m reply →
    Lasting P loose reply.goal reply.state
  abort : ∀ a m, Lasting P loose a m → P (p.abort a m).2.store

variable {p : Protocol Machine (Activation Empty)}

theorem KeepsLasting.started (keeps : KeepsLasting P loose p) {t : Term} {a : Activation Empty}
    {m' : Machine} (called : p.call t m (.ok a, m')) : m' = m ∧ a.Frees loose := by
  obtain ⟨same, ⟨_, _, result, fresh, -⟩ | ⟨_, wrong⟩⟩ := builtins_call (keeps.call _ _ _ called)
  · cases result
    exact ⟨same, fresh.frees⟩
  · cases wrong

theorem KeepsLasting.refused (keeps : KeepsLasting P loose p) {t : Term} {halt : Halt}
    {m' : Machine} (called : p.call t m (.error halt, m')) : m' = m :=
  (builtins_call (keeps.call _ _ _ called)).1

theorem KeepsLasting.conjunction (keeps : KeepsLasting P loose p)
    {present : Conjunction (Activation Empty) × Machine}
    {turn : Turn (Conjunction (Activation Empty) × Machine)
      (Reply Machine (Conjunction (Activation Empty)))}
    (moves : Conjunction.Moves p present turn) (store : P present.2.store)
    (frees : ∀ goal ∈ present.1.goals, goal.Frees loose) :
    P turn.present.2.store ∧ ∀ goal ∈ turn.present.1.goals, goal.Frees loose := by
  cases moves with
  | done => exact ⟨store, frees⟩
  | calls called =>
      obtain ⟨rfl, started⟩ := keeps.started called
      exact ⟨store, by simpa [Turn.present, Conjunction.goals] using started⟩
  | refused called =>
      obtain rfl := keeps.refused called
      exact ⟨store, frees⟩
  | leftHalts asked =>
      have left := keeps.asks _ _ _ ⟨store, frees _ (by simp [Conjunction.goals])⟩ asked
      exact ⟨left.store, by simpa [Turn.present, Conjunction.goals] using left.frees⟩
  | leftFails asked =>
      have left := keeps.asks _ _ _ ⟨store, frees _ (by simp [Conjunction.goals])⟩ asked
      exact ⟨left.store, by simp [Turn.present, Conjunction.goals]⟩
  | leftAnswers asked called =>
      have left := keeps.asks _ _ _ ⟨store, frees _ (by simp [Conjunction.goals])⟩ asked
      obtain ⟨rfl, started⟩ := keeps.started called
      exact ⟨left.store, by simpa [Turn.present, Conjunction.goals] using ⟨started, left.frees⟩⟩
  | rightRefused asked called =>
      have left := keeps.asks _ _ _ ⟨store, frees _ (by simp [Conjunction.goals])⟩ asked
      obtain rfl := keeps.refused called
      exact ⟨left.store, by simpa [Turn.present, Conjunction.goals] using left.frees⟩
  | rightHalts asked | rightAnswers asked =>
      have right := keeps.asks _ _ _ ⟨store, frees _ (by simp [Conjunction.goals])⟩ asked
      have below := frees _ (List.mem_cons_of_mem _ List.mem_cons_self)
      exact ⟨right.store, by simpa [Turn.present, Conjunction.goals] using ⟨right.frees, below⟩⟩
  | rightFails asked _ =>
      have right := keeps.asks _ _ _ ⟨store, frees _ (by simp [Conjunction.goals])⟩ asked
      have below := frees _ (List.mem_cons_of_mem _ List.mem_cons_self)
      exact ⟨right.store, by simpa [Turn.present, Conjunction.goals] using below⟩
  | rightCommits asked _ =>
      have right := keeps.asks _ _ _ ⟨store, frees _ (by simp [Conjunction.goals])⟩ asked
      have below := frees _ (List.mem_cons_of_mem _ List.mem_cons_self)
      exact ⟨keeps.abort _ _ ⟨right.store, below⟩, by simp [Turn.present, Conjunction.goals]⟩

theorem KeepsLasting.disjunction (keeps : KeepsLasting P loose p)
    {present : Disjunction (Activation Empty) × Machine}
    {turn : Turn (Disjunction (Activation Empty) × Machine)
      (Reply Machine (Disjunction (Activation Empty)))}
    (moves : Disjunction.Moves p present turn) (store : P present.2.store)
    (frees : ∀ goal ∈ present.1.goals, goal.Frees loose) :
    P turn.present.2.store ∧ ∀ goal ∈ turn.present.1.goals, goal.Frees loose := by
  cases moves with
  | done => exact ⟨store, frees⟩
  | calls called | callsRight called =>
      obtain ⟨rfl, started⟩ := keeps.started called
      exact ⟨store, by simpa [Turn.present, Disjunction.goals] using started⟩
  | refused called | rightRefused called =>
      obtain rfl := keeps.refused called
      exact ⟨store, frees⟩
  | leftHalts asked | leftAnswers asked | rightHalts asked | rightAnswers asked =>
      have goal := keeps.asks _ _ _ ⟨store, frees _ (by simp [Disjunction.goals])⟩ asked
      exact ⟨goal.store, by simpa [Turn.present, Disjunction.goals] using goal.frees⟩
  | leftFails asked _ | leftCommits asked _ | rightFails asked =>
      have goal := keeps.asks _ _ _ ⟨store, frees _ (by simp [Disjunction.goals])⟩ asked
      exact ⟨goal.store, by simp [Turn.present, Disjunction.goals]⟩

theorem Lasting.next (lasts : Lasts P loose) {a : Activation Empty} (lasting : Lasting P loose a m)
    (done : a.next Registry.builtins fuel m = some reply) :
    Lasting P loose reply.goal reply.state := by
  induction fuel generalizing a m reply with
  | zero => cases done
  | succ fuel ih =>
      have keeps : KeepsLasting P loose
          (solver (Registry.builtins : Registry Empty) fuel).protocol :=
        ⟨fun _ _ _ called => called, fun _ _ _ lasting asked => ih lasting asked,
          fun _ _ lasting => (lasting.abort lasts).store⟩
      cases a with
      | test t called => exact lasting.next_test done
      | equation e phase => exact lasting.next_equation lasts done
      | member element phase => exact lasting.next_member lasts done
      | conjunction c =>
          obtain ⟨r, answered, rfl⟩ := Option.map_eq_some_iff.mp done
          obtain ⟨store, frees⟩ := lasting
          have kept := (Turn.leads_of_iterate (fun _ _ => Conjunction.moves_of_step)
            answered).invariant
            (fun present => P present.2.store ∧ ∀ goal ∈ present.1.goals, goal.Frees loose)
            (fun r => P r.state.store ∧ ∀ goal ∈ r.goal.goals, goal.Frees loose)
            (fun _ _ kept moves => keeps.conjunction moves kept.1 kept.2)
            (fun _ _ kept moves => keeps.conjunction moves kept.1 kept.2)
            ⟨store, frees_conjunction.mp frees⟩
          exact ⟨kept.1, frees_conjunction.mpr kept.2⟩
      | disjunction d =>
          obtain ⟨r, answered, rfl⟩ := Option.map_eq_some_iff.mp done
          obtain ⟨store, frees⟩ := lasting
          have kept := (Turn.leads_of_iterate (fun _ _ => Disjunction.moves_of_step)
            answered).invariant
            (fun present => P present.2.store ∧ ∀ goal ∈ present.1.goals, goal.Frees loose)
            (fun r => P r.state.store ∧ ∀ goal ∈ r.goal.goals, goal.Frees loose)
            (fun _ _ kept moves => keeps.disjunction moves kept.1 kept.2)
            (fun _ _ kept moves => keeps.disjunction moves kept.1 kept.2)
            ⟨store, frees_disjunction.mp frees⟩
          exact ⟨kept.1, frees_disjunction.mpr kept.2⟩
      | plugged u => exact u.elim

theorem Lasting.asks (lasts : Lasts P loose) {a : Activation Empty} (lasting : Lasting P loose a m)
    (asked : Asks Registry.builtins a m reply) : Lasting P loose reply.goal reply.state := by
  obtain ⟨fuel, done⟩ := asked
  exact lasting.next lasts done

end Activation

end LogicSearch
