import LogicSearch.Proofs.Search.Lasting
import LogicSearch.Proofs.Store.Capture

namespace LogicSearch

open Activation (Asks Fresh)
open Relation (ReflTransGen)
open Store (Lasts)

structure Workspace where
  machine : Machine
  captures : List Capture
  activations : List (Activation Empty)

namespace Workspace

def start : Workspace := ⟨Machine.empty, [], []⟩

/-- One operation. Of what exists, anything may be used, and used again. -/
inductive Step : Workspace → Workspace → Prop where
  | unifies {m : Machine} {cs : List Capture} {as : List (Activation Empty)} {fuel : Nat}
      {l r : Term} {answer : Bool} {t : Store} : m.store.unify fuel l r = some (answer, t) →
      Step ⟨m, cs, as⟩ ⟨m.withStore t, cs, as⟩
  | attempts {m : Machine} {cs : List Capture} {as : List (Activation Empty)} {fuel : Nat}
      {l r : Term} {p : Option Capture} {t : Store} : m.store.attempt fuel l r = some (p, t) →
      Step ⟨m, cs, as⟩ ⟨m.withStore t, p.toList ++ cs, as⟩
  | captures {m : Machine} {cs : List Capture} {as : List (Activation Empty)} {fuel : Nat}
      {u : Term} {p : Capture} : m.store.capture fuel u = some p →
      Step ⟨m, cs, as⟩ ⟨m, p :: cs, as⟩
  | joins {m : Machine} {cs : List Capture} {as : List (Activation Empty)} {p q : Capture} :
      p ∈ cs → q ∈ cs → Step ⟨m, cs, as⟩ ⟨m, p.join q :: cs, as⟩
  | reinstates {m : Machine} {cs : List Capture} {as : List (Activation Empty)} {p : Capture} :
      p ∈ cs → Step ⟨m, cs, as⟩ ⟨m.withStore (m.store.reinstate p), cs, as⟩
  | starts {m : Machine} {cs : List Capture} {as : List (Activation Empty)} {args : List Term}
      {a : Activation Empty} : Fresh args a → Step ⟨m, cs, as⟩ ⟨m, cs, a :: as⟩
  | asks {m : Machine} {cs : List Capture} {before after : List (Activation Empty)}
      {a : Activation Empty} {reply : Reply Machine (Activation Empty)} :
      Asks Registry.builtins a m reply →
      Step ⟨m, cs, before ++ a :: after⟩ ⟨reply.state, cs, before ++ reply.goal :: after⟩
  | aborts {m : Machine} {cs : List Capture} {before after : List (Activation Empty)}
      {a : Activation Empty} :
      Step ⟨m, cs, before ++ a :: after⟩ ⟨(a.abort m).2, cs, before ++ (a.abort m).1 :: after⟩
  | drops {m : Machine} {cs cs' : List Capture} {as as' : List (Activation Empty)} :
      cs' ⊆ cs → as' ⊆ as → Step ⟨m, cs, as⟩ ⟨m, cs', as'⟩

def Reaches : Workspace → Workspace → Prop := ReflTransGen Step

/-- A capture or a snapshot of an activation holds the variable. -/
def Covers (w : Workspace) (v : Var) : Prop :=
  (∃ p ∈ w.captures, ∃ entry ∈ p.saved, entry.1 = v) ∨
    ∃ a ∈ w.activations, ∃ p ∈ a.snapshots, v ∈ p.vars

/-- The store has the property, and only loose variables can be made free. -/
structure Lasting (P : Store → Prop) (loose : Var → Prop) (w : Workspace) : Prop where
  store : P w.machine.store
  captures : ∀ c ∈ w.captures, ∃ p : Snapshot, c = p.capture ∧ ∀ v ∈ p.vars, loose v
  activations : ∀ a ∈ w.activations, a.Frees loose

variable {P : Store → Prop} {loose : Var → Prop} {w w' : Workspace}

theorem driven {m' : Machine} {cs : List Capture} {before after : List (Activation Empty)}
    {a b : Activation Empty}
    (captures : ∀ c ∈ cs, ∃ p : Snapshot, c = p.capture ∧ ∀ v ∈ p.vars, loose v)
    (activations : ∀ x ∈ before ++ a :: after, x.Frees loose)
    (kept : Activation.Lasting P loose b m') : Lasting P loose ⟨m', cs, before ++ b :: after⟩ := by
  obtain ⟨first, rest⟩ := List.forall_mem_append.mp activations
  refine ⟨kept.store, captures, List.forall_mem_append.mpr ⟨first, ?_⟩⟩
  exact List.forall_mem_cons.mpr ⟨kept.frees, (List.forall_mem_cons.mp rest).2⟩

theorem Lasting.step (lasts : Lasts P loose) (lasting : Lasting P loose w) (step : Step w w') :
    Lasting P loose w' := by
  obtain ⟨store, captures, activations⟩ := lasting
  cases step with
  | unifies unified => exact ⟨lasts.unify store unified, captures, activations⟩
  | attempts attempted =>
      rw [Store.attempt_eq] at attempted
      obtain ⟨⟨undo, t⟩, tried, same⟩ := Option.map_eq_some_iff.mp attempted
      cases same
      obtain ⟨store, covers⟩ := lasts.tryUnify store tried
      refine ⟨store, ?_, activations⟩
      cases undo with
      | none => exact captures
      | some p => exact List.forall_mem_cons.mpr ⟨⟨p, rfl, covers p rfl⟩, captures⟩
  | captures captured =>
      rw [Store.capture_eq] at captured
      obtain ⟨p, snapped, rfl⟩ := Option.map_eq_some_iff.mp captured
      exact ⟨store, List.forall_mem_cons.mpr ⟨⟨p, rfl, lasts.snapshot store snapped⟩, captures⟩,
        activations⟩
  | joins first second =>
      obtain ⟨p, rfl, left⟩ := captures _ first
      obtain ⟨q, rfl, right⟩ := captures _ second
      have joined : ∀ v ∈ (p.join q).vars, loose v := fun v member =>
        (Store.mem_join.mp member).elim (left v) (right v)
      exact ⟨store,
        List.forall_mem_cons.mpr ⟨⟨p.join q, (p.capture_join q).symm, joined⟩, captures⟩,
        activations⟩
  | reinstates member =>
      obtain ⟨p, rfl, covers⟩ := captures _ member
      refine ⟨?_, captures, activations⟩
      rw [Store.reinstate_capture]
      exact lasts.restore store covers
  | starts fresh => exact ⟨store, captures, List.forall_mem_cons.mpr ⟨fresh.frees, activations⟩⟩
  | asks asked =>
      have here := List.forall_mem_append.mp activations |>.2 _ List.mem_cons_self
      exact driven captures activations (Activation.Lasting.asks lasts ⟨store, here⟩ asked)
  | aborts =>
      have here := List.forall_mem_append.mp activations |>.2 _ List.mem_cons_self
      exact driven captures activations (Activation.Lasting.abort lasts ⟨store, here⟩)
  | drops fewer fewer' =>
      exact ⟨store, fun c member => captures c (fewer member), fun a member =>
        activations a (fewer' member)⟩

theorem Lasting.reaches (lasts : Lasts P loose) (lasting : Lasting P loose w)
    (reaches : Reaches w w') : Lasting P loose w' := by
  induction reaches with
  | refl => exact lasting
  | tail _ step ih => exact ih.step lasts step

theorem lasting_start : Lasting Store.ChainsEnd (fun _ => True) start where
  store := Store.acyclic_empty.chainsEnd
  captures := by simp [start]
  activations := by simp [start]

theorem Lasting.of_uncovered {v : Var} {u : Term} (reached : Lasting P loose w)
    (bound : w.machine.store.lookup v = some u) (uncovered : ¬ w.Covers v) :
    Lasting (fun s => s.lookup v = some u) (· ≠ v) w where
  store := bound
  captures := by
    intro c member
    obtain ⟨p, rfl, -⟩ := reached.captures c member
    refine ⟨p, rfl, ?_⟩
    rintro x covered rfl
    exact uncovered (.inl ⟨_, member, _, List.mem_map_of_mem covered, rfl⟩)
  activations := by
    rintro a member p held x covered rfl
    exact uncovered (.inr ⟨a, member, p, held, covered⟩)

end Workspace

open Workspace (Reaches)

/-- Whatever operations were made, following bindings from variable to variable comes back to no
variable, and from every term it comes to one that is no variable or is not bound. Captures hold
only that variables are not bound, so reinstating one creates and redirects no binding. A binding
whose variable no capture and no activation covers is the same after all further operations. -/
theorem chains_end_and_uncovered_bindings_last {w : Workspace} (reached : Reaches .start w) :
    (∀ v, ¬ Relation.TransGen (fun x y => w.machine.store.lookup x = some (.var y)) v v) ∧
    (∀ t, ∃ u, w.machine.store.deref t = some u ∧
      ∀ v, u = .var v → w.machine.store.lookup v = none) ∧
    (∀ c ∈ w.captures, (∀ entry ∈ c.saved, entry.2 = none) ∧
      ∀ (s : Store) v u, (s.reinstate c).lookup v = some u → s.lookup v = some u) ∧
    ∀ v u, w.machine.store.lookup v = some u → ¬ w.Covers v →
      ∀ w', Reaches w w' → w'.machine.store.lookup v = some u := by
  have lasting := Workspace.lasting_start.reaches Store.lasts_chainsEnd reached
  refine ⟨lasting.store.no_cycle, fun t => ?_, fun c member => ?_, fun v u bound uncovered w' => ?_⟩
  · obtain ⟨u, ends⟩ := lasting.store t
    refine ⟨u, ends, ?_⟩
    rintro v rfl
    exact Store.lookup_of_deref ends
  · obtain ⟨p, rfl, -⟩ := lasting.captures c member
    refine ⟨fun entry saved => (Snapshot.unbound_of_mem_capture saved).2, fun s v u found => ?_⟩
    rw [Store.lookup_reinstate] at found
    split at found
    · cases found
    · exact found
  · intro further
    have stays := lasting.of_uncovered bound uncovered
    exact (stays.reaches (Store.lasts_binding v u) further).store

theorem chains_end_and_uncovered_bindings_last_below_capture :
    let knot : Term := .compound ⟨"f"⟩ (.var 0) []
    ∃ w w' : Workspace, Reaches .start w ∧ Reaches w w' ∧ w.captures = [⟨[(1, none)]⟩] ∧
      w.machine.store.lookup 1 = some (.var 2) ∧ w'.machine.store.lookup 1 = none ∧
      (¬ Relation.TransGen (fun x y => w.machine.store.lookup x = some (.var y)) 1 1) ∧
      w.machine.store.lookup 0 = some knot ∧ w'.machine.store.lookup 0 = some knot := by
  intro knot
  let tied : Store := Store.empty.bind 0 knot
  let c : Capture := ⟨[(1, none)]⟩
  let w : Workspace := ⟨⟨tied.bind 1 (.var 2), []⟩, [c], []⟩
  have ties : Workspace.Step .start ⟨⟨tied, []⟩, [], []⟩ :=
    .unifies (show Store.empty.unify 2 (.var 0) knot = some (true, tied) from rfl)
  have captures : Workspace.Step ⟨⟨tied, []⟩, [], []⟩ ⟨⟨tied, []⟩, [c], []⟩ :=
    .captures (show tied.capture 2 (.var 1) = some c from rfl)
  have binds : Workspace.Step ⟨⟨tied, []⟩, [c], []⟩ w :=
    .unifies (show tied.unify 2 (.var 1) (.var 2) = some (true, w.machine.store) from rfl)
  have reached : Reaches .start w := .tail (.tail (.single ties) captures) binds
  let w' : Workspace := ⟨⟨w.machine.store.reinstate c, []⟩, [c], []⟩
  have further : Reaches w w' := .single (.reinstates List.mem_cons_self)
  obtain ⟨no_cycle, -, -, lasts⟩ := chains_end_and_uncovered_bindings_last reached
  have bound : w.machine.store.lookup 0 = some knot := by decide +kernel
  have uncovered : ¬ w.Covers 0 := by
    simp [Workspace.Covers, w, c]
  exact ⟨w, w', reached, further, rfl, by decide +kernel, by decide +kernel, no_cycle 1, bound,
    lasts 0 knot bound uncovered w' further⟩

end LogicSearch
