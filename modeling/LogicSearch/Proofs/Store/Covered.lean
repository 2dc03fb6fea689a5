import LogicSearch.Proofs.Store.Capture
import LogicSearch.Proofs.Store.Passes

namespace LogicSearch

namespace Term

theorem varsAll_append (ts us : List Term) : varsAll (ts ++ us) = varsAll ts ++ varsAll us := by
  induction ts with
  | nil => rfl
  | cons t ts ih => simp only [List.cons_append, varsAll, ih, List.append_assoc]

end Term

namespace Store

variable {s : Store} {t : Term} {p : Snapshot} {fuel : Nat}

/-- The variables that the trees of some terms leave open, from left to right. -/
def openVars (s : Store) (ts : List Term) : List Var := Term.varsAll (ts.map (Term.subst s.trees))

theorem openVars_cons (ts : List Term) :
    s.openVars (t :: ts) = (t.subst s.trees).vars ++ s.openVars ts := rfl

theorem openVars_append (ts us : List Term) :
    s.openVars (ts ++ us) = s.openVars ts ++ s.openVars us := by
  simp only [openVars, List.map_append, Term.varsAll_append]

theorem vars_subst_compound {f : Atom} {first : Term} {rest : List Term} :
    ((Term.compound f first rest).subst s.trees).vars = s.openVars (first :: rest) := by
  rw [openVars_cons, Term.subst, Term.vars, Term.substAll_eq_map]
  rfl

theorem openVars_snapshotStep (acyclic : s.Acyclic) {todo next : List Term × List Var}
    (taken : s.snapshotStep todo = some (.again next)) :
    next.2.reverse ++ s.openVars next.1 = todo.2.reverse ++ s.openVars todo.1 := by
  obtain ⟨_ | ⟨t, pending⟩, found⟩ := todo
  · cases taken
  · simp only [snapshotStep] at taken
    rw [openVars_cons]
    split at taken
    · cases taken
    · rename_i v ends
      cases taken
      rw [acyclic.models_trees.deref ends, Term.subst, trees_of_free (lookup_of_deref ends)]
      simp [Term.vars]
    · rename_i f first rest ends
      cases taken
      rw [acyclic.models_trees.deref ends, vars_subst_compound, openVars_append]
    · rename_i a ends
      cases taken
      rw [acyclic.models_trees.deref ends, Term.subst, Term.vars, List.nil_append]
    · rename_i n ends
      cases taken
      rw [acyclic.models_trees.deref ends, Term.subst, Term.vars, List.nil_append]

theorem vars_of_snapshot (acyclic : s.Acyclic) (done : s.snapshot fuel t = some p) :
    p.vars = (t.subst s.trees).vars := by
  have leads := Turn.leads_iff.mpr ⟨fuel, done⟩
  apply leads.invariant
    (fun todo => todo.2.reverse ++ s.openVars todo.1 = (t.subst s.trees).vars)
    (fun p => p.vars = (t.subst s.trees).vars)
  · intro todo next same taken
    rw [openVars_snapshotStep acyclic taken, same]
  · intro todo p same taken
    obtain ⟨_ | ⟨u, pending⟩, found⟩ := todo
    · cases taken
      simpa [openVars, Term.varsAll] using same
    · simp only [snapshotStep] at taken
      split at taken <;> cases taken
  · simp [openVars, Term.varsAll]

end Store

namespace Capture

def empty : Capture := ⟨[]⟩

def vars (p : Capture) : List Var := p.saved.map Prod.fst

/-- Captures that were taken of terms, at whatever moment, or put together from such. -/
inductive Taken : Capture → Prop where
  | empty : Taken empty
  | captured {s : Store} {fuel : Nat} {t : Term} {p : Capture} :
      s.capture fuel t = some p → Taken p
  | join {p q : Capture} : Taken p → Taken q → Taken (p.join q)

theorem vars_capture (p : Snapshot) : p.capture.vars = p.vars := by
  simp [vars, Snapshot.capture, unboundEach, Function.comp_def]

theorem Taken.exists_snapshot {p : Capture} (taken : p.Taken) : ∃ q : Snapshot, p = q.capture := by
  induction taken with
  | empty => exact ⟨.empty, rfl⟩
  | captured done =>
      rw [Store.capture_eq] at done
      obtain ⟨q, -, rfl⟩ := Option.map_eq_some_iff.mp done
      exact ⟨q, rfl⟩
  | join _ _ left right =>
      obtain ⟨p, rfl⟩ := left
      obtain ⟨q, rfl⟩ := right
      exact ⟨p.join q, (p.capture_join q).symm⟩

end Capture

namespace Store

theorem lookup_restore_join (s : Store) (p q : Snapshot) (v : Var) :
    (s.restore (p.join q)).lookup v = if v ∈ p.vars ∨ v ∈ q.vars then none else s.lookup v := by
  simp only [lookup_restore, mem_join]

theorem restore_join_comm (s : Store) (p q : Snapshot) :
    s.restore (p.join q) = s.restore (q.join p) := by
  apply Store.ext
  intro v
  simp only [lookup_restore_join, or_comm]

theorem restore_restore (s : Store) (p : Snapshot) : (s.restore p).restore p = s.restore p := by
  apply Store.ext
  intro v
  rw [lookup_restore, lookup_restore]
  split <;> rfl

/-- In a store without cyclic bindings a snapshot of a term returns and saves as many variables as
occur in what the term resolves to, and exactly those that are not bound among them. Captures that
were taken at any moments, joined and reinstated on any store, make exactly the variables of both
free; the order, and whether it is done at once, one after the other or again, makes no difference,
and it is what restoring the snapshots does. -/
theorem snapshot_covers_free_variables {s : Store} (acyclic : s.Acyclic) (t : Term) :
    (∃ fuel p tree, s.snapshot fuel t = some p ∧ s.capture fuel t = some p.capture ∧
      s.resolve fuel t = some tree ∧ p.size = tree.vars.length ∧
      ∀ v, v ∈ p.vars ↔ v ∈ tree.vars ∧ s.lookup v = none) ∧
    ∀ a b : Capture, a.Taken → b.Taken → ∀ s' : Store,
      (∀ v, (s'.reinstate (a.join b)).lookup v =
        if v ∈ a.vars ∨ v ∈ b.vars then none else s'.lookup v) ∧
      s'.reinstate (a.join b) = s'.reinstate (b.join a) ∧
      s'.reinstate (a.join b) = (s'.reinstate a).reinstate b ∧
      (s'.reinstate (a.join b)).reinstate (a.join b) = s'.reinstate (a.join b) ∧
      ∃ p q : Snapshot, a = p.capture ∧ b = q.capture ∧
        s'.reinstate (a.join b) = s'.restore (p.join q) := by
  refine ⟨?_, ?_⟩
  · obtain ⟨enough, p, found⟩ := snapshot_returns acyclic t
    obtain ⟨more, resolved⟩ := resolve_of_acyclic acyclic t
    have snapped := snapshot_mono (Nat.le_max_left enough more) found
    have vars := vars_of_snapshot acyclic found
    refine ⟨_, p, _, snapped, ?_, resolve_mono (Nat.le_max_right enough more) resolved, ?_, ?_⟩
    · rw [capture_eq, snapped, Option.map_some]
    · rw [Snapshot.size, vars]
    · intro v
      rw [vars]
      exact ⟨fun occurs => ⟨occurs, ((mem_vars_trees acyclic).mp occurs).lookup⟩, And.left⟩
  · intro a b left right s'
    obtain ⟨p, rfl⟩ := left.exists_snapshot
    obtain ⟨q, rfl⟩ := right.exists_snapshot
    simp only [← Snapshot.capture_join, reinstate_capture, Capture.vars_capture]
    exact ⟨s'.lookup_restore_join p q, s'.restore_join_comm p q, s'.restore_join p q,
      s'.restore_restore (p.join q), p, q, rfl, rfl, rfl⟩

theorem snapshot_covers_free_variables_through_chain :
    let s := (empty.bind 2 (.var 0)).bind 3 (.compound ⟨"f"⟩ (.var 2) [.var 1])
    let t : Term := .compound ⟨"g"⟩ (.var 3) [.var 0]
    let later := (s.bind 0 (.int 7)).bind 1 (.atom ⟨"b"⟩)
    s.Acyclic ∧ ∃ fuel p q, s.snapshot fuel t = some p ∧ p.size = 3 ∧
      (s.bind 0 (.int 7)).snapshot fuel t = some q ∧ q.size = 1 ∧
      later.reinstate (q.capture.join p.capture) = later.reinstate (p.capture.join q.capture) ∧
      (later.reinstate (p.capture.join q.capture)).lookup 0 = none ∧
      (later.reinstate (p.capture.join q.capture)).lookup 2 = some (.var 0) := by
  intro s t later
  have acyclic : s.Acyclic := ((descending_empty.bind (by decide)).bind (by decide)).acyclic
  have first : s.capture 9 t = some (Snapshot.capture ⟨[0, 1, 0]⟩) := by decide +kernel
  have second : (s.bind 0 (.int 7)).capture 9 t = some (Snapshot.capture ⟨[1]⟩) := by
    decide +kernel
  obtain ⟨-, restored⟩ := snapshot_covers_free_variables acyclic t
  obtain ⟨freed, exchanged, -⟩ := restored _ _ (.captured first) (.captured second) later
  refine ⟨acyclic, 9, ⟨[0, 1, 0]⟩, ⟨[1]⟩, by decide +kernel, rfl, by decide +kernel, rfl,
    exchanged.symm, ?_, ?_⟩
  · rw [freed]
    rfl
  · rw [freed]
    decide +kernel

end Store

end LogicSearch
