import LogicSearch.Proofs.Loop
import LogicSearch.Proofs.Store.Chain
import LogicSearch.Store.Snapshot
import Mathlib.Tactic.ByContra

namespace LogicSearch

namespace Store

/-- A variable that is met when a term is searched to the ends of all bindings. -/
inductive Free (s : Store) : Term → Var → Prop where
  | here {t : Term} {v : Var} : s.deref t = some (.var v) → Free s t v
  | inside {t : Term} {f : Atom} {first u : Term} {rest : List Term} {v : Var} :
      s.deref t = some (.compound f first rest) → u ∈ first :: rest → Free s u v → Free s t v

variable {r s t : Store} {u w : Term} {v x : Var}

theorem Free.lookup (free : s.Free u v) : s.lookup v = none := by
  induction free with
  | here done => exact lookup_of_deref done
  | inside _ _ _ ih => exact ih

theorem free_congr (same : s.deref u = s.deref w) : s.Free u v ↔ s.Free w v := by
  constructor <;> intro free
  · cases free with
    | here done => exact .here (same ▸ done)
    | inside done member free => exact .inside (same ▸ done) member free
  · cases free with
    | here done => exact .here (same ▸ done)
    | inside done member free => exact .inside (same ▸ done) member free

theorem free_deref (done : s.deref u = some w) : s.Free u v ↔ s.Free w v :=
  free_congr (by rw [done, deref_of_isEnd (deref_isEnd done)])

theorem free_var (free : s.lookup x = none) : s.Free (.var x) v ↔ v = x := by
  have atEnd : s.deref (.var x) = some (.var x) := deref_of_isEnd free
  constructor
  · intro inside
    cases inside with
    | here done =>
        rw [atEnd] at done
        cases done
        rfl
    | inside done => simp [atEnd] at done
  · rintro rfl
    exact .here atEnd

theorem free_compound {f : Atom} {first : Term} {rest : List Term} :
    s.Free (.compound f first rest) v ↔ ∃ u ∈ first :: rest, s.Free u v := by
  constructor
  · intro free
    cases free with
    | here done => cases done
    | inside done member free =>
        cases done
        exact ⟨_, member, free⟩
  · rintro ⟨u, member, free⟩
    exact .inside rfl member free

theorem free_of_arg {y : Term} (done : s.deref w = some y) (member : u ∈ y.args)
    (free : s.Free u v) : s.Free w v := by
  cases y with
  | compound f first rest => exact .inside done member free
  | _ => cases member

theorem not_free_atom {a : Atom} : ¬ s.Free (.atom a) v := by
  intro free
  cases free with
  | here done => cases done
  | inside done => cases done

theorem not_free_int {n : Int64} : ¬ s.Free (.int n) v := by
  intro free
  cases free with
  | here done => cases done
  | inside done => cases done

def Seen (s : Store) (v : Var) (todo : List Term × List Var) : Prop :=
  v ∈ todo.2 ∨ ∃ t ∈ todo.1, s.Free t v

theorem seen_cons {pending : List Term} {found : List Var} :
    s.Seen v (u :: pending, found) ↔ s.Free u v ∨ s.Seen v (pending, found) := by
  simp only [Seen, List.mem_cons, exists_eq_or_imp]
  exact or_left_comm

theorem seen_append {args pending : List Term} {found : List Var} :
    s.Seen v (args ++ pending, found) ↔
      (∃ u ∈ args, s.Free u v) ∨ s.Seen v (pending, found) := by
  induction args with
  | nil => simp
  | cons u args ih =>
      rw [List.cons_append, seen_cons, ih]
      simp only [List.mem_cons, exists_eq_or_imp, or_assoc]

theorem seen_found {pending : List Term} {found : List Var} :
    s.Seen v (pending, x :: found) ↔ v = x ∨ s.Seen v (pending, found) := by
  simp only [Seen, List.mem_cons, or_assoc]

theorem seen_snapshotStep {todo next : List Term × List Var}
    (taken : s.snapshotStep todo = some (.again next)) : s.Seen v next ↔ s.Seen v todo := by
  obtain ⟨pending, found⟩ := todo
  cases pending with
  | nil => cases taken
  | cons t pending =>
      simp only [snapshotStep] at taken
      rw [seen_cons]
      split at taken
      · cases taken
      · rename_i x ends
        cases taken
        rw [seen_found, free_deref ends, free_var (lookup_of_deref ends)]
      · rename_i f first rest ends
        cases taken
        rw [seen_append, free_deref ends, free_compound]
      · rename_i a ends
        cases taken
        simp [free_deref ends, not_free_atom]
      · rename_i n ends
        cases taken
        simp [free_deref ends, not_free_int]

/-- A snapshot holds exactly the free variables. -/
theorem mem_snapshot {fuel : Nat} {p : Snapshot} (done : s.snapshot fuel u = some p) :
    v ∈ p.vars ↔ s.Free u v := by
  have leads := Turn.leads_iff.mpr ⟨fuel, done⟩
  have start : s.Seen v ([u], []) ↔ s.Free u v := by simp [Seen]
  rw [← start]
  apply leads.invariant (fun todo => s.Seen v todo ↔ s.Seen v ([u], []))
    (fun p => v ∈ p.vars ↔ s.Seen v ([u], []))
  · intro todo next same taken
    calc
      s.Seen v next ↔ s.Seen v todo := seen_snapshotStep taken
      _ ↔ s.Seen v ([u], []) := same
  · intro todo p same taken
    obtain ⟨pending, found⟩ := todo
    cases pending with
    | nil =>
        cases taken
        simpa [Seen] using same
    | cons t pending =>
        simp only [snapshotStep] at taken
        split at taken <;> cases taken
  · exact Iff.rfl

/-- The second store keeps the first, binds only variables of `V` beyond it, and makes no other
variable free in a term. -/
structure Grows (V : Var → Prop) (s t : Store) : Prop where
  kept : s ≤ t
  among : ∀ v, s.lookup v = none → t.lookup v ≠ none → V v
  closed : ∀ u v, t.Free u v → s.Free u v ∨ V v

variable {V W : Var → Prop}

theorem Grows.refl (s : Store) : Grows V s s :=
  ⟨le_refl s, fun _ free bound => (bound free).elim, fun _ _ free => .inl free⟩

theorem Grows.trans (first : Grows V r s) (second : Grows V s t) : Grows V r t where
  kept := le_trans first.kept second.kept
  among v free bound := by
    by_cases between : s.lookup v = none
    · exact second.among v between bound
    · exact first.among v free between
  closed u v free := by
    rcases second.closed u v free with free | inside
    · exact first.closed u v free
    · exact .inr inside

theorem Grows.mono (grows : Grows V s t) (within : ∀ v, V v → W v) : Grows W s t where
  kept := grows.kept
  among v free bound := within v (grows.among v free bound)
  closed u v free := (grows.closed u v free).imp_right (within v)

theorem Grows.eq_of_none (grows : Grows (fun _ => False) s t) : t = s := by
  apply ext
  intro v
  cases before : s.lookup v with
  | none =>
      by_contra bound
      exact grows.among v before bound
  | some u => exact grows.kept v u before

theorem Grows.within (grows : Grows V s t) (inside : ∀ v, s.Free u v → V v) :
    ∀ v, t.Free u v → V v := by
  intro v free
  rcases grows.closed u v free with free | member
  · exact inside v free
  · exact member

theorem free_of_bind (unbound : s.lookup x = none) (atEnd : s.IsEnd w) (other : w ≠ .var x)
    (inside : (s.bind x w).Free u v) : s.Free u v ∨ s.Free w v := by
  induction inside with
  | here done =>
      rw [deref_bind unbound atEnd other, Option.map_eq_some_iff] at done
      obtain ⟨y, before, found⟩ := done
      split at found
      · subst found
        exact .inr (.here (deref_of_isEnd atEnd))
      · subst found
        exact .inl (.here before)
  | inside done member _ ih =>
      rw [deref_bind unbound atEnd other, Option.map_eq_some_iff] at done
      obtain ⟨y, before, found⟩ := done
      rcases ih with free | free
      · split at found
        · subst found
          exact .inr (free_compound.mpr ⟨_, member, free⟩)
        · subst found
          exact .inl (.inside before member free)
      · exact .inr free

theorem grows_bind (unbound : s.lookup x = none) (atEnd : s.IsEnd w) (other : w ≠ .var x)
    (member : V x) (inside : ∀ v, s.Free w v → V v) : Grows V s (s.bind x w) where
  kept := le_bind unbound w
  among v free bound := by
    rw [lookup_bind] at bound
    split at bound
    · rename_i same
      exact same ▸ member
    · exact (bound free).elim
  closed u v free := (free_of_bind unbound atEnd other free).imp_right (inside v)

def SameOutside (V : Var → Prop) (s t : Store) : Prop := ∀ v, ¬ V v → t.lookup v = s.lookup v

theorem Grows.sameOutside (grows : Grows V s t) : SameOutside V s t := by
  intro v outside
  cases before : s.lookup v with
  | some u => exact grows.kept v u before
  | none =>
      by_contra bound
      exact outside (grows.among v before bound)

theorem SameOutside.trans (first : SameOutside V r s) (second : SameOutside V s t) :
    SameOutside V r t := fun v outside => (second v outside).trans (first v outside)

/-- A snapshot that covers free variables undoes whatever was done to them. -/
theorem restore_of_sameOutside (same : SameOutside V s t) {p : Snapshot}
    (unbound : ∀ v ∈ p.vars, s.lookup v = none) (covered : ∀ v, V v → v ∈ p.vars) :
    t.restore p = s := by
  apply Store.ext
  intro v
  rw [lookup_restore]
  split
  · rename_i saved
    exact (unbound v saved).symm
  · rename_i unsaved
    exact same v fun inside => unsaved (covered v inside)

end Store

end LogicSearch
