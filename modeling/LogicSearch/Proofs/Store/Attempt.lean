import LogicSearch.Proofs.Store.Free
import LogicSearch.Proofs.Term.Subst
import LogicSearch.Store.Unify

/-!
One move of unification, and what an attempt leaves behind. `Meets` lists all that a move can do, so
that no later proof opens its cases again. An attempt binds free variables of its two terms only,
and the snapshot of both undoes it.
-/

namespace LogicSearch

namespace Store

/-- What meeting of two terms at the ends of their chains does to a store and the pending pairs. -/
inductive Meets (s : Store) (pending : List (Term × Term)) :
    Term → Term → Turn (Store × List (Term × Term)) (Bool × Store) → Prop where
  | same {t : Term} : Meets s pending t t (.again (s, pending))
  | bindLeft {x : Var} {t : Term} :
      t ≠ .var x → Meets s pending (.var x) t (.again (s.bind x t, pending))
  | bindRight {x : Var} {t : Term} :
      t ≠ .var x → Meets s pending t (.var x) (.again (s.bind x t, pending))
  | args {f : Atom} {a b : Term} {as bs : List Term} :
      as.length = bs.length → Meets s pending (.compound f a as) (.compound f b bs)
        (.again (s, (a, b) :: as.zip bs ++ pending))
  | clash {t u : Term} :
      (∀ θ : Assignment, t.subst θ ≠ u.subst θ) → Meets s pending t u (.finish (false, s))

variable {s t : Store} {l r : Term} {pending : List (Term × Term)}
  {turn : Turn (Store × List (Term × Term)) (Bool × Store)}

theorem unifyEnds_meets : Meets s pending l r (s.unifyEnds pending l r) := by
  cases l with
  | var x =>
      cases r with
      | var y =>
          by_cases same : x = y
          · subst same
            simp only [unifyEnds, if_true]
            exact .same
          · simp only [unifyEnds, if_neg same]
            exact .bindLeft fun equal => same (by injection equal with equal; exact equal.symm)
      | _ => exact .bindLeft (by simp)
  | atom a =>
      cases r with
      | var y => exact .bindRight (by simp)
      | atom b =>
          by_cases same : a = b
          · subst same
            simp only [unifyEnds, if_true]
            exact .same
          · simp only [unifyEnds, if_neg same]
            exact .clash fun θ equal => same (by injection equal)
      | _ => exact .clash fun θ equal => by injection equal
  | int a =>
      cases r with
      | var y => exact .bindRight (by simp)
      | int b =>
          by_cases same : a = b
          · subst same
            simp only [unifyEnds, if_true]
            exact .same
          · simp only [unifyEnds, if_neg same]
            exact .clash fun θ equal => same (by injection equal)
      | _ => exact .clash fun θ equal => by injection equal
  | compound f a as =>
      cases r with
      | var y => exact .bindRight (by simp)
      | compound g b bs =>
          by_cases shape : f = g ∧ as.length = bs.length
          · simp only [unifyEnds, if_pos shape]
            obtain ⟨rfl, length⟩ := shape
            exact .args length
          · simp only [unifyEnds, if_neg shape]
            exact .clash fun θ equal => shape (Term.shape_of_subst_eq equal)
      | _ => exact .clash fun θ equal => by injection equal

theorem eq_of_sameVar (same : l.sameVar r = true) : l = r := by
  cases l <;> cases r <;> simp_all [Term.sameVar]

theorem ends_eq_of_sameVar {l' r' : Term} (same : l.sameVar r = true)
    (left : s.deref l = some l') (right : s.deref r = some r') : l' = r' := by
  rw [eq_of_sameVar same, right] at left
  injection left with left
  exact left.symm

theorem unifyStep_meets (taken : unifyStep (s, (l, r) :: pending) = some turn) :
    ∃ l' r', s.deref l = some l' ∧ s.deref r = some r' ∧ Meets s pending l' r' turn := by
  simp only [unifyStep] at taken
  split at taken
  · rename_i l' r' left right
    refine ⟨l', r', left, right, ?_⟩
    cases taken
    by_cases same : l.sameVar r = true
    · rw [if_pos same, ends_eq_of_sameVar same left right]
      exact .same
    · rw [if_neg same]
      exact unifyEnds_meets
  · cases taken

theorem unifyStep_nil (taken : unifyStep (s, []) = some turn) : turn = .finish (true, s) := by
  cases taken
  rfl

theorem leads_of_unify {fuel : Nat} {result : Bool × Store}
    (done : s.unify fuel l r = some result) :
    Turn.Leads (fun state turn => unifyStep state = some turn) (s, [(l, r)]) result :=
  Turn.leads_iff.mpr ⟨fuel, done⟩

theorem unify_of_leads {result : Bool × Store}
    (leads : Turn.Leads (fun state turn => unifyStep state = some turn) (s, [(l, r)]) result) :
    ∃ fuel, s.unify fuel l r = some result :=
  Turn.leads_iff.mp leads

def PendingWithin (V : Var → Prop) (s : Store) (pending : List (Term × Term)) : Prop :=
  ∀ pair ∈ pending, ∀ v, s.Free pair.1 v ∨ s.Free pair.2 v → V v

variable {V : Var → Prop}

theorem PendingWithin.grow (within : PendingWithin V s pending) (grows : Grows V s t) :
    PendingWithin V t pending := by
  intro pair member v free
  have inside := within pair member
  rcases free with free | free
  · exact grows.within (fun v free => inside v (.inl free)) v free
  · exact grows.within (fun v free => inside v (.inr free)) v free

theorem Meets.grows (meets : Meets s pending l r turn) (leftEnd : s.deref l = some l)
    (rightEnd : s.deref r = some r) (inside : ∀ v, s.Free l v ∨ s.Free r v → V v)
    (within : PendingWithin V s pending) {next : Store × List (Term × Term)}
    (again : turn = .again next) : Grows V s next.1 ∧ PendingWithin V next.1 next.2 := by
  cases meets with
  | same =>
      cases again
      exact ⟨.refl s, within⟩
  | @bindLeft x _ other =>
      cases again
      have grows : Grows V s (s.bind x r) :=
        grows_bind (lookup_of_deref leftEnd) (deref_isEnd rightEnd) other
          (inside x (.inl (.here leftEnd))) fun v free => inside v (.inr free)
      exact ⟨grows, within.grow grows⟩
  | @bindRight x _ other =>
      cases again
      have grows : Grows V s (s.bind x l) :=
        grows_bind (lookup_of_deref rightEnd) (deref_isEnd leftEnd) other
          (inside x (.inr (.here rightEnd))) fun v free => inside v (.inl free)
      exact ⟨grows, within.grow grows⟩
  | @args f a b as bs length =>
      cases again
      refine ⟨.refl s, ?_⟩
      intro pair member v free
      rw [← List.zip_cons_cons, List.mem_append] at member
      rcases member with arg | later
      · obtain ⟨left, right⟩ := List.of_mem_zip arg
        apply inside v
        rcases free with free | free
        · exact .inl (free_compound.mpr ⟨pair.1, left, free⟩)
        · exact .inr (free_compound.mpr ⟨pair.2, right, free⟩)
      · exact within pair later v free
  | clash => cases again

theorem Meets.store_of_finish {result : Bool × Store} (meets : Meets s pending l r turn)
    (finish : turn = .finish result) :
    result = (false, s) ∧ ∀ θ : Assignment, l.subst θ ≠ r.subst θ := by
  cases meets with
  | clash differ =>
      cases finish
      exact ⟨rfl, differ⟩
  | _ => cases finish

/-- An attempt at unification binds only free variables of its two terms. -/
theorem unify_grows {fuel : Nat} {answer : Bool} (done : s.unify fuel l r = some (answer, t)) :
    Grows (fun v => s.Free l v ∨ s.Free r v) s t := by
  apply (leads_of_unify done).invariant
    (fun state => Grows (fun v => s.Free l v ∨ s.Free r v) s state.1 ∧
      PendingWithin (fun v => s.Free l v ∨ s.Free r v) state.1 state.2)
    (fun result => Grows (fun v => s.Free l v ∨ s.Free r v) s result.2)
  · rintro ⟨now, pending⟩ next ⟨grown, within⟩ taken
    cases pending with
    | nil => cases taken
    | cons pair pending =>
        obtain ⟨l', r', left, right, meets⟩ := unifyStep_meets taken
        have inside := within pair List.mem_cons_self
        have later : PendingWithin _ now pending := fun pair member =>
          within pair (List.mem_cons_of_mem _ member)
        have ends : ∀ v, now.Free l' v ∨ now.Free r' v → s.Free l v ∨ s.Free r v := by
          intro v free
          rw [← free_deref left, ← free_deref right] at free
          exact inside v free
        obtain ⟨further, within⟩ := meets.grows (deref_of_isEnd (deref_isEnd left))
          (deref_of_isEnd (deref_isEnd right)) ends later rfl
        exact ⟨grown.trans further, within⟩
  · rintro ⟨now, pending⟩ result ⟨grown, within⟩ taken
    cases pending with
    | nil =>
        cases taken
        exact grown
    | cons pair pending =>
        obtain ⟨l', r', left, right, meets⟩ := unifyStep_meets taken
        rw [(meets.store_of_finish rfl).1]
        exact grown
  · refine ⟨.refl s, ?_⟩
    intro pair member v free
    rw [List.mem_singleton] at member
    rw [member] at free
    exact free

theorem mem_join {p q : Snapshot} {v : Var} : v ∈ (p.join q).vars ↔ v ∈ p.vars ∨ v ∈ q.vars :=
  List.mem_append

theorem restore_join (s : Store) (p q : Snapshot) :
    s.restore (p.join q) = (s.restore p).restore q := by
  simp [restore, Snapshot.join]

theorem restore_of_exact {p : Snapshot}
    (same : SameOutside (fun v => s.Free l v ∨ s.Free r v) s t)
    (exact : ∀ v, v ∈ p.vars ↔ s.Free l v ∨ s.Free r v) : t.restore p = s := by
  apply restore_of_sameOutside same
  · intro v member
    rcases (exact v).mp member with free | free
    · exact free.lookup
    · exact free.lookup
  · intro v free
    exact (exact v).mpr free

theorem restore_unify {fuel : Nat} {answer : Bool} {p : Snapshot}
    (done : s.unify fuel l r = some (answer, t))
    (exact : ∀ v, v ∈ p.vars ↔ s.Free l v ∨ s.Free r v) : t.restore p = s :=
  restore_of_exact (unify_grows done).sameOutside exact

/-- A tentative attempt is undone when it fails, and by its snapshot when it succeeds. -/
theorem tryUnify_cases {fuel : Nat} {result : Option Snapshot × Store}
    (done : s.tryUnify fuel l r = some result) :
    (∃ undo bound, result = (some undo, bound) ∧ s.unify fuel l r = some (true, bound) ∧
      bound.restore undo = s) ∨
    (∃ bound, result = (none, s) ∧ s.unify fuel l r = some (false, bound)) := by
  simp only [tryUnify] at done
  split at done
  · rename_i p q left right
    have undone {answer : Bool} {bound : Store}
        (attempt : s.unify fuel l r = some (answer, bound)) :
        bound.restore (p.join q) = s :=
      restore_unify attempt fun v => by rw [mem_join, mem_snapshot left, mem_snapshot right]
    split at done
    · rename_i bound attempt
      cases done
      exact .inl ⟨_, bound, rfl, attempt, undone attempt⟩
    · rename_i bound attempt
      cases done
      exact .inr ⟨bound, by rw [undone attempt], attempt⟩
    · cases done
  · cases done

theorem mem_tryUnify {fuel : Nat} {undo : Snapshot}
    (tried : s.tryUnify fuel l r = some (some undo, t)) (v : Var) :
    v ∈ undo.vars ↔ s.Free l v ∨ s.Free r v := by
  simp only [tryUnify] at tried
  split at tried
  · rename_i p q left right
    split at tried <;> cases tried
    rw [mem_join, mem_snapshot left, mem_snapshot right]
  · cases tried

theorem tryUnify_of_parts {m n k : Nat} {p q : Snapshot} {answer : Bool} {bound : Store}
    (first : s.snapshot m l = some p) (second : s.snapshot n r = some q)
    (attempt : s.unify k l r = some (answer, bound)) :
    ∃ fuel, s.tryUnify fuel l r = some (if answer then (some (p.join q), bound)
      else (none, bound.restore (p.join q))) := by
  refine ⟨m + n + k, ?_⟩
  simp only [tryUnify, snapshot_mono (show m ≤ m + n + k by omega) first,
    snapshot_mono (show n ≤ m + n + k by omega) second,
    unify_mono (show k ≤ m + n + k by omega) attempt]
  cases answer <;> rfl

end Store

end LogicSearch
