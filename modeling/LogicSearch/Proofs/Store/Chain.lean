import LogicSearch.Store.Basic

/-!
Chains of variables. `Ends` says without fuel where the bindings of a term lead, and `deref` finds
exactly this. From there on nothing looks at how a chain is followed.
-/

namespace LogicSearch

namespace Store

def IsEnd (s : Store) : Term → Prop
  | .var v => s.lookup v = none
  | _ => True

inductive Ends (s : Store) : Term → Term → Prop where
  | here {t : Term} : s.IsEnd t → Ends s t t
  | step {v : Var} {t u : Term} : s.lookup v = some t → Ends s t u → Ends s (.var v) u

instance : LE Store := ⟨fun s t => ∀ v u, s.lookup v = some u → t.lookup v = some u⟩

variable {s t : Store} {u w : Term} {v : Var}

theorem le_refl (s : Store) : s ≤ s := fun _ _ found => found

theorem le_trans {r s t : Store} (first : r ≤ s) (second : s ≤ t) : r ≤ t :=
  fun v u found => second v u (first v u found)

theorem length_le_size {path : List Var} (apart : path.Nodup)
    (bound : ∀ v ∈ path, ∃ u, s.lookup v = some u) : path.length ≤ s.size := by
  rw [size, ← Std.ExtTreeMap.length_keys]
  apply apart.length_le_of_subset
  intro v present
  obtain ⟨u, found⟩ := bound v present
  rw [Std.ExtTreeMap.mem_keys]
  exact Std.ExtTreeMap.mem_iff_isSome_getElem?.mpr (Option.isSome_iff_exists.mpr ⟨u, found⟩)

inductive EndsIn (s : Store) : Nat → Term → Term → Prop where
  | here {t : Term} : s.IsEnd t → EndsIn s 0 t t
  | step {n : Nat} {v : Var} {t u : Term} :
      s.lookup v = some t → EndsIn s n t u → EndsIn s (n + 1) (.var v) u

theorem Ends.counted (ends : s.Ends u w) : ∃ n, s.EndsIn n u w := by
  induction ends with
  | here atEnd => exact ⟨0, .here atEnd⟩
  | step found _ ih =>
      obtain ⟨n, ends⟩ := ih
      exact ⟨n + 1, .step found ends⟩

theorem EndsIn.length_eq {n m : Nat} {w' : Term} (first : s.EndsIn n u w)
    (second : s.EndsIn m u w') : n = m := by
  induction first generalizing m with
  | here atEnd =>
      cases second with
      | here => rfl
      | step found => simp [IsEnd, found] at atEnd
  | step found _ ih =>
      cases second with
      | here atEnd => simp [IsEnd, found] at atEnd
      | step found' rest =>
          rw [found] at found'
          cases found'
          rw [ih rest]

private theorem EndsIn.path {n : Nat} (ends : s.EndsIn n u w) :
    ∃ path : List Var, path.length = n ∧ path.Nodup ∧
      ∀ v ∈ path, (∃ t, s.lookup v = some t) ∧ ∃ k ≤ n, s.EndsIn k (.var v) w := by
  induction ends with
  | here => exact ⟨[], rfl, List.nodup_nil, by simp⟩
  | @step n v t u found rest ih =>
      obtain ⟨path, length, apart, each⟩ := ih
      -- Met again, `v` would have a shorter chain than it has.
      have fresh : v ∉ path := by
        intro again
        obtain ⟨-, k, small, ends⟩ := each v again
        have same := ends.length_eq (.step found rest)
        omega
      refine ⟨v :: path, by simp [length], List.nodup_cons.mpr ⟨fresh, apart⟩, ?_⟩
      intro x present
      rcases List.mem_cons.mp present with rfl | present
      · exact ⟨⟨t, found⟩, n + 1, Nat.le_refl _, .step found rest⟩
      · obtain ⟨bound, k, small, ends⟩ := each x present
        exact ⟨bound, k, by omega, ends⟩

private theorem follow_of_endsIn {n fuel : Nat} (ends : s.EndsIn n (.var v) w)
    (enough : n ≤ fuel) : s.follow fuel v = some w := by
  induction fuel generalizing n v with
  | zero =>
      cases ends with
      | here atEnd => simp_all [follow, IsEnd, isBound]
      | step => omega
  | succ fuel ih =>
      cases ends with
      | here atEnd =>
          simp only [IsEnd] at atEnd
          simp [follow, atEnd]
      | @step n _ t _ found rest =>
          simp only [follow, found]
          cases t with
          | var x => exact ih rest (by omega)
          | _ => cases rest; rfl

private theorem ends_of_follow {fuel : Nat} (done : s.follow fuel v = some w) :
    s.Ends (.var v) w := by
  induction fuel generalizing v with
  | zero =>
      simp only [follow] at done
      split at done
      · cases done
      · cases done
        rename_i free
        exact .here (by simpa [IsEnd, isBound] using free)
  | succ fuel ih =>
      simp only [follow] at done
      split at done
      · rename_i x found
        exact .step found (ih done)
      · rename_i t notVar found
        cases done
        refine .step found (.here ?_)
        cases w with
        | var x => exact (notVar x rfl).elim
        | _ => trivial
      · rename_i free
        cases done
        exact .here free

theorem deref_eq_some_iff : s.deref u = some w ↔ s.Ends u w := by
  cases u with
  | var v =>
      constructor
      · exact ends_of_follow
      · intro ends
        obtain ⟨n, counted⟩ := ends.counted
        obtain ⟨path, length, apart, each⟩ := counted.path
        have short := length_le_size apart fun v present => (each v present).1
        exact follow_of_endsIn counted (by omega)
  | _ =>
      constructor
      · intro done
        cases done
        exact .here trivial
      · intro ends
        cases ends
        rfl

theorem deref_of_isEnd (atEnd : s.IsEnd u) : s.deref u = some u :=
  deref_eq_some_iff.mpr (.here atEnd)

theorem deref_isEnd (done : s.deref u = some w) : s.IsEnd w := by
  have ends := deref_eq_some_iff.mp done
  clear done
  induction ends with
  | here atEnd => exact atEnd
  | step _ _ ih => exact ih

theorem lookup_of_deref (done : s.deref u = some (.var v)) : s.lookup v = none :=
  deref_isEnd done

theorem deref_var (found : s.lookup v = some u) : s.deref (.var v) = s.deref u := by
  apply Option.ext
  intro w
  rw [deref_eq_some_iff, deref_eq_some_iff]
  constructor
  · intro ends
    cases ends with
    | here atEnd => simp [IsEnd, found] at atEnd
    | step found' rest =>
        rw [found] at found'
        cases found'
        exact rest
  · exact .step found

theorem deref_le (larger : s ≤ t) (done : s.deref u = some w) : t.deref u = t.deref w := by
  have ends := deref_eq_some_iff.mp done
  clear done
  induction ends with
  | here => rfl
  | step found _ ih => rw [deref_var (larger _ _ found), ih]

/-- A chain that ends in a larger store has a first part that ends in the smaller one. -/
theorem deref_of_le (larger : s ≤ t) (done : t.deref u = some w) :
    ∃ x, s.deref u = some x ∧ t.deref x = some w := by
  have ends := deref_eq_some_iff.mp done
  induction ends with
  | @here u atEnd =>
      refine ⟨u, deref_of_isEnd ?_, done⟩
      cases u with
      | var v =>
          cases found : s.lookup v with
          | none => exact found
          | some x => simp [IsEnd, larger v x found] at atEnd
      | _ => trivial
  | @step v u w found rest ih =>
      cases before : s.lookup v with
      | none => exact ⟨.var v, deref_of_isEnd before, done⟩
      | some x =>
          have same := larger v x before
          rw [found] at same
          cases same
          rw [deref_var before]
          exact ih (deref_eq_some_iff.mpr rest)

theorem le_bind (free : s.lookup v = none) (u : Term) : s ≤ s.bind v u := by
  intro x w found
  rw [lookup_bind]
  split
  · rename_i same
    rw [← same, free] at found
    cases found
  · exact found

@[simp] theorem lookup_bind_self (s : Store) (v : Var) (u : Term) :
    (s.bind v u).lookup v = some u := by
  simp [lookup_bind]

private theorem isEnd_bind (atEnd : s.IsEnd u) (other : u ≠ .var v) : (s.bind v w).IsEnd u := by
  cases u with
  | var x =>
      have apart : v ≠ x := fun same => other (by rw [same])
      simpa [IsEnd, lookup_bind, apart] using atEnd
  | _ => trivial

/-- Chains that ended at the variable now end at its value, and no others change. -/
theorem deref_bind (free : s.lookup v = none) (atEnd : s.IsEnd w) (other : w ≠ .var v)
    (u : Term) :
    (s.bind v w).deref u = (s.deref u).map fun x => if x = .var v then w else x := by
  have larger := le_bind free w
  have value : (s.bind v w).deref w = some w := deref_of_isEnd (isEnd_bind atEnd other)
  cases before : s.deref u with
  | none =>
      cases after : (s.bind v w).deref u with
      | none => rfl
      | some x =>
          obtain ⟨y, done, -⟩ := deref_of_le larger after
          rw [before] at done
          cases done
  | some x =>
      rw [deref_le larger before, Option.map_some]
      by_cases same : x = .var v
      · rw [if_pos same, same, deref_var (lookup_bind_self s v w), value]
      · rw [if_neg same]
        exact deref_of_isEnd (isEnd_bind (deref_isEnd before) same)

end Store

end LogicSearch
