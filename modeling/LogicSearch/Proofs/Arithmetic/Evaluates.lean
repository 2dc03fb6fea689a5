import LogicSearch.Proofs.Arithmetic.Faults
import LogicSearch.Proofs.Store.Chain

namespace LogicSearch

namespace Store

/-- The value of an expression, or the first fault from left to right. -/
inductive Evaluates (s : Store) : Term → Except Halt Int64 → Prop where
  | int {t : Term} {n : Int64} : s.deref t = some (.int n) → Evaluates s t (.ok n)
  | free {t : Term} {v : Var} :
      s.deref t = some (.var v) → Evaluates s t (.error (.error .instantiation))
  | atom {t : Term} {a : Atom} :
      s.deref t = some (.atom a) → Evaluates s t (.error (.error (.notEvaluable ⟨a, 0⟩)))
  | plain {t x : Term} {f : Atom} {rest : List Term} : s.deref t = some (.compound f x rest) →
      Operator.ofFunctor? f (rest.length + 1) = none →
      Evaluates s t (.error (.error (.notEvaluable ⟨f, rest.length + 1⟩)))
  | unary {t x : Term} {f : Atom} {op : Operator} {n : Int64} :
      s.deref t = some (.compound f x []) → Operator.ofFunctor? f 1 = some op →
      Evaluates s x (.ok n) → Evaluates s t (op.unary n)
  | binary {t x y : Term} {f : Atom} {op : Operator} {n k : Int64} :
      s.deref t = some (.compound f x [y]) → Operator.ofFunctor? f 2 = some op →
      Evaluates s x (.ok n) → Evaluates s y (.ok k) → Evaluates s t (op.binary n k)
  | first {t x : Term} {f : Atom} {rest : List Term} {op : Operator} {halt : Halt} :
      s.deref t = some (.compound f x rest) → Operator.ofFunctor? f (rest.length + 1) = some op →
      Evaluates s x (.error halt) → Evaluates s t (.error halt)
  | second {t x y : Term} {f : Atom} {op : Operator} {n : Int64} {halt : Halt} :
      s.deref t = some (.compound f x [y]) → Operator.ofFunctor? f 2 = some op →
      Evaluates s x (.ok n) → Evaluates s y (.error halt) → Evaluates s t (.error halt)

variable {s : Store} {u w t : Term} {v : Var} {result : Except Halt Int64}

theorem Evaluates.congr (evaluates : s.Evaluates u result) (same : s.deref w = s.deref u) :
    s.Evaluates w result := by
  cases evaluates with
  | int done => exact .int (same.trans done)
  | free done => exact .free (same.trans done)
  | atom done => exact .atom (same.trans done)
  | plain done none => exact .plain (same.trans done) none
  | unary done found x => exact .unary (same.trans done) found x
  | binary done found x y => exact .binary (same.trans done) found x y
  | first done found x => exact .first (same.trans done) found x
  | second done found x y => exact .second (same.trans done) found x y

end Store

theorem Operator.ofFunctor?_long (f : Atom) {arity : Nat} (long : 2 < arity) :
    ofFunctor? f arity = none := by
  cases found : ofFunctor? f arity with
  | none => rfl
  | some op =>
      have same := arity_of_ofFunctor found
      cases op <;> simp only [Operator.arity] at same <;> omega

namespace Store

variable {s : Store} {u w t : Term} {v : Var} {result : Except Halt Int64}

theorem evaluates_of_evalWith {value : Var → Option (Except Halt Int64)}
    (each : ∀ v result, value v = some result → s.Evaluates (.var v) result)
    (done : t.evalWith value = some result) : s.Evaluates t result := by
  induction t using Term.inductionOn generalizing result with
  | atom a =>
      cases done
      exact .atom rfl
  | int n =>
      cases done
      exact .int rfl
  | var v => exact each v result done
  | compound f x rest ih =>
      have head (result) (done : x.evalWith value = some result) : s.Evaluates x result :=
        ih x List.mem_cons_self done
      unfold Term.evalWith at done
      split at done
      · rename_i op found
        split at done
        · rename_i n here
          cases done
          exact .unary rfl found (head _ here)
        · cases result with
          | error halt => exact .first rfl found (head _ done)
          | ok n => exact absurd done (by simp_all)
      · rename_i op y found
        split at done
        · rename_i n here
          split at done
          · rename_i k there
            cases done
            exact .binary rfl found (head _ here) (ih y (by simp) there)
          · cases result with
            | error halt => exact .second rfl found (head _ here) (ih y (by simp) done)
            | ok k => exact absurd done (by simp_all)
        · cases result with
          | error halt => exact .first rfl found (head _ done)
          | ok n => exact absurd done (by simp_all)
      · rename_i rest _ _ one two
        cases done
        refine .plain rfl ?_
        rw [Option.eq_none_iff_forall_ne_some]
        intro op found
        rcases rest with _ | ⟨y, _ | ⟨z, rest⟩⟩
        · exact one op found rfl
        · exact two op y found rfl
        · rw [Operator.ofFunctor?_long f (by simp)] at found
          cases found

theorem evaluates_of_evalVar {depth : Nat} (done : s.evalVar depth v = some result) :
    s.Evaluates (.var v) result := by
  induction depth generalizing v result with
  | zero =>
      simp only [evalVar] at done
      split at done
      · cases done
      · rename_i free
        cases done
        exact .free (deref_of_isEnd (by simpa [IsEnd, isBound] using free))
  | succ depth ih =>
      simp only [evalVar] at done
      split at done
      · rename_i free
        cases done
        exact .free (deref_of_isEnd free)
      · rename_i t found
        exact (evaluates_of_evalWith (fun v result done => ih done) done).congr (deref_var found)

theorem evalWith_mono {value wider : Var → Option (Except Halt Int64)}
    (kept : ∀ v result, value v = some result → wider v = some result)
    (done : t.evalWith value = some result) : t.evalWith wider = some result := by
  induction t using Term.inductionOn generalizing result with
  | atom a => exact done
  | int n => exact done
  | var v => exact kept v result done
  | compound f x rest ih =>
      have head (result) (done : x.evalWith value = some result) :
          x.evalWith wider = some result := ih x List.mem_cons_self done
      unfold Term.evalWith at done ⊢
      split at done
      · cases here : x.evalWith value with
        | none => simp [here] at done
        | some n =>
            rw [here] at done
            rw [head n here]
            exact done
      · rename_i op y found
        cases here : x.evalWith value with
        | none => simp [here] at done
        | some n =>
            rw [here] at done
            rw [head n here]
            cases n with
            | error halt => exact done
            | ok n =>
                simp only at done ⊢
                cases there : y.evalWith value with
                | none => simp [there] at done
                | some k =>
                    rw [there] at done
                    rw [ih y (by simp) there]
                    exact done
      · exact done

theorem evalVar_succ {depth : Nat} (done : s.evalVar depth v = some result) :
    s.evalVar (depth + 1) v = some result := by
  induction depth generalizing v result with
  | zero =>
      simp only [evalVar] at done
      split at done
      · cases done
      · rename_i free
        have unbound : s.lookup v = none := by simpa [isBound] using free
        simpa [evalVar, unbound] using done
  | succ depth ih =>
      rw [evalVar] at done ⊢
      split at done
      · exact done
      · exact evalWith_mono (fun v result done => ih done) done

theorem evalVar_mono {depth deeper : Nat} (enough : depth ≤ deeper)
    (done : s.evalVar depth v = some result) : s.evalVar deeper v = some result := by
  induction enough with
  | refl => exact done
  | step _ ih => exact evalVar_succ ih

private theorem evalVar_path {depth : Nat} (done : s.evalVar (depth + 1) v = some result)
    (first : s.evalVar depth v = none) :
    ∃ path : List Var, path.length = depth + 1 ∧ path.Nodup ∧
      ∀ x ∈ path, (∃ t, s.lookup x = some t) ∧ ∃ result, s.evalVar (depth + 1) x = some result := by
  have bound : ∃ t, s.lookup v = some t := by
    cases found : s.lookup v with
    | some t => exact ⟨t, rfl⟩
    | none => cases depth <;> simp [evalVar, isBound, found] at first
  induction depth generalizing v result with
  | zero => exact ⟨[v], rfl, by simp, by simpa using ⟨bound, result, done⟩⟩
  | succ depth ih =>
      obtain ⟨t, found⟩ := bound
      have now : t.evalWith (s.evalVar (depth + 1)) = some result := by
        simpa [evalVar, found] using done
      have before : t.evalWith (s.evalVar depth) = none := by simpa [evalVar, found] using first
      -- The value returns at this depth and not at the one before, so a variable in it does too.
      have late : ∃ x result, s.evalVar (depth + 1) x = some result ∧ s.evalVar depth x = none := by
        by_contra all
        push Not at all
        have kept (x) (result) (done : s.evalVar (depth + 1) x = some result) :
            s.evalVar depth x = some result := by
          obtain ⟨other, found⟩ := Option.ne_none_iff_exists'.mp (all x result done)
          rw [evalVar_succ found] at done
          rw [found, done]
        rw [evalWith_mono kept now] at before
        cases before
      obtain ⟨x, result', late, none⟩ := late
      have bound : ∃ t, s.lookup x = some t := by
        cases found : s.lookup x with
        | some t => exact ⟨t, rfl⟩
        | none => cases depth <;> simp [evalVar, isBound, found] at none
      obtain ⟨path, length, apart, each⟩ := ih late none bound
      -- What comes later on the path returns earlier than `v` does.
      have fresh : v ∉ path := by
        intro again
        obtain ⟨-, result, early⟩ := each v again
        rw [first] at early
        cases early
      refine ⟨v :: path, by simp [length], List.nodup_cons.mpr ⟨fresh, apart⟩, ?_⟩
      intro y member
      rcases List.mem_cons.mp member with rfl | member
      · exact ⟨⟨t, found⟩, result, done⟩
      · obtain ⟨bound, result, early⟩ := each y member
        exact ⟨bound, result, evalVar_succ early⟩

theorem evalVar_size {depth : Nat} (done : s.evalVar depth v = some result) :
    s.evalVar s.size v = some result := by
  induction depth with
  | zero => exact evalVar_mono (Nat.zero_le _) done
  | succ depth ih =>
      cases first : s.evalVar depth v with
      | some early =>
          rw [evalVar_succ first] at done
          exact ih (done ▸ first)
      | none =>
          obtain ⟨path, length, apart, each⟩ := evalVar_path done first
          have short := length_le_size apart fun x member => (each x member).1
          exact evalVar_mono (by omega) done

private theorem evalWith_of_ends (depth : Nat) (ends : s.Ends u w)
    (done : w.evalWith (s.evalVar depth) = some result) :
    ∃ deeper, u.evalWith (s.evalVar deeper) = some result := by
  induction ends with
  | here => exact ⟨depth, done⟩
  | step found _ ih =>
      obtain ⟨deeper, done⟩ := ih done
      exact ⟨deeper + 1, by simpa [Term.evalWith, evalVar, found] using done⟩

private theorem evalWith_of_evaluates (evaluates : s.Evaluates t result) :
    ∃ depth, t.evalWith (s.evalVar depth) = some result := by
  have deeper {t : Term} {depth more : Nat} {result} (enough : depth ≤ more)
      (done : t.evalWith (s.evalVar depth) = some result) :
      t.evalWith (s.evalVar more) = some result :=
    evalWith_mono (fun _ _ => evalVar_mono enough) done
  induction evaluates with
  | int done => exact evalWith_of_ends 0 (deref_eq_some_iff.mp done) rfl
  | free done =>
      refine evalWith_of_ends 0 (deref_eq_some_iff.mp done) ?_
      simp [Term.evalWith, evalVar, isBound, lookup_of_deref done]
  | atom done => exact evalWith_of_ends 0 (deref_eq_some_iff.mp done) rfl
  | plain done none =>
      refine evalWith_of_ends 0 (deref_eq_some_iff.mp done) ?_
      simp [Term.evalWith, none]
  | unary done found _ ih =>
      obtain ⟨depth, value⟩ := ih
      refine evalWith_of_ends depth (deref_eq_some_iff.mp done) ?_
      simp [Term.evalWith, found, value]
  | binary done found _ _ left right =>
      obtain ⟨d, x⟩ := left
      obtain ⟨e, y⟩ := right
      refine evalWith_of_ends (max d e) (deref_eq_some_iff.mp done) ?_
      simp [Term.evalWith, found, deeper (Nat.le_max_left d e) x, deeper (Nat.le_max_right d e) y]
  | @first t x f rest op halt done found _ ih =>
      obtain ⟨depth, value⟩ := ih
      refine evalWith_of_ends depth (deref_eq_some_iff.mp done) ?_
      rcases rest with _ | ⟨y, _ | ⟨z, rest⟩⟩
      · simp [Term.evalWith, show Operator.ofFunctor? f 1 = some op from found, value]
      · simp [Term.evalWith, show Operator.ofFunctor? f 2 = some op from found, value]
      · rw [Operator.ofFunctor?_long f (by simp)] at found
        cases found
  | second done found _ _ left right =>
      obtain ⟨d, x⟩ := left
      obtain ⟨e, y⟩ := right
      refine evalWith_of_ends (max d e) (deref_eq_some_iff.mp done) ?_
      simp [Term.evalWith, found, deeper (Nat.le_max_left d e) x, deeper (Nat.le_max_right d e) y]

theorem eval_eq_some_iff : s.eval t = some result ↔ s.Evaluates t result := by
  constructor
  · exact fun done => evaluates_of_evalWith (fun _ _ => evaluates_of_evalVar) done
  · intro evaluates
    obtain ⟨depth, done⟩ := evalWith_of_evaluates evaluates
    exact evalWith_mono (fun _ _ => evalVar_size) done

end Store

end LogicSearch
