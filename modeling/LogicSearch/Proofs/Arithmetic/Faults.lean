import LogicSearch.Arithmetic.Eval
import LogicSearch.Proofs.Term.Subst

namespace LogicSearch

/-- A result that is no misuse of the engine. -/
def Sound {α : Type} (result : Except Halt α) : Prop := ∀ cause, result ≠ .error (.defect cause)

theorem sound_ok {α : Type} (a : α) : Sound (.ok a) := by
  intro cause wrong
  cases wrong

theorem sound_error {α : Type} (cause : GoalError) :
    Sound (.error (.error cause) : Except Halt α) := by
  intro cause' wrong
  cases wrong

theorem Sound.error {α β : Type} {halt : Halt} (sound : Sound (.error halt : Except Halt α)) :
    Sound (.error halt : Except Halt β) := by
  intro cause wrong
  cases wrong
  exact sound cause rfl

namespace Operator

variable {f : Atom} {op : Operator} {x y : Int64}

theorem sound_narrow (n : Int) : Sound (narrow n) := by
  unfold narrow fault
  split
  · exact sound_ok _
  · exact sound_error _

theorem arity_of_ofFunctor {arity : Nat} (found : ofFunctor? f arity = some op) :
    op.arity = arity := by
  have both := List.find?_some found
  simp only [Bool.and_eq_true, beq_iff_eq] at both
  exact both.2

theorem sound_unary (found : ofFunctor? f 1 = some op) : Sound (op.unary x) := by
  have one := arity_of_ofFunctor found
  cases op with
  | neg => exact sound_narrow _
  | abs => exact sound_narrow _
  | _ => simp [arity] at one

theorem sound_binary (found : ofFunctor? f 2 = some op) : Sound (op.binary x y) := by
  have two := arity_of_ofFunctor found
  cases op with
  | add => exact sound_narrow _
  | sub => exact sound_narrow _
  | mul => exact sound_narrow _
  | intDiv =>
      simp only [binary, fault]
      split
      · exact sound_error _
      · exact sound_narrow _
  | mod =>
      simp only [binary, fault]
      split
      · exact sound_error _
      · exact sound_ok _
  | min => exact sound_ok _
  | max => exact sound_ok _
  | neg => simp [arity] at two
  | abs => simp [arity] at two

end Operator

theorem Term.sound_evalWith {value : Var → Option (Except Halt Int64)}
    (each : ∀ v result, value v = some result → Sound result) {t : Term}
    {result : Except Halt Int64} (done : t.evalWith value = some result) : Sound result := by
  induction t using Term.inductionOn generalizing result with
  | atom a =>
      cases done
      exact sound_error _
  | int n =>
      cases done
      exact sound_ok _
  | var v => exact each v result done
  | compound f first rest ih =>
      have head (result : Except Halt Int64) (done : first.evalWith value = some result) :
          Sound result := ih first List.mem_cons_self done
      unfold evalWith at done
      split at done
      · rename_i op found
        split at done
        · cases done
          exact Operator.sound_unary found
        · exact head result done
      · rename_i op y found
        split at done
        · split at done
          · cases done
            exact Operator.sound_binary found
          · exact ih y (by simp) done
        · exact head result done
      · cases done
        exact sound_error _

theorem Store.sound_evalVar {s : Store} {depth : Nat} {v : Var} {result : Except Halt Int64}
    (done : s.evalVar depth v = some result) : Sound result := by
  induction depth generalizing v result with
  | zero =>
      simp only [evalVar] at done
      split at done <;> cases done
      exact sound_error _
  | succ depth ih =>
      simp only [evalVar] at done
      split at done
      · cases done
        exact sound_error _
      · exact Term.sound_evalWith (fun _ _ done => ih done) done

theorem Store.sound_eval {s : Store} {t : Term} {result : Except Halt Int64}
    (done : s.eval t = some result) : Sound result :=
  Term.sound_evalWith (fun _ _ done => Store.sound_evalVar done) done

end LogicSearch
