import LogicSearch.Arithmetic.Apply
import LogicSearch.Store.Basic

/-!
The value of an integer expression in a store. Arguments are evaluated from left to right before the
operator is applied, and the first fault is the answer; a compound that denotes no operator is a
fault whatever its arguments are. Evaluation binds nothing.
-/

namespace LogicSearch

namespace Term

/-- The value of an expression, given the values of its variables; `none` stands for an evaluation
that does not return. -/
def evalWith (value : Var → Option (Except Halt Int64)) : Term → Option (Except Halt Int64)
  | int n => some (.ok n)
  | var v => value v
  | atom a => some (.error (.error (.notEvaluable ⟨a, 0⟩)))
  | compound f x rest =>
    match Operator.ofFunctor? f (rest.length + 1), rest with
    | some op, [] =>
      match evalWith value x with
      | some (.ok x) => some (op.unary x)
      | halted => halted
    | some op, [y] =>
      match evalWith value x with
      | some (.ok x) =>
        match evalWith value y with
        | some (.ok y) => some (op.binary x y)
        | halted => halted
      | halted => halted
    | _, _ => some (.error (.error (.notEvaluable ⟨f, rest.length + 1⟩)))

end Term

namespace Store

def evalVar (s : Store) : Nat → Var → Option (Except Halt Int64)
  | 0, v => if s.isBound v then none else some (.error (.error .instantiation))
  | depth + 1, v =>
    match s.lookup v with
    | none => some (.error (.error .instantiation))
    | some t => t.evalWith (s.evalVar depth)

def eval (s : Store) (t : Term) : Option (Except Halt Int64) := t.evalWith (s.evalVar s.size)

end Store

end LogicSearch
