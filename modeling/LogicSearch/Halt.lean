import LogicSearch.Arithmetic.Operator
import LogicSearch.Indicator

/-!
Why a computation stops without an answer. A `GoalError` is a fault of the program being run; a
`Defect` is a misuse of the engine that a well-formed registry never shows.
-/

namespace LogicSearch

inductive ArithmeticFault where
  | zeroDivisor
  | intOverflow
  deriving DecidableEq, Repr

inductive GoalError where
  | unknownPredicate (predicate : Indicator)
  | instantiation
  | notCallable (value : Int64)
  | notEvaluable (culprit : Indicator)
  | evaluation (fault : ArithmeticFault)
  deriving DecidableEq

inductive Defect where
  | noArguments (functor : Atom)
  | notUnary (op : Operator)
  | notBinary (op : Operator)
  | wrongArity (expected given : Nat)
  deriving DecidableEq

inductive Halt where
  | error (cause : GoalError)
  | defect (cause : Defect)
  deriving DecidableEq

inductive RegistrationError where
  | duplicate (predicate : Indicator)
  deriving DecidableEq

namespace ArithmeticFault

def message : ArithmeticFault → String
  | zeroDivisor => "zero_divisor"
  | intOverflow => "int_overflow"

end ArithmeticFault

namespace GoalError

def message : GoalError → String
  | unknownPredicate p => "Unknown procedure " ++ p.text
  | instantiation => "Arguments are not sufficiently instantiated"
  | notCallable v =>
      "Type error: expected callable, found " ++ String.ofList (Decimal.ofInt v.toInt)
  | notEvaluable p => "Type error: expected evaluable, found " ++ p.text
  | evaluation fault => "Arithmetic: evaluation error: " ++ fault.message

end GoalError

namespace Defect

def unreachable (why : String) : String := "internal error: entered unreachable code: " ++ why

def arityWord : Nat → String
  | 0 => "nullary"
  | 1 => "unary"
  | _ => "binary"

def message : Defect → String
  | noArguments f => "compound term " ++ f.text ++ " needs at least one argument"
  | notUnary op => unreachable (op.name ++ " is not a unary operator")
  | notBinary op => unreachable (op.name ++ " is not a binary operator")
  | wrongArity expected given =>
      unreachable (arityWord expected ++ " predicate called with " ++ Decimal.text given ++
        " arguments")

end Defect

namespace Halt

def message : Halt → String
  | error cause => cause.message
  | defect cause => cause.message

end Halt

namespace RegistrationError

def message : RegistrationError → String
  | duplicate p => "Predicate " ++ p.text ++ " is already registered"

end RegistrationError

end LogicSearch
