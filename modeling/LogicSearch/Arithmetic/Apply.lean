import LogicSearch.Halt

namespace LogicSearch

namespace Operator

def fault {α : Type} (f : ArithmeticFault) : Except Halt α := .error (.error (.evaluation f))

def narrow (n : Int) : Except Halt Int64 :=
  if Int64.minValue.toInt ≤ n ∧ n ≤ Int64.maxValue.toInt then .ok (Int64.ofInt n)
  else fault .intOverflow

/-- The remainder with the sign of the divisor. A divisor of -1 leaves none, and is kept from the
word division, where the smallest word has no quotient by it. -/
def floorMod (x y : Int64) : Int64 :=
  if y = -1 then 0
  else
    let r := x % y
    if r ≠ 0 ∧ decide (r < 0) ≠ decide (y < 0) then r + y else r

def unary (op : Operator) (x : Int64) : Except Halt Int64 :=
  match op with
  | neg => narrow (-x.toInt)
  | abs => narrow x.toInt.natAbs
  | op => .error (.defect (.notUnary op))

def binary (op : Operator) (x y : Int64) : Except Halt Int64 :=
  match op with
  | add => narrow (x.toInt + y.toInt)
  | sub => narrow (x.toInt - y.toInt)
  | mul => narrow (x.toInt * y.toInt)
  | intDiv => if y = 0 then fault .zeroDivisor else narrow (x.toInt.tdiv y.toInt)
  | mod => if y = 0 then fault .zeroDivisor else .ok (floorMod x y)
  | min => .ok (if x ≤ y then x else y)
  | max => .ok (if x ≤ y then y else x)
  | op => .error (.defect (.notBinary op))

end Operator

end LogicSearch
