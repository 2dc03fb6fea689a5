import LogicSearch.Loop
import LogicSearch.Store.Basic

namespace LogicSearch

namespace Store

def compareEnds (pending : List (Term × Term)) : Term → Term → Turn (List (Term × Term)) Bool
  | .atom a, .atom b => if a = b then .again pending else .finish false
  | .int a, .int b => if a = b then .again pending else .finish false
  | .var x, .var y => if x = y then .again pending else .finish false
  | .compound f a as, .compound g b bs =>
      if f = g ∧ as.length = bs.length then .again ((a, b) :: as.zip bs ++ pending)
      else .finish false
  | _, _ => .finish false

/-- Take the next pair. What a variable is bound to is not compared with itself, which matters for
terms that contain themselves. -/
def equalStep (s : Store) : List (Term × Term) → Option (Turn (List (Term × Term)) Bool)
  | [] => some (.finish true)
  | (left, right) :: pending =>
    match s.deref left, s.deref right with
    | some l, some r =>
        some (if left.sameVar right then .again pending else compareEnds pending l r)
    | _, _ => none

def equal (s : Store) (fuel : Nat) (left right : Term) : Option Bool :=
  Turn.iterate s.equalStep fuel [(left, right)]

theorem equal_mono {s : Store} {fuel more : Nat} (enough : fuel ≤ more) {left right : Term}
    {answer : Bool} (done : s.equal fuel left right = some answer) :
    s.equal more left right = some answer :=
  Turn.iterate_mono (fun _ _ same => same) enough done

end Store

end LogicSearch
