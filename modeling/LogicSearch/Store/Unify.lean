import LogicSearch.Store.Snapshot

/-!
Unification: make two terms equal by binding variables. Pairs wait in a list and are taken from the
left; there is no occurs check, and the first mismatch ends the attempt with its bindings in place.
-/

namespace LogicSearch

namespace Store

/-- Make two terms at the ends of their chains equal; the pairs of their arguments come next. Of a
variable and a term the variable is bound; of two variables the left one. -/
def unifyEnds (s : Store) (pending : List (Term × Term)) :
    Term → Term → Turn (Store × List (Term × Term)) (Bool × Store)
  | .var x, .var y => .again (if x = y then s else s.bind x (.var y), pending)
  | .var x, t => .again (s.bind x t, pending)
  | t, .var y => .again (s.bind y t, pending)
  | .atom a, .atom b => if a = b then .again (s, pending) else .finish (false, s)
  | .int a, .int b => if a = b then .again (s, pending) else .finish (false, s)
  | .compound f a as, .compound g b bs =>
      if f = g ∧ as.length = bs.length then .again (s, (a, b) :: as.zip bs ++ pending)
      else .finish (false, s)
  | _, _ => .finish (false, s)

/-- Take the next pair of terms to be made equal. What a variable is bound to is not unified with
itself, which matters for terms that contain themselves. -/
def unifyStep :
    Store × List (Term × Term) → Option (Turn (Store × List (Term × Term)) (Bool × Store))
  | (s, []) => some (.finish (true, s))
  | (s, (left, right) :: pending) =>
    match s.deref left, s.deref right with
    | some l, some r =>
        some (if left.sameVar right then .again (s, pending) else s.unifyEnds pending l r)
    | _, _ => none

def unify (s : Store) (fuel : Nat) (left right : Term) : Option (Bool × Store) :=
  Turn.iterate unifyStep fuel (s, [(left, right)])

theorem unify_mono {s : Store} {fuel more : Nat} (enough : fuel ≤ more) {left right : Term}
    {r : Bool × Store} (done : s.unify fuel left right = some r) :
    s.unify more left right = some r :=
  Turn.iterate_mono (fun _ _ same => same) enough done

/-- Unify, and on success give what undoes it. A failed attempt is undone at once. -/
def tryUnify (s : Store) (fuel : Nat) (left right : Term) :
    Option (Option Snapshot × Store) :=
  match s.snapshot fuel left, s.snapshot fuel right with
  | some p, some q =>
    match s.unify fuel left right with
    | some (true, bound) => some (some (p.join q), bound)
    | some (false, bound) => some (none, bound.restore (p.join q))
    | none => none
  | _, _ => none

theorem tryUnify_mono {s : Store} {fuel more : Nat} (enough : fuel ≤ more) {left right : Term}
    {r : Option Snapshot × Store} (done : s.tryUnify fuel left right = some r) :
    s.tryUnify more left right = some r := by
  unfold tryUnify at done ⊢
  cases first : s.snapshot fuel left with
  | none => simp [first] at done
  | some p =>
      cases second : s.snapshot fuel right with
      | none => simp [first, second] at done
      | some q =>
          cases attempt : s.unify fuel left right with
          | none => simp [first, second, attempt] at done
          | some answer =>
              rw [first, second, attempt] at done
              rw [snapshot_mono enough first, snapshot_mono enough second,
                unify_mono enough attempt]
              exact done

end Store

end LogicSearch
