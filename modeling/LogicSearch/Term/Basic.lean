import LogicSearch.Atom
import LogicSearch.Indicator

/-!
Terms. A compound carries its first argument apart from the others, so that none is without
arguments. A variable is a number; what it is bound to is the store's business.
-/

namespace LogicSearch

abbrev Var := Nat

inductive Term where
  | atom (a : Atom)
  | int (value : Int64)
  | var (v : Var)
  | compound (functor : Atom) (first : Term) (rest : List Term)

namespace Term

/-- A functor applied to its arguments, which is the atom itself when there are none. -/
def app (functor : Atom) : List Term → Term
  | [] => atom functor
  | first :: rest => compound functor first rest

def nil : Term := atom .nil

def cons (head tail : Term) : Term := compound .dot head [tail]

def listOnto (items : List Term) (tail : Term) : Term := items.foldr cons tail

def list (items : List Term) : Term := listOnto items nil

def cell? : Term → Option (Term × Term)
  | compound f head [tail] => if f = .dot then some (head, tail) else none
  | _ => none

def sameVar : Term → Term → Bool
  | var v, var w => v == w
  | _, _ => false

def args : Term → List Term
  | compound _ first rest => first :: rest
  | _ => []

def indicator? : Term → Option Indicator
  | atom a => some ⟨a, 0⟩
  | compound f _ rest => some ⟨f, rest.length + 1⟩
  | _ => none

def asAtom? : Term → Option Atom
  | atom a => some a
  | _ => none

def asInt? : Term → Option Int64
  | int value => some value
  | _ => none

mutual

def decEq : (t u : Term) → Decidable (t = u)
  | atom a, atom b =>
      if h : a = b then isTrue (by rw [h]) else isFalse (fun e => h (by injection e))
  | int a, int b =>
      if h : a = b then isTrue (by rw [h]) else isFalse (fun e => h (by injection e))
  | var a, var b =>
      if h : a = b then isTrue (by rw [h]) else isFalse (fun e => h (by injection e))
  | compound f a as, compound g b bs =>
      if hf : f = g then
        match decEq a b with
        | isTrue ha =>
            match decEqAll as bs with
            | isTrue has => isTrue (by rw [hf, ha, has])
            | isFalse has => isFalse (fun e => has (by injection e))
        | isFalse ha => isFalse (fun e => ha (by injection e))
      else isFalse (fun e => hf (by injection e))
  | atom _, int _ | atom _, var _ | atom _, compound _ _ _ | int _, atom _ | int _, var _
  | int _, compound _ _ _ | var _, atom _ | var _, int _ | var _, compound _ _ _
  | compound _ _ _, atom _ | compound _ _ _, int _ | compound _ _ _, var _ =>
      isFalse (fun e => by injection e)

def decEqAll : (ts us : List Term) → Decidable (ts = us)
  | [], [] => isTrue rfl
  | t :: ts, u :: us =>
      match decEq t u with
      | isTrue h =>
          match decEqAll ts us with
          | isTrue hs => isTrue (by rw [h, hs])
          | isFalse hs => isFalse (fun e => hs (by injection e))
      | isFalse h => isFalse (fun e => h (by injection e))
  | [], _ :: _ | _ :: _, [] => isFalse (fun e => by injection e)

end

instance : DecidableEq Term := decEq

end Term

end LogicSearch
