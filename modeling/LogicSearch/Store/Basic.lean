import LogicSearch.Term.Basic
import Std.Data.ExtTreeMap

/-!
Stores: what each variable is bound to. Two stores are equal exactly when every variable has the
same binding in both. There is no trail; undoing is the work of snapshots.
-/

namespace LogicSearch

structure Store where
  bindings : Std.ExtTreeMap Var Term compare
  deriving DecidableEq

namespace Store

def empty : Store := ⟨∅⟩

def lookup (s : Store) (v : Var) : Option Term := s.bindings[v]?

def isBound (s : Store) (v : Var) : Bool := (s.lookup v).isSome

def size (s : Store) : Nat := s.bindings.size

def bind (s : Store) (v : Var) (t : Term) : Store := ⟨s.bindings.insert v t⟩

def unbind (s : Store) (v : Var) : Store := ⟨s.bindings.erase v⟩

def assign (s : Store) (v : Var) : Option Term → Store
  | some t => s.bind v t
  | none => s.unbind v

@[ext] theorem ext {s t : Store} (same : ∀ v, s.lookup v = t.lookup v) : s = t := by
  obtain ⟨left⟩ := s
  obtain ⟨right⟩ := t
  exact congrArg Store.mk (Std.ExtTreeMap.ext_getElem? same)

@[simp] theorem lookup_empty (v : Var) : empty.lookup v = none := by
  simp [empty, lookup]

theorem lookup_bind (s : Store) (v w : Var) (t : Term) :
    (s.bind v t).lookup w = if v = w then some t else s.lookup w := by
  simp [bind, lookup, Std.ExtTreeMap.getElem?_insert]

theorem lookup_unbind (s : Store) (v w : Var) :
    (s.unbind v).lookup w = if v = w then none else s.lookup w := by
  simp [unbind, lookup, Std.ExtTreeMap.getElem?_erase]

def follow (s : Store) : Nat → Var → Option Term
  | 0, v => if s.isBound v then none else some (.var v)
  | fuel + 1, v =>
    match s.lookup v with
    | some (.var w) => s.follow fuel w
    | some t => some t
    | none => some (.var v)

/-- The term at the end of a chain of bindings: no variable, or one that is not bound. A chain that
never repeats a variable is no longer than the store is large; one that does has no end, and
following it does not return. -/
def deref (s : Store) : Term → Option Term
  | .var v => s.follow s.size v
  | t => some t

def asAtom? (s : Store) (t : Term) : Option (Option Atom) := (s.deref t).map Term.asAtom?

def asInt? (s : Store) (t : Term) : Option (Option Int64) := (s.deref t).map Term.asInt?

def cell? (s : Store) (t : Term) : Option (Option (Term × Term)) := (s.deref t).map Term.cell?

def arg? (s : Store) (t : Term) (position : Nat) : Option (Option Term) :=
  (s.deref t).map fun t => t.args[position]?

def indicator? (s : Store) (t : Term) : Option (Option Indicator) :=
  (s.deref t).map Term.indicator?

end Store

end LogicSearch
