import LogicSearch.Activation

/-!
Stacks of activations that can share their goals. A goal lives in a heap under a number, and a stack
lists numbers, so that a goal driven through one stack is seen through all that hold it.
-/

namespace LogicSearch

structure ActivationHeap (U : Type) where
  goals : Array (Activation U)

namespace ActivationHeap

variable {U : Type}

def empty : ActivationHeap U := ⟨#[]⟩

def get? (h : ActivationHeap U) (id : Nat) : Option (Activation U) := h.goals[id]?

def set (h : ActivationHeap U) (id : Nat) (a : Activation U) : ActivationHeap U :=
  ⟨h.goals.setIfInBounds id a⟩

end ActivationHeap

/-- The numbers of the goals on a stack, the top first. -/
structure ActivationStack where
  ids : List Nat
  deriving DecidableEq, Repr

namespace ActivationStack

variable {U : Type}

def empty : ActivationStack := ⟨[]⟩

def share (s : ActivationStack) (id : Nat) : ActivationStack := ⟨id :: s.ids⟩

def put (s : ActivationStack) (h : ActivationHeap U) (a : Activation U) :
    ActivationStack × ActivationHeap U :=
  (s.share h.goals.size, ⟨h.goals.push a⟩)

def peek? (s : ActivationStack) : Option Nat := s.ids.head?

def pop (s : ActivationStack) : ActivationStack := ⟨s.ids.tail⟩

def size (s : ActivationStack) : Nat := s.ids.length

def isEmpty (s : ActivationStack) : Bool := s.ids.isEmpty

/-- Whether two stacks have the same goal on top, or nothing if one has none. -/
def sameTop? (s t : ActivationStack) : Option Bool :=
  match s.peek?, t.peek? with
  | some a, some b => some (a == b)
  | _, _ => none

end ActivationStack

end LogicSearch
