import LogicSearch.Halt
import LogicSearch.Term.Basic

/-!
What a goal in progress offers to whoever drives it. A combinator of goals is written against this
interface alone, so that a law about it holds for all children.
-/

namespace LogicSearch

/-- What asking for the next answer gives: whether there is one, and the goal and the state to go on
from. Both are as the request left them, also when it halted. -/
structure Reply (σ G : Type) where
  answer : Except Halt Bool
  goal : G
  state : σ

namespace Reply

def map {σ G H : Type} (f : G → H) (r : Reply σ G) : Reply σ H := ⟨r.answer, f r.goal, r.state⟩

end Reply

structure Solver (σ G : Type) where
  /-- Start a term as a goal. Here and below `none` stands for a request that does not return. -/
  call : Term → σ → Option (Except Halt G × σ)
  next : G → σ → Option (Reply σ G)
  abort : G → σ → G × σ
  committed : G → Bool

/-- Every reply of the first solver is one of the second, and they agree on all else. -/
structure Solver.Within {σ G : Type} (narrow wide : Solver σ G) : Prop where
  call : narrow.call = wide.call
  abort : narrow.abort = wide.abort
  committed : narrow.committed = wide.committed
  next : ∀ goal state reply, narrow.next goal state = some reply →
    wide.next goal state = some reply

end LogicSearch
