import LogicSearch.Proofs.Loop
import LogicSearch.Search.Conjunction
import LogicSearch.Search.Disjunction
import LogicSearch.Term.Basic

/-!
Conjunctions and disjunctions as they are laid out: a step and a stack of goals, a branch and
perhaps a goal. The layout has states that no phase corresponds to, and some of them are checked
for. Over a layout of phases these checks never fail, and each turn is that of the phase.
-/

namespace LogicSearch

inductive Stacked.Step where
  | start
  | left
  | right
  | exhausted
  deriving DecidableEq, Repr

def Stacked.Step.depth : Stacked.Step → Nat
  | start | exhausted => 0
  | left => 1
  | right => 2

/-- A conjunction with the stack of its goals, the top first. -/
structure Stacked (G : Type) where
  left : Term
  right : Term
  goals : List G
  step : Stacked.Step
  committed : Bool

inductive Branching.Branch where
  | left
  | right
  | exhausted
  deriving DecidableEq, Repr

structure Branching (G : Type) where
  left : Term
  right : Term
  branch : Branching.Branch
  current : Option G
  committed : Bool

/-- A check that failed: something was laid out in a way that is taken for impossible. -/
inductive Breach where
  | emptyStack (step : Stacked.Step)
  | missingGoal (branch : Branching.Branch)
  | missingArguments
  | notOneResult
  | alreadyBound (v : Var)
  deriving DecidableEq

structure CheckedSolver (σ G : Type) where
  call : Term → σ → Option (Except Halt G × σ)
  next : G → σ → Option (Except Breach (Reply σ G))
  abort : G → σ → G × σ
  committed : G → Bool

variable {σ G H : Type}

namespace Stacked

def start (left right : Term) : Stacked G := ⟨left, right, [], .start, false⟩

def turn (solver : CheckedSolver σ G) :
    Stacked G × σ → Option (Turn (Stacked G × σ) (Except Breach (Reply σ (Stacked G))))
  | (c, state) =>
    match c.step, c.goals with
    | .exhausted, _ => some (.finish (.ok ⟨.ok false, c, state⟩))
    | .start, goals =>
      match solver.call c.left state with
      | none => none
      | some (.ok goal, state) =>
          some (.again (⟨c.left, c.right, goal :: goals, .left, c.committed⟩, state))
      | some (.error halt, state) => some (.finish (.ok ⟨.error halt, c, state⟩))
    | .left, [] => some (.finish (.error (.emptyStack .left)))
    | .left, goal :: below =>
      match solver.next goal state with
      | none => none
      | some (.error breach) => some (.finish (.error breach))
      | some (.ok ⟨.error halt, goal, state⟩) =>
          some (.finish
            (.ok ⟨.error halt, ⟨c.left, c.right, goal :: below, .left, c.committed⟩, state⟩))
      | some (.ok ⟨.ok false, goal, state⟩) =>
          some (.finish (.ok ⟨.ok false,
            ⟨c.left, c.right, below, .exhausted, solver.committed goal⟩, state⟩))
      | some (.ok ⟨.ok true, goal, state⟩) =>
        match solver.call c.right state with
        | none => none
        | some (.ok right, state) =>
            some (.again
              (⟨c.left, c.right, right :: goal :: below, .right, c.committed⟩, state))
        | some (.error halt, state) =>
            some (.finish
              (.ok ⟨.error halt, ⟨c.left, c.right, goal :: below, .left, c.committed⟩, state⟩))
    | .right, [] => some (.finish (.error (.emptyStack .right)))
    | .right, goal :: below =>
      match solver.next goal state with
      | none => none
      | some (.error breach) => some (.finish (.error breach))
      | some (.ok ⟨.error halt, goal, state⟩) =>
          some (.finish
            (.ok ⟨.error halt, ⟨c.left, c.right, goal :: below, .right, c.committed⟩, state⟩))
      | some (.ok ⟨.ok true, goal, state⟩) =>
          some (.finish
            (.ok ⟨.ok true, ⟨c.left, c.right, goal :: below, .right, c.committed⟩, state⟩))
      | some (.ok ⟨.ok false, goal, state⟩) =>
          if solver.committed goal then
            match below with
            | [] => some (.finish (.error (.emptyStack .right)))
            | top :: rest =>
                some (.finish (.ok ⟨.ok false,
                  ⟨c.left, c.right, rest, .exhausted, true⟩, (solver.abort top state).2⟩))
          else some (.again (⟨c.left, c.right, below, .left, c.committed⟩, state))

def next (solver : CheckedSolver σ G) (fuel : Nat) (c : Stacked G) (state : σ) :
    Option (Except Breach (Reply σ (Stacked G))) :=
  Turn.iterate (turn solver) fuel (c, state)

end Stacked

def Conjunction.stacked (look : G → H) (c : Conjunction G) : Stacked H :=
  match c.phase with
  | .fresh => .start c.left c.right
  | .left goal => ⟨c.left, c.right, [look goal], .left, false⟩
  | .right below goal => ⟨c.left, c.right, [look goal, look below], .right, false⟩
  | .done committed => ⟨c.left, c.right, [], .exhausted, committed⟩

namespace Branching

def start (left right : Term) : Branching G := ⟨left, right, .left, none, false⟩

def term? (d : Branching G) : Option Term :=
  match d.branch with
  | .left => some d.left
  | .right => some d.right
  | .exhausted => none

/-- Drive the goal in progress, which must be there. A right branch that fails is the last one, so
the next turn would end at once and is not waited for. -/
def drive (solver : CheckedSolver σ G) (d : Branching G) (state : σ) :
    Option (Turn (Branching G × σ) (Except Breach (Reply σ (Branching G)))) :=
  match d.current with
  | none => some (.finish (.error (.missingGoal d.branch)))
  | some goal =>
    match solver.next goal state with
    | none => none
    | some (.error breach) => some (.finish (.error breach))
    | some (.ok ⟨.error halt, goal, state⟩) =>
        some (.finish
          (.ok ⟨.error halt, ⟨d.left, d.right, d.branch, some goal, d.committed⟩, state⟩))
    | some (.ok ⟨.ok true, goal, state⟩) =>
        some (.finish
          (.ok ⟨.ok true, ⟨d.left, d.right, d.branch, some goal, d.committed⟩, state⟩))
    | some (.ok ⟨.ok false, goal, state⟩) =>
        if solver.committed goal then
          some (.finish (.ok ⟨.ok false, ⟨d.left, d.right, .exhausted, none, true⟩, state⟩))
        else
          match d.branch with
          | .left => some (.again (⟨d.left, d.right, .right, none, d.committed⟩, state))
          | .right | .exhausted =>
              some (.finish
                (.ok ⟨.ok false, ⟨d.left, d.right, .exhausted, none, d.committed⟩, state⟩))

def turn (solver : CheckedSolver σ G) :
    Branching G × σ → Option (Turn (Branching G × σ) (Except Breach (Reply σ (Branching G))))
  | (d, state) =>
    if d.current.isNone then
      match d.term? with
      | none => some (.finish (.ok ⟨.ok false, d, state⟩))
      | some t =>
        match solver.call t state with
        | none => none
        | some (.ok goal, state) =>
            some (.again (⟨d.left, d.right, d.branch, some goal, d.committed⟩, state))
        | some (.error halt, state) => some (.finish (.ok ⟨.error halt, d, state⟩))
    else drive solver d state

def next (solver : CheckedSolver σ G) (fuel : Nat) (d : Branching G) (state : σ) :
    Option (Except Breach (Reply σ (Branching G))) :=
  Turn.iterate (turn solver) fuel (d, state)

end Branching

def Disjunction.branching (look : G → H) (d : Disjunction G) : Branching H :=
  match d.phase with
  | .fresh => .start d.left d.right
  | .left goal => ⟨d.left, d.right, .left, some (look goal), false⟩
  | .between => ⟨d.left, d.right, .right, none, false⟩
  | .right goal => ⟨d.left, d.right, .right, some (look goal), false⟩
  | .done committed => ⟨d.left, d.right, .exhausted, none, committed⟩

/-- The second solver drives layouts of the goals of the first one. No check fails. -/
structure Solver.LaidOut (look : G → H) (p : Solver σ G) (q : CheckedSolver σ H) : Prop where
  call : ∀ t state, q.call t state = (p.call t state).map fun r => (r.1.map look, r.2)
  next : ∀ goal state,
    q.next (look goal) state = (p.next goal state).map fun reply => .ok (reply.map look)
  abort : ∀ goal state,
    q.abort (look goal) state = (look (p.abort goal state).1, (p.abort goal state).2)
  committed : ∀ goal, q.committed (look goal) = p.committed goal

def Turn.laidOut {X Y : Type} (look : X → Y) :
    Turn (X × σ) (Reply σ X) → Turn (Y × σ) (Except Breach (Reply σ Y)) :=
  Turn.map (fun present => (look present.1, present.2)) fun reply => .ok (reply.map look)

variable {look : G → H} {p : Solver σ G} {q : CheckedSolver σ H}

theorem Stacked.turn_stacked (laid : p.LaidOut look q) (present : Conjunction G × σ) :
    Stacked.turn q (present.1.stacked look, present.2) =
      (Conjunction.step p present).map (Turn.laidOut (Conjunction.stacked look)) := by
  obtain ⟨⟨l, r, phase⟩, state⟩ := present
  cases phase with
  | done committed => rfl
  | fresh =>
      simp only [Conjunction.stacked, start, turn, Conjunction.step, laid.call]
      cases p.call l state with
      | none => rfl
      | some called =>
          obtain ⟨result, state⟩ := called
          cases result <;> rfl
  | left goal =>
      simp only [Conjunction.stacked, turn, Conjunction.step, laid.next]
      cases p.next goal state with
      | none => rfl
      | some reply =>
          obtain ⟨answer, goal, state⟩ := reply
          cases answer with
          | error halt => rfl
          | ok found =>
              cases found with
              | false =>
                  simp [Reply.map, Turn.laidOut, Turn.map, Conjunction.stacked, laid.committed]
              | true =>
                  simp only [Reply.map, Option.map_some, laid.call]
                  cases p.call r state with
                  | none => rfl
                  | some called =>
                      obtain ⟨result, state⟩ := called
                      cases result <;> rfl
  | right below goal =>
      simp only [Conjunction.stacked, turn, Conjunction.step, laid.next]
      cases p.next goal state with
      | none => rfl
      | some reply =>
          obtain ⟨answer, goal, state⟩ := reply
          cases answer with
          | error halt => rfl
          | ok found =>
              cases found with
              | true => rfl
              | false =>
                  simp only [Reply.map, Option.map_some, laid.committed, laid.abort]
                  cases p.committed goal <;> rfl

theorem Branching.turn_branching (laid : p.LaidOut look q) (present : Disjunction G × σ) :
    Branching.turn q (present.1.branching look, present.2) =
      (Disjunction.step p present).map (Turn.laidOut (Disjunction.branching look)) := by
  obtain ⟨⟨l, r, phase⟩, state⟩ := present
  cases phase with
  | done committed => rfl
  | fresh =>
      simp only [Disjunction.branching, start, turn, term?, Disjunction.step, laid.call]
      cases p.call l state with
      | none => rfl
      | some called =>
          obtain ⟨result, state⟩ := called
          cases result <;> rfl
  | between =>
      simp only [Disjunction.branching, turn, term?, Disjunction.step, laid.call]
      cases p.call r state with
      | none => rfl
      | some called =>
          obtain ⟨result, state⟩ := called
          cases result <;> rfl
  | left goal =>
      simp only [Disjunction.branching, turn, drive, Disjunction.step, laid.next]
      cases p.next goal state with
      | none => rfl
      | some reply =>
          obtain ⟨answer, goal, state⟩ := reply
          cases answer with
          | error halt => rfl
          | ok found =>
              cases found with
              | true => rfl
              | false =>
                  simp only [Reply.map, Option.map_some, laid.committed]
                  cases p.committed goal <;> rfl
  | right goal =>
      simp only [Disjunction.branching, turn, drive, Disjunction.step, laid.next]
      cases p.next goal state with
      | none => rfl
      | some reply =>
          obtain ⟨answer, goal, state⟩ := reply
          cases answer with
          | error halt => rfl
          | ok found =>
              cases found with
              | true => rfl
              | false =>
                  simp only [Reply.map, Option.map_some, laid.committed]
                  cases p.committed goal <;>
                    simp [Turn.laidOut, Turn.map, Reply.map, Disjunction.branching]

theorem Stacked.next_stacked (laid : p.LaidOut look q) (fuel : Nat) (c : Conjunction G)
    (state : σ) : (c.stacked look).next q fuel state =
      (c.next p fuel state).map fun reply => .ok (reply.map (Conjunction.stacked look)) :=
  Turn.iterate_map (Stacked.turn_stacked laid) fuel (c, state)

theorem Branching.next_branching (laid : p.LaidOut look q) (fuel : Nat) (d : Disjunction G)
    (state : σ) : (d.branching look).next q fuel state =
      (d.next p fuel state).map fun reply => .ok (reply.map (Disjunction.branching look)) :=
  Turn.iterate_map (Branching.turn_branching laid) fuel (d, state)

end LogicSearch
