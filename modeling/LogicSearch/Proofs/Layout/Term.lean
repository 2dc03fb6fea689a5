import LogicSearch.Arithmetic.Eval
import LogicSearch.Proofs.Layout.Combinator
import LogicSearch.Proofs.Term.Subst
import LogicSearch.Store.Resolve
import Mathlib.Data.Set.List

/-!
Terms as they are laid out. A compound holds the operator that its functor denotes, looked up once
when it is built; a copy takes the operator over. Resolving works on a list of tasks and a stack of
results, and checks that a compound finds its arguments there and that one result is left.
-/

namespace LogicSearch

inductive Node where
  | atom (a : Atom)
  | int (value : Int64)
  | var (v : Var)
  | compound (functor : Atom) (op : Option Operator) (first : Node) (rest : List Node)

namespace Node

def build (functor : Atom) (first : Node) (rest : List Node) : Node :=
  compound functor (Operator.ofFunctor? functor (rest.length + 1)) first rest

mutual

def ofTerm : Term → Node
  | .atom a => atom a
  | .int n => int n
  | .var v => var v
  | .compound f first rest => build f (ofTerm first) (ofTerms rest)

def ofTerms : List Term → List Node
  | [] => []
  | t :: ts => ofTerm t :: ofTerms ts

end

theorem ofTerms_eq_map (ts : List Term) : ofTerms ts = ts.map ofTerm := by
  induction ts with
  | nil => rfl
  | cons t ts ih => rw [ofTerms, ih, List.map_cons]

def onValue (go : Int64 → Option (Except Halt Int64)) :
    Option (Except Halt Int64) → Option (Except Halt Int64)
  | some (.ok x) => go x
  | halted => halted

/-- The value of an expression by the operators that its compounds hold. -/
def evalWith (value : Var → Option (Except Halt Int64)) : Node → Option (Except Halt Int64)
  | int n => some (.ok n)
  | var v => value v
  | atom a => some (.error (.error (.notEvaluable ⟨a, 0⟩)))
  | compound f op x rest =>
    match op, rest with
    | some op, [] => onValue (fun x => some (op.unary x)) (evalWith value x)
    | some op, [y] =>
        onValue (fun x => onValue (fun y => some (op.binary x y)) (evalWith value y))
          (evalWith value x)
    | _, _ => some (.error (.error (.notEvaluable ⟨f, rest.length + 1⟩)))

theorem evalWith_ofTerm {value value' : Var → Option (Except Halt Int64)}
    (same : ∀ v, value' v = value v) (t : Term) :
    (ofTerm t).evalWith value' = t.evalWith value := by
  induction t using Term.inductionOn with
  | atom a => rfl
  | int n => rfl
  | var v => exact same v
  | compound f first rest ih =>
      have head := ih first List.mem_cons_self
      rw [ofTerm, ofTerms_eq_map, build, List.length_map]
      unfold evalWith Term.evalWith
      cases Operator.ofFunctor? f (rest.length + 1) with
      | none => simp only [List.length_map]
      | some op =>
          match rest, ih with
          | [], _ => exact congrArg (onValue fun x => some (op.unary x)) head
          | [y], ih =>
              exact congrArg₂
                (fun l r => onValue (fun x => onValue (fun y => some (op.binary x y)) r) l)
                head (ih y (by simp))
          | y :: z :: rest, _ => simp only [List.map_cons, List.length_cons, List.length_map]

end Node

namespace Store

def evalNodeVar (s : Store) : Nat → Var → Option (Except Halt Int64)
  | 0, v => if s.isBound v then none else some (.error (.error .instantiation))
  | depth + 1, v =>
    match s.lookup v with
    | none => some (.error (.error .instantiation))
    | some t => (Node.ofTerm t).evalWith (s.evalNodeVar depth)

def evalNode (s : Store) (n : Node) : Option (Except Halt Int64) :=
  n.evalWith (s.evalNodeVar s.size)

theorem evalNodeVar_eq (s : Store) (depth : Nat) (v : Var) :
    s.evalNodeVar depth v = s.evalVar depth v := by
  induction depth generalizing v with
  | zero => rfl
  | succ depth ih =>
      simp only [evalNodeVar, evalVar]
      cases s.lookup v with
      | none => rfl
      | some t => exact Node.evalWith_ofTerm ih t

theorem evalNode_ofTerm (s : Store) (t : Term) : s.evalNode (.ofTerm t) = s.eval t :=
  Node.evalWith_ofTerm (s.evalNodeVar_eq s.size) t

end Store

inductive Task where
  | visit (n : Node)
  | build (functor : Atom) (op : Option Operator) (arity : Nat)

namespace Store

def derefNode (s : Store) : Node → Option Node
  | .var v => (s.deref (.var v)).map .ofTerm
  | n => some n

def resolveNodeStep (s : Store) : List Task × List Node →
    Option (Turn (List Task × List Node) (Except Breach Node))
  | ([], [n]) => some (.finish (.ok n))
  | ([], _) => some (.finish (.error .notOneResult))
  | (.visit n :: tasks, results) =>
    match s.derefNode n with
    | none => none
    | some (.compound f op first rest) =>
        some (.again
          ((first :: rest).map .visit ++ .build f op (rest.length + 1) :: tasks, results))
    | some n => some (.again (tasks, n :: results))
  | (.build f op arity :: tasks, results) =>
    if results.length < arity then some (.finish (.error .missingArguments))
    else
      match (results.take arity).reverse with
      | [] => some (.finish (.error .missingArguments))
      | first :: rest => some (.again (tasks, .compound f op first rest :: results.drop arity))

def resolveNode (s : Store) (fuel : Nat) (n : Node) : Option (Except Breach Node) :=
  Turn.iterate s.resolveNodeStep fuel ([.visit n], [])

variable {s : Store} {t : Term}

theorem derefNode_ofTerm : s.derefNode (.ofTerm t) = (s.deref t).map .ofTerm := by
  cases t <;> rfl

end Store

namespace OpenCompound

def arity (c : OpenCompound) : Nat := c.done.length + c.todo.length + 1

def tasks (c : OpenCompound) : List Task :=
  c.todo.map (fun t => .visit (.ofTerm t)) ++
    [.build c.functor (Operator.ofFunctor? c.functor c.arity) c.arity]

def results (c : OpenCompound) : List Node := c.done.map .ofTerm

end OpenCompound

def Focus.laidOut : Focus × List OpenCompound → List Task × List Node
  | (.visit t, enclosing) =>
      (.visit (.ofTerm t) :: enclosing.flatMap OpenCompound.tasks,
        enclosing.flatMap OpenCompound.results)
  | (.resolved t, enclosing) =>
      (enclosing.flatMap OpenCompound.tasks,
        .ofTerm t :: enclosing.flatMap OpenCompound.results)

/-- The next move is not just on to the next argument, which the layout does not show. -/
def Focus.Settled : Focus × List OpenCompound → Prop
  | (.resolved _, ⟨_, _, _ :: _⟩ :: _) => False
  | _ => True

namespace Store

variable {s : Store} {t : Term} {place : Focus × List OpenCompound}

/-- Every visible move is one task. The results hold the arguments of the compounds that are open,
so each is built of its own arguments, with its own operator. -/
theorem resolveNodeStep_laidOut (settled : Focus.Settled place) :
    s.resolveNodeStep (Focus.laidOut place) =
      (s.resolveStep place).map (Turn.map Focus.laidOut fun t => .ok (.ofTerm t)) := by
  obtain ⟨focus, enclosing⟩ := place
  cases focus with
  | visit t =>
      simp only [Focus.laidOut, resolveNodeStep, resolveStep, derefNode_ofTerm]
      cases s.deref t with
      | none => rfl
      | some u =>
          cases u with
          | compound f first rest =>
              simp [Node.ofTerm, Node.ofTerms_eq_map, Node.build, Turn.map, Focus.laidOut,
                OpenCompound.tasks, OpenCompound.results, OpenCompound.arity]
          | _ => rfl
  | resolved t =>
      cases enclosing with
      | nil => rfl
      | cons c enclosing =>
          obtain ⟨f, done, todo⟩ := c
          cases todo with
          | cons u todo => exact settled.elim
          | nil =>
              obtain ⟨first, rest, args⟩ : ∃ first rest, (t :: done).reverse = first :: rest :=
                List.exists_cons_of_ne_nil (by simp)
              have length : (t :: done).length = rest.length + 1 := by
                rw [← List.length_reverse, args, List.length_cons]
              have nodes : ((t :: done).map Node.ofTerm).reverse =
                  .ofTerm first :: rest.map .ofTerm := by
                rw [← List.map_reverse, args, List.map_cons]
              -- The arguments lie on top of the results, those of the other compounds below them.
              change s.resolveNodeStep
                (.build f (Operator.ofFunctor? f (t :: done).length) (t :: done).length ::
                    enclosing.flatMap OpenCompound.tasks,
                  (t :: done).map .ofTerm ++ enclosing.flatMap OpenCompound.results) =
                some (.again (Focus.laidOut (.resolved (.app f (t :: done).reverse), enclosing)))
              rw [resolveNodeStep, if_neg (by simp), List.take_left' (List.length_map _), nodes,
                List.drop_left' (List.length_map _), args, length]
              simp only [Focus.laidOut, Term.app, Node.ofTerm, Node.ofTerms_eq_map, Node.build,
                List.length_map]

theorem exists_settled (s : Store) (place : Focus × List OpenCompound) :
    ∃ next, Focus.Settled next ∧ Focus.laidOut next = Focus.laidOut place ∧
      (next = place ∨ s.resolveStep place = some (.again next)) := by
  obtain ⟨focus, enclosing⟩ := place
  cases focus with
  | visit t => exact ⟨(.visit t, enclosing), trivial, rfl, .inl rfl⟩
  | resolved t =>
      match enclosing with
      | [] => exact ⟨(.resolved t, []), trivial, rfl, .inl rfl⟩
      | ⟨f, done, []⟩ :: enclosing =>
          exact ⟨(.resolved t, ⟨f, done, []⟩ :: enclosing), trivial, rfl, .inl rfl⟩
      | ⟨f, done, u :: todo⟩ :: enclosing =>
          refine ⟨(.visit u, ⟨f, t :: done, todo⟩ :: enclosing), trivial, ?_, .inr rfl⟩
          have arity : done.length + 1 + todo.length + 1 = done.length + (todo.length + 1) + 1 := by
            omega
          simp [Focus.laidOut, OpenCompound.tasks, OpenCompound.results, OpenCompound.arity, arity]

theorem laidOut_of_walk {turn : Turn (Focus × List OpenCompound) Term}
    (taken : s.resolveStep place = some turn) :
    Turn.Answered (fun c turn => s.resolveNodeStep c = some turn)
      (fun place c => Focus.laidOut place = c) (fun t result => result = .ok (Node.ofTerm t))
      (Focus.laidOut place) turn := by
  obtain ⟨next, visible, laid, rfl | step⟩ := exists_settled s place
  · have seen := resolveNodeStep_laidOut (s := s) visible
    rw [taken, Option.map_some] at seen
    cases turn with
    | again next => exact .again rfl fun _ later => .again seen later
    | finish t => exact .finish (.finish seen) rfl
  · rw [step] at taken
    cases taken
    exact .again laid fun _ later => later

theorem walk_of_laidOut {turn : Turn (List Task × List Node) (Except Breach Node)}
    (taken : s.resolveNodeStep (Focus.laidOut place) = some turn) :
    Turn.Answered (fun place turn => s.resolveStep place = some turn)
      (fun c place => Focus.laidOut place = c) (fun result t => result = .ok (Node.ofTerm t))
      place turn := by
  obtain ⟨settled, visible, laid, reached⟩ := exists_settled s place
  -- The walk may stand between two tasks, one move away from the place that shows the next one.
  have back : ∀ t, Turn.Leads (fun place turn => s.resolveStep place = some turn) settled t →
      Turn.Leads (fun place turn => s.resolveStep place = some turn) place t := by
    intro t later
    rcases reached with rfl | step
    · exact later
    · exact .again step later
  rw [← laid, resolveNodeStep_laidOut visible] at taken
  obtain ⟨move, moved, rfl⟩ := Option.map_eq_some_iff.mp taken
  cases move with
  | again next => exact .again rfl fun t later => back t (.again moved later)
  | finish t => exact .finish (back t (.finish moved)) rfl

/-- Resolving gives the copy that it gives on terms, with the operators that belong there, and does
not return where it does not on terms. No check fails on the way. -/
theorem resolveNode_ofTerm {result : Except Breach Node} :
    (∃ fuel, s.resolveNode fuel (.ofTerm t) = some result) ↔
      ∃ u, result = .ok (.ofTerm u) ∧ ∃ fuel, s.resolve fuel t = some u := by
  have start : Focus.laidOut (.visit t, []) = ([.visit (.ofTerm t)], []) := rfl
  constructor
  · rintro ⟨fuel, done⟩
    obtain ⟨u, found, same⟩ := (Turn.leads_iff.mpr ⟨fuel, done⟩).along
      (R := fun c place => Focus.laidOut place = c)
      (Q := fun result u => result = Except.ok (Node.ofTerm u))
      (fun _ _ _ laid taken => walk_of_laidOut (laid ▸ taken)) start
    exact ⟨u, same, Turn.leads_iff.mp found⟩
  · rintro ⟨u, rfl, fuel, done⟩
    obtain ⟨_, found, rfl⟩ := (Turn.leads_iff.mpr ⟨fuel, done⟩).along
      (R := fun place c => Focus.laidOut place = c)
      (Q := fun u result => result = Except.ok (Node.ofTerm u))
      (fun _ _ _ laid taken => laid ▸ laidOut_of_walk taken) start
    exact Turn.leads_iff.mp found

end Store

/-- A term that was built of atoms, integers and variables, or is a resolved copy of such a term. -/
inductive Node.Built : Node → Prop where
  | atom {a : Atom} : Built (.atom a)
  | int {n : Int64} : Built (.int n)
  | var {v : Var} : Built (.var v)
  | compound {f : Atom} {first : Node} {rest : List Node} :
      Built first → (∀ n ∈ rest, Built n) → Built (build f first rest)
  | resolved {s : Store} {fuel : Nat} {n copy : Node} :
      Built n → s.resolveNode fuel n = some (.ok copy) → Built copy

namespace Node

theorem built_ofTerm (t : Term) : (ofTerm t).Built := by
  induction t using Term.inductionOn with
  | atom a => exact .atom
  | int n => exact .int
  | var v => exact .var
  | compound f first rest ih =>
      rw [ofTerm, ofTerms_eq_map]
      refine .compound (ih first List.mem_cons_self) ?_
      intro n member
      obtain ⟨t, inside, rfl⟩ := List.mem_map.mp member
      exact ih t (List.mem_cons_of_mem _ inside)

theorem Built.exists_term {n : Node} (built : Built n) : ∃ t, ofTerm t = n := by
  induction built with
  | @atom a => exact ⟨.atom a, rfl⟩
  | @int n => exact ⟨.int n, rfl⟩
  | @var v => exact ⟨.var v, rfl⟩
  | @compound f first rest _ _ head each =>
      obtain ⟨t, rfl⟩ := head
      have args : rest ∈ Set.range (List.map ofTerm) := by
        rw [Set.range_list_map]
        exact each
      obtain ⟨ts, rfl⟩ := args
      exact ⟨.compound f t ts, by rw [ofTerm, ofTerms_eq_map]⟩
  | resolved _ copied ih =>
      obtain ⟨t, rfl⟩ := ih
      obtain ⟨u, same, -⟩ := Store.resolveNode_ofTerm.mp ⟨_, copied⟩
      cases same
      exact ⟨u, rfl⟩

theorem built_iff {n : Node} : n.Built ↔ ∃ t, ofTerm t = n :=
  ⟨Built.exists_term, fun ⟨t, same⟩ => same ▸ built_ofTerm t⟩

end Node

end LogicSearch
