import LogicSearch.Proofs.Arithmetic.Operator
import LogicSearch.Proofs.Layout.Term
import LogicSearch.Proofs.Store.Passes
import LogicSearch.Proofs.Store.UpTo

namespace LogicSearch

namespace Term

/-- The value of an expression over the whole numbers. -/
def exactValue? : Term → Option Int
  | int n => some n.toInt
  | compound f x [] =>
    match unaryOperations.lookup f, exactValue? x with
    | some g, some a => some (g a)
    | _, _ => none
  | compound f x [y] =>
    match binaryOperations.lookup f, exactValue? x, exactValue? y with
    | some g, some a, some b => if f ∈ dividing ∧ b = 0 then none else some (g a b)
    | _, _, _ => none
  | _ => none

mutual

/-- The nodes of an expression, each behind its arguments and these from left to right. The
arguments of a compound that is not evaluable do not count. -/
def visited : Term → List Term
  | compound f first rest =>
      (if ⟨f, rest.length + 1⟩ ∈ evaluable then visited first ++ visitedAll rest else []) ++
        [compound f first rest]
  | t => [t]

def visitedAll : List Term → List Term
  | [] => []
  | t :: ts => visited t ++ visitedAll ts

end

def dividesByZero : Term → Bool
  | compound f _ [y] => decide (f ∈ dividing) && y.exactValue? == some 0
  | _ => false

def fault? : Term → Option GoalError
  | int _ => none
  | var _ => some .instantiation
  | atom a => some (.notEvaluable ⟨a, 0⟩)
  | compound f first rest =>
      if ⟨f, rest.length + 1⟩ ∉ evaluable then some (.notEvaluable ⟨f, rest.length + 1⟩)
      else if (compound f first rest).dividesByZero then some (.evaluation .zeroDivisor)
      else
        match (compound f first rest).exactValue? with
        | some n => if InRange n then none else some (.evaluation .intOverflow)
        | none => none

/-- The fault of the first node at which something is wrong. -/
def firstFault? (t : Term) : Option GoalError := t.visited.findSome? fault?

end Term

/-- A result is the exact value if there is no fault, and the fault if there is one. -/
inductive Agrees (value : Option Int) : Option GoalError → Except Halt Int64 → Prop where
  | ok {n : Int64} : value = some n.toInt → Agrees value none (.ok n)
  | error {e : GoalError} : Agrees value (some e) (.error (.error e))

section

variable {value : Option Int} {fault : Option GoalError} {result : Except Halt Int64}

theorem Agrees.eq_ok_iff (agrees : Agrees value fault result) (n : Int64) :
    result = .ok n ↔ value = some n.toInt ∧ fault = none := by
  cases agrees with
  | ok exact => simp [exact, Int64.toInt_inj]
  | error => simp

theorem Agrees.eq_error_iff (agrees : Agrees value fault result) (halt : Halt) :
    result = .error halt ↔ ∃ e, halt = .error e ∧ fault = some e := by
  cases agrees with
  | ok exact => simp
  | error => simp [eq_comm]

end

theorem agrees_narrow {value : Option Int} {n : Int} (exact : value = some n) :
    Agrees value (if InRange n then none else some (.evaluation .intOverflow))
      (Operator.narrow n) := by
  split
  · rename_i inside
    obtain ⟨k, narrowed, same⟩ := Operator.narrow_of_inRange inside
    rw [narrowed]
    exact .ok (same ▸ exact)
  · rename_i outside
    rw [Operator.narrow_of_not_inRange outside]
    exact .error

namespace Term

variable {f : Atom} {op : Operator} {x y t u : Term} {n k : Int64} {rest : List Term}
  {result : Except Halt Int64}

theorem agrees_unary (found : Operator.ofFunctor? f 1 = some op)
    (value : x.exactValue? = some n.toInt) :
    Agrees (compound f x []).exactValue? (compound f x []).fault? (op.unary n) := by
  obtain ⟨g, entry, applied⟩ := Operator.unary_eq found n
  have evaluates : (⟨f, 1⟩ : Indicator) ∈ evaluable := Operator.mem_evaluable.mpr ⟨op, found⟩
  have exact : (compound f x []).exactValue? = some (g n.toInt) := by
    simp [exactValue?, entry, value]
  have fault : (compound f x []).fault? =
      if InRange (g n.toInt) then none else some (.evaluation .intOverflow) := by
    simp [fault?, evaluates, dividesByZero, exact]
  rw [applied, fault]
  exact agrees_narrow exact

theorem agrees_binary (found : Operator.ofFunctor? f 2 = some op)
    (left : x.exactValue? = some n.toInt) (right : y.exactValue? = some k.toInt) :
    Agrees (compound f x [y]).exactValue? (compound f x [y]).fault? (op.binary n k) := by
  obtain ⟨g, entry, applied⟩ := Operator.binary_eq found n k
  have evaluates : (⟨f, 2⟩ : Indicator) ∈ evaluable := Operator.mem_evaluable.mpr ⟨op, found⟩
  by_cases zero : f ∈ dividing ∧ k.toInt = 0
  · have fault : (compound f x [y]).fault? = some (.evaluation .zeroDivisor) := by
      simp [fault?, evaluates, dividesByZero, right, zero]
    rw [applied, fault, if_pos zero]
    exact .error
  · have exact : (compound f x [y]).exactValue? = some (g n.toInt k.toInt) := by
      simp only [exactValue?, entry, left, right, if_neg zero]
    have fault : (compound f x [y]).fault? =
        if InRange (g n.toInt k.toInt) then none else some (.evaluation .intOverflow) := by
      have divides : (compound f x [y]).dividesByZero = false := by
        simpa [dividesByZero, right] using zero
      simp [fault?, evaluates, divides, exact]
    rw [applied, fault, if_neg zero]
    exact agrees_narrow exact

theorem findSome?_visitedAll (ts : List Term) :
    (visitedAll ts).findSome? fault? = ts.findSome? firstFault? := by
  induction ts with
  | nil => rfl
  | cons t ts ih =>
      simp only [visitedAll, List.findSome?_append, List.findSome?_cons, ih, firstFault?]
      cases t.visited.findSome? fault? <;> rfl

theorem firstFault?_compound (evaluates : ⟨f, rest.length + 1⟩ ∈ evaluable) :
    (compound f x rest).firstFault? =
      ((x :: rest).findSome? firstFault?).or (compound f x rest).fault? := by
  have arguments : (visited x ++ visitedAll rest).findSome? fault? =
      (x :: rest).findSome? firstFault? := findSome?_visitedAll (x :: rest)
  rw [firstFault?, visited, if_pos evaluates, List.findSome?_append, arguments,
    List.findSome?_singleton]

theorem firstFault?_plain (plain : ⟨f, rest.length + 1⟩ ∉ evaluable) :
    (compound f x rest).firstFault? = some (.notEvaluable ⟨f, rest.length + 1⟩) := by
  rw [firstFault?, visited, if_neg plain, List.nil_append, List.findSome?_singleton, fault?,
    if_pos plain]

theorem mem_visitedAll {ts : List Term} : u ∈ visitedAll ts ↔ ∃ t ∈ ts, u ∈ t.visited := by
  induction ts with
  | nil => simp [visitedAll]
  | cons t ts ih => simp [visitedAll, ih]

theorem mem_visited_compound (evaluates : ⟨f, rest.length + 1⟩ ∈ evaluable) :
    u ∈ (compound f x rest).visited ↔
      (∃ t ∈ x :: rest, u ∈ t.visited) ∨ u = compound f x rest := by
  simp [visited, evaluates, mem_visitedAll, or_assoc]

theorem mem_evaluable_of_unary {g : Int → Int} (entry : unaryOperations.lookup f = some g) :
    ⟨f, 1⟩ ∈ evaluable := by
  obtain ⟨front, back, split, -⟩ := List.lookup_eq_some_iff.mp entry
  simp [evaluable, split]

theorem mem_evaluable_of_binary {g : Int → Int → Int} (entry : binaryOperations.lookup f = some g) :
    ⟨f, 2⟩ ∈ evaluable := by
  obtain ⟨front, back, split, -⟩ := List.lookup_eq_some_iff.mp entry
  simp [evaluable, split]

theorem exactValue?_compound {c : Int} (value : (compound f x rest).exactValue? = some c) :
    ⟨f, rest.length + 1⟩ ∈ evaluable ∧ (∀ u ∈ x :: rest, ∃ d, u.exactValue? = some d) ∧
      (compound f x rest).dividesByZero = false := by
  match rest with
  | [] =>
      simp only [exactValue?] at value
      split at value
      · rename_i g a entry first
        exact ⟨mem_evaluable_of_unary entry, by simp [first], rfl⟩
      · cases value
  | [y] =>
      simp only [exactValue?] at value
      split at value
      · rename_i g a b entry first second
        split at value
        · cases value
        · rename_i nonzero
          exact ⟨mem_evaluable_of_binary entry, by simp [first, second],
            by simpa [dividesByZero, second] using nonzero⟩
      · cases value
  | _ :: _ :: _ => cases value

theorem fault?_eq_none_iff {c : Int} (value : t.exactValue? = some c) :
    t.fault? = none ↔ InRange c := by
  cases t with
  | int n =>
      cases value
      exact iff_of_true rfl (Operator.inRange_toInt n)
  | var v => cases value
  | atom a => cases value
  | compound f x rest =>
      obtain ⟨evaluates, -, divides⟩ := exactValue?_compound value
      simp [fault?, evaluates, divides, value]

theorem exactValue?_visited {c : Int} (value : t.exactValue? = some c) :
    ∀ u ∈ t.visited, ∃ d, u.exactValue? = some d := by
  induction t using Term.inductionOn generalizing c with
  | atom a => cases value
  | var v => cases value
  | int n =>
      intro u member
      obtain rfl : u = int n := by simpa [visited] using member
      exact ⟨c, value⟩
  | compound f first rest ih =>
      obtain ⟨evaluates, arguments, -⟩ := exactValue?_compound value
      intro u member
      rcases (mem_visited_compound evaluates).mp member with ⟨t, inside, member⟩ | rfl
      · obtain ⟨d, known⟩ := arguments t inside
        exact ih t inside known u member
      · exact ⟨c, value⟩

theorem firstFault?_eq_none_iff {c : Int} (value : t.exactValue? = some c) :
    t.firstFault? = none ↔ ∀ u ∈ t.visited, ∀ d, u.exactValue? = some d → InRange d := by
  rw [firstFault?, List.findSome?_eq_none_iff]
  constructor
  · intro fine u member d known
    exact (fault?_eq_none_iff known).mp (fine u member)
  · intro inside u member
    obtain ⟨d, known⟩ := exactValue?_visited value u member
    exact (fault?_eq_none_iff known).mpr (inside u member d known)

end Term

namespace Store

variable {s : Store} {t : Term} {result : Except Halt Int64}

theorem Evaluates.agrees (acyclic : s.Acyclic) (evaluates : s.Evaluates t result) :
    Agrees (t.subst s.trees).exactValue? (t.subst s.trees).firstFault? result := by
  have tree {t w : Term} (done : s.deref t = some w) : t.subst s.trees = w.subst s.trees :=
    acyclic.models_trees.deref done
  have known {f : Atom} {op : Operator} (rest : List Term)
      (found : Operator.ofFunctor? f (rest.length + 1) = some op) :
      (⟨f, (rest.map (Term.subst s.trees)).length + 1⟩ : Indicator) ∈ evaluable := by
    rw [List.length_map]
    exact Operator.mem_evaluable.mpr ⟨op, found⟩
  induction evaluates with
  | int done =>
      rw [tree done]
      exact .ok rfl
  | free done =>
      rw [tree done, Term.subst, trees_of_free (lookup_of_deref done)]
      exact .error
  | atom done =>
      rw [tree done]
      exact .error
  | plain done none =>
      rw [tree done, Term.subst, Term.substAll_eq_map, Term.firstFault?_plain, List.length_map]
      · exact .error
      · intro member
        obtain ⟨op, found⟩ := Operator.mem_evaluable.mp member
        rw [List.length_map, none] at found
        cases found
  | unary done found _ ih =>
      obtain ⟨value, fine⟩ := (ih.eq_ok_iff _).mp rfl
      have here := Term.agrees_unary found value
      rw [tree done, Term.subst, Term.substAll_eq_map,
        Term.firstFault?_compound (known [] found)]
      simpa [fine] using here
  | binary done found _ _ left right =>
      obtain ⟨value, fine⟩ := (left.eq_ok_iff _).mp rfl
      obtain ⟨value', fine'⟩ := (right.eq_ok_iff _).mp rfl
      have here := Term.agrees_binary found value value'
      rw [tree done, Term.subst, Term.substAll_eq_map,
        Term.firstFault?_compound (known [_] found)]
      simpa [fine, fine'] using here
  | first done found _ ih =>
      obtain ⟨e, rfl, wrong⟩ := (ih.eq_error_iff _).mp rfl
      rw [tree done, Term.subst, Term.substAll_eq_map, Term.firstFault?_compound (known _ found),
        List.findSome?_cons, wrong]
      exact .error
  | second done found _ _ left right =>
      obtain ⟨-, fine⟩ := (left.eq_ok_iff _).mp rfl
      obtain ⟨e, rfl, wrong⟩ := (right.eq_error_iff _).mp rfl
      rw [tree done, Term.subst, Term.substAll_eq_map,
        Term.firstFault?_compound (known [_] found), List.findSome?_cons, fine,
        List.map_singleton, List.findSome?_singleton, wrong]
      exact .error

/-- In a store without cyclic bindings every expression evaluates to something, also when it is laid
out with an operator in each compound. It evaluates to an integer exactly when what it resolves to
has that value over the whole numbers and no value on the way leaves the range of words; otherwise
it evaluates to the fault of the first node at which something is wrong. -/
theorem eval_agrees_with_exact_arithmetic (acyclic : s.Acyclic) (t : Term) :
    ∃ u result, (∃ fuel, s.resolve fuel t = some u) ∧ s.eval t = some result ∧
      s.evalNode (.ofTerm t) = some result ∧
      (∀ n, result = .ok n ↔ u.exactValue? = some n.toInt ∧
        ∀ w ∈ u.visited, ∀ c, w.exactValue? = some c → InRange c) ∧
      ∀ halt, result = .error halt ↔
        ∃ e, halt = .error e ∧ u.visited.findSome? Term.fault? = some e := by
  obtain ⟨result, done⟩ := eval_returns acyclic t
  have agrees := (eval_eq_some_iff.mp done).agrees acyclic
  refine ⟨_, result, resolve_of_acyclic acyclic t, done, (evalNode_ofTerm s t).trans done, ?_,
    agrees.eq_error_iff⟩
  intro n
  rw [agrees.eq_ok_iff]
  exact and_congr_right Term.firstFault?_eq_none_iff

theorem eval_agrees_with_exact_arithmetic_bound_operands :
    let s := (empty.bind 1 (.int 7)).bind 2 (.compound .minus (.var 1) [])
    let rest : Term := .compound .mod (.var 2) [.int 3]
    let quotient : Term := .compound .intDiv (.var 2) [.compound .minus (.var 1) [.int 7]]
    s.Acyclic ∧ s.eval rest = some (.ok 2) ∧
      s.eval (.compound .plus quotient [.var 0]) =
        some (.error (.error (.evaluation .zeroDivisor))) := by
  intro s rest quotient
  have acyclic : s.Acyclic :=
    ((descending_empty.bind (by decide)).bind (by decide)).acyclic
  refine ⟨acyclic, ?_, ?_⟩
  · obtain ⟨u, result, ⟨fuel, resolved⟩, done, -, value, -⟩ :=
      eval_agrees_with_exact_arithmetic acyclic rest
    have here : s.resolve 10 rest =
        some (.compound .mod (.compound .minus (.int 7) []) [.int 3]) := rfl
    obtain rfl := (acyclic.resolved resolved).trans (acyclic.resolved here).symm
    rw [done, (value 2).mpr ⟨by decide, by decide⟩]
  · obtain ⟨u, result, ⟨fuel, resolved⟩, done, -, -, wrong⟩ :=
      eval_agrees_with_exact_arithmetic acyclic (.compound .plus quotient [.var 0])
    have here : s.resolve 20 (.compound .plus quotient [.var 0]) =
        some (.compound .plus (.compound .intDiv (.compound .minus (.int 7) [])
          [.compound .minus (.int 7) [.int 7]]) [.var 0]) := rfl
    obtain rfl := (acyclic.resolved resolved).trans (acyclic.resolved here).symm
    rw [done, (wrong _).mpr ⟨_, rfl, rfl⟩]

end Store

end LogicSearch
