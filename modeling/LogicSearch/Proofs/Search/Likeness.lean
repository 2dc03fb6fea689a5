import LogicSearch.Proofs.Goal.Likeness
import LogicSearch.Proofs.Registry.Started
import LogicSearch.Proofs.Search.Request

/-!
Searches that go along with one another. Two activations are alike when they are at the same point
of one course and hold like terms; asked on related stores they reply alike, and giving them up
leaves related stores. One move of a combinator at a time, this is an induction over the depth of
nested goals.
-/

namespace LogicSearch

variable {U : Type} {L : Likeness} {S : Store → Store → Prop}

namespace Activation

/-- Two activations at the same point of one course, over like terms. -/
inductive Alike (L : Likeness) : Activation U → Activation U → Prop where
  | test {t t' : Test} {called : Bool} : t.Alike L t' → Alike L (.test t called) (.test t' called)
  | equation {e e' : Equation} {phase : Equation.Phase} : e.Alike L e' → phase.Owned L →
      Alike L (.equation e phase) (.equation e' phase)
  | member {e e' : Term} {phase phase' : Member.Phase} : L.terms e e' → phase.Alike L phase' →
      Alike L (.member e phase) (.member e' phase')
  | conjunctionFresh {l r l' r' : Term} : L.terms l l' → L.terms r r' →
      Alike L (.conjunction ⟨l, r, .fresh⟩) (.conjunction ⟨l', r', .fresh⟩)
  | conjunctionLeft {l r l' r' : Term} {a a' : Activation U} : L.terms l l' → L.terms r r' →
      Alike L a a' → Alike L (.conjunction ⟨l, r, .left a⟩) (.conjunction ⟨l', r', .left a'⟩)
  | conjunctionRight {l r l' r' : Term} {below a below' a' : Activation U} : L.terms l l' →
      L.terms r r' → Alike L below below' → Alike L a a' →
      Alike L (.conjunction ⟨l, r, .right below a⟩) (.conjunction ⟨l', r', .right below' a'⟩)
  | conjunctionDone {l r l' r' : Term} {cut : Bool} : L.terms l l' → L.terms r r' →
      Alike L (.conjunction ⟨l, r, .done cut⟩) (.conjunction ⟨l', r', .done cut⟩)
  | disjunctionFresh {l r l' r' : Term} : L.terms l l' → L.terms r r' →
      Alike L (.disjunction ⟨l, r, .fresh⟩) (.disjunction ⟨l', r', .fresh⟩)
  | disjunctionLeft {l r l' r' : Term} {a a' : Activation U} : L.terms l l' → L.terms r r' →
      Alike L a a' → Alike L (.disjunction ⟨l, r, .left a⟩) (.disjunction ⟨l', r', .left a'⟩)
  | disjunctionBetween {l r l' r' : Term} : L.terms l l' → L.terms r r' →
      Alike L (.disjunction ⟨l, r, .between⟩) (.disjunction ⟨l', r', .between⟩)
  | disjunctionRight {l r l' r' : Term} {a a' : Activation U} : L.terms l l' → L.terms r r' →
      Alike L a a' → Alike L (.disjunction ⟨l, r, .right a⟩) (.disjunction ⟨l', r', .right a'⟩)
  | disjunctionDone {l r l' r' : Term} {cut : Bool} : L.terms l l' → L.terms r r' →
      Alike L (.disjunction ⟨l, r, .done cut⟩) (.disjunction ⟨l', r', .done cut⟩)

theorem Alike.symm {a a' : Activation U} (both : ∀ u w, L.terms u w → L.terms w u)
    (alike : Alike L a a') : Alike L a' a := by
  induction alike with
  | test tests =>
      cases tests with
      | truth => exact .test .truth
      | failure => exact .test .failure
      | cut => exact .test .cut
      | notUnifiable left right => exact .test (.notUnifiable (both _ _ left) (both _ _ right))
      | ofKind like => exact .test (.ofKind (both _ _ like))
      | compare left right => exact .test (.compare (both _ _ left) (both _ _ right))
  | equation like owned =>
      cases like with
      | unify left right => exact .equation (.unify (both _ _ left) (both _ _ right)) owned
      | evaluate result expression =>
          exact .equation (.evaluate (both _ _ result) (both _ _ expression)) owned
  | member like phases =>
      cases phases with
      | fresh lists => exact .member (both _ _ like) (.fresh (both _ _ lists))
      | tried own ownHead tails =>
          exact .member (both _ _ like) (.tried own ownHead (both _ _ tails))
      | done => exact .member (both _ _ like) .done
  | conjunctionFresh left right => exact .conjunctionFresh (both _ _ left) (both _ _ right)
  | conjunctionLeft left right _ ih => exact .conjunctionLeft (both _ _ left) (both _ _ right) ih
  | conjunctionRight left right _ _ below ih =>
      exact .conjunctionRight (both _ _ left) (both _ _ right) below ih
  | conjunctionDone left right => exact .conjunctionDone (both _ _ left) (both _ _ right)
  | disjunctionFresh left right => exact .disjunctionFresh (both _ _ left) (both _ _ right)
  | disjunctionLeft left right _ ih => exact .disjunctionLeft (both _ _ left) (both _ _ right) ih
  | disjunctionBetween left right => exact .disjunctionBetween (both _ _ left) (both _ _ right)
  | disjunctionRight left right _ ih => exact .disjunctionRight (both _ _ left) (both _ _ right) ih
  | disjunctionDone left right => exact .disjunctionDone (both _ _ left) (both _ _ right)

inductive Started (L : Likeness) :
    Except Halt (Activation U) → Except Halt (Activation U) → Prop where
  | ok {a a' : Activation U} : Alike L a a' → Started L (.ok a) (.ok a')
  | error {halt : Halt} : Started L (.error halt) (.error halt)

structure Replies (L : Likeness) (S : Store → Store → Prop)
    (r r' : Reply Machine (Activation U)) : Prop where
  answer : r'.answer = r.answer
  goals : Alike L r.goal r'.goal
  stores : S r.state.store r'.state.store

end Activation

open Activation (Alike Started Replies Asks protocol solver)

def Factory.StartsAlike (L : Likeness) (arity : Nat) (factory : Factory U) : Prop :=
  ∀ args args' m m', List.Forall₂ L.terms args args' → args.length = arity →
    ∃ a a', factory.start args m = (.ok a, m) ∧ factory.start args' m' = (.ok a', m') ∧
      Alike L a a'

theorem startsAlike_nullary {a : Activation U} (alike : Alike L a a) :
    (Factory.nullary (Builtin.quiet a)).StartsAlike L 0 := by
  intro args args' m m' terms length
  rw [List.length_eq_zero_iff] at length
  subst length
  cases terms
  exact ⟨a, a, rfl, rfl, alike⟩

theorem startsAlike_unary {create : Term → Activation U}
    (alike : ∀ {x x'}, L.terms x x' → Alike L (create x) (create x')) :
    (Factory.unary fun x => Builtin.quiet (create x)).StartsAlike L 1 := by
  intro args args' m m' terms length
  obtain ⟨x, rfl⟩ := List.length_eq_one_iff.mp length
  cases terms with
  | cons here none =>
      cases none
      exact ⟨_, _, rfl, rfl, alike here⟩

theorem startsAlike_binary {create : Term → Term → Activation U}
    (alike : ∀ {x y x' y'}, L.terms x x' → L.terms y y' → Alike L (create x y) (create x' y')) :
    (Factory.binary fun x y => Builtin.quiet (create x y)).StartsAlike L 2 := by
  intro args args' m m' terms length
  obtain ⟨x, y, rfl⟩ := List.length_eq_two.mp length
  cases terms with
  | cons here rest =>
      cases rest with
      | cons there none =>
          cases none
          exact ⟨_, _, rfl, rfl, alike here there⟩

theorem startsAlike_of_mem_standard {entry : Indicator × Factory U}
    (member : entry ∈ Library.standard) : entry.2.StartsAlike L entry.1.arity := by
  have truth : (Builtin.test .truth : Factory U).StartsAlike L 0 :=
    startsAlike_nullary (.test .truth)
  have failure : (Builtin.test .failure : Factory U).StartsAlike L 0 :=
    startsAlike_nullary (.test .failure)
  have cut : (Builtin.test .cut : Factory U).StartsAlike L 0 := startsAlike_nullary (.test .cut)
  have ofKind (kind : Kind) : (Builtin.ofKind kind : Factory U).StartsAlike L 1 :=
    startsAlike_unary fun here => .test (.ofKind here)
  have compare (c : Comparison) : (Builtin.compare c : Factory U).StartsAlike L 2 :=
    startsAlike_binary fun here there => .test (.compare here there)
  have notUnifiable : (Builtin.notUnifiable : Factory U).StartsAlike L 2 :=
    startsAlike_binary fun here there => .test (.notUnifiable here there)
  have unify : (Builtin.unify : Factory U).StartsAlike L 2 :=
    startsAlike_binary fun here there => .equation (.unify here there) trivial
  have evaluate : (Builtin.evaluate : Factory U).StartsAlike L 2 :=
    startsAlike_binary fun here there => .equation (.evaluate here there) trivial
  have membership : (Builtin.member : Factory U).StartsAlike L 2 :=
    startsAlike_binary fun here there => .member here (.fresh there)
  have conjunction : (Builtin.conjunction : Factory U).StartsAlike L 2 :=
    startsAlike_binary fun here there => .conjunctionFresh here there
  have disjunction : (Builtin.disjunction : Factory U).StartsAlike L 2 :=
    startsAlike_binary fun here there => .disjunctionFresh here there
  have all : ∀ entry ∈ (Library.standard : List (Indicator × Factory U)),
      entry.2.StartsAlike L entry.1.arity := by
    simp only [Library.standard, Library.all, List.flatMap_cons, List.flatMap_nil,
      Library.predicates, List.cons_append, List.nil_append, List.forall_mem_cons, truth, failure,
      cut, ofKind, compare, notUnifiable, unify, evaluate, membership, conjunction, disjunction,
      true_and, List.not_mem_nil, false_implies, implies_true]
  exact all entry member

theorem builtins_start_alike {p : Indicator} {args args' : List Term} (m m' : Machine)
    (terms : List.Forall₂ L.terms args args') (length : args.length = p.arity) :
    ∃ result result', (Registry.builtins : Registry U).start p args m = (result, m) ∧
      Registry.builtins.start p args' m' = (result', m') ∧ Started L result result' := by
  simp only [Registry.start, Registry.factory?]
  cases found : (Registry.builtins : Registry U).entries.find? fun entry => entry.1 == p with
  | none => exact ⟨_, _, rfl, rfl, .error⟩
  | some entry =>
      have same : entry.1 = p := by simpa using List.find?_some found
      obtain ⟨a, a', started, started', alike⟩ := startsAlike_of_mem_standard
        (List.mem_of_find?_eq_some found) args args' m m' terms (by rw [length, same])
      exact ⟨_, _, started, started', .ok alike⟩

theorem Likeness.Simulates.call (sim : L.Simulates S) {t t' : Term} {m m' m₁ : Machine}
    {result : Except Halt (Activation U)} (stores : S m.store m'.store) (like : L.terms t t')
    (called : Registry.builtins.call t m = some (result, m₁)) :
    m₁ = m ∧ ∃ result', Registry.builtins.call t' m' = some (result', m') ∧
      Started L result result' := by
  obtain ⟨x, ends, same⟩ := Option.map_eq_some_iff.mp called
  obtain ⟨y, ends', alike⟩ := sim.deref stores like ends
  suffices started : ∃ result result', (Registry.builtins : Registry U).callEnd m x = (result, m) ∧
      Registry.builtins.callEnd m' y = (result', m') ∧ Started L result result' by
    obtain ⟨_, result', left, right, started⟩ := started
    rw [left] at same
    cases same
    exact ⟨rfl, result', by simp only [Registry.call, ends', Option.map_some, right], started⟩
  cases alike.same with
  | var => exact ⟨_, _, rfl, rfl, .error⟩
  | int => exact ⟨_, _, rfl, rfl, .error⟩
  | atom => exact builtins_start_alike m m' .nil rfl
  | compound first args =>
      simp only [Registry.callEnd, ← args.length_eq]
      exact builtins_start_alike m m' (.cons first args) rfl

namespace Activation

section Abort

variable [Plugin U]

theorem Alike.committed {a a' : Activation U} (alike : Alike L a a') :
    a'.committed = a.committed := by
  cases alike with
  | test tests => cases tests <;> rfl
  | _ => rfl

theorem Alike.abort {a a' : Activation U} {m m' : Machine} (sim : L.Simulates S)
    (alike : Alike L a a') (stores : S m.store m'.store) :
    Alike L (a.abort m).1 (a'.abort m').1 ∧ S (a.abort m).2.store (a'.abort m').2.store := by
  induction alike generalizing m m' with
  | test tests => exact ⟨.test tests, stores⟩
  | equation like owned =>
      obtain ⟨same, owned', related⟩ := owned.abort sim stores
      refine ⟨?_, related⟩
      simp only [Activation.abort, same]
      exact .equation like owned'
  | member like phases =>
      obtain ⟨phases', related⟩ := Member.abort_alike sim phases stores
      exact ⟨.member like phases', related⟩
  | conjunctionFresh left right => exact ⟨.conjunctionDone left right, stores⟩
  | conjunctionLeft left right _ ih => exact ⟨.conjunctionDone left right, (ih stores).2⟩
  | conjunctionRight left right _ _ below ih =>
      exact ⟨.conjunctionDone left right, (below (ih stores).2).2⟩
  | conjunctionDone left right => exact ⟨.conjunctionDone left right, stores⟩
  | disjunctionFresh left right => exact ⟨.disjunctionDone left right, stores⟩
  | disjunctionLeft left right _ ih => exact ⟨.disjunctionDone left right, (ih stores).2⟩
  | disjunctionBetween left right => exact ⟨.disjunctionDone left right, stores⟩
  | disjunctionRight left right _ ih => exact ⟨.disjunctionDone left right, (ih stores).2⟩
  | disjunctionDone left right => exact ⟨.disjunctionDone left right, stores⟩

end Abort

/-- One way of driving built-in goals goes along with another on like goals. -/
structure Along (L : Likeness) (S : Store → Store → Prop)
    (p q : Protocol Machine (Activation U)) : Prop where
  call : ∀ {t t' m m' result m₁}, S m.store m'.store → L.terms t t' → p.call t m (result, m₁) →
    m₁ = m ∧ ∃ result', q.call t' m' (result', m') ∧ Started L result result'
  asks : ∀ {a a' m m' reply}, S m.store m'.store → Alike L a a' → p.asks a m reply →
    ∃ reply', q.asks a' m' reply' ∧ Replies L S reply reply'
  abort : ∀ {a a' m m'}, S m.store m'.store → Alike L a a' →
    S (p.abort a m).2.store (q.abort a' m').2.store
  committed : ∀ {a a'}, Alike L a a' → q.committed a' = p.committed a

section Moves

variable {p q : Protocol Machine (Activation U)} {m m' : Machine}

def Conjunctions (L : Likeness) (S : Store → Store → Prop)
    (x y : Conjunction (Activation U) × Machine) : Prop :=
  Alike L (.conjunction x.1) (.conjunction y.1) ∧ S x.2.store y.2.store

def ConjunctionReplies (L : Likeness) (S : Store → Store → Prop)
    (r r' : Reply Machine (Conjunction (Activation U))) : Prop :=
  Replies L S (r.map .conjunction) (r'.map .conjunction)

theorem Along.conjunction (along : Along L S p q) {c c' : Conjunction (Activation U)}
    (alike : Alike L (.conjunction c) (.conjunction c')) (stores : S m.store m'.store)
    {turn : Turn (Conjunction (Activation U) × Machine)
      (Reply Machine (Conjunction (Activation U)))}
    (moves : Conjunction.Moves p (c, m) turn) :
    Turn.Answered (Conjunction.Moves q) (Conjunctions L S) (ConjunctionReplies L S) (c', m')
      turn := by
  suffices answer : ∃ turn', Conjunction.Moves q (c', m') turn' ∧
      Turn.Alike (Conjunctions L S) (ConjunctionReplies L S) turn turn' by
    obtain ⟨turn', moves', same⟩ := answer
    exact same.answered moves'
  cases moves with
  | done =>
      cases alike with
      | conjunctionDone left right =>
          exact ⟨_, .done, .finish ⟨rfl, .conjunctionDone left right, stores⟩⟩
  | calls called =>
      cases alike with
      | conjunctionFresh left right =>
          obtain ⟨rfl, _, called', ⟨goals⟩⟩ := along.call stores left called
          exact ⟨_, .calls called', .again ⟨.conjunctionLeft left right goals, stores⟩⟩
  | refused called =>
      cases alike with
      | conjunctionFresh left right =>
          obtain ⟨rfl, _, called', ⟨⟩⟩ := along.call stores left called
          exact ⟨_, .refused called', .finish ⟨rfl, .conjunctionFresh left right, stores⟩⟩
  | leftHalts asked =>
      cases alike with
      | conjunctionLeft left right goals =>
          obtain ⟨⟨_, _, _⟩, asked', rfl, goals', stores'⟩ := along.asks stores goals asked
          exact ⟨_, .leftHalts asked', .finish ⟨rfl, .conjunctionLeft left right goals', stores'⟩⟩
  | leftFails asked =>
      cases alike with
      | conjunctionLeft left right goals =>
          obtain ⟨⟨_, _, _⟩, asked', rfl, goals', stores'⟩ := along.asks stores goals asked
          refine ⟨_, .leftFails asked', .finish ⟨rfl, ?_, stores'⟩⟩
          simp only [Reply.map, along.committed goals']
          exact .conjunctionDone left right
  | leftAnswers asked called =>
      cases alike with
      | conjunctionLeft left right goals =>
          obtain ⟨⟨_, _, _⟩, asked', rfl, goals', stores'⟩ := along.asks stores goals asked
          obtain ⟨rfl, _, called', ⟨started⟩⟩ := along.call stores' right called
          exact ⟨_, .leftAnswers asked' called',
            .again ⟨.conjunctionRight left right goals' started, stores'⟩⟩
  | rightRefused asked called =>
      cases alike with
      | conjunctionLeft left right goals =>
          obtain ⟨⟨_, _, _⟩, asked', rfl, goals', stores'⟩ := along.asks stores goals asked
          obtain ⟨rfl, _, called', ⟨⟩⟩ := along.call stores' right called
          exact ⟨_, .rightRefused asked' called',
            .finish ⟨rfl, .conjunctionLeft left right goals', stores'⟩⟩
  | rightHalts asked =>
      cases alike with
      | conjunctionRight left right below goals =>
          obtain ⟨⟨_, _, _⟩, asked', rfl, goals', stores'⟩ := along.asks stores goals asked
          exact ⟨_, .rightHalts asked',
            .finish ⟨rfl, .conjunctionRight left right below goals', stores'⟩⟩
  | rightAnswers asked =>
      cases alike with
      | conjunctionRight left right below goals =>
          obtain ⟨⟨_, _, _⟩, asked', rfl, goals', stores'⟩ := along.asks stores goals asked
          exact ⟨_, .rightAnswers asked',
            .finish ⟨rfl, .conjunctionRight left right below goals', stores'⟩⟩
  | rightFails asked cut =>
      cases alike with
      | conjunctionRight left right below goals =>
          obtain ⟨⟨_, _, _⟩, asked', rfl, goals', stores'⟩ := along.asks stores goals asked
          rw [← along.committed goals'] at cut
          exact ⟨_, .rightFails asked' cut, .again ⟨.conjunctionLeft left right below, stores'⟩⟩
  | rightCommits asked cut =>
      cases alike with
      | conjunctionRight left right below goals =>
          obtain ⟨⟨_, _, _⟩, asked', rfl, goals', stores'⟩ := along.asks stores goals asked
          rw [← along.committed goals'] at cut
          exact ⟨_, .rightCommits asked' cut,
            .finish ⟨rfl, .conjunctionDone left right, along.abort stores' below⟩⟩

def Disjunctions (L : Likeness) (S : Store → Store → Prop)
    (x y : Disjunction (Activation U) × Machine) : Prop :=
  Alike L (.disjunction x.1) (.disjunction y.1) ∧ S x.2.store y.2.store

def DisjunctionReplies (L : Likeness) (S : Store → Store → Prop)
    (r r' : Reply Machine (Disjunction (Activation U))) : Prop :=
  Replies L S (r.map .disjunction) (r'.map .disjunction)

theorem Along.disjunction (along : Along L S p q) {d d' : Disjunction (Activation U)}
    (alike : Alike L (.disjunction d) (.disjunction d')) (stores : S m.store m'.store)
    {turn : Turn (Disjunction (Activation U) × Machine)
      (Reply Machine (Disjunction (Activation U)))}
    (moves : Disjunction.Moves p (d, m) turn) :
    Turn.Answered (Disjunction.Moves q) (Disjunctions L S) (DisjunctionReplies L S) (d', m')
      turn := by
  suffices answer : ∃ turn', Disjunction.Moves q (d', m') turn' ∧
      Turn.Alike (Disjunctions L S) (DisjunctionReplies L S) turn turn' by
    obtain ⟨turn', moves', same⟩ := answer
    exact same.answered moves'
  cases moves with
  | done =>
      cases alike with
      | disjunctionDone left right =>
          exact ⟨_, .done, .finish ⟨rfl, .disjunctionDone left right, stores⟩⟩
  | calls called =>
      cases alike with
      | disjunctionFresh left right =>
          obtain ⟨rfl, _, called', ⟨goals⟩⟩ := along.call stores left called
          exact ⟨_, .calls called', .again ⟨.disjunctionLeft left right goals, stores⟩⟩
  | refused called =>
      cases alike with
      | disjunctionFresh left right =>
          obtain ⟨rfl, _, called', ⟨⟩⟩ := along.call stores left called
          exact ⟨_, .refused called', .finish ⟨rfl, .disjunctionFresh left right, stores⟩⟩
  | callsRight called =>
      cases alike with
      | disjunctionBetween left right =>
          obtain ⟨rfl, _, called', ⟨goals⟩⟩ := along.call stores right called
          exact ⟨_, .callsRight called', .again ⟨.disjunctionRight left right goals, stores⟩⟩
  | rightRefused called =>
      cases alike with
      | disjunctionBetween left right =>
          obtain ⟨rfl, _, called', ⟨⟩⟩ := along.call stores right called
          exact ⟨_, .rightRefused called', .finish ⟨rfl, .disjunctionBetween left right, stores⟩⟩
  | leftHalts asked =>
      cases alike with
      | disjunctionLeft left right goals =>
          obtain ⟨⟨_, _, _⟩, asked', rfl, goals', stores'⟩ := along.asks stores goals asked
          exact ⟨_, .leftHalts asked', .finish ⟨rfl, .disjunctionLeft left right goals', stores'⟩⟩
  | leftAnswers asked =>
      cases alike with
      | disjunctionLeft left right goals =>
          obtain ⟨⟨_, _, _⟩, asked', rfl, goals', stores'⟩ := along.asks stores goals asked
          exact ⟨_, .leftAnswers asked',
            .finish ⟨rfl, .disjunctionLeft left right goals', stores'⟩⟩
  | leftFails asked cut =>
      cases alike with
      | disjunctionLeft left right goals =>
          obtain ⟨⟨_, _, _⟩, asked', rfl, goals', stores'⟩ := along.asks stores goals asked
          rw [← along.committed goals'] at cut
          exact ⟨_, .leftFails asked' cut, .again ⟨.disjunctionBetween left right, stores'⟩⟩
  | leftCommits asked cut =>
      cases alike with
      | disjunctionLeft left right goals =>
          obtain ⟨⟨_, _, _⟩, asked', rfl, goals', stores'⟩ := along.asks stores goals asked
          rw [← along.committed goals'] at cut
          exact ⟨_, .leftCommits asked' cut,
            .finish ⟨rfl, .disjunctionDone left right, stores'⟩⟩
  | rightHalts asked =>
      cases alike with
      | disjunctionRight left right goals =>
          obtain ⟨⟨_, _, _⟩, asked', rfl, goals', stores'⟩ := along.asks stores goals asked
          exact ⟨_, .rightHalts asked',
            .finish ⟨rfl, .disjunctionRight left right goals', stores'⟩⟩
  | rightAnswers asked =>
      cases alike with
      | disjunctionRight left right goals =>
          obtain ⟨⟨_, _, _⟩, asked', rfl, goals', stores'⟩ := along.asks stores goals asked
          exact ⟨_, .rightAnswers asked',
            .finish ⟨rfl, .disjunctionRight left right goals', stores'⟩⟩
  | rightFails asked =>
      cases alike with
      | disjunctionRight left right goals =>
          obtain ⟨⟨_, _, _⟩, asked', rfl, goals', stores'⟩ := along.asks stores goals asked
          refine ⟨_, .rightFails asked', .finish ⟨rfl, ?_, stores'⟩⟩
          simp only [Reply.map, along.committed goals']
          exact .disjunctionDone left right

end Moves

variable [Plugin U]

/-- Like activations reply alike on related stores. -/
theorem Alike.next {a a' : Activation U} {m m' : Machine} {fuel : Nat}
    {reply : Reply Machine (Activation U)} (sim : L.Simulates S) (alike : Alike L a a')
    (stores : S m.store m'.store) (done : a.next Registry.builtins fuel m = some reply) :
    ∃ reply', Asks Registry.builtins a' m' reply' ∧ Replies L S reply reply' := by
  induction fuel generalizing a a' m m' reply with
  | zero => cases done
  | succ fuel ih =>
      have along : Along L S (solver (Registry.builtins : Registry U) fuel).protocol
          (protocol Registry.builtins) :=
        ⟨sim.call, fun stores alike asked => ih alike stores asked,
          fun stores alike => (alike.abort sim stores).2, Alike.committed⟩
      cases a with
      | test test called =>
          cases alike with
          | test tests =>
              cases called with
              | true =>
                  cases done
                  exact ⟨_, ⟨1, rfl⟩, rfl, .test tests, stores⟩
              | false =>
                  obtain ⟨⟨answer, s₁⟩, ran, rfl⟩ := Option.map_eq_some_iff.mp done
                  obtain ⟨more, t₁, ran', related⟩ := tests.run sim stores ran
                  exact ⟨_, ⟨more + 1, Option.map_eq_some_iff.mpr ⟨_, ran', rfl⟩⟩, rfl,
                    .test tests, related⟩
      | equation e phase =>
          cases alike with
          | equation like owned =>
              obtain ⟨⟨answer, phase', s₁⟩, answered, rfl⟩ := Option.map_eq_some_iff.mp done
              obtain ⟨more, t₁, answered', owned', related⟩ := like.next sim stores owned answered
              exact ⟨_, ⟨more + 1, Option.map_eq_some_iff.mpr ⟨_, answered', rfl⟩⟩, rfl,
                .equation like owned', related⟩
      | member e phase =>
          cases alike with
          | member like phases =>
              obtain ⟨⟨answer, phase₁, s₁⟩, answered, rfl⟩ := Option.map_eq_some_iff.mp done
              obtain ⟨more, ⟨_, phase₂, t₁⟩, answered', rfl, phases', related⟩ :=
                Member.next_alike sim like phases stores answered
              exact ⟨_, ⟨more + 1, Option.map_eq_some_iff.mpr ⟨_, answered', rfl⟩⟩, rfl,
                .member like phases', related⟩
      | conjunction c =>
          obtain ⟨r, answered, rfl⟩ := Option.map_eq_some_iff.mp done
          obtain ⟨c', rfl⟩ : ∃ c', a' = .conjunction c' := by cases alike <;> exact ⟨_, rfl⟩
          have start : Conjunctions L S (c, m) (c', m') := ⟨alike, stores⟩
          obtain ⟨r', leads, replies⟩ :=
            (Turn.leads_of_iterate (fun _ _ => Conjunction.moves_of_step) answered).along
              (fun _ _ _ same moves => along.conjunction same.1 same.2 moves) start
          exact ⟨_, asks_conjunction.mpr ⟨r', leads, rfl⟩, replies⟩
      | disjunction d =>
          obtain ⟨r, answered, rfl⟩ := Option.map_eq_some_iff.mp done
          obtain ⟨d', rfl⟩ : ∃ d', a' = .disjunction d' := by cases alike <;> exact ⟨_, rfl⟩
          have start : Disjunctions L S (d, m) (d', m') := ⟨alike, stores⟩
          obtain ⟨r', leads, replies⟩ :=
            (Turn.leads_of_iterate (fun _ _ => Disjunction.moves_of_step) answered).along
              (fun _ _ _ same moves => along.disjunction same.1 same.2 moves) start
          exact ⟨_, asks_disjunction.mpr ⟨r', leads, rfl⟩, replies⟩
      | plugged u => cases alike

theorem Alike.asks {a a' : Activation U} {m m' : Machine} {reply : Reply Machine (Activation U)}
    (sim : L.Simulates S) (alike : Alike L a a') (stores : S m.store m'.store)
    (asked : Asks Registry.builtins a m reply) :
    ∃ reply', Asks Registry.builtins a' m' reply' ∧ Replies L S reply reply' := by
  obtain ⟨fuel, done⟩ := asked
  exact alike.next sim stores done

end Activation

end LogicSearch
