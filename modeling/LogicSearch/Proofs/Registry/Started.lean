import LogicSearch.Proofs.Store.Acyclic
import LogicSearch.Registry.Builtin
import Mathlib.Data.List.Basic

namespace LogicSearch

variable {U : Type}

/-- An activation that was not asked yet, over these arguments. -/
inductive Activation.Fresh : List Term → Activation U → Prop where
  | test {args : List Term} {t : Test} : Fresh args (.test t false)
  | unify {l r : Term} : Fresh [l, r] (.equation (.unify l r) .fresh)
  | evaluate {x e : Term} : Fresh [x, e] (.equation (.evaluate x e) .fresh)
  | member {e l : Term} : Fresh [e, l] (.member e (.fresh l))
  | conjunction {l r : Term} : Fresh [l, r] (.conjunction (.start l r))
  | disjunction {l r : Term} : Fresh [l, r] (.disjunction (.start l r))

open Activation (Fresh)

def Factory.StartsFresh (arity : Nat) (factory : Factory U) : Prop :=
  ∀ args m, args.length = arity → ∃ a, factory.start args m = (.ok a, m) ∧ Fresh args a

theorem startsFresh_nullary {a : Activation U} (fresh : Fresh [] a) :
    (Factory.nullary (Builtin.quiet a)).StartsFresh 0 := by
  intro args m length
  rw [List.length_eq_zero_iff] at length
  subst length
  exact ⟨a, rfl, fresh⟩

theorem startsFresh_unary {create : Term → Activation U} (fresh : ∀ x, Fresh [x] (create x)) :
    (Factory.unary fun x => Builtin.quiet (create x)).StartsFresh 1 := by
  intro args m length
  obtain ⟨x, rfl⟩ := List.length_eq_one_iff.mp length
  exact ⟨create x, rfl, fresh x⟩

theorem startsFresh_binary {create : Term → Term → Activation U}
    (fresh : ∀ x y, Fresh [x, y] (create x y)) :
    (Factory.binary fun x y => Builtin.quiet (create x y)).StartsFresh 2 := by
  intro args m length
  obtain ⟨x, y, rfl⟩ := List.length_eq_two.mp length
  exact ⟨create x y, rfl, fresh x y⟩

theorem startsFresh_of_mem_standard {entry : Indicator × Factory U}
    (member : entry ∈ Library.standard) : entry.2.StartsFresh entry.1.arity := by
  have test (t : Test) : (Builtin.test t : Factory U).StartsFresh 0 := startsFresh_nullary .test
  have ofKind (kind : Kind) : (Builtin.ofKind kind : Factory U).StartsFresh 1 :=
    startsFresh_unary fun _ => .test
  have compare (c : Comparison) : (Builtin.compare c : Factory U).StartsFresh 2 :=
    startsFresh_binary fun _ _ => .test
  have notUnifiable : (Builtin.notUnifiable : Factory U).StartsFresh 2 :=
    startsFresh_binary fun _ _ => .test
  have unify : (Builtin.unify : Factory U).StartsFresh 2 := startsFresh_binary fun _ _ => .unify
  have evaluate : (Builtin.evaluate : Factory U).StartsFresh 2 :=
    startsFresh_binary fun _ _ => .evaluate
  have membership : (Builtin.member : Factory U).StartsFresh 2 :=
    startsFresh_binary fun _ _ => .member
  have conjunction : (Builtin.conjunction : Factory U).StartsFresh 2 :=
    startsFresh_binary fun _ _ => .conjunction
  have disjunction : (Builtin.disjunction : Factory U).StartsFresh 2 :=
    startsFresh_binary fun _ _ => .disjunction
  have all : ∀ entry ∈ (Library.standard : List (Indicator × Factory U)),
      entry.2.StartsFresh entry.1.arity := by
    simp only [Library.standard, Library.all, List.flatMap_cons, List.flatMap_nil,
      Library.predicates, List.cons_append, List.nil_append, List.forall_mem_cons, test, ofKind,
      compare, notUnifiable, unify, evaluate, membership, conjunction, disjunction, true_and,
      List.not_mem_nil, false_implies, implies_true]
  exact all entry member

theorem Registry.mem_of_factory? {r : Registry U} {p : Indicator} {factory : Factory U}
    (known : r.factory? p = some factory) : (p, factory) ∈ r.entries := by
  obtain ⟨entry, found, rfl⟩ := Option.map_eq_some_iff.mp known
  obtain rfl : entry.1 = p := by simpa using List.find?_some found
  exact List.mem_of_find?_eq_some found

theorem builtins_start (p : Indicator) (args : List Term) (m : Machine)
    (length : args.length = p.arity) :
    (∃ a, (Registry.builtins : Registry U).start p args m = (.ok a, m) ∧ Fresh args a) ∨
      (Registry.builtins : Registry U).start p args m =
        (.error (.error (.unknownPredicate p)), m) := by
  simp only [Registry.start]
  cases known : (Registry.builtins : Registry U).factory? p with
  | none => exact .inr rfl
  | some factory =>
      have fresh := startsFresh_of_mem_standard (Registry.mem_of_factory? known)
      exact .inl (fresh args m length)

theorem Registry.callEnd_eq_start (r : Registry U) (m : Machine) (u : Term) :
    (∃ cause, r.callEnd m u = (.error (.error cause), m)) ∨
      ∃ p, u.args.length = p.arity ∧ r.callEnd m u = r.start p u.args m := by
  cases u with
  | var v => exact .inl ⟨_, rfl⟩
  | int n => exact .inl ⟨_, rfl⟩
  | atom f => exact .inr ⟨⟨f, 0⟩, rfl, rfl⟩
  | compound f first rest => exact .inr ⟨⟨f, rest.length + 1⟩, rfl, rfl⟩

theorem builtins_callEnd (u : Term) (m : Machine) :
    (∃ a, (Registry.builtins : Registry U).callEnd m u = (.ok a, m) ∧ Fresh u.args a) ∨
      ∃ cause, (Registry.builtins : Registry U).callEnd m u = (.error (.error cause), m) := by
  rcases Registry.callEnd_eq_start Registry.builtins m u with ⟨cause, refused⟩ | ⟨p, length, looked⟩
  · exact .inr ⟨cause, refused⟩
  · rw [looked]
    rcases builtins_start p u.args m length with started | unknown
    · exact .inl started
    · exact .inr ⟨_, unknown⟩

theorem fresh_of_call {t : Term} {m m' : Machine} {a : Activation U}
    (called : (Registry.builtins : Registry U).call t m = some (.ok a, m')) :
    ∃ u, m.store.deref t = some u ∧ Fresh u.args a := by
  obtain ⟨u, ends, same⟩ := Option.map_eq_some_iff.mp called
  rcases builtins_callEnd (U := U) u m with ⟨b, started, fresh⟩ | ⟨cause, refused⟩
  · rw [started] at same
    cases same
    exact ⟨u, ends, fresh⟩
  · rw [refused] at same
    cases same

/-- A call that returns starts a fresh activation over terms inside the goal, or refuses the goal by
an error. -/
theorem builtins_call {t : Term} {m m' : Machine} {result : Except Halt (Activation U)}
    (called : (Registry.builtins : Registry U).call t m = some (result, m')) :
    m' = m ∧ ((∃ a args, result = .ok a ∧ Fresh args a ∧
      ∀ u ∈ args, ∀ v, m.store.Free u v → m.store.Free t v) ∨
      ∃ cause, result = .error (.error cause)) := by
  obtain ⟨u, ends, same⟩ := Option.map_eq_some_iff.mp called
  rcases builtins_callEnd (U := U) u m with ⟨a, started, fresh⟩ | ⟨cause, refused⟩
  · rw [started] at same
    cases same
    exact ⟨rfl, .inl ⟨a, u.args, rfl, fresh, fun x member v => Store.free_of_arg ends member⟩⟩
  · rw [refused] at same
    cases same
    exact ⟨rfl, .inr ⟨cause, rfl⟩⟩

theorem exists_call {m : Machine} (chains : m.store.ChainsEnd) (goal : Term) :
    ∃ result : Except Halt (Activation U), Registry.builtins.call goal m = some (result, m) := by
  obtain ⟨x, done⟩ := chains goal
  have returns : ∃ called, (Registry.builtins : Registry U).call goal m = some called :=
    ⟨_, congrArg (Option.map _) done⟩
  obtain ⟨⟨result, m'⟩, called⟩ := returns
  obtain ⟨rfl, -⟩ := builtins_call called
  exact ⟨result, called⟩

end LogicSearch
