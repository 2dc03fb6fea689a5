import LogicSearch.Proofs.Search.Likeness
import LogicSearch.Proofs.Store.UpTo

namespace LogicSearch

namespace Activation

inductive Demand where
  | next
  | abort

/-- What there is to see after a demand: the answer if one was asked for, whether the last failure
came from a cut, and the store. -/
structure Sight where
  answer : Option (Except Halt Bool)
  committed : Bool
  store : Store

variable {U : Type} [Plugin U]

inductive Driven (registry : Registry U) :
    Activation U → Machine → List Demand → List Sight → Prop where
  | stop {a : Activation U} {m : Machine} : Driven registry a m [] []
  | next {a b : Activation U} {m m' : Machine} {answer : Except Halt Bool} {demands : List Demand}
      {sights : List Sight} : Asks registry a m ⟨answer, b, m'⟩ →
      Driven registry b m' demands sights →
      Driven registry a m (.next :: demands) (⟨some answer, b.committed, m'.store⟩ :: sights)
  | abort {a b : Activation U} {m m' : Machine} {demands : List Demand} {sights : List Sight} :
      a.abort m = (b, m') → Driven registry b m' demands sights →
      Driven registry a m (.abort :: demands) (⟨none, b.committed, m'.store⟩ :: sights)

/-- One and the same answer, and stores that are without cyclic bindings together and then resolve
every variable to one term. -/
structure Sight.Same (p q : Sight) : Prop where
  answer : q.answer = p.answer
  committed : q.committed = p.committed
  acyclic : p.store.Acyclic ↔ q.store.Acyclic
  resolve : p.store.Acyclic → ∀ v, ∃ fuel t, p.store.resolve fuel (.var v) = some t ∧
    q.store.resolve fuel (.var v) = some t

theorem resolves_alike {s t : Store} (left : s.Acyclic) (right : t.Acyclic)
    (trees : t.trees = s.trees) (u : Term) :
    ∃ fuel w, s.resolve fuel u = some w ∧ t.resolve fuel u = some w := by
  obtain ⟨m, done⟩ := Store.resolve_of_acyclic left u
  obtain ⟨n, done'⟩ := Store.resolve_of_acyclic right u
  rw [trees] at done'
  exact ⟨max m n, _, Store.resolve_mono (Nat.le_max_left m n) done,
    Store.resolve_mono (Nat.le_max_right m n) done'⟩

theorem same_of_agree {base s t : Store} (acyclic : base.Acyclic) (agree : base.AgreeOver s t)
    {answer : Option (Except Halt Bool)} {committed : Bool} :
    Sight.Same ⟨answer, committed, s⟩ ⟨answer, committed, t⟩ where
  answer := rfl
  committed := rfl
  acyclic := ⟨agree.acyclic acyclic, agree.symm.acyclic acyclic⟩
  resolve left := by
    have right := agree.acyclic acyclic left
    exact fun v => resolves_alike left right (agree.trees acyclic left) (.var v)

theorem Driven.along {base : Store} {a a' : Activation U} {m m' : Machine} {demands : List Demand}
    {sights : List Sight} (acyclic : base.Acyclic)
    (driven : Driven Registry.builtins a m demands sights) (alike : Alike base.upTo a a')
    (agree : base.AgreeOver m.store m'.store) :
    ∃ sights', Driven Registry.builtins a' m' demands sights' ∧
      List.Forall₂ Sight.Same sights sights' := by
  have sim := Store.simulates_upTo acyclic
  induction driven generalizing a' m' with
  | stop => exact ⟨[], .stop, .nil⟩
  | next asked _ ih =>
      obtain ⟨⟨_, b', n'⟩, asked', rfl, goals, stores⟩ := alike.asks sim agree asked
      obtain ⟨sights', driven', same⟩ := ih goals stores
      refine ⟨_, .next asked' driven', .cons ?_ same⟩
      rw [goals.committed]
      exact same_of_agree acyclic stores
  | @abort a b m n _ _ given _ ih =>
      obtain ⟨goals, stores⟩ := alike.abort sim agree
      rw [given] at goals stores
      obtain ⟨sights', driven', same⟩ := ih goals stores
      refine ⟨_, .abort rfl driven', .cons ?_ same⟩
      rw [goals.committed]
      exact same_of_agree acyclic stores

/-- Whatever sights the first activation is driven to, the second is driven to the same ones by the
same demands. -/
def MirroredBy (registry : Registry U) (m : Machine) (a b : Activation U) : Prop :=
  ∀ demands sights, Driven registry a m demands sights →
    ∃ sights', Driven registry b m demands sights' ∧ List.Forall₂ Sight.Same sights sights'

end Activation

open Activation (MirroredBy)

variable {U : Type}

theorem tree_eq_of_equal {s : Store} {fuel : Nat} {l r : Term} (acyclic : s.Acyclic)
    (equal : s.equal fuel l r = some true) : l.subst s.trees = r.subst s.trees :=
  (Store.isEqual_iff acyclic).mp ⟨fuel, equal⟩

/-- Goals that are equal in a store without cyclic bindings are refused for the same reason, or give
activations that no demands can tell apart. -/
theorem equal_goals_mirrored [Plugin U] {m : Machine} {fuel : Nat} {goal goal' : Term}
    (acyclic : m.store.Acyclic) (equal : m.store.equal fuel goal goal' = some true) :
    (∃ halt, (Registry.builtins : Registry U).call goal m = some (.error halt, m) ∧
      (Registry.builtins : Registry U).call goal' m = some (.error halt, m)) ∨
    ∃ a a' : Activation U, Registry.builtins.call goal m = some (.ok a, m) ∧
      Registry.builtins.call goal' m = some (.ok a', m) ∧ a'.committed = a.committed ∧
      MirroredBy Registry.builtins m a a' ∧ MirroredBy Registry.builtins m a' a := by
  have like : m.store.upTo.terms goal goal' := tree_eq_of_equal acyclic equal
  have agree := Store.AgreeOver.refl acyclic
  obtain ⟨result, called⟩ := exists_call (U := U) acyclic.chainsEnd goal
  obtain ⟨-, result', called', started⟩ := (Store.simulates_upTo acyclic).call agree like called
  cases started with
  | error => exact .inl ⟨_, called, called'⟩
  | ok alike =>
      have back := alike.symm fun _ _ same => Eq.symm same
      exact .inr ⟨_, _, called, called', alike.committed,
        fun demands sights driven => driven.along acyclic alike agree,
        fun demands sights driven => driven.along acyclic back agree⟩

theorem equal_goals_mirrored_member : ∃ (m : Machine) (a a' : Activation Empty),
    m.store.lookup 0 = some (.list [.var 1, .int 2]) ∧ m.store.lookup 1 = some (.int 1) ∧
      Registry.builtins.call (.compound .member (.var 2) [.var 0]) m = some (.ok a, m) ∧
      Registry.builtins.call (.compound .member (.var 2) [.list [.int 1, .int 2]]) m =
        some (.ok a', m) ∧
      MirroredBy Registry.builtins m a a' ∧ MirroredBy Registry.builtins m a' a := by
  let s := (Store.empty.bind 1 (.int 1)).bind 0 (.list [.var 1, .int 2])
  have acyclic : s.Acyclic := by
    apply Store.acyclic_of_rank fun v => if v = 0 then 1 else 0
    rintro v w ⟨t, found, occurs⟩
    simp only [s, Store.lookup_bind] at found
    split at found
    · rename_i same
      cases found
      cases List.mem_singleton.mp occurs
      simp [← same]
    · split at found
      · cases found
        cases occurs
      · simp at found
  have equal : s.equal 9 (.compound .member (.var 2) [.var 0])
      (.compound .member (.var 2) [.list [.int 1, .int 2]]) = some true := by
    rfl
  rcases equal_goals_mirrored (U := Empty) (m := ⟨s, []⟩) acyclic equal with
    ⟨halt, called, -⟩ | ⟨a, a', called, called', -, mirrored⟩
  · cases called
  · exact ⟨⟨s, []⟩, a, a', rfl, rfl, called, called', mirrored⟩

end LogicSearch
