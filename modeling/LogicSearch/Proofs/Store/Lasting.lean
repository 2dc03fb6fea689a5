import LogicSearch.Proofs.Store.Attempt
import LogicSearch.Proofs.Store.Terminates
import LogicSearch.Proofs.Store.UpTo

/-!
What no operation on a store breaks. Unification binds only variables that are free, and binds them
to the end of a chain; restoring only makes variables free. A property that survives both survives
every operation, in whatever order and with whatever outcome.
-/

namespace LogicSearch

namespace Store

/-- A property of stores that survives binding a free variable and making a loose one free. Free
variables are loose. -/
structure Lasts (P : Store → Prop) (loose : Var → Prop) : Prop where
  bind : ∀ {s x u}, P s → s.lookup x = none → s.IsEnd u → u ≠ .var x → P (s.bind x u)
  unbind : ∀ {s v}, P s → loose v → P (s.unbind v)
  free : ∀ {s v}, P s → s.lookup v = none → loose v

theorem lasts_chainsEnd : Lasts ChainsEnd fun _ => True where
  bind chains unbound atEnd other := chains.bind unbound atEnd other
  unbind chains _ := chains.unbind _
  free _ _ := trivial

theorem lasts_binding (v : Var) (u : Term) : Lasts (fun s => s.lookup v = some u) (· ≠ v) where
  bind bound unbound _ _ := le_bind unbound _ v u bound
  unbind bound other := by rwa [lookup_unbind, if_neg other]
  free bound unbound := by
    rintro rfl
    rw [bound] at unbound
    cases unbound

variable {P : Store → Prop} {loose : Var → Prop} {s t : Store} {l r u : Term}

theorem Lasts.meets (lasts : Lasts P loose) {pending : List (Term × Term)}
    {turn : Turn (Store × List (Term × Term)) (Bool × Store)} (meets : Meets s pending l r turn)
    (leftEnd : s.IsEnd l) (rightEnd : s.IsEnd r) (holds : P s) :
    (∀ next, turn = .again next → P next.1) ∧ ∀ result, turn = .finish result → P result.2 := by
  cases meets with
  | same | args => exact ⟨by rintro _ ⟨⟩; exact holds, by rintro _ ⟨⟩⟩
  | bindLeft other =>
      exact ⟨by rintro _ ⟨⟩; exact lasts.bind holds leftEnd rightEnd other, by rintro _ ⟨⟩⟩
  | bindRight other =>
      exact ⟨by rintro _ ⟨⟩; exact lasts.bind holds rightEnd leftEnd other, by rintro _ ⟨⟩⟩
  | clash => exact ⟨by rintro _ ⟨⟩, by rintro _ ⟨⟩; exact holds⟩

theorem Lasts.unify (lasts : Lasts P loose) (holds : P s) {fuel : Nat} {answer : Bool}
    (unified : s.unify fuel l r = some (answer, t)) : P t := by
  apply (leads_of_unify unified).invariant (fun state => P state.1) (fun result => P result.2)
  · rintro ⟨now, pending⟩ next holds taken
    cases pending with
    | nil => cases taken
    | cons pair pending =>
        obtain ⟨_, _, left, right, meets⟩ := unifyStep_meets taken
        exact (lasts.meets meets (deref_isEnd left) (deref_isEnd right) holds).1 next rfl
  · rintro ⟨now, pending⟩ result holds taken
    cases pending with
    | nil =>
        cases unifyStep_nil taken
        exact holds
    | cons pair pending =>
        obtain ⟨_, _, left, right, meets⟩ := unifyStep_meets taken
        exact (lasts.meets meets (deref_isEnd left) (deref_isEnd right) holds).2 result rfl
  · exact holds

theorem Lasts.snapshot (lasts : Lasts P loose) (holds : P s) {fuel : Nat} {p : Snapshot}
    (snapped : s.snapshot fuel u = some p) : ∀ v ∈ p.vars, loose v := fun _ member =>
  lasts.free holds ((mem_snapshot snapped).mp member).lookup

theorem Lasts.restore (lasts : Lasts P loose) (holds : P s) {p : Snapshot}
    (covers : ∀ v ∈ p.vars, loose v) : P (s.restore p) := by
  obtain ⟨vars⟩ := p
  simp only [Store.restore]
  induction vars generalizing s with
  | nil => exact holds
  | cons v vars ih =>
      obtain ⟨first, rest⟩ := List.forall_mem_cons.mp covers
      exact ih (lasts.unbind holds first) rest

theorem Lasts.tryUnify (lasts : Lasts P loose) (holds : P s) {fuel : Nat} {undo : Option Snapshot}
    (tried : s.tryUnify fuel l r = some (undo, t)) :
    P t ∧ ∀ p, undo = some p → ∀ v ∈ p.vars, loose v := by
  rcases tryUnify_cases tried with ⟨p, bound, same, unified, -⟩ | ⟨bound, same, -⟩
  · cases same
    refine ⟨lasts.unify holds unified, ?_⟩
    rintro p ⟨⟩ v covered
    rcases (mem_tryUnify tried v).mp covered with free | free
    · exact lasts.free holds free.lookup
    · exact lasts.free holds free.lookup
  · cases same
    exact ⟨holds, by rintro _ ⟨⟩⟩

theorem ChainsEnd.no_cycle (chains : s.ChainsEnd) (v : Var) :
    ¬ Relation.TransGen (fun x y => s.lookup x = some (.var y)) v v := by
  intro cycle
  obtain ⟨n, w, ends⟩ := chains.length v
  -- The chain of a variable is longer than that of a variable it leads to.
  have longer : ∀ {x}, Relation.TransGen (fun x y => s.lookup x = some (.var y)) x v →
      ∃ m, n < m ∧ s.EndsIn m (.var x) w := by
    intro x path
    induction path using Relation.TransGen.head_induction_on with
    | single found => exact ⟨n + 1, Nat.lt_succ_self n, .step found ends⟩
    | head found _ ih =>
        obtain ⟨m, more, ends⟩ := ih
        exact ⟨m + 1, Nat.lt_succ_of_lt more, .step found ends⟩
  obtain ⟨m, more, ends'⟩ := longer cycle
  exact Nat.ne_of_lt more (ends.length_eq ends')

end Store

end LogicSearch
