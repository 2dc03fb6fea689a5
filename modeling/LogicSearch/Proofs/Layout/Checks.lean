import LogicSearch.Proofs.Layout.Activation
import LogicSearch.Proofs.Layout.Term
import LogicSearch.Proofs.Search.Sound
import LogicSearch.Proofs.Store.Chain

namespace LogicSearch

namespace Store

def bindUnbound (s : Store) (v : Var) (t : Term) : Except Breach Store :=
  if s.isBound v then .error (.alreadyBound v) else .ok (s.bind v t)

def bindAndGo (s : Store) (pending : List (Term × Term)) (v : Var) (t : Term) :
    Turn (Store × List (Term × Term)) (Except Breach (Bool × Store)) :=
  match s.bindUnbound v t with
  | .ok s => .again (s, pending)
  | .error breach => .finish (.error breach)

def unifyEndsChecked (s : Store) (pending : List (Term × Term)) :
    Term → Term → Turn (Store × List (Term × Term)) (Except Breach (Bool × Store))
  | .var x, .var y => if x = y then .again (s, pending) else s.bindAndGo pending x (.var y)
  | .var x, t => s.bindAndGo pending x t
  | t, .var y => s.bindAndGo pending y t
  | l, r => (s.unifyEnds pending l r).map id .ok

def unifyStepChecked : Store × List (Term × Term) →
    Option (Turn (Store × List (Term × Term)) (Except Breach (Bool × Store)))
  | (s, []) => some (.finish (.ok (true, s)))
  | (s, (left, right) :: pending) =>
    match s.deref left, s.deref right with
    | some l, some r =>
        some (if left.sameVar right then .again (s, pending) else s.unifyEndsChecked pending l r)
    | _, _ => none

def unifyChecked (s : Store) (fuel : Nat) (left right : Term) :
    Option (Except Breach (Bool × Store)) :=
  Turn.iterate unifyStepChecked fuel (s, [(left, right)])

variable {s : Store} {l r : Term} {pending : List (Term × Term)}

theorem bindAndGo_of_unbound {v : Var} (unbound : s.lookup v = none) (t : Term) :
    s.bindAndGo pending v t = .again (s.bind v t, pending) := by
  simp [bindAndGo, bindUnbound, isBound, unbound]

theorem unifyEndsChecked_eq (left : s.IsEnd l) (right : s.IsEnd r) :
    s.unifyEndsChecked pending l r = (s.unifyEnds pending l r).map id .ok := by
  cases l with
  | var x =>
      cases r with
      | var y =>
          simp only [unifyEndsChecked, unifyEnds, bindAndGo_of_unbound left]
          split <;> rfl
      | _ => exact bindAndGo_of_unbound left _
  | _ =>
      cases r with
      | var y => exact bindAndGo_of_unbound right _
      | _ => rfl

theorem unifyStepChecked_eq (present : Store × List (Term × Term)) :
    unifyStepChecked present = (unifyStep present).map (Turn.map id .ok) := by
  obtain ⟨s, pending⟩ := present
  cases pending with
  | nil => rfl
  | cons pair pending =>
      obtain ⟨left, right⟩ := pair
      simp only [unifyStepChecked, unifyStep]
      cases first : s.deref left with
      | none => rfl
      | some l =>
          cases second : s.deref right with
          | none => rfl
          | some r =>
              simp only [unifyEndsChecked_eq (deref_isEnd first) (deref_isEnd second)]
              split <;> rfl

theorem unifyChecked_eq (s : Store) (fuel : Nat) (left right : Term) :
    s.unifyChecked fuel left right = (s.unify fuel left right).map .ok :=
  Turn.iterate_map (f := id) unifyStepChecked_eq fuel (s, [(left, right)])

end Store

variable {U : Type} [Plugin U]

/-- In a registry that fits, with goals from outside that do not misuse the engine, no check fails
and no operator or predicate is given other arguments than it takes. Goals may have been called,
asked and given up in any order, and the stores may be any. -/
theorem no_check_fails {registry : Registry U} (fits : registry.Fits)
    (plugins : Plugin.IsSound U) :
    (Registry.builtins : Registry U).Fits ∧
      (∀ u m, (∃ cause, registry.callEnd m u = (.error (.error cause), m)) ∨
        ∃ p, u.args.length = p.arity ∧ registry.callEnd m u = registry.start p u.args m) ∧
      (∀ t m result m', registry.call t m = some (result, m') → Sound result) ∧
      (∀ x, Laid.Reached registry x → x.InOrder ∧ ∃ a, x = .ofActivation a ∧ ∀ fuel m,
        x.next registry fuel m =
            (a.next registry fuel m).map (fun reply => .ok (reply.map .ofActivation)) ∧
          ∀ reply, a.next registry fuel m = some reply → Sound reply.answer) ∧
      (∀ (s : Store) fuel l r, s.unifyChecked fuel l r = (s.unify fuel l r).map .ok) ∧
      ∀ n : Node, n.Built → ∃ t, n = .ofTerm t ∧ ∀ s : Store,
        (∀ result, (∃ fuel, s.resolveNode fuel n = some result) ↔
          ∃ u, result = .ok (.ofTerm u) ∧ ∃ fuel, s.resolve fuel t = some u) ∧
        s.evalNode n = s.eval t ∧ ∀ result, s.evalNode n = some result → Sound result := by
  refine ⟨Registry.fits_builtins, fun u m => Registry.callEnd_eq_start registry m u,
    fun _ _ _ _ called => fits.sound_call called, ?_, Store.unifyChecked_eq, ?_⟩
  · intro x reached
    obtain ⟨a, rfl⟩ := reached.exists_activation
    refine ⟨Laid.inOrder_ofActivation a, a, rfl, ?_⟩
    intro fuel m
    exact ⟨Laid.next_ofActivation registry fuel a m,
      fun reply done => Activation.sound_next fits plugins done⟩
  · intro n built
    obtain ⟨t, rfl⟩ := Node.built_iff.mp built
    refine ⟨t, rfl, fun s => ⟨fun result => Store.resolveNode_ofTerm, s.evalNode_ofTerm t, ?_⟩⟩
    intro result done
    rw [s.evalNode_ofTerm] at done
    exact Store.sound_eval done

/-- The theorem at `digit(X), missing` in a registry that knows `digit/1` and no `missing/0`. The
goal on the right cannot be called, so asking halts with the digit found and its goal alone on the
stack; asked again, it comes to the next digit, and halts again. -/
theorem no_check_fails_driven_on_after_error :
    let registry := (Registry.builtins.register ⟨⟨"digit"⟩, 1⟩ Sample.digits).2
    let halts : Except Halt Bool := .error (.error (.unknownPredicate ⟨⟨"missing"⟩, 0⟩))
    ∃ (x : Laid Sample) (m : Machine) (reply : Reply Machine (Laid Sample)),
      Laid.Reached registry x ∧ x.InOrder ∧
      (∃ c, x = .conjunction c ∧ c.step = .left ∧ c.goals.length = 1) ∧
      m.store.lookup 0 = some (.int 0) ∧ x.next registry 9 m = some (.ok reply) ∧
      reply.answer = halts ∧ Sound reply.answer ∧
      reply.state.store.lookup 0 = some (.int 1) := by
  intro registry halts
  let left : Term := .compound ⟨"digit"⟩ (.var 0) []
  let right : Term := .atom ⟨"missing"⟩
  let found (upcoming : Nat) : Laid Sample :=
    .conjunction ⟨left, right, [.plugged (.digit ⟨.var 0, some ⟨[0]⟩, upcoming⟩)], .left, false⟩
  let zero : Machine := ⟨Store.empty.bind 0 (.int 0), []⟩
  let one : Machine := ⟨(zero.store.unbind 0).bind 0 (.int 1), []⟩
  have called : Laid.call registry (.compound .comma left [right]) Machine.empty =
      some (.ok (.conjunction (.start left right)), Machine.empty) := rfl
  have first : (Laid.conjunction (.start left right)).next registry 9 Machine.empty =
      some (.ok ⟨halts, found 1, zero⟩) := rfl
  have second : (found 1).next registry 9 zero = some (.ok ⟨halts, found 2, one⟩) := rfl
  have reached : Laid.Reached registry (found 1) := .asked (.called called) first
  have fits : registry.Fits :=
    Registry.fits_builtins.register (show Sample.digits.fits 1 = true from rfl)
  obtain ⟨-, -, -, goals, -, -⟩ := no_check_fails fits Sample.isSound
  obtain ⟨inOrder, a, -, replies⟩ := goals (found 1) reached
  obtain ⟨laid, sound⟩ := replies 9 zero
  obtain ⟨reply, answered, same⟩ := Option.map_eq_some_iff.mp (laid.symm.trans second)
  have answer : reply.answer = halts := congrArg Reply.answer (Except.ok.inj same)
  exact ⟨found 1, zero, ⟨halts, found 2, one⟩, reached, inOrder, ⟨_, rfl, rfl, rfl⟩, rfl, second,
    rfl, answer ▸ sound reply answered, rfl⟩

end LogicSearch
