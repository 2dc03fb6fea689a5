import LogicSearch.Plugin.Samples
import LogicSearch.Proofs.Search.Undo

namespace LogicSearch

variable {U : Type}

/-- Every factory stands under an arity that it may stand under. -/
def Registry.Fits (r : Registry U) : Prop :=
  ∀ entry ∈ r.entries, entry.2.fits entry.1.arity = true

namespace Registry

variable {r : Registry U} {p : Indicator} {factory : Factory U}

theorem fits_builtins : (builtins : Registry U).Fits := by
  simp [Fits, builtins, Library.standard, Library.all, Library.predicates, Factory.fits,
    Builtin.test, Builtin.ofKind, Builtin.compare, Builtin.notUnifiable, Builtin.unify,
    Builtin.evaluate, Builtin.member, Builtin.conjunction, Builtin.disjunction]

theorem mem_replace {entry : Indicator × Factory U} {entries : List (Indicator × Factory U)}
    (member : entry ∈ replace p factory entries) : entry ∈ entries ∨ entry = (p, factory) := by
  induction entries with
  | nil => cases member
  | cons first entries ih =>
      simp only [replace] at member
      split at member
      · rcases List.mem_cons.mp member with same | member
        · exact .inr same
        · exact .inl (List.mem_cons_of_mem _ member)
      · rcases List.mem_cons.mp member with same | member
        · exact .inl (same ▸ List.mem_cons_self)
        · exact (ih member).imp_left (List.mem_cons_of_mem _)

theorem Fits.register (fits : r.Fits) (may : factory.fits p.arity = true) :
    (r.register p factory).2.Fits := by
  have new : (p, factory).2.fits (p, factory).1.arity = true := may
  simp only [Registry.register]
  split
  · split
    · exact fits
    · intro entry member
      rcases mem_replace member with member | rfl
      · exact fits entry member
      · exact new
  · intro entry member
    rcases List.mem_append.mp member with member | member
    · exact fits entry member
    · exact List.mem_singleton.mp member ▸ new

end Registry

theorem Factory.exists_start {factory : Factory U} {args : List Term}
    (fits : factory.fits args.length = true) (m : Machine) :
    ∃ a m', factory.start args m = (.ok a, m') := by
  cases factory with
  | variadic create => exact ⟨_, _, rfl⟩
  | nullary create =>
      obtain rfl := List.length_eq_zero_iff.mp (beq_iff_eq.mp fits)
      exact ⟨_, _, rfl⟩
  | unary create =>
      obtain ⟨x, rfl⟩ := List.length_eq_one_iff.mp (beq_iff_eq.mp fits)
      exact ⟨_, _, rfl⟩
  | binary create =>
      obtain ⟨x, y, rfl⟩ := List.length_eq_two.mp (beq_iff_eq.mp fits)
      exact ⟨_, _, rfl⟩

namespace Registry

variable {r : Registry U} {p : Indicator}

theorem Fits.sound_start (fits : r.Fits) {args : List Term} (length : args.length = p.arity)
    (m : Machine) : Sound (r.start p args m).1 := by
  simp only [start]
  cases known : r.factory? p with
  | none => exact sound_error _
  | some factory =>
      have may : factory.fits args.length = true := length ▸ fits _ (mem_of_factory? known)
      obtain ⟨a, m', started⟩ := Factory.exists_start may m
      simp only [started]
      exact sound_ok a

theorem Fits.sound_call (fits : r.Fits) {t : Term} {m m' : Machine}
    {result : Except Halt (Activation U)} (called : r.call t m = some (result, m')) :
    Sound result := by
  obtain ⟨u, -, same⟩ := Option.map_eq_some_iff.mp called
  rcases callEnd_eq_start r m u with ⟨cause, refused⟩ | ⟨p, length, started⟩
  · rw [refused] at same
    cases same
    exact sound_error cause
  · have sound := fits.sound_start length m
    rwa [← started, same] at sound

end Registry

/-- A registry that does not fit: the predicate is given an argument that it does not take. -/
example (t : Term) (m : Machine) :
    (⟨.reject, [(⟨.truth, 1⟩, Builtin.test .truth)]⟩ : Registry Empty).call
        (.compound .truth t []) m = some (.error (.defect (.wrongArity 0 1)), m) := rfl

section Combinators

variable {σ G : Type} {solver : Solver σ G}

structure Solver.IsSound (solver : Solver σ G) : Prop where
  call : ∀ t s result s', solver.call t s = some (result, s') → Sound result
  next : ∀ goal s reply, solver.next goal s = some reply → Sound reply.answer

theorem Conjunction.sound_next (sound : solver.IsSound) {fuel : Nat} {c : Conjunction G} {s : σ}
    {reply : Reply σ (Conjunction G)} (done : c.next solver fuel s = some reply) :
    Sound reply.answer := by
  refine (Turn.leads_of_iterate (fun _ _ => moves_of_step) done).invariant (fun _ => True)
    (fun reply => Sound reply.answer) (fun _ _ _ _ => trivial) ?_ trivial
  intro present reply _ moves
  cases moves with
  | done | leftFails | rightAnswers | rightCommits => exact sound_ok _
  | refused called | rightRefused _ called => exact (sound.call _ _ _ _ called).error
  | leftHalts asked | rightHalts asked => exact sound.next _ _ _ asked

theorem Disjunction.sound_next (sound : solver.IsSound) {fuel : Nat} {d : Disjunction G} {s : σ}
    {reply : Reply σ (Disjunction G)} (done : d.next solver fuel s = some reply) :
    Sound reply.answer := by
  refine (Turn.leads_of_iterate (fun _ _ => moves_of_step) done).invariant (fun _ => True)
    (fun reply => Sound reply.answer) (fun _ _ _ _ => trivial) ?_ trivial
  intro present reply _ moves
  cases moves with
  | done | leftAnswers | leftCommits | rightAnswers | rightFails => exact sound_ok _
  | refused called | rightRefused called => exact (sound.call _ _ _ _ called).error
  | leftHalts asked | rightHalts asked => exact sound.next _ _ _ asked

end Combinators

theorem Equation.sound_next {fuel : Nat} {e : Equation} {s : Store} {phase : Phase}
    {r : Except Halt Bool × Phase × Store} (done : e.next fuel s phase = some r) : Sound r.1 := by
  cases phase with
  | spent | bound =>
      cases done
      exact sound_ok _
  | fresh =>
      simp only [next] at done
      split at done
      · cases done
      · rename_i halted
        cases done
        exact (Activation.sound_of_sides halted).error
      · split at done <;> cases done <;> exact sound_ok _

variable [Plugin U]

/-- No goal from outside ever reports a misuse of the engine, as long as the goals that it calls
report none. -/
def Plugin.IsSound (U : Type) [Plugin U] : Prop :=
  ∀ (registry : Registry U) (goals : Solver Machine (Activation U)), registry.Fits →
    goals.IsSound → ∀ fuel (u : U) m reply,
      Plugin.next registry goals fuel u m = some reply → Sound reply.answer

theorem Activation.sound_next {registry : Registry U} (fits : registry.Fits)
    (plugins : Plugin.IsSound U) {fuel : Nat} {a : Activation U} {m : Machine}
    {reply : Reply Machine (Activation U)} (done : a.next registry fuel m = some reply) :
    Sound reply.answer := by
  induction fuel generalizing a m reply with
  | zero => cases done
  | succ fuel ih =>
      have goals : (solver registry fuel).IsSound :=
        ⟨fun _ _ _ _ called => fits.sound_call called, fun _ _ _ asked => ih asked⟩
      cases a with
      | test t called =>
          cases called with
          | true =>
              cases done
              exact sound_ok _
          | false =>
              obtain ⟨r, ran, rfl⟩ := Option.map_eq_some_iff.mp done
              exact (keeps_of_run ran).2
      | equation e phase =>
          obtain ⟨r, answered, rfl⟩ := Option.map_eq_some_iff.mp done
          exact e.sound_next answered
      | member element phase =>
          obtain ⟨r, -, rfl⟩ := Option.map_eq_some_iff.mp done
          exact sound_ok _
      | conjunction c =>
          obtain ⟨reply, answered, rfl⟩ := Option.map_eq_some_iff.mp done
          exact Conjunction.sound_next goals answered
      | disjunction d =>
          obtain ⟨reply, answered, rfl⟩ := Option.map_eq_some_iff.mp done
          exact Disjunction.sound_next goals answered
      | plugged u =>
          obtain ⟨reply, answered, rfl⟩ := Option.map_eq_some_iff.mp done
          exact plugins registry _ fits goals fuel u m reply answered

theorem Sample.isSound : Plugin.IsSound Sample := by
  intro registry goals _ _ fuel u m reply done
  cases u with
  | digit d =>
      obtain ⟨reply, answered, rfl⟩ := Option.map_eq_some_iff.mp done
      simp only [Digit.next] at answered
      split at answered
      · cases answered
      · obtain ⟨r, -, rfl⟩ := Option.map_eq_some_iff.mp answered
        exact sound_ok _
  | probe p =>
      obtain ⟨reply, answered, rfl⟩ := Option.map_eq_some_iff.mp done
      simp only [Probe.next] at answered
      split at answered
      · cases answered
      · cases answered
        exact sound_ok _
      · obtain ⟨event, -, rfl⟩ := Option.map_eq_some_iff.mp answered
        change Sound (Probe.answer event)
        unfold Probe.answer
        split
        · exact sound_error _
        · exact sound_ok _

end LogicSearch
