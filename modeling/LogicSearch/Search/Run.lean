import LogicSearch.Search.Drive

namespace LogicSearch

inductive Run.End where
  | failed
  /-- A cut discarded what was left. -/
  | committed
  | halted (halt : Halt)
  deriving DecidableEq

structure Run where
  answers : List Machine
  ending : Run.End

namespace Run

variable {U : Type} [Plugin U]

def step (registry : Registry U) (fuel : Nat) :
    List Machine × Activation U × Machine →
      Option (Turn (List Machine × Activation U × Machine) (Run × Machine))
  | (answers, a, m) =>
    match a.next registry fuel m with
    | none => none
    | some ⟨.ok true, a, m⟩ => some (.again (m :: answers, a, m))
    | some ⟨.ok false, a, m⟩ =>
        some (.finish (⟨answers.reverse, if a.committed then .committed else .failed⟩, m))
    | some ⟨.error halt, _, m⟩ => some (.finish (⟨answers.reverse, .halted halt⟩, m))

theorem step_mono {registry : Registry U} {fuel more : Nat} (enough : fuel ≤ more)
    (present : List Machine × Activation U × Machine)
    (turn : Turn (List Machine × Activation U × Machine) (Run × Machine))
    (done : step registry fuel present = some turn) : step registry more present = some turn := by
  obtain ⟨answers, a, m⟩ := present
  simp only [step] at done ⊢
  cases answered : a.next registry fuel m with
  | none => simp [answered] at done
  | some reply =>
      rw [answered] at done
      rw [Activation.next_mono enough answered]
      exact done

def ofActivation (registry : Registry U) (fuel : Nat) (a : Activation U) (m : Machine) :
    Option (Run × Machine) :=
  Turn.iterate (step registry fuel) fuel ([], a, m)

def ofGoal (registry : Registry U) (fuel : Nat) (goal : Term) (m : Machine) :
    Option (Run × Machine) :=
  match registry.call goal m with
  | none => none
  | some (.error halt, m) => some (⟨[], .halted halt⟩, m)
  | some (.ok a, m) => ofActivation registry fuel a m

end Run

end LogicSearch
