import LogicSearch.Proofs.Search.Moves

namespace LogicSearch

namespace Activation

variable {U : Type} [Plugin U] {registry : Registry U} {a : Activation U} {m : Machine}
  {reply : Reply Machine (Activation U)}

/-- Asking the activation returns with this reply. -/
def Asks (registry : Registry U) (a : Activation U) (m : Machine)
    (reply : Reply Machine (Activation U)) : Prop :=
  ∃ fuel, a.next registry fuel m = some reply

def protocol (registry : Registry U) : Protocol Machine (Activation U) where
  call t m called := registry.call t m = some called
  asks := Asks registry
  abort := abort
  committed := committed

theorem Asks.unique {reply' : Reply Machine (Activation U)} (first : Asks registry a m reply)
    (second : Asks registry a m reply') : reply = reply' := by
  obtain ⟨fuel, done⟩ := first
  obtain ⟨more, done'⟩ := second
  have left := next_mono (Nat.le_max_left fuel more) done
  have right := next_mono (Nat.le_max_right fuel more) done'
  rw [left] at right
  injection right

theorem protocol_within (fuel : Nat) :
    (solver registry fuel).protocol.Within (protocol registry) :=
  ⟨fun _ _ _ called => called, fun _ _ _ asked => ⟨fuel, asked⟩, rfl, rfl⟩

theorem solver_within {fuel more : Nat} (enough : fuel ≤ more) :
    (solver registry fuel).Within (solver registry more) :=
  ⟨rfl, rfl, rfl, fun _ _ _ answered => next_mono enough answered⟩

private theorem conjunction_step {present : Conjunction (Activation U) × Machine}
    {turn : Turn (Conjunction (Activation U) × Machine)
      (Reply Machine (Conjunction (Activation U)))}
    (moves : Conjunction.Moves (protocol registry) present turn) :
    ∃ fuel, Conjunction.step (solver registry fuel) present = some turn := by
  cases moves with
  | done => exact ⟨0, rfl⟩
  | calls called => exact ⟨0, Conjunction.step_of_moves (.calls called)⟩
  | refused called => exact ⟨0, Conjunction.step_of_moves (.refused called)⟩
  | leftHalts asked =>
      obtain ⟨fuel, asked⟩ := asked
      exact ⟨fuel, Conjunction.step_of_moves (.leftHalts asked)⟩
  | leftFails asked =>
      obtain ⟨fuel, asked⟩ := asked
      exact ⟨fuel, Conjunction.step_of_moves (.leftFails asked)⟩
  | leftAnswers asked called =>
      obtain ⟨fuel, asked⟩ := asked
      exact ⟨fuel, Conjunction.step_of_moves (.leftAnswers asked called)⟩
  | rightRefused asked called =>
      obtain ⟨fuel, asked⟩ := asked
      exact ⟨fuel, Conjunction.step_of_moves (.rightRefused asked called)⟩
  | rightHalts asked =>
      obtain ⟨fuel, asked⟩ := asked
      exact ⟨fuel, Conjunction.step_of_moves (.rightHalts asked)⟩
  | rightAnswers asked =>
      obtain ⟨fuel, asked⟩ := asked
      exact ⟨fuel, Conjunction.step_of_moves (.rightAnswers asked)⟩
  | rightFails asked cut =>
      obtain ⟨fuel, asked⟩ := asked
      exact ⟨fuel, Conjunction.step_of_moves (.rightFails asked cut)⟩
  | rightCommits asked cut =>
      obtain ⟨fuel, asked⟩ := asked
      exact ⟨fuel, Conjunction.step_of_moves (.rightCommits asked cut)⟩

theorem asks_conjunction {c : Conjunction (Activation U)} :
    Asks registry (.conjunction c) m reply ↔
      ∃ r, Turn.Leads (Conjunction.Moves (protocol registry)) (c, m) r ∧
        reply = r.map .conjunction := by
  constructor
  · rintro ⟨fuel, done⟩
    cases fuel with
    | zero => cases done
    | succ fuel =>
        obtain ⟨r, answered, same⟩ := Option.map_eq_some_iff.mp done
        exact ⟨r, Turn.leads_of_iterate (fun _ _ taken =>
          (Conjunction.moves_of_step taken).within (protocol_within fuel)) answered, same.symm⟩
  · rintro ⟨r, leads, rfl⟩
    obtain ⟨fuel, answered⟩ := Turn.iterate_of_leads
      (fun fuel => Conjunction.step (solver registry fuel))
      (fun enough => Conjunction.step_within (solver_within enough))
      (fun _ _ moves => conjunction_step moves) leads
    exact ⟨fuel + 1, Option.map_eq_some_iff.mpr ⟨r, answered, rfl⟩⟩

private theorem disjunction_step {present : Disjunction (Activation U) × Machine}
    {turn : Turn (Disjunction (Activation U) × Machine)
      (Reply Machine (Disjunction (Activation U)))}
    (moves : Disjunction.Moves (protocol registry) present turn) :
    ∃ fuel, Disjunction.step (solver registry fuel) present = some turn := by
  cases moves with
  | done => exact ⟨0, rfl⟩
  | calls called => exact ⟨0, Disjunction.step_of_moves (.calls called)⟩
  | refused called => exact ⟨0, Disjunction.step_of_moves (.refused called)⟩
  | callsRight called => exact ⟨0, Disjunction.step_of_moves (.callsRight called)⟩
  | rightRefused called => exact ⟨0, Disjunction.step_of_moves (.rightRefused called)⟩
  | leftHalts asked =>
      obtain ⟨fuel, asked⟩ := asked
      exact ⟨fuel, Disjunction.step_of_moves (.leftHalts asked)⟩
  | leftAnswers asked =>
      obtain ⟨fuel, asked⟩ := asked
      exact ⟨fuel, Disjunction.step_of_moves (.leftAnswers asked)⟩
  | leftFails asked cut =>
      obtain ⟨fuel, asked⟩ := asked
      exact ⟨fuel, Disjunction.step_of_moves (.leftFails asked cut)⟩
  | leftCommits asked cut =>
      obtain ⟨fuel, asked⟩ := asked
      exact ⟨fuel, Disjunction.step_of_moves (.leftCommits asked cut)⟩
  | rightHalts asked =>
      obtain ⟨fuel, asked⟩ := asked
      exact ⟨fuel, Disjunction.step_of_moves (.rightHalts asked)⟩
  | rightAnswers asked =>
      obtain ⟨fuel, asked⟩ := asked
      exact ⟨fuel, Disjunction.step_of_moves (.rightAnswers asked)⟩
  | rightFails asked =>
      obtain ⟨fuel, asked⟩ := asked
      exact ⟨fuel, Disjunction.step_of_moves (.rightFails asked)⟩

theorem asks_disjunction {d : Disjunction (Activation U)} :
    Asks registry (.disjunction d) m reply ↔
      ∃ r, Turn.Leads (Disjunction.Moves (protocol registry)) (d, m) r ∧
        reply = r.map .disjunction := by
  constructor
  · rintro ⟨fuel, done⟩
    cases fuel with
    | zero => cases done
    | succ fuel =>
        obtain ⟨r, answered, same⟩ := Option.map_eq_some_iff.mp done
        exact ⟨r, Turn.leads_of_iterate (fun _ _ taken =>
          (Disjunction.moves_of_step taken).within (protocol_within fuel)) answered, same.symm⟩
  · rintro ⟨r, leads, rfl⟩
    obtain ⟨fuel, answered⟩ := Turn.iterate_of_leads
      (fun fuel => Disjunction.step (solver registry fuel))
      (fun enough => Disjunction.step_within (solver_within enough))
      (fun _ _ moves => disjunction_step moves) leads
    exact ⟨fuel + 1, Option.map_eq_some_iff.mpr ⟨r, answered, rfl⟩⟩

end Activation

end LogicSearch
