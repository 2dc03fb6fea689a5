import LogicSearch.Plugin

namespace LogicSearch

namespace Activation

variable {U : Type} [Plugin U]

def asGoals (registry : Registry U)
    (next : Activation U → Machine → Option (Reply Machine (Activation U))) :
    Solver Machine (Activation U) :=
  ⟨registry.call, next, abort, committed⟩

def next (registry : Registry U) :
    Nat → Activation U → Machine → Option (Reply Machine (Activation U))
  | 0, _, _ => none
  | fuel + 1, a, m =>
    match a with
    | test t true => some ⟨.ok false, test t true, m⟩
    | test t false =>
        (t.run fuel m.store).map fun r => ⟨r.1, test t true, m.withStore r.2⟩
    | equation e phase =>
        (e.next fuel m.store phase).map fun r => ⟨r.1, equation e r.2.1, m.withStore r.2.2⟩
    | member element phase =>
        (Member.next fuel element m.store phase).map fun r =>
          ⟨.ok r.1, member element r.2.1, m.withStore r.2.2⟩
    | conjunction c =>
        (c.next (asGoals registry (next registry fuel)) fuel m).map (Reply.map conjunction)
    | disjunction d =>
        (d.next (asGoals registry (next registry fuel)) fuel m).map (Reply.map disjunction)
    | plugged u =>
        (Plugin.next registry (asGoals registry (next registry fuel)) fuel u m).map
          (Reply.map plugged)

/-- What a goal that is asked with one more unit of fuel drives its own goals by. -/
def solver (registry : Registry U) (fuel : Nat) : Solver Machine (Activation U) :=
  asGoals registry (next registry fuel)

theorem next_mono {registry : Registry U} {fuel more : Nat} (enough : fuel ≤ more)
    {a : Activation U} {m : Machine} {reply : Reply Machine (Activation U)}
    (done : a.next registry fuel m = some reply) : a.next registry more m = some reply := by
  induction fuel generalizing more a m reply with
  | zero => cases done
  | succ fuel ih =>
      obtain ⟨more, rfl⟩ : ∃ n, more = n + 1 := ⟨more - 1, by omega⟩
      have less : fuel ≤ more := by omega
      have within : (solver registry fuel).Within (solver registry more) :=
        ⟨rfl, rfl, rfl, fun _ _ _ answered => ih less answered⟩
      cases a with
      | test t called =>
          cases called with
          | true => exact done
          | false => exact map_some_mono (fun _ => Test.run_mono less) done
      | equation e phase => exact map_some_mono (fun _ => Equation.next_mono less) done
      | member element phase => exact map_some_mono (fun _ => Member.next_mono less) done
      | conjunction c => exact map_some_mono (fun _ => Conjunction.next_within within less) done
      | disjunction d => exact map_some_mono (fun _ => Disjunction.next_within within less) done
      | plugged u => exact map_some_mono (fun _ => Plugin.next_mono within less) done

theorem abort_conjunction (registry : Registry U) (fuel : Nat) (c : Conjunction (Activation U))
    (m : Machine) : (conjunction c).abort m =
      (conjunction (c.abort (solver registry fuel) m).1, (c.abort (solver registry fuel) m).2) := by
  obtain ⟨left, right, phase⟩ := c
  cases phase <;>
    simp [abort, Conjunction.abort, Conjunction.goals, Conjunction.close, Conjunction.committed,
      solver, asGoals]

theorem abort_disjunction (registry : Registry U) (fuel : Nat) (d : Disjunction (Activation U))
    (m : Machine) : (disjunction d).abort m =
      (disjunction (d.abort (solver registry fuel) m).1, (d.abort (solver registry fuel) m).2) := by
  obtain ⟨left, right, phase⟩ := d
  cases phase <;>
    simp [abort, Disjunction.abort, Disjunction.goals, Disjunction.close, Disjunction.committed,
      solver, asGoals]

end Activation

end LogicSearch
