import LogicSearch.Loop
import Mathlib.Logic.Relation
import Mathlib.Order.RelClasses

/-!
Loops without their bound. What a loop leads to is a relation, so that "returns" means that some
number of turns is enough, and what its turns keep holds of its result.
-/

namespace LogicSearch

namespace Turn

variable {α β : Type}

/-- The turns that lead from a state to a result, however many they are. -/
inductive Leads (takes : α → Turn α β → Prop) : α → β → Prop where
  | again {a next : α} {result : β} :
      takes a (.again next) → Leads takes next result → Leads takes a result
  | finish {a : α} {result : β} : takes a (.finish result) → Leads takes a result

theorem leads_of_iterate {takes : α → Turn α β → Prop} {step : α → Option (Turn α β)}
    (sound : ∀ a turn, step a = some turn → takes a turn) {fuel : Nat} {a : α} {result : β}
    (done : iterate step fuel a = some result) : Leads takes a result := by
  induction fuel generalizing a with
  | zero => cases done
  | succ fuel ih =>
      simp only [iterate] at done
      split at done
      · cases done
      · rename_i next turn
        exact .again (sound _ _ turn) (ih done)
      · rename_i found turn
        cases done
        exact .finish (sound _ _ turn)

/-- A step may need fuel of its own; the loop then gets the larger of what its turns need. -/
theorem iterate_of_leads {takes : α → Turn α β → Prop} (step : Nat → α → Option (Turn α β))
    (kept : ∀ {fuel more}, fuel ≤ more → ∀ a turn, step fuel a = some turn →
      step more a = some turn)
    (complete : ∀ a turn, takes a turn → ∃ fuel, step fuel a = some turn) {a : α} {result : β}
    (leads : Leads takes a result) : ∃ fuel, iterate (step fuel) fuel a = some result := by
  induction leads with
  | again taken _ ih =>
      obtain ⟨first, turn⟩ := complete _ _ taken
      obtain ⟨later, rest⟩ := ih
      have enough : later ≤ max first later := by omega
      refine ⟨max first later + 1, ?_⟩
      simp only [iterate, kept (show first ≤ max first later + 1 by omega) _ _ turn]
      exact iterate_mono (kept (by omega)) enough rest
  | finish taken =>
      obtain ⟨fuel, turn⟩ := complete _ _ taken
      refine ⟨fuel + 1, ?_⟩
      simp only [iterate, kept (Nat.le_succ fuel) _ _ turn]

theorem leads_iff {step : α → Option (Turn α β)} {a : α} {result : β} :
    Leads (fun a turn => step a = some turn) a result ↔
      ∃ fuel, iterate step fuel a = some result := by
  constructor
  · exact iterate_of_leads (fun _ => step) (fun _ _ _ taken => taken) fun _ _ taken => ⟨0, taken⟩
  · rintro ⟨fuel, done⟩
    exact leads_of_iterate (fun _ _ taken => taken) done

theorem Leads.invariant {takes : α → Turn α β → Prop} (Keeps : α → Prop) (Post : β → Prop)
    (again : ∀ a next, Keeps a → takes a (.again next) → Keeps next)
    (finish : ∀ a result, Keeps a → takes a (.finish result) → Post result) {a : α} {result : β}
    (leads : Leads takes a result) (start : Keeps a) : Post result := by
  induction leads with
  | again taken _ ih => exact ih (again _ _ start taken)
  | finish taken => exact finish _ _ start taken

theorem leads_of_descends {γ : Type} [LT γ] [WellFoundedLT γ] {takes : α → Turn α β → Prop}
    (measure : α → γ) (Keeps : α → Prop) (returns : ∀ a, Keeps a → ∃ turn, takes a turn)
    (descends : ∀ a next, Keeps a → takes a (.again next) →
      Keeps next ∧ measure next < measure a) {a : α} (start : Keeps a) :
    ∃ result, Leads takes a result := by
  induction size : measure a using WellFoundedLT.induction generalizing a with
  | _ n ih =>
      obtain ⟨turn, taken⟩ := returns a start
      cases turn with
      | finish result => exact ⟨result, .finish taken⟩
      | again next =>
          obtain ⟨kept, smaller⟩ := descends a next start taken
          obtain ⟨result, leads⟩ := ih _ (size ▸ smaller) kept rfl
          exact ⟨result, .again taken leads⟩

def Goes (step : α → Option (Turn α β)) (a b : α) : Prop := step a = some (.again b)

section Paths

variable {step : α → Option (Turn α β)} {a b : α} {result other : β}

theorem Leads.after (path : Relation.ReflTransGen (Goes step) a b)
    (leads : Leads (fun a turn => step a = some turn) b result) :
    Leads (fun a turn => step a = some turn) a result := by
  induction path using Relation.ReflTransGen.head_induction_on with
  | refl => exact leads
  | head goes _ ih => exact .again goes ih

theorem Leads.rest (path : Relation.ReflTransGen (Goes step) a b)
    (leads : Leads (fun a turn => step a = some turn) a result) :
    Leads (fun a turn => step a = some turn) b result := by
  induction path with
  | refl => exact leads
  | tail _ goes ih =>
      cases ih with
      | again taken later =>
          cases goes.symm.trans taken
          exact later
      | finish taken => cases goes.symm.trans taken

theorem Leads.unique (leads : Leads (fun a turn => step a = some turn) a result)
    (leads' : Leads (fun a turn => step a = some turn) a other) : result = other := by
  induction leads with
  | again taken _ ih => exact ih (leads'.rest (.single taken))
  | finish taken =>
      cases leads' with
      | again taken' _ => cases taken.symm.trans taken'
      | finish taken' =>
          cases taken.symm.trans taken'
          rfl

end Paths

def map {α' β' : Type} (f : α → α') (g : β → β') : Turn α β → Turn α' β'
  | again next => again (f next)
  | finish result => finish (g result)

theorem iterate_map {α' β' : Type} {f : α → α'} {g : β → β'} {step : α → Option (Turn α β)}
    {step' : α' → Option (Turn α' β')} (same : ∀ a, step' (f a) = (step a).map (map f g))
    (fuel : Nat) (a : α) : iterate step' fuel (f a) = (iterate step fuel a).map g := by
  induction fuel generalizing a with
  | zero => rfl
  | succ fuel ih =>
      simp only [iterate, same]
      cases step a with
      | none => rfl
      | some turn =>
          cases turn with
          | again next => exact ih next
          | finish result => rfl

variable {γ δ : Type} {R : α → γ → Prop} {Q : β → δ → Prop} {takes : α → Turn α β → Prop}
  {follows : γ → Turn γ δ → Prop} {a : α} {c : γ} {turn : Turn α β}

inductive Alike (R : α → γ → Prop) (Q : β → δ → Prop) : Turn α β → Turn γ δ → Prop where
  | again {a : α} {c : γ} : R a c → Alike R Q (.again a) (.again c)
  | finish {b : β} {d : δ} : Q b d → Alike R Q (.finish b) (.finish d)

/-- A turn of one loop, answered by another loop from where it stands, in as many turns as it
takes. -/
inductive Answered (follows : γ → Turn γ δ → Prop) (R : α → γ → Prop) (Q : β → δ → Prop) (c : γ) :
    Turn α β → Prop where
  | again {next : α} {d : γ} : R next d → (∀ found, Leads follows d found → Leads follows c found) →
      Answered follows R Q c (.again next)
  | finish {result : β} {found : δ} : Leads follows c found → Q result found →
      Answered follows R Q c (.finish result)

theorem Alike.answered {turn' : Turn γ δ} (alike : Alike R Q turn turn') (taken : follows c turn') :
    Answered follows R Q c turn := by
  cases alike with
  | again related => exact .again related fun _ later => .again taken later
  | finish related => exact .finish (.finish taken) related

/-- A loop whose turns are all answered leads to a related result on the other side. -/
theorem Leads.along (answered : ∀ a c turn, R a c → takes a turn → Answered follows R Q c turn)
    {result : β} (leads : Leads takes a result) (start : R a c) :
    ∃ found, Leads follows c found ∧ Q result found := by
  induction leads generalizing c with
  | again taken _ ih =>
      cases answered _ _ _ start taken with
      | again related back =>
          obtain ⟨found, later, same⟩ := ih related
          exact ⟨found, back found later, same⟩
  | finish taken =>
      cases answered _ _ _ start taken with
      | finish later same => exact ⟨_, later, same⟩

end Turn

end LogicSearch
