namespace LogicSearch

theorem map_some_mono {α β : Type} {narrow wide : Option α} {f : α → β} {b : β}
    (kept : ∀ a, narrow = some a → wide = some a) (done : narrow.map f = some b) :
    wide.map f = some b := by
  obtain ⟨a, found, same⟩ := Option.map_eq_some_iff.mp done
  exact Option.map_eq_some_iff.mpr ⟨a, kept a found, same⟩

inductive Turn (α β : Type) where
  | again (next : α)
  | finish (result : β)

namespace Turn

variable {α β : Type}

/-- Turn after turn, at most `fuel` of them. A turn may itself fail to return. -/
def iterate (step : α → Option (Turn α β)) : Nat → α → Option β
  | 0, _ => none
  | fuel + 1, a =>
    match step a with
    | none => none
    | some (again next) => iterate step fuel next
    | some (finish result) => some result

theorem iterate_mono {step wider : α → Option (Turn α β)}
    (kept : ∀ a turn, step a = some turn → wider a = some turn) {fuel more : Nat}
    (enough : fuel ≤ more) {a : α} {result : β} (done : iterate step fuel a = some result) :
    iterate wider more a = some result := by
  induction fuel generalizing a more with
  | zero => cases done
  | succ fuel ih =>
      obtain ⟨more, rfl⟩ : ∃ n, more = n + 1 := ⟨more - 1, by omega⟩
      cases turn : step a with
      | none => simp [iterate, turn] at done
      | some next =>
          cases next <;> simp only [iterate, turn, kept a _ turn] at done ⊢
          · exact ih (by omega) done
          · exact done

end Turn

end LogicSearch
