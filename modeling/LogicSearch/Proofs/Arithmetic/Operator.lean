import LogicSearch.Proofs.Arithmetic.Faults
import Mathlib.Algebra.Group.Int.Defs

namespace LogicSearch

/-- The whole numbers that a 64-bit integer can hold. -/
def InRange (n : Int) : Prop := -2 ^ 63 ≤ n ∧ n < 2 ^ 63

instance (n : Int) : Decidable (InRange n) := inferInstanceAs (Decidable (_ ∧ _))

def unaryOperations : List (Atom × (Int → Int)) :=
  [(.minus, fun a => -a), (.abs, fun a => a.natAbs)]

/-- The functors of two arguments with an operation on whole numbers. A quotient is cut off toward
zero, and a remainder has the sign of the divisor. -/
def binaryOperations : List (Atom × (Int → Int → Int)) :=
  [(.plus, fun a b => a + b), (.minus, fun a b => a - b), (.star, fun a b => a * b),
    (.intDiv, Int.tdiv), (.mod, Int.fmod), (.min, min), (.max, max)]

def evaluable : List Indicator :=
  unaryOperations.map (fun entry => ⟨entry.1, 1⟩) ++
    binaryOperations.map (fun entry => ⟨entry.1, 2⟩)

def dividing : List Atom := [.intDiv, .mod]

namespace Operator

variable {f : Atom} {op : Operator} {n : Int} {x y : Int64}

theorem functor_of_ofFunctor {arity : Nat} (found : ofFunctor? f arity = some op) :
    op.functor = f := by
  have both := List.find?_some found
  simp only [Bool.and_eq_true, beq_iff_eq] at both
  exact both.1

theorem mem_evaluable {arity : Nat} :
    (⟨f, arity⟩ : Indicator) ∈ evaluable ↔ ∃ op, ofFunctor? f arity = some op := by
  have all (op : Operator) : (⟨op.functor, op.arity⟩ : Indicator) ∈ evaluable := by
    cases op <;> decide
  constructor
  · intro member
    have denoted : ∀ p ∈ evaluable, (ofFunctor? p.functor p.arity).isSome := by decide
    exact Option.isSome_iff_exists.mp (denoted _ member)
  · rintro ⟨op, found⟩
    rw [← functor_of_ofFunctor found, ← arity_of_ofFunctor found]
    exact all op

theorem inRange_toInt (x : Int64) : InRange x.toInt := ⟨x.le_toInt, x.toInt_lt⟩

theorem narrow_of_inRange (inside : InRange n) : ∃ k : Int64, narrow n = .ok k ∧ k.toInt = n := by
  obtain ⟨low, high⟩ := inside
  have fits : Int64.minValue.toInt ≤ n ∧ n ≤ Int64.maxValue.toInt :=
    ⟨low, Int.le_of_lt_add_one high⟩
  exact ⟨Int64.ofInt n, if_pos fits, Int64.toInt_ofInt_of_le low high⟩

theorem narrow_of_not_inRange (outside : ¬ InRange n) : narrow n = fault .intOverflow :=
  if_neg fun fits => outside ⟨fits.1, Int.lt_add_one_of_le fits.2⟩

theorem narrow_toInt (x : Int64) : narrow x.toInt = .ok x := by
  obtain ⟨k, narrowed, same⟩ := narrow_of_inRange (inRange_toInt x)
  rw [narrowed, Int64.toInt_inj.mp same]

theorem eq_zero_iff_toInt : y = 0 ↔ y.toInt = 0 := by
  rw [← Int64.toInt_zero, Int64.toInt_inj]

theorem toInt_min (x y : Int64) : (if x ≤ y then x else y).toInt = Min.min x.toInt y.toInt := by
  simp only [apply_ite Int64.toInt, Int64.le_iff_toInt_le, Int.min_def]

theorem toInt_max (x y : Int64) : (if x ≤ y then y else x).toInt = Max.max x.toInt y.toInt := by
  simp only [apply_ite Int64.toInt, Int64.le_iff_toInt_le, Int.max_def]

theorem toInt_add_of_signs (apart : decide (x < 0) ≠ decide (y < 0)) :
    (x + y).toInt = x.toInt + y.toInt := by
  have signs : ¬ (x.toInt < 0 ↔ y.toInt < 0) := by
    simpa [Int64.lt_iff_toInt_lt] using apart
  have left := inRange_toInt x
  have right := inRange_toInt y
  unfold InRange at left right
  rw [Int64.toInt_add]
  apply Int.bmod_eq_of_le <;> omega

theorem fmod_of_tmod (a b : Int) :
    a.fmod b = if a.tmod b ≠ 0 ∧ ¬ (a.tmod b < 0 ↔ b < 0) then a.tmod b + b else a.tmod b := by
  have whole : b ∣ a ↔ a.tmod b = 0 := Int.dvd_iff_tmod_eq_zero
  have above : 0 ≤ a → 0 ≤ a.tmod b := Int.tmod_nonneg b
  have below : a ≤ 0 → a.tmod b ≤ 0 := by
    intro low
    have mirrored := Int.tmod_nonneg b (Int.neg_nonneg_of_nonpos low)
    rw [Int.neg_tmod] at mirrored
    omega
  rw [Int.fmod_eq_tmod]
  split_ifs <;> omega

theorem toInt_floorMod (x : Int64) (nonzero : y ≠ 0) :
    (floorMod x y).toInt = x.toInt.fmod y.toInt := by
  unfold floorMod
  split
  · rename_i minus
    subst minus
    exact (Int.fmod_eq_zero_of_dvd (Int.neg_dvd.mpr (Int.one_dvd _))).symm
  · have rest : (x % y).toInt = x.toInt.tmod y.toInt := Int64.toInt_mod x y
    have signs : (x % y ≠ 0 ∧ decide (x % y < 0) ≠ decide (y < 0)) ↔
        x.toInt.tmod y.toInt ≠ 0 ∧ ¬ (x.toInt.tmod y.toInt < 0 ↔ y.toInt < 0) := by
      simp [Int64.lt_iff_toInt_lt, eq_zero_iff_toInt, rest]
    rw [fmod_of_tmod]
    simp only [signs]
    split
    · rename_i other
      rw [toInt_add_of_signs (signs.mpr other).2, rest]
    · exact rest

theorem unary_eq (found : ofFunctor? f 1 = some op) (x : Int64) :
    ∃ g, unaryOperations.lookup f = some g ∧ op.unary x = narrow (g x.toInt) := by
  have functor := functor_of_ofFunctor found
  have one := arity_of_ofFunctor found
  subst functor
  cases op with
  | neg => exact ⟨_, rfl, rfl⟩
  | abs => exact ⟨_, rfl, rfl⟩
  | _ => cases one

theorem binary_eq (found : ofFunctor? f 2 = some op) (x y : Int64) :
    ∃ g, binaryOperations.lookup f = some g ∧
      op.binary x y =
        if f ∈ dividing ∧ y.toInt = 0 then fault .zeroDivisor
        else narrow (g x.toInt y.toInt) := by
  have functor := functor_of_ofFunctor found
  have two := arity_of_ofFunctor found
  subst functor
  cases op with
  | add => exact ⟨_, rfl, rfl⟩
  | sub => exact ⟨_, rfl, rfl⟩
  | mul => exact ⟨_, rfl, rfl⟩
  | intDiv =>
      refine ⟨Int.tdiv, rfl, ?_⟩
      have divides : intDiv.functor ∈ dividing := by decide
      simp only [binary, eq_zero_iff_toInt, divides, true_and]
  | mod =>
      refine ⟨Int.fmod, rfl, ?_⟩
      have divides : mod.functor ∈ dividing := by decide
      simp only [binary, divides, true_and]
      split
      · rename_i zero
        rw [if_pos (eq_zero_iff_toInt.mp zero)]
      · rename_i nonzero
        rw [if_neg fun zero => nonzero (eq_zero_iff_toInt.mpr zero), ← toInt_floorMod x nonzero,
          narrow_toInt]
  | min =>
      refine ⟨Min.min, rfl, ?_⟩
      have other : min.functor ∉ dividing := by decide
      simp only [binary, other, false_and, if_false, ← toInt_min, narrow_toInt]
  | max =>
      refine ⟨Max.max, rfl, ?_⟩
      have other : max.functor ∉ dividing := by decide
      simp only [binary, other, false_and, if_false, ← toInt_max, narrow_toInt]
  | neg => cases two
  | abs => cases two

end Operator

end LogicSearch
