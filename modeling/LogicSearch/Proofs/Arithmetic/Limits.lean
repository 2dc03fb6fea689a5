import LogicSearch.Proofs.Arithmetic.Operator
import Mathlib.Algebra.Order.Group.Unbundled.Int
import Mathlib.Tactic.Ring

namespace LogicSearch

/-- The quotient of whole numbers cut off toward zero: its size is the number of times that the
divisor fits into the dividend, and zero does not separate it from the product of both. -/
def IsQuotient (a b q : Int) : Prop := q.natAbs = a.natAbs / b.natAbs ∧ 0 ≤ q * (a * b)

/-- The remainder of whole numbers that lies from zero up or down to the divisor, which is left
out. -/
def IsRemainder (a b r : Int) : Prop := b ∣ a - r ∧ (0 ≤ r ∧ r < b ∨ b < r ∧ r ≤ 0)

instance (a b q : Int) : Decidable (IsQuotient a b q) := inferInstanceAs (Decidable (_ ∧ _))

instance (a b r : Int) : Decidable (IsRemainder a b r) := inferInstanceAs (Decidable (_ ∧ _))

section

variable {a b c : Int}

theorem isQuotient_tdiv (a b : Int) : IsQuotient a b (a.tdiv b) := by
  refine ⟨Int.natAbs_tdiv a b, ?_⟩
  -- What the divisor takes of the dividend is on the dividend's side of zero.
  have taken : a.tdiv b * (a * b) = a * (a - a.tmod b) := by
    rw [Int.tmod_def]
    ring
  have small : (a.tmod b).natAbs ≤ a.natAbs := by
    rw [Int.natAbs_tmod]
    exact Nat.mod_le _ _
  rw [taken]
  rcases Int.le_total 0 a with high | low
  · exact Int.mul_nonneg high (by omega)
  · exact Int.mul_nonneg_of_nonpos_of_nonpos low (by omega)

theorem IsQuotient.unique (first : IsQuotient a b c) {d : Int} (second : IsQuotient a b d) :
    c = d := by
  have sizes : c.natAbs = d.natAbs := first.1.trans second.1.symm
  rcases Int.natAbs_eq_natAbs_iff.mp sizes with same | opposite
  · exact same
  · -- Neither of two opposite quotients is on the other side of zero than the product, so that
    -- they are zero, or the product is and leaves no other quotient.
    have above := first.2
    have below := second.2
    rw [opposite, Int.neg_mul] at above
    have product : d * (a * b) = 0 := by omega
    have zero : d.natAbs = 0 := by
      rcases Int.mul_eq_zero.mp product with zero | operands
      · simp [zero]
      · rcases Int.mul_eq_zero.mp operands with rfl | rfl <;> simp [second.1]
    omega

theorem isQuotient_iff : IsQuotient a b c ↔ c = a.tdiv b := by
  constructor
  · intro quotient
    exact quotient.unique (isQuotient_tdiv a b)
  · rintro rfl
    exact isQuotient_tdiv a b

theorem isRemainder_iff (nonzero : b ≠ 0) : IsRemainder a b c ↔ c = a.fmod b := by
  constructor
  · rintro ⟨⟨q, left⟩, ⟨low, high⟩ | ⟨low, high⟩⟩
    · have split := (Int.fdiv_fmod_unique (by omega)).mpr ⟨(by omega : c + b * q = a), low, high⟩
      exact split.2.symm
    · have split := (Int.fdiv_fmod_unique' (by omega)).mpr ⟨(by omega : c + b * q = a), low, high⟩
      exact split.2.symm
  · rintro rfl
    refine ⟨Int.dvd_self_sub_fmod, ?_⟩
    rcases Int.lt_or_gt_of_ne nonzero with negative | positive
    · exact .inr ((Int.fdiv_fmod_unique' negative).mp ⟨rfl, rfl⟩).2
    · exact .inl ((Int.fdiv_fmod_unique positive).mp ⟨rfl, rfl⟩).2

end

namespace Operator

variable {n : Int} {w x y : Int64}

/-- The result of an operation with the exact outcome `n` and, on words, the outcome `w`: the word,
which is then exact, if a word can hold `n`, and an overflow if none can. -/
structure ExactOrOverflow (n : Int) (w : Int64) (result : Except Halt Int64) : Prop where
  exact_iff : InRange n ↔ result = .ok w ∧ w.toInt = n
  overflow_iff : ¬ InRange n ↔ result = fault .intOverflow

theorem fault_ne_ok {f : ArithmeticFault} : fault f ≠ .ok w := by
  intro wrong
  cases wrong

theorem exactOrOverflow_narrow (holds : InRange n → w.toInt = n) :
    ExactOrOverflow n w (narrow n) := by
  by_cases inside : InRange n
  · have narrowed : narrow n = .ok w := by rw [← holds inside, narrow_toInt]
    refine ⟨iff_of_true inside ⟨narrowed, holds inside⟩, iff_of_false (not_not_intro inside) ?_⟩
    rw [narrowed]
    exact fault_ne_ok.symm
  · have narrowed := narrow_of_not_inRange inside
    refine ⟨iff_of_false inside ?_, iff_of_true inside narrowed⟩
    rintro ⟨same, -⟩
    exact fault_ne_ok (narrowed.symm.trans same)

theorem exactOrOverflow_of_wraps (wraps : w.toInt = n.bmod (2 ^ 64)) :
    ExactOrOverflow n w (narrow n) := by
  apply exactOrOverflow_narrow
  rintro ⟨low, high⟩
  rw [wraps]
  apply Int.bmod_eq_of_le <;> omega

theorem inRange_neg_iff : InRange (-x.toInt) ↔ x ≠ Int64.minValue := by
  have range := inRange_toInt x
  rw [ne_eq, ← Int64.toInt_inj, Int64.toInt_minValue]
  unfold InRange at range ⊢
  omega

theorem inRange_abs_iff : InRange |x.toInt| ↔ x ≠ Int64.minValue := by
  have range := inRange_toInt x
  rw [ne_eq, ← Int64.toInt_inj, Int64.toInt_minValue, Int.abs_eq_natAbs]
  unfold InRange at range ⊢
  omega

theorem inRange_tdiv_iff :
    InRange (x.toInt.tdiv y.toInt) ↔ ¬ (x = Int64.minValue ∧ y = -1) := by
  constructor
  · rintro inside ⟨rfl, rfl⟩
    revert inside
    decide
  · intro other
    rcases not_and_or.mp other with left | right
    · rw [← Int64.toInt_div_of_ne_left x y left]
      exact inRange_toInt _
    · rw [← Int64.toInt_div_of_ne_right x y right]
      exact inRange_toInt _

theorem exactOrOverflow_abs (x : Int64) : ExactOrOverflow |x.toInt| x.abs (unary abs x) := by
  rw [unary, ← Int.abs_eq_natAbs]
  apply exactOrOverflow_narrow
  intro inside
  have other : x.toBitVec ≠ BitVec.intMin 64 := by
    intro least
    exact inRange_abs_iff.mp inside (Int64.toBitVec_inj.mp least)
  rw [Int.abs_eq_natAbs]
  exact BitVec.toInt_abs_eq_natAbs_of_ne_intMin other

theorem intDiv_of_ne_zero (nonzero : y ≠ 0) :
    binary intDiv x y = narrow (x.toInt.tdiv y.toInt) :=
  if_neg nonzero

theorem exactOrOverflow_intDiv (nonzero : y ≠ 0) :
    ExactOrOverflow (x.toInt.tdiv y.toInt) (x / y) (binary intDiv x y) := by
  rw [intDiv_of_ne_zero nonzero]
  exact exactOrOverflow_of_wraps (Int64.toInt_div x y)

theorem mod_of_ne_zero (nonzero : y ≠ 0) : binary mod x y = .ok (floorMod x y) := if_neg nonzero

theorem intDiv_eq_zeroDivisor_iff : binary intDiv x y = fault .zeroDivisor ↔ y = 0 := by
  constructor
  · intro refused
    by_contra nonzero
    have outcome := exactOrOverflow_intDiv (x := x) nonzero
    by_cases inside : InRange (x.toInt.tdiv y.toInt)
    · exact fault_ne_ok (refused.symm.trans (outcome.exact_iff.mp inside).1)
    · cases refused.symm.trans (outcome.overflow_iff.mp inside)
  · intro zero
    exact if_pos zero

theorem mod_eq_zeroDivisor_iff : binary mod x y = fault .zeroDivisor ↔ y = 0 := by
  constructor
  · intro refused
    by_contra nonzero
    exact fault_ne_ok (refused.symm.trans (mod_of_ne_zero nonzero))
  · intro zero
    exact if_pos zero

theorem intDiv_eq_intOverflow_iff :
    binary intDiv x y = fault .intOverflow ↔ x = Int64.minValue ∧ y = -1 := by
  by_cases zero : y = 0
  · subst zero
    refine iff_of_false ?_ ?_
    · intro wrong
      cases (intDiv_eq_zeroDivisor_iff.mpr rfl).symm.trans wrong
    · rintro ⟨-, wrong⟩
      cases wrong
  · rw [← (exactOrOverflow_intDiv zero).overflow_iff, inRange_tdiv_iff, not_not]

/-- The remainder of words. There is none by zero, and none where the quotient overflows. -/
def restChecked (x y : Int64) : Option Int64 :=
  if y = 0 ∨ x.toBitVec.sdivOverflow y.toBitVec then none else some (x % y)

def addChecked (x y : Int64) : Option Int64 :=
  if x.toBitVec.saddOverflow y.toBitVec then none else some (x + y)

/-- The remainder with the sign of the divisor, with a check at each word operation. -/
def floorModChecked (x y : Int64) : Option Int64 :=
  if y = -1 then some 0
  else
    (restChecked x y).bind fun r =>
      if r ≠ 0 ∧ decide (r < 0) ≠ decide (y < 0) then addChecked r y else some r

theorem restChecked_eq (nonzero : y ≠ 0) (other : y ≠ -1) : restChecked x y = some (x % y) := by
  have fits : x.toBitVec.sdivOverflow y.toBitVec = false := by
    have ones : y.toBitVec ≠ BitVec.allOnes 64 := fun ones => other (Int64.toBitVec_inj.mp ones)
    rw [BitVec.sdivOverflow_eq, decide_eq_false ones, Bool.and_false]
  simp [restChecked, nonzero, fits]

-- The quotient of these overflows, so the remainder needs its case for -1.
example : restChecked Int64.minValue (-1) = none := by decide

theorem addChecked_of_signs (apart : decide (x < 0) ≠ decide (y < 0)) :
    addChecked x y = some (x + y) := by
  have range := inRange_toInt (x + y)
  rw [toInt_add_of_signs apart] at range
  unfold InRange at range
  have fits : x.toBitVec.saddOverflow y.toBitVec = false := by
    simp only [BitVec.saddOverflow, Int64.toInt_toBitVec, Bool.or_eq_false_iff,
      decide_eq_false_iff_not]
    omega
  simp [addChecked, fits]

theorem floorModChecked_eq (nonzero : y ≠ 0) : floorModChecked x y = some (floorMod x y) := by
  unfold floorModChecked floorMod
  by_cases minus : y = -1
  · simp only [minus, if_true]
  · rw [if_neg minus, if_neg minus, restChecked_eq nonzero minus, Option.bind_some]
    dsimp only
    split
    · rename_i apart
      exact addChecked_of_signs apart.2
    · rfl

/-- What the operators make of any two words. Sums, differences, products, negatives and absolute
values are exact, and an overflow where no word can hold the exact one; a negative or an absolute
value overflows at the least word only. Quotients and remainders refuse a divisor of zero and no
other. A quotient is the one cut off toward zero, and overflows where the least word is divided by
-1; a remainder is the one between zero and the divisor, and all checks on the way to it succeed.
The smaller and the larger of two words are always found. -/
theorem exact_or_fault_at_word_limits (x y : Int64) :
    ExactOrOverflow (x.toInt + y.toInt) (x + y) (binary add x y) ∧
      ExactOrOverflow (x.toInt - y.toInt) (x - y) (binary sub x y) ∧
      ExactOrOverflow (x.toInt * y.toInt) (x * y) (binary mul x y) ∧
      (binary intDiv x y = fault .zeroDivisor ↔ y = 0) ∧
      (y ≠ 0 → ∃ q, (∀ c, IsQuotient x.toInt y.toInt c ↔ c = q) ∧
        ExactOrOverflow q (x / y) (binary intDiv x y)) ∧
      (binary intDiv x y = fault .intOverflow ↔ x = Int64.minValue ∧ y = -1) ∧
      (binary mod x y = fault .zeroDivisor ↔ y = 0) ∧
      (y ≠ 0 → ∃ r : Int64, (∀ c, IsRemainder x.toInt y.toInt c ↔ c = r.toInt) ∧
        binary mod x y = .ok r ∧ floorModChecked x y = some r) ∧
      (∃ k : Int64, binary min x y = .ok k ∧ k.toInt = Min.min x.toInt y.toInt) ∧
      (∃ k : Int64, binary max x y = .ok k ∧ k.toInt = Max.max x.toInt y.toInt) ∧
      ExactOrOverflow (-x.toInt) (-x) (unary neg x) ∧
      (unary neg x = fault .intOverflow ↔ x = Int64.minValue) ∧
      ExactOrOverflow |x.toInt| x.abs (unary abs x) ∧
      (unary abs x = fault .intOverflow ↔ x = Int64.minValue) := by
  have negative : ExactOrOverflow (-x.toInt) (-x) (unary neg x) :=
    exactOrOverflow_of_wraps (Int64.toInt_neg x)
  have absolute := exactOrOverflow_abs x
  refine ⟨exactOrOverflow_of_wraps (Int64.toInt_add x y),
    exactOrOverflow_of_wraps (Int64.toInt_sub x y), exactOrOverflow_of_wraps (Int64.toInt_mul x y),
    intDiv_eq_zeroDivisor_iff, ?_, intDiv_eq_intOverflow_iff, mod_eq_zeroDivisor_iff, ?_,
    ⟨_, rfl, toInt_min x y⟩, ⟨_, rfl, toInt_max x y⟩, negative, ?_, absolute, ?_⟩
  · intro nonzero
    exact ⟨_, fun c => isQuotient_iff, exactOrOverflow_intDiv nonzero⟩
  · intro nonzero
    have divides : y.toInt ≠ 0 := fun zero => nonzero (eq_zero_iff_toInt.mpr zero)
    refine ⟨floorMod x y, ?_, mod_of_ne_zero nonzero, floorModChecked_eq nonzero⟩
    intro c
    rw [isRemainder_iff divides, toInt_floorMod x nonzero]
  · rw [← negative.overflow_iff, inRange_neg_iff, not_not]
  · rw [← absolute.overflow_iff, inRange_abs_iff, not_not]

theorem exact_or_fault_at_word_limits_least_word :
    (-1 : Int64) ≠ 0 ∧ binary intDiv Int64.minValue (-1) = fault .intOverflow ∧
      binary mod Int64.minValue (-1) = .ok 0 ∧
      floorModChecked Int64.minValue (-1) = some 0 ∧
      (3 : Int64) ≠ 0 ∧ binary intDiv (-7) 3 = .ok (-7 / 3) ∧ (-7 / 3 : Int64).toInt = -2 ∧
      binary mod (-7) 3 = .ok 2 ∧ floorModChecked (-7) 3 = some 2 := by
  have minus : (-1 : Int64) ≠ 0 := by decide
  have three : (3 : Int64) ≠ 0 := by decide
  obtain ⟨-, -, -, -, -, overflow, -, least, -⟩ :=
    exact_or_fault_at_word_limits Int64.minValue (-1)
  obtain ⟨-, -, -, -, quotient, -, -, rest, -⟩ := exact_or_fault_at_word_limits (-7) 3
  obtain ⟨r, unique, modulo, checked⟩ := least minus
  obtain rfl : r = 0 := Int64.toInt_inj.mp ((unique 0).mp (by decide)).symm
  obtain ⟨q, only, exact⟩ := quotient three
  obtain rfl : -2 = q := (only (-2)).mp (by decide)
  obtain ⟨divided, value⟩ := exact.exact_iff.mp (by decide)
  obtain ⟨r, unique, modulo', checked'⟩ := rest three
  obtain rfl : r = 2 := Int64.toInt_inj.mp ((unique 2).mp (by decide)).symm
  exact ⟨minus, overflow.mpr ⟨rfl, rfl⟩, modulo, checked, three, divided, value, modulo', checked'⟩

end Operator

end LogicSearch
