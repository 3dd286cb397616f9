import Mathlib

namespace Scaled

/-!
# Integers scaled by a power of two

`scaled m e` is the rational number `m · 2 ^ e`.  A mantissa may be shifted
against its exponent, and what a shift to the right drops is less than one
unit of the remaining last place.  Nothing here depends on a word size.
-/

/-- The number `m · 2 ^ e`. -/
def scaled
    (m e : Int) :
    ℚ :=
  m * 2 ^ e

/-- A number with a sign of its own. -/
def withSign
    (isNeg : Bool)
    (magnitude : Nat) :
    Int :=
  if isNeg then -magnitude else magnitude

/-- A rational number with a sign of its own. -/
def signedBy
    (isNeg : Bool)
    (magnitude : ℚ) :
    ℚ :=
  if isNeg then -magnitude else magnitude

/-- One unit of the last place at the exponent. -/
theorem unit_pos
    (e : Int) :
    (0 : ℚ) < 2 ^ e := by
  positivity

@[simp]
theorem scaled_zero
    (e : Int) :
    scaled 0 e = 0 := by
  simp [scaled]

@[simp]
theorem scaled_neg
    (m e : Int) :
    scaled (-m) e = -scaled m e := by
  simp [scaled]

theorem scaled_add
    (m n e : Int) :
    scaled (m + n) e = scaled m e + scaled n e := by
  simp [scaled, add_mul]

theorem scaled_sub
    (m n e : Int) :
    scaled (m - n) e = scaled m e - scaled n e := by
  simp [scaled, sub_mul]

theorem scaled_mul
    (m n e f : Int) :
    scaled (m * n) (e + f) = scaled m e * scaled n f := by
  have split : (2 : ℚ) ^ (e + f) = 2 ^ e * 2 ^ f :=
    zpow_add₀ (by norm_num) e f
  simp only [scaled, split, Int.cast_mul]
  ring

/-- Shifting a mantissa to the left is made up for by the exponent. -/
theorem scaled_shift
    (m e : Int)
    (amount : Nat) :
    scaled (m * 2 ^ amount) e = scaled m (e + amount) := by
  have split : (2 : ℚ) ^ (e + amount) = 2 ^ e * 2 ^ amount := by
    rw [zpow_add₀ (by norm_num), zpow_natCast]
  simp only [scaled, split, Int.cast_mul, Int.cast_pow, Int.cast_ofNat]
  ring

theorem scaled_le
    {m n e : Int} :
    scaled m e ≤ scaled n e ↔ m ≤ n := by
  rw [scaled, scaled, mul_le_mul_iff_left₀ (unit_pos e), Int.cast_le]

theorem scaled_lt
    {m n e : Int} :
    scaled m e < scaled n e ↔ m < n := by
  rw [scaled, scaled, mul_lt_mul_iff_left₀ (unit_pos e), Int.cast_lt]

theorem scaled_nonneg
    {m e : Int} :
    0 ≤ scaled m e ↔ 0 ≤ m := by
  rw [← scaled_zero e, scaled_le]

variable (isNeg : Bool)

@[simp]
theorem abs_withSign
    (magnitude : Nat) :
    |withSign isNeg magnitude| = magnitude := by
  cases isNeg <;> simp [withSign]

@[simp]
theorem natAbs_withSign
    (magnitude : Nat) :
    (withSign isNeg magnitude).natAbs = magnitude := by
  cases isNeg <;> simp [withSign]

/-- Every integer is its magnitude under its sign. -/
theorem withSign_natAbs
    (m : Int) :
    withSign (decide (m < 0)) m.natAbs = m := by
  by_cases negative : m < 0
  · simp only [withSign, negative, decide_true, if_true]
    omega
  · simp only [withSign, negative, decide_false, Bool.false_eq_true, if_false]
    omega

/-- Numbers of one sign add up by their magnitudes. -/
theorem withSign_add
    (m n : Nat) :
    withSign isNeg m + withSign isNeg n = withSign isNeg (m + n) := by
  cases isNeg
  · simp [withSign]
  · simp only [withSign, if_true, Nat.cast_add]
    ring

theorem scaled_withSign
    (magnitude : Nat)
    (e : Int) :
    scaled (withSign isNeg magnitude) e = signedBy isNeg (scaled magnitude e) := by
  cases isNeg <;> simp [withSign, signedBy]

/-- A scaled number is its magnitude under its sign. -/
theorem scaled_eq_signedBy
    (m e : Int) :
    scaled m e = signedBy (decide (m < 0)) (scaled m.natAbs e) := by
  rw [← scaled_withSign, withSign_natAbs]

theorem abs_signedBy
    {magnitude : ℚ}
    (nonneg : 0 ≤ magnitude) :
    |signedBy isNeg magnitude| = magnitude := by
  cases isNeg <;> simp [signedBy, abs_of_nonneg nonneg]

theorem abs_signedBy_sub
    (first second : ℚ) :
    |signedBy isNeg first - signedBy isNeg second| = |first - second| := by
  cases isNeg
  · simp [signedBy]
  · simp only [signedBy, if_true]
    rw [abs_sub_comm, sub_neg_eq_add, neg_add_eq_sub]

theorem signedBy_add
    (first second : ℚ) :
    signedBy isNeg first + signedBy isNeg second =
      signedBy isNeg (first + second) := by
  cases isNeg
  · simp [signedBy]
  · simp only [signedBy, if_true]
    ring

theorem signedBy_mul
    (isNeg isNeg' : Bool)
    (first second : ℚ) :
    signedBy isNeg first * signedBy isNeg' second =
      signedBy (isNeg != isNeg') (first * second) := by
  cases isNeg <;> cases isNeg' <;> simp [signedBy]

theorem signedBy_div
    (isNeg isNeg' : Bool)
    (first second : ℚ) :
    signedBy isNeg first / signedBy isNeg' second =
      signedBy (isNeg != isNeg') (first / second) := by
  cases isNeg <;> cases isNeg' <;> simp [signedBy, div_neg, neg_div]

/-- What a shift to the right leaves is not above the number, -/
theorem scaled_shiftRight_le
    (m amount : Nat)
    (e : Int) :
    scaled (m / 2 ^ amount : Nat) (e + amount) ≤ scaled m e := by
  rw [← scaled_shift, scaled_le]
  exact_mod_cast Nat.div_mul_le_self m (2 ^ amount)

/-- and less than a unit of the last place below it. -/
theorem lt_scaled_shiftRight
    (m amount : Nat)
    (e : Int) :
    scaled m e < scaled (m / 2 ^ amount : Nat) (e + amount) + 2 ^ (e + amount) := by
  have unit : (2 : ℚ) ^ (e + amount) = scaled 1 (e + amount) := by
    simp [scaled]
  rw [unit, ← scaled_add, ← scaled_shift, scaled_lt]
  exact_mod_cast Nat.lt_mul_of_div_lt
    (Nat.lt_succ_self (m / 2 ^ amount)) (Nat.two_pow_pos amount)

end Scaled
