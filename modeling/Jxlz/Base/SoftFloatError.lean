import Jxlz.Base.SoftFloatResult

namespace Jxlz.Fixed

open Scaled

/-!
# How far the soft-float operations are from the exact results

The results are compared with the exact rational numbers, in units of the last
place of the result.
-/

/-- A result cut off towards zero, by less than so many units. -/
def Truncates
    (units exact : ℚ)
    (result : Fixed) :
    Prop :=
  |result.value| ≤ |exact| ∧ |exact - result.value| < units * result.ulp

/-- A magnitude that is cut off below the exact one, by so many units. -/
theorem truncates_of_le
    {result : Fixed}
    {units exact : ℚ}
    {isNeg : Bool}
    {n : Nat}
    {e : Int}
    (isValue : result.value = signedBy isNeg (scaled n e))
    (lower : scaled n e ≤ exact)
    (upper : exact < scaled n e + units * result.ulp) :
    Truncates units (signedBy isNeg exact) result := by
  have nonneg : 0 ≤ scaled n e :=
    scaled_nonneg.2 (Int.natCast_nonneg n)
  constructor
  · rw [isValue, abs_signedBy _ nonneg, abs_signedBy _ (nonneg.trans lower)]
    exact lower
  · rw [isValue, abs_signedBy_sub, abs_of_nonneg (sub_nonneg.2 lower)]
    linarith

theorem truncates_zero
    {units : ℚ}
    (some : 0 < units) :
    Truncates units 0 zero := by
  have unit : 0 < zero.ulp :=
    unit_pos _
  have product : 0 < units * zero.ulp :=
    mul_pos some unit
  constructor
  · simp [value, zero]
  · simpa [value, zero] using product

/-- A product loses less than one unit in the last place. -/
theorem mulWide_truncates
    (a b : Fixed) :
    Truncates 1 (a.value * b.value) (mulWide a b) := by
  by_cases isZero : a.m = 0 ∨ b.m = 0
  · have exact : a.value * b.value = 0 := by
      rcases isZero with same | same <;> simp [value, same]
    have result : mulWide a b = zero := by
      simp [mulWide, isZero]
    rw [exact, result]
    exact truncates_zero one_pos
  · have exact :
        a.value * b.value =
          signedBy (signsDiffer a b)
            (scaled (a.m.natAbs * b.m.natAbs : Nat) (a.e - 62 + (b.e - 62))) := by
      rw [value, value, scaled_eq_signedBy a.m, scaled_eq_signedBy b.m,
        signedBy_mul, ← scaled_mul, Nat.cast_mul]
      rfl
    have place :
        a.e - 62 + (b.e - 62) + ((62 + mulCarry a b : Nat) : Int) =
          a.e + b.e + mulCarry a b - 62 := by
      push_cast
      ring
    have below :=
      scaled_shiftRight_le (a.m.natAbs * b.m.natAbs) (62 + mulCarry a b)
        (a.e - 62 + (b.e - 62))
    have above :=
      lt_scaled_shiftRight (a.m.natAbs * b.m.natAbs) (62 + mulCarry a b)
        (a.e - 62 + (b.e - 62))
    rw [place] at below above
    rw [exact]
    refine truncates_of_le ?_ below ?_
    · simp only [value, mulWide, isZero, if_false]
      exact scaled_withSign _ _ _
    · simpa only [ulp, mulWide, isZero, if_false, one_mul] using above

section Division

variable {a b : Fixed}

/-- The quotient of the magnitudes lies within a unit above the computed one. -/
theorem scaled_quotient
    (A : Nat)
    {B : Nat}
    (positive : 0 < B)
    (e f : Int) :
    scaled (A * 2 ^ 62 / B : Nat) (e - f - 62) ≤ scaled A (e - 62) / scaled B (f - 62) ∧
      scaled A (e - 62) / scaled B (f - 62) <
        scaled (A * 2 ^ 62 / B : Nat) (e - f - 62) + 2 ^ (e - f - 62) := by
  have divisor : 0 < scaled B (f - 62) := by
    rw [← scaled_zero (f - 62), scaled_lt]
    exact_mod_cast positive
  have dividend : scaled A (e - 62) = scaled (A * 2 ^ 62 : Nat) (e - f - 62 + (f - 62)) := by
    rw [Nat.cast_mul, Nat.cast_pow, Nat.cast_ofNat, scaled_shift]
    congr 1
    push_cast
    ring
  have unit : (2 : ℚ) ^ (e - f - 62) = scaled 1 (e - f - 62) := by
    simp [scaled]
  constructor
  · rw [le_div_iff₀ divisor, ← scaled_mul, dividend, scaled_le]
    exact_mod_cast Nat.div_mul_le_self (A * 2 ^ 62) B
  · rw [unit, ← scaled_add, div_lt_iff₀ divisor, ← scaled_mul, dividend, scaled_lt]
    exact_mod_cast Nat.lt_mul_of_div_lt
      (Nat.lt_succ_self (A * 2 ^ 62 / B)) positive

/-- A quotient loses less than two units in the last place. -/
theorem divWide_truncates
    (normalA : a.Normalized)
    (normalB : b.Normalized)
    (nonzeroB : b.m ≠ 0) :
    Truncates 2 (a.value / b.value) (divWide a b) := by
  by_cases isZero : a.m = 0
  · have exact : a.value / b.value = 0 := by
      simp [value, isZero]
    rw [exact, divWide_zero isZero]
    exact truncates_zero two_pos
  · have exact :
        a.value / b.value =
          signedBy (signsDiffer a b)
            (scaled a.m.natAbs (a.e - 62) / scaled b.m.natAbs (b.e - 62)) := by
      rw [value, value, scaled_eq_signedBy a.m, scaled_eq_signedBy b.m,
        signedBy_div]
      rfl
    obtain ⟨below, above⟩ :=
      scaled_quotient a.m.natAbs (Int.natAbs_pos.2 nonzeroB) a.e b.e
    have unit : (2 : ℚ) ^ (a.e - b.e - 62) ≤ 2 * (divWide a b).ulp := by
      have place : (2 : ℚ) * (divWide a b).ulp = 2 ^ ((divWide a b).e - 61) := by
        rw [ulp, ← zpow_one_add₀ (by norm_num)]
        congr 1
        ring
      rw [place, divWide_exponent normalA normalB isZero nonzeroB]
      refine zpow_le_zpow_right₀ (by norm_num) ?_
      split <;> omega
    rw [exact]
    refine truncates_of_le ?_ below (by linarith)
    rw [divWide, value_normWide, scaled_withSign]

end Division

section Dropped

variable (X Y d : Nat)

/-- The halves that are added, in units of the doubled last place. -/
def halves : Nat :=
  X / 2 + Y / 2 ^ d / 2

/-- What the halving and the alignment drop, in units of the smaller operand. -/
def dropped : Nat :=
  X % 2 * 2 ^ d + Y / 2 ^ d % 2 * 2 ^ d + Y % 2 ^ d

theorem halves_add_dropped :
    halves X Y d * 2 ^ (d + 1) + dropped X Y d = X * 2 ^ d + Y := by
  have first := Nat.div_add_mod X 2
  have second := Nat.div_add_mod (Y / 2 ^ d) 2
  have third := Nat.div_add_mod Y (2 ^ d)
  calc
    halves X Y d * 2 ^ (d + 1) + dropped X Y d
        = (2 * (X / 2) + X % 2) * 2 ^ d +
            (2 ^ d * (2 * (Y / 2 ^ d / 2) + Y / 2 ^ d % 2) + Y % 2 ^ d) := by
          rw [halves, dropped, Nat.pow_succ]
          ring
    _ = X * 2 ^ d + Y := by
          rw [first, second, third]

theorem dropped_lt :
    dropped X Y d < 3 * 2 ^ d := by
  have first := Nat.mod_two_eq_zero_or_one X
  have second := Nat.mod_two_eq_zero_or_one (Y / 2 ^ d)
  have third := Nat.mod_lt Y (Nat.two_pow_pos d)
  unfold dropped
  generalize X % 2 = low at first ⊢
  generalize Y / 2 ^ d % 2 = low' at second ⊢
  generalize Y % 2 ^ d = rest at third ⊢
  generalize 2 ^ d = unit at third ⊢
  rcases first with rfl | rfl <;> rcases second with rfl | rfl <;> omega

/-- More than two units are dropped only by all three truncations at once. -/
theorem dropped_le_iff :
    dropped X Y d ≤ 2 * 2 ^ d ↔
      ¬ (X % 2 = 1 ∧ Y / 2 ^ d % 2 = 1 ∧ Y % 2 ^ d ≠ 0) := by
  have first := Nat.mod_two_eq_zero_or_one X
  have second := Nat.mod_two_eq_zero_or_one (Y / 2 ^ d)
  have third := Nat.mod_lt Y (Nat.two_pow_pos d)
  unfold dropped
  generalize X % 2 = low at first ⊢
  generalize Y / 2 ^ d % 2 = low' at second ⊢
  generalize Y % 2 ^ d = rest at third ⊢
  generalize 2 ^ d = unit at third ⊢
  rcases first with rfl | rfl <;> rcases second with rfl | rfl <;> omega

end Dropped

section Addition

variable {a b : Fixed}

/-- The sum of two operands of one sign, both in units of the smaller one. -/
theorem exact_sum
    (same : signsDiffer a b = false) :
    a.value + b.value =
      signedBy (decide ((larger a b).m < 0))
        (scaled
          ((larger a b).m.natAbs * 2 ^ gap a b + (smaller a b).m.natAbs : Nat)
          ((smaller a b).e - 62)) := by
  have sign : decide ((smaller a b).m < 0) = decide ((larger a b).m < 0) := by
    rw [signsDiffer, bne_eq_false_iff_eq] at same
    rcases ordered_cases a b with ⟨first, second⟩ | ⟨first, second⟩
    · rw [first, second]
      exact same.symm
    · rw [first, second]
      exact same
  have ordered :
      a.value + b.value = (larger a b).value + (smaller a b).value := by
    rcases ordered_cases a b with ⟨first, second⟩ | ⟨first, second⟩
    · rw [first, second]
    · rw [first, second, Rat.add_comm]
  rw [ordered, value, value, scaled_eq_signedBy (larger a b).m,
    scaled_eq_signedBy (smaller a b).m, sign, signedBy_add, exponent_larger]
  congr 1
  push_cast
  rw [scaled_add, scaled_shift]
  congr 2
  ring

/-- Two nonzero operands of one sign that are close enough to be added. -/
structure AddsUp
    (a b : Fixed) :
    Prop where
  nonzeroA : a.m ≠ 0
  nonzeroB : b.m ≠ 0
  same : signsDiffer a b = false
  near : gap a b < 63

/-- The mantissas' magnitudes, the one with the larger exponent first. -/
def firstPart
    (a b : Fixed) :
    Nat :=
  (larger a b).m.natAbs

def secondPart
    (a b : Fixed) :
    Nat :=
  (smaller a b).m.natAbs

theorem AddsUp.ordered
    (adds : AddsUp a b) :
    signsDiffer (larger a b) (smaller a b) = false := by
  rcases ordered_cases a b with ⟨first, second⟩ | ⟨first, second⟩
  · rw [first, second]
    exact adds.same
  · rw [first, second, signsDiffer_comm]
    exact adds.same

/-- The computed sum: the halves, one place above the larger operand. -/
theorem AddsUp.addWide_eq
    (adds : AddsUp a b) :
    addWide a b =
      normWide
        (withSign (decide ((larger a b).m < 0))
          (halves (firstPart a b) (secondPart a b) (gap a b)))
        ((larger a b).e + 1) := by
  have near : ¬ 63 ≤ gap a b := by
    have := adds.near
    omega
  rw [addWide, if_neg adds.nonzeroA, if_neg adds.nonzeroB, if_neg near,
    addSum_same adds.ordered, addExponent, adds.ordered, if_neg (by decide)]
  rfl

theorem AddsUp.halves_bounds
    (adds : AddsUp a b)
    (normalA : a.Normalized)
    (normalB : b.Normalized) :
    2 ^ 61 ≤ halves (firstPart a b) (secondPart a b) (gap a b) ∧
      halves (firstPart a b) (secondPart a b) (gap a b) < 2 ^ 63 := by
  obtain ⟨normalX, normalY⟩ := larger_normalized normalA normalB
  obtain ⟨nonzeroX, nonzeroY⟩ := larger_nonzero adds.nonzeroA adds.nonzeroB
  have bounds :=
    addSum_same_bounds (d := gap a b) normalX normalY nonzeroX adds.ordered
  rw [addSum_same adds.ordered, natAbs_withSign] at bounds
  exact bounds

/-- The halves miss the top bit, so that the sum is shifted back up. -/
def Low
    (a b : Fixed) :
    Prop :=
  halves (firstPart a b) (secondPart a b) (gap a b) < 2 ^ 62

instance (a b : Fixed) : Decidable (Low a b) :=
  inferInstanceAs (Decidable (_ < _))

theorem AddsUp.exponent
    (adds : AddsUp a b)
    (normalA : a.Normalized)
    (normalB : b.Normalized) :
    (addWide a b).e =
      (larger a b).e + 1 - if Low a b then 1 else 0 := by
  obtain ⟨large, small⟩ := adds.halves_bounds normalA normalB
  have nonzero :
      withSign (decide ((larger a b).m < 0))
        (halves (firstPart a b) (secondPart a b) (gap a b)) ≠ 0 := by
    rw [← Int.natAbs_ne_zero, natAbs_withSign]
    omega
  simp only [adds.addWide_eq, normWide, nonzero, if_false]
  by_cases low : Low a b
  · rw [deficit_eq_one (by rw [natAbs_withSign]; exact large)
      (by rw [natAbs_withSign]; exact low), if_pos low]
    rfl
  · rw [deficit_eq_zero (by rw [natAbs_withSign]; exact not_lt.1 low), if_neg low]
    rfl

/-- The sum is cut off towards zero, by what was dropped. -/
theorem AddsUp.error
    (adds : AddsUp a b) :
    |(addWide a b).value| ≤ |a.value + b.value| ∧
      |a.value + b.value - (addWide a b).value| =
        scaled (dropped (firstPart a b) (secondPart a b) (gap a b) : Nat)
          ((smaller a b).e - 62) := by
  have isValue :
      (addWide a b).value =
        signedBy (decide ((larger a b).m < 0))
          (scaled
            (halves (firstPart a b) (secondPart a b) (gap a b) *
              2 ^ (gap a b + 1) : Nat)
            ((smaller a b).e - 62)) := by
    rw [adds.addWide_eq, value_normWide, scaled_withSign, exponent_larger]
    congr 1
    push_cast
    rw [scaled_shift]
    congr 1
    push_cast
    ring
  have whole := halves_add_dropped (firstPart a b) (secondPart a b) (gap a b)
  rw [exact_sum adds.same, isValue]
  simp only [firstPart, secondPart] at whole ⊢
  constructor
  · rw [abs_signedBy _ (scaled_nonneg.2 (Int.natCast_nonneg _)),
      abs_signedBy _ (scaled_nonneg.2 (Int.natCast_nonneg _)), scaled_le]
    exact_mod_cast Nat.le.intro whole
  · rw [abs_signedBy_sub, ← scaled_sub, ← whole, Nat.cast_add,
      add_sub_cancel_left]
    exact abs_of_nonneg (scaled_nonneg.2 (Int.natCast_nonneg _))

/-- All three truncations of a sum drop something at once. -/
def DropsThrice
    (a b : Fixed) :
    Prop :=
  firstPart a b % 2 = 1 ∧ secondPart a b / 2 ^ gap a b % 2 = 1 ∧
    secondPart a b % 2 ^ gap a b ≠ 0

/-- The stated bound of two units holds but where three units start to go. -/
theorem AddsUp.within_iff
    (adds : AddsUp a b)
    (normalA : a.Normalized)
    (normalB : b.Normalized) :
    |a.value + b.value - (addWide a b).value| ≤ 2 * (addWide a b).ulp ↔
      ¬ (Low a b ∧ DropsThrice a b) := by
  have unit (count : Nat) :
      (2 : ℚ) * 2 ^ ((smaller a b).e - 62 + count) =
        scaled (2 * 2 ^ count : Nat) ((smaller a b).e - 62) := by
    push_cast
    rw [scaled_shift]
    simp [scaled]
  rw [adds.error.2, ulp, adds.exponent normalA normalB, exponent_larger]
  by_cases low : Low a b
  · have place :
        (smaller a b).e + gap a b + 1 - (if Low a b then 1 else 0) - 62 =
          (smaller a b).e - 62 + gap a b := by
      rw [if_pos low]
      ring
    rw [place, unit, scaled_le, Nat.cast_le, dropped_le_iff]
    simp only [low, true_and]
    rfl
  · have place :
        (smaller a b).e + gap a b + 1 - (if Low a b then 1 else 0) - 62 =
          (smaller a b).e - 62 + (gap a b + 1 : Nat) := by
      rw [if_neg low]
      push_cast
      ring
    have few := dropped_lt (firstPart a b) (secondPart a b) (gap a b)
    rw [place, unit, scaled_le, Nat.cast_le, Nat.pow_succ]
    simp only [low, false_and, not_false_eq_true, iff_true]
    omega

theorem signs_of_mul_nonneg
    (nonzeroA : a.m ≠ 0)
    (nonzeroB : b.m ≠ 0)
    (same : 0 ≤ a.m * b.m) :
    signsDiffer a b = false := by
  rw [signsDiffer, bne_eq_false_iff_eq, decide_eq_decide]
  rcases mul_nonneg_iff.1 same with ⟨first, second⟩ | ⟨first, second⟩ <;> omega

/-- An operand far below the other one is less than a unit of it. -/
theorem far_error
    (normalA : a.Normalized)
    (normalB : b.Normalized)
    (same : signsDiffer a b = false)
    (far : 63 ≤ gap a b) :
    |(larger a b).value| ≤ |a.value + b.value| ∧
      |a.value + b.value - (larger a b).value| ≤ 2 * (larger a b).ulp := by
  have isValue :
      (larger a b).value =
        signedBy (decide ((larger a b).m < 0))
          (scaled ((larger a b).m.natAbs * 2 ^ gap a b : Nat)
            ((smaller a b).e - 62)) := by
    rw [value, scaled_eq_signedBy (larger a b).m, exponent_larger]
    congr 1
    push_cast
    rw [scaled_shift]
    congr 1
    ring
  have unit :
      (2 : ℚ) * (larger a b).ulp =
        scaled (2 * 2 ^ gap a b : Nat) ((smaller a b).e - 62) := by
    rw [ulp, exponent_larger]
    push_cast
    rw [scaled_shift, scaled]
    congr 2
    ring
  have small := (larger_normalized normalA normalB).2.small
  have grows : 2 ^ 63 ≤ 2 ^ gap a b :=
    Nat.pow_le_pow_right (by decide) far
  rw [exact_sum same, isValue, unit]
  constructor
  · rw [abs_signedBy _ (scaled_nonneg.2 (Int.natCast_nonneg _)),
      abs_signedBy _ (scaled_nonneg.2 (Int.natCast_nonneg _)), scaled_le]
    exact_mod_cast Nat.le_add_right _ _
  · rw [abs_signedBy_sub, ← scaled_sub, Nat.cast_add, add_sub_cancel_left,
      abs_of_nonneg (scaled_nonneg.2 (Int.natCast_nonneg _)), scaled_le]
    exact_mod_cast (by omega :
      (smaller a b).m.natAbs ≤ 2 * 2 ^ gap a b)

/-- A sum of one sign is within two units unless three truncations meet. -/
theorem addWide_error_iff
    (normalA : a.Normalized)
    (normalB : b.Normalized)
    (same : 0 ≤ a.m * b.m) :
    (|(addWide a b).value| ≤ |a.value + b.value| ∧
        |a.value + b.value - (addWide a b).value| ≤ 2 * (addWide a b).ulp) ↔
      (AddsUp a b → Low a b → ¬ DropsThrice a b) := by
  by_cases adds : AddsUp a b
  · rw [adds.within_iff normalA normalB, not_and]
    exact ⟨fun both _ => both.2, fun kept => ⟨adds.error.1, kept adds⟩⟩
  · refine iff_of_true ?_ (fun contradiction => absurd contradiction adds)
    have unit (x : Fixed) : 0 ≤ 2 * x.ulp :=
      mul_nonneg (by norm_num) (le_of_lt (unit_pos _))
    by_cases zeroA : a.m = 0
    · simpa [addWide, zeroA, value] using unit b
    by_cases zeroB : b.m = 0
    · simpa [addWide, zeroA, zeroB, value] using unit a
    have signs := signs_of_mul_nonneg zeroA zeroB same
    have far : 63 ≤ gap a b := by
      by_contra near
      exact adds ⟨zeroA, zeroB, signs, by omega⟩
    rw [addWide, if_neg zeroA, if_neg zeroB, if_pos far]
    exact far_error normalA normalB signs far

/-- Where the sum fits, only the early check of its exponent can stop `add`. -/
theorem addReady_iff
    (normalA : a.Normalized)
    (normalB : b.Normalized)
    (fits : FitsI32 (addWide a b).e) :
    AddReady a b ↔ (AddsUp a b → Low a b → (larger a b).e ≠ 2 ^ 31 - 1) := by
  have fitsX := (larger_normalized normalA normalB).1.fits
  constructor
  · intro ready adds _ top
    have checked := ready adds.nonzeroA adds.nonzeroB adds.near
    rw [addExponent, adds.ordered, if_neg (by decide), top] at checked
    exact absurd checked (by decide)
  · intro below nonzeroA nonzeroB near
    cases signs : signsDiffer a b with
    | true =>
        have ordered : signsDiffer (larger a b) (smaller a b) = true := by
          rcases ordered_cases a b with ⟨first, second⟩ | ⟨first, second⟩
          · rw [first, second, signs]
          · rw [first, second, signsDiffer_comm, signs]
        rw [addExponent, ordered, if_pos rfl]
        exact fitsX
    | false =>
        have adds : AddsUp a b :=
          ⟨nonzeroA, nonzeroB, signs, near⟩
        rw [addExponent, adds.ordered, if_neg (by decide)]
        rw [adds.exponent normalA normalB] at fits
        by_cases low : Low a b
        · have notTop := below adds low
          exact ⟨by have := fitsX.1; omega, by have := fitsX.2; omega⟩
        · rwa [if_neg low, Int.sub_zero] at fits

/-- A sum is returned unless the early check of its exponent stops `add`. -/
theorem add_returns_iff
    (normalA : a.Normalized)
    (normalB : b.Normalized)
    (fits : FitsI32 (addWide a b).e) :
    add a b = .ok (addWide a b) ↔
      (AddsUp a b → Low a b → (larger a b).e ≠ 2 ^ 31 - 1) := by
  rw [← addReady_iff normalA normalB fits]
  constructor
  · intro returned
    by_contra stops
    rw [add_stops normalA normalB stops] at returned
    cases returned
  · intro ready
    have checked := add_eq normalA normalB ready
    rwa [Checks, if_pos fits] at checked

end Addition

section Results

variable {a b : Fixed}

theorem opposite_normalized
    (normal : b.Normalized) :
    b.opposite.Normalized := by
  rcases normal with ⟨large, small, fits⟩ | rfl
  · exact .inl ⟨by simpa [opposite], by simpa [opposite], fits⟩
  · exact .inr rfl

/-- Subtracting is adding the opposite. -/
theorem sub_eq_add
    (normalA : a.Normalized)
    (normalB : b.Normalized) :
    sub a b = add a b.opposite ∧ subWide a b = addWide a b.opposite := by
  by_cases isZero : b.m = 0
  · have opposed : b.opposite = zero := by
      rw [normalB.eq_zero isZero]
      rfl
    rw [sub, subWide, if_pos isZero, if_pos isZero, opposed, add, addWide]
    by_cases zeroA : a.m = 0
    · rw [if_pos zeroA, if_pos zeroA, normalA.eq_zero zeroA]
      exact ⟨rfl, rfl⟩
    · rw [if_neg zeroA, if_neg zeroA]
      exact ⟨rfl, rfl⟩
  · have small := normalB.small
    have negated : negWrapI64 b.m = -b.m :=
      bmod_two_pow_64 (by omega) (by omega)
    rw [sub, subWide, if_neg isZero, if_neg isZero, negated]
    exact ⟨rfl, rfl⟩

/-- The operations on these operands do what is said of them. -/
structure KeepsError
    (a b : Fixed) :
    Prop where
  mul :
    FitsI32 (mulWide a b).e →
      ∃ result,
        Fixed.mul a b = .ok result ∧ result.Normalized ∧
          Truncates 1 (a.value * b.value) result
  div :
    b.m ≠ 0 → FitsI32 (divWide a b).e →
      ∃ result,
        Fixed.div a b = .ok result ∧ result.Normalized ∧
          Truncates 2 (a.value / b.value) result
  add :
    FitsI32 (addWide a b).e →
      ∃ result,
        Fixed.add a b = .ok result ∧ result.Normalized ∧
          (0 ≤ a.m * b.m →
            |result.value| ≤ |a.value + b.value| ∧
              |a.value + b.value - result.value| ≤ 2 * result.ulp)
  sub :
    FitsI32 (subWide a b).e →
      ∃ result, Fixed.sub a b = .ok result ∧ result.Normalized
  mulSwap :
    Fixed.mul a b = Fixed.mul b a
  addSwap :
    Fixed.add a b = Fixed.add b a

/-- Operands on which no sum drops thrice and no early exponent check strikes. -/
structure StaysWithin
    (a b : Fixed) :
    Prop where
  notThrice :
    AddsUp a b → Low a b → ¬ DropsThrice a b
  sumBelowTop :
    AddsUp a b → Low a b → (larger a b).e ≠ 2 ^ 31 - 1
  differenceBelowTop :
    AddsUp a b.opposite → Low a b.opposite →
      (larger a b.opposite).e ≠ 2 ^ 31 - 1
  quotientBelowTop :
    a.m ≠ 0 → b.m ≠ 0 → a.m.natAbs < b.m.natAbs → a.e - b.e ≠ 2 ^ 31

theorem mul_keeps
    (normalA : a.Normalized)
    (normalB : b.Normalized)
    (fits : FitsI32 (mulWide a b).e) :
    ∃ result,
      mul a b = .ok result ∧ result.Normalized ∧
        Truncates 1 (a.value * b.value) result := by
  have checked := mul_eq normalA normalB
  rw [Checks, if_pos fits] at checked
  exact
    ⟨_, checked, mulWide_normalized normalA normalB fits, mulWide_truncates a b⟩

theorem mul_swap
    (normalA : a.Normalized)
    (normalB : b.Normalized) :
    mul a b = mul b a := by
  have first := mul_eq normalA normalB
  have second := mul_eq normalB normalA
  rw [Checks] at first second
  rw [first, second, mulWide_comm]

/-- A quotient that fits is returned unless its first exponent does not fit. -/
theorem div_keeps_iff
    (normalA : a.Normalized)
    (normalB : b.Normalized)
    (nonzeroB : b.m ≠ 0)
    (fits : FitsI32 (divWide a b).e) :
    (∃ result,
        div a b = .ok result ∧ result.Normalized ∧
          Truncates 2 (a.value / b.value) result) ↔
      (a.m ≠ 0 → a.m.natAbs < b.m.natAbs → a.e - b.e ≠ 2 ^ 31) := by
  constructor
  · rintro ⟨result, returned, _⟩ nonzeroA order top
    have outside : ¬ FitsI32 (a.e - b.e) := by
      rw [top]
      decide
    rw [div_stops normalA normalB nonzeroA nonzeroB outside] at returned
    cases returned
  · intro below
    have inRange : a.m = 0 ∨ FitsI32 (a.e - b.e) := by
      by_cases zeroA : a.m = 0
      · exact .inl zeroA
      · refine .inr ?_
        rw [divWide_exponent normalA normalB zeroA nonzeroB] at fits
        by_cases order : b.m.natAbs ≤ a.m.natAbs
        · rwa [if_pos order, Int.sub_zero] at fits
        · rw [if_neg order] at fits
          have notTop := below zeroA (by omega)
          obtain ⟨low, high⟩ := fits
          exact ⟨by omega, by omega⟩
    have checked := div_eq normalA normalB nonzeroB inRange
    rw [Checks, if_pos fits] at checked
    exact
      ⟨_, checked, divWide_normalized normalA normalB nonzeroB fits,
        divWide_truncates normalA normalB nonzeroB⟩

/-- What `add` returns, if anything, is the sum computed without a range. -/
theorem eq_addWide_of_add
    (normalA : a.Normalized)
    (normalB : b.Normalized)
    {result : Fixed}
    (returned : add a b = .ok result) :
    result = addWide a b := by
  by_cases ready : AddReady a b
  · have checked := add_eq normalA normalB ready
    rw [Checks, returned] at checked
    split at checked
    · exact Except.ok.inj checked
    · cases checked
  · rw [add_stops normalA normalB ready] at returned
    cases returned

theorem AddsUp.mul_nonneg
    (adds : AddsUp a b) :
    0 ≤ a.m * b.m := by
  have same := adds.same
  rw [signsDiffer, bne_eq_false_iff_eq, decide_eq_decide] at same
  rw [mul_nonneg_iff]
  omega

/-- A low sum stays at the larger exponent, so it fits. -/
theorem AddsUp.fits_of_low
    (adds : AddsUp a b)
    (normalA : a.Normalized)
    (normalB : b.Normalized)
    (low : Low a b) :
    FitsI32 (addWide a b).e := by
  rw [adds.exponent normalA normalB, if_pos low, Int.add_sub_cancel]
  exact (larger_normalized normalA normalB).1.fits

/--
The stated errors hold for exactly the operands whose sum does not drop
something in all three truncations, and whose exponents before they are
renormalized stay below the end of their range.
-/
theorem keepsError_iff
    (normalA : a.Normalized)
    (normalB : b.Normalized) :
    KeepsError a b ↔ StaysWithin a b := by
  have normalO := opposite_normalized normalB
  obtain ⟨subIsAdd, subWideIsAdd⟩ := sub_eq_add normalA normalB
  constructor
  · intro keeps
    constructor
    case notThrice =>
      intro adds low
      obtain ⟨result, returned, _, error⟩ :=
        keeps.add (adds.fits_of_low normalA normalB low)
      have same := adds.mul_nonneg
      have within := error same
      rw [eq_addWide_of_add normalA normalB returned,
        addWide_error_iff normalA normalB same] at within
      exact within adds low
    case sumBelowTop =>
      intro adds low
      have fits := adds.fits_of_low normalA normalB low
      obtain ⟨result, returned, _⟩ := keeps.add fits
      rw [eq_addWide_of_add normalA normalB returned] at returned
      exact (add_returns_iff normalA normalB fits).1 returned adds low
    case differenceBelowTop =>
      intro adds low
      have fits := adds.fits_of_low normalA normalO low
      obtain ⟨result, returned, _⟩ := keeps.sub (subWideIsAdd ▸ fits)
      rw [subIsAdd] at returned
      rw [eq_addWide_of_add normalA normalO returned] at returned
      exact (add_returns_iff normalA normalO fits).1 returned adds low
    case quotientBelowTop =>
      intro nonzeroA nonzeroB order top
      have fits : FitsI32 (divWide a b).e := by
        rw [divWide_exponent normalA normalB nonzeroA nonzeroB,
          if_neg (by omega), top]
        decide
      exact
        (div_keeps_iff normalA normalB nonzeroB fits).1
          (keeps.div nonzeroB fits) nonzeroA order top
  · intro stays
    constructor
    case mul =>
      exact mul_keeps normalA normalB
    case div =>
      intro nonzeroB fits
      exact
        (div_keeps_iff normalA normalB nonzeroB fits).2
          (fun nonzeroA => stays.quotientBelowTop nonzeroA nonzeroB)
    case add =>
      intro fits
      exact
        ⟨_, (add_returns_iff normalA normalB fits).2 stays.sumBelowTop,
          addWide_normalized normalA normalB fits,
          fun same =>
            (addWide_error_iff normalA normalB same).2 stays.notThrice⟩
    case sub =>
      intro fits
      rw [subWideIsAdd] at fits
      rw [subIsAdd]
      exact
        ⟨_, (add_returns_iff normalA normalO fits).2 stays.differenceBelowTop,
          addWide_normalized normalA normalO fits⟩
    case mulSwap =>
      exact mul_swap normalA normalB
    case addSwap =>
      exact add_swap normalA normalB

/-- The larger operand `2 ^ 62 + 1` and the smaller one `2 ^ 63 - 1`, 62 bits below. -/
def thriceFirst : Fixed := { m := 0x4000000000000001, e := 100 }

def thriceSecond : Fixed := { m := 0x7FFFFFFFFFFFFFFF, e := 38 }

/-- Their sum is almost three units off: all three truncations drop something. -/
theorem not_keepsError_thrice :
    thriceFirst.Normalized ∧ thriceSecond.Normalized ∧
      ¬ KeepsError thriceFirst thriceSecond := by
  have normalA : thriceFirst.Normalized :=
    .inl ⟨by decide, by decide, by decide⟩
  have normalB : thriceSecond.Normalized :=
    .inl ⟨by decide, by decide, by decide⟩
  refine ⟨normalA, normalB, fun keeps => ?_⟩
  have adds : AddsUp thriceFirst thriceSecond :=
    ⟨by decide, by decide, by decide, by decide⟩
  have low : Low thriceFirst thriceSecond := by
    decide
  have thrice : DropsThrice thriceFirst thriceSecond :=
    ⟨by decide, by decide, by decide⟩
  obtain ⟨result, returned, _, error⟩ :=
    keeps.add (adds.fits_of_low normalA normalB low)
  have same := adds.mul_nonneg
  have within := error same
  rw [eq_addWide_of_add normalA normalB returned,
    addWide_error_iff normalA normalB same] at within
  exact within adds low thrice

/-- The pinned worst case of the tests: the larger operand and `2 ^ 62`. -/
theorem keepsError_iff_pinned :
    KeepsError { m := 0x4000000000000001, e := 100 }
        { m := 0x4000000000000000, e := 38 } ↔
      StaysWithin { m := 0x4000000000000001, e := 100 }
        { m := 0x4000000000000000, e := 38 } :=
  keepsError_iff (.inl ⟨by decide, by decide, by decide⟩)
    (.inl ⟨by decide, by decide, by decide⟩)

end Results

end Jxlz.Fixed
