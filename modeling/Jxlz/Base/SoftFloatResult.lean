import Jxlz.Base.SoftFloat
import Jxlz.Lib.RestoringDivision

namespace Jxlz.Fixed

open Scaled

/-!
# What the soft-float operations return

Each operation is computed with an exponent of any size (`mulWide`, `divWide`,
`addWide`); the source's version returns that result when the exponents that
it checks fit an `i32`.
-/

/-- One bit more is shifted out of a product that fills 126 bits. -/
def mulCarry
    (a b : Fixed) :
    Nat :=
  if 2 ^ 125 ≤ a.m.natAbs * b.m.natAbs then 1 else 0

/-- The signs differ, so that a product or a quotient is negative. -/
def signsDiffer
    (a b : Fixed) :
    Bool :=
  decide (a.m < 0) != decide (b.m < 0)

def mulWide
    (a b : Fixed) :
    Fixed :=
  if a.m = 0 ∨ b.m = 0 then
    zero
  else
    { m :=
        withSign (signsDiffer a b)
          (a.m.natAbs * b.m.natAbs / 2 ^ (62 + mulCarry a b))
      e := a.e + b.e + mulCarry a b }

def divWide
    (a b : Fixed) :
    Fixed :=
  normWide
    (withSign (signsDiffer a b) (a.m.natAbs * 2 ^ 62 / b.m.natAbs))
    (a.e - b.e)

/-- The operand with the larger exponent, the first one if they are equal. -/
def larger
    (a b : Fixed) :
    Fixed :=
  if a.e < b.e then b else a

def smaller
    (a b : Fixed) :
    Fixed :=
  if a.e < b.e then a else b

/-- The distance of the exponents. -/
def gap
    (a b : Fixed) :
    Nat :=
  (a.e - b.e).natAbs

/-- The mantissa of `y`, shifted down by `d` bits. -/
def alignedMantissa
    (y : Fixed)
    (d : Nat) :
    Int :=
  withSign (decide (y.m < 0)) (y.m.natAbs / 2 ^ d)

def addSum
    (x y : Fixed)
    (d : Nat) :
    Int :=
  if signsDiffer x y then
    x.m + y.alignedMantissa d
  else
    x.m.tdiv 2 + (y.alignedMantissa d).tdiv 2

/-- The exponent of the sum before it is renormalized. -/
def addExponent
    (x y : Fixed) :
    Int :=
  if signsDiffer x y then x.e else x.e + 1

def addWide
    (a b : Fixed) :
    Fixed :=
  if a.m = 0 then
    b
  else if b.m = 0 then
    a
  else if 63 ≤ gap a b then
    larger a b
  else
    normWide (addSum (larger a b) (smaller a b) (gap a b))
      (addExponent (larger a b) (smaller a b))

/-- The operand with the other sign. -/
def opposite
    (b : Fixed) :
    Fixed :=
  { m := -b.m, e := b.e }

def subWide
    (a b : Fixed) :
    Fixed :=
  if b.m = 0 then a else addWide a b.opposite

/-- A result whose exponent fits is the one that the operation returns. -/
def Checks
    (computed : Checked Fixed)
    (result : Fixed) :
    Prop :=
  computed = if FitsI32 result.e then .ok result else .error .trap

section Multiplication

variable {a b : Fixed}

theorem product_bounds
    (normalA : a.Normalized)
    (normalB : b.Normalized)
    (nonzeroA : a.m ≠ 0)
    (nonzeroB : b.m ≠ 0) :
    2 ^ 124 ≤ a.m.natAbs * b.m.natAbs ∧ a.m.natAbs * b.m.natAbs < 2 ^ 126 := by
  constructor
  · calc
      2 ^ 124 = 2 ^ 62 * 2 ^ 62 := by
        norm_num
      _ ≤ a.m.natAbs * b.m.natAbs :=
        Nat.mul_le_mul (normalA.large nonzeroA) (normalB.large nonzeroB)
  · calc
      a.m.natAbs * b.m.natAbs < 2 ^ 63 * 2 ^ 63 :=
        Nat.mul_lt_mul'' normalA.small normalB.small
      _ = 2 ^ 126 := by
        norm_num

/-- The two halves are put together again, shifted down as far as needed. -/
theorem mul_eq
    (normalA : a.Normalized)
    (normalB : b.Normalized) :
    Checks (mul a b) (mulWide a b) := by
  unfold Checks
  by_cases isZero : a.m = 0 ∨ b.m = 0
  · simp only [mul, mulWide, isZero, if_true]
    rfl
  have nonzeroA : a.m ≠ 0 := fun same => isZero (.inl same)
  have nonzeroB : b.m ≠ 0 := fun same => isZero (.inr same)
  obtain ⟨large, small⟩ := product_bounds normalA normalB nonzeroA nonzeroB
  simp only [mul, mulWide, isZero, if_false, normalA.magnitude,
    normalB.magnitude, normalA.asserted nonzeroA, normalB.asserted nonzeroB,
    ok_bind, mul128, Nat.shiftRight_eq_div_pow]
  generalize product : a.m.natAbs * b.m.natAbs = p at large small ⊢
  by_cases carries : 2 ^ 125 ≤ p
  · have upper : TWO61 ≤ p / 2 ^ 64 := by
      rw [TWO61]
      omega
    have carry : mulCarry a b = 1 := by
      rw [mulCarry, product, if_pos carries]
    have whole :
        p / 2 ^ 64 * 2 % 2 ^ 64 + p % 2 ^ 64 / 2 ^ 63 = p / 2 ^ (62 + 1) := by
      omega
    have fits : p / 2 ^ (62 + 1) < 2 ^ 63 := by
      omega
    rw [if_pos upper, addU_ok (by omega), ok_bind, whole, carry,
      signed_eq _ fits]
    simp only [require, signsDiffer, Nat.cast_one]
    split <;> rfl
  · have lower : ¬ TWO61 ≤ p / 2 ^ 64 := by
      rw [TWO61]
      omega
    have carry : mulCarry a b = 0 := by
      rw [mulCarry, product, if_neg carries]
    have whole :
        p / 2 ^ 64 * 4 % 2 ^ 64 + p % 2 ^ 64 / 2 ^ 62 = p / 2 ^ (62 + 0) := by
      omega
    have fits : p / 2 ^ (62 + 0) < 2 ^ 63 := by
      omega
    rw [if_neg lower, addU_ok (by omega), ok_bind, whole, carry,
      signed_eq _ fits]
    simp only [require, signsDiffer, Nat.cast_zero, Int.add_zero]
    split <;> rfl

theorem mulWide_normalized
    (normalA : a.Normalized)
    (normalB : b.Normalized)
    (fits : FitsI32 (mulWide a b).e) :
    (mulWide a b).Normalized := by
  by_cases isZero : a.m = 0 ∨ b.m = 0
  · exact .inr (by simp [mulWide, isZero])
  obtain ⟨large, small⟩ :=
    product_bounds normalA normalB (fun same => isZero (.inl same))
      (fun same => isZero (.inr same))
  simp only [mulWide, isZero, if_false] at fits ⊢
  refine .inl ⟨?_, ?_, fits⟩ <;>
    simp only [natAbs_withSign, mulCarry] <;>
    split <;> omega

theorem mulWide_comm
    (a b : Fixed) :
    mulWide a b = mulWide b a := by
  have carry : mulCarry a b = mulCarry b a := by
    rw [mulCarry, mulCarry, Nat.mul_comm]
  have sign : signsDiffer a b = signsDiffer b a :=
    Bool.xor_comm _ _
  simp only [mulWide, carry, sign, Nat.mul_comm a.m.natAbs, Int.add_comm a.e,
    or_comm]

end Multiplication

section Division

variable {a b : Fixed}

/-- The quotient of two full mantissas lacks at most one bit. -/
theorem quotient_bounds
    (normalA : a.Normalized)
    (normalB : b.Normalized)
    (nonzeroA : a.m ≠ 0)
    (nonzeroB : b.m ≠ 0) :
    2 ^ 61 ≤ a.m.natAbs * 2 ^ 62 / b.m.natAbs ∧
      a.m.natAbs * 2 ^ 62 / b.m.natAbs < 2 ^ 63 := by
  have largeA := normalA.large nonzeroA
  have largeB := normalB.large nonzeroB
  have smallA := normalA.small
  have smallB := normalB.small
  constructor
  · rw [Nat.le_div_iff_mul_le (by omega)]
    omega
  · rw [Nat.div_lt_iff_lt_mul (by omega)]
    omega

/-- The quotient fills its bits unless the divisor's mantissa is larger. -/
theorem quotient_large_iff
    (nonzeroB : b.m ≠ 0) :
    2 ^ 62 ≤ a.m.natAbs * 2 ^ 62 / b.m.natAbs ↔ b.m.natAbs ≤ a.m.natAbs := by
  rw [Nat.le_div_iff_mul_le (by omega)]
  omega

/-- The renormalization of the quotient, if there is one, is by one bit. -/
theorem divWide_exponent
    (normalA : a.Normalized)
    (normalB : b.Normalized)
    (nonzeroA : a.m ≠ 0)
    (nonzeroB : b.m ≠ 0) :
    (divWide a b).e =
      a.e - b.e - if b.m.natAbs ≤ a.m.natAbs then 0 else 1 := by
  obtain ⟨large, small⟩ := quotient_bounds normalA normalB nonzeroA nonzeroB
  have full := quotient_large_iff (a := a) nonzeroB
  have nonzero :
      withSign (signsDiffer a b) (a.m.natAbs * 2 ^ 62 / b.m.natAbs) ≠ 0 := by
    rw [← Int.natAbs_ne_zero, natAbs_withSign]
    omega
  simp only [divWide, normWide, nonzero, if_false]
  by_cases order : b.m.natAbs ≤ a.m.natAbs
  · rw [deficit_eq_zero (by rw [natAbs_withSign]; exact full.2 order),
      if_pos order]
    rfl
  · have short : a.m.natAbs * 2 ^ 62 / b.m.natAbs < 2 ^ 62 := by
      rw [← not_le, full]
      exact order
    rw [deficit_eq_one (by rw [natAbs_withSign]; exact large)
      (by rw [natAbs_withSign]; exact short), if_neg order]
    rfl

theorem divWide_zero
    (isZero : a.m = 0) :
    divWide a b = zero := by
  simp [divWide, normWide, isZero, withSign]

theorem divmag_ok
    (normalA : a.Normalized)
    (normalB : b.Normalized)
    (nonzeroA : a.m ≠ 0)
    (nonzeroB : b.m ≠ 0) :
    divmag a.m.natAbs b.m.natAbs = .ok (a.m.natAbs * 2 ^ 62 / b.m.natAbs) := by
  have small := (quotient_bounds normalA normalB nonzeroA nonzeroB).2
  rw [divmag, Nat.shiftLeft_eq, castU_ok (by omega)]

theorem div_eq
    (normalA : a.Normalized)
    (normalB : b.Normalized)
    (nonzeroB : b.m ≠ 0)
    (fits : a.m = 0 ∨ FitsI32 (a.e - b.e)) :
    Checks (div a b) (divWide a b) := by
  unfold Checks
  by_cases isZero : a.m = 0
  · rw [divWide_zero isZero]
    simp only [div, require_ok nonzeroB, ok_bind, isZero, if_true]
    rfl
  · have inRange := fits.resolve_left isZero
    have small := (quotient_bounds normalA normalB isZero nonzeroB).2
    simp only [div, require_ok nonzeroB, ok_bind, isZero, if_false,
      normalA.magnitude, normalB.magnitude, normalA.asserted isZero,
      normalB.asserted nonzeroB, divmag_ok normalA normalB isZero nonzeroB,
      require_ok inRange, signed_eq _ small]
    exact norm_eq (by rw [natAbs_withSign]; exact small) inRange

/-- The exponent is checked before the quotient is renormalized. -/
theorem div_stops
    (normalA : a.Normalized)
    (normalB : b.Normalized)
    (nonzeroA : a.m ≠ 0)
    (nonzeroB : b.m ≠ 0)
    (outside : ¬ FitsI32 (a.e - b.e)) :
    div a b = .error .trap := by
  have stops : require (FitsI32 (a.e - b.e)) = .error .trap :=
    if_neg outside
  simp only [div, require_ok nonzeroB, ok_bind, nonzeroA, if_false,
    normalA.magnitude, normalB.magnitude, normalA.asserted nonzeroA,
    normalB.asserted nonzeroB, divmag_ok normalA normalB nonzeroA nonzeroB,
    stops, error_bind]

theorem divWide_normalized
    (normalA : a.Normalized)
    (normalB : b.Normalized)
    (nonzeroB : b.m ≠ 0)
    (fits : FitsI32 (divWide a b).e) :
    (divWide a b).Normalized := by
  by_cases isZero : a.m = 0
  · exact .inr (divWide_zero isZero)
  · have small := (quotient_bounds normalA normalB isZero nonzeroB).2
    exact normWide_normalized (by rw [natAbs_withSign]; exact small) fits

end Division

section Addition

variable {a b x y : Fixed}
variable {d : Nat}

theorem alignedTo_eq
    (normal : y.Normalized)
    (d : Nat) :
    y.alignedTo d = y.alignedMantissa d := by
  have fits : y.m.natAbs / 2 ^ d < 2 ^ 63 :=
    Nat.lt_of_le_of_lt (Nat.div_le_self _ _) normal.small
  have restored := signed_eq (decide (y.m < 0)) fits
  simpa only [alignedTo, alignedMantissa, signed, Nat.shiftRight_eq_div_pow,
    decide_eq_true_eq] using restored

theorem natAbs_alignedMantissa
    (y : Fixed)
    (d : Nat) :
    (y.alignedMantissa d).natAbs = y.m.natAbs / 2 ^ d :=
  natAbs_withSign _ _

/-- At a gap below 63 something of the smaller operand is left. -/
theorem aligned_positive
    (normal : y.Normalized)
    (nonzero : y.m ≠ 0)
    (near : d < 63) :
    0 < y.m.natAbs / 2 ^ d := by
  refine Nat.div_pos ?_ (Nat.two_pow_pos d)
  calc
    2 ^ d ≤ 2 ^ 62 := Nat.pow_le_pow_right (by decide) (by omega)
    _ ≤ y.m.natAbs := normal.large nonzero

theorem alignedMantissa_sign
    (normal : y.Normalized)
    (nonzero : y.m ≠ 0)
    (near : d < 63) :
    decide (y.alignedMantissa d < 0) = decide (y.m < 0) := by
  have positive := aligned_positive normal nonzero near
  by_cases negative : y.m < 0
  · simp only [alignedMantissa, withSign, negative, decide_true, if_true,
      decide_eq_true_eq]
    omega
  · simp only [alignedMantissa, withSign, negative, decide_false,
      Bool.false_eq_true, if_false, decide_eq_false_iff_not]
    omega

/-- The halves of two mantissas with one sign. -/
theorem addSum_same
    (same : signsDiffer x y = false) :
    addSum x y d =
      withSign (decide (x.m < 0)) (x.m.natAbs / 2 + y.m.natAbs / 2 ^ d / 2) := by
  have half (isNeg : Bool) (n : Nat) :
      (withSign isNeg n).tdiv 2 = withSign isNeg (n / 2) := by
    cases isNeg
    · simp [withSign]
    · simp [withSign, Int.neg_tdiv]
  have sign : decide (y.m < 0) = decide (x.m < 0) := by
    rw [signsDiffer, bne_eq_false_iff_eq] at same
    exact same.symm
  have whole : x.m.tdiv 2 = withSign (decide (x.m < 0)) (x.m.natAbs / 2) := by
    rw [← half, withSign_natAbs]
  rw [addSum, same, if_neg (by decide), alignedMantissa, half, sign, whole,
    withSign_add]

/-- A sum of halves misses at most one bit. -/
theorem addSum_same_bounds
    (normalX : x.Normalized)
    (normalY : y.Normalized)
    (nonzeroX : x.m ≠ 0)
    (same : signsDiffer x y = false) :
    2 ^ 61 ≤ (addSum x y d).natAbs ∧ (addSum x y d).natAbs < 2 ^ 63 := by
  have large := normalX.large nonzeroX
  have small := normalX.small
  have part : y.m.natAbs / 2 ^ d < 2 ^ 63 :=
    Nat.lt_of_le_of_lt (Nat.div_le_self _ _) normalY.small
  rw [addSum_same same, natAbs_withSign]
  generalize y.m.natAbs / 2 ^ d = aligned at part ⊢
  constructor <;> omega

theorem addSum_small
    (normalX : x.Normalized)
    (normalY : y.Normalized)
    (nonzeroX : x.m ≠ 0)
    (nonzeroY : y.m ≠ 0)
    (near : d < 63) :
    (addSum x y d).natAbs < 2 ^ 63 := by
  cases signs : signsDiffer x y with
  | false =>
      exact (addSum_same_bounds normalX normalY nonzeroX signs).2
  | true =>
      -- Numbers of opposite signs are both longer than their sum.
      have smallX := normalX.small
      have smallY := normalY.small
      have part : (y.alignedMantissa d).natAbs < 2 ^ 63 := by
        rw [natAbs_alignedMantissa]
        exact Nat.lt_of_le_of_lt (Nat.div_le_self _ _) smallY
      have sign := alignedMantissa_sign normalY nonzeroY near
      have opposed : decide (x.m < 0) ≠ decide (y.alignedMantissa d < 0) := by
        rw [sign]
        simpa only [signsDiffer, bne_iff_ne] using signs
      have split : (x.m < 0) ≠ (y.alignedMantissa d < 0) := by
        intro equal
        exact opposed (by simp only [equal])
      rw [addSum, signs, if_pos rfl]
      have cases : ¬ (x.m < 0 ↔ y.alignedMantissa d < 0) :=
        fun equal => split (propext equal)
      omega

/-- The source's two ways of adding, as one. -/
theorem addOrdered_eq
    (normalX : x.Normalized)
    (normalY : y.Normalized)
    (nonzeroX : x.m ≠ 0)
    (nonzeroY : y.m ≠ 0)
    (near : d < 63)
    (fits : FitsI32 (addExponent x y)) :
    Checks (addOrdered x y d) (normWide (addSum x y d) (addExponent x y)) := by
  have small := addSum_small normalX normalY nonzeroX nonzeroY near
  have positive := aligned_positive normalY nonzeroY near
  have some : y.alignedMantissa d ≠ 0 := by
    rw [← Int.natAbs_ne_zero, natAbs_alignedMantissa]
    omega
  have far : ¬ 63 ≤ d := by
    omega
  have renormalized := norm_eq small fits
  unfold Checks
  rw [← renormalized]
  simp only [addOrdered, far, if_false, alignedTo_eq normalY, some,
    alignedMantissa_sign normalY nonzeroY near]
  cases signs : signsDiffer x y with
  | false =>
      have sign : decide (x.m < 0) = decide (y.m < 0) := by
        simpa only [signsDiffer, bne_eq_false_iff_eq] using signs
      have sum : addSum x y d = x.m.tdiv 2 + (y.alignedMantissa d).tdiv 2 := by
        simp [addSum, signs]
      have exponent : addExponent x y = x.e + 1 := by
        simp [addExponent, signs]
      have nonzero : addSum x y d ≠ 0 := by
        have large := (addSum_same_bounds (d := d) normalX normalY nonzeroX signs).1
        omega
      rw [exponent] at fits ⊢
      rw [sum] at small nonzero ⊢
      rw [if_pos sign, addI64_ok (by omega) (by omega), ok_bind,
        if_neg nonzero, require_ok fits, ok_bind]
  | true =>
      have sign : ¬ decide (x.m < 0) = decide (y.m < 0) := by
        simpa only [signsDiffer, bne_iff_ne] using signs
      have sum : addSum x y d = x.m + y.alignedMantissa d := by
        simp [addSum, signs]
      have exponent : addExponent x y = x.e := by
        simp [addExponent, signs]
      rw [exponent] at fits ⊢
      rw [sum] at small ⊢
      rw [if_neg sign, addI64_ok (by omega) (by omega), ok_bind,
        require_ok fits, ok_bind]
      split
      next isZero =>
        rw [isZero]
        rfl
      next => rfl

/-- The exponent is checked before the sum is renormalized. -/
theorem addOrdered_stops
    (normalX : x.Normalized)
    (normalY : y.Normalized)
    (nonzeroX : x.m ≠ 0)
    (nonzeroY : y.m ≠ 0)
    (near : d < 63)
    (outside : ¬ FitsI32 (addExponent x y)) :
    addOrdered x y d = .error .trap := by
  have signs : signsDiffer x y = false := by
    cases signs : signsDiffer x y with
    | false => rfl
    | true =>
        rw [addExponent, signs, if_pos rfl] at outside
        exact absurd normalX.fits outside
  have sign : decide (x.m < 0) = decide (y.m < 0) := by
    simpa only [signsDiffer, bne_eq_false_iff_eq] using signs
  have small := addSum_small normalX normalY nonzeroX nonzeroY near
  have large := (addSum_same_bounds (d := d) normalX normalY nonzeroX signs).1
  have positive := aligned_positive normalY nonzeroY near
  have some : y.alignedMantissa d ≠ 0 := by
    rw [← Int.natAbs_ne_zero, natAbs_alignedMantissa]
    omega
  have far : ¬ 63 ≤ d := by
    omega
  have sum : addSum x y d = x.m.tdiv 2 + (y.alignedMantissa d).tdiv 2 := by
    simp [addSum, signs]
  have exponent : addExponent x y = x.e + 1 := by
    simp [addExponent, signs]
  rw [exponent] at outside
  rw [sum] at small large
  have stops : require (FitsI32 (x.e + 1)) = .error .trap :=
    if_neg outside
  simp only [addOrdered, far, if_false, alignedTo_eq normalY, some,
    alignedMantissa_sign normalY nonzeroY near]
  rw [if_pos sign, addI64_ok (by omega) (by omega), ok_bind,
    if_neg (by omega), stops, error_bind]

theorem signsDiffer_comm
    (a b : Fixed) :
    signsDiffer a b = signsDiffer b a :=
  Bool.xor_comm _ _

theorem gap_comm
    (a b : Fixed) :
    gap a b = gap b a := by
  rw [gap, gap]
  omega

/-- Which operand comes first matters only at equal exponents. -/
theorem larger_comm
    (apart : a.e ≠ b.e) :
    larger a b = larger b a ∧ smaller a b = smaller b a := by
  rcases Int.lt_or_gt_of_ne apart with below | above
  · simp [larger, smaller, below, Int.not_lt.2 (Int.le_of_lt below)]
  · simp [larger, smaller, above, Int.not_lt.2 (Int.le_of_lt above)]

/-- The two operands in the order in which they are added. -/
theorem ordered_cases
    (a b : Fixed) :
    (larger a b = a ∧ smaller a b = b) ∨ (larger a b = b ∧ smaller a b = a) := by
  rw [larger, smaller]
  split
  · exact .inr ⟨rfl, rfl⟩
  · exact .inl ⟨rfl, rfl⟩

theorem exponent_larger
    (a b : Fixed) :
    (larger a b).e = (smaller a b).e + gap a b := by
  rw [larger, smaller, gap]
  split <;> omega

theorem add_eq_addOrdered
    (nonzeroA : a.m ≠ 0)
    (nonzeroB : b.m ≠ 0) :
    add a b = addOrdered (larger a b) (smaller a b) (gap a b) := by
  rw [add, if_neg nonzeroA, if_neg nonzeroB, larger, smaller, gap]
  split
  · congr 1
    omega
  · congr 1
    omega

theorem addSum_comm
    (a b : Fixed) :
    addSum a b 0 = addSum b a 0 := by
  cases signs : signsDiffer a b with
  | true =>
      have signs' := (signsDiffer_comm b a).trans signs
      simp only [addSum, signs, signs', if_true, alignedMantissa, Nat.pow_zero,
        Nat.div_one, withSign_natAbs]
      exact Int.add_comm _ _
  | false =>
      have signs' := (signsDiffer_comm b a).trans signs
      have sign : decide (a.m < 0) = decide (b.m < 0) := by
        simpa only [signsDiffer, bne_eq_false_iff_eq] using signs
      rw [addSum_same signs, addSum_same signs', sign, Nat.pow_zero,
        Nat.div_one, Nat.div_one, Nat.add_comm]

/-- The order of the operands does not matter, not even where `add` stops. -/
theorem add_swap
    (normalA : a.Normalized)
    (normalB : b.Normalized) :
    add a b = add b a := by
  by_cases zeroA : a.m = 0
  · by_cases zeroB : b.m = 0
    · rw [normalA.eq_zero zeroA, normalB.eq_zero zeroB]
    · rw [add, if_pos zeroA, add, if_neg zeroB, if_pos zeroA]
  by_cases zeroB : b.m = 0
  · rw [add, if_neg zeroA, if_pos zeroB, add, if_pos zeroB]
  rw [add_eq_addOrdered zeroA zeroB, add_eq_addOrdered zeroB zeroA, gap_comm b a]
  by_cases apart : a.e = b.e
  · have noGap : gap a b = 0 := by
      rw [gap]
      omega
    have same (x y : Fixed) (equal : x.e = y.e) :
        larger x y = x ∧ smaller x y = y := by
      simp [larger, smaller, equal]
    rw [(same a b apart).1, (same a b apart).2, (same b a apart.symm).1,
      (same b a apart.symm).2, noGap]
    have exponent : addExponent a b = addExponent b a := by
      rw [addExponent, addExponent, signsDiffer_comm, apart]
    by_cases fits : FitsI32 (addExponent a b)
    · have first :=
        addOrdered_eq normalA normalB zeroA zeroB (d := 0) (by decide) fits
      have second :=
        addOrdered_eq normalB normalA zeroB zeroA (d := 0) (by decide)
          (exponent ▸ fits)
      rw [Checks] at first second
      rw [first, second, addSum_comm a b, exponent]
    · rw [addOrdered_stops normalA normalB zeroA zeroB (by decide) fits,
        addOrdered_stops normalB normalA zeroB zeroA (by decide)
          (exponent ▸ fits)]
  · rw [(larger_comm apart).1, (larger_comm apart).2]

theorem larger_normalized
    (normalA : a.Normalized)
    (normalB : b.Normalized) :
    (larger a b).Normalized ∧ (smaller a b).Normalized := by
  rcases ordered_cases a b with ⟨first, second⟩ | ⟨first, second⟩
  · rw [first, second]
    exact ⟨normalA, normalB⟩
  · rw [first, second]
    exact ⟨normalB, normalA⟩

theorem larger_nonzero
    (nonzeroA : a.m ≠ 0)
    (nonzeroB : b.m ≠ 0) :
    (larger a b).m ≠ 0 ∧ (smaller a b).m ≠ 0 := by
  rcases ordered_cases a b with ⟨first, second⟩ | ⟨first, second⟩
  · rw [first, second]
    exact ⟨nonzeroA, nonzeroB⟩
  · rw [first, second]
    exact ⟨nonzeroB, nonzeroA⟩

/-- The addition never checks an exponent, or the one it checks fits. -/
def AddReady
    (a b : Fixed) :
    Prop :=
  a.m ≠ 0 → b.m ≠ 0 → gap a b < 63 →
    FitsI32 (addExponent (larger a b) (smaller a b))

theorem add_eq
    (normalA : a.Normalized)
    (normalB : b.Normalized)
    (ready : AddReady a b) :
    Checks (add a b) (addWide a b) := by
  unfold Checks
  by_cases zeroA : a.m = 0
  · rw [add, addWide, if_pos zeroA, if_pos zeroA, if_pos normalB.fits]
  by_cases zeroB : b.m = 0
  · rw [add, addWide, if_neg zeroA, if_neg zeroA, if_pos zeroB, if_pos zeroB,
      if_pos normalA.fits]
  obtain ⟨normalX, normalY⟩ := larger_normalized normalA normalB
  obtain ⟨nonzeroX, nonzeroY⟩ := larger_nonzero zeroA zeroB
  rw [add_eq_addOrdered zeroA zeroB, addWide, if_neg zeroA, if_neg zeroB]
  by_cases far : 63 ≤ gap a b
  · rw [if_pos far, if_pos normalX.fits]
    simp only [addOrdered, far, if_true, pure_eq_ok]
  · rw [if_neg far]
    have near : gap a b < 63 := by
      omega
    exact
      addOrdered_eq normalX normalY nonzeroX nonzeroY near
        (ready zeroA zeroB near)

theorem add_stops
    (normalA : a.Normalized)
    (normalB : b.Normalized)
    (stops : ¬ AddReady a b) :
    add a b = .error .trap := by
  simp only [AddReady, Classical.not_imp] at stops
  obtain ⟨zeroA, zeroB, near, outside⟩ := stops
  obtain ⟨normalX, normalY⟩ := larger_normalized normalA normalB
  obtain ⟨nonzeroX, nonzeroY⟩ := larger_nonzero zeroA zeroB
  rw [add_eq_addOrdered zeroA zeroB,
    addOrdered_stops normalX normalY nonzeroX nonzeroY near outside]

theorem addWide_normalized
    (normalA : a.Normalized)
    (normalB : b.Normalized)
    (fits : FitsI32 (addWide a b).e) :
    (addWide a b).Normalized := by
  unfold addWide at fits ⊢
  split
  · exact normalB
  next zeroA =>
    rw [if_neg zeroA] at fits
    split
    · exact normalA
    next zeroB =>
      rw [if_neg zeroB] at fits
      obtain ⟨normalX, normalY⟩ := larger_normalized normalA normalB
      obtain ⟨nonzeroX, nonzeroY⟩ := larger_nonzero zeroA zeroB
      split
      · exact normalX
      next near =>
        rw [if_neg near] at fits
        exact normWide_normalized
          (addSum_small normalX normalY nonzeroX nonzeroY (by omega)) fits

end Addition

end Jxlz.Fixed

namespace Jxlz.SoftFloatReference

open Fixed Scaled RestoringDivision

/-!
# The soft-float kernel before its optimization

Mirrors `add`, `divmag` and `div` of `soft_float_reference.zig`, whose `norm` is
the one of `soft_float.zig`: an addition that aligns by a signed division, and a
quotient from 62 rounds of restoring division.
-/

/-- The sum once `x` has the larger exponent, at a gap of `d`. -/
def addOrdered
    (x y : Fixed)
    (d : Nat) :
    Checked Fixed := do
  if 63 ≤ d then
    return x
  let shifted := y.m.tdiv (2 ^ d)
  if shifted = 0 then
    return x
  if decide (x.m < 0) = decide (shifted < 0) then
    let sum ← addI64 (x.m.tdiv 2) (shifted.tdiv 2)
    if sum = 0 then
      return zero
    require (FitsI32 (x.e + 1))
    norm sum (x.e + 1)
  else
    let sum ← addI64 x.m shifted
    if sum = 0 then
      return zero
    require (FitsI32 x.e)
    norm sum x.e

def add
    (a b : Fixed) :
    Checked Fixed :=
  if a.m = 0 then
    .ok b
  else if b.m = 0 then
    .ok a
  else if a.e < b.e then
    addOrdered b a (b.e - a.e).toNat
  else
    addOrdered a b (a.e - b.e).toNat

/-- One round: `rem` and `fbits` are doubled, and `b` is taken off where it fits. -/
def divRound
    (b : Nat)
    (state : State) :
    Checked State := do
  let rem ← mulU 64 state.remainder 2
  let fbits ← mulU 64 state.digits 2
  if b ≤ rem then
    let rem ← subU rem b
    let fbits ← addU 64 fbits 1
    return { remainder := rem, digits := fbits }
  else
    return { remainder := rem, digits := fbits }

def divmag
    (a b : Nat) :
    Checked Nat := do
  require (b ≠ 0)
  let q0 := a / b
  let state ←
    (List.range 62).foldlM (fun state _ => divRound b state)
      { remainder := a % b, digits := 0 }
  let scaled ← mulU 64 q0 TWO62
  addU 64 scaled state.digits

def div
    (a b : Fixed) :
    Checked Fixed := do
  require (b.m ≠ 0)
  if a.m = 0 then
    return zero
  let is_neg := decide (a.m < 0) != decide (b.m < 0)
  let ua := a.magnitude
  let ub := b.magnitude
  assertNormalized ua
  assertNormalized ub
  let quotient ← divmag ua ub
  let es := a.e - b.e
  require (FitsI32 es)
  norm (signed is_neg quotient) es

/-- Dividing a signed mantissa truncates its magnitude. -/
theorem tdiv_two_pow
    {y : Fixed}
    (normalized : y.Normalized)
    (d : Nat) :
    y.m.tdiv (2 ^ d) = y.alignedTo d := by
  have power : ((2 ^ d : Nat) : Int) = 2 ^ d := by
    push_cast
    rfl
  rw [alignedTo_eq normalized, alignedMantissa, ← power]
  by_cases negative : y.m < 0
  · obtain ⟨n, isMantissa⟩ := Int.eq_ofNat_of_zero_le (show 0 ≤ -y.m by omega)
    have flipped : y.m = -(n : Int) := by
      omega
    rw [decide_eq_true negative, flipped, Int.neg_tdiv, Int.natAbs_neg,
      Int.natAbs_natCast]
    rfl
  · obtain ⟨n, isMantissa⟩ := Int.eq_ofNat_of_zero_le (Int.not_lt.1 negative)
    rw [decide_eq_false negative, isMantissa, Int.natAbs_natCast]
    rfl

theorem addOrdered_eq
    {x y : Fixed}
    (normalized : y.Normalized)
    (d : Nat) :
    addOrdered x y d = Fixed.addOrdered x y d := by
  unfold addOrdered Fixed.addOrdered
  rw [tdiv_two_pow normalized]

/-- The alignment by a signed division and the one by a shift give the same sum. -/
theorem add_eq
    {a b : Fixed}
    (normalA : a.Normalized)
    (normalB : b.Normalized) :
    add a b = Fixed.add a b := by
  unfold add Fixed.add
  rw [addOrdered_eq normalA, addOrdered_eq normalB]

/-- A round in 64 bits is a round, as long as its numbers have room to double. -/
theorem divRound_eq
    {b : Nat}
    {state : State}
    (small : state.remainder < 2 ^ 63)
    (room : state.digits < 2 ^ 62) :
    divRound b state = .ok (round b state) := by
  unfold divRound RestoringDivision.round
  rw [mulU_ok (by omega), ok_bind, mulU_ok (by omega), ok_bind,
    Nat.mul_comm state.remainder, Nat.mul_comm state.digits]
  by_cases fits : b ≤ 2 * state.remainder
  · rw [if_pos fits, if_pos fits, subU_ok fits, ok_bind, addU_ok (by omega), ok_bind]
    rfl
  · rw [if_neg fits, if_neg fits]
    rfl

/-- The rounds find the digits behind the point. -/
theorem divRounds_eq
    {numerator b : Nat}
    (small : numerator < b)
    (fits : b ≤ 2 ^ 63) :
    ∃ state,
      (List.range 62).foldlM (fun state _ => divRound b state)
          { remainder := numerator, digits := 0 } = .ok state ∧
        Divided numerator b 62 state := by
  apply foldlM_range_ok (Divided numerator b)
  · exact divided_zero small
  · intro position state inside divided
    have rest := divided.small
    have digits : state.digits < 2 ^ 62 :=
      Nat.lt_of_lt_of_le (divided.digits_lt small)
        (Nat.pow_le_pow_right (by decide) (by omega))
    exact ⟨round b state, divRound_eq (by omega) digits, divided.round⟩

/-- Both ways to divide give the same quotient. -/
theorem divmag_eq
    {a b : Nat}
    (normalA : a < 2 ^ 63)
    (normalB : b < 2 ^ 63)
    (large : 2 ^ 62 ≤ b) :
    divmag a b = Fixed.divmag a b := by
  have positive : 0 < b := by
    omega
  obtain ⟨state, ran, divided⟩ := divRounds_eq (Nat.mod_lt a positive) normalB.le
  have whole : a / b * TWO62 + state.digits = (a <<< 62) / b := by
    rw [divided.digits_eq, Nat.shiftLeft_eq, quotient_split a b 62 positive]
    rfl
  have digits := divided.digits_lt (Nat.mod_lt a positive)
  have quotient : a / b ≤ 1 := by
    apply Nat.le_of_lt_succ
    apply Nat.div_lt_of_lt_mul
    omega
  have scaled : a / b * TWO62 ≤ TWO62 := by
    calc
      a / b * TWO62 ≤ 1 * TWO62 := Nat.mul_le_mul_right _ quotient
      _ = TWO62 := Nat.one_mul _
  have limit : TWO62 = 2 ^ 62 := rfl
  unfold divmag Fixed.divmag
  rw [require_ok positive.ne', ok_bind, ran, ok_bind, mulU_ok (by omega), ok_bind,
    addU_ok (by omega), whole, castU_ok (by omega)]

theorem div_eq
    {a b : Fixed}
    (normalA : a.Normalized)
    (normalB : b.Normalized) :
    div a b = Fixed.div a b := by
  unfold div Fixed.div
  by_cases zeroB : b.m = 0
  · have stops : require (b.m ≠ 0) = .error .trap := if_neg (not_not.2 zeroB)
    rw [stops, error_bind, error_bind]
  · dsimp only
    rw [normalA.magnitude, normalB.magnitude,
      divmag_eq normalA.small normalB.small (normalB.large zeroB)]

/--
The optimized operations return what the reference returns, and stop where it
stops, on all normalized operands.
-/
theorem optimized_eq_reference
    {a b : Fixed}
    (normalA : a.Normalized)
    (normalB : b.Normalized) :
    Fixed.div a b = div a b ∧ Fixed.add a b = add a b :=
  ⟨(div_eq normalA normalB).symm, (add_eq normalA normalB).symm⟩

/-- A third, and a sum that drops bits of a negative operand. -/
theorem optimized_eq_reference_third :
    div { m := 2 ^ 62, e := 0 } { m := -(3 * 2 ^ 61), e := 1 } =
        .ok { m := -6148914691236517204, e := -2 } ∧
      add { m := 2 ^ 62 + 1, e := 3 } { m := -(2 ^ 62 + 7), e := 0 } =
        .ok { m := 8070450532247928834, e := 2 } := by
  have normal {m : Int} {e : Int}
      (large : 2 ^ 62 ≤ m.natAbs)
      (small : m.natAbs < 2 ^ 63)
      (fits : FitsI32 e) :
      Fixed.Normalized { m, e } :=
    .inl ⟨large, small, fits⟩
  obtain ⟨quotient, _⟩ :=
    optimized_eq_reference
      (normal (m := 2 ^ 62) (e := 0) (by decide) (by decide) (by decide))
      (normal (m := -(3 * 2 ^ 61)) (e := 1) (by decide) (by decide) (by decide))
  obtain ⟨_, sum⟩ :=
    optimized_eq_reference
      (normal (m := 2 ^ 62 + 1) (e := 3) (by decide) (by decide) (by decide))
      (normal (m := -(2 ^ 62 + 7)) (e := 0) (by decide) (by decide) (by decide))
  rw [← quotient, ← sum]
  decide +kernel

end Jxlz.SoftFloatReference
