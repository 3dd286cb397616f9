import Jxlz.Base.Binary32Fused

namespace Jxlz.Binary32

open NearestEven Scaled

/-!
# The fused multiply-add on all words

Infinities, zeros and a missing addend are decided before any sum.  With them the
narrow and the wide version agree with the exact one on every word but NaN.
-/

/-! The words that need no sum. -/

theorem masked_infinite
    (word : UInt32) :
    word &&& 0x7fffffff = 0x7f800000 ↔ IsInfinite word :=
  and_magnitude_eq_iff word (show 0x7f800000 < 2 ^ 31 by decide)

theorem masked_zero
    (word : UInt32) :
    word &&& 0x7fffffff = 0 ↔ IsZero word :=
  and_magnitude_eq_iff word (show 0 < 2 ^ 31 by decide)

variable {word : UInt32}

theorem value_eq_zero
    (isZero : IsZero word) :
    value word = 0 := by
  unfold IsZero at isZero
  rw [value_eq_scaled, isZero]
  cases isNegative word with
  | true => simp [withSign, significand]
  | false => simp [withSign, significand]

theorem infinity_eq
    (isInfinite : IsInfinite word) :
    infinity (isNegative word) = word := by
  unfold IsInfinite at isInfinite
  have whole := signWord_or_magnitude word
  rw [isInfinite] at whole
  exact whole

/-- A finite word that is not zero is the word nearest to its value. -/
theorem nearest32_value
    (finite : IsFinite word)
    (nonzero : ¬IsZero word) :
    value word ≠ 0 ∧ nearest32 (value word) = word := by
  have digits := significand_ne_zero nonzero
  have short := significand_lt (magnitude word)
  have unit : (0 : ℚ) < 2 ^ place (magnitude word) := unit_pos _
  have positive : 0 < magnitudeValue (magnitude word) := by
    unfold magnitudeValue scaled
    have some : (0 : ℚ) < ((significand (magnitude word) : Nat) : Int) := by
      exact_mod_cast Nat.pos_of_ne_zero digits
    positivity
  have size : |value word| = magnitudeValue (magnitude word) :=
    abs_signedBy _ positive.le
  have sign : decide (value word < 0) = isNegative word := by
    unfold value
    cases isNegative word with
    | true =>
        exact decide_eq_true (neg_neg_of_pos positive)
    | false =>
        exact decide_eq_false (not_lt.2 positive.le)
  have split (k : Nat) :
      (2 : ℚ) ^ (place (magnitude word) + k) = 2 ^ k * 2 ^ place (magnitude word) := by
    rw [zpow_add₀ (by norm_num), zpow_natCast, mul_comm]
  have full : place (magnitude word) = leastPlace ∨
      2 ^ 23 ≤ significand (magnitude word) := by
    unfold place significand leastPlace
    split
    next subnormal =>
      rw [Nat.div_eq_of_lt subnormal]
      exact .inl rfl
    next normal =>
      exact .inr (Nat.le_add_left _ _)
  have rounds :
      Rounds |value word| (place (magnitude word)) (significand (magnitude word)) := by
    rw [size]
    refine rounds_of_nearest (leastPlace_le_place _) ?_ ?_ ?_
    · rw [show (24 : Int) = (24 : Nat) by rfl, split]
      unfold magnitudeValue scaled
      apply mul_lt_mul_of_pos_right _ unit
      exact_mod_cast short
    · rcases full with isLeast | normal
      · exact .inl isLeast
      · refine .inr ?_
        rw [show (23 : Int) = (23 : Nat) by rfl, split]
        unfold magnitudeValue scaled
        apply mul_le_mul_of_nonneg_right _ unit.le
        exact_mod_cast normal
    · unfold magnitudeValue scaled
      rw [mul_div_cancel_right₀ _ unit.ne']
      exact isNearestEven_intCast _
  have nonzeroValue : value word ≠ 0 := by
    intro isZero
    rw [isZero, abs_zero] at size
    exact positive.ne size
  have isBits : nearestBits |value word| = magnitude word := by
    unfold IsFinite at finite
    have least := leastPlace_le_place (magnitude word)
    rw [rounds.nearestBits_eq (abs_pos.2 nonzeroValue)]
    unfold place significand leastPlace at *
    split
    next subnormal =>
      omega
    next normal =>
      omega
  refine ⟨nonzeroValue, ?_⟩
  unfold nearest32
  rw [sign, isBits]
  exact signWord_or_magnitude word

/-- Neither infinite nor NaN. -/
theorem finite_of_not_nan
    (number : isNan word = false)
    (notInfinite : ¬IsInfinite word) :
    IsFinite word := by
  have small : ¬0x7f800000 < magnitude word := by
    rw [← isNan_iff, number]
    exact Bool.false_ne_true
  unfold IsFinite
  unfold IsInfinite at notInfinite
  omega

theorem magnitudeValue_nonneg
    (bits : Nat) :
    0 ≤ magnitudeValue bits := by
  unfold magnitudeValue scaled
  have unit := unit_pos (place bits)
  positivity

theorem magnitudeValue_pos
    (nonzero : ¬IsZero word) :
    0 < magnitudeValue (magnitude word) := by
  have unit := unit_pos (place (magnitude word))
  have some : (0 : ℚ) < ((significand (magnitude word) : Nat) : Int) := by
    exact_mod_cast Nat.pos_of_ne_zero (significand_ne_zero nonzero)
  unfold magnitudeValue scaled
  positivity

variable {a b c : UInt32}

/-- Product and addend cancel only with different signs, or where both are zero. -/
theorem cancelled_sign
    (someTerm : ¬((IsZero a ∨ IsZero b) ∧ IsZero c))
    (cancelled : value a * value b + value c = 0) :
    ((isNegative a != isNegative b) && isNegative c) = false := by
  have nonneg := magnitudeValue_nonneg
  have positive :
      0 < magnitudeValue (magnitude a) * magnitudeValue (magnitude b) +
        magnitudeValue (magnitude c) := by
    by_cases zeroC : IsZero c
    · obtain ⟨nonzeroA, nonzeroB⟩ := not_or.1 (fun zero => someTerm ⟨zero, zeroC⟩)
      have product :=
        mul_pos (magnitudeValue_pos nonzeroA) (magnitudeValue_pos nonzeroB)
      exact add_pos_of_pos_of_nonneg product (nonneg _)
    · exact add_pos_of_nonneg_of_pos (mul_nonneg (nonneg _) (nonneg _))
        (magnitudeValue_pos zeroC)
  apply signs_differ positive
  rw [← cancelled, ← signedBy_mul]
  rfl

/-- With finite words and a term that is not zero the exact sum is rounded. -/
theorem exactFma_finite
    (finiteA : ¬IsInfinite a)
    (finiteB : ¬IsInfinite b)
    (finiteC : ¬IsInfinite c)
    (someTerm : ¬((IsZero a ∨ IsZero b) ∧ IsZero c)) :
    exactFma a b c = roundOrZero (value a * value b + value c) := by
  unfold exactFma roundOrZero
  dsimp only
  rw [if_neg (not_or.2 ⟨finiteA, finiteB⟩), if_neg finiteC]
  by_cases cancelled : value a * value b + value c = 0
  · rw [if_pos cancelled, if_pos cancelled, cancelled_sign someTerm cancelled]
    rfl
  · rw [if_neg cancelled, if_neg cancelled]

/-- The cases that both versions decide before any sum. -/
theorem exactFma_special
    (a b c : UInt32) :
    exactFma a b c =
      if IsInfinite a ∨ IsInfinite b then
        if IsZero a ∨ IsZero b ∨
            (IsInfinite c ∧
              signWord (isNegative a != isNegative b) ≠ signWord (isNegative c)) then
          0x7fc00000
        else
          signWord (isNegative a != isNegative b) ||| 0x7f800000
      else if IsInfinite c then
        c
      else if (IsZero a ∨ IsZero b) ∧ IsZero c then
        signWord (isNegative a != isNegative b) &&& c
      else
        roundOrZero (value a * value b + value c) := by
  by_cases infinite : IsInfinite a ∨ IsInfinite b
  · unfold exactFma
    dsimp only
    rw [if_pos infinite, if_pos infinite]
    simp only [ne_eq, signWord_inj]
    rfl
  · obtain ⟨finiteA, finiteB⟩ := not_or.1 infinite
    rw [if_neg infinite]
    by_cases infiniteC : IsInfinite c
    · unfold exactFma
      dsimp only
      rw [if_neg infinite, if_pos infiniteC, if_pos infiniteC]
      exact infinity_eq infiniteC
    · rw [if_neg infiniteC]
      by_cases noTerm : (IsZero a ∨ IsZero b) ∧ IsZero c
      · obtain ⟨zeroFactor, zeroC⟩ := noTerm
        have product : value a * value b = 0 := by
          rcases zeroFactor with zeroA | zeroB
          · rw [value_eq_zero zeroA, zero_mul]
          · rw [value_eq_zero zeroB, mul_zero]
        unfold exactFma
        dsimp only
        rw [if_neg infinite, if_neg infiniteC, product, value_eq_zero zeroC,
          if_pos (add_zero 0), if_pos (And.intro zeroFactor zeroC), signWord_and]
      · rw [if_neg noTerm]
        exact exactFma_finite finiteA finiteB infiniteC noTerm

/-- The exact accumulator returns the correctly rounded result. -/
theorem WideControl.fma_exact
    (numberA : isNan a = false)
    (numberB : isNan b = false)
    (numberC : isNan c = false) :
    WideControl.fma a b c = .ok (exactFma a b c) := by
  rw [exactFma_special]
  unfold WideControl.fma
  simp only [numberA, numberB, numberC, Bool.false_eq_true, if_false, masked_infinite,
    masked_zero, xor_and_sign]
  rw [and_sign]
  by_cases infinite : IsInfinite a ∨ IsInfinite b
  · rw [if_pos infinite, if_pos infinite]
    split <;> rfl
  · obtain ⟨finiteA, finiteB⟩ := not_or.1 infinite
    rw [if_neg infinite, if_neg infinite]
    by_cases infiniteC : IsInfinite c
    · rw [if_pos infiniteC, if_pos infiniteC]
      rfl
    · rw [if_neg infiniteC, if_neg infiniteC]
      by_cases noTerm : (IsZero a ∨ IsZero b) ∧ IsZero c
      · rw [if_pos noTerm, if_pos noTerm]
        rfl
      · rw [if_neg noTerm, if_neg noTerm]
        exact WideControl.addExact_eq (finite_of_not_nan numberA finiteA)
          (finite_of_not_nan numberB finiteB) (finite_of_not_nan numberC infiniteC)

/-- A term that stands alone is returned, or multiplied out. -/
theorem roundOrZero_addend
    (zeroFactor : IsZero a ∨ IsZero b)
    (finiteC : IsFinite c)
    (nonzeroC : ¬IsZero c) :
    roundOrZero (value a * value b + value c) = c := by
  have product : value a * value b = 0 := by
    rcases zeroFactor with zeroA | zeroB
    · rw [value_eq_zero zeroA, zero_mul]
    · rw [value_eq_zero zeroB, mul_zero]
  obtain ⟨nonzero, nearest⟩ := nearest32_value finiteC nonzeroC
  rw [product, zero_add, roundOrZero, if_neg nonzero, nearest]

/-- The multiplication of the runtime is rounded correctly. -/
def RoundsProducts
    (mul : UInt32 → UInt32 → UInt32) :
    Prop :=
  ∀ a b,
    IsFinite a → IsFinite b → value a * value b ≠ 0 →
    mul a b = nearest32 (value a * value b)

/--
The narrow and the wide fused multiply-add return the word of the exact
`a · b + c`, rounded once, for all words but NaN.
-/
theorem fma_eq_exactFma
    {mul : UInt32 → UInt32 → UInt32}
    (roundsProducts : RoundsProducts mul)
    {a b c : UInt32}
    (numberA : isNan a = false)
    (numberB : isNan b = false)
    (numberC : isNan c = false) :
    fma mul a b c = .ok (exactFma a b c) ∧
      WideControl.fma a b c = .ok (exactFma a b c) := by
  refine ⟨?_, WideControl.fma_exact numberA numberB numberC⟩
  rw [exactFma_special]
  unfold fma
  simp only [numberA, numberB, numberC, Bool.false_eq_true, if_false, masked_infinite,
    masked_zero, xor_and_sign]
  rw [and_sign]
  by_cases infinite : IsInfinite a ∨ IsInfinite b
  · rw [if_pos infinite, if_pos infinite]
    split <;> rfl
  · obtain ⟨infiniteA, infiniteB⟩ := not_or.1 infinite
    rw [if_neg infinite, if_neg infinite]
    by_cases infiniteC : IsInfinite c
    · rw [if_pos infiniteC, if_pos infiniteC]
      rfl
    · have finiteC := finite_of_not_nan numberC infiniteC
      rw [if_neg infiniteC, if_neg infiniteC]
      by_cases noTerm : (IsZero a ∨ IsZero b) ∧ IsZero c
      · rw [if_pos noTerm, if_pos noTerm]
        rfl
      · rw [if_neg noTerm, if_neg noTerm]
        by_cases zeroFactor : IsZero a ∨ IsZero b
        · have nonzeroC : ¬IsZero c := fun zeroC => noTerm ⟨zeroFactor, zeroC⟩
          rw [if_pos zeroFactor, roundOrZero_addend zeroFactor finiteC nonzeroC]
          rfl
        · obtain ⟨nonzeroA, nonzeroB⟩ := not_or.1 zeroFactor
          rw [if_neg zeroFactor]
          by_cases zeroC : IsZero c
          · have finiteA := finite_of_not_nan numberA infiniteA
            have finiteB := finite_of_not_nan numberB infiniteB
            have product : value a * value b ≠ 0 :=
              mul_ne_zero (nearest32_value finiteA nonzeroA).1
                (nearest32_value finiteB nonzeroB).1
            rw [if_pos zeroC, roundsProducts a b finiteA finiteB product,
              value_eq_zero zeroC, add_zero, roundOrZero, if_neg product]
            rfl
          · rw [if_neg zeroC]
            exact addFused_eq nonzeroA nonzeroB zeroC

/-- Multiplying in the exact accumulator. -/
def WideControl.mul
    (a b : UInt32) :
    UInt32 :=
  (WideControl.fma a b 0).toOption.getD 0

theorem WideControl.roundsProducts :
    RoundsProducts WideControl.mul := by
  intro a b finiteA finiteB product
  have number {word : UInt32} (finite : IsFinite word) : isNan word = false := by
    rw [Bool.eq_false_iff, ne_eq, isNan_iff]
    unfold IsFinite at finite
    omega
  have notInfinite {word : UInt32} (finite : IsFinite word) : ¬IsInfinite word :=
    Nat.ne_of_lt finite
  have nonzeroA : ¬IsZero a := fun zero =>
    product (by rw [value_eq_zero zero, zero_mul])
  have nonzeroB : ¬IsZero b := fun zero =>
    product (by rw [value_eq_zero zero, mul_zero])
  have zeroC : IsZero 0 := rfl
  unfold WideControl.mul
  rw [WideControl.fma_exact (number finiteA) (number finiteB) (by decide),
    exactFma_finite (notInfinite finiteA) (notInfinite finiteB) (by decide)
      (fun zero => zero.1.elim nonzeroA nonzeroB),
    value_eq_zero zeroC, add_zero, roundOrZero, if_neg product]
  rfl

/-- All but the last bits of the square of the word above one cancel. -/
theorem fma_eq_exactFma_cancels :
    WideControl.fma 0x3f800001 0x3f800001 0xbf800002 = .ok 0x28800000 ∧
      fma WideControl.mul 0x3f800001 0x3f800001 0xbf800002 = .ok 0x28800000 := by
  obtain ⟨narrow, wide⟩ :=
    fma_eq_exactFma WideControl.roundsProducts
      (show isNan 0x3f800001 = false by decide)
      (show isNan 0x3f800001 = false by decide)
      (show isNan 0xbf800002 = false by decide)
  have result : WideControl.fma 0x3f800001 0x3f800001 0xbf800002 = .ok 0x28800000 := by
    decide +kernel
  exact ⟨result, narrow.trans (wide.symm.trans result)⟩

end Jxlz.Binary32
