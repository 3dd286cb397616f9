import Jxlz.Modular.Squeeze

namespace Jxlz.Modular

/-!
# Squeezing one row or column

The inverse sees the same average, the same next average and the same sample
before the pair as the forward direction, so both predict the same tendency;
average and difference give the pair back.
-/

/-- A sample of absolute value below `2 ^ 28`. -/
def SmallSample
    (sample : Int32) :
    Prop :=
  -2 ^ 28 < sample.toInt ∧ sample.toInt < 2 ^ 28

theorem tdiv_of_nonneg
    {value : Int}
    (nonneg : 0 ≤ value) :
    value.tdiv 12 = value / 12 :=
  Int.tdiv_eq_ediv_of_nonneg nonneg

theorem tdiv_of_nonpos
    {value : Int}
    (nonpos : value ≤ 0) :
    value.tdiv 12 = -(-value / 12) := by
  have negated : (-value).tdiv 12 = -value / 12 :=
    tdiv_of_nonneg (by omega)
  rw [Int.neg_tdiv] at negated
  omega

/-- The tendency of small values is small. -/
theorem smoothTendency_bound
    {B a n : Int}
    (boundB : -2 ^ 28 < B ∧ B < 2 ^ 28)
    (boundA : -2 ^ 28 < a ∧ a < 2 ^ 28)
    (boundN : -2 ^ 28 < n ∧ n < 2 ^ 28) :
    -2 ^ 29 ≤ smoothTendency B a n ∧ smoothTendency B a n ≤ 2 ^ 29 := by
  unfold smoothTendency
  by_cases falling : n ≤ a ∧ a ≤ B
  · have quotient := @tdiv_of_nonneg (4 * B - 3 * n - a + 6) (by omega)
    simp only [falling, and_self, if_true, quotient]
    split_ifs <;> omega
  · by_cases rising : B ≤ a ∧ a ≤ n
    · have quotient := @tdiv_of_nonpos (4 * B - 3 * n - a - 6) (by omega)
      simp only [falling, rising, and_self, if_true, if_false, quotient]
      split_ifs <;> omega
    · simp only [falling, rising, if_false]
      omega

/-- The mean of two samples lies between them. -/
theorem averagePixel_ok
    (a b : Int32) :
    ∃ avg,
      averagePixel a b = .ok avg ∧
        avg.toInt =
          (a.toInt + b.toInt + if b.toInt < a.toInt then 1 else 0) / 2 := by
  have lowerA := Int32.le_toInt a
  have upperA := Int32.toInt_lt a
  have lowerB := Int32.le_toInt b
  have upperB := Int32.toInt_lt b
  have order : (if b < a then (1 : Int) else 0) =
      if b.toInt < a.toInt then 1 else 0 := by
    simp only [Int32.lt_iff_toInt_lt]
  unfold averagePixel
  simp only [order, Int.shiftRight_eq_div_pow, pow_one]
  refine ⟨_, toI32_ok ?_ ?_, toI32_eq_ok (toI32_ok ?_ ?_)⟩ <;>
    split_ifs <;> omega

theorem smallSample_average
    {a b avg : Int32}
    (smallA : SmallSample a)
    (smallB : SmallSample b)
    (isAverage : averagePixel a b = .ok avg) :
    SmallSample avg := by
  obtain ⟨other, isOther, value⟩ := averagePixel_ok a b
  rw [isAverage] at isOther
  cases isOther
  unfold SmallSample at *
  rw [value]
  split_ifs <;> omega

/-- The difference of small samples does not wrap. -/
theorem toInt_pixelSub
    {a b : Int32}
    (smallA : SmallSample a)
    (smallB : SmallSample b) :
    (pixelSub a b).toInt = a.toInt - b.toInt := by
  unfold SmallSample at smallA smallB
  unfold pixelSub
  rw [Int32.toInt_sub]
  exact Int.bmod_eq_of_le (by omega) (by omega)

/-- Average and difference give the first sample of a pair back. -/
theorem average_add_half
    {a b avg : Int32}
    (isAverage : averagePixel a b = .ok avg) :
    avg.toInt + (a.toInt - b.toInt).tdiv 2 = a.toInt := by
  obtain ⟨other, isOther, value⟩ := averagePixel_ok a b
  rw [isAverage] at isOther
  cases isOther
  rw [value]
  by_cases falls : 0 ≤ a.toInt - b.toInt
  · rw [Int.tdiv_eq_ediv_of_nonneg falls]
    split_ifs <;> omega
  · have negated : (-(a.toInt - b.toInt)).tdiv 2 =
        -(a.toInt - b.toInt) / 2 :=
      Int.tdiv_eq_ediv_of_nonneg (by omega)
    rw [Int.neg_tdiv] at negated
    split_ifs <;> omega

/-- The values that a pair is squeezed to. -/
structure PairSqueezed
    (line : Nat → Int32)
    (size i : Nat)
    (avg residual : Int32) :
    Prop where
  average : averagePixel (line (i * 2)) (line (i * 2 + 1)) = .ok avg
  residual :
    ∃ next_avg,
      nextAverage line size (size / 2) i avg = .ok next_avg ∧
      toI32
          ((pixelSub (line (i * 2)) (line (i * 2 + 1))).toInt -
            smoothTendency
              (if 0 < i then line (i * 2 - 1) else avg).toInt
              avg.toInt next_avg.toInt) = .ok residual

theorem pairSqueezed_of_squeezePixel
    {line : Nat → Int32}
    {size i : Nat}
    {avg residual : Int32}
    (squeezed : squeezePixel line size (size / 2) i = .ok (avg, residual)) :
    PairSqueezed line size i avg residual := by
  unfold squeezePixel at squeezed
  obtain ⟨first, isFirst, squeezed⟩ := bind_eq_ok.1 squeezed
  obtain ⟨next, isNext, squeezed⟩ := bind_eq_ok.1 squeezed
  obtain ⟨difference, isDifference, squeezed⟩ := bind_eq_ok.1 squeezed
  cases squeezed
  exact ⟨isFirst, next, isNext, isDifference⟩

/-- The samples of a line that a squeeze reads are small. -/
def SmallLine
    (line : Nat → Int32)
    (size : Nat) :
    Prop :=
  ∀ i, i < size → SmallSample (line i)

theorem and_one_ne_zero
    {size : Nat} :
    size &&& 1 ≠ 0 ↔ size % 2 = 1 := by
  rw [Nat.and_one_is_mod]
  omega

/-- Squeezing a pair of small samples does not overflow. -/
theorem squeezePixel_ok
    {line : Nat → Int32}
    {size i : Nat}
    (small : SmallLine line size)
    (inside : i < size / 2) :
    ∃ avg residual,
      squeezePixel line size (size / 2) i = .ok (avg, residual) := by
  have smallA := small (i * 2) (by omega)
  have smallB := small (i * 2 + 1) (by omega)
  obtain ⟨avg, isAverage, _⟩ :=
    averagePixel_ok (line (i * 2)) (line (i * 2 + 1))
  have smallAverage := smallSample_average smallA smallB isAverage
  have next :
      ∃ next_avg,
        nextAverage line size (size / 2) i avg = .ok next_avg ∧
          SmallSample next_avg := by
    unfold nextAverage
    by_cases another : i + 1 < size / 2
    · obtain ⟨next_avg, isNext, _⟩ :=
        averagePixel_ok (line (i * 2 + 2)) (line (i * 2 + 3))
      rw [if_pos another]
      exact ⟨next_avg, isNext,
        smallSample_average (small _ (by omega)) (small _ (by omega)) isNext⟩
    · rw [if_neg another]
      by_cases odd : size &&& 1 ≠ 0
      · rw [if_pos odd]
        rw [and_one_ne_zero] at odd
        exact ⟨_, rfl, small _ (by omega)⟩
      · rw [if_neg odd]
        exact ⟨_, rfl, smallAverage⟩
  obtain ⟨next_avg, isNext, smallNext⟩ := next
  have smallLeft : SmallSample (if 0 < i then line (i * 2 - 1) else avg) := by
    by_cases first : 0 < i
    · rw [if_pos first]
      exact small _ (by omega)
    · rw [if_neg first]
      exact smallAverage
  have tendency := smoothTendency_bound smallLeft smallAverage smallNext
  have difference := toInt_pixelSub smallA smallB
  unfold SmallSample at smallA smallB
  unfold squeezePixel
  simp only [isAverage, ok_bind, isNext]
  rw [toI32_ok (by omega) (by omega)]
  exact ⟨_, _, rfl⟩

/-- The averages and residuals of a whole line. -/
structure LineSqueezed
    (line : Nat → Int32)
    (size : Nat)
    (averages residuals : Nat → Int32) :
    Prop where
  pair :
    ∀ i,
      i < size / 2 →
      PairSqueezed line size i (averages i) (residuals i)
  last : size % 2 = 1 → averages (size / 2) = line (size - 1)

/-- A pair comes back once everything before it has. -/
theorem unsqueezePixel_ok
    {line averages residuals out : Nat → Int32}
    {size i : Nat}
    (small : SmallLine line size)
    (squeezed : LineSqueezed line size averages residuals)
    (inside : i < size / 2)
    (before : 0 < i → out (i * 2 - 1) = line (i * 2 - 1)) :
    unsqueezePixel averages residuals out ((size + 1) / 2) i =
      .ok (line (i * 2), line (i * 2 + 1)) := by
  obtain ⟨isAverage, next_avg, isNext, isResidual⟩ := squeezed.pair i inside
  have smallA := small (i * 2) (by omega)
  have smallB := small (i * 2 + 1) (by omega)
  -- the next average is the one that the forward direction looked ahead to
  have sameNext :
      (if i + 1 < (size + 1) / 2 then averages (i + 1) else averages i) =
        next_avg := by
    unfold nextAverage at isNext
    by_cases another : i + 1 < size / 2
    · obtain ⟨isAhead, _⟩ := squeezed.pair (i + 1) another
      rw [if_pos another] at isNext
      have place : (i + 1) * 2 = i * 2 + 2 := by
        omega
      rw [place, isNext] at isAhead
      cases isAhead
      rw [if_pos (by omega)]
    · rw [if_neg another] at isNext
      by_cases odd : size &&& 1 ≠ 0
      · rw [if_pos odd] at isNext
        rw [and_one_ne_zero] at odd
        cases isNext
        have place : i + 1 = size / 2 := by
          omega
        have last := squeezed.last odd
        rw [if_pos (by omega), place, last]
        congr 1
        omega
      · rw [if_neg odd] at isNext
        rw [and_one_ne_zero] at odd
        cases isNext
        rw [if_neg (by omega)]
  have sameLeft :
      (if 0 < i then out (i * 2 - 1) else averages i) =
        if 0 < i then line (i * 2 - 1) else averages i := by
    by_cases first : 0 < i
    · rw [if_pos first, if_pos first, before first]
    · rw [if_neg first, if_neg first]
  have residual := toI32_eq_ok isResidual
  rw [toInt_pixelSub smallA smallB] at residual
  unfold unsqueezePixel
  simp only [sameNext, sameLeft]
  have difference :
      (residuals i).toInt +
          smoothTendency
            (if 0 < i then line (i * 2 - 1) else averages i).toInt
            (averages i).toInt next_avg.toInt =
        (line (i * 2)).toInt - (line (i * 2 + 1)).toInt := by
    omega
  rw [difference, average_add_half isAverage, toI32_toInt, ok_bind]
  have second :
      (line (i * 2)).toInt -
          ((line (i * 2)).toInt - (line (i * 2 + 1)).toInt) =
        (line (i * 2 + 1)).toInt := by
    omega
  rw [second, toI32_toInt]
  rfl

end Jxlz.Modular
