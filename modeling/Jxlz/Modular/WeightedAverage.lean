import Jxlz.Modular.WeightedBuffers

namespace Jxlz.Weighted

/-!
# Weights and averages of the weighted predictor

A weight lies between 4 and `2 ^ 28`, so the weights that are left when they
are scaled down add up to 13 at least and 31 at most.  That keeps the table of
quotients in range, and the average within the values that it is taken of.
-/

/-- An entry of the table times its divisor is at most the dividend. -/
theorem divlookup_mul_le
    (weightSum : Nat) :
    divlookup.getD (weightSum - 1) 0 * weightSum ≤ 2 ^ 24 := by
  rw [divlookup_eq, List.getD_eq_getElem?_getD, List.getElem?_map]
  rcases Nat.lt_or_ge (weightSum - 1) 64 with inside | outside
  · rw [List.getElem?_range inside]
    rcases Nat.eq_zero_or_pos weightSum with rfl | positive
    · simp
    · have divisor : weightSum - 1 + 1 = weightSum := by
        omega
      simp only [Option.map_some, Option.getD_some, divisor]
      exact Nat.div_mul_le_self _ _
  · rw [List.getElem?_eq_none (by rwa [List.length_range])]
    simp

/-- Every entry of the table is at most the first one. -/
theorem divlookup_le
    (place : Nat) :
    divlookup.getD place 0 ≤ 2 ^ 24 := by
  rw [divlookup_eq, List.getD_eq_getElem?_getD, List.getElem?_map]
  rcases Nat.lt_or_ge place 64 with inside | outside
  · rw [List.getElem?_range inside]
    exact Nat.div_le_self _ _
  · rw [List.getElem?_eq_none (by rwa [List.length_range])]
    exact Nat.zero_le _

theorem length_divlookup :
    divlookup.length = 64 := by
  rw [divlookup_eq, List.length_map, List.length_range]

theorem floorLog2Nonzero_ok
    {v : Nat}
    (positive : 0 < v)
    (small : v < 2 ^ 64) :
    Buffers.floorLog2Nonzero v = .ok v.log2 := by
  have nonzero : v ≠ 0 := by
    omega
  have bits : v.log2 < 64 :=
    (Nat.log2_lt nonzero).2 small
  have back : 63 - (63 - v.log2) = v.log2 := by
    omega
  rw [Buffers.floorLog2Nonzero, clz64, if_neg nonzero,
    subU_ok (Nat.sub_le _ _), ok_bind, back]
  exact castU_ok (by omega)

/-- Six bits are left of a sum of errors. -/
theorem errorWeight_place
    (x : Nat) :
    x >>> (Nat.log2 (x + 1) - 5) < 64 := by
  have below : x + 1 < 2 ^ (Nat.log2 (x + 1) + 1) :=
    Nat.lt_log2_self
  rw [Nat.shiftRight_eq_div_pow]
  apply Nat.div_lt_of_lt_mul
  rcases Nat.lt_or_ge (Nat.log2 (x + 1)) 5 with low | high
  · have none : Nat.log2 (x + 1) - 5 = 0 := by
      omega
    have power : 2 ^ (Nat.log2 (x + 1) + 1) ≤ 2 ^ 5 :=
      Nat.pow_le_pow_right (by omega) (by omega)
    rw [none]
    omega
  · have split : Nat.log2 (x + 1) + 1 = Nat.log2 (x + 1) - 5 + 6 := by
      omega
    rw [split, Nat.pow_add] at below
    omega

theorem errorWeight_ok
    {x maxweight : Nat}
    (small : x < 2 ^ 32)
    (few : maxweight < 16) :
    Buffers.errorWeight x maxweight = .ok (State.errorWeight x maxweight) := by
  have bits : Nat.log2 (x + 1) ≤ 32 := by
    have below : Nat.log2 (x + 1) < 33 :=
      (Nat.log2_lt (Nat.succ_ne_zero x)).2 (by omega)
    omega
  have inside := errorWeight_place x
  have rawShift :
      addI32 (Nat.log2 (x + 1) : Int) (-5) = .ok ((Nat.log2 (x + 1) : Int) + -5) :=
    addI32_ok (by omega) (by omega)
  have shifted :
      (if (Nat.log2 (x + 1) : Int) + -5 < 0 then pure 0
        else castU 6 ((Nat.log2 (x + 1) : Int) + -5).toNat : Checked Nat) =
        .ok (Nat.log2 (x + 1) - 5) := by
    rcases Nat.lt_or_ge (Nat.log2 (x + 1)) 5 with low | high
    · have none : Nat.log2 (x + 1) - 5 = 0 := by
        omega
      rw [if_pos (by omega), none, pure_eq_ok]
    · have same : ((Nat.log2 (x + 1) : Int) + -5).toNat = Nat.log2 (x + 1) - 5 := by
        omega
      rw [if_neg (by omega), same]
      exact castU_ok (by omega)
  rw [Buffers.errorWeight, addU_ok (by omega), ok_bind,
    floorLog2Nonzero_ok (Nat.succ_pos x) (by omega), ok_bind, rawShift, ok_bind,
    shifted, ok_bind, castU_ok (by omega), ok_bind,
    index_getD (by rwa [length_divlookup]) 0, ok_bind]
  have entry := divlookup_le (x >>> (Nat.log2 (x + 1) - 5))
  have product :
      maxweight * divlookup.getD (x >>> (Nat.log2 (x + 1) - 5)) 0 ≤ 15 * 2 ^ 24 :=
    Nat.mul_le_mul (by omega) entry
  rw [mulU_ok (by omega), ok_bind]
  have quotient :
      (maxweight * divlookup.getD (x >>> (Nat.log2 (x + 1) - 5)) 0) >>>
          min (Nat.log2 (x + 1) - 5) 31 ≤ 15 * 2 ^ 24 :=
    (Nat.shiftRight_le _ _).trans product
  exact addU_ok (by omega)

theorem errorWeight_range
    {x maxweight : Nat}
    (few : maxweight < 16) :
    4 ≤ State.errorWeight x maxweight ∧ State.errorWeight x maxweight < 2 ^ 28 := by
  have entry := divlookup_le (x >>> (Nat.log2 (x + 1) - 5))
  have product :
      maxweight * divlookup.getD (x >>> (Nat.log2 (x + 1) - 5)) 0 ≤ 15 * 2 ^ 24 :=
    Nat.mul_le_mul (by omega) entry
  have quotient :
      (maxweight * divlookup.getD (x >>> (Nat.log2 (x + 1) - 5)) 0) >>>
          min (Nat.log2 (x + 1) - 5) 31 ≤ 15 * 2 ^ 24 :=
    (Nat.shiftRight_le _ _).trans product
  exact ⟨Nat.le_add_right _ _,
    (Nat.add_le_add_left quotient 4).trans_lt (by norm_num)⟩

/-! ## The average -/

variable {w : Fin 4 → Nat}

theorem sumOfWeights_ok
    (fits : ∑ i, w i < 2 ^ 32) :
    Buffers.sumOfWeights w = .ok (∑ i, w i) := by
  rw [Fin.sum_univ_four] at fits
  have unrolled : List.finRange 4 = [0, 1, 2, 3] := by
    decide
  rw [Buffers.sumOfWeights, unrolled, Fin.sum_univ_four]
  simp only [List.foldlM_cons, List.foldlM_nil]
  rw [addU_ok (by omega), ok_bind, addU_ok (by omega), ok_bind,
    addU_ok (by omega), ok_bind, addU_ok (by omega), ok_bind, Nat.zero_add,
    pure_eq_ok]

variable {p : Fin 4 → Int}

theorem foldlM_addWeighted
    {bound : Int}
    (small : ∀ i, |p i * (w i : Int)| ≤ bound)
    (items : List (Fin 4))
    {start : Int}
    (boundFits : bound ≤ 2 ^ 62)
    (fits : |start| + items.length * bound ≤ 2 ^ 62) :
    items.foldlM (Buffers.addWeighted p w) start =
      .ok (start + (items.map fun i => p i * (w i : Int)).sum) := by
  induction items generalizing start with
  | nil =>
      simp
  | cons item items inductionHypothesis =>
      have nonneg : 0 ≤ bound :=
        (abs_nonneg _).trans (small item)
      have more : 0 ≤ items.length * bound :=
        mul_nonneg (Int.natCast_nonneg _) nonneg
      have one := small item
      rw [List.length_cons, Nat.cast_succ, add_mul, one_mul] at fits
      have grown : |start + p item * (w item : Int)| ≤ |start| + bound :=
        (abs_add_le _ _).trans (by omega)
      rw [List.foldlM_cons, Buffers.addWeighted, fitI64_ok (one.trans boundFits),
        ok_bind, addI64_small (by omega), ok_bind,
        inductionHypothesis (by omega), List.map_cons, List.sum_cons, add_assoc]

/-- What is left of the weights when they are scaled down. -/
theorem scaled_range
    (heavy : ∀ i, 4 ≤ w i)
    (light : ∀ i, w i < 2 ^ 28) :
    4 ≤ Nat.log2 (∑ i, w i) ∧ Nat.log2 (∑ i, w i) < 30 ∧
      13 ≤ ∑ i, w i >>> (Nat.log2 (∑ i, w i) - 4) ∧
      ∑ i, w i >>> (Nat.log2 (∑ i, w i) - 4) ≤ 31 := by
  have total : 16 ≤ ∑ i, w i ∧ ∑ i, w i < 2 ^ 30 := by
    have heavy0 := heavy 0
    have heavy1 := heavy 1
    have heavy2 := heavy 2
    have heavy3 := heavy 3
    have light0 := light 0
    have light1 := light 1
    have light2 := light 2
    have light3 := light 3
    rw [Fin.sum_univ_four]
    omega
  have nonzero : ∑ i, w i ≠ 0 := by
    omega
  have enough : 4 ≤ Nat.log2 (∑ i, w i) :=
    (Nat.le_log2 nonzero).2 (by omega)
  have few : Nat.log2 (∑ i, w i) < 30 :=
    (Nat.log2_lt nonzero).2 total.2
  have above : 2 ^ Nat.log2 (∑ i, w i) ≤ ∑ i, w i :=
    Nat.log2_self_le nonzero
  have below : ∑ i, w i < 2 ^ (Nat.log2 (∑ i, w i) + 1) :=
    Nat.lt_log2_self
  have split : Nat.log2 (∑ i, w i) = Nat.log2 (∑ i, w i) - 4 + 4 := by
    omega
  have split' : Nat.log2 (∑ i, w i) + 1 = Nat.log2 (∑ i, w i) - 4 + 5 := by
    omega
  refine ⟨enough, few, ?_⟩
  rw [split, Nat.pow_add] at above
  rw [split', Nat.pow_add] at below
  simp only [Nat.shiftRight_eq_div_pow]
  have unit : 0 < 2 ^ (Nat.log2 (∑ i, w i) - 4) :=
    Nat.two_pow_pos _
  generalize 2 ^ (Nat.log2 (∑ i, w i) - 4) = d at above below unit
  rw [Fin.sum_univ_four] at above below
  rw [Fin.sum_univ_four]
  have quotient0 := Nat.div_add_mod (w 0) d
  have quotient1 := Nat.div_add_mod (w 1) d
  have quotient2 := Nat.div_add_mod (w 2) d
  have quotient3 := Nat.div_add_mod (w 3) d
  have rest0 := Nat.mod_lt (w 0) unit
  have rest1 := Nat.mod_lt (w 1) unit
  have rest2 := Nat.mod_lt (w 2) unit
  have rest3 := Nat.mod_lt (w 3) unit
  generalize w 0 / d = q0 at *
  generalize w 1 / d = q1 at *
  generalize w 2 / d = q2 at *
  generalize w 3 / d = q3 at *
  have large : d * 12 < d * (q0 + q1 + q2 + q3) := by
    simp only [Nat.mul_add]
    omega
  have small : d * (q0 + q1 + q2 + q3) < d * 32 := by
    simp only [Nat.mul_add]
    omega
  have large' := Nat.lt_of_mul_lt_mul_left large
  have small' := Nat.lt_of_mul_lt_mul_left small
  omega

/-- An average is hardly larger than the largest value. -/
theorem weightedAverage_bound
    {bound : Int}
    (small : ∀ i, |p i| ≤ bound)
    (w : Fin 4 → Nat) :
    |State.weightedAverage p w| ≤ bound + 1 := by
  have nonneg : 0 ≤ bound :=
    (abs_nonneg _).trans (small 0)
  rw [State.weightedAverage]
  generalize isShift :
    (if 4 ≤ Nat.log2 (∑ i, w i) then Nat.log2 (∑ i, w i) - 4 else 0) = shift
  dsimp only
  generalize isScaled : (fun i => w i >>> shift) = scaled
  have isScaled' : ∀ i, w i >>> shift = scaled i :=
    fun i => congrFun isScaled i
  simp only [isScaled']
  generalize isSum : ∑ i, scaled i = weightSum
  have lookup := divlookup_mul_le weightSum
  have lookupSmall := divlookup_le (weightSum - 1)
  generalize divlookup.getD (weightSum - 1) 0 = d at lookup lookupSmall
  -- The weighted sum is at most the bound for every unit of weight.
  have weighted : |∑ i, p i * (scaled i : Int)| ≤ bound * weightSum := by
    calc
      |∑ i, p i * (scaled i : Int)|
          ≤ ∑ i, |p i * (scaled i : Int)| :=
        Finset.abs_sum_le_sum_abs _ _
      _ ≤ ∑ i, bound * (scaled i : Int) := by
        apply Finset.sum_le_sum
        intro i _
        rw [abs_mul, Nat.abs_cast]
        exact mul_le_mul_of_nonneg_right (small i) (Int.natCast_nonneg _)
      _ = bound * weightSum := by
        rw [← Finset.mul_sum, ← isSum]
        push_cast
        rfl
  obtain ⟨weightedLarge, weightedSmall⟩ := abs_le.1 weighted
  have lookup' : (d : Int) * weightSum ≤ 2 ^ 24 := by
    exact_mod_cast lookup
  have dNonneg : (0 : Int) ≤ d :=
    Int.natCast_nonneg _
  have scaledWeight : bound * weightSum * d ≤ bound * 2 ^ 24 := by
    calc
      bound * weightSum * d = bound * (d * weightSum) := by ring
      _ ≤ bound * 2 ^ 24 := mul_le_mul_of_nonneg_left lookup' nonneg
  have half : ((weightSum >>> 1 : Nat) : Int) * d ≤ 2 ^ 24 := by
    have halfSmall : ((weightSum >>> 1 : Nat) : Int) ≤ weightSum := by
      exact_mod_cast Nat.shiftRight_le weightSum 1
    calc
      ((weightSum >>> 1 : Nat) : Int) * d ≤ weightSum * d :=
        mul_le_mul_of_nonneg_right halfSmall dNonneg
      _ ≤ 2 ^ 24 := by rwa [mul_comm]
  have halfNonneg : (0 : Int) ≤ ((weightSum >>> 1 : Nat) : Int) * d :=
    mul_nonneg (Int.natCast_nonneg _) dNonneg
  have above :
      (∑ i, p i * (scaled i : Int)) * d ≤ bound * 2 ^ 24 :=
    (mul_le_mul_of_nonneg_right weightedSmall dNonneg).trans scaledWeight
  have below :
      -(bound * 2 ^ 24) ≤ (∑ i, p i * (scaled i : Int)) * d := by
    have times := mul_le_mul_of_nonneg_right weightedLarge dNonneg
    linarith only [times, scaledWeight]
  have dSmall : (d : Int) ≤ 2 ^ 24 := by
    exact_mod_cast lookupSmall
  have split :
      (((weightSum >>> 1 : Nat) : Int) - (1 : Int) +
            ∑ i, p i * (scaled i : Int)) *
          d =
        ((weightSum >>> 1 : Nat) : Int) * d - d +
          (∑ i, p i * (scaled i : Int)) * d := by
    ring
  rw [split, Int.shiftRight_eq_div_pow, abs_le]
  generalize ((weightSum >>> 1 : Nat) : Int) * d = first at *
  generalize (∑ i, p i * (scaled i : Int)) * d = second at *
  push_cast
  constructor
  · omega
  · omega

/-- The average of values within `2 ^ 40` is taken without an overflow. -/
theorem weightedAverage_ok
    (small : ∀ i, |p i| ≤ 2 ^ 40)
    (heavy : ∀ i, 4 ≤ w i)
    (light : ∀ i, w i < 2 ^ 28) :
    Buffers.weightedAverage p w = .ok (State.weightedAverage p w) := by
  have averageSmall := weightedAverage_bound small w
  obtain ⟨enough, few, large, tiny⟩ := scaled_range heavy light
  have total : 0 < ∑ i, w i ∧ ∑ i, w i < 2 ^ 32 := by
    have heavy0 := heavy 0
    have light0 := light 0
    have light1 := light 1
    have light2 := light 2
    have light3 := light 3
    rw [Fin.sum_univ_four]
    omega
  rw [State.weightedAverage] at averageSmall
  rw [Buffers.weightedAverage, State.weightedAverage, sumOfWeights_ok total.2,
    ok_bind, floorLog2Nonzero_ok total.1 (by omega), ok_bind]
  simp only [if_pos enough] at averageSmall ⊢
  rw [subU_ok enough, ok_bind, castU_ok (by omega), ok_bind]
  generalize Nat.log2 (∑ i, w i) - 4 = shift at *
  rw [sumOfWeights_ok (by omega), ok_bind]
  generalize isSum : ∑ i, w i >>> shift = weightSum at *
  have half : weightSum >>> 1 = weightSum / 2 := by
    rw [Nat.shiftRight_eq_div_pow, pow_one]
  rw [subWrap32_eq (by omega) (by omega), subWrap32_eq (by omega) (by omega)]
  have start :
      ((weightSum >>> 1 - 1 : Nat) : Int) = ((weightSum >>> 1 : Nat) : Int) - 1 := by
    omega
  have startSmall : |((weightSum >>> 1 : Nat) : Int) - 1| ≤ 2 ^ 4 := by
    rw [abs_le]
    omega
  have termSmall : ∀ i, |p i * ((w i >>> shift : Nat) : Int)| ≤ 2 ^ 40 * 31 := by
    intro i
    have one : w i >>> shift ≤ ∑ i, w i >>> shift :=
      Finset.single_le_sum (fun i _ => Nat.zero_le (w i >>> shift))
        (Finset.mem_univ i)
    have oneSmall : ((w i >>> shift : Nat) : Int) ≤ 31 := by
      omega
    rw [abs_mul, Nat.abs_cast]
    exact mul_le_mul (small i) oneSmall (Int.natCast_nonneg _) (by norm_num)
  rw [start, fitI64_ok (startSmall.trans (by norm_num)), ok_bind,
    foldlM_addWeighted termSmall (List.finRange 4) (by norm_num)
      (by
        rw [List.length_finRange]
        norm_num at startSmall ⊢
        omega),
    ok_bind, index_getD (by rw [length_divlookup]; omega) 0, ok_bind]
  have sumSmall :
      |((weightSum >>> 1 : Nat) : Int) - 1 +
          ∑ i, p i * ((w i >>> shift : Nat) : Int)| ≤ 2 ^ 48 := by
    have terms :
        |∑ i, p i * ((w i >>> shift : Nat) : Int)| ≤ 4 * (2 ^ 40 * 31) := by
      calc
        |∑ i, p i * ((w i >>> shift : Nat) : Int)|
            ≤ ∑ i, |p i * ((w i >>> shift : Nat) : Int)| :=
          Finset.abs_sum_le_sum_abs _ _
        _ ≤ ∑ _i : Fin 4, (2 ^ 40 * 31 : Int) :=
          Finset.sum_le_sum fun i _ => termSmall i
        _ = 4 * (2 ^ 40 * 31) := by
          simp
    refine (abs_add_le _ _).trans ?_
    norm_num at terms startSmall ⊢
    omega
  rw [← Fin.sum_univ_def]
  have quotientSmall := divlookup_le (weightSum - 1)
  generalize divlookup.getD (weightSum - 1) 0 = d at *
  generalize ((weightSum >>> 1 : Nat) : Int) - 1 +
    ∑ i, p i * ((w i >>> shift : Nat) : Int) = sum at *
  have productSmall : |sum * (d : Int)| ≤ 2 ^ 48 * 2 ^ 24 := by
    rw [abs_mul, Nat.abs_cast]
    exact mul_le_mul sumSmall (by exact_mod_cast quotientSmall)
      (Int.natCast_nonneg _) (by norm_num)
  obtain ⟨productLarge, productSmall⟩ := abs_le.1 productSmall
  rw [fitI_ok (by norm_num at *; omega) (by norm_num at *; omega), ok_bind]
  exact fitI64_ok (averageSmall.trans (by norm_num))

end Jxlz.Weighted
