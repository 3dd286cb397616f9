import Jxlz.Base.Binary32Value

namespace Jxlz.Binary32

open NearestEven Scaled

/-!
# From a sum to its word

Both versions of `fma` end alike: the sum of the terms is shifted to 24 bits or
to the least place, rounded by what the shift drops, and packed.  The word is the
one nearest to the number that the sum stands for, be it equal to it or sticky.
-/

/-! The masks of a word. -/

theorem toNat_and_magnitude
    (word : UInt32) :
    (word &&& 0x7fffffff).toNat = magnitude word := by
  rw [UInt32.toNat_and]
  exact Nat.and_two_pow_sub_one_eq_mod word.toNat 31

theorem magnitude_lt
    (word : UInt32) :
    magnitude word < 2 ^ 31 :=
  Nat.mod_lt _ (by decide)

/-- A masked word is compared by its magnitude. -/
theorem and_magnitude_eq_iff
    (word : UInt32)
    {bits : Nat}
    (fits : bits < 2 ^ 31) :
    word &&& 0x7fffffff = UInt32.ofNat bits ↔ magnitude word = bits := by
  rw [← UInt32.toNat_inj, toNat_and_magnitude,
    UInt32.toNat_ofNat_of_lt' (Nat.lt_trans fits (by decide))]

theorem isNan_iff
    (word : UInt32) :
    isNan word = true ↔ 0x7f800000 < magnitude word := by
  unfold isNan
  rw [decide_eq_true_iff, UInt32.lt_iff_toNat_lt, toNat_and_magnitude]
  rfl

theorem isNegative_eq_testBit
    (word : UInt32) :
    isNegative word = word.toNat.testBit 31 := by
  have fits := word.toNat_lt
  unfold isNegative
  rw [Bool.eq_iff_iff, decide_eq_true_iff, UInt32.le_iff_toNat_le,
    Nat.testBit_eq_decide_div_mod_eq, decide_eq_true_iff]
  have constant : (0x80000000 : UInt32).toNat = 2 ^ 31 := rfl
  rw [constant]
  omega

theorem and_sign
    (word : UInt32) :
    word &&& 0x80000000 = signWord (isNegative word) := by
  rw [← UInt32.toNat_inj, UInt32.toNat_and, isNegative_eq_testBit]
  have masked : word.toNat &&& 2 ^ 31 = _ := Nat.and_two_pow word.toNat 31
  refine masked.trans ?_
  cases word.toNat.testBit 31 with
  | true => rfl
  | false => rfl

theorem xor_and_sign
    (first second : UInt32) :
    (first ^^^ second) &&& 0x80000000 =
      signWord (isNegative first != isNegative second) := by
  rw [and_sign, isNegative_eq_testBit, UInt32.toNat_xor, Nat.testBit_xor,
    ← isNegative_eq_testBit, ← isNegative_eq_testBit]

theorem signWord_and
    (negative : Bool)
    (word : UInt32) :
    signWord negative &&& word = signWord (negative && isNegative word) := by
  cases negative with
  | true =>
      rw [Bool.true_and, ← and_sign, UInt32.and_comm]
      rfl
  | false =>
      exact UInt32.zero_and

theorem signWord_inj
    {first second : Bool} :
    signWord first = signWord second ↔ first = second := by
  revert first second
  decide

theorem shiftRight_sign_ne_zero
    (word : UInt32) :
    word >>> 31 ≠ 0 ↔ isNegative word = true := by
  have fits := word.toNat_lt
  unfold isNegative
  rw [decide_eq_true_iff, UInt32.le_iff_toNat_le, ne_eq, ← UInt32.toNat_inj,
    UInt32.toNat_shiftRight]
  have constant : (0x80000000 : UInt32).toNat = 2 ^ 31 := rfl
  have shifted : word.toNat >>> ((31 : UInt32).toNat % 32) = word.toNat / 2 ^ 31 :=
    Nat.shiftRight_eq_div_pow _ _
  rw [constant, shifted]
  have zero : (0 : UInt32).toNat = 0 := rfl
  rw [zero]
  omega

/-- A word is its sign and its magnitude. -/
theorem signWord_or_magnitude
    (word : UInt32) :
    signWord (isNegative word) ||| UInt32.ofNat (magnitude word) = word := by
  have fits := word.toNat_lt
  rw [← UInt32.toNat_inj, toNat_signWord_or _ (magnitude_lt word)]
  unfold isNegative magnitude
  by_cases negative : (0x80000000 : UInt32) ≤ word
  · have large : 2 ^ 31 ≤ word.toNat := UInt32.le_iff_toNat_le.1 negative
    rw [decide_eq_true negative, if_pos rfl]
    omega
  · have small : word.toNat < 2 ^ 31 :=
      Nat.not_le.1 (fun large => negative (UInt32.le_iff_toNat_le.2 large))
    rw [decide_eq_false negative, if_neg Bool.false_ne_true]
    omega

theorem toNat_exponent
    (word : UInt32) :
    ((word >>> 23) &&& 255).toNat = magnitude word / 2 ^ 23 := by
  have fits := word.toNat_lt
  have shifted : (word >>> 23).toNat = word.toNat / 2 ^ 23 :=
    Nat.shiftRight_eq_div_pow _ 23
  have masked : (word >>> 23).toNat &&& (2 ^ 8 - 1) = _ :=
    Nat.and_two_pow_sub_one_eq_mod _ 8
  rw [UInt32.toNat_and]
  refine masked.trans ?_
  rw [shifted]
  unfold magnitude
  omega

/-- Significand and exponent of a word, as the code takes them apart. -/
theorem finiteTerm_eq
    (word : UInt32) :
    (finiteTerm word).significand.toNat = significand (magnitude word) ∧
      (finiteTerm word).exponent = place (magnitude word) := by
  have exponent := toNat_exponent word
  have fraction : (word &&& 0x7fffff).toNat = magnitude word % 2 ^ 23 := by
    have masked : word.toNat &&& (2 ^ 23 - 1) = _ :=
      Nat.and_two_pow_sub_one_eq_mod _ 23
    rw [UInt32.toNat_and]
    refine masked.trans ?_
    unfold magnitude
    omega
  have zero_iff : (word >>> 23) &&& 255 = 0 ↔ magnitude word < 2 ^ 23 := by
    rw [← UInt32.toNat_inj, exponent]
    have zero : (0 : UInt32).toNat = 0 := rfl
    rw [zero]
    omega
  unfold finiteTerm significand place
  dsimp only
  by_cases subnormal : magnitude word < 2 ^ 23
  · rw [if_pos (zero_iff.2 subnormal), if_pos (zero_iff.2 subnormal),
      if_pos subnormal, UInt32.or_zero, fraction, Nat.div_eq_of_lt subnormal,
      Nat.mod_eq_of_lt subnormal]
    exact ⟨rfl, rfl⟩
  · have hidden := Nat.two_pow_add_eq_or_of_lt
      (Nat.mod_lt (magnitude word) (Nat.two_pow_pos 23)) 1
    rw [if_neg (mt zero_iff.1 subnormal), if_neg (mt zero_iff.1 subnormal),
      if_neg subnormal, UInt32.toNat_or, fraction, exponent]
    refine ⟨?_, ?_⟩
    · rw [Nat.or_comm, Nat.add_comm (magnitude word % 2 ^ 23)]
      exact hidden.symm
    · omega

/-! Packing. -/

/-- An exponent and a significand without its hidden bit. -/
theorem fields_eq
    {exponent n : Nat}
    (fits : exponent < 2 ^ 8) :
    (UInt32.ofNat exponent <<< 23) ||| (UInt32.ofNat n &&& 0x7fffff) =
      UInt32.ofNat (exponent * 2 ^ 23 + n % 2 ^ 23) := by
  have isExponent : (UInt32.ofNat exponent).toNat = exponent :=
    UInt32.toNat_ofNat_of_lt' (Nat.lt_trans fits (by decide))
  have shifted : (UInt32.ofNat exponent <<< 23).toNat = exponent <<< 23 := by
    rw [UInt32.toNat_shiftLeft, isExponent]
    have amount : (23 : UInt32).toNat % 32 = 23 := rfl
    rw [amount, Nat.shiftLeft_eq]
    omega
  have masked : (UInt32.ofNat n &&& 0x7fffff).toNat = n % 2 ^ 23 := by
    have mask : (n % 2 ^ 32) &&& (2 ^ 23 - 1) = _ :=
      Nat.and_two_pow_sub_one_eq_mod _ 23
    rw [UInt32.toNat_and, UInt32.toNat_ofNat']
    refine mask.trans ?_
    omega
  have small : n % 2 ^ 23 < 2 ^ 23 := Nat.mod_lt _ (by decide)
  rw [← UInt32.toNat_inj, UInt32.toNat_or, shifted, masked,
    ← Nat.shiftLeft_add_eq_or_of_lt small, Nat.shiftLeft_eq,
    UInt32.toNat_ofNat_of_lt' (Nat.lt_of_lt_of_le (by omega : _ < 2 ^ 32) (by decide))]

theorem castShift_ok
    {width amount : Nat}
    (fits : amount < 2 ^ width) :
    castShift width amount = .ok amount := by
  rw [castShift, if_pos (Int.natCast_nonneg amount), Int.toNat_natCast, castU_ok fits]

/-- A rounding is packed to the nearest magnitude under the sign. -/
theorem packFinite_eq
    {n : Nat}
    {e : Int}
    (sign : UInt32)
    (fits : n ≤ 2 ^ 24)
    (above : leastPlace ≤ e)
    (full : e = leastPlace ∨ 2 ^ 23 ≤ n) :
    packFinite sign n (e + 150) =
      .ok (sign |||
        UInt32.ofNat (min ((e - leastPlace).toNat * 2 ^ 23 + n) 0x7f800000)) := by
  obtain ⟨k, isPlace⟩ := Int.eq_ofNat_of_zero_le (Int.sub_nonneg_of_le above)
  have isInfinite : (0x7f800000 : UInt32) = UInt32.ofNat 0x7f800000 := by
    decide
  unfold leastPlace at *
  have exponent : e + 150 = ((k + 1 : Nat) : Int) := by
    push_cast
    omega
  rw [isPlace, Int.toNat_natCast, exponent]
  unfold packFinite
  by_cases subnormal : n < 0x800000
  · have least : k * 2 ^ 23 + n = n := by
      omega
    rw [if_pos subnormal, least, Nat.min_eq_left (by omega)]
    rfl
  · rw [if_neg subnormal]
    by_cases carry : n = 0x1000000
    · have half : n >>> 1 = 2 ^ 23 := by
        rw [carry]
        rfl
      have raised : ((k + 1 : Nat) : Int) + 1 = ((k + 2 : Nat) : Int) := by
        push_cast
        omega
      simp only [pure_eq_ok, carry, decide_true, if_true, raised]
      rw [← carry, half]
      by_cases infinite : 255 ≤ ((k + 2 : Nat) : Int)
      · have largest : min (k * 2 ^ 23 + n) 0x7f800000 = 0x7f800000 :=
          Nat.min_eq_right (by omega)
        rewrite [if_pos infinite, largest]
        exact congrArg (fun word => Except.ok (sign ||| word)) isInfinite
      · have sameBits : (k + 2) * 2 ^ 23 + 2 ^ 23 % 2 ^ 23 = k * 2 ^ 23 + n := by
          omega
        rw [if_neg infinite, castShift_ok (by omega), ok_bind, UInt32.or_assoc,
          fields_eq (by omega), sameBits, Nat.min_eq_left (by omega)]
    · simp only [pure_eq_ok, carry, decide_false, Bool.false_eq_true, if_false]
      by_cases infinite : 255 ≤ ((k + 1 : Nat) : Int)
      · have largest : min (k * 2 ^ 23 + n) 0x7f800000 = 0x7f800000 :=
          Nat.min_eq_right (by omega)
        rewrite [if_pos infinite, largest]
        exact congrArg (fun word => Except.ok (sign ||| word)) isInfinite
      · have sameBits : (k + 1) * 2 ^ 23 + n % 2 ^ 23 = k * 2 ^ 23 + n := by
          omega
        rw [if_neg infinite, castShift_ok (by omega), ok_bind, UInt32.or_assoc,
          fields_eq (by omega), sameBits, Nat.min_eq_left (by omega)]

/-- What the shift drops decides the rounding. -/
theorem roundedSignificand_eq
    {m shift : Nat}
    (fits : m / 2 ^ shift + 1 < 2 ^ 32) :
    roundedSignificand m shift = .ok (roundShift m shift) := by
  have kept : m >>> shift = m / 2 ^ shift :=
    Nat.shiftRight_eq_div_pow m shift
  have dropped : m &&& (1 <<< shift - 1) = m % 2 ^ shift := by
    rw [Nat.one_shiftLeft]
    exact Nat.and_two_pow_sub_one_eq_mod m shift
  have odd_iff : m / 2 ^ shift &&& 1 ≠ 0 ↔ m / 2 ^ shift % 2 = 1 := by
    rw [Nat.and_one_is_mod]
    omega
  unfold roundedSignificand roundShift
  dsimp only
  rw [kept, castU_ok (Nat.lt_of_succ_lt fits), ok_bind, dropped, Nat.one_shiftLeft]
  simp only [odd_iff]
  split
  · exact addU_ok fits
  · rfl

/-! Rounding a sum. -/

variable {x : ℚ}

/-- A rounding under the sign of its number is packed to the nearest word. -/
theorem Rounds.packed
    {e : Int}
    {n : Nat}
    (rounds : Rounds |x| e n)
    (nonzero : x ≠ 0) :
    packFinite (signWord (x < 0)) n (e + 150) = .ok (nearest32 x) := by
  rw [packFinite_eq _ rounds.fits rounds.above rounds.full,
    ← rounds.nearestBits_eq (abs_pos.2 nonzero)]
  rfl

/-- The shift to 24 bits, or to the least place, rounds at the last place. -/
theorem rounds_of_shift
    {y : ℚ}
    {unit shift : Int}
    {high n : Nat}
    (low : 2 ^ high ≤ y / 2 ^ unit)
    (top : y / 2 ^ unit < 2 ^ (high + 1))
    (isShift : shift = max ((high : Int) - 23) (-149 - unit))
    (nearest : IsNearestEven (y / 2 ^ unit / 2 ^ shift) n) :
    Rounds y (unit + shift) n := by
  have positive : (0 : ℚ) < 2 ^ unit := unit_pos unit
  have two : (2 : ℚ) ≠ 0 := by
    norm_num
  rw [le_div_iff₀ positive, ← zpow_natCast, ← zpow_add₀ two] at low
  rw [div_lt_iff₀ positive, ← zpow_natCast, ← zpow_add₀ two] at top
  apply rounds_of_nearest
  · unfold leastPlace
    omega
  · refine lt_of_lt_of_le top (zpow_le_zpow_right₀ (by norm_num) ?_)
    push_cast
    omega
  · rcases max_choice ((high : Int) - 23) (-149 - unit) with isHigh | isLeast
    · refine .inr (le_trans (zpow_le_zpow_right₀ (by norm_num) ?_) low)
      omega
    · refine .inl ?_
      unfold leastPlace
      omega
  · rw [zpow_add₀ two, ← div_div]
    exact nearest

/-- What holds of a sum of terms in a unit, and of the number that it stands for. -/
structure StandsFor
    (sum unit : Int)
    (x : ℚ) :
    Prop where
  nonzero : sum ≠ 0
  sticky : Sticky (x / 2 ^ unit) sum
  deep : x / 2 ^ unit = sum ∨ 2 ^ 26 ≤ sum.natAbs

variable {sum unit : Int}

theorem StandsFor.ne_zero
    (stands : StandsFor sum unit x) :
    x ≠ 0 := by
  rintro rfl
  exact stands.sticky.ne_zero stands.nonzero (zero_div _)

theorem StandsFor.sign_eq
    (stands : StandsFor sum unit x) :
    (if sum < 0 then (0x80000000 : UInt32) else 0) = signWord (x < 0) := by
  have same : x < 0 ↔ sum < 0 := by
    rw [← stands.sticky.neg_iff stands.nonzero, div_neg_iff]
    constructor
    · intro negative
      exact .inr ⟨negative, unit_pos unit⟩
    · rintro (⟨_, negative⟩ | ⟨negative, _⟩)
      · exact absurd (unit_pos unit) (not_lt.2 negative.le)
      · exact negative
  unfold signWord
  simp only [same, decide_eq_true_eq]

/-- The magnitude of the sum stands for the magnitude of the number. -/
theorem StandsFor.abs
    (stands : StandsFor sum unit x) :
    Sticky (|x| / 2 ^ unit) sum.natAbs ∧
      (|x| / 2 ^ unit = sum.natAbs ∨ 2 ^ 26 ≤ sum.natAbs) := by
  have magnitudes : |x / 2 ^ unit| = |x| / 2 ^ unit := by
    rw [abs_div, abs_of_pos (unit_pos unit)]
  refine ⟨?_, ?_⟩
  · rw [← magnitudes]
    exact stands.sticky.abs stands.nonzero
  · rcases stands.deep with exact | large
    · refine .inl ?_
      rw [← magnitudes, exact, Nat.cast_natAbs, Int.cast_abs]
    · exact .inr large

theorem StandsFor.log2_bounds
    (stands : StandsFor sum unit x) :
    2 ^ sum.natAbs.log2 ≤ |x| / 2 ^ unit ∧
      |x| / 2 ^ unit < 2 ^ (sum.natAbs.log2 + 1) := by
  obtain ⟨sticky, deep⟩ := stands.abs
  apply sticky.log2_bounds (Int.natAbs_ne_zero.2 stands.nonzero)
  rcases deep with exact | large
  · exact .inl exact
  · exact .inr (by omega)

/-- Where bits are dropped, what they are decides the rounding. -/
theorem StandsFor.rounds_down
    {count : Nat}
    (stands : StandsFor sum unit x)
    (positive : 0 < count)
    (isShift : (count : Int) =
      max ((sum.natAbs.log2 : Int) - 23) (-149 - unit)) :
    Rounds |x| (unit + count) (roundShift sum.natAbs count) ∧
      roundedSignificand sum.natAbs count =
        .ok (roundShift sum.natAbs count) := by
  obtain ⟨low, top⟩ := stands.log2_bounds
  obtain ⟨sticky, deep⟩ := stands.abs
  have nearest :
      IsNearestEven (|x| / 2 ^ unit / 2 ^ count) (roundShift sum.natAbs count) := by
    have rounded := isNearestEven_roundShift (m := sum.natAbs) positive
    rw [← Int.cast_natCast (R := ℚ) sum.natAbs] at rounded
    rcases deep with exact | large
    · rw [exact]
      rw [Int.cast_natCast] at rounded
      exact rounded
    · have full : 26 ≤ sum.natAbs.log2 :=
        (Nat.le_log2 (by omega)).2 large
      exact sticky.isNearestEven (by omega) rounded
  refine ⟨rounds_of_shift low top isShift (by rwa [zpow_natCast]), ?_⟩
  apply roundedSignificand_eq
  have below : sum.natAbs < 2 ^ (count + 24) := by
    refine Nat.lt_of_lt_of_le Nat.lt_log2_self ?_
    exact Nat.pow_le_pow_right (by decide) (by omega)
  have small : sum.natAbs / 2 ^ count < 2 ^ 24 := by
    apply Nat.div_lt_of_lt_mul
    rw [← Nat.pow_add]
    exact below
  omega

/-- The end of the narrow version. -/
theorem roundSum_eq
    (stands : StandsFor sum unit x)
    (small : sum.natAbs < 2 ^ 62) :
    roundSum sum unit = .ok (nearest32 x) := by
  have nonzero : sum.natAbs ≠ 0 := Int.natAbs_ne_zero.2 stands.nonzero
  have short : sum.natAbs.log2 < 62 := (Nat.log2_lt nonzero).2 small
  have high : (63 : Int) - clz 64 sum.natAbs = sum.natAbs.log2 := by
    unfold clz
    rw [if_neg nonzero]
    omega
  obtain ⟨low, top⟩ := stands.log2_bounds
  unfold roundSum
  dsimp only
  rw [stands.sign_eq, castU_ok (by omega), ok_bind, high]
  generalize isShift :
    max ((sum.natAbs.log2 : Int) - 23) (-149 - unit) = shift
  by_cases far : 64 ≤ shift
  · -- Everything is below half of the least place.
    have nearest : IsNearestEven (|x| / 2 ^ unit / 2 ^ shift) (0 : Nat) := by
      have unit' : (0 : ℚ) < 2 ^ shift := unit_pos shift
      have quarter : (2 : ℚ) ^ (sum.natAbs.log2 + 1) ≤ 1 / 4 * 2 ^ shift := by
        have rises : (2 : ℚ) ^ (64 : Int) ≤ 2 ^ shift :=
          zpow_le_zpow_right₀ (by norm_num) far
        have rises' : (2 : ℚ) ^ (sum.natAbs.log2 + 1) ≤ 2 ^ 62 :=
          pow_le_pow_right₀ (by norm_num) (by omega)
        norm_num at rises rises' ⊢
        linarith
      have tiny : |x| / 2 ^ unit / 2 ^ shift < 1 / 2 := by
        rw [div_lt_iff₀ unit']
        linarith
      have nonneg : 0 ≤ |x| / 2 ^ unit / 2 ^ shift := by
        have atLeast : (0 : ℚ) ≤ |x| / 2 ^ unit := le_trans (by positivity) low
        positivity
      have distance : |(|x| / 2 ^ unit / 2 ^ shift) - ((0 : Nat) : Int)| < 1 / 2 := by
        push_cast
        rw [sub_zero, abs_of_nonneg nonneg]
        exact tiny
      exact ⟨distance.le, fun half => absurd half distance.ne⟩
    have rounds := rounds_of_shift low top isShift.symm nearest
    have least : unit + shift = leastPlace := by
      unfold leastPlace
      omega
    have isZero : nearestBits |x| = 0 := by
      rw [rounds.nearestBits_eq (abs_pos.2 stands.ne_zero), least]
      rfl
    rw [if_pos far]
    unfold nearest32
    rw [isZero]
    exact congrArg Except.ok UInt32.or_zero.symm
  · rw [if_neg far]
    by_cases up : shift ≤ 0
    · -- So few bits are left by an exact cancellation only.
      obtain ⟨amount, isAmount⟩ := Int.eq_ofNat_of_zero_le (Int.neg_nonneg_of_nonpos up)
      have exact : |x| / 2 ^ unit = sum.natAbs := by
        rcases stands.abs.2 with exact | large
        · exact exact
        · have full : 26 ≤ sum.natAbs.log2 :=
            (Nat.le_log2 nonzero).2 large
          omega
      have shifted : |x| / 2 ^ unit / 2 ^ shift = (sum.natAbs * 2 ^ amount : Nat) := by
        have negated : shift = -(amount : Int) := by
          omega
        rw [exact, negated, zpow_neg, div_inv_eq_mul, zpow_natCast]
        push_cast
        rfl
      have nearest :
          IsNearestEven (|x| / 2 ^ unit / 2 ^ shift) (sum.natAbs * 2 ^ amount : Nat) := by
        rw [shifted, ← Int.cast_natCast]
        exact isNearestEven_intCast _
      have rounds := rounds_of_shift low top isShift.symm nearest
      have fits : sum.natAbs * 2 ^ amount < 2 ^ 64 :=
        Nat.lt_of_le_of_lt rounds.fits (by decide)
      rw [if_pos up, isAmount, castShift_ok (by omega), ok_bind, shlU_eq fits,
        castU_ok (Nat.lt_of_le_of_lt rounds.fits (by decide)), ok_bind]
      exact rounds.packed stands.ne_zero
    · obtain ⟨count, rfl⟩ := Int.eq_ofNat_of_zero_le (Int.le_of_lt (Int.not_le.1 up))
      obtain ⟨rounds, rounded⟩ := stands.rounds_down (by omega) isShift.symm
      rw [if_neg up, castShift_ok (by omega), ok_bind, rounded, ok_bind]
      exact rounds.packed stands.ne_zero

/-- A value of few enough bits fits. -/
theorem castU_of_log2
    {width value : Nat}
    (nonzero : value ≠ 0)
    (short : value.log2 < width) :
    castU width value = .ok value :=
  castU_ok ((Nat.log2_lt nonzero).1 short)

/-- The end of the wide version. -/
theorem WideControl.roundSum_eq
    {sum : Int}
    (stands : StandsFor sum (-298) x)
    (small : sum.natAbs.log2 < 575) :
    WideControl.roundSum sum = .ok (nearest32 x) := by
  have nonzero : sum.natAbs ≠ 0 := Int.natAbs_ne_zero.2 stands.nonzero
  have high : (575 : Int) - clz 576 sum.natAbs = sum.natAbs.log2 := by
    unfold clz
    rw [if_neg nonzero]
    omega
  obtain ⟨count, isCount⟩ :=
    Int.eq_ofNat_of_zero_le (show 0 ≤ max ((sum.natAbs.log2 : Int) - 23) 149 by omega)
  have isShift :
      (count : Int) = max ((sum.natAbs.log2 : Int) - 23) (-149 - -298) := by
    omega
  obtain ⟨rounds, rounded⟩ := stands.rounds_down (by omega) isShift
  unfold WideControl.roundSum
  dsimp only
  rw [stands.sign_eq, castU_of_log2 nonzero (Nat.lt_succ_of_lt small),
    ok_bind, high, isCount, castShift_ok (by omega), ok_bind, rounded, ok_bind]
  have exponent : (count : Int) - 148 = -298 + count + 150 := by
    omega
  rw [exponent]
  exact rounds.packed stands.ne_zero

end Jxlz.Binary32
