import Jxlz.Base.Binary32Round

namespace Jxlz.Binary32

open NearestEven Scaled

/-!
# The fused multiply-add is rounded once

The larger term keeps all its bits in 61, so that the sum is exact or, where the
smaller term lost bits, so large that the lost ones only matter as a sticky bit.
Both versions thus return the word nearest to the exact `a · b + c`.
-/

/-! Aligning the terms. -/

theorem scaled_div
    (m e unit : Int) :
    scaled m e / 2 ^ unit = scaled m (e - unit) := by
  rw [scaled, scaled, zpow_sub₀ (by norm_num), mul_div_assoc]

theorem scaled_natCast
    (m amount : Nat) :
    scaled m (amount : Int) = (m * 2 ^ amount : Nat) := by
  rw [scaled, zpow_natCast]
  push_cast
  rfl

/-- A term is shifted up without a loss. -/
theorem alignFused_up
    {m amount : Nat}
    (below : m.log2 + amount ≤ 60) :
    alignFused m amount = .ok (m * 2 ^ amount) ∧ m * 2 ^ amount < 2 ^ 61 := by
  have fits : m * 2 ^ amount < 2 ^ 61 :=
    calc
      m * 2 ^ amount < 2 ^ (m.log2 + 1) * 2 ^ amount :=
        Nat.mul_lt_mul_of_pos_right Nat.lt_log2_self (Nat.two_pow_pos amount)
      _ = 2 ^ (m.log2 + 1 + amount) :=
        (Nat.pow_add 2 _ _).symm
      _ ≤ 2 ^ 61 :=
        Nat.pow_le_pow_right (by decide) (by omega)
  unfold alignFused
  rw [if_pos (Int.natCast_nonneg amount), castShift_ok (by omega), ok_bind,
    shlU_eq (by omega)]
  exact ⟨rfl, fits⟩

/-- The larger term is even, and has its first bit at place 60. -/
theorem alignFused_larger
    {m : Nat}
    {shift : Int}
    (nonzero : m ≠ 0)
    (short : m < 2 ^ 48)
    (top : m.log2 + shift = 60) :
    ∃ p : Nat,
      alignFused m shift = .ok p ∧
        scaled m shift = p ∧ 2 ^ 60 ≤ p ∧ p < 2 ^ 61 ∧ p % 2 = 0 := by
  have bits : m.log2 < 48 := (Nat.log2_lt nonzero).2 short
  obtain ⟨amount, rfl⟩ := Int.eq_ofNat_of_zero_le (show 0 ≤ shift by omega)
  obtain ⟨aligned, fits⟩ := alignFused_up (show m.log2 + amount ≤ 60 by omega)
  refine ⟨m * 2 ^ amount, aligned, scaled_natCast m amount, ?_, fits, ?_⟩
  · calc
      2 ^ 60 = 2 ^ m.log2 * 2 ^ amount := by
        rw [← Nat.pow_add]
        congr 1
        omega
      _ ≤ m * 2 ^ amount :=
        Nat.mul_le_mul_right _ (Nat.log2_self_le nonzero)
  · obtain ⟨less, rfl⟩ := Nat.exists_eq_succ_of_ne_zero (show amount ≠ 0 by omega)
    rw [Nat.pow_succ, ← Nat.mul_assoc, Nat.mul_mod_left]

/-- Setting the lowest bit. -/
theorem or_one
    (k : Nat) :
    (k ||| 1) % 2 = 1 ∧ k ≤ k ||| 1 ∧ k ||| 1 ≤ k + 1 := by
  have odd : (k ||| 1) % 2 = 1 := Nat.or_mod_two_eq_one.2 (.inr rfl)
  have half : (k ||| 1) / 2 = k / 2 := by
    rw [Nat.or_div_two]
    exact Nat.or_zero _
  refine ⟨odd, ?_, ?_⟩ <;> omega

/-- The other term is exact, or sticky and much smaller. -/
theorem alignFused_smaller
    {m : Nat}
    {shift : Int}
    (nonzero : m ≠ 0)
    (short : m < 2 ^ 48)
    (below : m.log2 + shift ≤ 60) :
    ∃ z : Nat,
      alignFused m shift = .ok z ∧
        z < 2 ^ 61 ∧ Sticky (scaled m shift) z ∧
        (scaled m shift = z ∨ z ≤ 2 ^ 47) := by
  by_cases up : 0 ≤ shift
  · obtain ⟨amount, rfl⟩ := Int.eq_ofNat_of_zero_le up
    obtain ⟨aligned, fits⟩ := alignFused_up (show m.log2 + amount ≤ 60 by omega)
    have exact := scaled_natCast m amount
    exact ⟨m * 2 ^ amount, aligned, fits, .inl (by rw [exact, Int.cast_natCast]),
      .inl exact⟩
  · obtain ⟨count, isCount⟩ := Int.eq_ofNat_of_zero_le (show 0 ≤ -shift by omega)
    have negated : shift = -(count : Int) := by
      omega
    have quotient : scaled m shift = m / 2 ^ count := by
      rw [negated, scaled, zpow_neg, zpow_natCast, Int.cast_natCast, div_eq_mul_inv]
    have unit : (0 : ℚ) < 2 ^ count := by
      positivity
    have positive : (0 : ℚ) < m := by
      exact_mod_cast Nat.pos_of_ne_zero nonzero
    unfold alignFused
    rw [if_neg up, quotient]
    by_cases far : shift ≤ -64
    · have small : (m : ℚ) / 2 ^ count < 1 := by
        rw [div_lt_one unit]
        have below : m < 2 ^ count :=
          Nat.lt_of_lt_of_le short (Nat.pow_le_pow_right (by decide) (by omega))
        exact_mod_cast below
      have above : 0 < (m : ℚ) / 2 ^ count := by
        positivity
      rw [if_pos far]
      refine ⟨1, rfl, by decide, .inr ⟨by decide, ?_⟩, .inr (by decide)⟩
      push_cast
      rw [abs_lt]
      constructor <;> linarith
    · have kept : m >>> count = m / 2 ^ count :=
        Nat.shiftRight_eq_div_pow m count
      have dropped : m &&& (1 <<< count - 1) = m % 2 ^ count := by
        rw [Nat.one_shiftLeft]
        exact Nat.and_two_pow_sub_one_eq_mod m count
      have parts := div_two_pow_eq m count
      have rest : m % 2 ^ count < 2 ^ count := Nat.mod_lt _ (Nat.two_pow_pos count)
      have halved : m / 2 ^ count < 2 ^ 47 := by
        apply Nat.div_lt_of_lt_mul
        have two : 2 ^ 1 ≤ 2 ^ count := Nat.pow_le_pow_right (by decide) (by omega)
        omega
      have counted : castShift 6 (-shift) = .ok count := by
        rw [isCount]
        exact castShift_ok (by omega)
      rw [if_neg far, counted, ok_bind, dropped, kept, parts]
      dsimp only
      generalize m / 2 ^ count = k at halved ⊢
      generalize m % 2 ^ count = r at rest ⊢
      by_cases exact : r = 0
      · rw [exact, if_neg (by decide), Nat.or_zero, Nat.cast_zero, zero_div, add_zero]
        exact ⟨k, rfl, by omega, .inl (Int.cast_natCast k).symm, .inl rfl⟩
      · obtain ⟨odd, atLeast, atMost⟩ := or_one k
        have above : 0 < (r : ℚ) / 2 ^ count := by
          have positive : (0 : ℚ) < r := by
            exact_mod_cast Nat.pos_of_ne_zero exact
          positivity
        have below : (r : ℚ) / 2 ^ count < 1 := by
          rw [div_lt_one unit]
          exact_mod_cast rest
        have atLeast' : (k : ℚ) ≤ (k ||| 1 : Nat) := by
          exact_mod_cast atLeast
        have atMost' : ((k ||| 1 : Nat) : ℚ) ≤ k + 1 := by
          exact_mod_cast atMost
        rw [if_pos exact]
        refine ⟨k ||| 1, rfl, by omega, .inr ⟨by omega, ?_⟩, .inr (by omega)⟩
        rw [Int.cast_natCast, abs_lt]
        constructor <;> linarith

/-- The sum of an even large term and a term that may be sticky. -/
theorem sum_sticky
    {q : ℚ}
    {d z : Int}
    (even : d % 2 = 0)
    (large : 2 ^ 60 ≤ d.natAbs)
    (fits : d.natAbs < 2 ^ 61)
    (sticky : Sticky q z)
    (fits' : z.natAbs < 2 ^ 61)
    (near : q = z ∨ z.natAbs ≤ 2 ^ 47) :
    (d + z).natAbs < 2 ^ 62 ∧
      Sticky (d + q) (d + z) ∧
      ((d : ℚ) + q = ((d + z : Int) : ℚ) ∨ 2 ^ 26 ≤ (d + z).natAbs) := by
  refine ⟨by omega, sticky.even_add even, ?_⟩
  rcases near with exact | small
  · refine .inl ?_
    rw [exact]
    push_cast
    rfl
  · exact .inr (by omega)

/-! The exact sum. -/

theorem significand_ne_zero
    {word : UInt32}
    (nonzero : ¬IsZero word) :
    significand (magnitude word) ≠ 0 := by
  unfold IsZero at nonzero
  unfold significand
  split
  · exact nonzero
  · omega

theorem place_le
    {word : UInt32}
    (finite : IsFinite word) :
    place (magnitude word) ≤ 104 := by
  unfold IsFinite at finite
  unfold place
  omega

/-- The sign and the size of a product, and the addend. -/
theorem exact_sum
    (a b c : UInt32)
    (unit : Int) :
    (value a * value b + value c) / 2 ^ unit =
      signedBy (isNegative a != isNegative b)
          (scaled (significand (magnitude a) * significand (magnitude b) : Nat)
            (place (magnitude a) + place (magnitude b) - unit)) +
        signedBy (isNegative c)
          (scaled (significand (magnitude c)) (place (magnitude c) - unit)) := by
  have signed_div (negative : Bool) (v : ℚ) :
      signedBy negative v / 2 ^ unit = signedBy negative (v / 2 ^ unit) := by
    cases negative with
    | true => exact neg_div _ _
    | false => rfl
  unfold value magnitudeValue
  rw [signedBy_mul, ← scaled_mul, add_div, signed_div, signed_div, scaled_div,
    scaled_div]
  push_cast
  rfl

/-- Terms of one sign do not cancel. -/
theorem signs_differ
    {negative negative' : Bool}
    {first second : ℚ}
    (positive : 0 < first + second)
    (cancels : signedBy negative first + signedBy negative' second = 0) :
    (negative && negative') = false := by
  cases negative with
  | false => rfl
  | true =>
      cases negative' with
      | false => rfl
      | true =>
          unfold signedBy at cancels
          rw [if_pos rfl, if_pos rfl] at cancels
          linarith

theorem cast_withSign
    (negative : Bool)
    (m : Nat) :
    ((withSign negative m : Int) : ℚ) = signedBy negative m := by
  cases negative with
  | true =>
      exact Int.cast_neg _
  | false =>
      rfl

theorem sticky_withSign
    (negative : Bool)
    {q : ℚ}
    {m : Nat}
    (sticky : Sticky q m) :
    Sticky (signedBy negative q) (withSign negative m) := by
  cases negative with
  | true => exact sticky.neg
  | false => exact sticky

theorem withSign_mod_two
    (negative : Bool)
    {m : Nat}
    (even : m % 2 = 0) :
    withSign negative m % 2 = 0 := by
  cases negative with
  | true =>
      unfold withSign
      rw [if_pos rfl]
      omega
  | false =>
      unfold withSign
      rw [if_neg Bool.false_ne_true]
      omega

/-- Behind the alignment the sum fits, and stands for the exact one. -/
structure AlignedSum
    (sum : Int)
    (x : ℚ) :
    Prop where
  small : sum.natAbs < 2 ^ 62
  sticky : Sticky x sum
  deep : x = sum ∨ 2 ^ 26 ≤ sum.natAbs

/-- A larger term and a smaller one, each with its sign, are aligned and added. -/
theorem alignFused_sum
    {larger smaller : Nat}
    {shift shift' : Int}
    (nonzero : larger ≠ 0)
    (nonzero' : smaller ≠ 0)
    (short : larger < 2 ^ 48)
    (short' : smaller < 2 ^ 48)
    (top : larger.log2 + shift = 60)
    (below : smaller.log2 + shift' ≤ 60) :
    ∃ p z : Nat,
      alignFused larger shift = .ok p ∧
        alignFused smaller shift' = .ok z ∧
        p < 2 ^ 61 ∧ z < 2 ^ 61 ∧
        ∀ negative negative',
          AlignedSum (withSign negative p + withSign negative' z)
            (signedBy negative (scaled larger shift) +
              signedBy negative' (scaled smaller shift')) := by
  obtain ⟨p, isAligned, isExact, large, fits, even⟩ :=
    alignFused_larger nonzero short top
  obtain ⟨z, isAligned', fits', sticky, near⟩ :=
    alignFused_smaller nonzero' short' below
  refine ⟨p, z, isAligned, isAligned', fits, fits', fun negative negative' => ?_⟩
  have near' :
      signedBy negative' (scaled smaller shift') = (withSign negative' z : Int) ∨
        (withSign negative' z).natAbs ≤ 2 ^ 47 := by
    rw [natAbs_withSign, cast_withSign]
    rcases near with exact | small
    · exact .inl (by rw [exact])
    · exact .inr small
  obtain ⟨small, isSticky, deep⟩ :=
    sum_sticky (withSign_mod_two negative even)
      (by rw [natAbs_withSign]; exact large) (by rw [natAbs_withSign]; exact fits)
      (sticky_withSign negative' sticky) (by rw [natAbs_withSign]; exact fits') near'
  rw [isExact, ← cast_withSign]
  exact ⟨small, isSticky, deep⟩

/-- The word of an exact number, or plain zero. -/
def roundOrZero
    (x : ℚ) :
    UInt32 :=
  if x = 0 then 0 else nearest32 x

theorem high_eq
    {width value : Nat}
    (nonzero : value ≠ 0)
    (short : value.log2 < width)
    (e : Int) :
    e + ((width - 1 : Nat) : Int) - clz width value = e + value.log2 := by
  unfold clz
  rw [if_neg nonzero]
  omega

theorem signWord_ne_zero
    (negative : Bool) :
    signWord negative ≠ 0 ↔ negative = true := by
  revert negative
  decide

/-- The narrow version, where both terms are there. -/
theorem addFused_eq
    {a b c : UInt32}
    (nonzeroA : ¬IsZero a)
    (nonzeroB : ¬IsZero b)
    (nonzeroC : ¬IsZero c) :
    addFused (signWord (isNegative a != isNegative b)) a b c =
      .ok (roundOrZero (value a * value b + value c)) := by
  have product_ne : significand (magnitude a) * significand (magnitude b) ≠ 0 :=
    Nat.mul_ne_zero (significand_ne_zero nonzeroA) (significand_ne_zero nonzeroB)
  have addend_ne := significand_ne_zero nonzeroC
  have product_lt :
      significand (magnitude a) * significand (magnitude b) < 2 ^ 48 :=
    calc
      significand (magnitude a) * significand (magnitude b) < 2 ^ 24 * 2 ^ 24 :=
        Nat.mul_lt_mul'' (significand_lt _) (significand_lt _)
      _ = 2 ^ 48 := by
        norm_num
  have addend_lt := significand_lt (magnitude c)
  have sums := exact_sum a b c
  obtain ⟨leftDigits, leftPlace⟩ := finiteTerm_eq a
  obtain ⟨rightDigits, rightPlace⟩ := finiteTerm_eq b
  obtain ⟨extraDigits, extraPlace⟩ := finiteTerm_eq c
  generalize value a * value b + value c = x at sums ⊢
  unfold addFused
  dsimp only
  rw [leftDigits, rightDigits, extraDigits, leftPlace, rightPlace, extraPlace,
    mulU_ok (Nat.lt_trans product_lt (by decide)), ok_bind]
  generalize significand (magnitude a) * significand (magnitude b) = product at *
  generalize significand (magnitude c) = addend at *
  generalize place (magnitude a) + place (magnitude b) = productExp at *
  generalize place (magnitude c) = addendExp at *
  have productBits : product.log2 < 48 := (Nat.log2_lt product_ne).2 product_lt
  have addendBits : addend.log2 < 24 := (Nat.log2_lt addend_ne).2 addend_lt
  have productHigh : productExp + 63 - clz 64 product = productExp + product.log2 :=
    high_eq product_ne (show product.log2 < 64 by omega) productExp
  have addendHigh : addendExp + 31 - clz 32 addend = addendExp + addend.log2 :=
    high_eq addend_ne (show addend.log2 < 32 by omega) addendExp
  rw [productHigh, addendHigh]
  generalize isUnit :
    max (productExp + product.log2) (addendExp + (addend.log2 : Int)) - 60 = unit
  -- Whichever term is the larger one, both are aligned and the sum fits.
  obtain ⟨p, z, isAligned, isAligned', fits, fits', aligned⟩ :
      ∃ p z : Nat,
        alignFused product (productExp - unit) = .ok p ∧
          alignFused addend (addendExp - unit) = .ok z ∧
          p < 2 ^ 61 ∧ z < 2 ^ 61 ∧
          AlignedSum
            (withSign (isNegative a != isNegative b) p +
              withSign (isNegative c) z)
            (x / 2 ^ unit) := by
    rw [sums unit]
    by_cases productLarger : addendExp + (addend.log2 : Int) ≤ productExp + product.log2
    · obtain ⟨p, z, isAligned, isAligned', fits, fits', aligned⟩ :=
        alignFused_sum product_ne addend_ne product_lt
          (Nat.lt_trans addend_lt (by decide))
          (show (product.log2 : Int) + (productExp - unit) = 60 by omega)
          (show (addend.log2 : Int) + (addendExp - unit) ≤ 60 by omega)
      exact ⟨p, z, isAligned, isAligned', fits, fits', aligned _ _⟩
    · obtain ⟨z, p, isAligned', isAligned, fits', fits, aligned⟩ :=
        alignFused_sum addend_ne product_ne (Nat.lt_trans addend_lt (by decide))
          product_lt
          (show (addend.log2 : Int) + (addendExp - unit) = 60 by omega)
          (show (product.log2 : Int) + (productExp - unit) ≤ 60 by omega)
      refine ⟨p, z, isAligned, isAligned', fits, fits', ?_⟩
      rw [add_comm (withSign _ p), add_comm (signedBy _ (scaled product _))]
      exact aligned _ _
  have small := aligned.small
  rw [isAligned, ok_bind, castU_ok (Nat.lt_trans fits (by decide)), ok_bind, isAligned',
    ok_bind, castU_ok (Nat.lt_trans fits' (by decide)), ok_bind]
  have signs :
      ((if signWord (isNegative a != isNegative b) ≠ 0 then -(p : Int) else p) =
          withSign (isNegative a != isNegative b) p) ∧
        (if c >>> 31 ≠ 0 then -(z : Int) else z) = withSign (isNegative c) z := by
    simp only [signWord_ne_zero, shiftRight_sign_ne_zero, withSign, and_self]
  rw [signs.1, signs.2, addI64_ok (by omega) (by omega), ok_bind]
  generalize
    withSign (isNegative a != isNegative b) p + withSign (isNegative c) z = sum at *
  have unit_ne : (2 : ℚ) ^ unit ≠ 0 := (unit_pos unit).ne'
  unfold roundOrZero
  by_cases cancelled : sum = 0
  · have isZero : x = 0 := by
      rcases aligned.deep with exact | large
      · rw [cancelled, Int.cast_zero, div_eq_zero_iff] at exact
        exact exact.resolve_right unit_ne
      · rw [cancelled] at large
        exact absurd large (by decide)
    rw [if_pos cancelled, if_pos isZero]
    rfl
  · have stands : StandsFor sum unit x := ⟨cancelled, aligned.sticky, aligned.deep⟩
    rw [if_neg cancelled, if_neg stands.ne_zero]
    exact roundSum_eq stands small

/-! The wide version. -/

/-- A value of few enough bits is shifted without wrapping. -/
theorem shlS_eq
    {width value amount bits : Nat}
    (short : value < 2 ^ bits)
    (room : bits + amount < width) :
    shlS width value amount = (value * 2 ^ amount : Nat) := by
  obtain ⟨less, rfl⟩ := Nat.exists_eq_succ_of_ne_zero (Nat.ne_zero_of_lt room)
  have double : (2 : Int) ^ (less + 1) = 2 * 2 ^ less := pow_succ' 2 less
  have fits : value * 2 ^ amount < 2 ^ less :=
    calc
      value * 2 ^ amount < 2 ^ bits * 2 ^ amount :=
        Nat.mul_lt_mul_of_pos_right short (Nat.two_pow_pos amount)
      _ = 2 ^ (bits + amount) :=
        (Nat.pow_add 2 _ _).symm
      _ ≤ 2 ^ less :=
        Nat.pow_le_pow_right Nat.two_pos (Nat.le_of_lt_succ room)
  have fits' : ((value * 2 ^ amount : Nat) : Int) < 2 ^ less := by
    exact_mod_cast fits
  have nonneg : 0 ≤ ((value * 2 ^ amount : Nat) : Int) := Int.natCast_nonneg _
  unfold shlS
  rw [Nat.shiftLeft_eq, Int.bmod_def, Nat.succ_eq_add_one]
  push_cast at fits' nonneg ⊢
  rw [double, Int.emod_eq_of_lt nonneg (by omega), if_pos (by omega)]

/-- Two shifted terms add up within one bit more. -/
theorem castS_sum_ok
    {width first second amount amount' bits : Nat}
    (short : first < 2 ^ bits)
    (short' : second < 2 ^ bits)
    (room : bits + amount + 1 < width)
    (room' : bits + amount' + 1 < width)
    (negative negative' : Bool) :
    let sum :=
      withSign negative (first * 2 ^ amount) +
        withSign negative' (second * 2 ^ amount')
    castS width sum = .ok sum ∧ (sum ≠ 0 → sum.natAbs.log2 < width - 1) := by
  intro sum
  obtain ⟨less, rfl⟩ : ∃ less, width = less + 2 := ⟨width - 2, by omega⟩
  have fits {m more : Nat}
      (short : m < 2 ^ bits)
      (room : bits + more + 1 < less + 2) :
      m * 2 ^ more < 2 ^ less :=
    calc
      m * 2 ^ more < 2 ^ bits * 2 ^ more :=
        Nat.mul_lt_mul_of_pos_right short (Nat.two_pow_pos more)
      _ = 2 ^ (bits + more) :=
        (Nat.pow_add 2 _ _).symm
      _ ≤ 2 ^ less :=
        Nat.pow_le_pow_right Nat.two_pos (by omega)
  have first_lt := fits short room
  have second_lt := fits short' room'
  have double : 2 ^ (less + 1) = 2 * 2 ^ less := Nat.pow_succ'
  have small : sum.natAbs < 2 ^ (less + 1) := by
    have triangle : sum.natAbs ≤ _ := Int.natAbs_add_le _ _
    rw [natAbs_withSign, natAbs_withSign] at triangle
    omega
  have small' : |sum| < 2 ^ (less + 1) := by
    rw [← Int.natCast_natAbs]
    exact_mod_cast small
  obtain ⟨low, high⟩ := abs_lt.1 small'
  refine ⟨?_, fun nonzero => ?_⟩
  · unfold castS
    exact if_pos ⟨low.le, high⟩
  · exact (Nat.log2_lt (Int.natAbs_ne_zero.2 nonzero)).2 small

/-- The wide version: the sum is exact. -/
theorem WideControl.addExact_eq
    {a b c : UInt32}
    (finiteA : IsFinite a)
    (finiteB : IsFinite b)
    (finiteC : IsFinite c) :
    WideControl.addExact (signWord (isNegative a != isNegative b)) a b c =
      .ok (roundOrZero (value a * value b + value c)) := by
  have product_lt :
      significand (magnitude a) * significand (magnitude b) < 2 ^ 48 :=
    calc
      significand (magnitude a) * significand (magnitude b) < 2 ^ 24 * 2 ^ 24 :=
        Nat.mul_lt_mul'' (significand_lt _) (significand_lt _)
      _ = 2 ^ 48 := by
        norm_num
  have addend_lt := significand_lt (magnitude c)
  have sums := exact_sum a b c (-298)
  have lowA : -149 ≤ place (magnitude a) := leastPlace_le_place _
  have lowB : -149 ≤ place (magnitude b) := leastPlace_le_place _
  have lowC : -149 ≤ place (magnitude c) := leastPlace_le_place _
  have topA := place_le finiteA
  have topB := place_le finiteB
  have topC := place_le finiteC
  obtain ⟨leftDigits, leftPlace⟩ := finiteTerm_eq a
  obtain ⟨rightDigits, rightPlace⟩ := finiteTerm_eq b
  obtain ⟨extraDigits, extraPlace⟩ := finiteTerm_eq c
  generalize value a * value b + value c = x at sums ⊢
  unfold WideControl.addExact
  dsimp only
  rw [leftDigits, rightDigits, extraDigits, leftPlace, rightPlace, extraPlace,
    mulU_ok (Nat.lt_trans product_lt (by decide)), ok_bind]
  generalize significand (magnitude a) * significand (magnitude b) = product at *
  generalize significand (magnitude c) = addend at *
  obtain ⟨amount, isAmount⟩ := Int.eq_ofNat_of_zero_le
    (show 0 ≤ place (magnitude a) + place (magnitude b) + 298 by omega)
  obtain ⟨amount', isAmount'⟩ := Int.eq_ofNat_of_zero_le
    (show 0 ≤ place (magnitude c) + 298 by omega)
  have productPlace :
      place (magnitude a) + place (magnitude b) - -298 = amount := by
    omega
  have addendPlace : place (magnitude c) - -298 = amount' := by
    omega
  rw [productPlace, addendPlace, scaled_natCast, scaled_natCast, ← cast_withSign,
    ← cast_withSign] at sums
  obtain ⟨fits, short⟩ :=
    castS_sum_ok product_lt (Nat.lt_trans addend_lt (by decide))
      (show 48 + amount + 1 < 576 by omega) (show 48 + amount' + 1 < 576 by omega)
      (isNegative a != isNegative b) (isNegative c)
  rw [isAmount, castShift_ok (by omega), ok_bind, isAmount', castShift_ok (by omega),
    ok_bind, shlS_eq product_lt (by omega), shlS_eq addend_lt (by omega)]
  have signs :
      ((if signWord (isNegative a != isNegative b) ≠ 0 then
            -((product * 2 ^ amount : Nat) : Int)
          else (product * 2 ^ amount : Nat)) =
          withSign (isNegative a != isNegative b) (product * 2 ^ amount)) ∧
        (if c >>> 31 ≠ 0 then -((addend * 2 ^ amount' : Nat) : Int)
          else (addend * 2 ^ amount' : Nat)) =
            withSign (isNegative c) (addend * 2 ^ amount') := by
    simp only [signWord_ne_zero, shiftRight_sign_ne_zero, withSign, and_self]
  rw [signs.1, signs.2, fits, ok_bind]
  rw [← Int.cast_add] at sums
  generalize
    withSign (isNegative a != isNegative b) (product * 2 ^ amount) +
      withSign (isNegative c) (addend * 2 ^ amount') = sum at *
  have unit_ne : (2 : ℚ) ^ (-298 : Int) ≠ 0 := (unit_pos (-298)).ne'
  unfold roundOrZero
  by_cases cancelled : sum = 0
  · have isZero : x = 0 := by
      rw [cancelled, Int.cast_zero, div_eq_zero_iff] at sums
      exact sums.resolve_right unit_ne
    rw [if_pos cancelled, if_pos isZero]
    rfl
  · have stands : StandsFor sum (-298) x := ⟨cancelled, .inl sums, .inl sums⟩
    rw [if_neg cancelled, if_neg stands.ne_zero]
    exact WideControl.roundSum_eq stands (short cancelled)

end Jxlz.Binary32
