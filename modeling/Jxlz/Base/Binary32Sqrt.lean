import Jxlz.Base.FixedDisplay
import Jxlz.Lib.NearestEven

namespace Jxlz.Binary32

open NearestEven NearestRoot Scaled

/-!
# The square root of a binary32 word

Mirrors `sqrt` of `binary32_geometry.zig`: the significand is brought to an even
exponent, and its integer root is rounded by the remainder.
-/

/-- A significand with its hidden bit, and the exponent of that bit. -/
def normalizedTerm
    (magnitude : UInt32) :
    Checked (Nat × Int) :=
  let field := (magnitude >>> 23).toNat
  let significand := (magnitude &&& 0x7fffff).toNat
  if field = 0 then do
    let missing ← subU (clz 32 significand) 8
    let shift ← castU 5 missing
    return (shlU 32 significand shift, -126 - shift)
  else
    return ((magnitude &&& 0x7fffff ||| 0x800000).toNat, field - 127)

def sqrt
    (word : UInt32) :
    Checked UInt32 := do
  let magnitude := word &&& 0x7fffffff
  if magnitude = 0 ∨ word = 0x7f800000 then
    return word
  if 0x7f800000 < magnitude then
    return word ||| 0x400000
  if word >>> 31 ≠ 0 then
    return 0x7fc00000
  let (significand, exponent) ← normalizedTerm magnitude
  let odd : Bool := exponent % 2 ≠ 0
  let significand := if odd then shlU 32 significand 1 else significand
  let exponent := if odd then exponent - 1 else exponent
  let radicand := shlU 64 significand 23
  let root := radicand.sqrt
  let square ← mulU 64 root root
  let rest ← subU radicand square
  let root := if root < rest then root + 1 else root
  let carried : Bool := root = 0x1000000
  let root := if carried then root >>> 1 else root
  let exponent := if carried then exponent + 2 else exponent
  require (exponent % 2 = 0)
  let biased ← castShift 32 (exponent / 2 + 127)
  let root ← castU 32 root
  return (UInt32.ofNat biased <<< 23) ||| (UInt32.ofNat root &&& 0x7fffff)

/-! Nearest words. -/

theorem cast_scaled
    (m e : Int) :
    ((scaled m e : ℚ) : ℝ) = m * (2 : ℝ) ^ e := by
  unfold scaled
  push_cast
  rfl

variable {word : UInt32}

/-- No other word is as near to a number as the one within half a unit of it. -/
theorem nearest_of_within
    {y : ℝ}
    {n : Nat}
    {e : Int}
    (large : 2 ^ 23 * (2 : ℝ) ^ e ≤ y)
    (within : |y - n * (2 : ℝ) ^ e| < 1 / 2 * (2 : ℝ) ^ e)
    (other : value word ≠ scaled n e) :
    |y - n * (2 : ℝ) ^ e| < |y - value word| := by
  have unit : (0 : ℝ) < 2 ^ e := by
    positivity
  have two : (2 : ℝ) ≠ 0 := by
    norm_num
  rw [value_eq_scaled] at other ⊢
  have short :
      |withSign (isNegative word) (significand (magnitude word))| < 2 ^ 24 := by
    rw [abs_withSign]
    exact_mod_cast significand_lt (magnitude word)
  generalize withSign (isNegative word) (significand (magnitude word)) = m at *
  generalize place (magnitude word) = f at *
  -- Two different numbers of the grid are a unit apart.
  have onGrid (k : Int) (different : (k : ℝ) ≠ n) :
      |y - n * (2 : ℝ) ^ e| < |y - k * (2 : ℝ) ^ e| := by
    have apart : (1 : ℝ) ≤ |(n : ℝ) - k| := by
      have distinct : (n : Int) - k ≠ 0 := by
        intro same
        have equal : k = (n : Int) := by
          omega
        rw [equal] at different
        exact different (Int.cast_natCast n)
      exact_mod_cast Int.one_le_abs distinct
    have gap : |n * (2 : ℝ) ^ e - k * (2 : ℝ) ^ e| = |(n : ℝ) - k| * 2 ^ e := by
      rw [← sub_mul, abs_mul, abs_of_pos unit]
    have triangle := abs_sub_le (n * (2 : ℝ) ^ e) y (k * (2 : ℝ) ^ e)
    rw [gap, abs_sub_comm _ y] at triangle
    have widened := mul_le_mul_of_nonneg_right apart unit.le
    linarith
  by_cases finer : f < e
  · -- The other number is below the first digit of `y`.
    have below : (scaled m f : ℝ) < 2 ^ 23 * (2 : ℝ) ^ e := by
      have top : (m : ℝ) < 2 ^ 24 := by
        exact_mod_cast (abs_lt.1 short).2
      have rises : (2 : ℝ) ^ (f + 1) ≤ 2 ^ e :=
        zpow_le_zpow_right₀ (by norm_num) (by omega)
      rw [zpow_add_one₀ two] at rises
      have digits : (m : ℝ) * 2 ^ f < 2 ^ 24 * 2 ^ f :=
        mul_lt_mul_of_pos_right top (by positivity)
      rw [cast_scaled]
      linarith
    have corner : |y - n * (2 : ℝ) ^ e| ≤ |y - (2 ^ 23 : Int) * (2 : ℝ) ^ e| := by
      by_cases same : ((2 ^ 23 : Int) : ℝ) = n
      · rw [same]
      · exact (onGrid _ same).le
    have above : 0 ≤ y - (2 ^ 23 : Int) * (2 : ℝ) ^ e := by
      push_cast
      linarith
    rw [abs_of_nonneg above] at corner
    push_cast at corner
    exact lt_of_lt_of_le (by linarith) (le_abs_self _)
  · obtain ⟨amount, isAmount⟩ := Int.eq_ofNat_of_zero_le
      (Int.sub_nonneg_of_le (Int.not_lt.1 finer))
    have aligned : scaled m f = scaled (m * 2 ^ amount) e := by
      rw [scaled_shift]
      congr 1
      omega
    rw [aligned] at other ⊢
    rw [cast_scaled]
    apply onGrid
    intro same
    apply other
    have same' : m * 2 ^ amount = (n : Int) := by
      exact_mod_cast same
    rw [same']

/-! The root of a word. -/

/-- The first bit of every significand is brought to the same place. -/
theorem normalizedTerm_ok
    (finite : IsFinite word)
    (nonzero : ¬IsZero word) :
    ∃ s : Nat, ∃ e : Int,
      normalizedTerm (word &&& 0x7fffffff) = .ok (s, e) ∧
        2 ^ 23 ≤ s ∧ s < 2 ^ 24 ∧ -149 ≤ e ∧ e ≤ 127 ∧
        scaled s (e - 23) = magnitudeValue (magnitude word) := by
  have masked := toNat_and_magnitude word
  have exponent : ((word &&& 0x7fffffff) >>> 23).toNat = magnitude word / 2 ^ 23 := by
    rw [← masked]
    exact Nat.shiftRight_eq_div_pow _ 23
  have fraction :
      ((word &&& 0x7fffffff) &&& 0x7fffff).toNat = magnitude word % 2 ^ 23 := by
    rw [UInt32.toNat_and, masked]
    exact Nat.and_two_pow_sub_one_eq_mod _ 23
  unfold IsFinite at finite
  unfold IsZero at nonzero
  unfold normalizedTerm
  dsimp only
  rw [exponent, fraction]
  by_cases subnormal : magnitude word < 2 ^ 23
  · -- The missing bits are counted.
    have short : (magnitude word).log2 < 23 := (Nat.log2_lt nonzero).2 subnormal
    obtain ⟨shift, isShift⟩ : ∃ shift, 23 = (magnitude word).log2 + shift :=
      ⟨23 - (magnitude word).log2, by omega⟩
    have count : clz 32 (magnitude word) = shift + 8 := by
      unfold clz
      rw [if_neg nonzero]
      omega
    have low : 2 ^ (magnitude word).log2 ≤ magnitude word := Nat.log2_self_le nonzero
    have high : magnitude word < 2 ^ ((magnitude word).log2 + 1) := Nat.lt_log2_self
    have filled : 2 ^ 23 ≤ magnitude word * 2 ^ shift :=
      calc
        2 ^ 23 = 2 ^ (magnitude word).log2 * 2 ^ shift := by
          rw [← Nat.pow_add, ← isShift]
        _ ≤ magnitude word * 2 ^ shift :=
          Nat.mul_le_mul_right _ low
    have room : magnitude word * 2 ^ shift < 2 ^ 24 :=
      calc
        magnitude word * 2 ^ shift < 2 ^ ((magnitude word).log2 + 1) * 2 ^ shift :=
          Nat.mul_lt_mul_of_pos_right high (Nat.two_pow_pos shift)
        _ = 2 ^ 24 := by
          rw [← Nat.pow_add]
          congr 1
          omega
    have digits : significand (magnitude word) = magnitude word := if_pos subnormal
    have isPlace : place (magnitude word) = -149 := by
      unfold place
      rw [Nat.div_eq_of_lt subnormal]
      rfl
    refine ⟨magnitude word * 2 ^ shift, -126 - shift, ?_, filled, room, by omega,
      by omega, ?_⟩
    · rw [if_pos (Nat.div_eq_of_lt subnormal), Nat.mod_eq_of_lt subnormal, count,
        subU_ok (by omega), ok_bind, Nat.add_sub_cancel, castU_ok (by omega), ok_bind,
        shlU_eq (by omega)]
      rfl
    · have lower : (-126 : Int) - shift - 23 + shift = place (magnitude word) := by
        omega
      push_cast
      rw [scaled_shift, lower]
      unfold magnitudeValue
      rw [digits]
  · have hidden := Nat.two_pow_add_eq_or_of_lt
      (Nat.mod_lt (magnitude word) (Nat.two_pow_pos 23)) 1
    have digits : significand (magnitude word) = magnitude word % 2 ^ 23 + 2 ^ 23 :=
      if_neg subnormal
    have isWord :
        (word &&& 0x7fffffff &&& 0x7fffff ||| 0x800000).toNat =
          significand (magnitude word) := by
      rw [UInt32.toNat_or, fraction, digits, Nat.or_comm, Nat.add_comm]
      exact hidden.symm
    have isPlace : place (magnitude word) = (magnitude word / 2 ^ 23 : Nat) - 150 := by
      unfold place
      omega
    refine ⟨significand (magnitude word), (magnitude word / 2 ^ 23 : Nat) - 127, ?_,
      by omega, by omega, by omega, by omega, ?_⟩
    · rw [if_neg (by omega), isWord]
      rfl
    · have same :
          ((magnitude word / 2 ^ 23 : Nat) : Int) - 127 - 23 = place (magnitude word) := by
        omega
      rw [same]
      rfl

/-- The fields of a root that has its first bit at place 23, or one above. -/
theorem rootWord_eq
    {n biased : Nat}
    (large : 2 ^ 23 ≤ n)
    (small : n ≤ 2 ^ 24)
    (positive : 0 < biased)
    (fits : biased < 254) :
    (UInt32.ofNat (if n = 0x1000000 then biased + 1 else biased) <<< 23) |||
        (UInt32.ofNat (if n = 0x1000000 then n >>> 1 else n) &&& 0x7fffff) =
      UInt32.ofNat ((biased - 1) * 2 ^ 23 + n) := by
  by_cases carried : n = 0x1000000
  · have half : n >>> 1 = 2 ^ 23 := by
      rw [carried]
      rfl
    have sameBits : (biased + 1) * 2 ^ 23 + 2 ^ 23 % 2 ^ 23 = (biased - 1) * 2 ^ 23 + n := by
      omega
    rw [if_pos carried, if_pos carried, half, fields_eq (by omega), sameBits]
  · have sameBits : biased * 2 ^ 23 + n % 2 ^ 23 = (biased - 1) * 2 ^ 23 + n := by
      omega
    rw [if_neg carried, if_neg carried, fields_eq (by omega), sameBits]

/-- The even exponent, and the significand that goes with it. -/
theorem even_term
    {s : Nat}
    {e : Int}
    (large : 2 ^ 23 ≤ s)
    (small : s < 2 ^ 24)
    (least : -149 ≤ e)
    (most : e ≤ 127) :
    ∃ t : Nat, ∃ k : Int,
      (if decide (e % 2 ≠ 0) = true then shlU 32 s 1 else s) = t ∧
        (if decide (e % 2 ≠ 0) = true then e - 1 else e) = 2 * k ∧
        2 ^ 23 ≤ t ∧ t < 2 ^ 25 ∧ -75 ≤ k ∧ k ≤ 63 ∧
        scaled t (2 * k - 23) = scaled s (e - 23) := by
  by_cases odd : e % 2 ≠ 0
  · have shifted : shlU 32 s 1 = s * 2 ^ 1 := shlU_eq (by omega)
    refine ⟨s * 2 ^ 1, (e - 1) / 2, ?_, ?_, by omega, by omega, by omega, by omega, ?_⟩
    · rw [decide_eq_true odd, if_pos rfl, shifted]
    · rw [decide_eq_true odd, if_pos rfl]
      omega
    · have lower : 2 * ((e - 1) / 2) - 23 + (1 : Nat) = e - 23 := by
        omega
      rw [Nat.cast_mul, Nat.cast_pow, Nat.cast_ofNat, scaled_shift, lower]
  · refine ⟨s, e / 2, ?_, ?_, large, by omega, by omega, by omega, ?_⟩
    · rw [decide_eq_false odd]
      rfl
    · rw [decide_eq_false odd, if_neg Bool.false_ne_true]
      omega
    · congr 1
      omega

/-- The root of a radicand whose unit is a square. -/
theorem sqrt_scaled
    (radicand : Nat)
    (k : Int) :
    √((scaled radicand (2 * k) : ℚ) : ℝ) = √(radicand : ℝ) * (2 : ℝ) ^ k := by
  have unit : (0 : ℝ) ≤ 2 ^ k := by
    positivity
  have square : (2 : ℝ) ^ (2 * k) = 2 ^ k * 2 ^ k := by
    rw [← zpow_add₀ (by norm_num)]
    congr 1
    omega
  rw [cast_scaled, square, Int.cast_natCast, Real.sqrt_mul (Nat.cast_nonneg radicand),
    Real.sqrt_mul_self unit]

/-- From the even exponent on, the code rounds the integer root. -/
theorem sqrt_eq
    {s t : Nat}
    {e k : Int}
    (finite : IsFinite word)
    (positive : isNegative word = false)
    (nonzero : ¬IsZero word)
    (isTerm : normalizedTerm (word &&& 0x7fffffff) = .ok (s, e))
    (isDigits : (if decide (e % 2 ≠ 0) = true then shlU 32 s 1 else s) = t)
    (isEven : (if decide (e % 2 ≠ 0) = true then e - 1 else e) = 2 * k)
    (large : 2 ^ 23 ≤ t)
    (small : t < 2 ^ 25)
    (least : -75 ≤ k)
    (most : k ≤ 63) :
    sqrt word =
      .ok (UInt32.ofNat
        ((k - 23 - leastPlace).toNat * 2 ^ 23 + nearestRoot (t * 2 ^ 23))) := by
  have notZero : ¬(word &&& 0x7fffffff = 0 ∨ word = 0x7f800000) := by
    rintro (isZero | rfl)
    · exact nonzero ((masked_zero word).1 isZero)
    · exact absurd finite (by decide)
  have number : ¬0x7f800000 < word &&& 0x7fffffff := by
    rw [UInt32.lt_iff_toNat_lt, toNat_and_magnitude]
    unfold IsFinite at finite
    have infinite : (0x7f800000 : UInt32).toNat = 0x7f800000 := rfl
    omega
  have noSign : ¬word >>> 31 ≠ 0 := by
    rw [shiftRight_sign_ne_zero, positive]
    exact Bool.false_ne_true
  have radicand : shlU 64 t 23 = t * 2 ^ 23 := shlU_eq (by omega)
  have below : (t * 2 ^ 23).sqrt * (t * 2 ^ 23).sqrt ≤ t * 2 ^ 23 := Nat.sqrt_le _
  have atLeast : 2 ^ 23 ≤ nearestRoot (t * 2 ^ 23) :=
    le_nearestRoot (by omega)
  have atMost : nearestRoot (t * 2 ^ 23) ≤ 2 ^ 24 :=
    nearestRoot_le (by omega)
  obtain ⟨biased, isBiased⟩ := Int.eq_ofNat_of_zero_le (show 0 ≤ k + 127 by omega)
  have isPlace : (k - 23 - leastPlace).toNat = biased - 1 := by
    unfold leastPlace
    omega
  unfold sqrt
  dsimp only
  rw [if_neg notZero, if_neg number, if_neg noSign, isTerm, ok_bind]
  dsimp only
  rw [isDigits, isEven, radicand, mulU_ok (by omega), ok_bind, subU_ok below, ok_bind]
  have root :
      (if (t * 2 ^ 23).sqrt < t * 2 ^ 23 - (t * 2 ^ 23).sqrt * (t * 2 ^ 23).sqrt then
          (t * 2 ^ 23).sqrt + 1
        else
          (t * 2 ^ 23).sqrt) = nearestRoot (t * 2 ^ 23) :=
    rfl
  rw [root, isPlace,
    ← rootWord_eq atLeast atMost (show 0 < biased by omega) (by omega)]
  generalize nearestRoot (t * 2 ^ 23) = n at *
  simp only [decide_eq_true_eq]
  by_cases carried : n = 0x1000000
  · have half : (2 * k + 2) / 2 + 127 = ((biased + 1 : Nat) : Int) := by
      omega
    have small : n >>> 1 < 2 ^ 32 := by
      rw [carried]
      decide
    rw [if_pos carried, if_pos carried, if_pos carried, require_ok (by omega), ok_bind,
      half, castShift_ok (by omega), ok_bind, castU_ok small, ok_bind]
    rfl
  · have half : 2 * k / 2 + 127 = (biased : Int) := by
      omega
    rw [if_neg carried, if_neg carried, if_neg carried, require_ok (by omega), ok_bind,
      half, castShift_ok (by omega), ok_bind, castU_ok (by omega), ok_bind]
    rfl

/-- The positive word of a significand at its place. -/
theorem word_of_digits
    {n : Nat}
    {e : Int}
    (fits : n ≤ 2 ^ 24)
    (above : leastPlace ≤ e)
    (full : e = leastPlace ∨ 2 ^ 23 ≤ n)
    (most : e ≤ 40) :
    let word := UInt32.ofNat ((e - leastPlace).toNat * 2 ^ 23 + n)
    IsFinite word ∧ isNegative word = false ∧ value word = scaled n e := by
  intro word
  have small : (e - leastPlace).toNat * 2 ^ 23 + n < 0x7f800000 := by
    unfold leastPlace
    omega
  have plain : word = signWord false ||| word := UInt32.zero_or.symm
  have isMagnitude : magnitude word = (e - leastPlace).toNat * 2 ^ 23 + n := by
    rw [plain]
    exact magnitude_signWord_or false (by omega)
  have noSign : isNegative word = false := by
    rw [plain]
    exact isNegative_signWord_or false (by omega)
  refine ⟨?_, noSign, ?_⟩
  · rw [IsFinite, isMagnitude]
    exact small
  · rw [value, noSign, isMagnitude, magnitudeValue_eq fits above full]
    rfl

/-- What a correctly rounded root is: a word of the same sign, and no other is as near. -/
def IsNearestRoot
    (word root : UInt32) :
    Prop :=
  IsFinite root ∧ isNegative root = isNegative word ∧
    ∀ other,
      IsFinite other → value other ≠ value root →
      |√(value word : ℝ) - value root| < |√(value word : ℝ) - value other|

/-- The square root of a positive word is the word nearest to the exact root. -/
theorem sqrt_nearest
    (finite : IsFinite word)
    (positive : isNegative word = false)
    (nonzero : ¬IsZero word) :
    ∃ root, sqrt word = .ok root ∧ IsNearestRoot word root := by
  obtain ⟨s, e, isTerm, large, small, least, most, sameValue⟩ :=
    normalizedTerm_ok finite nonzero
  obtain ⟨t, k, isDigits, isEven, large', small', least', most', sameValue'⟩ :=
    even_term large small least most
  have atLeast : 2 ^ 23 ≤ nearestRoot (t * 2 ^ 23) :=
    le_nearestRoot (by omega)
  have atMost : nearestRoot (t * 2 ^ 23) ≤ 2 ^ 24 :=
    nearestRoot_le (by omega)
  have isValue : value word = scaled (t * 2 ^ 23 : Nat) (2 * (k - 23)) := by
    have lower : 2 * (k - 23) + (23 : Nat) = 2 * k - 23 := by
      omega
    rw [Nat.cast_mul, Nat.cast_pow, Nat.cast_ofNat, scaled_shift, lower, sameValue',
      sameValue, value, positive]
    rfl
  have isRoot :
      √(value word : ℝ) = √((t * 2 ^ 23 : Nat) : ℝ) * (2 : ℝ) ^ (k - 23) := by
    rw [isValue, sqrt_scaled]
  have within := abs_sqrt_sub_lt (t * 2 ^ 23)
  have first : (2 : ℝ) ^ 23 ≤ √((t * 2 ^ 23 : Nat) : ℝ) := by
    apply Real.le_sqrt_of_sq_le
    exact_mod_cast (by omega : (2 ^ 23) ^ 2 ≤ t * 2 ^ 23)
  refine ⟨_, sqrt_eq finite positive nonzero isTerm isDigits isEven large' small' least'
    most', ?_⟩
  generalize √((t * 2 ^ 23 : Nat) : ℝ) = y at *
  generalize nearestRoot (t * 2 ^ 23) = n at *
  have above : leastPlace ≤ k - 23 := by
    unfold leastPlace
    omega
  obtain ⟨isFinite, noSign, isNumber⟩ :=
    word_of_digits atMost above (.inr atLeast) (show k - 23 ≤ 40 by omega)
  have unit : (0 : ℝ) < 2 ^ (k - 23) := by
    positivity
  have rounded :
      |y * (2 : ℝ) ^ (k - 23) - n * (2 : ℝ) ^ (k - 23)| <
        1 / 2 * (2 : ℝ) ^ (k - 23) := by
    rw [← sub_mul, abs_mul, abs_of_pos unit]
    exact mul_lt_mul_of_pos_right within unit
  refine ⟨isFinite, noSign.trans positive.symm, fun other _ different => ?_⟩
  rw [isNumber] at different
  rw [isRoot, isNumber, cast_scaled, Int.cast_natCast]
  exact nearest_of_within (mul_le_mul_of_nonneg_right first unit.le) rounded different

/-- The root of a zero is that zero. -/
theorem sqrt_zero
    (isZero : IsZero word) :
    sqrt word = .ok word := by
  unfold sqrt
  dsimp only
  rw [if_pos (Or.inl ((masked_zero word).2 isZero))]
  rfl

theorem isNearestRoot_zero
    (isZero : IsZero word) :
    IsNearestRoot word word := by
  have isValue := value_eq_zero isZero
  have finite : IsFinite word := by
    rw [IsFinite, isZero]
    decide
  refine ⟨finite, rfl, fun other _ different => ?_⟩
  rw [isValue] at different ⊢
  rw [Rat.cast_zero, Real.sqrt_zero, sub_zero, abs_zero, zero_sub, abs_neg, abs_pos]
  exact_mod_cast different

theorem isNegative_of_value_nonneg
    (nonneg : 0 ≤ value word)
    (nonzero : ¬IsZero word) :
    isNegative word = false := by
  have positive := magnitudeValue_pos nonzero
  unfold value at nonneg
  cases sign : isNegative word with
  | false => rfl
  | true =>
      rw [sign] at nonneg
      exact absurd nonneg (not_le.2 (neg_neg_of_pos positive))

/--
Soft-floats are rounded to the nearest binary32 word with ties to even, finite
words survive the way to a soft-float and back but for the sign of a zero, and
square roots are rounded correctly.
-/
theorem conversions_rounded :
    (∀ f : Fixed, f.Normalized →
      FixedDisplay.bits f = .ok (roundOrZero f.value)) ∧
    (∀ word, IsFinite word →
      ∃ f,
        FixedDisplay.loadFloat32Fixed word = .ok f ∧ f.value = value word ∧
          FixedDisplay.bits f = .ok (if word = 0x80000000 then 0 else word)) ∧
    (∀ word, IsFinite word → 0 ≤ value word →
      ∃ root, sqrt word = .ok root ∧ IsNearestRoot word root) := by
  refine ⟨fun f normalized => FixedDisplay.bits_eq normalized, ?_, ?_⟩
  · intro word finite
    obtain ⟨f, loaded, _, isValue, back⟩ := FixedDisplay.bits_loadFloat32Fixed finite
    exact ⟨f, loaded, isValue, back⟩
  · intro word finite nonneg
    by_cases isZero : IsZero word
    · exact ⟨word, sqrt_zero isZero, isNearestRoot_zero isZero⟩
    · exact sqrt_nearest finite (isNegative_of_value_nonneg nonneg isZero) isZero

/-- The root of two, and the largest soft-float below a power of two. -/
theorem conversions_rounded_two :
    FixedDisplay.bits { m := 2 ^ 63 - 1, e := 3 } = .ok 0x41800000 ∧
      IsNearestRoot 0x40000000 0x3fb504f3 := by
  obtain ⟨_, _, roots⟩ := conversions_rounded
  refine ⟨by decide +kernel, ?_⟩
  have nonneg : 0 ≤ value 0x40000000 := by
    rw [value, show isNegative 0x40000000 = false by decide +kernel]
    exact magnitudeValue_nonneg _
  obtain ⟨root, computed, nearest⟩ := roots 0x40000000 (by decide +kernel) nonneg
  have isRoot : sqrt 0x40000000 = .ok 0x3fb504f3 := by
    decide +kernel
  rw [isRoot] at computed
  cases computed
  exact nearest

end Jxlz.Binary32
