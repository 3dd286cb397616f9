import Jxlz.Base.Binary32Exact
import Jxlz.Base.SoftFloatResult

namespace Jxlz.FixedDisplay

open Binary32 Fixed NearestEven Scaled

/-!
# Soft-floats as binary32 words

Mirrors `fixed_display.zig`, which rounds a soft-float to a binary32 word, and
`loadFloat32Fixed` of `float.zig`, which reads a word without an error of its own.
-/

/-- The bits above a shift, rounded to nearest even. -/
def roundedShift
    (value : Nat)
    (shift : Int) :
    Checked Nat := do
  if shift ≤ 0 then
    let amount ← castShift 6 (-shift)
    return shlU 64 value amount
  if 64 < shift then
    return 0
  if shift = 64 then
    return if 1 <<< 63 < value then 1 else 0
  let n ← castShift 6 shift
  let high := value >>> n
  let before ← castShift 6 (shift - 1)
  let half := 1 <<< before
  let low := value &&& (1 <<< n - 1)
  addU 64 high (if half < low ∨ (low = half ∧ high &&& 1 ≠ 0) then 1 else 0)

def bits
    (value : Fixed) :
    Checked UInt32 := do
  if value.m = 0 then
    return 0
  let sign : UInt32 := if value.m < 0 then 0x80000000 else 0
  let magnitude := value.m.natAbs
  let highest : Int := 63 - clz64 magnitude
  let exponent : Int := value.e - 62 + highest + 127
  if 255 ≤ exponent then
    return sign ||| 0x7f800000
  if exponent ≤ 0 then
    let rounded ← roundedShift magnitude (-value.e - 87)
    let rounded ← castU 32 rounded
    return sign ||| UInt32.ofNat rounded
  let mantissa ← roundedShift magnitude (highest - 23)
  let carried : Bool := mantissa = 1 <<< 24
  let mantissa := if carried then mantissa >>> 1 else mantissa
  let exponent := if carried then exponent + 1 else exponent
  if 255 ≤ exponent then
    return sign ||| 0x7f800000
  let biased ← castShift 32 exponent
  let significand ← castU 32 mantissa
  return sign ||| (UInt32.ofNat biased <<< 23) |||
    (UInt32.ofNat significand &&& 0x7fffff)

/-- `loadFloat32Fixed`: the soft-float of a binary32 word. -/
def loadFloat32Fixed
    (word : UInt32) :
    Checked Fixed :=
  let exponent := (word >>> 23) &&& 255
  if exponent = 255 then
    fail .GenericError
  else
    let magnitude : Int :=
      ((word &&& 0x7fffff) ||| if exponent = 0 then 0 else 0x800000).toNat
    norm (if word >>> 31 ≠ 0 then -magnitude else magnitude)
      (if exponent = 0 then -87 else (exponent.toNat : Int) - 88)

/-! Rounding to a word. -/

/-- Below 64 bits the shift rounds to nearest even; above them nothing is left. -/
theorem roundedShift_eq
    {value count : Nat}
    (positive : 0 < count)
    (fits : value < 2 ^ 63) :
    roundedShift value count = .ok (roundShift value count) := by
  have notUp : ¬(count : Int) ≤ 0 := by
    omega
  unfold roundedShift
  rw [if_neg notUp]
  by_cases far : 64 ≤ count
  · have larger : 2 ^ 63 ≤ 2 ^ (count - 1) :=
      Nat.pow_le_pow_right (by decide) (by omega)
    have larger' : 2 ^ (count - 1) ≤ 2 ^ count :=
      Nat.pow_le_pow_right (by decide) (by omega)
    have kept : value / 2 ^ count = 0 :=
      Nat.div_eq_of_lt (by omega)
    have dropped : value % 2 ^ count = value :=
      Nat.mod_eq_of_lt (by omega)
    have isZero : roundShift value count = 0 := by
      unfold roundShift
      dsimp only
      rw [kept, dropped, if_neg (by omega)]
    have small : ¬1 <<< 63 < value := by
      omega
    rw [isZero]
    by_cases beyond : 64 < (count : Int)
    · rw [if_pos beyond]
      rfl
    · rw [if_neg beyond, if_pos (by omega), if_neg small]
      rfl
  · obtain ⟨less, rfl⟩ := Nat.exists_eq_succ_of_ne_zero positive.ne'
    have before : ((less + 1 : Nat) : Int) - 1 = less := by
      omega
    have kept : value >>> (less + 1) = value / 2 ^ (less + 1) :=
      Nat.shiftRight_eq_div_pow _ _
    have dropped : value &&& (1 <<< (less + 1) - 1) = value % 2 ^ (less + 1) := by
      rw [Nat.one_shiftLeft]
      exact Nat.and_two_pow_sub_one_eq_mod _ _
    have odd_iff : value / 2 ^ (less + 1) &&& 1 ≠ 0 ↔
        value / 2 ^ (less + 1) % 2 = 1 := by
      rw [Nat.and_one_is_mod]
      omega
    have room : value / 2 ^ (less + 1) < 2 ^ 63 :=
      Nat.lt_of_le_of_lt (Nat.div_le_self _ _) fits
    rw [if_neg (by omega), if_neg (by omega), castShift_ok (by omega), ok_bind,
      Nat.succ_eq_add_one, before, castShift_ok (by omega), ok_bind]
    dsimp only
    rw [kept, dropped, Nat.one_shiftLeft]
    simp only [odd_iff]
    unfold roundShift
    dsimp only
    rw [Nat.add_sub_cancel]
    split
    · exact addU_ok (by omega)
    · exact addU_ok (by omega)

theorem le_roundShift
    (value count : Nat) :
    value / 2 ^ count ≤ roundShift value count := by
  unfold roundShift
  dsimp only
  split
  · exact Nat.le_succ _
  · exact Nat.le_refl _

/-- A mantissa of 63 bits stands for the exact value. -/
theorem standsFor
    {f : Fixed}
    (nonzero : f.m ≠ 0) :
    StandsFor f.m (f.e - 62) f.value := by
  have exact : f.value / 2 ^ (f.e - 62) = f.m := by
    rw [Fixed.value, scaled, mul_div_cancel_right₀ _ (unit_pos _).ne']
  exact ⟨nonzero, .inl exact, .inl exact⟩

theorem log2_eq
    {f : Fixed}
    (normalized : f.Normalized)
    (nonzero : f.m ≠ 0) :
    f.m.natAbs.log2 = 62 := by
  have large := normalized.large nonzero
  have small := normalized.small
  have some : f.m.natAbs ≠ 0 := by
    omega
  have atLeast : 62 ≤ f.m.natAbs.log2 := (Nat.le_log2 some).2 large
  have atMost : f.m.natAbs.log2 < 63 := (Nat.log2_lt some).2 small
  omega

/-- Every normalized soft-float is rounded to the nearest word, a zero to plain zero. -/
theorem bits_eq
    {f : Fixed}
    (normalized : f.Normalized) :
    bits f = .ok (roundOrZero f.value) := by
  unfold bits
  by_cases isZero : f.m = 0
  · have value : f.value = 0 := by
      rw [Fixed.value, isZero, scaled_zero]
    rw [if_pos isZero, roundOrZero, if_pos value]
    rfl
  · have stands := standsFor isZero
    have full := log2_eq normalized isZero
    have small := normalized.small
    have some : f.m.natAbs ≠ 0 := Int.natAbs_ne_zero.2 isZero
    have highest : (63 : Int) - clz64 f.m.natAbs = 62 := by
      unfold clz64
      rw [if_neg some, full]
      rfl
    rw [if_neg isZero, roundOrZero, if_neg stands.ne_zero]
    dsimp only
    rw [highest, stands.sign_eq]
    generalize isExponent : f.e - 62 + 62 + 127 = exponent
    by_cases subnormal : exponent ≤ 0
    · obtain ⟨count, isCount⟩ :=
        Int.eq_ofNat_of_zero_le (show 0 ≤ -f.e - 87 by omega)
      obtain ⟨rounds, _⟩ :=
        stands.rounds_down (show 0 < count by omega) (by rw [full]; omega)
      have least : f.e - 62 + (count : Int) = leastPlace := by
        unfold leastPlace
        omega
      have fits := rounds.fits
      have isBits : nearestBits |f.value| = roundShift f.m.natAbs count := by
        rw [rounds.nearestBits_eq (abs_pos.2 stands.ne_zero), least]
        omega
      rw [if_neg (by omega), if_pos subnormal, isCount,
        roundedShift_eq (by omega) small, ok_bind, castU_ok (by omega), ok_bind]
      unfold nearest32
      rw [isBits]
      rfl
    · obtain ⟨rounds, _⟩ :=
        stands.rounds_down (show 0 < 39 by decide) (by rw [full]; omega)
      have packed := rounds.packed stands.ne_zero
      have place : f.e - 62 + ((39 : Nat) : Int) + 150 = exponent := by
        push_cast
        omega
      have fits := rounds.fits
      have digits : 2 ^ 23 ≤ roundShift f.m.natAbs 39 := by
        refine Nat.le_trans ?_ (le_roundShift _ _)
        rw [Nat.le_div_iff_mul_le (by decide)]
        exact normalized.large isZero
      rw [place] at packed
      unfold packFinite at packed
      rw [if_neg (by omega)] at packed
      rw [← packed, if_neg subnormal]
      have shift : (62 : Int) - 23 = ((39 : Nat) : Int) := rfl
      rw [shift, roundedShift_eq (by decide) small, ok_bind]
      generalize roundShift f.m.natAbs 39 = n at *
      have carried : 1 <<< 24 = 0x1000000 := rfl
      have short : castU 32 (if decide (n = 0x1000000) = true then n >>> 1 else n) =
          .ok (if decide (n = 0x1000000) = true then n >>> 1 else n) := by
        apply castU_ok
        split
        · exact Nat.lt_of_le_of_lt (Nat.shiftRight_le _ _) (by omega)
        · omega
      dsimp only
      rw [carried, short]
      by_cases infinite : 255 ≤ exponent
      · have infinite' :
            255 ≤ if decide (n = 0x1000000) = true then exponent + 1 else exponent := by
          split <;> omega
        rw [if_pos infinite, if_pos infinite']
      · rw [if_neg infinite]
        rfl

/-! Reading a word. -/

/-- The significand of a word is put under its sign, at the place of its exponent. -/
theorem loadFloat32Fixed_eq
    {word : UInt32}
    (finite : IsFinite word) :
    loadFloat32Fixed word =
      norm (withSign (isNegative word) (significand (magnitude word)))
        (place (magnitude word) + 62) := by
  obtain ⟨digits, isPlace⟩ := finiteTerm_eq word
  have notLast : (word >>> 23) &&& 255 ≠ 255 := by
    intro same
    have field := toNat_exponent word
    unfold IsFinite at finite
    rw [same] at field
    have last : (255 : UInt32).toNat = 255 := rfl
    omega
  have sign : (word >>> 31 ≠ 0) = (isNegative word = true) :=
    propext (shiftRight_sign_ne_zero word)
  unfold finiteTerm at digits isPlace
  dsimp only at digits isPlace
  unfold loadFloat32Fixed
  dsimp only
  rw [if_neg notLast, digits, ← isPlace]
  simp only [sign]
  congr 1
  split <;> omega

/-- A finite word is read as its exact value. -/
theorem loadFloat32Fixed_ok
    {word : UInt32}
    (finite : IsFinite word) :
    ∃ f,
      loadFloat32Fixed word = .ok f ∧ f.Normalized ∧ f.value = Binary32.value word := by
  have digits := significand_lt (magnitude word)
  have least := leastPlace_le_place (magnitude word)
  have most := place_le finite
  unfold leastPlace at least
  have small :
      (withSign (isNegative word) (significand (magnitude word))).natAbs < 2 ^ 63 := by
    rw [natAbs_withSign]
    omega
  have fits : FitsI32 (place (magnitude word) + 62) :=
    ⟨by omega, by omega⟩
  have stays :
      FitsI32 (normWide (withSign (isNegative word) (significand (magnitude word)))
        (place (magnitude word) + 62)).e := by
    unfold normWide
    split
    · decide
    · have count :
          deficit (withSign (isNegative word) (significand (magnitude word))) ≤ 62 :=
        Nat.sub_le _ _
      exact ⟨by dsimp only; omega, by dsimp only; omega⟩
  refine ⟨_, ?_, normWide_normalized small stays, ?_⟩
  · rw [loadFloat32Fixed_eq finite, norm_eq small fits, if_pos stays]
  · rw [value_normWide, Int.add_sub_cancel, value_eq_scaled]

/-- A finite word survives the way there and back, except for the sign of a zero. -/
theorem bits_loadFloat32Fixed
    {word : UInt32}
    (finite : IsFinite word) :
    ∃ f,
      loadFloat32Fixed word = .ok f ∧ f.Normalized ∧ f.value = Binary32.value word ∧
        bits f = .ok (if word = 0x80000000 then 0 else word) := by
  obtain ⟨f, loaded, normalized, isValue⟩ := loadFloat32Fixed_ok finite
  refine ⟨f, loaded, normalized, isValue, ?_⟩
  rw [bits_eq normalized, isValue, roundOrZero]
  by_cases isZero : IsZero word
  · have whole := signWord_or_magnitude word
    rw [isZero] at whole
    rw [if_pos (value_eq_zero isZero), ← whole]
    cases isNegative word with
    | true => rfl
    | false => rfl
  · obtain ⟨nonzero, nearest⟩ := nearest32_value finite isZero
    have notZero : word ≠ 0x80000000 := by
      rintro rfl
      exact isZero rfl
    rw [if_neg nonzero, nearest, if_neg notZero]

end Jxlz.FixedDisplay
