import Jxlz.Base.Binary32Round
import Jxlz.Base.Checked
import Jxlz.Lib.FloatFormat
import Jxlz.Lib.FuelLoop

namespace Jxlz.FloatSamples

open Binary32 FloatFormat Scaled

/-!
# Samples that are floating-point numbers

Mirrors `toBits` of `float_samples.zig`.  A sample has a sign, an exponent and a mantissa
of its layout's widths, and becomes the binary32 word of the same number.
-/

/-- The layouts that are not rejected. -/
def Accepts
    (bits exponent_bits : Nat) :
    Prop :=
  ¬(exponent_bits < 2 ∨ 8 < exponent_bits ∨ bits < exponent_bits + 3 ∨
    exponent_bits + 24 < bits ∨ 32 < bits)
  deriving Decidable

/-- One round of the loop that looks for the leading digit of a mantissa. -/
def normalizeRound :
    Int × Nat → Checked ((Int × Nat) ⊕ (Int × Nat))
  | (exponent, mantissa) =>
      if mantissa &&& 0x800000 = 0 then do
        return .inl (← addI32 exponent (-1), shlU 32 mantissa 1)
      else
        return .inr (exponent, mantissa)

/-- A mantissa without a leading digit gets one; 24 rounds are enough. -/
def normalize
    (exponent : Int)
    (mantissa : Nat) :
    Checked (Int × Nat) := do
  let (exponent, mantissa) ←
    FuelLoop.run normalizeRound .running 24 (exponent, mantissa)
  let exponent ← addI32 exponent 1
  return (exponent, mantissa &&& 0x7fffff)

/-- What `toBits` does with a magnitude that is not zero. -/
def widen
    (exponent_bits : Nat)
    (sign : UInt32)
    (exponent : Int)
    (mantissa : Nat) :
    Checked UInt32 := do
  if exponent = (1 <<< exponent_bits - 1 : Nat) then
    return sign ||| 0x7f800000 ||| UInt32.ofNat mantissa
  else
    let (exponent, mantissa) ←
      (if exponent = 0 ∧ exponent_bits < 8 then
        normalize exponent mantissa
      else
        .ok (exponent, mantissa) : Checked (Int × Nat))
    let exponent ← addI32 exponent ((127 : Int) - ((1 <<< (exponent_bits - 1) : Nat) - 1))
    if exponent < 0 ∨ 254 < exponent then
      fail .GenericError
    else
      return sign ||| UInt32.ofNat (shlU 32 exponent.toNat 23) ||| UInt32.ofNat mantissa

def toBits
    (raw : Int32)
    (bits exponent_bits : Nat) :
    Checked UInt32 := do
  if Accepts bits exponent_bits then
    let wire := raw.toUInt32.toNat
    if bits = 32 then
      return raw.toUInt32
    else
      let sign_shift ← castU 5 (← subU bits 1)
      let mant_bits ← castU 5 (← subU (← subU bits exponent_bits) 1)
      let mant_shift ← subU 23 mant_bits
      let sign := signWord (wire >>> sign_shift ≠ 0)
      let magnitude := wire &&& (1 <<< sign_shift - 1)
      if magnitude = 0 then
        return sign
      else
        let exponent ← toI32 (magnitude >>> mant_bits : Nat)
        let mantissa := shlU 32 (magnitude &&& (1 <<< mant_bits - 1)) mant_shift
        widen exponent_bits sign exponent.toInt mantissa
  else
    fail .GenericError

/-! What the words of a layout stand for. -/

/-- The widths of a sample and of its exponent. -/
structure Layout where
  bits : Nat
  exponentBits : Nat

namespace Layout

variable (layout : Layout)

def mantissaBits : Nat := layout.bits - layout.exponentBits - 1

def bias : Int := 2 ^ (layout.exponentBits - 1) - 1

/-- The sign, the exponent and the mantissa of a word, and the last two together. -/
def negative
    (wire : Nat) :
    Bool :=
  2 ^ (layout.bits - 1) ≤ wire

def magnitude
    (wire : Nat) :
    Nat :=
  wire % 2 ^ (layout.bits - 1)

def exponent
    (wire : Nat) :
    Nat :=
  layout.magnitude wire / 2 ^ layout.mantissaBits

def mantissa
    (wire : Nat) :
    Nat :=
  layout.magnitude wire % 2 ^ layout.mantissaBits

/-- The exponent that stands for infinity and NaN. -/
def special : Nat := 2 ^ layout.exponentBits - 1

/-- The number of a word whose exponent is not the special one. -/
def number
    (wire : Nat) :
    ℚ :=
  signedBy (layout.negative wire)
    (if layout.exponent wire = 0 then
      scaled (layout.mantissa wire) (1 - layout.bias - layout.mantissaBits)
    else
      scaled (2 ^ layout.mantissaBits + layout.mantissa wire : Nat)
        (layout.exponent wire - layout.bias - layout.mantissaBits))

def format : Format where
  fraction := layout.mantissaBits
  leastPlace := 1 - layout.bias - layout.mantissaBits

theorem number_eq
    (wire : Nat) :
    layout.number wire =
      signedBy (layout.negative wire) (layout.format.number (layout.magnitude wire)) := by
  unfold number Format.number
  congr 1
  change (if layout.exponent wire = 0 then _ else _) =
    if layout.exponent wire = 0 then _ else _
  split
  · rfl
  · next positive =>
      congr 1
      change (layout.exponent wire - layout.bias - layout.mantissaBits : Int) =
        1 - layout.bias - layout.mantissaBits + (layout.exponent wire - 1 : Nat)
      omega

end Layout

/-- A word is the one of a sample: the same number, or the same special value. -/
structure Converted
    (layout : Layout)
    (wire : Nat)
    (word : UInt32) :
    Prop where
  sign : isNegative word = layout.negative wire
  finite :
    layout.exponent wire < layout.special →
      IsFinite word ∧ value word = layout.number wire
  infinite :
    layout.exponent wire = layout.special →
      magnitude word =
        0x7f800000 + layout.mantissa wire * 2 ^ (23 - layout.mantissaBits)

/-- The format of binary32 words. -/
def binary32 : Format where
  fraction := 23
  leastPlace := -149

theorem magnitudeValue_eq_number
    (bits : Nat) :
    magnitudeValue bits = binary32.number bits := by
  unfold magnitudeValue Format.number significand place
  change _ = if bits / 2 ^ 23 = 0 then scaled (bits % 2 ^ 23 : Nat) (-149) else
    scaled (2 ^ 23 + bits % 2 ^ 23 : Nat) (-149 + (bits / 2 ^ 23 - 1 : Nat))
  by_cases small : bits < 2 ^ 23
  · rw [if_pos small, Nat.div_eq_of_lt small, if_pos rfl, Nat.mod_eq_of_lt small]
    rfl
  · have positive : 1 ≤ bits / 2 ^ 23 :=
      (Nat.le_div_iff_mul_le (Nat.two_pow_pos 23)).2 (by omega)
    rw [if_neg small, if_neg (Nat.ne_of_gt positive), Nat.add_comm]
    congr 1
    omega

theorem binary32_number_eq
    {exponent fraction : Nat}
    (positive : 0 < exponent)
    (fits : fraction < 2 ^ 23) :
    binary32.number (exponent * 2 ^ 23 + fraction) =
      scaled (2 ^ 23 + fraction : Nat) (-149 + (exponent - 1 : Nat)) := by
  have here := @Format.number_eq binary32 exponent fraction fits
  rw [if_neg (Nat.ne_of_gt positive)] at here
  exact here

/-! The loop. -/

theorem and_leading
    {mantissa : Nat}
    (fits : mantissa < 2 ^ 24) :
    mantissa &&& 0x800000 = 0 ↔ mantissa < 2 ^ 23 := by
  have masked : mantissa &&& 2 ^ 23 = _ := Nat.and_two_pow mantissa 23
  change mantissa &&& 2 ^ 23 = 0 ↔ _
  rw [masked, Nat.testBit_eq_decide_div_mod_eq]
  by_cases odd : mantissa / 2 ^ 23 % 2 = 1
  · rw [decide_eq_true odd]
    refine ⟨fun impossible => absurd impossible (by decide), fun small => ?_⟩
    rw [Nat.div_eq_of_lt small] at odd
    exact absurd odd (by decide)
  · rw [decide_eq_false odd]
    exact ⟨fun _ => by omega, fun _ => rfl⟩

/-- The loop ends with a leading digit, and makes up for it in the exponent. -/
theorem run_normalize
    {fuel mantissa : Nat}
    {exponent : Int}
    (reaches : 2 ^ 23 ≤ mantissa * 2 ^ fuel)
    (fits : mantissa < 2 ^ 24)
    (large : -2 ^ 31 + fuel ≤ exponent)
    (small : exponent < 2 ^ 31) :
    ∃ shift : Nat,
      shift ≤ fuel ∧
        2 ^ 23 ≤ mantissa * 2 ^ shift ∧
        mantissa * 2 ^ shift < 2 ^ 24 ∧
        FuelLoop.run normalizeRound .running (fuel + 1) (exponent, mantissa) =
          .ok (exponent - shift, mantissa * 2 ^ shift) := by
  induction fuel generalizing mantissa exponent with
  | zero =>
      rw [Nat.pow_zero, Nat.mul_one] at reaches
      have leading := (and_leading fits).not.2 (Nat.not_lt.2 reaches)
      refine ⟨0, Nat.le_refl 0, by simpa using reaches, by simpa using fits, ?_⟩
      rw [FuelLoop.run, normalizeRound, if_neg leading]
      simp
  | succ fuel inductionHypothesis =>
      by_cases normal : 2 ^ 23 ≤ mantissa
      · have leading := (and_leading fits).not.2 (Nat.not_lt.2 normal)
        refine ⟨0, Nat.zero_le _, by simpa using normal, by simpa using fits, ?_⟩
        rw [FuelLoop.run, normalizeRound, if_neg leading]
        simp
      · have leading := (and_leading fits).2 (Nat.not_le.1 normal)
        have shifted : shlU 32 mantissa 1 = mantissa * 2 := by
          rw [shlU, Nat.shiftLeft_eq, pow_one]
          omega
        have lowered : addI32 exponent (-1) = .ok (exponent - 1) :=
          addI32_ok (by omega) (by omega)
        have reaches' : 2 ^ 23 ≤ mantissa * 2 * 2 ^ fuel := by
          rw [Nat.mul_assoc, ← Nat.pow_succ']
          exact reaches
        obtain ⟨shift, few, reached, short, ran⟩ :=
          @inductionHypothesis (mantissa * 2) (exponent - 1) reaches' (by omega)
            (by omega) (by omega)
        have moved : mantissa * 2 ^ (shift + 1) = mantissa * 2 * 2 ^ shift := by
          rw [Nat.mul_assoc, Nat.pow_succ']
        refine ⟨shift + 1, Nat.succ_le_succ few, ?_, ?_, ?_⟩
        · rw [moved]
          exact reached
        · rw [moved]
          exact short
        · rw [FuelLoop.run, normalizeRound, if_pos leading, lowered, ok_bind, shifted,
            pure_eq_ok]
          refine ran.trans ?_
          rw [moved]
          congr 2
          omega

theorem normalize_ok
    {mantissa : Nat}
    (positive : 0 < mantissa)
    (fits : mantissa < 2 ^ 23) :
    ∃ shift : Nat,
      shift ≤ 23 ∧ 2 ^ 23 ≤ mantissa * 2 ^ shift ∧ mantissa * 2 ^ shift < 2 ^ 24 ∧
        normalize 0 mantissa = .ok (1 - shift, mantissa * 2 ^ shift - 2 ^ 23) := by
  have reaches : 2 ^ 23 ≤ mantissa * 2 ^ 23 := Nat.le_mul_of_pos_left _ positive
  obtain ⟨shift, few, reached, short, ran⟩ :=
    @run_normalize 23 mantissa 0 reaches (by omega) (by omega) (by omega)
  refine ⟨shift, few, reached, short, ?_⟩
  have fraction :
      mantissa * 2 ^ shift &&& 0x7fffff = mantissa * 2 ^ shift - 2 ^ 23 := by
    have masked := Nat.and_two_pow_sub_one_eq_mod (mantissa * 2 ^ shift) 23
    refine masked.trans ?_
    rw [Nat.mod_eq_sub_mod reached, Nat.mod_eq_of_lt (by omega)]
  have raised : addI32 (0 - shift) 1 = .ok (1 - shift : Int) := by
    rw [addI32_ok (by omega) (by omega)]
    congr 1
    omega
  unfold normalize
  rw [ran, ok_bind]
  dsimp only
  rw [raised, ok_bind, fraction]
  rfl

/-! The word of a sample. -/

theorem signWord_or_or
    (negative : Bool)
    (first second : Nat) :
    signWord negative ||| UInt32.ofNat first ||| UInt32.ofNat second =
      signWord negative ||| UInt32.ofNat (first ||| second) := by
  rw [UInt32.or_assoc, UInt32.ofNat_or]

/-- An exponent above a fraction. -/
theorem shiftLeft_or
    {exponent fraction : Nat}
    (short : exponent < 2 ^ 8)
    (fits : fraction < 2 ^ 23) :
    shlU 32 exponent 23 ||| fraction = exponent * 2 ^ 23 + fraction := by
  rw [shlU_eq (show exponent * 2 ^ 23 < 2 ^ 32 by omega), ← Nat.shiftLeft_eq,
    ← Nat.shiftLeft_add_eq_or_of_lt fits]

/-- A magnitude of a layout as one of binary32. -/
structure Widened
    (layout : Layout)
    (wire bits : Nat) :
    Prop where
  fits : bits < 2 ^ 31
  finite :
    layout.exponent wire < layout.special →
      bits < 0x7f800000 ∧
        binary32.number bits = layout.format.number (layout.magnitude wire)
  infinite :
    layout.exponent wire = layout.special →
      bits = 0x7f800000 + layout.mantissa wire * 2 ^ (23 - layout.mantissaBits)

theorem Widened.converted
    {layout : Layout}
    {wire bits : Nat}
    (widened : Widened layout wire bits) :
    Converted layout wire
      (signWord (layout.negative wire) ||| UInt32.ofNat bits) := by
  refine ⟨isNegative_signWord_or _ widened.fits, fun ordinary => ?_, fun special => ?_⟩
  · obtain ⟨small, same⟩ := widened.finite ordinary
    rw [IsFinite, value, magnitude_signWord_or _ widened.fits,
      isNegative_signWord_or _ widened.fits, magnitudeValue_eq_number, same,
      layout.number_eq]
    exact ⟨small, rfl⟩
  · rw [magnitude_signWord_or _ widened.fits]
    exact widened.infinite special

/-- The widths of an accepted layout. -/
structure Widths
    (layout : Layout) :
    Prop where
  bits : layout.bits = layout.exponentBits + layout.mantissaBits + 1
  exponent : 2 ≤ layout.exponentBits ∧ layout.exponentBits ≤ 8
  mantissa : 2 ≤ layout.mantissaBits ∧ layout.mantissaBits ≤ 23
  word : layout.bits ≤ 32

theorem widths_of_accepts
    {layout : Layout}
    (accepted : Accepts layout.bits layout.exponentBits) :
    Widths layout := by
  unfold Accepts at accepted
  push Not at accepted
  obtain ⟨two, eight, short, long, word⟩ := accepted
  refine ⟨?_, ⟨two, eight⟩, ?_, word⟩
  · unfold Layout.mantissaBits
    omega
  · unfold Layout.mantissaBits
    omega

section Widening

variable {layout : Layout} {wire : Nat} (widths : Widths layout)

include widths

/-- Half the range of the exponent. -/
theorem Widths.half :
    2 ^ layout.exponentBits = 2 * 2 ^ (layout.exponentBits - 1) ∧
      2 ≤ 2 ^ (layout.exponentBits - 1) ∧ 2 ^ (layout.exponentBits - 1) ≤ 128 := by
  obtain ⟨two, eight⟩ := widths.exponent
  refine ⟨?_, ?_, ?_⟩
  · rw [← Nat.pow_succ']
    congr 1
    omega
  · exact Nat.pow_le_pow_right (show 0 < 2 by decide)
      (show 1 ≤ layout.exponentBits - 1 by omega)
  · exact Nat.pow_le_pow_right (show 0 < 2 by decide)
      (show layout.exponentBits - 1 ≤ 7 by omega)

theorem Widths.bias_eq :
    layout.bias = (2 ^ (layout.exponentBits - 1) - 1 : Nat) := by
  have one := widths.half.2.1
  unfold Layout.bias
  rw [Nat.cast_sub (by omega)]
  push_cast
  rfl

theorem Widths.magnitude_eq :
    layout.magnitude wire =
        layout.exponent wire * 2 ^ layout.mantissaBits + layout.mantissa wire ∧
      layout.exponent wire < 2 ^ layout.exponentBits ∧
      layout.mantissa wire < 2 ^ layout.mantissaBits := by
  refine ⟨(Nat.div_add_mod' _ _).symm, ?_, Nat.mod_lt _ (Nat.two_pow_pos _)⟩
  refine Nat.div_lt_of_lt_mul ?_
  rw [← Nat.pow_add]
  have short : layout.magnitude wire < 2 ^ (layout.bits - 1) :=
    Nat.mod_lt _ (Nat.two_pow_pos _)
  have width : layout.bits - 1 = layout.mantissaBits + layout.exponentBits := by
    have bits := widths.bits
    omega
  rw [← width]
  exact short

/-- A mantissa is moved up to the digits of binary32. -/
theorem Widths.shifted_lt :
    layout.mantissa wire * 2 ^ (23 - layout.mantissaBits) < 2 ^ 23 := by
  obtain ⟨_, _, fits⟩ := @Widths.magnitude_eq layout wire widths
  calc
    layout.mantissa wire * 2 ^ (23 - layout.mantissaBits) <
        2 ^ layout.mantissaBits * 2 ^ (23 - layout.mantissaBits) :=
      Nat.mul_lt_mul_of_pos_right fits (Nat.two_pow_pos _)
    _ = 2 ^ 23 := by
      rw [← Nat.pow_add, Nat.add_sub_cancel' widths.mantissa.2]

/-- Digits moved up stand for the same number at a lower place. -/
theorem Widths.scaled_shifted
    (n : Nat)
    (shift : Nat)
    (e : Int) :
    scaled (n * 2 ^ (23 - layout.mantissaBits) * 2 ^ shift : Nat) e =
      scaled n (e + (23 - layout.mantissaBits) + shift) := by
  have small := widths.mantissa.2
  rw [Nat.mul_assoc, ← Nat.pow_add]
  push_cast
  rw [scaled_shift]
  congr 1
  push_cast [Nat.cast_sub small]
  ring

theorem Widths.number_eq :
    layout.format.number (layout.magnitude wire) =
      if layout.exponent wire = 0 then
        scaled (layout.mantissa wire) (1 - layout.bias - layout.mantissaBits)
      else
        scaled (2 ^ layout.mantissaBits + layout.mantissa wire : Nat)
          (1 - layout.bias - layout.mantissaBits + (layout.exponent wire - 1 : Nat)) := by
  obtain ⟨isMagnitude, _, fits⟩ := @Widths.magnitude_eq layout wire widths
  rw [isMagnitude]
  exact layout.format.number_eq fits

/-- A number with a leading digit only changes its bias. -/
theorem Widths.widened_normal
    (positive : 0 < layout.exponent wire)
    (ordinary : layout.exponent wire < layout.special) :
    layout.exponent wire + 127 - (2 ^ (layout.exponentBits - 1) - 1) ≤ 254 ∧
      Widened layout wire
        ((layout.exponent wire + 127 - (2 ^ (layout.exponentBits - 1) - 1)) * 2 ^ 23 +
          layout.mantissa wire * 2 ^ (23 - layout.mantissaBits)) := by
  have shifted := @Widths.shifted_lt layout wire widths
  obtain ⟨double, one, most⟩ := widths.half
  have isBias := widths.bias_eq
  have special : layout.special = 2 ^ layout.exponentBits - 1 := rfl
  have leading :
      2 ^ 23 = 2 ^ layout.mantissaBits * 2 ^ (23 - layout.mantissaBits) := by
    rw [← Nat.pow_add, Nat.add_sub_cancel' widths.mantissa.2]
  have small :
      layout.exponent wire + 127 - (2 ^ (layout.exponentBits - 1) - 1) ≤ 254 := by
    omega
  refine ⟨small, by omega, fun _ => ⟨by omega, ?_⟩, fun same => ?_⟩
  · have moved :=
      widths.scaled_shifted (2 ^ layout.mantissaBits + layout.mantissa wire) 0
        (-149 +
          (layout.exponent wire + 127 - (2 ^ (layout.exponentBits - 1) - 1) - 1 : Nat))
    rw [Nat.pow_zero, Nat.mul_one, Nat.add_mul, ← leading] at moved
    rw [binary32_number_eq (by omega) shifted, widths.number_eq,
      if_neg (Nat.ne_of_gt positive), moved, isBias]
    congr 1
    omega
  · exact absurd same (Nat.ne_of_lt ordinary)

/-- A number without one gets it, or stays as small in binary32. -/
theorem Widths.widened_subnormal
    {shift : Nat}
    (least : layout.exponent wire = 0)
    (few : shift ≤ 23)
    (reached :
      2 ^ 23 ≤ layout.mantissa wire * 2 ^ (23 - layout.mantissaBits) * 2 ^ shift)
    (short :
      layout.mantissa wire * 2 ^ (23 - layout.mantissaBits) * 2 ^ shift < 2 ^ 24)
    (narrow : layout.exponentBits < 8) :
    0 < 128 - shift - (2 ^ (layout.exponentBits - 1) - 1) ∧
      Widened layout wire
        ((128 - shift - (2 ^ (layout.exponentBits - 1) - 1)) * 2 ^ 23 +
          (layout.mantissa wire * 2 ^ (23 - layout.mantissaBits) * 2 ^ shift -
            2 ^ 23)) := by
  obtain ⟨double, one, _⟩ := widths.half
  have isBias := widths.bias_eq
  have special : layout.special = 2 ^ layout.exponentBits - 1 := rfl
  have most : 2 ^ (layout.exponentBits - 1) ≤ 2 ^ 6 :=
    Nat.pow_le_pow_right (by decide) (by omega)
  have positive : 0 < 128 - shift - (2 ^ (layout.exponentBits - 1) - 1) := by
    omega
  refine ⟨positive, by omega, fun _ => ⟨by omega, ?_⟩, fun same => by omega⟩
  have moved :=
    widths.scaled_shifted (layout.mantissa wire) shift
      (-149 + (128 - shift - (2 ^ (layout.exponentBits - 1) - 1) - 1 : Nat))
  rw [binary32_number_eq positive (by omega), Nat.add_sub_cancel' reached, moved,
    widths.number_eq, if_pos least, isBias]
  congr 1
  omega

theorem Widths.widened_wide
    (least : layout.exponent wire = 0)
    (wide : layout.exponentBits = 8) :
    Widened layout wire (layout.mantissa wire * 2 ^ (23 - layout.mantissaBits)) := by
  have shifted := @Widths.shifted_lt layout wire widths
  have isBias := widths.bias_eq
  have special : layout.special = 2 ^ layout.exponentBits - 1 := rfl
  rw [wide] at special isBias
  refine ⟨by omega, fun _ => ⟨by omega, ?_⟩, fun same => by omega⟩
  have here := @Format.number_eq binary32 0 _ shifted
  rw [Nat.zero_mul, Nat.zero_add, if_pos rfl] at here
  have moved := widths.scaled_shifted (layout.mantissa wire) 0 binary32.leastPlace
  rw [Nat.pow_zero, Nat.mul_one] at moved
  rw [here, moved, widths.number_eq, if_pos least]
  congr 1
  change (-149 : Int) + _ + _ = _
  rw [isBias]
  omega

theorem Widths.widened_special
    (same : layout.exponent wire = layout.special) :
    Widened layout wire
      (0x7f800000 + layout.mantissa wire * 2 ^ (23 - layout.mantissaBits)) := by
  have shifted := @Widths.shifted_lt layout wire widths
  refine ⟨by omega, fun ordinary => ?_, fun _ => rfl⟩
  exact absurd same (Nat.ne_of_lt ordinary)

/-- The layout of binary32 itself. -/
theorem Widths.widened_word
    (whole : layout.bits = 32) :
    Widened layout wire (wire % 2 ^ 31) := by
  have isBits := widths.bits
  have isExponent : layout.exponentBits = 8 := by
    have eight := widths.exponent.2
    have most := widths.mantissa.2
    omega
  have isMantissa : layout.mantissaBits = 23 := by
    omega
  have isBias := widths.bias_eq
  rw [isExponent] at isBias
  have isFormat : layout.format = binary32 := by
    unfold Layout.format binary32
    rw [isMantissa, isBias]
    rfl
  have isMagnitude : layout.magnitude wire = wire % 2 ^ 31 := by
    unfold Layout.magnitude
    rw [whole]
  have special : layout.special = 255 := by
    unfold Layout.special
    rw [isExponent]
    rfl
  obtain ⟨parts, _, fits⟩ := @Widths.magnitude_eq layout wire widths
  rw [isMagnitude, isMantissa] at parts
  rw [isMantissa] at fits
  refine ⟨Nat.mod_lt _ (Nat.two_pow_pos 31), fun ordinary => ⟨by omega, ?_⟩, ?_⟩
  · rw [isFormat, isMagnitude]
  · intro same
    rw [isMantissa, parts, same, special, Nat.sub_self, Nat.pow_zero, Nat.mul_one,
      show 255 * 2 ^ 23 = 0x7f800000 by decide]

theorem Widths.widened_zero
    (zero : layout.magnitude wire = 0) :
    Widened layout wire 0 := by
  have least : layout.exponent wire = 0 := by
    unfold Layout.exponent
    rw [zero, Nat.zero_div]
  have none : layout.mantissa wire = 0 := by
    unfold Layout.mantissa
    rw [zero, Nat.zero_mod]
  have nothing : binary32.number 0 = 0 := by
    have here := @Format.number_eq binary32 0 0 (Nat.two_pow_pos _)
    rw [if_pos rfl, Nat.cast_zero, scaled_zero, Nat.zero_mul] at here
    exact here
  have double := widths.half.1
  have one := widths.half.2.1
  have special : layout.special = 2 ^ layout.exponentBits - 1 := rfl
  refine ⟨by decide, fun _ => ⟨by decide, ?_⟩, fun same => ?_⟩
  · rw [nothing, widths.number_eq, if_pos least, none, Nat.cast_zero, scaled_zero]
  · omega

/-- Behind the check for zeros each exponent has its own way into binary32. -/
theorem Widths.widen_ok
    (some : layout.magnitude wire ≠ 0)
    (negative : Bool) :
    ∃ bits,
      Widened layout wire bits ∧
        widen layout.exponentBits (signWord negative) (layout.exponent wire)
            (layout.mantissa wire * 2 ^ (23 - layout.mantissaBits)) =
          .ok (signWord negative ||| UInt32.ofNat bits) := by
  obtain ⟨parts, inExponent, inMantissa⟩ := @Widths.magnitude_eq layout wire widths
  obtain ⟨double, one, half⟩ := widths.half
  have shifted := @Widths.shifted_lt layout wire widths
  have special : layout.special = 2 ^ layout.exponentBits - 1 := rfl
  have eight := widths.exponent.2
  unfold widen
  rw [Nat.one_shiftLeft, Nat.one_shiftLeft]
  by_cases isSpecial : layout.exponent wire = layout.special
  · refine ⟨_, widths.widened_special isSpecial, ?_⟩
    rw [if_pos (by rw [isSpecial, special]), pure_eq_ok]
    have together := shiftLeft_or (show 255 < 2 ^ 8 by decide) shifted
    have word := signWord_or_or negative (shlU 32 255 23)
      (layout.mantissa wire * 2 ^ (23 - layout.mantissaBits))
    rw [together] at word
    exact congrArg _ word
  · have ordinary : layout.exponent wire < layout.special := by
      omega
    rw [if_neg (by rw [← special]; exact_mod_cast isSpecial)]
    by_cases least : layout.exponent wire = 0
    · by_cases narrow : layout.exponentBits < 8
      · have positive : 0 < layout.mantissa wire := by
          rw [least, Nat.zero_mul, Nat.zero_add] at parts
          omega
        obtain ⟨shift, few, reached, short, ran⟩ :=
          normalize_ok (Nat.mul_pos positive (Nat.two_pow_pos _)) shifted
        obtain ⟨above, widened⟩ :=
          widths.widened_subnormal least few reached short narrow
        refine ⟨_, widened, ?_⟩
        rw [least, Nat.cast_zero, if_pos ⟨rfl, narrow⟩, ran, ok_bind]
        dsimp only
        have moved :
            addI32 (1 - shift) (127 - ((2 ^ (layout.exponentBits - 1) : Nat) - 1)) =
              .ok ((128 - shift - (2 ^ (layout.exponentBits - 1) - 1) : Nat) : Int) := by
          rw [addI32_ok (by omega) (by omega)]
          congr 1
          omega
        rw [moved, ok_bind, if_neg (by omega), Int.toNat_natCast, pure_eq_ok,
          signWord_or_or, shiftLeft_or (by omega) (by omega)]
      · have wide : layout.exponentBits = 8 := by
          omega
        refine ⟨_, widths.widened_wide least wide, ?_⟩
        rw [if_neg (fun both => narrow both.2), ok_bind, least, wide]
        dsimp only
        have moved : addI32 (0 : Nat) (127 - ((2 ^ (8 - 1) : Nat) - 1)) = .ok 0 := by
          decide
        rw [moved, ok_bind, if_neg (by decide), pure_eq_ok, signWord_or_or]
        have together := shiftLeft_or (show 0 < 2 ^ 8 by decide) shifted
        rw [Nat.zero_mul, Nat.zero_add] at together
        rw [Int.toNat_zero, together]
    · obtain ⟨small, widened⟩ :=
        widths.widened_normal (Nat.pos_of_ne_zero least) ordinary
      refine ⟨_, widened, ?_⟩
      rw [if_neg (fun both => least (by exact_mod_cast both.1)), ok_bind]
      dsimp only
      have moved :
          addI32 (layout.exponent wire)
              (127 - ((2 ^ (layout.exponentBits - 1) : Nat) - 1)) =
            .ok ((layout.exponent wire + 127 - (2 ^ (layout.exponentBits - 1) - 1) : Nat)
              : Int) := by
        rw [addI32_ok (by omega) (by omega)]
        congr 1
        omega
      rw [moved, ok_bind, if_neg (by omega), Int.toNat_natCast, pure_eq_ok,
        signWord_or_or, shiftLeft_or (by omega) shifted]

end Widening

/-- Every sample of an accepted layout becomes a word. -/
theorem toBits_ok
    {layout : Layout}
    {raw : Int32}
    (accepted : Accepts layout.bits layout.exponentBits) :
    ∃ bits,
      Widened layout raw.toUInt32.toNat bits ∧
        toBits raw layout.bits layout.exponentBits =
          .ok (signWord (layout.negative raw.toUInt32.toNat) ||| UInt32.ofNat bits) := by
  have widths := widths_of_accepts accepted
  unfold toBits
  rw [if_pos accepted]
  by_cases whole : layout.bits = 32
  · refine ⟨_, widths.widened_word whole, ?_⟩
    rw [if_pos whole, pure_eq_ok]
    have isWord := signWord_or_magnitude raw.toUInt32
    have isSign : layout.negative raw.toUInt32.toNat = isNegative raw.toUInt32 := by
      unfold Layout.negative isNegative
      rw [whole]
      rw [decide_eq_decide, UInt32.le_iff_toNat_le]
      rfl
    rw [isSign]
    exact congrArg _ isWord.symm
  · rw [if_neg whole]
    generalize raw.toUInt32.toNat = wire
    have isBits := widths.bits
    have most := widths.word
    obtain ⟨two, eight⟩ := widths.exponent
    have many := widths.mantissa.2
    have short := (@Widths.magnitude_eq layout wire widths).2.1
    have double := widths.half.1
    have half := widths.half.2.2
    have shifted := @Widths.shifted_lt layout wire widths
    have isMantissa : layout.bits - layout.exponentBits - 1 = layout.mantissaBits := rfl
    have isSign : decide (wire >>> (layout.bits - 1) ≠ 0) = layout.negative wire := by
      unfold Layout.negative
      rw [Nat.shiftRight_eq_div_pow, decide_eq_decide, ← Nat.pos_iff_ne_zero,
        Nat.div_pos_iff]
      exact ⟨fun both => both.2, fun large => ⟨Nat.two_pow_pos _, large⟩⟩
    have isMagnitude : wire &&& (1 <<< (layout.bits - 1) - 1) = layout.magnitude wire := by
      rw [Nat.one_shiftLeft, Nat.and_two_pow_sub_one_eq_mod]
      rfl
    have isExponent :
        layout.magnitude wire >>> layout.mantissaBits = layout.exponent wire :=
      Nat.shiftRight_eq_div_pow _ _
    have isFraction :
        shlU 32 (layout.magnitude wire &&& (1 <<< layout.mantissaBits - 1))
            (23 - layout.mantissaBits) =
          layout.mantissa wire * 2 ^ (23 - layout.mantissaBits) := by
      rw [Nat.one_shiftLeft, Nat.and_two_pow_sub_one_eq_mod]
      exact shlU_eq (Nat.lt_trans shifted (by decide))
    have castExponent :
        toI32 (layout.exponent wire : Nat) = .ok (Int32.ofInt (layout.exponent wire)) :=
      toI32_ok (by omega) (by omega)
    have sameExponent :
        (Int32.ofInt (layout.exponent wire)).toInt = layout.exponent wire :=
      toI32_eq_ok castExponent
    rw [subU_ok (by omega), ok_bind, castU_ok (by omega), ok_bind, subU_ok (by omega),
      ok_bind, subU_ok (by omega), ok_bind, isMantissa, castU_ok (by omega), ok_bind,
      subU_ok many, ok_bind]
    dsimp only
    rw [isSign, isMagnitude]
    by_cases zero : layout.magnitude wire = 0
    · refine ⟨0, widths.widened_zero zero, ?_⟩
      rw [if_pos zero, pure_eq_ok]
      exact congrArg _ UInt32.or_zero.symm
    · obtain ⟨bits, widened, isWord⟩ :=
        widths.widen_ok zero (layout.negative wire)
      refine ⟨bits, widened, ?_⟩
      rw [if_neg zero, isExponent, castExponent, ok_bind, sameExponent, isFraction]
      exact isWord

/-- What is promised of a layout: exact words, all different, and in order. -/
structure Faithful
    (layout : Layout) :
    Prop where
  converted :
    ∀ raw : Int32,
      raw.toUInt32.toNat < 2 ^ layout.bits →
      ∃ word,
        toBits raw layout.bits layout.exponentBits = .ok word ∧
          Converted layout raw.toUInt32.toNat word
  injective :
    ∀ (raw other : Int32) (word : UInt32),
      raw.toUInt32.toNat < 2 ^ layout.bits →
      other.toUInt32.toNat < 2 ^ layout.bits →
      toBits raw layout.bits layout.exponentBits = .ok word →
      toBits other layout.bits layout.exponentBits = .ok word → raw = other
  monotone :
    ∀ (raw other : Int32) (word word' : UInt32),
      layout.negative raw.toUInt32.toNat = layout.negative other.toUInt32.toNat →
      layout.exponent raw.toUInt32.toNat < layout.special →
      layout.exponent other.toUInt32.toNat < layout.special →
      layout.magnitude raw.toUInt32.toNat < layout.magnitude other.toUInt32.toNat →
      toBits raw layout.bits layout.exponentBits = .ok word →
      toBits other layout.bits layout.exponentBits = .ok word' →
      word < word' ∧ |value word| < |value word'|

section Layouts

variable {layout : Layout}

/-- Magnitudes that become the same one are the same. -/
theorem Widened.magnitude_unique
    {wire other bits : Nat}
    (widths : Widths layout)
    (widened : Widened layout wire bits)
    (widened' : Widened layout other bits) :
    layout.magnitude wire = layout.magnitude other := by
  obtain ⟨parts, inExponent, _⟩ := @Widths.magnitude_eq layout wire widths
  obtain ⟨parts', inExponent', _⟩ := @Widths.magnitude_eq layout other widths
  have special : layout.special = 2 ^ layout.exponentBits - 1 := rfl
  by_cases ordinary : layout.exponent wire < layout.special
  · obtain ⟨small, same⟩ := widened.finite ordinary
    by_cases ordinary' : layout.exponent other < layout.special
    · obtain ⟨_, same'⟩ := widened'.finite ordinary'
      exact layout.format.number_strictMono.injective (same.symm.trans same')
    · have isBits := widened'.infinite (by omega)
      omega
  · have isBits := widened.infinite (by omega)
    by_cases ordinary' : layout.exponent other < layout.special
    · have small := (widened'.finite ordinary').1
      omega
    · have isBits' := widened'.infinite (by omega)
      have sameMantissa : layout.mantissa wire = layout.mantissa other :=
        Nat.eq_of_mul_eq_mul_right (Nat.two_pow_pos (23 - layout.mantissaBits))
          (by omega)
      have sameExponent : layout.exponent wire = layout.exponent other := by
        omega
      rw [parts, parts', sameMantissa, sameExponent]

/-- A word is its sign and its magnitude. -/
theorem Widths.wire_eq
    {wire other : Nat}
    (widths : Widths layout)
    (fits : wire < 2 ^ layout.bits)
    (fits' : other < 2 ^ layout.bits)
    (sameSign : layout.negative wire = layout.negative other)
    (sameMagnitude : layout.magnitude wire = layout.magnitude other) :
    wire = other := by
  have double : 2 ^ layout.bits = 2 * 2 ^ (layout.bits - 1) := by
    have isBits := widths.bits
    rw [← Nat.pow_succ']
    congr 1
    omega
  unfold Layout.negative at sameSign
  unfold Layout.magnitude at sameMagnitude
  rw [decide_eq_decide] at sameSign
  rw [double] at fits fits'
  generalize 2 ^ (layout.bits - 1) = half at *
  by_cases large : half ≤ wire
  · have large' := sameSign.1 large
    rw [Nat.mod_eq_sub_mod large, Nat.mod_eq_of_lt (by omega),
      Nat.mod_eq_sub_mod large', Nat.mod_eq_of_lt (by omega)] at sameMagnitude
    omega
  · have small' := mt sameSign.2 large
    rw [Nat.mod_eq_of_lt (Nat.not_le.1 large),
      Nat.mod_eq_of_lt (Nat.not_le.1 small')] at sameMagnitude
    exact sameMagnitude

/-- Accepted layouts are converted exactly, without loss and in order. -/
theorem toBits_faithful
    (accepted : Accepts layout.bits layout.exponentBits) :
    Faithful layout := by
  have widths := widths_of_accepts accepted
  refine ⟨fun raw _ => ?_, ?_, ?_⟩
  · obtain ⟨bits, widened, isWord⟩ := @toBits_ok layout raw accepted
    exact ⟨_, isWord, widened.converted⟩
  · intro raw other word fits fits' isWord isWord'
    obtain ⟨bits, widened, ran⟩ := @toBits_ok layout raw accepted
    obtain ⟨bits', widened', ran'⟩ := @toBits_ok layout other accepted
    have same := Except.ok.inj (ran.symm.trans isWord)
    have same' := Except.ok.inj (ran'.symm.trans isWord')
    have sameSign :
        layout.negative raw.toUInt32.toNat = layout.negative other.toUInt32.toNat := by
      have isSign :=
        isNegative_signWord_or (layout.negative raw.toUInt32.toNat) widened.fits
      rw [same, ← same', isNegative_signWord_or _ widened'.fits] at isSign
      exact isSign.symm
    have sameBits : bits' = bits := by
      have isMagnitude :=
        magnitude_signWord_or (layout.negative other.toUInt32.toNat) widened'.fits
      rw [same', ← same, magnitude_signWord_or _ widened.fits] at isMagnitude
      exact isMagnitude.symm
    rw [sameBits] at widened'
    have sameWire :=
      widths.wire_eq fits fits' sameSign (widened.magnitude_unique widths widened')
    exact congrArg UInt32.toInt32 (UInt32.toNat_inj.1 sameWire)
  · intro raw other word word' sameSign ordinary ordinary' smaller isWord isWord'
    obtain ⟨bits, widened, ran⟩ := @toBits_ok layout raw accepted
    obtain ⟨bits', widened', ran'⟩ := @toBits_ok layout other accepted
    obtain rfl := Except.ok.inj (ran.symm.trans isWord)
    obtain rfl := Except.ok.inj (ran'.symm.trans isWord')
    have same := (widened.finite ordinary).2
    have same' := (widened'.finite ordinary').2
    have less : binary32.number bits < binary32.number bits' := by
      rw [same, same']
      exact layout.format.number_strictMono smaller
    constructor
    · rw [UInt32.lt_iff_toNat_lt, toNat_signWord_or _ widened.fits,
        toNat_signWord_or _ widened'.fits, sameSign]
      exact Nat.add_lt_add_left (binary32.number_strictMono.lt_iff_lt.1 less) _
    · rw [(widened.converted.finite ordinary).2, (widened'.converted.finite ordinary').2,
        layout.number_eq, layout.number_eq,
        abs_signedBy _ (layout.format.number_nonneg _),
        abs_signedBy _ (layout.format.number_nonneg _)]
      exact layout.format.number_strictMono smaller

theorem toBits_faithful_narrow :
    Accepts 5 2 ∧ Faithful { bits := 5, exponentBits := 2 } :=
  ⟨by decide, toBits_faithful (by decide)⟩

end Layouts

end Jxlz.FloatSamples
