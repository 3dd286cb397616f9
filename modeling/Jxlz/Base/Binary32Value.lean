import Jxlz.Base.Binary32
import Jxlz.Lib.NearestEven
import Jxlz.Lib.Scaled

namespace Jxlz.Binary32

open NearestEven Scaled

/-!
# The numbers of binary32 words

The value of a finite word, the word that is nearest to a number with ties to
even, and what a fused multiply-add is to return: the word nearest to the exact
`a · b + c`, with infinities and signed zeros as in IEEE 754.
-/

def isNegative
    (word : UInt32) :
    Bool :=
  0x80000000 ≤ word

/-- A word without its sign. -/
def magnitude
    (word : UInt32) :
    Nat :=
  word.toNat % 2 ^ 31

def IsInfinite
    (word : UInt32) :
    Prop :=
  magnitude word = 0x7f800000
  deriving Decidable

def IsFinite
    (word : UInt32) :
    Prop :=
  magnitude word < 0x7f800000
  deriving Decidable

def IsZero
    (word : UInt32) :
    Prop :=
  magnitude word = 0
  deriving Decidable

/-- A position on the line of all words; both zeros stand at the same one. -/
def linePosition
    (word : UInt32) :
    Int :=
  if isNegative word then -(magnitude word : Int) else magnitude word

/-- `first < second`; nothing is less or greater than a NaN. -/
def less
    (first second : UInt32) :
    Bool :=
  !isNan first && !isNan second && linePosition first < linePosition second

/-- `first == second`; a NaN is not equal to itself. -/
def equals
    (first second : UInt32) :
    Bool :=
  !isNan first && !isNan second && linePosition first = linePosition second

/-- The word of a sign alone, which is a zero. -/
def signWord
    (negative : Bool) :
    UInt32 :=
  if negative then 0x80000000 else 0

/-- The significand of a magnitude; subnormal ones have no hidden bit. -/
def significand
    (bits : Nat) :
    Nat :=
  if bits < 2 ^ 23 then bits else bits % 2 ^ 23 + 2 ^ 23

/-- The place of the lowest bit of the significand. -/
def place
    (bits : Nat) :
    Int :=
  max (bits / 2 ^ 23 : Nat) 1 - 150

/-- The number of a magnitude. -/
def magnitudeValue
    (bits : Nat) :
    ℚ :=
  scaled (significand bits) (place bits)

/-- The number of a finite word. -/
def value
    (word : UInt32) :
    ℚ :=
  signedBy (isNegative word) (magnitudeValue (magnitude word))

/-- The least place of a significand. -/
def leastPlace : Int := -149

/-- The magnitude nearest to a positive number; those above all are infinite. -/
def nearestBits
    (q : ℚ) :
    Nat :=
  let e := lastPlace 24 leastPlace q
  min ((e - leastPlace).toNat * 2 ^ 23 + (nearestEven (q / 2 ^ e)).toNat) 0x7f800000

/-- The word nearest to a number that is not zero. -/
def nearest32
    (x : ℚ) :
    UInt32 :=
  signWord (x < 0) ||| UInt32.ofNat (nearestBits |x|)

/-- The default quiet NaN. -/
def quietNan : UInt32 := 0x7fc00000

def infinity
    (negative : Bool) :
    UInt32 :=
  signWord negative ||| 0x7f800000

/--
The exact `a · b + c` of three words that are not NaN, rounded once.  An exact
zero is negative only if both terms are.
-/
def exactFma
    (a b c : UInt32) :
    UInt32 :=
  let productNegative := isNegative a != isNegative b
  if IsInfinite a ∨ IsInfinite b then
    if IsZero a ∨ IsZero b ∨ (IsInfinite c ∧ productNegative ≠ isNegative c) then
      quietNan
    else
      infinity productNegative
  else if IsInfinite c then
    infinity (isNegative c)
  else
    let x := value a * value b + value c
    if x = 0 then
      signWord (productNegative && isNegative c)
    else
      nearest32 x

/-! The magnitude of a rounded number. -/

variable {n : Nat} {e : Int}

/-- Significand and place put together; a carry goes into the exponent. -/
theorem magnitudeValue_eq
    (fits : n ≤ 2 ^ 24)
    (above : leastPlace ≤ e)
    (full : e = leastPlace ∨ 2 ^ 23 ≤ n) :
    magnitudeValue ((e - leastPlace).toNat * 2 ^ 23 + n) = scaled n e := by
  obtain ⟨k, isPlace⟩ := Int.eq_ofNat_of_zero_le (Int.sub_nonneg_of_le above)
  rw [isPlace, Int.toNat_natCast]
  unfold leastPlace at *
  unfold magnitudeValue significand place
  by_cases subnormal : n < 2 ^ 23
  · have lowest : k = 0 := by
      omega
    subst lowest
    have isLeast : e = -149 := by
      omega
    rw [isLeast, Nat.zero_mul, Nat.zero_add, if_pos subnormal,
      Nat.div_eq_of_lt subnormal]
    rfl
  · rw [if_neg (by omega)]
    by_cases carry : n = 2 ^ 24
    · have quotient : (k * 2 ^ 23 + n) / 2 ^ 23 = k + 2 := by
        omega
      have rest : (k * 2 ^ 23 + n) % 2 ^ 23 = 0 := by
        omega
      have next : ((max (k + 2) 1 : Nat) : Int) - 150 = e + (1 : Nat) := by
        push_cast
        omega
      rw [quotient, rest, next, ← scaled_shift, carry]
      norm_num
    · have quotient : (k * 2 ^ 23 + n) / 2 ^ 23 = k + 1 := by
        omega
      have rest : (k * 2 ^ 23 + n) % 2 ^ 23 + 2 ^ 23 = n := by
        omega
      have same : ((max (k + 1) 1 : Nat) : Int) - 150 = e := by
        push_cast
        omega
      rw [quotient, rest, same]

/-- The digits of a positive number from its last place on, rounded. -/
structure Rounds
    (q : ℚ)
    (e : Int)
    (n : Nat) :
    Prop where
  above : leastPlace ≤ e
  fits : n ≤ 2 ^ 24
  full : e = leastPlace ∨ 2 ^ 23 ≤ n
  below : q < 2 ^ (e + 24)
  reaches : e = leastPlace ∨ 2 ^ (e + 23) ≤ q
  nearest : IsNearestEven (q / 2 ^ e) n

/-- The rounding at a place that holds the first digits, if all others are kept. -/
theorem rounds_of_nearest
    {q : ℚ}
    (above : leastPlace ≤ e)
    (below : q < 2 ^ (e + 24))
    (reaches : e = leastPlace ∨ 2 ^ (e + 23) ≤ q)
    (nearest : IsNearestEven (q / 2 ^ e) n) :
    Rounds q e n := by
  have unit : (0 : ℚ) < 2 ^ e := unit_pos e
  have split (k : Nat) : (2 : ℚ) ^ (e + k) = 2 ^ k * 2 ^ e := by
    rw [zpow_add₀ (by norm_num), zpow_natCast, mul_comm]
  have within := abs_le.1 nearest.within
  push_cast at within
  refine ⟨above, ?_, ?_, below, reaches, nearest⟩
  · have small : q / 2 ^ e < 2 ^ 24 := by
      rw [div_lt_iff₀ unit, ← split 24]
      exact_mod_cast below
    have bounded : (n : ℚ) < 2 ^ 24 + 1 := by
      linarith
    have bounded' : n < 2 ^ 24 + 1 := by
      exact_mod_cast bounded
    omega
  · rcases reaches with isLeast | large
    · exact .inl isLeast
    · have large' : (2 : ℚ) ^ 23 ≤ q / 2 ^ e := by
        rw [le_div_iff₀ unit, ← split 23]
        exact_mod_cast large
      have bounded : (2 : ℚ) ^ 23 < n + 1 := by
        linarith
      have bounded' : 2 ^ 23 < n + 1 := by
        exact_mod_cast bounded
      exact .inr (by omega)

/-- A rounding determines the magnitude. -/
theorem Rounds.nearestBits_eq
    {q : ℚ}
    (rounds : Rounds q e n)
    (positive : 0 < q) :
    nearestBits q = min ((e - leastPlace).toNat * 2 ^ 23 + n) 0x7f800000 := by
  have isPlace : lastPlace 24 leastPlace q = e := by
    apply lastPlace_eq positive rounds.above _ rounds.below
    rw [show (e + 24 - 1 : Int) = e + 23 by omega]
    exact rounds.reaches
  unfold nearestBits
  dsimp only
  rw [isPlace, rounds.nearest.eq_nearestEven, Int.toNat_natCast]

/-! Words from a sign and a magnitude. -/

/-- A sign and a magnitude do not meet. -/
theorem toNat_signWord_or
    (negative : Bool)
    {bits : Nat}
    (fits : bits < 2 ^ 31) :
    (signWord negative ||| UInt32.ofNat bits).toNat =
      (if negative then 2 ^ 31 else 0) + bits := by
  have isWord : (UInt32.ofNat bits).toNat = bits :=
    UInt32.toNat_ofNat_of_lt' (Nat.lt_trans fits (by decide))
  rw [UInt32.toNat_or, isWord]
  cases negative with
  | true =>
      have sign : (signWord true).toNat = 1 <<< 31 := rfl
      rw [sign, ← Nat.shiftLeft_add_eq_or_of_lt fits]
      rfl
  | false =>
      have sign : (signWord false).toNat = 0 := rfl
      rw [sign, Nat.zero_or]
      simp

theorem isNegative_signWord_or
    (negative : Bool)
    {bits : Nat}
    (fits : bits < 2 ^ 31) :
    isNegative (signWord negative ||| UInt32.ofNat bits) = negative := by
  unfold isNegative
  rw [Bool.eq_iff_iff, decide_eq_true_iff, UInt32.le_iff_toNat_le,
    toNat_signWord_or negative fits]
  cases negative with
  | true =>
      simp
  | false =>
      simpa using fits

theorem magnitude_signWord_or
    (negative : Bool)
    {bits : Nat}
    (fits : bits < 2 ^ 31) :
    magnitude (signWord negative ||| UInt32.ofNat bits) = bits := by
  unfold magnitude
  rw [toNat_signWord_or negative fits]
  cases negative with
  | true =>
      rw [if_pos rfl]
      omega
  | false =>
      rw [if_neg Bool.false_ne_true]
      omega

theorem significand_lt
    (bits : Nat) :
    significand bits < 2 ^ 24 := by
  unfold significand
  split
  · omega
  · omega

theorem leastPlace_le_place
    (bits : Nat) :
    leastPlace ≤ place bits := by
  unfold leastPlace place
  omega

/-- The value of a word as a scaled integer. -/
theorem value_eq_scaled
    (word : UInt32) :
    value word =
      scaled (withSign (isNegative word) (significand (magnitude word)))
        (place (magnitude word)) := by
  rw [scaled_withSign]
  rfl

end Jxlz.Binary32
