import Jxlz.Base.Checked
import Jxlz.Lib.Scaled

namespace Jxlz

open Scaled

/-!
# The integer soft-float kernel

Mirrors `norm`, `mul`, `add`, `sub` and `div` of `soft_float.zig`.  A value is
`m · 2 ^ (e − 62)` with a mantissa of 63 bits; the integers `m` and `e` are
those of an `i64` and an `i32`.
-/

def TWO62 : Nat := 0x4000000000000000

def TWO61 : Nat := 0x2000000000000000

/-- `@bitCast` from `i64` to `u64`. -/
def bitCastU64
    (m : Int) :
    Nat :=
  (m % 2 ^ 64).toNat

/-- `@bitCast` from `u64` to `i64`. -/
def bitCastI64
    (u : Nat) :
    Int :=
  (u : Int).bmod (2 ^ 64)

/-- `-%` on an `i64`. -/
def negWrapI64
    (m : Int) :
    Int :=
  (-m).bmod (2 ^ 64)

/-- `@clz` of a `u64`. -/
def clz64
    (u : Nat) :
    Nat :=
  if u = 0 then 64 else 63 - u.log2

/-- The range of an `i32`. -/
def FitsI32
    (e : Int) :
    Prop :=
  -2 ^ 31 ≤ e ∧ e < 2 ^ 31

instance (e : Int) : Decidable (FitsI32 e) :=
  inferInstanceAs (Decidable (_ ∧ _))

/-- A soft-float value: `m · 2 ^ (e − 62)`. -/
structure Fixed where
  m : Int
  e : Int
  deriving Repr, DecidableEq

namespace Fixed

def zero : Fixed := { m := 0, e := 0 }

/-- The mantissa as an unsigned magnitude. -/
def magnitude
    (self : Fixed) :
    Nat :=
  bitCastU64 (if self.m < 0 then negWrapI64 self.m else self.m)

/-- An unsigned magnitude with the sign put back. -/
def signed
    (is_neg : Bool)
    (u : Nat) :
    Int :=
  let r := bitCastI64 u
  if is_neg then negWrapI64 r else r

/-- Renormalizes a mantissa and an exponent into canonical form. -/
def norm
    (m e : Int) :
    Checked Fixed := do
  if m = 0 then
    return zero
  let is_neg := decide (m < 0)
  let u := magnitude { m, e }
  if 0x8000000000000000 ≤ u then
    let ee ← addI32 e 1
    return { m := signed is_neg (u >>> 1), e := ee }
  if u < TWO62 then
    let sh := clz64 u - 1
    let ee ← addI32 e (-sh)
    return { m := signed is_neg (shlU 64 u sh), e := ee }
  return { m := signed is_neg u, e }

/-- The 128-bit product as its high and its low half. -/
def mul128
    (a b : Nat) :
    Nat × Nat :=
  let p := a * b
  (p >>> 64, p % 2 ^ 64)

/-- The assertions on an operand. -/
def assertNormalized
    (u : Nat) :
    Checked Unit :=
  require (TWO62 ≤ u ∧ u < 0x8000000000000000)

def mul
    (a b : Fixed) :
    Checked Fixed := do
  if a.m = 0 ∨ b.m = 0 then
    return zero
  let is_neg := decide (a.m < 0) != decide (b.m < 0)
  let ua := a.magnitude
  let ub := b.magnitude
  assertNormalized ua
  assertNormalized ub
  let (hi, lo) := mul128 ua ub
  let es := a.e + b.e
  if TWO61 ≤ hi then
    let um ← addU 64 (hi * 2 % 2 ^ 64) (lo >>> 63)
    require (FitsI32 (es + 1))
    return { m := signed is_neg um, e := es + 1 }
  else
    let um ← addU 64 (hi * 4 % 2 ^ 64) (lo >>> 62)
    require (FitsI32 es)
    return { m := signed is_neg um, e := es }

/-- The mantissa of the smaller operand, aligned to the larger exponent. -/
def alignedTo
    (y : Fixed)
    (d : Nat) :
    Int :=
  let magnitude := y.m.natAbs >>> d
  let aligned := bitCastI64 magnitude
  if y.m < 0 then negWrapI64 aligned else aligned

/-- The sum once `x` has the larger exponent, at a gap of `d`. -/
def addOrdered
    (x y : Fixed)
    (d : Nat) :
    Checked Fixed := do
  if 63 ≤ d then
    return x
  let shifted := y.alignedTo d
  if shifted = 0 then
    return x
  if decide (x.m < 0) = decide (shifted < 0) then
    -- Same sign: both are halved, so that the sum cannot overflow.
    let sum ← addI64 (x.m.tdiv 2) (shifted.tdiv 2)
    if sum = 0 then
      return zero
    require (FitsI32 (x.e + 1))
    norm sum (x.e + 1)
  else
    let sum ← addI64 x.m shifted
    if sum = 0 then
      return zero
    require (FitsI32 x.e)
    norm sum x.e

def add
    (a b : Fixed) :
    Checked Fixed :=
  if a.m = 0 then
    .ok b
  else if b.m = 0 then
    .ok a
  else if a.e < b.e then
    addOrdered b a (b.e - a.e).toNat
  else
    addOrdered a b (a.e - b.e).toNat

def sub
    (a b : Fixed) :
    Checked Fixed :=
  if b.m = 0 then
    .ok a
  else
    add a { m := negWrapI64 b.m, e := b.e }

/-- The quotient of two magnitudes, scaled by `2 ^ 62`. -/
def divmag
    (a b : Nat) :
    Checked Nat :=
  castU 64 ((a <<< 62) / b)

def div
    (a b : Fixed) :
    Checked Fixed := do
  require (b.m ≠ 0)
  if a.m = 0 then
    return zero
  let is_neg := decide (a.m < 0) != decide (b.m < 0)
  let ua := a.magnitude
  let ub := b.magnitude
  assertNormalized ua
  assertNormalized ub
  let quotient ← divmag ua ub
  let es := a.e - b.e
  require (FitsI32 es)
  norm (signed is_neg quotient) es

/-- A canonical value: a full mantissa and an `i32` exponent, or plain zero. -/
def Normalized
    (self : Fixed) :
    Prop :=
  (2 ^ 62 ≤ self.m.natAbs ∧ self.m.natAbs < 2 ^ 63 ∧ FitsI32 self.e) ∨
    self = zero

/-- The rational number that is represented. -/
def value
    (self : Fixed) :
    ℚ :=
  scaled self.m (self.e - 62)

/-- One unit in the last place of the mantissa. -/
def ulp
    (self : Fixed) :
    ℚ :=
  2 ^ (self.e - 62)

/-- Within the range of an `i64` nothing wraps. -/
theorem bmod_two_pow_64
    {m : Int}
    (low : -2 ^ 63 ≤ m)
    (high : m < 2 ^ 63) :
    m.bmod (2 ^ 64) = m := by
  rw [Int.bmod_def]
  push_cast
  split_ifs <;> omega

variable {self : Fixed}

theorem magnitude_eq
    (low : -2 ^ 63 ≤ self.m)
    (high : self.m < 2 ^ 63) :
    self.magnitude = self.m.natAbs := by
  rcases self with ⟨m, e⟩
  dsimp only at low high
  by_cases negative : m < 0
  · have wrapped : (negWrapI64 m) % 2 ^ 64 = -m := by
      simp only [negWrapI64, Int.bmod_def]
      omega
    simp only [magnitude, bitCastU64, negative, if_true, wrapped]
    omega
  · have same : m % 2 ^ 64 = m :=
      Int.emod_eq_of_lt (by omega) (by omega)
    simp only [magnitude, bitCastU64, negative, if_false, same]
    omega

theorem signed_eq
    (is_neg : Bool)
    {u : Nat}
    (fits : u < 2 ^ 63) :
    signed is_neg u = withSign is_neg u := by
  have cast : bitCastI64 u = u :=
    bmod_two_pow_64 (by omega) (by omega)
  have negated : negWrapI64 (u : Int) = -u :=
    bmod_two_pow_64 (by omega) (by omega)
  cases is_neg
  · simp only [signed, withSign, cast, Bool.false_eq_true, if_false]
  · simp only [signed, withSign, cast, negated, if_true]

theorem Normalized.small
    (normalized : self.Normalized) :
    self.m.natAbs < 2 ^ 63 := by
  rcases normalized with ⟨_, small, _⟩ | rfl
  · exact small
  · simp [zero]

theorem Normalized.large
    (normalized : self.Normalized)
    (nonzero : self.m ≠ 0) :
    2 ^ 62 ≤ self.m.natAbs := by
  rcases normalized with ⟨large, _⟩ | rfl
  · exact large
  · exact absurd rfl nonzero

theorem Normalized.fits
    (normalized : self.Normalized) :
    FitsI32 self.e := by
  rcases normalized with ⟨_, _, fits⟩ | rfl
  · exact fits
  · decide

theorem Normalized.eq_zero
    (normalized : self.Normalized)
    (isZero : self.m = 0) :
    self = zero := by
  rcases normalized with ⟨large, _⟩ | rfl
  · rw [isZero] at large
    simp at large
  · rfl

theorem Normalized.magnitude
    (normalized : self.Normalized) :
    self.magnitude = self.m.natAbs := by
  have small := normalized.small
  exact magnitude_eq (by omega) (by omega)

theorem Normalized.asserted
    (normalized : self.Normalized)
    (nonzero : self.m ≠ 0) :
    assertNormalized self.m.natAbs = .ok () :=
  require_ok ⟨normalized.large nonzero, normalized.small⟩

/-- How far a mantissa must be shifted up to fill its 63 bits. -/
def deficit
    (m : Int) :
    Nat :=
  62 - m.natAbs.log2

/-- The canonical form, at an exponent of any size. -/
def normWide
    (m e : Int) :
    Fixed :=
  if m = 0 then zero else { m := m * 2 ^ deficit m, e := e - deficit m }

/-- The shift fills the mantissa without overflow. -/
theorem deficit_fills
    {m : Int}
    (nonzero : m ≠ 0)
    (small : m.natAbs < 2 ^ 63) :
    2 ^ 62 ≤ m.natAbs * 2 ^ deficit m ∧
      m.natAbs * 2 ^ deficit m < 2 ^ 63 := by
  have some : m.natAbs ≠ 0 := by
    omega
  have short : m.natAbs.log2 < 63 :=
    (Nat.log2_lt some).2 small
  have lower : 2 ^ m.natAbs.log2 ≤ m.natAbs :=
    Nat.log2_self_le some
  have upper : m.natAbs < 2 ^ (m.natAbs.log2 + 1) :=
    Nat.lt_log2_self
  have positive : 0 < 2 ^ deficit m :=
    Nat.two_pow_pos _
  constructor
  · calc
      2 ^ 62 = 2 ^ m.natAbs.log2 * 2 ^ deficit m := by
        rw [← Nat.pow_add, deficit, Nat.add_sub_cancel' (by omega)]
      _ ≤ m.natAbs * 2 ^ deficit m :=
        Nat.mul_le_mul_right _ lower
  · calc
      m.natAbs * 2 ^ deficit m < 2 ^ (m.natAbs.log2 + 1) * 2 ^ deficit m :=
        Nat.mul_lt_mul_of_pos_right upper positive
      _ = 2 ^ 63 := by
        rw [← Nat.pow_add, deficit]
        congr 1
        omega

/-- A mantissa with its top bit set is left as it is. -/
theorem deficit_eq_zero
    {m : Int}
    (large : 2 ^ 62 ≤ m.natAbs) :
    deficit m = 0 := by
  have full : 62 ≤ m.natAbs.log2 :=
    (Nat.le_log2 (by omega)).2 large
  rw [deficit]
  omega

/-- A mantissa that lacks one bit is doubled. -/
theorem deficit_eq_one
    {m : Int}
    (large : 2 ^ 61 ≤ m.natAbs)
    (small : m.natAbs < 2 ^ 62) :
    deficit m = 1 := by
  have full : 61 ≤ m.natAbs.log2 :=
    (Nat.le_log2 (by omega)).2 large
  have short : m.natAbs.log2 < 62 :=
    (Nat.log2_lt (by omega)).2 small
  rw [deficit]
  omega

theorem withSign_mul_two_pow
    (m : Int)
    (amount : Nat) :
    withSign (decide (m < 0)) (m.natAbs * 2 ^ amount) = m * 2 ^ amount := by
  by_cases negative : m < 0
  · have flipped : (m.natAbs : Int) = -m := by
      omega
    simp [withSign, negative, flipped]
  · have same : (m.natAbs : Int) = m := by
      omega
    simp [withSign, negative, same]

/-- `norm` reaches the canonical form, if its exponent is an `i32`. -/
theorem norm_eq
    {m e : Int}
    (small : m.natAbs < 2 ^ 63)
    (fits : FitsI32 e) :
    norm m e =
      if FitsI32 (normWide m e).e then .ok (normWide m e) else .error .trap := by
  by_cases isZero : m = 0
  · subst isZero
    simp only [norm, normWide, if_true]
    rfl
  have read : Fixed.magnitude { m, e } = m.natAbs :=
    magnitude_eq (by dsimp only; omega) (by dsimp only; omega)
  have below : ¬ 0x8000000000000000 ≤ m.natAbs := by
    omega
  obtain ⟨filled, room⟩ := deficit_fills isZero small
  simp only [norm, normWide, isZero, if_false, read, below]
  by_cases short : m.natAbs < TWO62
  · have count : clz64 m.natAbs - 1 = deficit m := by
      have some : m.natAbs ≠ 0 := by
        omega
      simp only [clz64, some, if_false, deficit]
      omega
    have shifted : shlU 64 m.natAbs (deficit m) = m.natAbs * 2 ^ deficit m :=
      shlU_eq (by omega)
    simp only [short, if_true, count, shifted, signed_eq _ room,
      withSign_mul_two_pow]
    by_cases stays : FitsI32 (e - deficit m)
    · rw [if_pos stays, addI32_ok (by have := stays.1; omega)
        (by have := stays.2; omega)]
      simp [Int.sub_eq_add_neg]
    · have outside :
          ¬ (-2 ^ 31 ≤ e + -(deficit m : Int) ∧ e + -(deficit m : Int) < 2 ^ 31) := by
        intro inside
        exact stays ⟨by omega, by omega⟩
      rw [if_neg stays, addI32, if_neg outside, error_bind]
  · have full : deficit m = 0 :=
      deficit_eq_zero (by rw [TWO62] at short; omega)
    simp only [short, if_false, full, signed_eq _ small, withSign_natAbs]
    simp [fits]

theorem normWide_normalized
    {m e : Int}
    (small : m.natAbs < 2 ^ 63)
    (fits : FitsI32 (normWide m e).e) :
    (normWide m e).Normalized := by
  by_cases isZero : m = 0
  · exact .inr (by simp [normWide, isZero])
  · obtain ⟨filled, room⟩ := deficit_fills isZero small
    simp only [normWide, isZero, if_false] at fits ⊢
    refine .inl ⟨?_, ?_, fits⟩ <;>
      simpa [Int.natAbs_mul, Int.natAbs_pow] using by assumption

/-- Renormalizing changes no value. -/
theorem value_normWide
    (m e : Int) :
    (normWide m e).value = scaled m (e - 62) := by
  by_cases isZero : m = 0
  · simp [normWide, isZero, value, zero]
  · simp only [normWide, isZero, if_false, value]
    rw [scaled_shift]
    congr 1
    omega

end Fixed

end Jxlz
