import Mathlib

namespace NearestEven

/-!
# Rounding to the nearest even integer

The nearest integer of a rational number, where a half goes to the even side,
and two ways to compute it: from the bits that a shift drops, and from a sticky
integer, which stands for a number that it is not equal to by being odd.  A
number also has an exponent at which to round it, if so many digits are kept and
no place below the least one is.
-/

/-- An integer within a half, and an even one at a half. -/
structure IsNearestEven
    (q : ℚ)
    (n : ℤ) :
    Prop where
  within : |q - n| ≤ 1 / 2
  even : |q - n| = 1 / 2 → Even n

/-- The nearest integer; a half goes to the even one. -/
def nearestEven
    (q : ℚ) :
    ℤ :=
  let below := ⌊q⌋
  if q - below < 1 / 2 ∨ (q - below = 1 / 2 ∧ Even below) then
    below
  else
    below + 1

theorem isNearestEven_nearestEven
    (q : ℚ) :
    IsNearestEven q (nearestEven q) := by
  have low : (⌊q⌋ : ℚ) ≤ q := Int.floor_le q
  have high : q < ⌊q⌋ + 1 := Int.lt_floor_add_one q
  unfold nearestEven
  dsimp only
  split
  next down =>
    have distance : |q - ⌊q⌋| = q - ⌊q⌋ := abs_of_nonneg (by linarith)
    constructor
    · rw [distance]
      rcases down with less | ⟨half, _⟩
      · exact less.le
      · exact half.le
    · rw [distance]
      intro half
      rcases down with less | ⟨_, even⟩
      · exact absurd half less.ne
      · exact even
  next up =>
    rw [not_or, not_lt, not_and] at up
    obtain ⟨large, oddHalf⟩ := up
    have distance : |q - (⌊q⌋ + 1 : ℤ)| = ⌊q⌋ + 1 - q := by
      push_cast
      rw [abs_sub_comm]
      exact abs_of_nonneg (by linarith)
    constructor
    · rw [distance]
      linarith
    · rw [distance]
      intro half
      have isHalf : q - ⌊q⌋ = 1 / 2 := by
        linarith
      exact Int.even_add_one.2 (oddHalf isHalf)

variable {q : ℚ}

/-- No integer is nearer. -/
theorem IsNearestEven.le
    {n : ℤ}
    (nearest : IsNearestEven q n)
    (other : ℤ) :
    |q - n| ≤ |q - other| := by
  by_cases same : other = n
  · rw [same]
  · have apart : (1 : ℚ) ≤ |(n : ℚ) - other| := by
      have different : 1 ≤ |n - other| :=
        Int.one_le_abs (sub_ne_zero.2 (Ne.symm same))
      exact_mod_cast different
    have triangle : |(n : ℚ) - other| ≤ |q - n| + |q - other| := by
      rw [abs_sub_comm q n]
      exact abs_sub_le _ _ _
    have within := nearest.within
    linarith

/-- If another integer is as near, this one is even. -/
theorem IsNearestEven.even_of_tie
    {n other : ℤ}
    (nearest : IsNearestEven q n)
    (different : other ≠ n)
    (tie : |q - n| = |q - other|) :
    Even n := by
  have apart : (1 : ℚ) ≤ |(n : ℚ) - other| := by
    have different : 1 ≤ |n - other| :=
      Int.one_le_abs (sub_ne_zero.2 (Ne.symm different))
    exact_mod_cast different
  have triangle : |(n : ℚ) - other| ≤ |q - n| + |q - other| := by
    rw [abs_sub_comm q n]
    exact abs_sub_le _ _ _
  have within := nearest.within
  exact nearest.even (by linarith)

/-- There is one nearest even integer. -/
theorem IsNearestEven.unique
    {n other : ℤ}
    (nearest : IsNearestEven q n)
    (nearest' : IsNearestEven q other) :
    n = other := by
  by_contra different
  have tie : |q - n| = |q - other| :=
    le_antisymm (nearest.le other) (nearest'.le n)
  obtain ⟨half, rfl⟩ := nearest.even_of_tie (Ne.symm different) tie
  obtain ⟨half', rfl⟩ := nearest'.even_of_tie different tie.symm
  have apart : (2 : ℚ) ≤ |((half + half : ℤ) : ℚ) - (half' + half' : ℤ)| := by
    have far : 2 ≤ |half + half - (half' + half')| := by
      rcases lt_or_gt_of_ne different with less | greater
      · rw [abs_of_neg (by omega)]
        omega
      · rw [abs_of_pos (by omega)]
        omega
    exact_mod_cast far
  have triangle :
      |((half + half : ℤ) : ℚ) - (half' + half' : ℤ)| ≤
        |q - (half + half : ℤ)| + |q - (half' + half' : ℤ)| := by
    rw [abs_sub_comm q (half + half : ℤ)]
    exact abs_sub_le _ _ _
  have within := nearest.within
  have within' := nearest'.within
  linarith

theorem IsNearestEven.eq_nearestEven
    {n : ℤ}
    (nearest : IsNearestEven q n) :
    nearestEven q = n :=
  (isNearestEven_nearestEven q).unique nearest

/-- An integer is its own nearest one. -/
theorem isNearestEven_intCast
    (n : ℤ) :
    IsNearestEven n n := by
  constructor
  · rw [sub_self, abs_zero]
    norm_num
  · rw [sub_self, abs_zero]
    intro half
    norm_num at half

/-- What a shift keeps, and what it drops. -/
theorem div_two_pow_eq
    (m shift : ℕ) :
    (m : ℚ) / 2 ^ shift =
      (m / 2 ^ shift : ℕ) + (m % 2 ^ shift : ℕ) / 2 ^ shift := by
  have unit : (2 : ℚ) ^ shift ≠ 0 := by
    positivity
  have parts :
      (m : ℚ) = (m / 2 ^ shift : ℕ) * 2 ^ shift + (m % 2 ^ shift : ℕ) := by
    exact_mod_cast (Nat.div_add_mod' m (2 ^ shift)).symm
  rw [div_eq_iff unit, add_mul, div_mul_cancel₀ _ unit]
  exact parts

/-- The nearest integer from the bits that a shift drops. -/
def roundShift
    (m shift : ℕ) :
    ℕ :=
  let kept := m / 2 ^ shift
  let remainder := m % 2 ^ shift
  let halfway := 2 ^ (shift - 1)
  if halfway < remainder ∨ (remainder = halfway ∧ kept % 2 = 1) then
    kept + 1
  else
    kept

theorem isNearestEven_roundShift
    {m shift : ℕ}
    (positive : 0 < shift) :
    IsNearestEven ((m : ℚ) / 2 ^ shift) (roundShift m shift) := by
  obtain ⟨less, rfl⟩ := Nat.exists_eq_succ_of_ne_zero positive.ne'
  have unit : (0 : ℚ) < 2 ^ (less + 1) := by
    positivity
  have quotient := div_two_pow_eq m (less + 1)
  have below : m % 2 ^ (less + 1) < 2 ^ (less + 1) :=
    Nat.mod_lt _ (Nat.two_pow_pos _)
  unfold roundShift
  dsimp only
  rw [Nat.succ_eq_add_one, Nat.add_sub_cancel]
  generalize m / 2 ^ (less + 1) = kept at quotient ⊢
  generalize m % 2 ^ (less + 1) = remainder at quotient below ⊢
  have double : 2 ^ (less + 1) = 2 * 2 ^ less :=
    Nat.pow_succ'
  have halfUnit : (2 : ℚ) ^ less / 2 ^ (less + 1) = 1 / 2 := by
    rw [pow_succ']
    field_simp
  split
  next up =>
    have distance :
        |(m : ℚ) / 2 ^ (less + 1) - ((kept + 1 : ℕ) : ℤ)| =
          1 - remainder / 2 ^ (less + 1) := by
      have small : (remainder : ℚ) / 2 ^ (less + 1) ≤ 1 := by
        rw [div_le_one unit]
        exact_mod_cast below.le
      rw [quotient, abs_sub_comm]
      push_cast
      rw [abs_of_nonneg (by linarith)]
      ring
    have large : 1 / 2 ≤ (remainder : ℚ) / 2 ^ (less + 1) := by
      rw [← halfUnit, div_le_div_iff_of_pos_right unit]
      have atLeast : 2 ^ less ≤ remainder := by
        omega
      exact_mod_cast atLeast
    constructor
    · rw [distance]
      linarith
    · rw [distance]
      intro half
      have isHalf : (remainder : ℚ) / 2 ^ (less + 1) = 2 ^ less / 2 ^ (less + 1) := by
        rw [halfUnit]
        linarith
      have exact : remainder = 2 ^ less := by
        have same := (div_left_inj' unit.ne').1 isHalf
        exact_mod_cast same
      have odd : kept % 2 = 1 := by
        omega
      rw [Int.even_iff]
      omega
  next down =>
    have distance :
        |(m : ℚ) / 2 ^ (less + 1) - ((kept : ℕ) : ℤ)| =
          remainder / 2 ^ (less + 1) := by
      rw [quotient]
      push_cast
      rw [add_sub_cancel_left]
      exact abs_of_nonneg (by positivity)
    rw [not_or, not_lt, not_and] at down
    constructor
    · rw [distance, ← halfUnit, div_le_div_iff_of_pos_right unit]
      exact_mod_cast down.1
    · rw [distance, ← halfUnit]
      intro half
      have exact : remainder = 2 ^ less := by
        have same := (div_left_inj' unit.ne').1 half
        exact_mod_cast same
      have even := down.2 exact
      rw [Int.even_iff]
      omega

/-! Sticky integers. -/

/-- The number itself, or an odd integer less than one away. -/
def Sticky
    (q : ℚ)
    (m : ℤ) :
    Prop :=
  q = m ∨ (m % 2 = 1 ∧ |q - m| < 1)

variable {m : ℤ}

theorem Sticky.lt_one
    (sticky : Sticky q m) :
    |q - m| < 1 := by
  rcases sticky with rfl | ⟨_, near⟩
  · rw [sub_self, abs_zero]
    exact one_pos
  · exact near

theorem Sticky.neg
    (sticky : Sticky q m) :
    Sticky (-q) (-m) := by
  rcases sticky with rfl | ⟨odd, near⟩
  · exact .inl (by push_cast; rfl)
  · refine .inr ⟨by omega, ?_⟩
    push_cast
    rw [neg_sub_neg, abs_sub_comm]
    exact near

/-- An even integer may be added to both sides. -/
theorem Sticky.even_add
    {m even : ℤ}
    (sticky : Sticky q m)
    (isEven : even % 2 = 0) :
    Sticky (even + q) (even + m) := by
  rcases sticky with rfl | ⟨odd, near⟩
  · exact .inl (by push_cast; rfl)
  · refine .inr ⟨by omega, ?_⟩
    push_cast
    rw [add_sub_add_left_eq_sub]
    exact near

/-- A sticky integer that is not zero has the sign of its number. -/
theorem Sticky.neg_iff
    (sticky : Sticky q m)
    (nonzero : m ≠ 0) :
    q < 0 ↔ m < 0 := by
  obtain ⟨above, below⟩ := abs_lt.1 sticky.lt_one
  constructor
  · intro negative
    by_contra notNegative
    have large : (1 : ℚ) ≤ m := by
      exact_mod_cast (by omega : 1 ≤ m)
    linarith
  · intro negative
    have small : (m : ℚ) ≤ -1 := by
      exact_mod_cast (by omega : m ≤ -1)
    linarith

theorem Sticky.ne_zero
    (sticky : Sticky q m)
    (nonzero : m ≠ 0) :
    q ≠ 0 := by
  rintro rfl
  rcases sticky with zero | ⟨_, near⟩
  · exact nonzero (by exact_mod_cast zero.symm)
  · rw [zero_sub, abs_neg] at near
    have large : (1 : ℚ) ≤ |(m : ℚ)| := by
      exact_mod_cast Int.one_le_abs nonzero
    linarith

/-- Magnitudes of sticky integers are sticky. -/
theorem Sticky.abs
    (sticky : Sticky q m)
    (nonzero : m ≠ 0) :
    Sticky |q| m.natAbs := by
  by_cases negative : m < 0
  · have isNegative := (sticky.neg_iff nonzero).2 negative
    have magnitude : (m.natAbs : ℤ) = -m := by
      omega
    rw [abs_of_neg isNegative, magnitude]
    exact sticky.neg
  · have isNonneg : 0 ≤ q := not_lt.1 (mt (sticky.neg_iff nonzero).1 negative)
    have magnitude : (m.natAbs : ℤ) = m := by
      omega
    rw [abs_of_nonneg isNonneg, magnitude]
    exact sticky

/-- If two bits or more are dropped, a sticky integer rounds as its number does. -/
theorem Sticky.isNearestEven
    {m n : ℤ}
    {shift : ℕ}
    (sticky : Sticky q m)
    (two : 2 ≤ shift)
    (nearest : IsNearestEven ((m : ℚ) / 2 ^ shift) n) :
    IsNearestEven (q / 2 ^ shift) n := by
  rcases sticky with rfl | ⟨odd, near⟩
  · exact nearest
  · obtain ⟨more, rfl⟩ := Nat.exists_eq_add_of_le two
    have unit : (0 : ℚ) < 2 ^ (2 + more) := by
      positivity
    have scaled (r : ℚ) : |r / 2 ^ (2 + more) - n| =
        |r - n * 2 ^ (2 + more)| / 2 ^ (2 + more) := by
      rw [← abs_of_pos unit, ← abs_div, abs_of_pos unit, sub_div,
        mul_div_cancel_right₀ _ unit.ne']
    have halfUnit : 1 / 2 * (2 : ℚ) ^ (2 + more) = 2 * 2 ^ more := by
      rw [pow_add]
      ring
    -- The distance of the odd integer is odd, thus not a half and one less.
    have close : |m - n * 2 ^ (2 + more)| ≤ 2 * 2 ^ more := by
      have within := nearest.within
      rw [scaled, div_le_iff₀ unit, halfUnit] at within
      exact_mod_cast within
    have closer : |m - n * 2 ^ (2 + more)| + 1 ≤ 2 * 2 ^ more := by
      have even : n * 2 ^ (2 + more) = 2 * (n * (2 * 2 ^ more)) := by
        rw [pow_add]
        ring
      rw [even] at close ⊢
      generalize n * (2 * 2 ^ more) = half at close ⊢
      generalize (2 : ℤ) ^ more = quarter at close ⊢
      rcases abs_cases (m - 2 * half) with ⟨isAbs, _⟩ | ⟨isAbs, _⟩
      · rw [isAbs] at close ⊢
        omega
      · rw [isAbs] at close ⊢
        omega
    have distance : |q - n * 2 ^ (2 + more)| < 2 * 2 ^ more := by
      have triangle :
          |q - n * 2 ^ (2 + more)| ≤ |q - m| + |(m : ℚ) - n * 2 ^ (2 + more)| :=
        abs_sub_le _ _ _
      have closer' : |(m : ℚ) - n * 2 ^ (2 + more)| + 1 ≤ 2 * 2 ^ more := by
        exact_mod_cast closer
      linarith
    have less : |q / 2 ^ (2 + more) - n| < 1 / 2 := by
      rw [scaled, div_lt_iff₀ unit, halfUnit]
      exact distance
    exact ⟨less.le, fun half => absurd half less.ne⟩

/-- A sticky integer of two bits or more has as many bits as its number. -/
theorem Sticky.log2_bounds
    {m : ℕ}
    (sticky : Sticky q m)
    (nonzero : m ≠ 0)
    (deep : q = m ∨ 2 ≤ m) :
    2 ^ m.log2 ≤ q ∧ q < 2 ^ (m.log2 + 1) := by
  have low : 2 ^ m.log2 ≤ m := Nat.log2_self_le nonzero
  have high : m + 1 ≤ 2 ^ (m.log2 + 1) := Nat.lt_log2_self
  have low' : (2 : ℚ) ^ m.log2 ≤ m := by
    exact_mod_cast low
  have high' : (m : ℚ) + 1 ≤ 2 ^ (m.log2 + 1) := by
    exact_mod_cast high
  rcases sticky with exact | ⟨odd, near⟩
  · rw [Int.cast_natCast] at exact
    rw [exact]
    exact ⟨low', by linarith⟩
  · obtain ⟨above, below⟩ := abs_lt.1 near
    rw [Int.cast_natCast] at above below
    refine ⟨?_, by linarith⟩
    rcases deep with rfl | two
    · exact low'
    · -- The power is even, so that an odd integer is behind it.
      have some : 1 ≤ m.log2 := (Nat.le_log2 nonzero).2 two
      obtain ⟨more, isLog⟩ := Nat.exists_eq_add_of_le some
      have even : 2 ^ m.log2 = 2 * 2 ^ more := by
        rw [isLog, pow_add, pow_one]
      have behind : 2 ^ m.log2 + 1 ≤ m := by
        omega
      have behind' : (2 : ℚ) ^ m.log2 + 1 ≤ m := by
        exact_mod_cast behind
      linarith

/-! The place to round at. -/

/-- The last place of a number of `digits` digits, if none is below `least`. -/
def lastPlace
    (digits least : ℤ)
    (q : ℚ) :
    ℤ :=
  max (Int.log 2 q + 1 - digits) least

/-- A place is the last one if the digits from it on hold the number's first. -/
theorem lastPlace_eq
    {digits least place : ℤ}
    (positive : 0 < q)
    (atLeast : least ≤ place)
    (full : place = least ∨ 2 ^ (place + digits - 1) ≤ q)
    (fits : q < 2 ^ (place + digits)) :
    lastPlace digits least q = place := by
  have fits' : q < ((2 : ℕ) : ℚ) ^ (place + digits) := by
    exact_mod_cast fits
  have small := (Int.lt_zpow_iff_log_lt (by norm_num) positive).1 fits'
  unfold lastPlace
  rcases full with rfl | large
  · omega
  · have large' : ((2 : ℕ) : ℚ) ^ (place + digits - 1) ≤ q := by
      exact_mod_cast large
    have least := (Int.zpow_le_iff_le_log (by norm_num) positive).1 large'
    omega

end NearestEven

namespace NearestRoot

/-!
# The integer nearest to a square root

The root of an integer is never halfway between two integers, so that the integer
root and its remainder decide which one is nearest.
-/

/-- The integer root, or the next integer where the remainder is above it. -/
def nearestRoot
    (n : ℕ) :
    ℕ :=
  if n.sqrt < n - n.sqrt * n.sqrt then n.sqrt + 1 else n.sqrt

/-- Nothing else is within half a unit of the root. -/
theorem abs_sqrt_sub_lt
    (n : ℕ) :
    |√(n : ℝ) - nearestRoot n| < 1 / 2 := by
  have below : n.sqrt * n.sqrt ≤ n := Nat.sqrt_le n
  have above : n < (n.sqrt + 1) * (n.sqrt + 1) := Nat.sqrt_lt.1 (Nat.lt_succ_self _)
  unfold nearestRoot
  generalize n.sqrt = s at below above ⊢
  have square : (s + 1) * (s + 1) = s * s + 2 * s + 1 := by
    ring
  rw [abs_lt]
  split
  next up =>
    have far : ((s * s + s + 1 : ℕ) : ℝ) ≤ n := by
      exact_mod_cast (by omega : s * s + s + 1 ≤ n)
    have near : (n : ℝ) < ((s + 1) * (s + 1) : ℕ) := by
      exact_mod_cast above
    push_cast at far near ⊢
    have lower : (s : ℝ) + 1 / 2 < √n := by
      apply Real.lt_sqrt_of_sq_lt
      linarith
    have upper : √n < (s : ℝ) + 1 := by
      rw [Real.sqrt_lt' (by positivity)]
      linarith
    constructor <;> linarith
  next stay =>
    have far : ((s * s : ℕ) : ℝ) ≤ n := by
      exact_mod_cast below
    have near : (n : ℝ) ≤ ((s * s + s : ℕ) : ℝ) := by
      exact_mod_cast (by omega : n ≤ s * s + s)
    push_cast at far near ⊢
    have lower : (s : ℝ) ≤ √n := by
      apply Real.le_sqrt_of_sq_le
      linarith
    have upper : √n < (s : ℝ) + 1 / 2 := by
      rw [Real.sqrt_lt' (by positivity)]
      linarith
    constructor <;> linarith

theorem le_nearestRoot
    {n low : ℕ}
    (large : low * low ≤ n) :
    low ≤ nearestRoot n := by
  have atLeast : low ≤ n.sqrt := Nat.le_sqrt.2 large
  unfold nearestRoot
  split <;> omega

theorem nearestRoot_le
    {n high : ℕ}
    (small : n < high * high) :
    nearestRoot n ≤ high := by
  have atMost : n.sqrt < high := Nat.sqrt_lt.2 small
  unfold nearestRoot
  split <;> omega

end NearestRoot
