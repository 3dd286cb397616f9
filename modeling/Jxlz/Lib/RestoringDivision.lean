import Mathlib

namespace RestoringDivision

/-!
# Restoring division

One round doubles the remainder and the quotient and takes the divisor away where
it fits.  After so many rounds the quotient has that many more binary digits.
Nothing here depends on a word size.
-/

/-- The remainder and the digits found so far. -/
structure State where
  remainder : Nat
  digits : Nat
  deriving Repr, DecidableEq

def round
    (divisor : Nat)
    (state : State) :
    State :=
  if divisor ≤ 2 * state.remainder then
    { remainder := 2 * state.remainder - divisor, digits := 2 * state.digits + 1 }
  else
    { remainder := 2 * state.remainder, digits := 2 * state.digits }

/-- Behind `count` rounds the digits are a quotient, and what is left its rest. -/
structure Divided
    (numerator divisor count : Nat)
    (state : State) :
    Prop where
  split :
    numerator * 2 ^ count = state.digits * divisor + state.remainder
  small : state.remainder < divisor

theorem divided_zero
    {numerator divisor : Nat}
    (small : numerator < divisor) :
    Divided numerator divisor 0 { remainder := numerator, digits := 0 } :=
  { split := by simp, small }

variable {numerator divisor count : Nat} {state : State}

/-- One round finds the next digit. -/
theorem Divided.round
    (divided : Divided numerator divisor count state) :
    Divided numerator divisor (count + 1) (round divisor state) := by
  obtain ⟨split, small⟩ := divided
  have doubled :
      numerator * 2 ^ (count + 1) =
        2 * state.digits * divisor + 2 * state.remainder :=
    calc
      numerator * 2 ^ (count + 1) = 2 * (numerator * 2 ^ count) := by
        ring
      _ = 2 * state.digits * divisor + 2 * state.remainder := by
        rw [split]
        ring
  unfold RestoringDivision.round
  by_cases fits : divisor ≤ 2 * state.remainder
  · rw [if_pos fits]
    constructor
    · calc
        numerator * 2 ^ (count + 1) =
            2 * state.digits * divisor + divisor +
              (2 * state.remainder - divisor) := by
          omega
        _ = (2 * state.digits + 1) * divisor + (2 * state.remainder - divisor) := by
          ring
    · dsimp only
      omega
  · rw [if_neg fits]
    exact { split := doubled, small := Nat.not_le.1 fits }

/-- The digits are those of the scaled quotient. -/
theorem Divided.digits_eq
    (divided : Divided numerator divisor count state) :
    state.digits = numerator * 2 ^ count / divisor := by
  obtain ⟨split, small⟩ := divided
  symm
  apply Nat.div_eq_of_lt_le
  · omega
  · rw [split, Nat.succ_mul]
    omega

/-- As long as the numerator is the smaller one, the digits fit their number. -/
theorem Divided.digits_lt
    (divided : Divided numerator divisor count state)
    (small : numerator < divisor) :
    state.digits < 2 ^ count := by
  rw [divided.digits_eq]
  apply Nat.div_lt_of_lt_mul
  exact Nat.mul_lt_mul_of_pos_right small (Nat.two_pow_pos count)

/-- The digits before the point and those behind it make up the whole quotient. -/
theorem quotient_split
    (numerator divisor count : Nat)
    (positive : 0 < divisor) :
    numerator * 2 ^ count / divisor =
      numerator / divisor * 2 ^ count +
        numerator % divisor * 2 ^ count / divisor := by
  have parts := Nat.div_add_mod numerator divisor
  calc
    numerator * 2 ^ count / divisor =
        (divisor * (numerator / divisor) + numerator % divisor) * 2 ^ count /
          divisor := by
      rw [parts]
    _ = (numerator % divisor * 2 ^ count +
          divisor * (numerator / divisor * 2 ^ count)) / divisor := by
      congr 1
      ring
    _ = numerator % divisor * 2 ^ count / divisor +
          numerator / divisor * 2 ^ count :=
      Nat.add_mul_div_left _ _ positive
    _ = numerator / divisor * 2 ^ count +
          numerator % divisor * 2 ^ count / divisor :=
      Nat.add_comm _ _

end RestoringDivision
