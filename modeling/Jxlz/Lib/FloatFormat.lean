import Mathlib
import Jxlz.Lib.Scaled

namespace FloatFormat

open Scaled

/-!
# Binary floating-point formats

A magnitude is a natural number: its low digits are the fraction, the others the biased
exponent.  At exponent zero the leading digit is missing.  Larger magnitudes stand for
larger numbers, so a number has one magnitude at most.
-/

/-- The digits of the fraction, and the place of the last one at the least exponent. -/
structure Format where
  fraction : Nat
  leastPlace : Int

namespace Format

variable (format : Format)

/-- The number that a magnitude stands for. -/
def number
    (magnitude : Nat) :
    ℚ :=
  if magnitude / 2 ^ format.fraction = 0 then
    scaled (magnitude % 2 ^ format.fraction : Nat) format.leastPlace
  else
    scaled (2 ^ format.fraction + magnitude % 2 ^ format.fraction : Nat)
      (format.leastPlace + (magnitude / 2 ^ format.fraction - 1 : Nat))

/-- A magnitude is put together from its exponent and its fraction. -/
theorem number_eq
    {exponent fraction : Nat}
    (fits : fraction < 2 ^ format.fraction) :
    format.number (exponent * 2 ^ format.fraction + fraction) =
      if exponent = 0 then
        scaled fraction format.leastPlace
      else
        scaled (2 ^ format.fraction + fraction : Nat)
          (format.leastPlace + (exponent - 1 : Nat)) := by
  have unit : 0 < 2 ^ format.fraction := Nat.two_pow_pos _
  have isExponent :
      (exponent * 2 ^ format.fraction + fraction) / 2 ^ format.fraction = exponent := by
    rw [Nat.mul_comm, Nat.mul_add_div unit, Nat.div_eq_of_lt fits, Nat.add_zero]
  have isFraction :
      (exponent * 2 ^ format.fraction + fraction) % 2 ^ format.fraction = fraction := by
    rw [Nat.mul_comm, Nat.mul_add_mod, Nat.mod_eq_of_lt fits]
  unfold number
  rw [isExponent, isFraction]

theorem number_nonneg
    (magnitude : Nat) :
    0 ≤ format.number magnitude := by
  unfold number
  split
  · exact scaled_nonneg.2 (Int.natCast_nonneg _)
  · exact scaled_nonneg.2 (Int.natCast_nonneg _)

/-- Two fractions below the leading digit are one at the next exponent. -/
theorem scaled_double
    (n : Nat)
    (e : Int) :
    scaled (2 * n : Nat) e = scaled n (e + 1) := by
  have shifted := scaled_shift n e 1
  rw [pow_one, Nat.cast_one] at shifted
  rw [← shifted, mul_comm]
  push_cast
  rfl

/-- The next magnitude stands for a larger number. -/
theorem number_lt_succ
    (magnitude : Nat) :
    format.number magnitude < format.number (magnitude + 1) := by
  have unit : 0 < 2 ^ format.fraction := Nat.two_pow_pos _
  have digits := Nat.div_add_mod' magnitude (2 ^ format.fraction)
  have fits := Nat.mod_lt magnitude unit
  generalize magnitude / 2 ^ format.fraction = exponent at digits
  generalize magnitude % 2 ^ format.fraction = fraction at digits fits
  subst digits
  by_cases last : fraction + 1 = 2 ^ format.fraction
  · have next :
        exponent * 2 ^ format.fraction + fraction + 1 =
          (exponent + 1) * 2 ^ format.fraction + 0 := by
      rw [Nat.succ_mul]
      omega
    rw [next, format.number_eq fits, format.number_eq unit,
      if_neg (Nat.succ_ne_zero exponent), Nat.add_zero, Nat.add_sub_cancel]
    by_cases least : exponent = 0
    · rw [if_pos least, least, Nat.cast_zero, add_zero, scaled_lt]
      exact_mod_cast fits
    · rw [if_neg least]
      have below :
          format.leastPlace + (exponent : Nat) =
            format.leastPlace + (exponent - 1 : Nat) + 1 := by
        omega
      rw [below, ← scaled_double, scaled_lt]
      exact_mod_cast (by omega)
  · have more : fraction + 1 < 2 ^ format.fraction := by
      omega
    rw [Nat.add_assoc, format.number_eq fits, format.number_eq more]
    by_cases least : exponent = 0
    · rw [if_pos least, if_pos least, scaled_lt]
      exact_mod_cast Nat.lt_succ_self fraction
    · rw [if_neg least, if_neg least, scaled_lt]
      exact_mod_cast (by omega)

theorem number_strictMono :
    StrictMono format.number :=
  strictMono_nat_of_lt_succ format.number_lt_succ

end Format

end FloatFormat
