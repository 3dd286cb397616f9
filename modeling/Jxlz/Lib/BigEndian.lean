import Mathlib

namespace BigEndian

/-!
# Big-endian numbers

A number as a fixed count of bytes, the most significant one first.  Writing a
number that fits and reading it back are inverse to each other.
-/

/-- The number that some bytes spell. -/
def valueOf
    (bytes : List UInt8) :
    Nat :=
  bytes.foldl (fun value byte => value * 256 + byte.toNat) 0

/-- The last `count` bytes of a number. -/
def bytesOf : Nat → Nat → List UInt8
  | 0, _ => []
  | count + 1, value => bytesOf count (value / 256) ++ [UInt8.ofNat value]

@[simp]
theorem length_bytesOf
    (count value : Nat) :
    (bytesOf count value).length = count := by
  induction count generalizing value with
  | zero =>
      rfl
  | succ count inductionHypothesis =>
      rw [bytesOf, List.length_append, inductionHypothesis,
        List.length_singleton]

theorem valueOf_concat
    (bytes : List UInt8)
    (byte : UInt8) :
    valueOf (bytes ++ [byte]) = valueOf bytes * 256 + byte.toNat := by
  rw [valueOf, List.foldl_append]
  rfl

/-- A number that fits is read back. -/
theorem valueOf_bytesOf
    {count value : Nat}
    (fits : value < 256 ^ count) :
    valueOf (bytesOf count value) = value := by
  induction count generalizing value with
  | zero =>
      have isZero : value = 0 := by
        simpa using fits
      rw [isZero]
      rfl
  | succ count inductionHypothesis =>
      have quotient : value / 256 < 256 ^ count :=
        Nat.div_lt_of_lt_mul (by rwa [Nat.pow_succ, Nat.mul_comm] at fits)
      rw [bytesOf, valueOf_concat, inductionHypothesis quotient,
        UInt8.toNat_ofNat']
      omega

theorem valueOf_lt
    (bytes : List UInt8) :
    valueOf bytes < 256 ^ bytes.length := by
  induction bytes using List.reverseRecOn with
  | nil =>
      exact Nat.one_pos
  | append_singleton front byte inductionHypothesis =>
      have small := byte.toNat_lt
      rw [valueOf_concat, List.length_append, List.length_singleton,
        Nat.pow_succ]
      omega

/-- Bytes that were read are written again. -/
theorem bytesOf_valueOf
    (bytes : List UInt8) :
    bytesOf bytes.length (valueOf bytes) = bytes := by
  induction bytes using List.reverseRecOn with
  | nil =>
      rfl
  | append_singleton front byte inductionHypothesis =>
      have small := byte.toNat_lt
      have quotient : (valueOf front * 256 + byte.toNat) / 256 = valueOf front := by
        omega
      have last : UInt8.ofNat (valueOf front * 256 + byte.toNat) = byte := by
        apply UInt8.toNat_inj.1
        rw [UInt8.toNat_ofNat']
        omega
      rw [List.length_append, List.length_singleton, bytesOf, valueOf_concat,
        quotient, last, inductionHypothesis]

end BigEndian
