import Mathlib

namespace BitString

/-!
# Least-significant-bit-first bit strings

A bit string is a `List Bool`; an unbounded source of bits is a function
`Nat → Bool`.  `bitsOf` spells a number, `valueAt` reads one back, and
`Serves` says that a source starts with a given string.  Nothing here depends
on a particular reader or writer.
-/

/-- The `width` lowest bits of `value`, lowest first. -/
def bitsOf
    (width value : Nat) :
    List Bool :=
  (List.range width).map value.testBit

/-- The source that is left after its first `amount` bits. -/
def advance
    (source : Nat → Bool)
    (amount : Nat) :
    Nat → Bool :=
  fun index => source (amount + index)

/-- Bit `index` of a byte string; the bits past its end read as zero. -/
def bitAt
    (bytes : List UInt8)
    (index : Nat) :
    Bool :=
  (bytes.getD (index / 8) 0).toNat.testBit (index % 8)

/-- The number whose base-256 digits are the bytes, lowest first. -/
def littleEndian
    (bytes : List UInt8) :
    Nat :=
  bytes.foldr (fun byte rest => 256 * rest + byte.toNat) 0

/-- The number spelled by the first `width` bits of a source. -/
def valueAt
    (source : Nat → Bool)
    (width : Nat) :
    Nat :=
  Nat.ofBits fun index : Fin width => source index

/-- A source starts with the bit string. -/
def Serves
    (source : Nat → Bool)
    (bits : List Bool) :
    Prop :=
  ∀ index (inside : index < bits.length), source index = bits[index]

@[simp]
theorem length_bitsOf
    (width value : Nat) :
    (bitsOf width value).length = width := by
  simp [bitsOf]

@[simp]
theorem bitsOf_zero
    (value : Nat) :
    bitsOf 0 value = [] := by
  simp [bitsOf]

@[simp]
theorem getElem_bitsOf
    (width value index : Nat)
    (inside : index < (bitsOf width value).length) :
    (bitsOf width value)[index] = value.testBit index := by
  simp [bitsOf]

@[simp]
theorem advance_zero
    (source : Nat → Bool) :
    advance source 0 = source := by
  funext index
  simp [advance]

@[simp]
theorem advance_advance
    (source : Nat → Bool)
    (first second : Nat) :
    advance (advance source first) second =
      advance source (first + second) := by
  funext index
  simp [advance, Nat.add_assoc]

/-- Spelling a shifted concatenation spells its two halves in order. -/
theorem bitsOf_append
    {low lowWidth high highWidth : Nat}
    (fits : low < 2 ^ lowWidth) :
    bitsOf (lowWidth + highWidth) (high <<< lowWidth ||| low) =
      bitsOf lowWidth low ++ bitsOf highWidth high := by
  apply List.ext_getElem (by simp)
  intro index inside _
  simp only [length_bitsOf] at inside
  by_cases inLow : index < lowWidth
  · simp [inLow]
  · have highPart : low.testBit index = false :=
      Nat.testBit_lt_two_pow
        (Nat.lt_of_lt_of_le fits
          (Nat.pow_le_pow_right (by decide) (by omega)))
    simp [List.getElem_append, inLow, highPart]
    intro contradiction
    omega

/-- A source serves a concatenation exactly when it serves both parts. -/
theorem serves_append
    {source : Nat → Bool}
    {first second : List Bool} :
    Serves source (first ++ second) ↔
      Serves source first ∧
        Serves (advance source first.length) second := by
  constructor
  · intro served
    refine ⟨?_, ?_⟩
    · intro index inside
      rw [served index (by simp; omega), List.getElem_append_left inside]
    · intro index inside
      have atOffset :=
        served (first.length + index) (by simp; omega)
      simpa [advance] using atOffset
  · rintro ⟨servedFirst, servedSecond⟩ index inside
    by_cases inFirst : index < first.length
    · rw [List.getElem_append_left inFirst]
      exact servedFirst index inFirst
    · rw [List.getElem_append_right (by omega)]
      have atOffset :=
        servedSecond (index - first.length) (by simp at inside; omega)
      rw [← atOffset, advance]
      congr 1
      omega

/-- Past the end of a byte string every bit reads as zero. -/
theorem bitAt_of_length_le
    {bytes : List UInt8}
    {index : Nat}
    (outside : 8 * bytes.length ≤ index) :
    bitAt bytes index = false := by
  have pastEnd : bytes.length ≤ index / 8 := by
    omega
  rw [bitAt, List.getD_eq_default _ _ pastEnd]
  simp

/-- The bits of one byte of a byte string. -/
theorem bitAt_byte
    {bytes : List UInt8}
    {position offset : Nat}
    (inside : position < bytes.length)
    (inByte : offset < 8) :
    bitAt bytes (8 * position + offset) =
      bytes[position].toNat.testBit offset := by
  have quotient : (8 * position + offset) / 8 = position := by
    omega
  have remainder : (8 * position + offset) % 8 = offset := by
    omega
  simp [bitAt, quotient, remainder, inside]

theorem bitAt_cons
    (byte : UInt8)
    (rest : List UInt8)
    (index : Nat) :
    bitAt (byte :: rest) index =
      if index < 8 then byte.toNat.testBit index
      else bitAt rest (index - 8) := by
  by_cases inHead : index < 8
  · have quotient : index / 8 = 0 := by
      omega
    simp [bitAt, inHead, quotient, Nat.mod_eq_of_lt inHead]
  · have quotient : index / 8 = (index - 8) / 8 + 1 := by
      omega
    have remainder : index % 8 = (index - 8) % 8 := by
      omega
    simp [bitAt, inHead, quotient, remainder]

theorem bitAt_drop
    (bytes : List UInt8)
    (position index : Nat) :
    bitAt (bytes.drop position) index =
      bitAt bytes (8 * position + index) := by
  have quotient : (8 * position + index) / 8 = position + index / 8 := by
    omega
  have remainder : (8 * position + index) % 8 = index % 8 := by
    omega
  simp [bitAt, quotient, remainder, List.getD_eq_getElem?_getD]

theorem bitAt_take
    {bytes : List UInt8}
    {count index : Nat}
    (inside : index < 8 * count) :
    bitAt (bytes.take count) index = bitAt bytes index := by
  have inTake : index / 8 < count := by
    omega
  simp only [bitAt, List.getD_eq_getElem?_getD,
    List.getElem?_take_of_lt inTake]

/-- The bits of the little-endian number are the bits of the byte string. -/
theorem testBit_littleEndian
    (bytes : List UInt8)
    (index : Nat) :
    (littleEndian bytes).testBit index = bitAt bytes index := by
  induction bytes generalizing index with
  | nil =>
      simp [littleEndian, bitAt]
  | cons byte rest inductionHypothesis =>
      have byteFits : byte.toNat < 2 ^ 8 :=
        byte.toNat_lt
      have unfolded :
          littleEndian (byte :: rest) =
            2 ^ 8 * littleEndian rest + byte.toNat :=
        rfl
      rw [unfolded, Nat.testBit_two_pow_mul_add _ byteFits, bitAt_cons,
        inductionHypothesis]

theorem valueAt_lt
    (source : Nat → Bool)
    (width : Nat) :
    valueAt source width < 2 ^ width :=
  Nat.ofBits_lt_two_pow _

/-- Two numbers below `2 ^ width` with the same low bits are equal. -/
theorem eq_of_low_bits
    {first second width : Nat}
    (firstFits : first < 2 ^ width)
    (secondFits : second < 2 ^ width)
    (same :
      ∀ index,
        index < width →
        first.testBit index = second.testBit index) :
    first = second := by
  apply Nat.eq_of_testBit_eq
  intro index
  by_cases inside : index < width
  · exact same index inside
  · have grows : 2 ^ width ≤ 2 ^ index :=
      Nat.pow_le_pow_right (by decide) (by omega)
    rw [Nat.testBit_lt_two_pow (by omega), Nat.testBit_lt_two_pow (by omega)]

theorem testBit_valueAt
    (source : Nat → Bool)
    {width index : Nat}
    (inside : index < width) :
    (valueAt source width).testBit index = source index :=
  Nat.testBit_ofBits_lt _ _ inside

/-- Reading back a spelled number yields the number. -/
theorem valueAt_of_serves
    {source : Nat → Bool}
    {width value : Nat}
    (fits : value < 2 ^ width)
    (served : Serves source (bitsOf width value)) :
    valueAt source width = value := by
  refine eq_of_low_bits (valueAt_lt source width) fits ?_
  intro index inside
  rw [testBit_valueAt source inside, served index (by simpa using inside)]
  simp

end BitString

namespace BitReversal

/-!
# Numbers with their bits reversed

A prefix code that is read from its first bit on meets its codewords with their
bits reversed.  `reverse len` maps the lowest `len` bits of a number to one
below `2 ^ len`; it undoes itself, and it turns a prefix into a remainder.
-/

/-- The lowest `len` bits of a number in reverse order. -/
def reverse : Nat → Nat → Nat
  | 0, _ => 0
  | len + 1, value => reverse len (value / 2) + value % 2 * 2 ^ len

theorem reverse_lt
    (len value : Nat) :
    reverse len value < 2 ^ len := by
  induction len generalizing value with
  | zero =>
      exact Nat.one_pos
  | succ len inductionHypothesis =>
      have rest := inductionHypothesis (value / 2)
      have bit : value % 2 * 2 ^ len ≤ 1 * 2 ^ len :=
        Nat.mul_le_mul_right _ (Nat.le_of_lt_succ (Nat.mod_lt value Nat.two_pos))
      rw [reverse, Nat.pow_succ]
      omega

/-- Only the lowest bits count. -/
theorem reverse_mod
    (len value : Nat) :
    reverse len (value % 2 ^ len) = reverse len value := by
  induction len generalizing value with
  | zero =>
      rfl
  | succ len inductionHypothesis =>
      have half : value % 2 ^ (len + 1) / 2 = value / 2 % 2 ^ len := by
        rw [Nat.pow_succ, Nat.mul_comm]
        exact Nat.mod_mul_right_div_self value 2 (2 ^ len)
      have bit : value % 2 ^ (len + 1) % 2 = value % 2 :=
        Nat.mod_mod_of_dvd value (Dvd.intro_left (2 ^ len) rfl)
      rw [reverse, reverse, half, bit, inductionHypothesis]

/-- Zeros below a number are lost above its reversal. -/
theorem reverse_shift
    (len more value : Nat) :
    reverse (len + more) (value * 2 ^ more) = reverse len value := by
  induction more with
  | zero =>
      rw [Nat.pow_zero, Nat.mul_one, Nat.add_zero]
  | succ more inductionHypothesis =>
      have even : value * 2 ^ (more + 1) = value * 2 ^ more * 2 := by
        rw [Nat.pow_succ, Nat.mul_assoc]
      rw [← Nat.add_assoc, reverse, even, Nat.mul_div_cancel _ Nat.two_pos,
        Nat.mul_mod_left, Nat.zero_mul, Nat.add_zero, inductionHypothesis]

/-- The low bits come first, and the others below them. -/
theorem reverse_split
    (more len value : Nat) :
    reverse (more + len) value =
      reverse len value * 2 ^ more + reverse more (value / 2 ^ len) := by
  induction len generalizing value with
  | zero =>
      rw [Nat.pow_zero, Nat.div_one, reverse, Nat.zero_mul, Nat.zero_add]
      rfl
  | succ len inductionHypothesis =>
      rw [← Nat.add_assoc, reverse, inductionHypothesis, reverse,
        Nat.div_div_eq_div_mul, ← Nat.pow_succ', Nat.pow_add]
      ring

/-- The bits that come first are a prefix of the others. -/
theorem reverse_div
    (more len value : Nat) :
    reverse (more + len) value / 2 ^ more = reverse len value := by
  rw [reverse_split, Nat.add_comm, Nat.add_mul_div_right _ _ (by positivity),
    Nat.div_eq_of_lt (reverse_lt more _), Nat.zero_add]

theorem reverse_reverse
    (len value : Nat) :
    reverse len (reverse len value) = value % 2 ^ len := by
  induction len generalizing value with
  | zero =>
      rw [Nat.pow_zero, Nat.mod_one]
      rfl
  | succ len inductionHypothesis =>
      have low := reverse_lt len (value / 2)
      have bit : value % 2 < 2 := Nat.mod_lt value Nat.two_pos
      have lowBits : reverse (len + 1) value % 2 ^ len = reverse len (value / 2) := by
        rw [reverse, Nat.add_mul_mod_self_right, Nat.mod_eq_of_lt low]
      have highBit : reverse (len + 1) value / 2 ^ len = value % 2 := by
        rw [reverse, Nat.add_mul_div_right _ _ (by positivity),
          Nat.div_eq_of_lt low, Nat.zero_add]
      have one : reverse 1 (value % 2) = value % 2 := by
        rw [reverse, reverse, Nat.pow_zero, Nat.mul_one, Nat.zero_add,
          Nat.mod_mod]
      rw [show len + 1 = 1 + len by omega, reverse_split,
        ← reverse_mod len (reverse (1 + len) value), Nat.add_comm 1 len,
        lowBits, highBit, one, inductionHypothesis, Nat.pow_one,
        Nat.add_comm len 1, Nat.pow_add, Nat.pow_one, Nat.mod_mul]
      omega

/-- A number starts with the reversal of a codeword exactly if it reads so. -/
theorem mod_eq_reverse_iff
    {len word value : Nat}
    (small : word < 2 ^ len) :
    value % 2 ^ len = reverse len word ↔ reverse len value = word := by
  constructor
  · intro starts
    rw [← reverse_mod, starts, reverse_reverse, Nat.mod_eq_of_lt small]
  · intro reads
    rw [← reads, reverse_reverse]

theorem reverse_inj
    {len first second : Nat}
    (firstSmall : first < 2 ^ len)
    (secondSmall : second < 2 ^ len) :
    reverse len first = reverse len second ↔ first = second := by
  constructor
  · intro same
    have twice := congrArg (reverse len) same
    rwa [reverse_reverse, reverse_reverse, Nat.mod_eq_of_lt firstSmall,
      Nat.mod_eq_of_lt secondSmall] at twice
  · intro same
    rw [same]

end BitReversal
