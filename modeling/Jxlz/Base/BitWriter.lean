import Jxlz.Base.Checked
import Jxlz.Lib.BitString

namespace Jxlz

open BitString

/-!
# The bit writer

`BitWriter` packs bit patches into bytes, lowest bit first, in the layout that
`BitReader` expects.  Its storage may be longer than what has been written;
the unwritten part is zero, so that a patch can be OR-ed in.
-/

/-- Byte storage with the number of bits written to it. -/
structure BitWriter where
  storage : List UInt8 := []
  bitsWritten : Nat := 0
  reserved : bitsWritten ≤ 8 * storage.length
  clear : ∀ position, bitsWritten ≤ position → bitAt storage position = false

namespace BitWriter

/-- Most bits that one call may write. -/
def kMaxBitsPerCall : Nat := 56

/-- A writer with nothing written. -/
def init : BitWriter where
  reserved := by simp
  clear := by
    intro position _
    simp [bitAt]

/-- The bits written so far. -/
def bits
    (self : BitWriter) :
    List Bool :=
  (List.range self.bitsWritten).map (bitAt self.storage)

/-- `storage.resize` to the bytes that hold `finalBits`, zero-filled. -/
def reserveBits
    (storage : List UInt8)
    (finalBits : Nat) :
    List UInt8 :=
  storage ++ List.replicate ((finalBits + 7) / 8 - storage.length) 0

/-- The byte loop of `write`: each round fills up one byte. -/
def storeBits
    (storage : List UInt8)
    (bitPos remaining value : Nat) :
    List UInt8 :=
  if remaining = 0 then
    storage
  else
    let byteIndex := bitPos / 8
    let intraByte := bitPos % 8
    let take := min remaining (8 - intraByte)
    let mask := 1 <<< take - 1
    storeBits
      (storage.modify byteIndex
        (· ||| UInt8.ofNat ((value &&& mask) <<< intraByte)))
      (bitPos + take) (remaining - take) (value >>> take)
termination_by remaining
decreasing_by omega

theorem bitAt_reserveBits
    (storage : List UInt8)
    (finalBits position : Nat) :
    bitAt (reserveBits storage finalBits) position =
      bitAt storage position := by
  by_cases inside : position / 8 < storage.length
  · simp [bitAt, reserveBits, List.getD_eq_getElem?_getD,
      List.getElem?_append_left inside]
  · simp only [bitAt, reserveBits, List.getD_eq_getElem?_getD,
      List.getElem?_append_right (Nat.le_of_not_lt inside),
      List.getElem?_replicate,
      List.getElem?_eq_none (Nat.le_of_not_lt inside)]
    split <;> rfl

theorem le_length_reserveBits
    (storage : List UInt8)
    (finalBits : Nat) :
    finalBits ≤ 8 * (reserveBits storage finalBits).length := by
  simp only [reserveBits, List.length_append, List.length_replicate]
  omega

/-- OR-ing a byte in changes the bits of that byte only. -/
private theorem bitAt_modify
    {storage : List UInt8}
    {byteIndex position : Nat}
    (patch : UInt8)
    (inside : byteIndex < storage.length) :
    bitAt (storage.modify byteIndex (· ||| patch)) position =
      (bitAt storage position ||
        (decide (position / 8 = byteIndex) &&
          patch.toNat.testBit (position % 8))) := by
  by_cases here : position / 8 = byteIndex
  · subst here
    simp [bitAt, List.getD_eq_getElem?_getD, inside]
  · have elsewhere : byteIndex ≠ position / 8 :=
      fun same => here same.symm
    simp [bitAt, List.getD_eq_getElem?_getD, here, elsewhere]

@[simp]
theorem length_storeBits
    (storage : List UInt8)
    (bitPos remaining value : Nat) :
    (storeBits storage bitPos remaining value).length = storage.length := by
  fun_induction storeBits storage bitPos remaining value with
  | case1 =>
      rfl
  | case2 _ _ _ _ _ _ _ _ _ inductionHypothesis =>
      simpa using inductionHypothesis

/-- The byte loop ORs the patch in at its bit position. -/
theorem bitAt_storeBits
    (storage : List UInt8)
    (bitPos remaining value : Nat)
    (capacity : bitPos + remaining ≤ 8 * storage.length)
    (position : Nat) :
    bitAt (storeBits storage bitPos remaining value) position =
      (bitAt storage position ||
        (decide (bitPos ≤ position ∧ position < bitPos + remaining) &&
          value.testBit (position - bitPos))) := by
  fun_induction storeBits storage bitPos remaining value with
  | case1 storage bitPos value =>
      simp
  | case2 storage bitPos remaining value more byteIndex intraByte take mask
      inductionHypothesis =>
      have takeEq : take = min remaining (8 - bitPos % 8) :=
        rfl
      have inside : byteIndex < storage.length := by
        simp only [byteIndex]
        omega
      have patchFits : (value &&& mask) <<< intraByte < 256 := by
        have below : value &&& mask < 2 ^ take := by
          simp only [mask, Nat.one_shiftLeft, Nat.and_two_pow_sub_one_eq_mod]
          exact Nat.mod_lt _ (by positivity)
        have room : take + intraByte ≤ 8 := by
          simp only [intraByte]
          omega
        rw [Nat.shiftLeft_eq]
        calc
          (value &&& mask) * 2 ^ intraByte
              < 2 ^ take * 2 ^ intraByte :=
                Nat.mul_lt_mul_of_pos_right below (by positivity)
          _ = 2 ^ (take + intraByte) := (Nat.pow_add 2 take intraByte).symm
          _ ≤ 2 ^ 8 := Nat.pow_le_pow_right (by decide) room
      have patchBit :
          (UInt8.ofNat ((value &&& mask) <<< intraByte)).toNat.testBit
              (position % 8) =
            (decide (intraByte ≤ position % 8) &&
              (decide (position % 8 - intraByte < take) &&
                value.testBit (position % 8 - intraByte))) := by
        rw [UInt8.toNat_ofNat_of_lt' patchFits]
        simp only [mask, Nat.one_shiftLeft, Nat.and_two_pow_sub_one_eq_mod,
          Nat.testBit_shiftLeft, Nat.testBit_mod_two_pow, ge_iff_le]
      rw [inductionHypothesis (by simp only [List.length_modify]; omega),
        bitAt_modify _ inside, patchBit, Nat.testBit_shiftRight]
      -- The round writes the positions of this byte, the rest writes later ones.
      by_cases later : bitPos + take ≤ position
      · have shifted : take + (position - (bitPos + take)) =
            position - bitPos := by
          omega
        have notHere :
            ¬ (position / 8 = byteIndex ∧ intraByte ≤ position % 8 ∧
              position % 8 - intraByte < take) := by
          simp only [byteIndex, intraByte]
          omega
        have sameRange :
            (bitPos + take ≤ position ∧
                position < bitPos + take + (remaining - take)) ↔
              (bitPos ≤ position ∧ position < bitPos + remaining) := by
          omega
        rw [shifted]
        simp only [sameRange]
        grind
      · have sameBit :
            position / 8 = byteIndex →
              intraByte ≤ position % 8 →
              position % 8 - intraByte = position - bitPos := by
          simp only [byteIndex, intraByte]
          omega
        have sameRange :
            (position / 8 = byteIndex ∧ intraByte ≤ position % 8 ∧
                position % 8 - intraByte < take) ↔
              (bitPos ≤ position ∧ position < bitPos + remaining) := by
          simp only [byteIndex, intraByte]
          omega
        have notLater :
            ¬ (bitPos + take ≤ position ∧
              position < bitPos + take + (remaining - take)) := by
          omega
        simp only [notLater, decide_false, Bool.false_and, Bool.or_false]
        grind

/-- The writer with one more patch OR-ed in after the bits written so far. -/
def appendPatch
    (self : BitWriter)
    (nBits value : Nat) :
    BitWriter where
  storage :=
    storeBits (reserveBits self.storage (self.bitsWritten + nBits))
      self.bitsWritten nBits value
  bitsWritten := self.bitsWritten + nBits
  reserved := by
    rw [length_storeBits]
    exact le_length_reserveBits _ _
  clear := by
    intro position after
    have outside :
        ¬ (self.bitsWritten ≤ position ∧
          position < self.bitsWritten + nBits) := by
      omega
    rw [bitAt_storeBits _ _ _ _ (le_length_reserveBits _ _),
      bitAt_reserveBits, self.clear position (by omega)]
    simp [outside]

/-- Writes little-endian bit patches in the layout that `BitReader` expects. -/
def write
    (self : BitWriter)
    (nBits value : Nat) :
    Checked BitWriter := do
  require (nBits ≤ kMaxBitsPerCall)
  if nBits = 0 then
    return self
  return self.appendPatch nBits value

/-- Reserves storage for a burst of bits; nothing is written yet. -/
def ensureUnusedCapacityBits
    (self : BitWriter)
    (nBits : Nat) :
    BitWriter where
  storage := reserveBits self.storage (self.bitsWritten + nBits)
  bitsWritten := self.bitsWritten
  reserved := by
    have capacity :=
      le_length_reserveBits self.storage (self.bitsWritten + nBits)
    omega
  clear := by
    intro position after
    rw [bitAt_reserveBits, self.clear position after]

@[simp]
theorem length_bits
    (self : BitWriter) :
    self.bits.length = self.bitsWritten := by
  simp [bits]

@[simp]
theorem bits_init :
    init.bits = [] := by
  simp [bits, init]

@[simp]
theorem bits_ensureUnusedCapacityBits
    (self : BitWriter)
    (nBits : Nat) :
    (self.ensureUnusedCapacityBits nBits).bits = self.bits := by
  simp [bits, ensureUnusedCapacityBits, bitAt_reserveBits]

theorem bits_appendPatch
    (self : BitWriter)
    (nBits value : Nat) :
    (self.appendPatch nBits value).bits =
      self.bits ++ bitsOf nBits value := by
  apply List.ext_getElem (by simp [bits, appendPatch])
  intro position inside _
  simp only [bits, appendPatch, List.length_map, List.length_range] at inside
  have capacity :=
    le_length_reserveBits self.storage (self.bitsWritten + nBits)
  by_cases old : position < self.bitsWritten
  · have notNew : ¬ self.bitsWritten ≤ position := by
      omega
    simp [bits, appendPatch, bitAt_storeBits _ _ _ _ capacity,
      bitAt_reserveBits, old, notNew]
  · have zero := self.clear position (by omega)
    have new : self.bitsWritten ≤ position := by
      omega
    simp [bits, appendPatch, bitAt_storeBits _ _ _ _ capacity,
      bitAt_reserveBits, zero, new, inside]

/-- Writing appends the patch to the bits written so far. -/
theorem write_ok
    (self : BitWriter)
    {nBits : Nat}
    (value : Nat)
    (short : nBits ≤ kMaxBitsPerCall) :
    ∃ after,
      self.write nBits value = .ok after ∧
        after.bits = self.bits ++ bitsOf nBits value := by
  by_cases empty : nBits = 0
  · subst empty
    exact ⟨self, by simp [write, require, kMaxBitsPerCall], by simp⟩
  · refine ⟨self.appendPatch nBits value, ?_, self.bits_appendPatch _ _⟩
    simp only [write, require_ok short, empty, ok_bind, if_false, pure_eq_ok]

end BitWriter

end Jxlz
