import Mathlib

namespace Jxlz

/-!
# Signed values in unsigned symbols

Mirrors `pack_signed.zig`: the sign goes to the lowest bit, so that values near
zero become small symbols.
-/

/-- Encodes non-negative `x` into `2 * x` and negative `-x` into `2 * x - 1`. -/
def packSigned
    (value : Int32) :
    UInt32 :=
  let v := value.toUInt32
  (v <<< 1) ^^^ ((~~~v >>> 31) - 1)

/-- Reverse of `packSigned`. -/
def unpackSigned
    (value : UInt32) :
    Int32 :=
  ((value >>> 1) ^^^ ((~~~value &&& 1) - 1)).toInt32

/-- The mask of the sign bit. -/
private theorem signMask
    (v : BitVec 32) :
    (~~~v >>> 31) - 1#32 = if v.msb then BitVec.allOnes 32 else 0#32 := by
  have shifted : (~~~v >>> 31) = if v.msb then 0#32 else 1#32 := by
    ext place inside
    rw [BitVec.msb_eq_getLsbD_last]
    by_cases first : place = 0
    · subst first
      rw [BitVec.getElem_ushiftRight, BitVec.getLsbD_eq_getElem (by decide),
        BitVec.getLsbD_eq_getElem (by decide)]
      cases sign : v[31] <;> simp [sign]
    · have outside : ¬ 31 + place < 32 := by
        omega
      cases sign : v.getLsbD 31 <;> simp [outside, first]
  rw [shifted]
  cases v.msb <;> decide

/-- The mask of the lowest bit. -/
private theorem lowMask
    (p : BitVec 32) :
    (~~~p &&& 1#32) - 1#32 = if p[0] then BitVec.allOnes 32 else 0#32 := by
  have masked : (~~~p &&& 1#32) = if p[0] then 0#32 else 1#32 := by
    ext place inside
    by_cases first : place = 0
    · subst first
      cases low : p[0] <;> simp [low]
    · cases p[0] <;> simp [first]
  rw [masked]
  cases p[0] <;> decide

/-- Shifting back and masking again restores every bit. -/
private theorem unshift
    (v : BitVec 32) :
    (((v <<< 1) ^^^ (if v.msb then BitVec.allOnes 32 else 0#32)) >>> 1) ^^^
        (if v.msb then BitVec.allOnes 32 else 0#32) =
      v := by
  ext place inside
  have last : place = 31 → v[place] = v.msb := by
    rintro rfl
    rw [BitVec.msb_eq_getLsbD_last, BitVec.getLsbD_eq_getElem]
  by_cases below : 1 + place < 32
  · cases v.msb with
    | false =>
        simp [below]
    | true =>
        simp only [if_true, BitVec.getElem_xor, BitVec.getElem_ushiftRight,
          BitVec.getElem_allOnes, BitVec.getLsbD_eq_getElem below,
          BitVec.getElem_shiftLeft]
        simp
  · have isLast : place = 31 := by
      omega
    rw [last isLast]
    subst isLast
    cases v.msb <;> simp

/-- Unpacking a packed value gives it back. -/
theorem unpackSigned_packSigned
    (value : Int32) :
    unpackSigned (packSigned value) = value := by
  apply Int32.toBitVec_inj.1
  have packed :
      (packSigned value).toBitVec =
        (value.toBitVec <<< 1) ^^^
          (if value.toBitVec.msb then BitVec.allOnes 32 else 0#32) := by
    rw [← signMask]
    rfl
  have lowIsSign : (packSigned value).toBitVec[0] = value.toBitVec.msb := by
    rw [show (packSigned value).toBitVec[0] =
        ((value.toBitVec <<< 1) ^^^
          (if value.toBitVec.msb then BitVec.allOnes 32 else 0#32))[0] by
      rw [← packed]]
    cases sign : value.toBitVec.msb <;> simp
  calc
    (unpackSigned (packSigned value)).toBitVec
        = ((packSigned value).toBitVec >>> 1) ^^^
            ((~~~(packSigned value).toBitVec &&& 1#32) - 1#32) := rfl
    _ = value.toBitVec := by
        rw [lowMask, lowIsSign, packed, unshift]

end Jxlz
