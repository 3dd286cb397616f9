import Jxlz.Base.Checked
import Jxlz.Lib.BigEndian
import Jxlz.Lib.Placing

namespace Jxlz.Capi

open BigEndian Delivery

/-!
# Pixel formats of the C interface

Mirrors `pixel_format.zig`: the width of a sample, the size of a row and of a
whole buffer, and the byte orders of 16-bit and 32-bit samples.  The byte order of
the machine is a parameter.
-/

inductive JxlDataType where
  | float
  | uint8
  | uint16
  | float16
  deriving Repr, DecidableEq

inductive JxlEndianness where
  | native
  | little
  | big
  deriving Repr, DecidableEq

/-- The byte order of a machine. -/
inductive Endian where
  | little
  | big
  deriving Repr, DecidableEq

structure JxlPixelFormat where
  num_channels : Nat := 0
  data_type : JxlDataType := .uint8
  endianness : JxlEndianness := .native
  align : Nat := 0
  deriving Repr, DecidableEq

/-- `std.math.mul` for `usize`: no value where the product overflows. -/
def mathMul
    (first second : Nat) :
    Option Nat :=
  if first * second < 2 ^ 64 then some (first * second) else none

/-- `std.math.add` for `usize`. -/
def mathAdd
    (first second : Nat) :
    Option Nat :=
  if first + second < 2 ^ 64 then some (first + second) else none

/-- Every data type has a width, so the null of the source does not occur. -/
def bytesPerChannel : JxlDataType → Nat
  | .uint8 => 1
  | .uint16 => 2
  | .float16 => 2
  | .float => 4

def packedRowBytes
    (width : Nat)
    (format : JxlPixelFormat) :
    Option Nat := do
  let samples ← mathMul width format.num_channels
  mathMul samples (bytesPerChannel format.data_type)

def rowStrideBytes
    (width : Nat)
    (format : JxlPixelFormat) :
    Option Nat := do
  let row_bytes ← packedRowBytes width format
  let row_align := if format.align ≤ 1 then 1 else format.align
  let remainder := row_bytes % row_align
  if remainder = 0 then some row_bytes
  else mathAdd row_bytes (row_align - remainder)

/-- The byte order that a format stands for. -/
def actualEndian
    (builtinEndian : Endian) :
    JxlEndianness → Endian
  | .native => builtinEndian
  | .little => .little
  | .big => .big

/-- The bytes of a sample, put into big-endian order or taken from it. -/
def inOrder
    (builtinEndian : Endian)
    (endianness : JxlEndianness)
    (bytes : List UInt8) :
    List UInt8 :=
  match actualEndian builtinEndian endianness with
  | .little => bytes.reverse
  | .big => bytes

/-- `loadU16` of the two bytes `src[0..2]`. -/
def loadU16
    (builtinEndian : Endian)
    (src : List UInt8)
    (endianness : JxlEndianness) :
    Checked Nat := do
  require (2 ≤ src.length)
  return valueOf (inOrder builtinEndian endianness (src.take 2))

/-- The integer sample that starts at a byte of a buffer. -/
def sampleAt
    (builtinEndian : Endian)
    (format : JxlPixelFormat)
    (bytes : List UInt8)
    (position : Nat) :
    Nat :=
  valueOf
    (inOrder builtinEndian format.endianness
      (part bytes position (bytesPerChannel format.data_type)))

theorem mathMul_eq_some
    {first second result : Nat} :
    mathMul first second = some result ↔
      result = first * second ∧ first * second < 2 ^ 64 := by
  unfold mathMul
  split
  next fits =>
    rw [Option.some.injEq]
    exact ⟨fun same => ⟨same.symm, fits⟩, fun same => same.1.symm⟩
  next wide =>
    exact ⟨fun impossible => (by cases impossible), fun fits => absurd fits.2 wide⟩

theorem mathAdd_eq_some
    {first second result : Nat} :
    mathAdd first second = some result ↔
      result = first + second ∧ first + second < 2 ^ 64 := by
  unfold mathAdd
  split
  next fits =>
    rw [Option.some.injEq]
    exact ⟨fun same => ⟨same.symm, fits⟩, fun same => same.1.symm⟩
  next wide =>
    exact ⟨fun impossible => (by cases impossible), fun fits => absurd fits.2 wide⟩

theorem bytesPerChannel_pos
    (data_type : JxlDataType) :
    0 < bytesPerChannel data_type := by
  cases data_type <;> decide

theorem packedRowBytes_eq_some
    {width row_bytes : Nat}
    {format : JxlPixelFormat}
    (packed : packedRowBytes width format = some row_bytes) :
    row_bytes =
        width * (format.num_channels * bytesPerChannel format.data_type) ∧
      row_bytes < 2 ^ 64 := by
  unfold packedRowBytes at packed
  obtain ⟨samples, isSamples, isBytes⟩ := Option.bind_eq_some_iff.1 packed
  obtain ⟨rfl, _⟩ := mathMul_eq_some.1 isSamples
  obtain ⟨rfl, small⟩ := mathMul_eq_some.1 isBytes
  exact ⟨Nat.mul_assoc _ _ _, small⟩

/-- A stride holds the packed row. -/
theorem rowStrideBytes_eq_some
    {width stride : Nat}
    {format : JxlPixelFormat}
    (strided : rowStrideBytes width format = some stride) :
    ∃ row_bytes,
      packedRowBytes width format = some row_bytes ∧
        row_bytes ≤ stride ∧ stride < 2 ^ 64 := by
  unfold rowStrideBytes at strided
  obtain ⟨row_bytes, isPacked, strided⟩ := Option.bind_eq_some_iff.1 strided
  obtain ⟨_, small⟩ := packedRowBytes_eq_some isPacked
  refine ⟨row_bytes, isPacked, ?_⟩
  generalize (if format.align ≤ 1 then 1 else format.align) = row_align at strided
  dsimp only at strided
  split at strided
  next aligned =>
    cases strided
    exact ⟨Nat.le_refl _, small⟩
  next =>
    obtain ⟨rfl, fits⟩ := mathAdd_eq_some.1 strided
    exact ⟨Nat.le_add_right _ _, fits⟩

@[simp]
theorem length_inOrder
    (builtinEndian : Endian)
    (endianness : JxlEndianness)
    (bytes : List UInt8) :
    (inOrder builtinEndian endianness bytes).length = bytes.length := by
  unfold inOrder
  split
  · exact List.length_reverse
  · rfl

/-- The order does not matter for a single byte. -/
theorem inOrder_singleton
    (builtinEndian : Endian)
    (endianness : JxlEndianness)
    (byte : UInt8) :
    inOrder builtinEndian endianness [byte] = [byte] := by
  unfold inOrder
  split <;> rfl

end Jxlz.Capi
