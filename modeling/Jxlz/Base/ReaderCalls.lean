import Jxlz.Base.BitReader
import Jxlz.Lib.Agree

namespace Jxlz

open BitString

/-!
# The bit reader as a cursor over a bit list

A `Cursor` is all that a caller needs to know of a `BitReader`: how many bits
were consumed or skipped, and at which of them the bounds were last checked.
`Tracks` relates the two, and each call on the reader answers what the same
call on the cursor answers.  A skip past the end loses count of the bits, but
then both positions lie behind the data and differ by whole bytes.
-/

namespace BitReader

/-- A buffer that was emptied in front of any byte. -/
theorem Coherent.empty
    {data : List UInt8}
    {pos overreadBytes : Nat}
    (inRange : pos ≤ data.length)
    (overreadAtEnd : 0 < overreadBytes → pos = data.length) :
    Coherent data 0 0 pos overreadBytes where
  bitsInRange := by decide
  bufInRange := by decide
  posInRange := inRange
  overreadAtEnd := overreadAtEnd
  loaded := Nat.zero_le _
  counted := by
    intro offset below
    cases below
  prefetched := by
    intro offset _ set
    simp at set

/-- The reader with its buffer emptied, `wholeBytes` further in the data. -/
def discard
    (self : BitReader)
    (wholeBytes : Nat)
    (inside : wholeBytes ≤ self.data.length - self.pos) :
    BitReader :=
  { self with
    buf := 0
    bitsInBuf := 0
    pos := self.pos + wholeBytes
    coherent :=
      Coherent.empty
        (by
          have inRange := self.coherent.posInRange
          omega)
        (by
          have inRange := self.coherent.posInRange
          have atEnd := self.coherent.overreadAtEnd
          omega) }

/-- Skip bits; a skip past the end stops there, one byte and a part of it on. -/
def skipBits
    (self : BitReader)
    (skipParam : Nat) :
    Checked BitReader := do
  require (self.closeCalled = false)
  if skipParam ≤ self.bitsInBuf then
    self.consume skipParam
  else
    let skip := skipParam - self.bitsInBuf
    let wholeBytes := skip / 8
    if inside : wholeBytes ≤ self.data.length - self.pos then
      (self.discard wholeBytes inside).refill.consume (skip % 8)
    else
      (self.discard (self.data.length - self.pos) (Nat.le_refl _)).refill.consume
        (skip % 8 + 8)

/-- Close the reader: an overread that was not checked before is an error. -/
def close
    (self : BitReader) :
    Checked BitReader := do
  require (self.closeCalled = false)
  let closed := { self with closeCalled := true }
  if self.data.length = 0 ∧ self.pos = 0 then
    return closed
  if self.totalBitsConsumed > self.checkedOutOfBoundsBits ∧
      self.totalBitsConsumed > self.totalBytes * 8 then
    fail .NotEnoughBytes
  else
    return closed

/-- The padding up to a byte boundary, and the reader behind it. -/
def readPadding
    (self : BitReader) :
    Checked (Nat × BitReader) := do
  let remainder := self.totalBitsConsumed % 8
  if remainder = 0 then
    return (0, self)
  self.readBits (8 - remainder)

/-- A call on an open reader. -/
inductive Call where
  | refill
  | peekBits (nbits : Nat)
  | consume (numBits : Nat)
  | readBits (nbits : Nat)
  | skipBits (skip : Nat)
  | jumpToByteBoundary
  | allReadsWithinBounds
  deriving Repr, DecidableEq

/-- What a call returns. -/
inductive Answer where
  | done
  | bits (value : Nat)
  | refused (code : JxlError)
  | within (inBounds : Bool)
  deriving Repr, DecidableEq

/-- What a jump over the given padding returns. -/
def jumped
    (padding : Nat) :
    Answer :=
  if padding ≠ 0 then .refused .NonzeroPadding else .done

/-- A call, its answer and the reader it leaves. -/
def call
    (self : BitReader) :
    Call → Checked (Answer × BitReader)
  | .refill => return (.done, self.refill)
  | .peekBits nbits => do
      let bits ← self.peekBits nbits
      return (.bits bits, self)
  | .consume numBits => do
      let after ← self.consume numBits
      return (.done, after)
  | .readBits nbits => do
      let (bits, after) ← self.readBits nbits
      return (.bits bits, after)
  | .skipBits skip => do
      let after ← self.skipBits skip
      return (.done, after)
  | .jumpToByteBoundary => do
      let (padding, after) ← self.readPadding
      return (jumped padding, after)
  | .allReadsWithinBounds =>
      return (.within self.allReadsWithinBounds.1, self.allReadsWithinBounds.2)

/-- The asserted limits: 56 bits a peek, and no more consumed than buffered. -/
def Asserts
    (self : BitReader) :
    Call → Prop
  | .peekBits nbits => nbits ≤ kMaxBitsPerCall
  | .consume numBits => numBits ≤ self.bitsInBuf
  | .readBits nbits => nbits ≤ kMaxBitsPerCall
  | _ => True

/-- The asserted limits, and no peek at more bits than are buffered. -/
def Buffers
    (self : BitReader)
    (call : Call) :
    Prop :=
  self.Asserts call ∧ ∀ nbits, call = .peekBits nbits → nbits ≤ self.bitsInBuf

end BitReader

/-- A position in the bits of a byte string and the last checked position. -/
structure Cursor where
  consumed : Nat := 0
  recorded : Nat := 0
  deriving Repr, DecidableEq

namespace Cursor

open BitReader

/-- The next bits of the data as a number; past the end they are zero. -/
def next
    (data : List UInt8)
    (self : Cursor)
    (nbits : Nat) :
    Nat :=
  valueAt (advance (bitAt data) self.consumed) nbits

/-- The number of bits up to a byte boundary. -/
def padding
    (self : Cursor) :
    Nat :=
  (8 - self.consumed % 8) % 8

/-- The cursor after `amount` more bits. -/
def forward
    (self : Cursor)
    (amount : Nat) :
    Cursor :=
  { self with consumed := self.consumed + amount }

/-- A call on the bit list. -/
def call
    (data : List UInt8)
    (self : Cursor) :
    Call → Checked (Answer × Cursor)
  | .refill => .ok (.done, self)
  | .peekBits nbits => .ok (.bits (self.next data nbits), self)
  | .consume numBits => .ok (.done, self.forward numBits)
  | .readBits nbits => .ok (.bits (self.next data nbits), self.forward nbits)
  | .skipBits skip => .ok (.done, self.forward skip)
  | .jumpToByteBoundary =>
      .ok (jumped (self.next data self.padding), self.forward self.padding)
  | .allReadsWithinBounds =>
      .ok (.within (decide (self.consumed ≤ 8 * data.length)),
        { self with recorded := self.consumed })

end Cursor

end Jxlz
