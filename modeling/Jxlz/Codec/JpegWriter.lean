import Jxlz.Codec.JpegReconstruction

namespace Jxlz.JpegWriter

open JpegReconstruction (Data Huffman)

/-!
# Writing JPEG tables

Mirrors the parts of `jpeg_writer.zig` that write Huffman tables and keep them for
coding.
-/

/-- The length and the word of the code of each symbol; length zero is no code. -/
structure Table where
  depths : List Nat := List.replicate 256 0
  codes : List Nat := List.replicate 256 0
  deriving Repr, DecidableEq

structure State where
  out : List UInt8 := []
  tables : List Table := List.replicate 8 {}
  deriving Repr, DecidableEq

/-- `word`: two bytes, the high one first. -/
def word
    (out : List UInt8)
    (value : Nat) :
    Checked (List UInt8) :=
  if 65535 < value then
    fail .GenericError
  else
    return out ++ [UInt8.ofNat (value >>> 8), UInt8.ofNat value]

/-- A marker and a length that is not known yet; where the length stands. -/
def segment
    (out : List UInt8)
    (value : Nat) :
    Checked (List UInt8 × Nat) := do
  let out := out ++ [255, UInt8.ofNat value]
  let start := out.length
  let out ← word out 0
  return (out, start)

/-- The length of the segment that ends here. -/
def endSegment
    (out : List UInt8)
    (start : Nat) :
    Checked (List UInt8) := do
  let size ← subU out.length start
  if 65535 < size then
    fail .GenericError
  else
    let high ← castU 8 (size >>> 8)
    let out ← store out start (UInt8.ofNat high)
    store out (start + 1) (UInt8.ofNat size)

/-- The output, the table, the next symbol and the next word of a code. -/
structure Coding where
  out : List UInt8
  table : Table
  pos : Nat
  code : Nat

/-- The next symbol gets the next word of a length. -/
def codeSymbol
    (huff : Huffman)
    (length : Nat)
    (self : Coding) :
    Checked Coding := do
  let value ← index huff.values self.pos
  if 256 ≤ value ∨ 1 <<< length ≤ self.code then
    fail .GenericError
  else
    let depth ← castU 5 length
    let depths ← store self.table.depths value depth
    let word ← castU 16 self.code
    let codes ← store self.table.codes value word
    let code ← addU 32 self.code 1
    return { self with table := { depths, codes }, pos := self.pos + 1, code }

/-- The count of a length, and its words; the longest length has one word less. -/
def codeLength
    (huff : Huffman)
    (last : Nat)
    (self : Coding)
    (length : Nat) :
    Checked Coding := do
  let held ← index huff.counts length
  let count ← subU held (if length = last then 1 else 0)
  if 255 < count then
    fail .GenericError
  else
    let self := { self with out := self.out ++ [UInt8.ofNat count] }
    let self ←
      (List.range count).foldlM (fun self _ => codeSymbol huff length self) self
    return { self with code := shlU 32 self.code 1 }

/-- The number of symbols, and the largest index of a count that is not zero. -/
def totals
    (counts : List Nat) :
    Nat × Nat :=
  counts.zipIdx.foldl
    (fun (total, last) (count, i) => (total + count, if count ≠ 0 then i else last))
    (0, 0)

/-- The table that a slot id names: the tables of AC codes come behind those of DC. -/
def tableSlot
    (slot_id : Nat) :
    Nat :=
  (slot_id &&& 3) + if slot_id &&& 16 ≠ 0 then 4 else 0

/-- A table, written and kept; an empty one is left out. -/
def huffman
    (self : State)
    (huff : Huffman) :
    Checked State := do
  let (total, last) := totals huff.counts
  if total = 0 then
    return self
  else if 257 < total ∨ last = 0 then
    fail .GenericError
  else
    let slot := tableSlot huff.slot_id
    let slotByte ← castU 8 huff.slot_id
    let start : Coding := {
      out := self.out ++ [UInt8.ofNat slotByte]
      table := {}
      pos := 0
      code := 0 }
    let coding ← (List.range' 1 16).foldlM (codeLength huff last) start
    let tables ← store self.tables slot coding.table
    require (total - 1 ≤ huff.values.length)
    let out ←
      (huff.values.take (total - 1)).foldlM
        (fun out value =>
          if 256 ≤ value then fail .GenericError else return out ++ [UInt8.ofNat value])
        coding.out
    return { self with out, tables }

/-- The tables of one marker, from a number on; so many codes are left. -/
def huffmans
    (data : Data) :
    Nat → Nat → State → Checked (Nat × State)
  | 0, _, _ => fail .GenericError
  | left + 1, number, self => do
      let entry ← index data.huffman number
      let self ← huffman self entry
      if entry.is_last then
        return (number + 1, self)
      else
        huffmans data left (number + 1) self

/-- The segment of a DHT marker, written when so many codes have been used before. -/
def writeDht
    (data : Data)
    (number : Nat)
    (self : State) :
    Checked (Nat × State) := do
  let (out, start) ← segment self.out 0xc4
  let (number, self) ←
    huffmans data (data.huffman.length - number) number { self with out }
  let out ← endSegment self.out start
  return (number, { self with out })

end Jxlz.JpegWriter
