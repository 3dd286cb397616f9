import Jxlz.Codec.FieldCoders
import Jxlz.Codec.LehmerCode
import Jxlz.Entropy.DecodeHistograms

namespace Jxlz

/-!
# The table of contents

Mirrors `toc.zig`: the sizes of the sections in the order of the file, and a
permutation from that order to the logical one.
-/

namespace Toc

/-- `kTocDist`. -/
def kTocDist : U32Enc where
  d0 := bits 10
  d1 := bitsOffset 14 1024
  d2 := bitsOffset 22 17408
  d3 := bitsOffset 30 4211712

def kPermutationContexts : Nat := 8

def kMaxPermutationSize : Nat := 65536

/-- The size of a section and the section that stands there. -/
structure TocEntry where
  size : Nat := 0
  id : Nat := 0
  deriving Repr, DecidableEq

/-- Compute permutation context from value. -/
def coeffOrderContext
    (val : Nat) :
    Nat :=
  min (HybridUintConfig.initZero.encode val).token (kPermutationContexts - 1)

/-- The contexts of the digits, and that of the distances with LZ77. -/
def permutationMapSize
    (reader : ANSSymbolReader) :
    Nat :=
  kPermutationContexts + if reader.lz77Window.isSome then 1 else 0

/-- What the loop over the digits has read. -/
structure Digits where
  lehmer : List Nat
  last : Nat := 0
  reader : ANSSymbolReader
  br : BitReader

/-- One digit of the Lehmer code; digit `i` is below `size - i`. -/
def readDigit
    (size : Nat)
    (contextMap : List Nat)
    (self : Digits)
    (i : Nat) :
    Checked Digits := do
  let (rank, reader, br) ←
    self.reader.readHybridUint (coeffOrderContext self.last) self.br contextMap
  let (within, br) := br.allReadsWithinBounds
  if within = false then
    fail .NotEnoughBytes
  else
    let left ← subU size i
    if left ≤ rank then
      fail .GenericError
    else
      let last ← castU 32 rank
      require (i < self.lehmer.length)
      return { lehmer := self.lehmer.set i last, last, reader, br }

/--
Read one permutation from a borrowed entropy stream into a destination of
`output` entries; without a destination its digits are only checked.
-/
def readPermutation
    (skip size : Nat)
    (output : Option Nat)
    (br : BitReader)
    (reader : ANSSymbolReader)
    (contextMap : List Nat) :
    Checked (Option (List Nat) × ANSSymbolReader × BitReader) := do
  if size = 0 ∨ kMaxPermutationSize < size ∨ size < skip ∨
      contextMap.length ≠ permutationMapSize reader then
    fail .GenericError
  else if output.isSome ∧ output ≠ some size then
    fail .GenericError
  else
    let (count, reader, br) ←
      reader.readHybridUint (coeffOrderContext size) br contextMap
    let (within, br) := br.allReadsWithinBounds
    if within = false then
      fail .NotEnoughBytes
    else if size - skip < count then
      fail .GenericError
    else
      let digits ←
        (List.range' skip count).foldlM (readDigit size contextMap)
          { lehmer := List.replicate size 0, reader, br }
      if output.isSome then
        let temp := List.replicate (1 <<< ceilLog2Nonzero size) 0
        let permutation ← decodeLehmerCode digits.lehmer temp size
        return (some permutation, digits.reader, digits.br)
      else
        return (none, digits.reader, digits.br)

/-- Decode a standalone ANS permutation, as used by the TOC. -/
def decodePermutation
    (skip size : Nat)
    (br : BitReader) :
    Checked (Option (List Nat) × BitReader) := do
  if size = 0 ∨ kMaxPermutationSize < size ∨ size < skip then
    fail .GenericError
  else
    let (contexts, code, br) ← decodeHistograms kPermutationContexts br
    let (reader, br) ← ANSSymbolReader.create code br 0
    let (permutation, reader, br) ←
      readPermutation skip size (some size) br reader contexts
    if reader.checkANSFinalState = false then
      fail .GenericError
    else
      return (permutation, br)

/-- The permutation of the sections, if there is one, and its padding. -/
def readOrder
    (tocEntries : Nat)
    (br : BitReader) :
    Checked (Option (List Nat) × BitReader) := do
  let (permuted, br) ← br.readBits 1
  let (permutation, br) ←
    (if permuted = 1 then decodePermutation 0 tocEntries br else .ok (none, br))
  let br ← br.jumpToByteBoundary
  return (permutation, br)

/-- The sizes of the sections, in the order of the file. -/
def readSizes :
    Nat → BitReader → Checked (List Nat × BitReader)
  | 0, br => return ([], br)
  | more + 1, br => do
      let (size, br) ← U32Coder.read kTocDist br
      let (sizes, br) ← readSizes more br
      return (size :: sizes, br)

/-- Where the permutation puts a section; without one it stays in place. -/
def placeOf
    (permutation : Option (List Nat))
    (i : Nat) :
    Checked Nat :=
  match permutation with
  | none => return i
  | some permutation => index permutation i

/-- One entry: its size, and its place as the id of a logical section. -/
def attachEntry
    (permutation : Option (List Nat))
    (sizes : List Nat)
    (toc : List TocEntry)
    (i : Nat) :
    Checked (List TocEntry) := do
  let size ← index sizes i
  let entry ← index toc i
  let toc := toc.set i { entry with size }
  let place ← placeOf permutation i
  if toc.length ≤ place then
    fail .GenericError
  else
    let target ← index toc place
    return toc.set place { target with id := i }

/-- Read TOC (Table of Contents) from bitstream. -/
def readToc
    (tocEntries : Nat)
    (br : BitReader) :
    Checked (List TocEntry × BitReader) := do
  if 65536 < tocEntries then
    fail .GenericError
  else if tocEntries = 0 then
    fail .GenericError
  else
    let (permutation, br) ← readOrder tocEntries br
    let (sizes, br) ← readSizes tocEntries br
    let br ← br.jumpToByteBoundary
    let toc ←
      (List.range tocEntries).foldlM (attachEntry permutation sizes)
        (List.replicate tocEntries {})
    return (toc, br)

end Toc

end Jxlz
