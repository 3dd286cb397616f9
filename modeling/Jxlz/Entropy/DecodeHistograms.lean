import Jxlz.Entropy.HistogramBody
import Jxlz.Entropy.HuffmanDecode

namespace Jxlz

open AnsParams DecodeHistograms

/-!
# Entropy codes in the bitstream

Mirrors `decodeHistograms` of `dec_ans.zig` and `dec_context_map.zig`.  A code
with several contexts has a context map, which may be entropy-coded itself; its
code has one context, or two with LZ77, whose map then has a code without LZ77.
So the recursion is at most three levels deep.
-/

/-- The first symbol that starts a copy. -/
def readMinSymbol
    (selector : Nat)
    (br : BitReader) :
    Checked (Nat × BitReader) :=
  match selector with
  | 0 => return (224, br)
  | 1 => return (512, br)
  | 2 => return (4096, br)
  | _ => do
      let (bits, br) ← br.readBits 15
      return (bits + 8, br)

/-- The length of the shortest copy. -/
def readMinLength
    (selector : Nat)
    (br : BitReader) :
    Checked (Nat × BitReader) :=
  match selector with
  | 0 => return (3, br)
  | 1 => return (4, br)
  | 2 => do
      let (bits, br) ← br.readBits 2
      return (bits + 5, br)
  | _ => do
      let (bits, br) ← br.readBits 8
      return (bits + 9, br)

/-- Read LZ77 params from bitstream. -/
def LZ77Params.readFromBitStream
    (br : BitReader) :
    Checked (LZ77Params × BitReader) := do
  let (enabled, br) ← br.refill.readBits 1
  if enabled = 0 then
    return ({}, br)
  else
    let (sel0, br) ← br.refill.readBits 2
    let (minSymbol, br) ← readMinSymbol sel0 br
    let (sel1, br) ← br.refill.readBits 2
    let (minLength, br) ← readMinLength sel1 br
    return ({ enabled := true, minSymbol, minLength }, br)

/-- `max_clusters`. -/
def maxClusters : Nat := 256

/-- Every entry is below the number of histograms, and each of them is used. -/
def verifyContextMap
    (contextMap : List Nat)
    (numHtrees : Nat) :
    Checked Unit :=
  if ∃ htree ∈ contextMap, numHtrees ≤ htree then
    fail .InvalidContextMap
  else if contextMap.dedup.length ≠ numHtrees then
    fail .InvalidContextMap
  else
    return ()

/-- `moveToFront`: the value at the index comes first. -/
def moveToFront
    (values : List Nat)
    (position value : Nat) :
    List Nat :=
  value :: values.eraseIdx position

/-- One index of the inverse move-to-front transform. -/
def inverseMtfStep
    (state : List Nat × List Nat)
    (position : Nat) :
    Checked (List Nat × List Nat) := do
  let (mtf, data) := state
  let value ← index mtf position
  let mtf := if position ≠ 0 then moveToFront mtf position value else mtf
  return (mtf, data ++ [value])

/-- Applies the inverse move-to-front transform. -/
def inverseMoveToFrontTransform
    (data : List Nat) :
    Checked (List Nat) := do
  let (_, values) ← data.foldlM inverseMtfStep (List.range 256, [])
  return values

/-- Entries of a fixed width. -/
def readSimpleEntries
    (bitsPerEntry : Nat) :
    Nat → BitReader → Checked (List Nat × BitReader)
  | 0, br => return ([], br)
  | more + 1, br => do
      let (entry, br) ← br.readBits bitsPerEntry
      let (entries, br) ← readSimpleEntries bitsPerEntry more br
      return (entry :: entries, br)

/-- Entropy-coded entries, which are below 256. -/
def readCodedEntries
    (sinkCtxMap : List Nat) :
    Nat → ANSSymbolReader → BitReader →
      Checked (List Nat × ANSSymbolReader × BitReader)
  | 0, reader, br => return ([], reader, br)
  | more + 1, reader, br => do
      let (sym, reader, br) ← reader.readHybridUint 0 br sinkCtxMap
      if maxClusters ≤ sym then
        fail .GenericError
      else
        let (entries, reader, br) ← readCodedEntries sinkCtxMap more reader br
        return (sym :: entries, reader, br)

/-- The code of the entries and the entries, move-to-front or not. -/
def readCodedMap
    (decodeInner :
      BitReader → Bool → Checked (List Nat × ANSCode × BitReader))
    (size : Nat)
    (br : BitReader) :
    Checked (List Nat × BitReader) := do
  let (useMtf, br) ← br.readBits 1
  let (sinkCtxMap, code, br) ← decodeInner br (size ≤ 2)
  let (reader, br) ← ANSSymbolReader.create code br 0
  let (entries, reader, br) ← readCodedEntries sinkCtxMap size reader br
  if reader.checkANSFinalState = false then
    fail .GenericError
  else if useMtf ≠ 0 then
    let entries ← inverseMoveToFrontTransform entries
    return (entries, br)
  else
    return (entries, br)

/-- The entries of a context map in either form. -/
def readContextMap
    (decodeInner :
      BitReader → Bool → Checked (List Nat × ANSCode × BitReader))
    (size : Nat)
    (br : BitReader) :
    Checked (List Nat × BitReader) := do
  let (isSimple, br) ← br.readBits 1
  if isSimple ≠ 0 then
    let (bitsPerEntry, br) ← br.readBits 2
    if bitsPerEntry ≠ 0 then
      readSimpleEntries bitsPerEntry size br
    else
      return (List.replicate size 0, br)
  else
    readCodedMap decodeInner size br

/-- Decodes a context map and the number of histograms that it uses. -/
def decodeContextMapAlloc
    (decodeInner :
      BitReader → Bool → Checked (List Nat × ANSCode × BitReader))
    (size : Nat)
    (br : BitReader) :
    Checked ((List Nat × Nat) × BitReader) := do
  let (contextMap, br) ← readContextMap decodeInner size br
  let (within, br) := br.allReadsWithinBounds
  if within = false then
    fail .NotEnoughBytes
  else
    let numHtrees := contextMap.foldl max 0 + 1
    verifyContextMap contextMap numHtrees
    return ((contextMap, numHtrees), br)

/-- The alphabet sizes of the prefix codes. -/
def readAlphabetSizes
    (maxAlphabetSize : Nat) :
    Nat → BitReader → Checked (List Nat × BitReader)
  | 0, br => return ([], br)
  | more + 1, br => do
      let (bits, br) ← decodeVarLenUint16 br.refill
      let size ← castU 16 (bits + 1)
      if maxAlphabetSize < size then
        fail .GenericError
      else
        let (sizes, br) ← readAlphabetSizes maxAlphabetSize more br
        return (size :: sizes, br)

/-- A table and a degenerate symbol of each prefix code. -/
def readHuffmanTables :
    List Nat → BitReader →
      Checked (List (List HuffmanCode × Int) × BitReader)
  | [], br => return ([], br)
  | alphabetSize :: sizes, br =>
      if alphabetSize = 1 then do
        let (tables, br) ← readHuffmanTables sizes br
        return (([], 0) :: tables, br)
      else do
        match ← readFromBitStream alphabetSize br with
        | none => fail .GenericError
        | some (table, br) =>
            let (tables, br) ← readHuffmanTables sizes br
            return ((table, -1) :: tables, br)

/-- The prefix codes of all histograms. -/
def readPrefixCodes
    (numHistograms : Nat)
    (br : BitReader) :
    Checked (List (List HuffmanCode × Int) × BitReader) := do
  let (sizes, br) ← readAlphabetSizes (1 <<< prefixMaxBits) numHistograms br
  readHuffmanTables sizes br

/-- One ANS histogram, which is added to the code. -/
def readAnsHistogram
    (state : ANSCode × BitReader)
    (c : Nat) :
    Checked (ANSCode × BitReader) := do
  let (counts, br) ← readHistogram ansLogTabSize state.2.refill
  let code ← addAnsHistogram state.1 c counts
  return (code, br)

/-- The entropy code of all histograms, in either kind. -/
def readCodes
    (lz77 : LZ77Params)
    (numHistograms : Nat)
    (br : BitReader) :
    Checked (ANSCode × BitReader) := do
  let (usePrefixCode, br) ← br.readBits 1
  if usePrefixCode ≠ 0 then
    let (uintConfig, br) ←
      catchGeneric (decodeUintConfigs prefixMaxBits numHistograms br)
    let (tables, br) ← readPrefixCodes numHistograms br
    return (
      { huffmanData := tables.map Prod.fst
        uintConfig
        degenerateSymbols := tables.map Prod.snd
        usePrefixCode := true
        logAlphaSize := prefixMaxBits
        lz77 },
      br)
  else
    let (bits, br) ← br.readBits 2
    let logAlphaSize := bits + 5
    let (uintConfig, br) ←
      catchGeneric (decodeUintConfigs logAlphaSize numHistograms br)
    let memory := List.replicate (numHistograms * 1 <<< logAlphaSize) {}
    let (code, br) ←
      (List.range numHistograms).foldlM readAnsHistogram
        (ansCodeStart numHistograms uintConfig logAlphaSize memory, br)
    return ({ code with lz77 }, br)

/-- The configuration of the copy lengths, and the context of the distances. -/
def readLengthConfig
    (lz77 : LZ77Params)
    (numContexts : Nat)
    (br : BitReader) :
    Checked (LZ77Params × Nat × BitReader) := do
  if lz77.enabled then
    let (lengthUintConfig, br) ← catchGeneric (decodeUintConfig 8 br)
    return ({ lz77 with lengthUintConfig }, numContexts + 1, br)
  else
    return (lz77, numContexts, br)

/-- Small recursive context maps forbid LZ77 in their own entropy stream. -/
def decodeHistogramsWithLz77Policy :
    Nat → Nat → BitReader → Bool → Checked (List Nat × ANSCode × BitReader)
  | 0, _, _, _ => .error .running
  | depth + 1, numContextsIn, br, disallowLz77 => do
      let (lz77, br) ← LZ77Params.readFromBitStream br
      let (within, br) := br.allReadsWithinBounds
      if within = false then
        fail .NotEnoughBytes
      else if disallowLz77 ∧ lz77.enabled then
        fail .InvalidContextMap
      else
        let (lz77, numContexts, br) ← readLengthConfig lz77 numContextsIn br
        let ((contextMap, numHistograms), br) ←
          (if 1 < numContexts then
            decodeContextMapAlloc (decodeHistogramsWithLz77Policy depth 1)
              numContexts br
          else
            .ok ((List.replicate numContexts 0, 1), br))
        let last ← subU numContexts 1
        let nonserializedDistanceContext ← index contextMap last
        let (code, br) ←
          readCodes { lz77 with nonserializedDistanceContext } numHistograms br
        return (contextMap, code, br)

/-- How deep a code, the code of its map and the code of that one's map are. -/
def maxCodeDepth : Nat := 3

/--
Reads LZ77 params, context map, uint configs and per-histogram codes.  Returns
the context map and the code.
-/
def decodeHistograms
    (numContexts : Nat)
    (br : BitReader) :
    Checked (List Nat × ANSCode × BitReader) :=
  decodeHistogramsWithLz77Policy maxCodeDepth numContexts br false

end Jxlz
