import Jxlz.Entropy.HistogramFields
import Jxlz.Entropy.NormalizeCounts

namespace Jxlz

/-!
# The body of a histogram

Normalized counts are sent in one of three forms.  A small code names the one
or two symbols that occur; a flat histogram is only its size; the general form
gives the bit width of every count, with runs of equal counts folded, and then
the digits below the leading one.  One count is left out of it: the decoder
gives it what the others leave of the total.
-/

/-- `getPopulationCountPrecision`: the digits that a count of this size keeps. -/
def getPopulationCountPrecision
    (logcount shift : Nat) :
    Nat :=
  let dropped := (AnsParams.ansLogTabSize - logcount) >>> 1
  (min (logcount : Int) ((shift : Int) - dropped)).toNat

/-- One more for the first symbols of a flat histogram. -/
def addOne
    (counts : List Nat)
    (i : Nat) :
    Checked (List Nat) := do
  let count ← index counts i
  return counts.set i (count + 1)

/-- Positive counts that differ by at most one, the bigger ones first. -/
def createFlatHistogram
    (length totalCount : Nat) :
    Checked (List Nat) := do
  require (0 < length)
  require (length ≤ totalCount)
  let result := List.replicate length (totalCount / length)
  (List.range (totalCount % length)).foldlM addOne result

/-- `kMaxNumSymbolsForSmallCode`. -/
def kMaxNumSymbolsForSmallCode : Nat := 2

/-- `kBitWidthLengths`. -/
def kBitWidthLengths : List Nat :=
  [5, 4, 4, 4, 4, 4, 3, 3, 3, 3, 3, 6, 7, 7]

/-- `kBitWidthSymbols`. -/
def kBitWidthSymbols : List Nat :=
  [17, 11, 15, 3, 9, 7, 4, 2, 5, 6, 0, 33, 1, 65]

/-- `kMinReps`. -/
def kMinReps : Nat := 5

/-- `kRepCode`. -/
def kRepCode : Nat := AnsParams.ansLogTabSize + 1

/-- `kExactHistogramShift`. -/
def kExactHistogramShift : Nat := AnsParams.ansLogTabSize - 1

/-- `kExactHistogramMethod`. -/
def kExactHistogramMethod : Nat := kExactHistogramShift + 1

/-- Whether the counts are those of a flat histogram. -/
def isFlatHistogram
    (counts : List Nat) :
    Bool :=
  let alphabetSize := trimmedAlphabetSizeForCounts counts
  if alphabetSize = 0 then
    false
  else
    let base := AnsParams.ansTabSize / alphabetSize
    let rem := AnsParams.ansTabSize % alphabetSize
    (counts.take alphabetSize).zipIdx.all
      (fun (count, i) => count == base + (decide (i < rem)).toNat)

/-- The first of the largest counts. -/
def chooseOmitPosition
    (counts : List Nat) :
    Nat :=
  let (omitPos, _) :=
    counts.zipIdx.foldl
      (fun (omitPos, maxCount) (count, i) =>
        if maxCount < count then (i, count) else (omitPos, maxCount))
      (0, 0)
  omitPos

/-- The end of a unary number that has not reached its bound. -/
def writeLogStop
    (log upperBoundLog : Nat)
    (writer : BitWriter) :
    Checked BitWriter :=
  if log ≠ upperBoundLog then writer.write 1 0 else .ok writer

/-- Writes how many digits of the counts are kept. -/
def writeHistogramMethod
    (method : Nat)
    (writer : BitWriter) :
    Checked BitWriter := do
  let upperBoundLog := (AnsParams.ansLogTabSize + 1).log2
  let log := method.log2
  let writer ← writer.write log (1 <<< log - 1)
  let writer ← writeLogStop log upperBoundLog writer
  writer.write log ((1 <<< log - 1) &&& method)

namespace WriteHistogramBody

/-- Counts a symbol that occurs; the first two are remembered. -/
def noteSymbol
    (state : Nat × List Nat)
    (item : Nat × Nat) :
    Checked (Nat × List Nat) := do
  let (numSymbols, symbols) := state
  let (count, i) := item
  if 0 < count then
    if numSymbols < kMaxNumSymbolsForSmallCode then
      let symbol ← castU 8 i
      return (numSymbols + 1, symbols ++ [symbol])
    else
      return (numSymbols + 1, symbols)
  else
    return (numSymbols, symbols)

/-- The form for one or two symbols. -/
def writeSmallCode
    (counts : List Nat)
    (numSymbols : Nat)
    (symbols : List Nat)
    (writer : BitWriter) :
    Checked BitWriter := do
  let writer ← writer.write 1 1
  let first ← index symbols 0
  if numSymbols = 1 then
    let writer ← writer.write 1 0
    storeVarLenUint8 first writer
  else
    let writer ← writer.write 1 1
    let writer ← storeVarLenUint8 first writer
    let second ← index symbols 1
    let writer ← storeVarLenUint8 second writer
    let count ← index counts first
    writer.write AnsParams.ansLogTabSize count

/-- The form for a flat histogram. -/
def writeFlat
    (alphabetSize : Nat)
    (writer : BitWriter) :
    Checked BitWriter := do
  let writer ← writer.write 1 0
  let writer ← writer.write 1 1
  let last ← castU 8 (alphabetSize - 1)
  storeVarLenUint8 last writer

/--
Whether a run ends before position `i`.  The omitted count is a run of its own;
the positions are in range where the counts are compared.
-/
def endsRun
    (counts : List Nat)
    (omitPos i last : Nat) :
    Prop :=
  i = counts.length ∨ i = omitPos ∨ i = omitPos + 1 ∨
    counts.getD i 0 ≠ counts.getD last 0

instance
    (counts : List Nat)
    (omitPos i last : Nat) :
    Decidable (endsRun counts omitPos i last) :=
  inferInstanceAs (Decidable (_ ∨ _ ∨ _ ∨ _))

/-- One round of the loop that notes the length of a run at its first position. -/
def markRun
    (counts : List Nat)
    (omitPos : Nat)
    (state : List Nat × Nat)
    (round : Nat) :
    Checked (List Nat × Nat) := do
  let i := round + 1
  let (same, last) := state
  if endsRun counts omitPos i last then
    let length ← castU 8 (i - last)
    require (last < same.length)
    return (same.set last length, i)
  else
    return (same, last)

/-- One round of the loop over the widths. -/
def setWidth
    (omitPos : Nat)
    (state : List Nat × Nat)
    (item : Nat × Nat) :
    List Nat × Nat :=
  let (bitWidth, omitWidth) := state
  let (count, idx) := item
  if idx = omitPos ∨ count = 0 then
    (bitWidth, omitWidth)
  else
    let width := count.log2 + 1
    let candidate := width + (decide (idx < omitPos)).toNat
    (bitWidth.set idx width, max omitWidth candidate)

/-- The code of a bit width, or of a repetition. -/
def writeWidth
    (width : Nat)
    (writer : BitWriter) :
    Checked BitWriter := do
  let length ← index kBitWidthLengths width
  let symbol ← index kBitWidthSymbols width
  writer.write length symbol

/-- The loop that writes the widths; a long run is skipped. -/
def writeWidths
    (bitWidth same : List Nat)
    (alphabetSize i : Nat)
    (writer : BitWriter) :
    Checked BitWriter := do
  if i < alphabetSize then
    let width ← index bitWidth i
    let writer ← writeWidth width writer
    let run ← index same i
    if long : kMinReps ≤ run then
      let writer ← writeWidth kRepCode writer
      let writer ← storeVarLenUint8 (run - kMinReps) writer
      writeWidths bitWidth same alphabetSize (i + run) writer
    else
      writeWidths bitWidth same alphabetSize (i + 1) writer
  else
    return writer
termination_by alphabetSize - i
decreasing_by
  · simp only [kMinReps] at long
    omega
  · omega

/-- The digits of one count below the leading one. -/
def writeDigits
    (counts : List Nat)
    (omitPos i width : Nat)
    (writer : BitWriter) :
    Checked BitWriter := do
  if 1 < width ∧ i ≠ omitPos then
    let bitcount := getPopulationCountPrecision (width - 1) kExactHistogramShift
    let dropBits ← subU (width - 1) bitcount
    let count ← index counts i
    let digits ← subU (count >>> dropBits) (1 <<< bitcount)
    writer.write bitcount digits
  else
    return writer

/-- The loop that writes the digits; a long run is skipped. -/
def writeAllDigits
    (counts bitWidth same : List Nat)
    (omitPos i : Nat)
    (writer : BitWriter) :
    Checked BitWriter := do
  if i < counts.length then
    let width ← index bitWidth i
    let writer ← writeDigits counts omitPos i width writer
    let run ← index same i
    if long : kMinReps ≤ run then
      writeAllDigits counts bitWidth same omitPos (i + run) writer
    else
      writeAllDigits counts bitWidth same omitPos (i + 1) writer
  else
    return writer
termination_by counts.length - i
decreasing_by
  · simp only [kMinReps] at long
    omega
  · omega

/-- The general form. -/
def writeGeneral
    (counts : List Nat)
    (writer : BitWriter) :
    Checked BitWriter := do
  let alphabetSize := counts.length
  let writer ← writer.write 1 0
  let writer ← writer.write 1 0
  let writer ← writeHistogramMethod kExactHistogramMethod writer
  let size ← castU 8 (alphabetSize - 3)
  let writer ← storeVarLenUint8 size writer
  let omitPos := chooseOmitPosition counts
  let (same, _) ←
    (List.range alphabetSize).foldlM (markRun counts omitPos)
      (List.replicate AnsParams.ansMaxAlphabetSize 0, 0)
  let (bitWidth, omitWidth) :=
    counts.zipIdx.foldl (setWidth omitPos)
      (List.replicate AnsParams.ansMaxAlphabetSize 0, 10)
  let bitWidth := bitWidth.set omitPos omitWidth
  let writer ← writeWidths bitWidth same alphabetSize 0 writer
  writeAllDigits counts bitWidth same omitPos 0 writer

end WriteHistogramBody

open WriteHistogramBody in
/-- Writes the counts up to the last one that is not zero. -/
def writeNormalizedHistogramBody
    (normalizedCounts : List Nat)
    (writer : BitWriter) :
    Checked BitWriter := do
  let alphabetSize := trimmedAlphabetSizeForCounts normalizedCounts
  if alphabetSize = 0 ∨ AnsParams.ansMaxAlphabetSize < alphabetSize then
    fail .GenericError
  else
    let counts := normalizedCounts.take alphabetSize
    let (numSymbols, symbols) ← counts.zipIdx.foldlM noteSymbol (0, [])
    if numSymbols = 0 then
      fail .GenericError
    else if numSymbols ≤ kMaxNumSymbolsForSmallCode then
      writeSmallCode counts numSymbols symbols writer
    else if isFlatHistogram counts then
      writeFlat alphabetSize writer
    else
      writeGeneral counts writer

namespace ReadHistogram

/-- The table for the codes of the widths: code length and width. -/
def huff : List (Nat × Nat) :=
  [
    (3, 10), (7, 12), (3, 7), (4, 3), (3, 6), (3, 8), (3, 9), (4, 5),
    (3, 10), (4, 4), (3, 7), (4, 1), (3, 6), (3, 8), (3, 9), (4, 2),
    (3, 10), (5, 0), (3, 7), (4, 3), (3, 6), (3, 8), (3, 9), (4, 5),
    (3, 10), (4, 4), (3, 7), (4, 1), (3, 6), (3, 8), (3, 9), (4, 2),
    (3, 10), (6, 11), (3, 7), (4, 3), (3, 6), (3, 8), (3, 9), (4, 5),
    (3, 10), (4, 4), (3, 7), (4, 1), (3, 6), (3, 8), (3, 9), (4, 2),
    (3, 10), (5, 0), (3, 7), (4, 3), (3, 6), (3, 8), (3, 9), (4, 5),
    (3, 10), (4, 4), (3, 7), (4, 1), (3, 6), (3, 8), (3, 9), (4, 2),
    (3, 10), (7, 13), (3, 7), (4, 3), (3, 6), (3, 8), (3, 9), (4, 5),
    (3, 10), (4, 4), (3, 7), (4, 1), (3, 6), (3, 8), (3, 9), (4, 2),
    (3, 10), (5, 0), (3, 7), (4, 3), (3, 6), (3, 8), (3, 9), (4, 5),
    (3, 10), (4, 4), (3, 7), (4, 1), (3, 6), (3, 8), (3, 9), (4, 2),
    (3, 10), (6, 11), (3, 7), (4, 3), (3, 6), (3, 8), (3, 9), (4, 5),
    (3, 10), (4, 4), (3, 7), (4, 1), (3, 6), (3, 8), (3, 9), (4, 2),
    (3, 10), (5, 0), (3, 7), (4, 3), (3, 6), (3, 8), (3, 9), (4, 5),
    (3, 10), (4, 4), (3, 7), (4, 1), (3, 6), (3, 8), (3, 9), (4, 2)
  ]

/-- The form for one or two symbols. -/
def readSmallCode
    (precisionBits : Nat)
    (br : BitReader) :
    Checked (List Nat × BitReader) := do
  let range := 1 <<< precisionBits
  let (more, br) ← br.readBits 1
  let (first, br) ← decodeVarLenUint8 br
  if more + 1 = 1 then
    return ((List.replicate (first + 1) 0).set first range, br)
  else
    let (second, br) ← decodeVarLenUint8 br
    if first = second then
      fail .GenericError
    else
      let (count, br) ← br.readBits precisionBits
      let counts := List.replicate (max first second + 1) 0
      return ((counts.set first count).set second (range - count), br)

/-- A unary number with a bound. -/
def readLog :
    Nat → Nat → BitReader → Checked (Nat × BitReader)
  | 0, log, br => return (log, br)
  | more + 1, log, br => do
      let (bit, br) ← br.readBits 1
      if bit = 0 then
        return (log, br)
      else
        readLog more (log + 1) br

/-- What the loop over the widths finds. -/
structure Logcounts where
  logcounts : List Int
  same : List Nat
  omitLog : Int := -1
  omitPos : Option Nat := none
  deriving Repr, DecidableEq

/-- Notes a width; the first of the largest ones is the omitted count's. -/
def Logcounts.note
    (state : Logcounts)
    (i : Nat)
    (logcount : Int) :
    Logcounts :=
  let logcounts := state.logcounts.set i logcount
  if state.omitLog < logcount then
    { state with logcounts, omitLog := logcount, omitPos := some i }
  else
    { state with logcounts }

/-- The code of one width. -/
def readWidth
    (br : BitReader) :
    Checked (Nat × BitReader) := do
  let br := br.refill
  let idx ← br.peekBits 7
  let (length, width) ← index huff idx
  let br ← br.consume length
  return (width, br)

/-- The loop over the widths; a repetition skips the positions it stands for. -/
def readLogcounts
    (length i : Nat)
    (state : Logcounts)
    (br : BitReader) :
    Checked (Logcounts × BitReader) := do
  if i < length then
    let (width, br) ← readWidth br
    let logcount := (width : Int) - 1
    if logcount = AnsParams.ansLogTabSize then
      let (rleLength, br) ← decodeVarLenUint8 br
      let repeated := {
        state with
        logcounts := state.logcounts.set i logcount
        same := state.same.set i (rleLength + 5) }
      readLogcounts length (i + rleLength + 3 + 1) repeated br
    else
      readLogcounts length (i + 1) (state.note i logcount) br
  else
    return (state, br)
termination_by length - i

/-- The state of the loop over the counts. -/
structure Counts where
  counts : List Nat
  prev : Nat := 0
  numsame : Nat := 0
  totalCount : Nat := 0
  deriving Repr, DecidableEq

/-- A repetition starts after the count that it repeats. -/
def Counts.startRun
    (state : Counts)
    (same i : Nat) :
    Counts :=
  if same ≠ 0 then
    { state with
      numsame := same - 1
      prev := if 0 < i then state.counts.getD (i - 1) 0 else 0 }
  else
    state

/-- A symbol gets its count, which adds to the total. -/
def Counts.add
    (state : Counts)
    (i count : Nat) :
    Counts :=
  { state with
    counts := state.counts.set i count
    totalCount := state.totalCount + count }

/-- A symbol gets the repeated count. -/
def Counts.repeatPrev
    (state : Counts)
    (i : Nat) :
    Counts :=
  { state.add i state.prev with numsame := state.numsame - 1 }

/-- A count of which the bit width is known. -/
def readCount
    (shift code : Nat)
    (br : BitReader) :
    Checked (Nat × BitReader) := do
  if shift = 0 ∨ code = 0 then
    return (1 <<< code, br)
  else
    let bitcount := getPopulationCountPrecision code shift
    let (digits, br) ← br.readBits bitcount
    return (1 <<< code + digits <<< (code - bitcount), br)

/-- One round of the loop over the counts. -/
def countRound
    (shift omitPos : Nat)
    (logcounts : List Int)
    (sames : List Nat)
    (state : Counts × BitReader)
    (i : Nat) :
    Checked (Counts × BitReader) := do
  let (state, br) := state
  let same ← index sames i
  let state := state.startRun same i
  if 0 < state.numsame then
    return (state.repeatPrev i, br)
  else
    let code ← index logcounts i
    if i = omitPos ∨ code < 0 then
      return (state, br)
    else
      let (count, br) ← readCount shift code.toNat br
      return (state.add i count, br)

/-- The counts of the general form, once the widths are known. -/
def readCounts
    (range length shift : Nat)
    (widths : Logcounts)
    (br : BitReader) :
    Checked (List Nat × BitReader) := do
  match widths.omitPos with
  | none =>
      fail .GenericError
  | some omitPos =>
      if omitPos + 1 < length ∧
          widths.logcounts.getD (omitPos + 1) 0 = AnsParams.ansLogTabSize then
        fail .GenericError
      else
        let start : Counts := { counts := List.replicate length 0 }
        let (state, br) ←
          (List.range length).foldlM
            (countRound shift omitPos widths.logcounts widths.same)
            (start, br)
        let omitted := (range : Int) - state.totalCount
        if omitted ≤ 0 then
          fail .GenericError
        else
          return (state.counts.set omitPos omitted.toNat, br)

/-- The number that `writeHistogramMethod` writes, less one. -/
def readShift
    (br : BitReader) :
    Checked (Nat × BitReader) := do
  let upperBoundLog := (AnsParams.ansLogTabSize + 1).log2
  let (log, br) ← readLog upperBoundLog 0 br
  let (bits, br) ← br.readBits log
  return ((bits ||| 1 <<< log) - 1, br)

/-- The general form. -/
def readGeneral
    (range : Nat)
    (br : BitReader) :
    Checked (List Nat × BitReader) := do
  let (shift, br) ← readShift br
  if AnsParams.ansLogTabSize + 1 < shift then
    fail .GenericError
  else
    let (size, br) ← decodeVarLenUint8 br
    let length := size + 3
    let start := {
      logcounts := List.replicate length 0
      same := List.replicate length 0 }
    let (widths, br) ← readLogcounts length 0 start br
    readCounts range length shift widths br

end ReadHistogram

open ReadHistogram in
/-- Reads a histogram. -/
def readHistogram
    (precisionBits : Nat)
    (br : BitReader) :
    Checked (List Nat × BitReader) := do
  let range := 1 <<< precisionBits
  let (simpleCode, br) ← br.readBits 1
  if simpleCode = 1 then
    readSmallCode precisionBits br
  else
    let (isFlat, br) ← br.readBits 1
    if isFlat = 1 then
      let (last, br) ← decodeVarLenUint8 br
      let alphabetSize := last + 1
      if range < alphabetSize then
        fail .GenericError
      else
        let counts ← createFlatHistogram alphabetSize range
        return (counts, br)
    else
      readGeneral range br

end Jxlz
