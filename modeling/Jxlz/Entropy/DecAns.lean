import Jxlz.Base.BitReader
import Jxlz.Entropy.AliasTable
import Jxlz.Entropy.HybridUint

namespace Jxlz

open AliasTable

/-!
# The ANS symbol reader

`ANSSymbolReader` decodes hybrid unsigned integers from ANS or prefix codes,
with an optional LZ77 window over the values decoded so far.
-/

/-- `window_size`. -/
def windowSize : Nat := 1 <<< 20

/-- `window_mask`. -/
def windowMask : Nat := windowSize - 1

/-- `special_distances`. -/
def specialDistances : List (Int × Int) :=
  [
    (0, 1), (1, 0), (1, 1), (-1, 1), (0, 2), (2, 0),
    (1, 2), (-1, 2), (2, 1), (-2, 1), (2, 2), (-2, 2),
    (0, 3), (3, 0), (1, 3), (-1, 3), (3, 1), (-3, 1),
    (2, 3), (-2, 3), (3, 2), (-3, 2), (0, 4), (4, 0),
    (1, 4), (-1, 4), (4, 1), (-4, 1), (3, 3), (-3, 3),
    (2, 4), (-2, 4), (4, 2), (-4, 2), (0, 5), (3, 4),
    (-3, 4), (4, 3), (-4, 3), (5, 0), (1, 5), (-1, 5),
    (5, 1), (-5, 1), (2, 5), (-2, 5), (5, 2), (-5, 2),
    (4, 4), (-4, 4), (3, 5), (-3, 5), (5, 3), (-5, 3),
    (0, 6), (6, 0), (1, 6), (-1, 6), (6, 1), (-6, 1),
    (2, 6), (-2, 6), (6, 2), (-6, 2), (4, 5), (-4, 5),
    (5, 4), (-5, 4), (3, 6), (-3, 6), (6, 3), (-6, 3),
    (0, 7), (7, 0), (1, 7), (-1, 7), (5, 5), (-5, 5),
    (7, 1), (-7, 1), (4, 6), (-4, 6), (6, 4), (-6, 4),
    (2, 7), (-2, 7), (7, 2), (-7, 2), (3, 7), (-3, 7),
    (7, 3), (-7, 3), (5, 6), (-5, 6), (6, 5), (-6, 5),
    (8, 0), (4, 7), (-4, 7), (7, 4), (-7, 4), (8, 1),
    (8, 2), (6, 6), (-6, 6), (8, 3), (5, 7), (-5, 7),
    (7, 5), (-7, 5), (8, 4), (6, 7), (-6, 7), (7, 6),
    (-7, 6), (8, 5), (7, 7), (-7, 7), (8, 6), (8, 7)]

/-- `num_special_distances`. -/
def numSpecialDistances : Nat := 120

/-- An `i32` result. -/
def castI32
    (value : Int) :
    Checked Int :=
  if -2 ^ 31 ≤ value ∧ value < 2 ^ 31 then .ok value else .error .trap

/-- The distance of a special distance code, at least one. -/
def specialDistance
    (position : Nat)
    (multiplier : Int) :
    Checked Int := do
  let (dx, dy) ← index specialDistances position
  let scaled ← castI32 (multiplier * dy)
  let dist ← castI32 (dx + scaled)
  return if 1 < dist then dist else 1

/-- LZ77 parameters of an entropy code. -/
structure LZ77Params where
  enabled : Bool := false
  minSymbol : Nat := 224
  minLength : Nat := 3
  lengthUintConfig : HybridUintConfig := HybridUintConfig.initZero
  nonserializedDistanceContext : Nat := 0
  deriving Repr, DecidableEq

/-- One entry of a prefix code table. -/
structure HuffmanCode where
  bits : Nat
  value : Nat
  deriving Repr, DecidableEq

/-- `huffman_table_bits`. -/
def huffmanTableBits : Nat := 8

/-- Decodes one symbol from a two-level prefix code table. -/
def HuffmanCode.readSymbol
    (table : List HuffmanCode)
    (br : BitReader) :
    Checked (Nat × BitReader) := do
  let root ← br.peekBits huffmanTableBits
  let first ← index table root
  if huffmanTableBits < first.bits then
    let br ← br.consume huffmanTableBits
    let rest ← br.peekBits (first.bits - huffmanTableBits)
    let second ← index table (root + first.value + rest)
    let br ← br.consume second.bits
    return (second.value, br)
  else
    let br ← br.consume first.bits
    return (first.value, br)

/-- The entropy code that a symbol reader works on. -/
structure ANSCode where
  aliasTables : List Entry := []
  huffmanData : List (List HuffmanCode) := []
  uintConfig : List HybridUintConfig := []
  degenerateSymbols : List Int := []
  usePrefixCode : Bool := false
  logAlphaSize : Nat := 0
  lz77 : LZ77Params := {}

namespace DecodeHistograms

/-- The symbol of a histogram without a second one, else minus one. -/
def degenerateSymbol
    (counts : List Nat) :
    Int :=
  let trimmed := counts.rdropWhile (· = 0)
  let degen := trimmed.length - 1
  if (counts.take degen).all (· = 0) then degen else -1

/-- `catch return error.GenericError`: a failed safety check still stops. -/
def catchGeneric
    {α : Type}
    (computation : Checked α) :
    Checked α :=
  match computation with
  | .error (.error _) => fail .GenericError
  | other => other

/-- The ANS part of the loop over the histograms, once the counts are read. -/
def addAnsHistogram
    (code : ANSCode)
    (c : Nat)
    (counts : List Nat) :
    Checked ANSCode := do
  let maxAlphabetSize := 1 <<< code.logAlphaSize
  if maxAlphabetSize < counts.length then
    fail .GenericError
  else
    let trimmed := counts.rdropWhile (· = 0)
    let offset := c * 1 <<< code.logAlphaSize
    let table ←
      catchGeneric
        (initAliasTable trimmed AnsParams.ansLogTabSize code.logAlphaSize
          (code.aliasTables.drop offset))
    return {
      code with
      degenerateSymbols := code.degenerateSymbols.set c (degenerateSymbol counts)
      aliasTables := code.aliasTables.take offset ++ table }

/-- The code before the loop; `memory` is what its alias tables are put in. -/
def ansCodeStart
    (numHistograms : Nat)
    (uintConfig : List HybridUintConfig)
    (logAlphaSize : Nat)
    (memory : List Entry) :
    ANSCode where
  aliasTables := memory
  uintConfig := uintConfig
  degenerateSymbols := List.replicate numHistograms (-1)
  logAlphaSize := logAlphaSize

/-- The ANS code that the loop builds from the counts of all histograms. -/
def ansCodeOfCounts
    (histograms : List (List Nat))
    (uintConfig : List HybridUintConfig)
    (logAlphaSize : Nat)
    (memory : List Entry) :
    Checked ANSCode :=
  histograms.zipIdx.foldlM
    (fun code (counts, c) => addAnsHistogram code c counts)
    (ansCodeStart histograms.length uintConfig logAlphaSize memory)

end DecodeHistograms

/-- The state of a symbol reader. -/
structure ANSSymbolReader where
  aliasTables : List Entry
  huffmanData : List (List HuffmanCode)
  degenerateSymbols : List Int
  usePrefixCode : Bool
  state : Nat := AnsParams.ansSignature <<< 16
  configs : List HybridUintConfig
  logAlphaSize : Nat := 0
  logEntrySize : Nat := 0
  entrySizeMinus1 : Nat := 0
  lz77Window : Option (List Nat) := none
  numDecoded : Nat := 0
  numToCopy : Nat := 0
  copyPos : Nat := 0
  lz77Ctx : Nat := 0
  lz77MinLength : Nat := 0
  lz77Threshold : Nat := 1 <<< 20
  lz77LengthUint : HybridUintConfig := HybridUintConfig.initDefault
  specialDistancesCache : List Nat := List.replicate numSpecialDistances 0
  numSpecialDistancesCached : Nat := 0

/-- `br.consume` of the extra bits of a token, and the value they complete. -/
def readHybridUintConfigValue
    (config : HybridUintConfig)
    (token : Nat)
    (br : BitReader) :
    Checked (Nat × BitReader) := do
  if token < config.splitToken then
    return (token, br)
  else
    let nbits := config.extraBits token
    let bitsVal ← br.peekBits nbits
    let br ← br.consume nbits
    return (config.assemble token bitsVal, br)

namespace ANSSymbolReader

/-- The reader of a code, after the initial state has been read. -/
def create
    (code : ANSCode)
    (br : BitReader)
    (distanceMultiplier : Nat) :
    Checked (ANSSymbolReader × BitReader) := do
  let self : ANSSymbolReader :=
    { aliasTables := code.aliasTables
      huffmanData := code.huffmanData
      degenerateSymbols := code.degenerateSymbols
      usePrefixCode := code.usePrefixCode
      configs := code.uintConfig }
  let (self, br) ←
    if code.usePrefixCode then
      pure (self, br)
    else do
      let (state, br) ← br.readBits 32
      let logEntrySize ← subU AnsParams.ansLogTabSize code.logAlphaSize
      pure
        ({ self with
            state
            logAlphaSize := code.logAlphaSize
            logEntrySize
            entrySizeMinus1 := 1 <<< logEntrySize - 1 },
          br)
  if code.lz77.enabled then
    let numCached := if distanceMultiplier = 0 then 0 else numSpecialDistances
    let multiplier ← castI32 distanceMultiplier
    let cached ←
      (List.range numCached).mapM
        (fun i => specialDistance i multiplier)
    pure
      ({ self with
          lz77Window := some (List.replicate windowSize 0)
          lz77Ctx := code.lz77.nonserializedDistanceContext
          lz77LengthUint := code.lz77.lengthUintConfig
          lz77Threshold := code.lz77.minSymbol
          lz77MinLength := code.lz77.minLength
          numSpecialDistancesCached := numCached
          specialDistancesCache :=
            cached.map Int.toNat ++
              self.specialDistancesCache.drop numCached },
        br)
  else
    return (self, br)

/-- Reads one symbol from an ANS code; the state takes in 16 bits if it is low. -/
def readSymbolANSWithoutRefill
    (self : ANSSymbolReader)
    (histoIdx : Nat)
    (br : BitReader) :
    Checked (Nat × ANSSymbolReader × BitReader) := do
  let res := self.state &&& AnsParams.ansTabMask
  let table := self.aliasTables.drop (histoIdx <<< self.logAlphaSize)
  let symbol ← lookup table res self.logEntrySize self.entrySizeMinus1
  let state ←
    castU 32
      (symbol.freq * (self.state >>> AnsParams.ansLogTabSize) + symbol.offset)
  let peeked ← br.peekBits 16
  let newState := shlU 32 state 16 ||| peeked
  let normalize : Bool := state < 1 <<< 16
  let state := if normalize then newState else state
  let br ← br.consume (if normalize then 16 else 0)
  return (symbol.value, { self with state }, br)

/-- Reads one symbol from a prefix code. -/
def readSymbolHuffWithoutRefill
    (self : ANSSymbolReader)
    (histoIdx : Nat)
    (br : BitReader) :
    Checked (Nat × BitReader) :=
  match self.huffmanData[histoIdx]? with
  | none => return (0, br)
  | some [] => return (0, br)
  | some table => HuffmanCode.readSymbol table br

/-- The symbol of a histogram that has only one, read from no bits. -/
def degenerateSymbol?
    (self : ANSSymbolReader)
    (histoIdx : Nat) :
    Option Nat :=
  match self.degenerateSymbols[histoIdx]? with
  | none => none
  | some symbol => if 0 ≤ symbol then some symbol.toNat else none

/-- Reads one symbol. -/
def readSymbolWithoutRefill
    (self : ANSSymbolReader)
    (histoIdx : Nat)
    (br : BitReader) :
    Checked (Nat × ANSSymbolReader × BitReader) :=
  match self.degenerateSymbol? histoIdx with
  | some symbol => return (symbol, self, br)
  | none =>
      if self.usePrefixCode then do
        let (symbol, br) ← self.readSymbolHuffWithoutRefill histoIdx br
        return (symbol, self, br)
      else
        self.readSymbolANSWithoutRefill histoIdx br

/-- The next value of an LZ77 copy, which is also appended to the window. -/
def copyValue
    (self : ANSSymbolReader) :
    Checked (Nat × ANSSymbolReader) :=
  match self.lz77Window with
  | none => .error .trap
  | some window => do
      let ret ← index window (self.copyPos &&& windowMask)
      let numToCopy ← subU self.numToCopy 1
      pure
        (ret,
          { self with
            copyPos := (self.copyPos + 1) % 2 ^ 32
            numToCopy
            lz77Window := some (window.set (self.numDecoded &&& windowMask) ret)
            numDecoded := (self.numDecoded + 1) % 2 ^ 32 })

/-- The distance of an LZ77 copy, limited to what has been decoded. -/
def copyDistance
    (self : ANSSymbolReader)
    (code : Nat) :
    Checked Nat := do
  let distance ←
    if code < self.numSpecialDistancesCached then
      index self.specialDistancesCache code
    else
      subU (code + 1) self.numSpecialDistancesCached
  return min (min distance self.numDecoded) windowSize

/-- Reads the length and the distance of an LZ77 copy and its first value. -/
def startCopy
    (self : ANSSymbolReader)
    (token : Nat)
    (br : BitReader) :
    Checked (Nat × ANSSymbolReader × BitReader) := do
  let (length, br) ←
    readHybridUintConfigValue self.lz77LengthUint
      (token - self.lz77Threshold) br
  let numToCopy ← addU 32 length self.lz77MinLength
  let self := { self with numToCopy }
  let br := br.refill
  let (dToken, self, br) ← self.readSymbolWithoutRefill self.lz77Ctx br
  let config ← index self.configs self.lz77Ctx
  let (code, br) ← readHybridUintConfigValue config dToken br
  let distance ← self.copyDistance code
  let copyPos := (self.numDecoded + 2 ^ 32 - distance) % 2 ^ 32
  let self := { self with copyPos }
  let self ←
    if distance = 0 then
      match self.lz77Window with
      | none => .error .trap
      | some window =>
          let toFill := min self.numToCopy windowSize
          pure
            { self with
              lz77Window :=
                some (List.replicate toFill 0 ++ window.drop toFill) }
    else
      pure self
  if self.numToCopy < self.lz77MinLength then
    return (0, self, br)
  else
    let (ret, self) ← self.copyValue
    return (ret, self, br)

/-- Appends a decoded value to the LZ77 window, if there is one. -/
def recordValue
    (self : ANSSymbolReader)
    (value : Nat) :
    ANSSymbolReader :=
  match self.lz77Window with
  | none => self
  | some window =>
      { self with
        lz77Window := some (window.set (self.numDecoded &&& windowMask) value)
        numDecoded := (self.numDecoded + 1) % 2 ^ 32 }

/-- Read a hybrid uint of a histogram, using LZ77 if asked to. -/
def readHybridUintClustered
    (self : ANSSymbolReader)
    (ctx : Nat)
    (br : BitReader)
    (usesLz77 : Bool) :
    Checked (Nat × ANSSymbolReader × BitReader) := do
  if usesLz77 ∧ 0 < self.numToCopy then
    let (ret, self) ← self.copyValue
    return (ret, self, br)
  else
    let br := br.refill
    let (token, self, br) ← self.readSymbolWithoutRefill ctx br
    if usesLz77 ∧ self.lz77Threshold ≤ token then
      self.startCopy token br
    else
      let config ← index self.configs ctx
      let (ret, br) ← readHybridUintConfigValue config token br
      return (ret, if usesLz77 then self.recordValue ret else self, br)

/-- Read a hybrid uint of a context. -/
def readHybridUint
    (self : ANSSymbolReader)
    (ctx : Nat)
    (br : BitReader)
    (contextMap : List Nat) :
    Checked (Nat × ANSSymbolReader × BitReader) := do
  let histoIdx ← index contextMap ctx
  self.readHybridUintClustered histoIdx br true

/-- Whether the state has returned to its initial value. -/
def checkANSFinalState
    (self : ANSSymbolReader) :
    Bool :=
  self.state == AnsParams.ansSignature <<< 16

/-- Reads one value for each context, in order. -/
def readHybridUints
    (self : ANSSymbolReader)
    (br : BitReader)
    (contextMap : List Nat) :
    List Nat → Checked (List Nat × ANSSymbolReader × BitReader)
  | [] => return ([], self, br)
  | ctx :: rest => do
      let (value, self, br) ← self.readHybridUint ctx br contextMap
      let (values, self, br) ← self.readHybridUints br contextMap rest
      return (value :: values, self, br)

end ANSSymbolReader

end Jxlz
