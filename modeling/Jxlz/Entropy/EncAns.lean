import Jxlz.Base.BitWriter
import Jxlz.Entropy.AliasTable
import Jxlz.Entropy.HybridUint

namespace Jxlz

/-!
# The ANS token writer

Tokens are coded last to first, so that the decoder meets them first to last.
The bits that the coder emits on the way are collected in chunks that grow at
their low end and are written last chunk first.
-/

/-- `reciprocal_precision`. -/
def reciprocalPrecision : Nat := 32 + AnsParams.ansLogTabSize

/-- One value to code, with the context that selects its histogram. -/
structure Token where
  isLz77Length : Bool := false
  context : UInt32
  value : UInt32
  deriving Repr, DecidableEq

/-- What the encoder needs to know about a symbol. -/
structure ANSEncSymbolInfo where
  freq : Nat := 0
  reverseMap : List Nat := []
  ifreq : Nat := 1
  deriving Repr, DecidableEq

/-- The encoder state. -/
structure ANSCoder where
  state : Nat := AnsParams.ansSignature <<< 16
  deriving Repr, DecidableEq

namespace ANSCoder

/-- The bits that `putSymbol` moves out of the state. -/
structure PutResult where
  bits : Nat
  nbits : Nat
  deriving Repr, DecidableEq

/-- Advances the state for one symbol, dividing by means of the reciprocal. -/
def putSymbol
    (self : ANSCoder)
    (info : ANSEncSymbolInfo) :
    Checked (ANSCoder × PutResult) := do
  let renormShift := 32 - AnsParams.ansLogTabSize
  let emits : Bool := info.freq ≤ self.state >>> renormShift
  let emittedBits := if emits then self.state &&& 0xffff else 0
  let emittedNbits := if emits then 16 else 0
  let state := if emits then self.state >>> 16 else self.state
  let product ← mulU 64 state info.ifreq
  let v ← castU 32 (product >>> reciprocalPrecision)
  let whole ← mulU 32 v info.freq
  let position ← subU state whole
  let offset ← index info.reverseMap position
  let next ← addU 32 (shlU 32 v AnsParams.ansLogTabSize) offset
  return ({ state := next }, { bits := emittedBits, nbits := emittedNbits })

end ANSCoder

namespace BuildANSEncSymbolInfoTable

/-- The frequency of a symbol; an empty histogram has one symbol. -/
def symbolFreq
    (counts : List Nat)
    (symbol : Nat) :
    Nat :=
  if counts = [] then
    if symbol = 0 then AnsParams.ansTabSize else 0
  else
    counts.getD symbol 0

/-- The entry of a symbol; its slots are filled in afterwards. -/
def initialInfo
    (counts : List Nat)
    (symbol : Nat) :
    ANSEncSymbolInfo :=
  let freq := symbolFreq counts symbol
  { freq
    ifreq :=
      if freq ≠ 0 then
        (1 <<< reciprocalPrecision + freq - 1) / freq
      else
        1
    reverseMap := List.replicate freq 0 }

/-- `info[symbol.value].reverse_map[symbol.offset] = i`. -/
def setSlot
    (info : List ANSEncSymbolInfo)
    (symbol : AliasTable.Symbol)
    (i : Nat) :
    Checked (List ANSEncSymbolInfo) := do
  let entry ← index info symbol.value
  require (symbol.offset < entry.reverseMap.length)
  return info.set symbol.value
    { entry with reverseMap := entry.reverseMap.set symbol.offset i }

end BuildANSEncSymbolInfoTable

open BuildANSEncSymbolInfoTable in
/-- The encoder's table: the alias table of the counts, read backwards. -/
def buildANSEncSymbolInfoTable
    (counts : List Nat)
    (logAlphaSize : Nat) :
    Checked (List ANSEncSymbolInfo) := do
  let infoLen := max 1 counts.length
  let tableSize := 1 <<< logAlphaSize
  let table ←
    initAliasTable counts AnsParams.ansLogTabSize logAlphaSize
      (List.replicate tableSize default)
  let logEntrySize := AnsParams.ansLogTabSize - logAlphaSize
  let entrySizeMinus1 := 1 <<< logEntrySize - 1
  (List.range AnsParams.ansTabSize).foldlM
    (fun info i => do
      let symbol ← AliasTable.lookup table i logEntrySize entrySizeMinus1
      setSlot info symbol i)
    ((List.range infoLen).map (initialInfo counts))

/-- A full chunk of reversed bits. -/
structure ReversedChunk where
  bits : Nat
  nbits : Nat
  deriving Repr, DecidableEq

/-- The chunks filled so far, last first, and the one being filled. -/
structure ReversedBits where
  capacity : Nat
  out : List ReversedChunk := []
  allbits : Nat := 0
  numallbits : Nat := 0
  deriving Repr, DecidableEq

/-- Packs bits in front of the ones packed before. -/
def addReversedBits
    (self : ReversedBits)
    (bits nbits : Nat) :
    Checked ReversedBits := do
  if nbits = 0 then
    return self
  require (bits >>> nbits = 0)
  let room ←
    if BitWriter.kMaxBitsPerCall < self.numallbits + nbits then do
      require (self.out.length < self.capacity)
      pure
        { self with
          out := { bits := self.allbits, nbits := self.numallbits } :: self.out
          allbits := 0
          numallbits := 0 }
    else
      pure self
  return {
    room with
    allbits := shlU 64 room.allbits nbits ||| bits
    numallbits := room.numallbits + nbits }

/-- The state of the loop over the tokens. -/
structure TokenLoop where
  buffer : ReversedBits
  numExtraBits : Nat := 0
  ans : ANSCoder := {}
  deriving Repr, DecidableEq

/-- One round of the loop over the tokens. -/
def TokenLoop.step
    (infos : List (List ANSEncSymbolInfo))
    (contextMap : List Nat)
    (uintConfigs : List HybridUintConfig)
    (token : Token)
    (self : TokenLoop) :
    Checked TokenLoop := do
  if token.isLz77Length ∨ contextMap.length ≤ token.context.toNat then
    fail .GenericError
  else
    let histIdx ← index contextMap token.context.toNat
    if infos.length ≤ histIdx then
      fail .GenericError
    else
      let cfg ← index uintConfigs histIdx
      let info ← index infos histIdx
      let encoded := cfg.encode token.value.toNat
      if info.length ≤ encoded.token then
        fail .GenericError
      else
        let buffer ← addReversedBits self.buffer encoded.bits encoded.nbits
        let symbol ← index info encoded.token
        let (ans, ansBits) ← self.ans.putSymbol symbol
        let buffer ← addReversedBits buffer ansBits.bits ansBits.nbits
        return {
          buffer
          numExtraBits := self.numExtraBits + encoded.nbits
          ans }

/--
Writes a token stream whose symbols draw from the histogram that
`contextMap[token.context]` selects; returns the number of extra bits.
-/
def writeContextualHistogramTokens
    (tokens : List Token)
    (infos : List (List ANSEncSymbolInfo))
    (contextMap : List Nat)
    (uintConfigs : List HybridUintConfig)
    (writer : BitWriter) :
    Checked (BitWriter × Nat) := do
  if infos.length = 0 ∨ infos.length ≠ uintConfigs.length then
    fail .GenericError
  else
    -- The loop visits the last token first.
    let coded ←
      tokens.foldrM (TokenLoop.step infos contextMap uintConfigs)
        { buffer := { capacity := tokens.length * 2 } }
    let pendingBits :=
      32 + coded.buffer.numallbits +
        (coded.buffer.out.map ReversedChunk.nbits).sum
    let reserved := writer.ensureUnusedCapacityBits pendingBits
    let writer ← reserved.write 32 coded.ans.state
    let writer ← writer.write coded.buffer.numallbits coded.buffer.allbits
    let writer ←
      coded.buffer.out.foldlM
        (fun writer chunk => writer.write chunk.nbits chunk.bits)
        writer
    return (writer, coded.numExtraBits)

end Jxlz
