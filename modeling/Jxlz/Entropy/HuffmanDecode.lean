import Jxlz.Entropy.HuffmanTable

namespace Jxlz

open AnsParams

/-!
# Prefix codes in the bitstream

Mirrors `HuffmanDecodingData.readFromBitStream` of `huffman.zig`: a simple code
lists up to four symbols; any other code has its code lengths stored, by a code
of their own and with repetitions.  A result of `none` is `return false`.
-/

/-- `code_length_codes`. -/
def codeLengthCodes : Nat := 18

/-- `code_length_code_order`. -/
def codeLengthCodeOrder : List Nat :=
  [1, 2, 3, 4, 0, 5, 17, 6, 16, 7, 8, 9, 10, 11, 12, 13, 14, 15]

/-- `default_code_length`. -/
def defaultCodeLength : Nat := 8

/-- `code_length_repeat_code`. -/
def codeLengthRepeatCode : Nat := 16

/-- Static Huffman code for the code length code lengths. -/
def codeLengthHuff : List HuffmanCode :=
  [
    ⟨2, 0⟩, ⟨2, 4⟩, ⟨2, 3⟩, ⟨3, 2⟩, ⟨2, 0⟩, ⟨2, 4⟩, ⟨2, 3⟩, ⟨4, 1⟩,
    ⟨2, 0⟩, ⟨2, 4⟩, ⟨2, 3⟩, ⟨3, 2⟩, ⟨2, 0⟩, ⟨2, 4⟩, ⟨2, 3⟩, ⟨4, 5⟩]

/-- Memory of a table before it is built; nothing in it is read. -/
def newTable
    (size : Nat) :
    List HuffmanCode :=
  List.replicate size { bits := 0, value := 0 }

/-- How many symbols have each code length. -/
def countLengths
    (codeLengths : List Nat) :
    Checked (List Nat) :=
  codeLengths.foldlM
    (fun counts codeLength => do
      let count ← index counts codeLength
      let count ← addU 16 count 1
      return counts.set codeLength count)
    (List.replicate (prefixMaxBits + 1) 0)

/-- The symbols of a simple code; one outside the alphabet ends it. -/
def readSimpleSymbols
    (alphabetSize maxBits : Nat) :
    Nat → BitReader → Checked (Option (List Nat × BitReader))
  | 0, br => return some ([], br)
  | more + 1, br => do
      let (bits, br) ← br.readBits maxBits
      let symbol ← castU 16 bits
      if alphabetSize ≤ symbol then
        return none
      else
        match ← readSimpleSymbols alphabetSize maxBits more br with
        | none => return none
        | some (symbols, br) => return some (symbol :: symbols, br)

/-- Two symbols in ascending order. -/
def orderedPair
    (first second : Nat) :
    Nat × Nat :=
  if second < first then (second, first) else (first, second)

/-- The part of a simple code's table that is replicated. -/
def simpleTable
    (deep : Nat) :
    List Nat → Option (List HuffmanCode)
  | [s0] => some [⟨0, s0⟩]
  | [s0, s1] =>
      let (a, b) := orderedPair s0 s1
      some [⟨1, a⟩, ⟨1, b⟩]
  | [s0, s1, s2] =>
      let (a, b) := orderedPair s1 s2
      some [⟨1, s0⟩, ⟨2, a⟩, ⟨1, s0⟩, ⟨2, b⟩]
  | [s0, s1, s2, s3] =>
      if deep = 0 then
        match [s0, s1, s2, s3].insertionSort (· ≤ ·) with
        | [a, b, c, d] => some [⟨2, a⟩, ⟨2, c⟩, ⟨2, b⟩, ⟨2, d⟩]
        | _ => none
      else
        let (a, b) := orderedPair s2 s3
        some
          [⟨1, s0⟩, ⟨2, s1⟩, ⟨1, s0⟩, ⟨3, a⟩,
            ⟨1, s0⟩, ⟨2, s1⟩, ⟨1, s0⟩, ⟨3, b⟩]
  | _ => none

/-- 4 symbols have the option to encode as 5. -/
def readShape
    (numSymbols : Nat)
    (br : BitReader) :
    Checked (Nat × BitReader) :=
  if numSymbols = 4 then br.readBits 1 else return (0, br)

/-- A code of one to four symbols, four of them in one of two shapes. -/
def readSimpleCode
    (alphabetSize : Nat)
    (br : BitReader) :
    Checked (Option (List HuffmanCode × BitReader)) := do
  let maxBits := if 1 < alphabetSize then (alphabetSize - 1).log2 + 1 else 0
  let (numSymbols, br) ← br.readBits 2
  match ← readSimpleSymbols alphabetSize maxBits (numSymbols + 1) br with
  | none => return none
  | some (symbols, br) =>
      if symbols.Nodup then do
        let (deep, br) ← readShape symbols.length br
        match simpleTable deep symbols with
        | none => return none
        | some base =>
            let goalSize := 1 <<< huffmanTableBits
            let table ←
              replicateRoot (base ++ newTable (goalSize - base.length))
                base.length goalSize
            return some (table, br)
      else
        return none

/-- The code of the code lengths as far as it was read. -/
structure CodeLengthCode where
  lengths : List Nat := List.replicate codeLengthCodes 0
  space : Int := 32
  numCodes : Nat := 0
  deriving Repr, DecidableEq

/-- The code lengths of the code length codes, until they fill the space. -/
def readCodeLengthCode :
    List Nat → CodeLengthCode → BitReader → Checked (CodeLengthCode × BitReader)
  | [], self, br => return (self, br)
  | codeLenIdx :: rest, self, br =>
      if 0 < self.space then do
        let br := br.refill
        let peeked ← br.peekBits 4
        let p ← index codeLengthHuff peeked
        let br ← br.consume p.bits
        let lengths := self.lengths.set codeLenIdx p.value
        if p.value ≠ 0 then
          readCodeLengthCode rest
            { lengths
              space := self.space - (32 >>> p.value : Nat)
              numCodes := self.numCodes + 1 }
            br
        else
          readCodeLengthCode rest { self with lengths } br
      else
        return (self, br)

/-- The state of the loop over the code lengths. -/
structure CodeLengths where
  symbol : Nat := 0
  prevCodeLen : Nat := defaultCodeLength
  repeatCount : Int := 0
  repeatCodeLen : Nat := 0
  space : Int := 32768
  codeLengths : List Nat
  br : BitReader

/-- A code length of its own. -/
def CodeLengths.literal
    (self : CodeLengths)
    (codeLen : Nat) :
    Checked CodeLengths := do
  require (self.symbol < self.codeLengths.length)
  let literal := {
    self with
    repeatCount := 0
    codeLengths := self.codeLengths.set self.symbol codeLen
    symbol := self.symbol + 1 }
  if codeLen ≠ 0 then
    return {
      literal with
      prevCodeLen := codeLen
      space := self.space - (32768 >>> codeLen : Nat) }
  else
    return literal

/-- How often a repetition has repeated its length, with the new extra bits. -/
def repeated
    (repeatCount : Int)
    (extraBits bits : Nat) :
    Checked Int :=
  if 0 < repeatCount then
    let shifted := Int.bmod ((repeatCount - 2) * 2 ^ extraBits) (2 ^ 32)
    addI32 shifted (bits + 3)
  else
    addI32 repeatCount (bits + 3)

/-- A repetition of the last length, or of zero; `none` when it is too long. -/
def CodeLengths.repetition
    (self : CodeLengths)
    (codeLen numSymbols : Nat) :
    Checked (Option CodeLengths) := do
  let extraBits ← subU codeLen 14
  let newLen := if codeLen = codeLengthRepeatCode then self.prevCodeLen else 0
  let oldRepeat := if self.repeatCodeLen ≠ newLen then 0 else self.repeatCount
  let (bits, br) ← self.br.readBits extraBits
  let repeatCount ← repeated oldRepeat extraBits bits
  let repeatDelta ← addI32 repeatCount (-oldRepeat)
  let last ← addI32 self.symbol repeatDelta
  if numSymbols < last then
    return none
  else
    require (0 ≤ last ∧ self.symbol ≤ last.toNat ∧
      last.toNat ≤ self.codeLengths.length)
    let filled := {
      self with
      br
      repeatCount
      repeatCodeLen := newLen
      symbol := last.toNat
      codeLengths :=
        self.codeLengths.take self.symbol ++
          List.replicate (last.toNat - self.symbol) newLen ++
          self.codeLengths.drop last.toNat }
    if newLen ≠ 0 then
      let shift ← subU 15 newLen
      let used ← toI32 (repeatDelta * 2 ^ shift)
      let space ← addI32 self.space (-used.toInt)
      return some { filled with space }
    else
      return some filled

/-- One round of the loop over the code lengths. -/
def codeLengthRound
    (table : List HuffmanCode)
    (numSymbols : Nat)
    (self : CodeLengths) :
    Checked (CodeLengths ⊕ Option CodeLengths) :=
  if self.symbol < numSymbols ∧ 0 < self.space then do
    let br := self.br.refill
    let peeked ← br.peekBits 5
    let p ← index table peeked
    let br ← br.consume p.bits
    let codeLen ← castU 8 p.value
    if codeLen < codeLengthRepeatCode then
      let next ← CodeLengths.literal { self with br } codeLen
      return .inl next
    else
      match ← CodeLengths.repetition { self with br } codeLen numSymbols with
      | none => return .inr none
      | some next => return .inl next
  else
    return .inr (some self)

/-- Reads the code lengths of the symbols. -/
def readHuffmanCodeLengths
    (codeLengthCodeLengths : List Nat)
    (numSymbols : Nat)
    (br : BitReader) :
    Checked (Option (List Nat × BitReader)) := do
  let counts ← countLengths codeLengthCodeLengths
  let (size, table) ←
    buildHuffmanTable (newTable 32) 5 codeLengthCodeLengths counts
  if size = 0 then
    return none
  else
    match ← FuelLoop.run (codeLengthRound table numSymbols) .running
        (numSymbols + 1)
        { codeLengths := List.replicate numSymbols 0, br } with
    | none => return none
    | some ended =>
        if ended.space ≠ 0 then
          return none
        else
          return some
            (ended.codeLengths.take ended.symbol ++
              List.replicate (numSymbols - ended.symbol) 0,
              ended.br)

/-- The stored code lengths of an alphabet, behind the number of skipped ones. -/
def readCodeLengths
    (alphabetSize skip : Nat)
    (br : BitReader) :
    Checked (Option (List Nat × BitReader)) := do
  let (code, br) ← readCodeLengthCode (codeLengthCodeOrder.drop skip) {} br
  if code.numCodes = 1 ∨ code.space = 0 then
    readHuffmanCodeLengths code.lengths alphabetSize br
  else
    return none

/-- The table of stored code lengths, in memory for all that it may need. -/
def tableOfLengths
    (codeLengths : List Nat) :
    Checked (Option (List HuffmanCode)) := do
  let counts ← countLengths codeLengths
  let (tableSize, table) ←
    buildHuffmanTable (newTable (codeLengths.length + 376)) huffmanTableBits
      codeLengths counts
  if tableSize = 0 then
    return none
  else
    return some (table.take tableSize)

/-- Reads Huffman code from bitstream and populates the decoding table. -/
def readFromBitStream
    (alphabetSize : Nat)
    (br : BitReader) :
    Checked (Option (List HuffmanCode × BitReader)) := do
  if 1 <<< prefixMaxBits < alphabetSize then
    return none
  else
    let (simpleCodeOrSkip, br) ← br.readBits 2
    if simpleCodeOrSkip = 1 then
      readSimpleCode alphabetSize br
    else
      match ← readCodeLengths alphabetSize simpleCodeOrSkip br with
      | none => return none
      | some (codeLengths, br) =>
          match ← tableOfLengths codeLengths with
          | none => return none
          | some table => return some (table, br)

end Jxlz
