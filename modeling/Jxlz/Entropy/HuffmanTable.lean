import Jxlz.Entropy.DecAns
import Jxlz.Lib.FuelLoop

namespace Jxlz

/-!
# Two-level prefix code tables

Mirrors `buildHuffmanTable` of `huffman.zig`.  The root table is indexed by the
next `rootBits` bits; a longer code has an entry there that leads to a second
table, whose offset is counted from the entry itself.  Codes are read from their
first bit on, so a key is the code with its bits reversed.  The memory behind
the root table is a list; a store outside it is a trap.
-/

namespace AnsParams

/-- `prefix_max_alphabet_size`. -/
def prefixMaxAlphabetSize : Nat := 4096

end AnsParams

open AnsParams

/-- Stores an entry of a table. -/
def storeCode
    (table : List HuffmanCode)
    (position : Nat)
    (code : HuffmanCode) :
    Checked (List HuffmanCode) := do
  require (position < table.length)
  return table.set position code

/-- The highest of the lowest `len` bits that is not set in the key, or zero. -/
def clearStep
    (key : Nat) :
    Nat → Nat
  | 0 => 0
  | len + 1 =>
      if key &&& 1 <<< len ≠ 0 then clearStep key len else 1 <<< len

/-- Returns reverse(reverse(key, len) + 1, len). -/
def getNextKey
    (key len : Nat) :
    Nat :=
  let step := clearStep key len
  (key &&& (step + 2 ^ 32 - 1) % 2 ^ 32) + step

/-- One round of the replication, from the end of the table down. -/
def replicateRound
    (start step : Nat)
    (code : HuffmanCode) :
    Nat × List HuffmanCode →
      Checked ((Nat × List HuffmanCode) ⊕ List HuffmanCode)
  | (e, table) =>
      if 0 < e then do
        let e ← subU e step
        let table ← storeCode table (start + e) code
        return .inl (e, table)
      else
        return .inr table

/-- Stores the code at `start` and in every `step`-th entry up to the end. -/
def replicateValue
    (table : List HuffmanCode)
    (start step endVal : Nat)
    (code : HuffmanCode) :
    Checked (List HuffmanCode) :=
  FuelLoop.run (replicateRound start step code) .running (endVal + 1)
    (endVal, table)

/-- The loop of `nextTableBitSize`, with the number of lengths still to try. -/
def nextTableLength
    (count : List Nat) :
    Nat → Nat → Nat → Checked Nat
  | 0, _, l => return l
  | more + 1, left, l => do
      let codes ← index count l
      if left ≤ codes then
        return l
      else
        nextTableLength count more ((left - codes) <<< 1) (l + 1)

/-- Returns the table width of the next 2nd level table. -/
def nextTableBitSize
    (count : List Nat)
    (len rootBits : Nat) :
    Checked Nat := do
  let depth ← subU len rootBits
  let l ← nextTableLength count (prefixMaxBits - len) (1 <<< depth) len
  subU l rootBits

/-- Where the symbols of each length start, and the largest length. -/
structure SymbolOffsets where
  offset : List Nat
  sum : Nat := 0
  maxLength : Nat := 1

/-- One length of the loop over the counts. -/
def SymbolOffsets.step
    (count : List Nat)
    (self : SymbolOffsets)
    (len : Nat) :
    Checked SymbolOffsets := do
  let codes ← index count len
  let offset := self.offset.set len self.sum
  if codes ≠ 0 then
    let sum ← addU 16 self.sum codes
    return { offset, sum, maxLength := len }
  else
    return { self with offset }

/-- Generate offsets and find the largest length. -/
def symbolOffsets
    (count : List Nat) :
    Checked SymbolOffsets :=
  (List.range' 1 prefixMaxBits).foldlM (SymbolOffsets.step count)
    { offset := List.replicate (prefixMaxBits + 1) 0 }

/-- One symbol of the sort by length. -/
def sortSymbol
    (state : List Nat × List Nat)
    (codeLength symbol : Nat) :
    Checked (List Nat × List Nat) := do
  let (sorted, offset) := state
  if codeLength ≠ 0 then
    let place ← index offset codeLength
    require (place < sorted.length)
    let symbol ← castU 16 symbol
    let next ← addU 16 place 1
    return (sorted.set place symbol, offset.set codeLength next)
  else
    return (sorted, offset)

/-- Sort symbols by length; the storage has room for 4096 of them. -/
def sortSymbols
    (codeLengths offset : List Nat) :
    Checked (List Nat × List Nat) := do
  require (codeLengths.length ≤ prefixMaxAlphabetSize)
  codeLengths.zipIdx.foldlM
    (fun state (codeLength, symbol) => sortSymbol state codeLength symbol)
    (List.replicate codeLengths.length 0, offset)

/-- The tables as far as they are filled. -/
structure HuffmanFill where
  table : List HuffmanCode
  count : List Nat
  key : Nat := 0
  symbol : Nat := 0
  /-- `table - root_table` of the table that is being filled. -/
  start : Nat := 0
  tableBits : Nat
  tableSize : Nat
  totalSize : Nat
  low : Int := -1

/-- One code of the root table. -/
def rootRound
    (sorted : List Nat)
    (codeBits : Nat)
    (self : HuffmanFill) :
    Checked HuffmanFill := do
  let codes ← index self.count codeBits
  let fewer ← subU codes 1
  let value ← index sorted self.symbol
  let table ←
    replicateValue self.table self.key (1 <<< codeBits) self.tableSize
      { bits := codeBits, value }
  return {
    self with
    table
    count := self.count.set codeBits fewer
    symbol := self.symbol + 1
    key := getNextKey self.key codeBits }

/-- All codes of one length: as many rounds as there are codes. -/
def codesOfLength
    (round : HuffmanFill → Checked HuffmanFill)
    (self : HuffmanFill)
    (len : Nat) :
    Checked HuffmanFill := do
  let codes ← index self.count len
  (List.range codes).foldlM (fun self _ => round self) self

/-- Fill in the root table. -/
def fillRoot
    (sorted : List Nat)
    (self : HuffmanFill) :
    Checked HuffmanFill :=
  (List.range' 1 self.tableBits).foldlM
    (fun self codeBits => codesOfLength (rootRound sorted codeBits) self codeBits)
    self

/-- Doubles the filled part of the table by a copy of it. -/
def doubleRound :
    Nat × Nat × List HuffmanCode →
      Checked ((Nat × Nat × List HuffmanCode) ⊕ List HuffmanCode)
  | (totalSize, tableSize, table) =>
      if totalSize ≠ tableSize then do
        require (tableSize + tableSize ≤ table.length)
        return .inl
          (totalSize, tableSize <<< 1,
            table.take tableSize ++ table.take tableSize ++
              table.drop (tableSize + tableSize))
      else
        return .inr table

/-- Replicate up to the total size. -/
def replicateRoot
    (table : List HuffmanCode)
    (tableSize totalSize : Nat) :
    Checked (List HuffmanCode) :=
  FuelLoop.run doubleRound .running (totalSize + 1) (totalSize, tableSize, table)

/-- The second-level table of the key, which is begun if it has none yet. -/
def secondTable
    (rootBits mask len : Nat)
    (self : HuffmanFill) :
    Checked HuffmanFill := do
  let low := self.key &&& mask
  if (low : Int) ≠ self.low then
    let start := self.totalSize
    let tableBits ← nextTableBitSize self.count len rootBits
    let tableSize := 1 <<< tableBits
    let bits ← castU 8 (tableBits + rootBits)
    let offset ← subU start low
    let value ← castU 16 offset
    let table ← storeCode self.table low { bits, value }
    return {
      self with
      table
      start
      tableBits
      tableSize
      totalSize := self.totalSize + tableSize
      low := low }
  else
    return self

/-- One code of a second-level table. -/
def secondRound
    (sorted : List Nat)
    (rootBits mask len : Nat)
    (self : HuffmanFill) :
    Checked HuffmanFill := do
  let self ← secondTable rootBits mask len self
  let value ← index sorted self.symbol
  let codes ← index self.count len
  let fewer ← subU codes 1
  let table ←
    replicateValue self.table (self.start + self.key >>> rootBits)
      (1 <<< (len - rootBits)) self.tableSize { bits := len - rootBits, value }
  return {
    self with
    table
    count := self.count.set len fewer
    symbol := self.symbol + 1
    key := getNextKey self.key len }

/-- Fill in 2nd level tables. -/
def fillSecond
    (sorted : List Nat)
    (rootBits maxLength : Nat)
    (self : HuffmanFill) :
    Checked HuffmanFill :=
  let mask := self.totalSize - 1
  (List.range' (rootBits + 1) (maxLength - rootBits)).foldlM
    (fun self len =>
      codesOfLength (secondRound sorted rootBits mask len) self len)
    self

/--
Builds a Huffman lookup table in `memory`.  Returns its size, zero on error,
and the memory with the table.
-/
def buildHuffmanTable
    (memory : List HuffmanCode)
    (rootBits : Nat)
    (codeLengths count : List Nat) :
    Checked (Nat × List HuffmanCode) := do
  if 1 <<< prefixMaxBits < codeLengths.length then
    return (0, memory)
  else
    let offsets ← symbolOffsets count
    let (sorted, offset) ← sortSymbols codeLengths offsets.offset
    let totalSize := 1 <<< rootBits
    let last ← index offset prefixMaxBits
    if last = 1 then
      let value ← index sorted 0
      require (totalSize ≤ memory.length)
      let filled := List.replicate totalSize { bits := 0, value }
      return (totalSize, filled ++ memory.drop totalSize)
    else
      let tableBits := min rootBits offsets.maxLength
      let rootFilled ←
        fillRoot sorted
          { table := memory
            count
            tableBits
            tableSize := 1 <<< tableBits
            totalSize }
      let table ← replicateRoot rootFilled.table (1 <<< tableBits) totalSize
      let filled ←
        fillSecond sorted rootBits offsets.maxLength { rootFilled with table }
      return (filled.totalSize, filled.table)

end Jxlz
