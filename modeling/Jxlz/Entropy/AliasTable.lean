import Jxlz.Base.Checked

namespace Jxlz

/-!
# Alias tables

An alias table maps the slots `[0, 4096)` to symbols, offsets and frequencies.
The slots are split into buckets of `entrySize` slots.  Bucket `i` serves
symbol `i` below its cutoff and one other symbol from the cutoff on.
-/

namespace AnsParams

/-- `ans_log_tab_size`. -/
def ansLogTabSize : Nat := 12

/-- `ans_tab_size`. -/
def ansTabSize : Nat := 1 <<< ansLogTabSize

/-- `ans_tab_mask`. -/
def ansTabMask : Nat := ansTabSize - 1

/-- `ans_signature`: the initial state, used as a checksum. -/
def ansSignature : Nat := 0x13

/-- `prefix_max_bits`. -/
def prefixMaxBits : Nat := 15

end AnsParams

namespace AliasTable

/-- The result of a lookup. -/
structure Symbol where
  value : Nat
  offset : Nat
  freq : Nat
  deriving Repr, DecidableEq

/-- One bucket of an alias table. -/
structure Entry where
  cutoff : Nat := 0
  rightValue : Nat := 0
  freq0 : Nat := 0
  offsets1 : Nat := 0
  freq1XorFreq0 : Nat := 0
  deriving Repr, DecidableEq, Inhabited

/-- What bucket `i` answers for the slot at `pos` in it. -/
def Entry.answer
    (entry : Entry)
    (i pos : Nat) :
    Symbol :=
  if entry.cutoff ≤ pos then
    { value := entry.rightValue
      offset := entry.offsets1 + pos
      freq := entry.freq0 ^^^ entry.freq1XorFreq0 }
  else
    { value := i
      offset := 0 + pos
      freq := entry.freq0 ^^^ 0 }

/-- Looks up a slot in the alias table. -/
def lookup
    (table : List Entry)
    (value logEntrySize entrySizeMinus1 : Nat) :
    Checked Symbol := do
  let i := value >>> logEntrySize
  let pos := value &&& entrySizeMinus1
  let entry ← index table i
  return entry.answer i pos

end AliasTable

open AliasTable

namespace InitAliasTable

/-- The loop that looks for a symbol with the whole range. -/
def singleSymbol
    (distribution : List Nat) :
    Checked (Option Nat) :=
  distribution.zipIdx.foldlM
    (fun single (v, sym) =>
      if v = AnsParams.ansTabSize then
        if single = none then
          pure (some sym)
        else
          fail .GenericError
      else
        pure single)
    none

/-- The buckets of a distribution with a single symbol. -/
def singleSymbolBuckets
    (sym tableSize entrySize : Nat) :
    List Entry :=
  (List.range tableSize).map
    (fun i =>
      { rightValue := sym
        cutoff := 0
        offsets1 := entrySize * i
        freq0 := 0
        freq1XorFreq0 := AnsParams.ansTabSize })

/-- The initial cutoffs: the counts, and zero for the symbols after the last. -/
def initialCutoffs
    (distribution : List Nat)
    (tableSize : Nat) :
    List Nat :=
  distribution ++ List.replicate (tableSize - distribution.length) 0

/-- The indices that the first loops push, last pushed first. -/
def initialStack
    (cutoffs : List Nat)
    (selected : Nat → Bool) :
    List Nat :=
  ((List.range cutoffs.length).filter
    (fun i => selected (cutoffs.getD i 0))).reverse

/--
The loop that moves the excess of an overfull symbol into an underfull bucket.
The two stacks have their top first.
-/
def reassign
    (entrySize : Nat)
    (cutoffs : List Nat)
    (a : List Entry) :
    List Nat → List Nat → Checked (List Nat × List Entry)
  | _, [] => return (cutoffs, a)
  | [], _ :: _ => fail .GenericError
  | underfullI :: underfull, overfullI :: overfull => do
      let underfullCutoff ← index cutoffs underfullI
      let overfullCutoff ← index cutoffs overfullI
      let underfullBy ← subU entrySize underfullCutoff
      let remaining ← subU overfullCutoff underfullBy
      let cutoffs := cutoffs.set overfullI remaining
      let a :=
        a.modify underfullI
          (fun entry =>
            { entry with rightValue := overfullI, offsets1 := remaining })
      if remaining < entrySize then
        reassign entrySize cutoffs a (overfullI :: underfull) overfull
      else if entrySize < remaining then
        reassign entrySize cutoffs a underfull (overfullI :: overfull)
      else
        reassign entrySize cutoffs a underfull overfull
termination_by underfull overfull => underfull.length + overfull.length
decreasing_by all_goals (simp only [List.length_cons]; omega)

/--
One round of the last loop.  A count is at most 4096, so the casts of counts
and offsets to 16 bits keep their values.
-/
def finishEntry
    (entrySize : Nat)
    (distribution cutoffs : List Nat)
    (i : Nat)
    (entry : Entry) :
    Checked Entry := do
  let cutoff ← index cutoffs i
  let placed ←
    if cutoff = entrySize then do
      let rightValue ← castU 8 i
      pure { entry with rightValue, offsets1 := 0, cutoff := 0 }
    else do
      let offsets1 ← subU entry.offsets1 cutoff
      let cutoff ← castU 8 cutoff
      pure { entry with offsets1, cutoff }
  let freq0 := distribution.getD i 0
  let freq1 := distribution.getD placed.rightValue 0
  return { placed with freq0, freq1XorFreq0 := freq1 ^^^ freq0 }

/-- The table of a non-empty distribution that fits the alphabet. -/
def build
    (distribution : List Nat)
    (range tableSize entrySize : Nat)
    (a : List Entry) :
    Checked (List Entry) := do
  let single ← singleSymbol distribution
  if distribution.sum ≠ range then
    fail .GenericError
  else
    match single with
    | some sym =>
        let sym ← castU 8 sym
        return singleSymbolBuckets sym tableSize entrySize ++ a.drop tableSize
    | none =>
        -- The cutoffs and the two stacks are arrays of 256 elements.
        require (tableSize ≤ 256)
        let cutoffs := initialCutoffs distribution tableSize
        let (cutoffs, a) ←
          reassign entrySize cutoffs a
            (initialStack cutoffs (decide <| · < entrySize))
            (initialStack cutoffs (decide <| entrySize < ·))
        let table ←
          (a.take tableSize).zipIdx.mapM
            (fun (entry, i) =>
              finishEntry entrySize distribution cutoffs i entry)
        return table ++ a.drop tableSize

end InitAliasTable

open InitAliasTable in
/--
Computes an alias table for a distribution.  `a` is the memory that the table
is written to; its first `2 ^ logAlphaSize` entries are overwritten.
-/
def initAliasTable
    (distributionIn : List Nat)
    (logRange logAlphaSize : Nat)
    (a : List Entry) :
    Checked (List Entry) :=
  let range := 1 <<< logRange
  let tableSize := 1 <<< logAlphaSize
  if range < tableSize then
    fail .GenericError
  else
    -- Trim trailing zeros; an empty distribution gets a placeholder.
    let trimmed := distributionIn.rdropWhile (· = 0)
    let distribution := if trimmed = [] then [range] else trimmed
    if tableSize < distribution.length then
      fail .GenericError
    else
      build distribution range tableSize (range >>> logAlphaSize) a

end Jxlz
