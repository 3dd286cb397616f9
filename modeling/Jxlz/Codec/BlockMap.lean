import Jxlz.Codec.AcStrategy

namespace Jxlz.AcMetadata

open AcStrategy

/-!
# The block map of a DC group

Mirrors `BlockMap` of `ac_metadata.zig`.  The map is scanned cell by cell; a cell
that no transform covers yet takes the next strategy, whose cells are marked ahead
of the scan.
-/

structure Block where
  strategy : Nat := 255
  isFirst : Bool := false
  quant : Nat := 0
  sharpness : Nat := 0
  deriving Repr, DecidableEq

structure BlockMap where
  blocks : List Block
  width : Nat
  height : Nat
  usedAcs : Nat
  deriving Repr, DecidableEq

namespace BlockMap

def dcGroupBlocks : Nat := 256

def acGroupBlocks : Nat := 32

/-- `Quantizer.kQuantMax`. -/
def kQuantMax : Nat := 256

/-- The blocks, the strategies placed so far and the set of their numbers. -/
structure Scan where
  blocks : List Block
  num : Nat
  usedAcs : Nat

/-- One covered cell; an overlap shows when the cell has a strategy already. -/
def markBlock
    (raw : Nat)
    (blocks : List Block)
    (position : Nat) :
    Checked (List Block) := do
  let covered ← index blocks position
  if covered.strategy ≠ 255 then
    fail .GenericError
  else
    let strategy ← castU 8 raw
    store blocks position { covered with strategy }

/-- The transform reaches over the map's border or into another AC group. -/
def leavesGroup
    (width height x y : Nat)
    (extent : Extent) :
    Bool :=
  width - x < extent.x ∨ height - y < extent.y ∨
    acGroupBlocks - x % acGroupBlocks < extent.x ∨
    acGroupBlocks - y % acGroupBlocks < extent.y

/-- The next strategy, placed with its upper left cell at the given one. -/
def placeBlock
    (width height : Nat)
    (is444 : Bool)
    (strategies quants : List Int)
    (self : Scan)
    (position : Nat) :
    Checked Scan := do
  let raw ← index strategies self.num
  let extent ← strategyExtent raw
  if is444 = false ∧ (1 < extent.x ∨ 1 < extent.y) then
    fail .GenericError
  else
    let x := position % width
    let y := position / width
    if leavesGroup width height x y extent then
      fail .GenericError
    else
      let blocks ←
        (List.range extent.y).foldlM
          (fun blocks dy =>
            (List.range extent.x).foldlM
              (fun blocks dx =>
                markBlock raw.toNat blocks ((y + dy) * width + x + dx))
              blocks)
          self.blocks
      let block ← index blocks position
      let sample ← index quants self.num
      let quant ← castU 16 (1 + min (max sample 0) (kQuantMax - 1)).toNat
      let blocks ← store blocks position { block with isFirst := true, quant }
      let amount ← castU 5 raw.toNat
      return {
        blocks
        num := self.num + 1
        usedAcs := self.usedAcs ||| shlU 32 1 amount }

/-- One cell of the scan. -/
def scanBlock
    (width height : Nat)
    (is444 : Bool)
    (strategies quants sharpness : List Int)
    (self : Scan)
    (position : Nat) :
    Checked Scan := do
  let sharp ← index sharpness position
  if sharp < 0 ∨ 8 ≤ sharp then
    fail .GenericError
  else
    let block ← index self.blocks position
    let level ← castU 8 sharp.toNat
    let blocks ← store self.blocks position { block with sharpness := level }
    let self := { self with blocks }
    if block.strategy ≠ 255 then
      return self
    else if strategies.length ≤ self.num then
      fail .GenericError
    else
      placeBlock width height is444 strategies quants self position

/--
Expand the paired strategy and quant rows into a DC group's block map.  The
strategies left over when all cells are covered are not read.
-/
def decode
    (width height : Nat)
    (is444 : Bool)
    (strategies quants sharpness : List Int) :
    Checked BlockMap := do
  if width = 0 ∨ height = 0 ∨ dcGroupBlocks < width ∨ dcGroupBlocks < height then
    fail .GenericError
  else if
      strategies.length ≠ quants.length ∨ sharpness.length ≠ width * height then
    fail .GenericError
  else
    let start : Scan := {
      blocks := List.replicate (width * height) {}
      num := 0
      usedAcs := 0 }
    let scan ←
      (List.range (width * height)).foldlM
        (scanBlock width height is444 strategies quants sharpness) start
    return { blocks := scan.blocks, width, height, usedAcs := scan.usedAcs }

end BlockMap

end Jxlz.AcMetadata
