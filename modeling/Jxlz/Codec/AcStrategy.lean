import Jxlz.Base.Checked

namespace Jxlz.AcStrategy

/-!
# Strategies and their natural coefficient order

Mirrors `ac_strategy.zig`.  A strategy covers a rectangle of blocks; its
coefficients are scanned along the diagonals of a square, of which only every
so many rows exist when the rectangle is longer than it is high.
-/

def kNumValidStrategies : Nat := 27

/-- The size of a strategy in blocks. -/
structure Extent where
  x : Nat
  y : Nat
  deriving Repr, DecidableEq

def widths : List Nat := [
  1, 1, 1, 1, 2, 4, 1, 2, 1, 4, 2, 4, 1, 1, 1, 1, 1, 1, 8, 4, 8, 16, 8, 16, 32,
  16, 32]

def heights : List Nat := [
  1, 1, 1, 1, 2, 4, 2, 1, 4, 1, 4, 2, 1, 1, 1, 1, 1, 1, 8, 8, 4, 16, 16, 8, 32,
  32, 16]

/-- Raw AC strategy dimensions in blocks. -/
def strategyExtent
    (raw : Int) :
    Checked Extent := do
  if raw < 0 ∨ (widths.length : Int) ≤ raw then
    fail .GenericError
  else
    let x ← index widths raw.toNat
    let y ← index heights raw.toNat
    return { x, y }

/-- The order as far as it is known, and its next free entry. -/
structure Scan where
  order : List Nat
  cur : Nat

/--
A coefficient on a diagonal of the upper half; the low-frequency ones have
their entries reserved.
-/
def scanUpper
    (cx cy i : Nat)
    (self : Scan)
    (j : Nat) :
    Checked Scan := do
  let ratio := cx / cy
  let side := cx * 8
  let x := if i % 2 = 0 then j else i - j
  let squareY := if i % 2 = 0 then i - j else j
  if squareY % ratio ≠ 0 then
    return self
  else
    let y := squareY / ratio
    let value ← castU 32 (y * side + x)
    if x < cx ∧ y < cy then
      let order ← store self.order (y * cx + x) value
      return { self with order }
    else
      let order ← store self.order self.cur value
      return { order, cur := self.cur + 1 }

/-- A coefficient on a diagonal of the lower half. -/
def scanLower
    (cx cy i : Nat)
    (self : Scan)
    (j : Nat) :
    Checked Scan := do
  let ratio := cx / cy
  let side := cx * 8
  let x := side - 1 - (if i % 2 = 0 then i - j else j)
  let squareY := side - 1 - (if i % 2 = 0 then j else i - j)
  if squareY % ratio ≠ 0 then
    return self
  else
    let value ← castU 32 (squareY / ratio * side + x)
    let order ← store self.order self.cur value
    return { order, cur := self.cur + 1 }

/-- The whole scan of a rectangle of `cx` by `cy` blocks. -/
def scanSquare
    (cx cy : Nat)
    (order : List Nat) :
    Checked Scan := do
  let side := cx * 8
  let scan ←
    (List.range side).foldlM
      (fun scan i => (List.range (i + 1)).foldlM (scanUpper cx cy i) scan)
      { order, cur := cx * cy }
  (List.range (side - 1)).reverse.foldlM
    (fun scan i => (List.range (i + 1)).foldlM (scanLower cx cy i) scan)
    scan

/-- Fill `order` with the natural order of a strategy. -/
def naturalOrder
    (raw : Int)
    (order : List Nat) :
    Checked (List Nat) := do
  let extent ← strategyExtent raw
  let cx := max extent.x extent.y
  let cy := min extent.x extent.y
  if order.length ≠ 64 * cx * cy then
    fail .GenericError
  else
    let scan ← scanSquare cx cy order
    return scan.order

end Jxlz.AcStrategy
