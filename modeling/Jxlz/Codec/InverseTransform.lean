import Jxlz.Base.Checked

namespace Jxlz.InverseTransform

/-!
# The recursive transforms

Mirrors the transforms of `inverse_transform.zig` that are built from halves, over any
arithmetic.  All slices are parts of one memory, since a transform reads and writes the
scratch space that its caller works in.
-/

/-- The operations of the soft-float numbers that the transforms use. -/
structure Arithmetic (α : Type) where
  zero : α
  fromInt : Nat → Checked α
  add : α → α → Checked α
  sub : α → α → Checked α
  mul : α → α → Checked α
  div : α → α → Checked α
  sqrt : α → Checked α
  cosTurns : α → Checked α

/-- The constants `sqrt2` and `multipliers`. -/
structure Tables (α : Type) where
  sqrt2 : α
  multipliers : List α

/-- A slice of the memory. -/
structure Span where
  start : Nat
  len : Nat
  deriving Repr, DecidableEq

namespace Span

/-- `slice[offset..]`. -/
def rest
    (span : Span)
    (offset : Nat) :
    Checked Span := do
  require (offset ≤ span.len)
  return { start := span.start + offset, len := span.len - offset }

/-- `slice[offset..][0..count]`. -/
def piece
    (span : Span)
    (offset count : Nat) :
    Checked Span := do
  require (offset + count ≤ span.len)
  return { start := span.start + offset, len := count }

end Span

variable {α : Type}

def load
    (mem : List α)
    (span : Span)
    (position : Nat) :
    Checked α := do
  require (position < span.len)
  index mem (span.start + position)

def save
    (mem : List α)
    (span : Span)
    (position : Nat)
    (value : α) :
    Checked (List α) := do
  require (position < span.len)
  store mem (span.start + position) value

/-! The tables. -/

/-- `1 / (2 cos ((2i + 1) π / (2n)))`. -/
def multiplier
    (arithmetic : Arithmetic α)
    (n i : Nat) :
    Checked α := do
  let turns ← arithmetic.div (← arithmetic.fromInt (2 * i + 1)) (← arithmetic.fromInt (4 * n))
  let doubled ← arithmetic.mul (← arithmetic.fromInt 2) (← arithmetic.cosTurns turns)
  arithmetic.div (← arithmetic.fromInt 1) doubled

/-- The multipliers of `n` samples stand from `n / 2` on, for `n` from 4 to 256. -/
def multipliers
    (arithmetic : Arithmetic α) :
    Checked (List α) :=
  (List.range 7).foldlM
    (fun values level =>
      (List.range (4 * 2 ^ level / 2)).foldlM
        (fun values i => do
          store values (4 * 2 ^ level / 2 + i) (← multiplier arithmetic (4 * 2 ^ level) i))
        values)
    (List.replicate 256 arithmetic.zero)

def tables
    (arithmetic : Arithmetic α) :
    Checked (Tables α) := do
  let sqrt2 ← arithmetic.sqrt (← arithmetic.fromInt 2)
  let multipliers ← multipliers arithmetic
  return { sqrt2, multipliers }

/-! One dimension. -/

/-- Even weights go to the lower half of the work space, odd ones to the upper half. -/
def deal
    (input : Span)
    (input_stride half : Nat)
    (work : Span)
    (mem : List α)
    (i : Nat) :
    Checked (List α) := do
  let mem ← save mem work i (← load mem input (2 * i * input_stride))
  save mem work (half + i) (← load mem input ((2 * i + 1) * input_stride))

/-- Each odd weight takes its neighbour, from the last one down. -/
def addBelow
    (arithmetic : Arithmetic α)
    (n : Nat)
    (work : Span)
    (mem : List α)
    (step : Nat) :
    Checked (List α) := do
  let i := n - 1 - step
  save mem work i (← arithmetic.add (← load mem work i) (← load mem work (i - 1)))

/-- Two samples from the halves. -/
def butterfly
    (arithmetic : Arithmetic α)
    (tables : Tables α)
    (n half : Nat)
    (work output : Span)
    (output_stride : Nat)
    (mem : List α)
    (j : Nat) :
    Checked (List α) := do
  let odd ←
    arithmetic.mul (← load mem work (half + j)) (← index tables.multipliers (half + j))
  let mem ← save mem output (j * output_stride) (← arithmetic.add (← load mem work j) odd)
  save mem output ((n - j - 1) * output_stride) (← arithmetic.sub (← load mem work j) odd)

def inverse1D
    (arithmetic : Arithmetic α)
    (tables : Tables α)
    (n : Nat)
    (input : Span)
    (input_stride : Nat)
    (output : Span)
    (output_stride : Nat)
    (scratch : Span)
    (mem : List α) :
    Checked (List α) :=
  if n = 0 then
    -- The source calls itself without end.
    .error .running
  else if n = 1 then do
    save mem output 0 (← load mem input 0)
  else if n = 2 then do
    let a ← load mem input 0
    let b ← load mem input input_stride
    let mem ← save mem output 0 (← arithmetic.add a b)
    save mem output output_stride (← arithmetic.sub a b)
  else do
    let half := n / 2
    let work ← scratch.piece 0 n
    let next ← scratch.rest n
    let mem ← (List.range half).foldlM (deal input input_stride half work) mem
    let lower ← work.piece 0 half
    let mem ← inverse1D arithmetic tables (n / 2) lower 1 lower 1 next mem
    let mem ← (List.range (n - 1 - half)).foldlM (addBelow arithmetic n work) mem
    let mem ← save mem work half (← arithmetic.mul (← load mem work half) tables.sqrt2)
    let upper ← work.rest half
    let mem ← inverse1D arithmetic tables (n / 2) upper 1 upper 1 next mem
    (List.range half).foldlM
      (butterfly arithmetic tables n half work output output_stride) mem
  termination_by n

def foldSums
    (arithmetic : Arithmetic α)
    (values temp : Span)
    (mem : List α)
    (i : Nat) :
    Checked (List α) := do
  let sum ← arithmetic.add (← load mem values i) (← load mem values (values.len - i - 1))
  save mem temp i sum

def foldDifferences
    (arithmetic : Arithmetic α)
    (tables : Tables α)
    (half : Nat)
    (values temp : Span)
    (mem : List α)
    (i : Nat) :
    Checked (List α) := do
  let difference ←
    arithmetic.sub (← load mem values i) (← load mem values (values.len - i - 1))
  let odd ← arithmetic.mul difference (← index tables.multipliers (half + i))
  save mem temp (half + i) odd

/-- Each odd wave takes its neighbour, from the second one up. -/
def addAbove
    (arithmetic : Arithmetic α)
    (half : Nat)
    (temp : Span)
    (mem : List α)
    (step : Nat) :
    Checked (List α) := do
  let i := step + 1
  let sum ← arithmetic.add (← load mem temp (half + i)) (← load mem temp (half + i + 1))
  save mem temp (half + i) sum

/-- Even and odd waves take turns. -/
def interleave
    (half : Nat)
    (values temp : Span)
    (mem : List α)
    (i : Nat) :
    Checked (List α) := do
  let mem ← save mem values (2 * i) (← load mem temp i)
  save mem values (2 * i + 1) (← load mem temp (half + i))

/-- `n` is the length of `values`, which the source reads from the slice. -/
def forward1D
    (arithmetic : Arithmetic α)
    (tables : Tables α)
    (n : Nat)
    (values scratch : Span)
    (mem : List α) :
    Checked (List α) :=
  if n = 0 then
    .error .running
  else if n = 1 then
    return mem
  else if n = 2 then do
    let a ← load mem values 0
    let b ← load mem values 1
    let mem ← save mem values 0 (← arithmetic.add a b)
    save mem values 1 (← arithmetic.sub a b)
  else do
    let half := n / 2
    let temp ← scratch.piece 0 n
    let next ← scratch.rest n
    let mem ← (List.range half).foldlM (foldSums arithmetic values temp) mem
    let lower ← temp.piece 0 half
    let mem ← forward1D arithmetic tables (n / 2) lower next mem
    let mem ←
      (List.range half).foldlM (foldDifferences arithmetic tables half values temp) mem
    let upper ← temp.rest half
    let mem ← forward1D arithmetic tables (n / 2) upper next mem
    let first ←
      arithmetic.add (← arithmetic.mul (← load mem temp half) tables.sqrt2)
        (← load mem temp (half + 1))
    let mem ← save mem temp half first
    require (2 ≤ half)
    let mem ← (List.range (half - 2)).foldlM (addAbove arithmetic half temp) mem
    (List.range half).foldlM (interleave half values temp) mem
  termination_by n

/-! Two dimensions. -/

/-- Where the weights of a row start, and how far apart they are. -/
def layout
    (width height fy : Nat) :
    Nat × Nat :=
  if width ≤ height then (fy, height) else (fy * width, 1)

/-- `undefined` stands for what new memory holds. -/
def inverse
    (arithmetic : Arithmetic α)
    (tables : Tables α)
    (undefined : Nat → α)
    (width height : Nat)
    (coefficients pixels : List α)
    (stride : Nat) :
    Checked (List α) :=
  if width = 0 ∨ height = 0 ∨ 256 < width ∨ 256 < height ∨
      width &&& (width - 1) ≠ 0 ∨ height &&& (height - 1) ≠ 0 then
    fail .GenericError
  else
    let area := width * height
    if coefficients.length ≠ area ∨ stride < width ∨ pixels.length < width ∨
        (pixels.length - width) / stride < height - 1 then
      fail .GenericError
    else do
      let size := area + 2 * max width height
      let mem := coefficients ++ pixels ++ (List.range size).map undefined
      let input : Span := { start := 0, len := area }
      let output : Span := { start := area, len := pixels.length }
      let workspace : Span := { start := area + pixels.length, len := size }
      let intermediate ← workspace.piece 0 area
      let scratch ← workspace.rest area
      let mem ←
        (List.range height).foldlM
          (fun mem fy => do
            let (start, step) := layout width height fy
            let row ← input.rest start
            let target ← intermediate.rest (fy * width)
            inverse1D arithmetic tables width row step target 1 scratch mem)
          mem
      let mem ←
        (List.range width).foldlM
          (fun mem x => do
            let column ← intermediate.rest x
            let target ← output.rest x
            inverse1D arithmetic tables height column width target stride scratch mem)
          mem
      return (mem.drop area).take pixels.length

end Jxlz.InverseTransform
