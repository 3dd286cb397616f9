import Jxlz.Base.SoftFloat
import Jxlz.Base.BitReader
import Jxlz.Modular.Weighted

namespace Jxlz.Weighted

/-!
# The weighted predictor on its buffers

`State` computes with integers and with arrays that never end.  The functions
here are the same ones with the types of the source: every sum, product and
cast is checked at its width, and the errors stand in buffers of two rows.
-/

/-- A signed result of the given width. -/
def fitI
    (width : Nat)
    (value : Int) :
    Checked Int :=
  if -2 ^ (width - 1) ≤ value ∧ value < 2 ^ (width - 1) then
    .ok value
  else
    .error .trap

/-- `-%` on a `u32`. -/
def subWrap32
    (first second : Nat) :
    Nat :=
  (first + (2 ^ 32 - second)) % 2 ^ 32

theorem fitI_ok
    {width : Nat}
    {value : Int}
    (large : -2 ^ (width - 1) ≤ value)
    (small : value < 2 ^ (width - 1)) :
    fitI width value = .ok value := by
  rw [fitI, if_pos ⟨large, small⟩]

theorem fitI64_ok
    {value : Int}
    (small : |value| ≤ 2 ^ 62) :
    fitI 64 value = .ok value := by
  obtain ⟨below, above⟩ := abs_le.1 small
  exact fitI_ok (by norm_num at *; omega) (by norm_num at *; omega)

theorem addI64_small
    {first second : Int}
    (small : |first + second| ≤ 2 ^ 62) :
    addI64 first second = .ok (first + second) := by
  obtain ⟨below, above⟩ := abs_le.1 small
  exact addI64_ok (by norm_num at *; omega) (by norm_num at *; omega)

theorem subWrap32_eq
    {first second : Nat}
    (small : first < 2 ^ 32)
    (fits : second ≤ first) :
    subWrap32 first second = first - second := by
  have wraps : first + (2 ^ 32 - second) = first - second + 2 ^ 32 := by
    omega
  rw [subWrap32, wraps, Nat.add_mod_right, Nat.mod_eq_of_lt (by omega)]

namespace Header

end Header

/-- The state of the predictor with its buffers as they are allocated. -/
structure Buffers where
  header : Header
  prediction : Fin 4 → Int := fun _ => 0
  pred : Int := 0
  wpProp : Int32 := 0
  predErrors : Fin 4 → List UInt32
  errors : List Int32

namespace Buffers

/-- Buffers filled with zeros; there is no memory for more than `2 ^ 64` bytes. -/
def init
    (header : Header)
    (xsize : Nat) :
    Checked Buffers := do
  let row ← addU 64 xsize 2
  let bufSize ← mulU 64 row 2
  if bufSize * 4 < 2 ^ 64 then
    return {
      header
      predErrors := fun _ => List.replicate bufSize 0
      errors := List.replicate bufSize 0 }
  else
    fail .OutOfMemory

/-- The bits above the width are dropped. -/
def addBits
    (x : Int) :
    Int :=
  (x * 2 ^ kPredExtraBits).bmod (2 ^ 64)

def floorLog2Nonzero
    (v : Nat) :
    Checked Nat := do
  let floor ← subU 63 (clz64 v)
  castU 6 floor

def errorWeight
    (x maxweight : Nat) :
    Checked Nat := do
  let next ← addU 64 x 1
  let floor ← floorLog2Nonzero next
  let shiftRaw ← addI32 floor (-5)
  let shift ← (if shiftRaw < 0 then pure 0 else castU 6 shiftRaw.toNat)
  let shift5 ← castU 5 (min shift 31)
  let quotient ← index divlookup (x >>> shift)
  let product ← mulU 32 maxweight quotient
  addU 32 4 (product >>> shift5)

def sumOfWeights
    (w : Fin 4 → Nat) :
    Checked Nat :=
  (List.finRange 4).foldlM (fun sum i => addU 32 sum (w i)) 0

/-- One term of the weighted sum. -/
def addWeighted
    (p : Fin 4 → Int)
    (w : Fin 4 → Nat)
    (sum : Int)
    (i : Fin 4) :
    Checked Int := do
  let product ← fitI 64 (p i * w i)
  addI64 sum product

def weightedAverage
    (p : Fin 4 → Int)
    (w : Fin 4 → Nat) :
    Checked Int := do
  let total ← sumOfWeights w
  let logWeight ← floorLog2Nonzero total
  let shift ← (if 4 ≤ logWeight then subU logWeight 4 else pure 0)
  let shift ← castU 5 shift
  let scaled := fun i => w i >>> shift
  let weightSum ← sumOfWeights scaled
  let start ← fitI 64 (subWrap32 (weightSum >>> 1) 1)
  let sum ← (List.finRange 4).foldlM (addWeighted p scaled) start
  let quotient ← index divlookup (subWrap32 weightSum 1)
  let product ← fitI 128 (sum * quotient)
  fitI 64 (product >>> (24 : Nat))

def absW
    (x : Int) :
    Checked Int :=
  if x < 0 then fitI 64 (-x) else pure x

/-- The wider of the two errors; the first one where they are equally wide. -/
def widerError
    (p te : Int) :
    Checked Int := do
  let wide ← absW te
  let narrow ← absW p
  return if narrow < wide then te else p

/-- Where the current and the previous row start. -/
def rows
    (y xsize : Nat) :
    Checked (Nat × Nat) := do
  if y % 2 = 1 then do
    let prevRow ← addU 64 xsize 2
    return (0, prevRow)
  else do
    let curRow ← addU 64 xsize 2
    return (curRow, 0)

/-- The positions above a pixel, to the right of it and to the left of it. -/
def positions
    (prevRow x xsize : Nat) :
    Checked (Nat × Nat × Nat) := do
  let posN ← addU 64 prevRow x
  let last ← subU xsize 1
  let posNE ← (if x < last then addU 64 posN 1 else pure posN)
  let posNW ← (if 0 < x then subU posN 1 else pure posN)
  return (posN, posNE, posNW)

/-- The weight of one predictor. -/
def weight
    (self : Buffers)
    (posN posNE posNW : Nat)
    (i : Fin 4) :
    Checked Nat := do
  let north ← index (self.predErrors i) posN
  let northEast ← index (self.predErrors i) posNE
  let northWest ← index (self.predErrors i) posNW
  errorWeight (north + northEast + northWest).toNat (self.header.w i)

/-- The error to the left of a pixel. -/
def leftError
    (self : Buffers)
    (curRow x : Nat) :
    Checked Int32 := do
  if x = 0 then
    return 0
  else do
    let place ← addU 64 curRow x
    let place ← subU place 1
    index self.errors place

/-- The tree property: the widest error around a pixel. -/
def widestError
    (teW teN teNW teNE : Int) :
    Checked Int32 := do
  let p ← widerError teW teN
  let p ← widerError p teNW
  let p ← widerError p teNE
  toI32 p

/-- One of the middle predictors: a sample less a share of the errors. -/
def lessShare
    (sample errors : Int)
    (coefficient : Fin 32) :
    Checked Int := do
  let product ← fitI 64 (errors * coefficient.val)
  fitI 64 (sample - product >>> (5 : Nat))

/-- The last predictor. -/
def mixedPrediction
    (header : Header)
    (n w nw nn teN teNW teNE : Int) :
    Checked Int := do
  let termNW ← fitI 64 (teNW * header.p3Ca.val)
  let termN ← fitI 64 (teN * header.p3Cb.val)
  let sum ← addI64 termNW termN
  let termNE ← fitI 64 (teNE * header.p3Cc.val)
  let sum ← addI64 sum termNE
  let above ← fitI 64 (nn - n)
  let termAbove ← fitI 64 (above * header.p3Cd.val)
  let sum ← addI64 sum termAbove
  let beside ← fitI 64 (nw - w)
  let termBeside ← fitI 64 (beside * header.p3Ce.val)
  let sum ← addI64 sum termBeside
  fitI 64 (n - sum >>> (5 : Nat))

/-- The four predictions. -/
def predictions
    (header : Header)
    (n w ne nw nn teW teN teNW teNE : Int) :
    Checked (Fin 4 → Int) := do
  let sumWN ← addI64 teN teW
  let across ← addI64 w ne
  let first ← fitI 64 (across - n)
  let right ← addI64 sumWN teNE
  let second ← lessShare n right header.p1C
  let left ← addI64 sumWN teNW
  let third ← lessShare w left header.p2C
  let fourth ← mixedPrediction header n w nw nn teN teNW teNE
  return ![first, second, third, fourth]

def predictImpl
    (self : Buffers)
    (trackWPProp : Bool)
    (x y xsize : Nat)
    (nIn wIn neIn nwIn nnIn : Int) :
    Checked (Buffers × Int) := do
  let (curRow, prevRow) ← rows y xsize
  let (posN, posNE, posNW) ← positions prevRow x xsize
  let weight0 ← self.weight posN posNE posNW 0
  let weight1 ← self.weight posN posNE posNW 1
  let weight2 ← self.weight posN posNE posNW 2
  let weight3 ← self.weight posN posNE posNW 3
  let n := addBits nIn
  let w := addBits wIn
  let ne := addBits neIn
  let nw := addBits nwIn
  let nn := addBits nnIn
  let errW ← self.leftError curRow x
  let errN ← index self.errors posN
  let errNW ← index self.errors posNW
  let errNE ← index self.errors posNE
  let wpProp ←
    (if trackWPProp then
      widestError errW.toInt errN.toInt errNW.toInt errNE.toInt
    else
      pure self.wpProp)
  let prediction ←
    predictions self.header n w ne nw nn errW.toInt errN.toInt errNW.toInt
      errNE.toInt
  let average ←
    weightedAverage prediction ![weight0, weight1, weight2, weight3]
  -- Sign extension commutes with the bit operations: they are taken before it.
  let pred :=
    if 0 < ((errN ^^^ errW) ||| (errN ^^^ errNW)) then
      average
    else
      max (min w (min ne n)) (min (max w (max ne n)) average)
  let rounded ← addI64 pred kPredictionRound
  return ({ self with prediction, pred, wpProp }, rounded >>> kPredExtraBits)

/-- Record the error of one predictor. -/
def updatePredErrors
    (self : Buffers)
    (val : Int)
    (curRow prevRow x : Nat)
    (i : Fin 4) :
    Checked (List UInt32) := do
  let difference ← fitI 64 (self.prediction i - val)
  let absDiff ← absW difference
  let rounded ← addI64 absDiff kPredictionRound
  let shifted := rounded >>> kPredExtraBits
  require (0 ≤ shifted)
  let err := UInt32.ofInt shifted
  let place ← addU 64 curRow x
  let written ← store (self.predErrors i) place err
  let below ← addU 64 prevRow x
  let below ← addU 64 below 1
  let before ← index written below
  store written below (before + err)

def updateErrors
    (self : Buffers)
    (valIn : Int)
    (x y xsize : Nat) :
    Checked Buffers := do
  let (curRow, prevRow) ← rows y xsize
  let val := addBits valIn
  let difference ← fitI 64 (self.pred - val)
  let place ← addU 64 curRow x
  let errors ← store self.errors place (Int32.ofInt difference)
  let errors0 ← self.updatePredErrors val curRow prevRow x 0
  let errors1 ← self.updatePredErrors val curRow prevRow x 1
  let errors2 ← self.updatePredErrors val curRow prevRow x 2
  let errors3 ← self.updatePredErrors val curRow prevRow x 3
  return { self with errors, predErrors := ![errors0, errors1, errors2, errors3] }

end Buffers

/-- A call of the pixel loops, with the samples that it passes. -/
inductive Call where
  | predict (trackWPProp : Bool) (x y : Nat) (n w ne nw nn : Int32)
  | updateErrors (val : Int32) (x y : Nat)

namespace Call

/-- The column of the pixel. -/
def x : Call → Nat
  | .predict _ x _ _ _ _ _ _ => x
  | .updateErrors _ x _ => x

/-- The state after a call in a channel of the given width. -/
def run
    (xsize : Nat)
    (self : Buffers) :
    Call → Checked Buffers
  | .predict trackWPProp x y n w ne nw nn => do
      let (after, _) ←
        self.predictImpl trackWPProp x y xsize n.toInt w.toInt ne.toInt nw.toInt
          nn.toInt
      return after
  | .updateErrors val x y => self.updateErrors val.toInt x y xsize

/-- The state of integers after a call. -/
def apply
    (xsize : Nat)
    (self : State) :
    Call → State
  | .predict trackWPProp x y n w ne nw nn =>
      (self.predictImpl trackWPProp x y xsize n.toInt w.toInt ne.toInt nw.toInt
        nn.toInt).1
  | .updateErrors val x y => self.updateErrors val.toInt x y xsize

end Call

end Jxlz.Weighted
