import Jxlz.Base.Checked
import Jxlz.Modular.ModularImage

namespace Jxlz.Weighted

/-!
# The weighted predictor

Mirrors `weighted.zig`.  Four predictors run side by side; each is weighted by
how wrong it was in the neighbourhood.
-/

def kPredExtraBits : Nat := 3

def kPredictionRound : Int := 3

/--
The header of the weighted predictor.  It is the default one or was read from
the stream, which has five bits for each coefficient and four for each weight.
-/
structure Header where
  p1C : Fin 32 := 16
  p2C : Fin 32 := 10
  p3Ca : Fin 32 := 7
  p3Cb : Fin 32 := 7
  p3Cc : Fin 32 := 7
  p3Cd : Fin 32 := 0
  p3Ce : Fin 32 := 0
  w : Fin 4 → Fin 16 := ![13, 12, 12, 12]

/-- The header that says nothing. -/
def Header.initial : Header := {}

/-- The approximations of `2 ^ 24 / (i + 1)`. -/
def divlookup : List Nat := [
  16777216, 8388608, 5592405, 4194304, 3355443, 2796202, 2396745, 2097152,
  1864135, 1677721, 1525201, 1398101, 1290555, 1198372, 1118481, 1048576,
  986895, 932067, 883011, 838860, 798915, 762600, 729444, 699050,
  671088, 645277, 621378, 599186, 578524, 559240, 541200, 524288,
  508400, 493447, 479349, 466033, 453438, 441505, 430185, 419430,
  409200, 399457, 390167, 381300, 372827, 364722, 356962, 349525,
  342392, 335544, 328965, 322638, 316551, 310689, 305040, 299593,
  294337, 289262, 284359, 279620, 275036, 270600, 266305, 262144]

/-- Every entry is the quotient rounded down. -/
theorem divlookup_eq :
    divlookup = (List.range 64).map (fun i => 2 ^ 24 / (i + 1)) := by
  decide +kernel

/--
The state of the predictor.  Each buffer holds two rows of errors, the current
and the previous one, in an order that alternates from row to row.
-/
structure State where
  header : Header
  prediction : Fin 4 → Int := fun _ => 0
  pred : Int := 0
  wpProp : Int32 := 0
  predErrors : Fin 4 → Nat → UInt32 := fun _ _ => 0
  errors : Nat → Int32 := fun _ => 0

namespace State

def init
    (header : Header) :
    State :=
  { header }

def addBits
    (x : Int) :
    Int :=
  x * 2 ^ kPredExtraBits

/-- The weight of a predictor whose recent errors sum to `x`. -/
def errorWeight
    (x maxweight : Nat) :
    Nat :=
  let shift := Nat.log2 (x + 1) - 5
  let shift5 := min shift 31
  4 + ((maxweight * divlookup.getD (x >>> shift) 0) >>> shift5)

/-- The average of the predictions under weights scaled down to six bits. -/
def weightedAverage
    (p : Fin 4 → Int)
    (w : Fin 4 → Nat) :
    Int :=
  let logWeight := Nat.log2 (∑ i, w i)
  let shift := if 4 ≤ logWeight then logWeight - 4 else 0
  let scaled := fun i => w i >>> shift
  let weightSum := ∑ i, scaled i
  let sum := ((weightSum >>> 1 : Nat) : Int) - 1 + ∑ i, p i * scaled i
  (sum * divlookup.getD (weightSum - 1) 0) >>> (24 : Nat)

/-- The wider of the two errors; the first one where they are equally wide. -/
def widerError
    (p te : Int) :
    Int :=
  if |p| < |te| then te else p

/--
The prediction at a pixel.  The wide prediction and the four it averages stay
in the state for `updateErrors`; the tree property is kept up to date only when
some tree node reads it.
-/
def predictImpl
    (self : State)
    (trackWPProp : Bool)
    (x y xsize : Nat)
    (nIn wIn neIn nwIn nnIn : Int) :
    State × Int :=
  let curRow := if y % 2 = 1 then 0 else xsize + 2
  let prevRow := if y % 2 = 1 then xsize + 2 else 0
  let posN := prevRow + x
  let posNE := if x < xsize - 1 then posN + 1 else posN
  let posNW := if 0 < x then posN - 1 else posN
  let weights := fun i =>
    errorWeight
      (self.predErrors i posN + self.predErrors i posNE +
        self.predErrors i posNW).toNat
      (self.header.w i)
  let n := addBits nIn
  let w := addBits wIn
  let ne := addBits neIn
  let nw := addBits nwIn
  let nn := addBits nnIn
  let errW : Int32 := if x = 0 then 0 else self.errors (curRow + x - 1)
  let errN := self.errors posN
  let errNW := self.errors posNW
  let errNE := self.errors posNE
  let teW := errW.toInt
  let teN := errN.toInt
  let teNW := errNW.toInt
  let teNE := errNE.toInt
  let sumWN := teN + teW
  let wpProp :=
    if trackWPProp then
      Int32.ofInt (widerError (widerError (widerError teW teN) teNW) teNE)
    else
      self.wpProp
  let prediction : Fin 4 → Int := ![
    w + ne - n,
    n - ((sumWN + teNE) * self.header.p1C.val) >>> (5 : Nat),
    w - ((sumWN + teNW) * self.header.p2C.val) >>> (5 : Nat),
    n -
      (teNW * self.header.p3Ca.val + teN * self.header.p3Cb.val +
        teNE * self.header.p3Cc.val + (nn - n) * self.header.p3Cd.val +
        (nw - w) * self.header.p3Ce.val) >>> (5 : Nat)]
  let average := weightedAverage prediction weights
  -- Sign extension commutes with the bit operations: they are taken before it.
  let pred :=
    if 0 < ((errN ^^^ errW) ||| (errN ^^^ errNW)) then
      average
    else
      max (min w (min ne n)) (min (max w (max ne n)) average)
  ({ self with prediction, pred, wpProp },
    (pred + kPredictionRound) >>> kPredExtraBits)

def predictNoProps
    (self : State)
    (x y xsize : Nat)
    (nIn wIn neIn nwIn nnIn : Int) :
    State × Int :=
  self.predictImpl true x y xsize nIn wIn neIn nwIn nnIn

def predictNoWPProp
    (self : State)
    (x y xsize : Nat)
    (nIn wIn neIn nwIn nnIn : Int) :
    State × Int :=
  self.predictImpl false x y xsize nIn wIn neIn nwIn nnIn

/-- Record how wrong each predictor was at a pixel. -/
def updateErrors
    (self : State)
    (valIn : Int)
    (x y xsize : Nat) :
    State :=
  let curRow := if y % 2 = 1 then 0 else xsize + 2
  let prevRow := if y % 2 = 1 then xsize + 2 else 0
  let val := addBits valIn
  let err := fun i =>
    UInt32.ofInt ((|self.prediction i - val| + kPredictionRound) >>> kPredExtraBits)
  { self with
    errors := Function.update self.errors (curRow + x) (Int32.ofInt (self.pred - val))
    predErrors := fun i =>
      let written := Function.update (self.predErrors i) (curRow + x) (err i)
      Function.update written (prevRow + x + 1)
        (written (prevRow + x + 1) + err i) }

end State

end Jxlz.Weighted
