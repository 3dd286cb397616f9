import Jxlz.Base.Checked
import Jxlz.Modular.DecMa
import Jxlz.Modular.Weighted

namespace Jxlz

/-!
# Context prediction

Mirrors `context_predict.zig`: the pixel predictors, the plan of the properties
that a filtered tree reads, the lookup in a filtered tree and the filter itself,
which decides the splits on static properties and merges two levels of the tree
into one node.
-/

namespace ContextPredict

def kExtraPropsPerChannel : Nat := 4

def kNumNonrefProperties : Nat := 16

/-- The property that holds the error of the weighted predictor. -/
def kWPProp : Nat := 15

def kGradientProp : Nat := 9

def kMaxPropertyIndex : Nat := 256

/-- The properties that pixel coding has to keep up to date. -/
structure PropertyUsePlan where
  used : Nat → Bool := fun _ => false
  referenceProps : List Nat := []

namespace PropertyUsePlan

def mark
    (self : PropertyUsePlan)
    (property : Int) :
    PropertyUsePlan :=
  if property < kNumStaticProperties then
    self
  else
    let idx := property.toNat
    if kMaxPropertyIndex ≤ idx ∨ self.used idx then
      self
    else
      { used := Function.update self.used idx true
        referenceProps :=
          if kNumNonrefProperties ≤ idx then
            self.referenceProps ++ [idx]
          else
            self.referenceProps }

/-- Sort the reference properties. -/
def finalize
    (self : PropertyUsePlan) :
    PropertyUsePlan :=
  { self with
    referenceProps := self.referenceProps.insertionSort (· ≤ ·) }

def uses
    (self : PropertyUsePlan)
    (property : Nat) :
    Bool :=
  property < kMaxPropertyIndex && self.used property

def needsLocalGradientHistory
    (self : PropertyUsePlan) :
    Bool :=
  self.uses 8 || self.uses 9

def usesReferenceProps
    (self : PropertyUsePlan) :
    Bool :=
  self.referenceProps.length ≠ 0

end PropertyUsePlan

/-- The gradient of three neighbours, kept between the first two. -/
def clampedGradient
    (width : Nat)
    (n w l : Int) :
    Int :=
  let m := min n w
  let M := max n w
  let grad := (n + w - l).bmod (2 ^ width)
  if M < l then m else if l < m then M else grad

def select
    (a b c : Int) :
    Int :=
  let p := a + b - c
  let pa := if p - a < 0 then -(p - a) else p - a
  let pb := if p - b < 0 then -(p - b) else p - b
  if pa < pb then a else b

/-- The neighbours of a pixel, as the loops over pixels compute them. -/
structure Neighbors where
  left : Int
  top : Int
  topleft : Int
  topright : Int
  leftleft : Int
  toptop : Int
  toprightright : Int
  deriving Repr, DecidableEq

/-- The neighbours in a plane of the given width, with their stand-ins. -/
def Neighbors.at
    (sample : Nat → Nat → Int32)
    (w y x : Nat) :
    Neighbors :=
  let left : Int :=
    if 0 < x then
      (sample y (x - 1)).toInt
    else if 0 < y then
      (sample (y - 1) x).toInt
    else
      0
  let top := if 0 < y then (sample (y - 1) x).toInt else left
  let topleft :=
    if 0 < x ∧ 0 < y then (sample (y - 1) (x - 1)).toInt else left
  let topright :=
    if x + 1 < w ∧ 0 < y then (sample (y - 1) (x + 1)).toInt else top
  let leftleft := if 1 < x then (sample y (x - 2)).toInt else left
  let toptop := if 1 < y then (sample (y - 2) x).toInt else top
  let toprightright :=
    if x + 2 < w ∧ 0 < y then (sample (y - 1) (x + 2)).toInt else topright
  { left, top, topleft, topright, leftleft, toptop, toprightright }

/-- The prediction of one predictor. -/
def predictOne
    (p : Predictor)
    (n : Neighbors)
    (wpPred : Int) :
    Int :=
  match p with
  | .zero => 0
  | .left => n.left
  | .top => n.top
  | .select => select n.left n.top n.topleft
  | .weighted => wpPred
  | .gradient => clampedGradient 64 n.left n.top n.topleft
  | .top_left => n.topleft
  | .top_right => n.topright
  | .left_left => n.leftleft
  | .average0 => (n.left + n.top).tdiv 2
  | .average1 => (n.left + n.topleft).tdiv 2
  | .average2 => (n.topleft + n.top).tdiv 2
  | .average3 => (n.top + n.topright).tdiv 2
  | .average4 =>
      (6 * n.top - 2 * n.toptop + 7 * n.left + n.leftleft +
        n.toprightright + 3 * n.topright + 8).tdiv 16
  | _ => 0

/--
A node of a filtered tree: a leaf, whose property is negative, or a split with
the splits of both its children, so that one lookup step goes down two levels.
-/
structure FlatDecisionNode where
  property0 : Int := -1
  splitval0 : Int32 := 0
  predictor : Predictor := .zero
  splitvals : Int32 × Int32 := (0, 0)
  multiplier : Int32 := 1
  childID : Nat := 0
  properties : Int × Int := (0, 0)
  predictorOffset : Int64 := 0
  deriving Repr, DecidableEq

/-- The flat node of a leaf; its context is the number of the leaf. -/
def FlatDecisionNode.ofLeaf
    (node : PropertyDecisionNode)
    (multiplier : Int32) :
    FlatDecisionNode :=
  { property0 := -1
    childID := node.lchild
    predictor := node.predictor
    predictorOffset := node.predictorOffset
    multiplier }

/-- What the lookup of a pixel's properties returns. -/
structure LookupResult where
  context : Nat
  predictor : Predictor
  offset : Int64
  multiplier : Int32
  deriving Repr, DecidableEq

namespace MATreeLookup

/-- The lookup from a node on; the fuel bounds the number of nodes visited. -/
def lookupFrom
    (nodes : List FlatDecisionNode)
    (properties : Nat → Int32) :
    Nat → Nat → Checked LookupResult
  | 0, _ => .error .running
  | fuel + 1, pos => do
      let node ← index nodes pos
      if node.property0 < 0 then
        return {
          context := node.childID
          predictor := node.predictor
          offset := node.predictorOffset
          multiplier := node.multiplier }
      else
        let p0 := properties node.property0.toNat ≤ node.splitval0
        let off0 :=
          if properties node.properties.1.toNat ≤ node.splitvals.1 then 1 else 0
        let off1 :=
          2 ||| if properties node.properties.2.toNat ≤ node.splitvals.2 then 1 else 0
        lookupFrom nodes properties fuel
          (node.childID + if p0 then off1 else off0)

def lookup
    (nodes : List FlatDecisionNode)
    (properties : Nat → Int32) :
    Checked LookupResult :=
  lookupFrom nodes properties nodes.length 0

end MATreeLookup

namespace FilterTree

/-- Skip the nodes that static properties decide. -/
def skipStatic
    (globalTree : List PropertyDecisionNode)
    (staticProps : List Int32) :
    Nat → Nat → Checked Nat
  | 0, _ => .error .running
  | fuel + 1, cur => do
      let node ← index globalTree cur
      if 0 ≤ node.property ∧ node.property < kNumStaticProperties then
        let value ← index staticProps node.property.toNat
        skipStatic globalTree staticProps fuel
          (if node.splitval < value then node.lchild else node.rchild)
      else
        return cur

/-- The variables of the filter's loop. -/
structure State where
  queue : List Nat
  output : List FlatDecisionNode := []
  numProps : Nat := 0
  hasWp : Bool := false
  hasNonWp : Bool := false
  gradientOnly : Bool := true
  propertyUse : PropertyUsePlan := {}

/-- What a split keeps of one of its children. -/
structure Child where
  property : Int
  splitval : Int32
  queued : List Nat
  numProps : Nat

/-- One child of a split, with the nodes it puts in the queue. -/
def child
    (globalTree : List PropertyDecisionNode)
    (staticProps : List Int32)
    (position : Nat) :
    Checked Child := do
  let curChild ← skipStatic globalTree staticProps globalTree.length position
  let node ← index globalTree curChild
  if node.property = -1 then
    return {
      property := 0
      splitval := 0
      queued := [curChild, curChild]
      numProps := 0 }
  else
    require (0 ≤ node.property)
    return {
      property := node.property
      splitval := node.splitval
      queued := [node.lchild, node.rchild]
      numProps := node.property.toNat + 1 }

/-- Note one property of a new split. -/
def noteProperty
    (state : State)
    (prop : Int) :
    State :=
  { state with
    hasWp := state.hasWp || prop = kWPProp
    hasNonWp :=
      state.hasNonWp || (prop ≠ kWPProp && kNumStaticProperties ≤ prop)
    gradientOnly :=
      state.gradientOnly &&
        !(kNumStaticProperties ≤ prop && prop ≠ kGradientProp)
    propertyUse := state.propertyUse.mark prop }

/-- Append a leaf. -/
def leaf
    (state : State)
    (node : PropertyDecisionNode)
    (multiplier : Int32) :
    State :=
  let flat := FlatDecisionNode.ofLeaf node multiplier
  { state with
    gradientOnly := state.gradientOnly && flat.predictor = .gradient
    hasWp := state.hasWp || flat.predictor = .weighted
    hasNonWp := state.hasNonWp || flat.predictor ≠ .weighted
    output := state.output ++ [flat] }

/-- Append a split and queue the children of its children. -/
def split
    (state : State)
    (node : PropertyDecisionNode)
    (childID : Nat)
    (left right : Child) :
    State :=
  let flat : FlatDecisionNode :=
    { childID
      property0 := node.property
      splitval0 := node.splitval
      properties := (left.property, right.property)
      splitvals := (left.splitval, right.splitval) }
  [flat.property0, flat.properties.1, flat.properties.2].foldl noteProperty
    { state with
      numProps :=
        max right.numProps
          (max left.numProps (max (node.property.toNat + 1) state.numProps))
      queue := state.queue ++ (left.queued ++ right.queued)
      output := state.output ++ [flat] }

/-- One round of the loop: `first` was taken from the front of the queue. -/
def step
    (globalTree : List PropertyDecisionNode)
    (staticProps : List Int32)
    (first : Nat)
    (state : State) :
    Checked State := do
  let cur ← skipStatic globalTree staticProps globalTree.length first
  let node ← index globalTree cur
  if node.property = -1 then
    let multiplier ← toI32 node.multiplier
    return leaf state node multiplier
  else
    let childID ← castU 32 (state.output.length + state.queue.length + 1)
    require (0 ≤ node.property)
    let left ← child globalTree staticProps node.lchild
    let right ← child globalTree staticProps node.rchild
    return split state node childID left right

/-- The loop: breadth first until the queue is empty. -/
def loop
    (globalTree : List PropertyDecisionNode)
    (staticProps : List Int32) :
    Nat → State → Checked State
  | 0, _ => .error .running
  | fuel + 1, state =>
      match state.queue with
      | [] => .ok state
      | first :: rest => do
          let state ← step globalTree staticProps first { state with queue := rest }
          loop globalTree staticProps fuel state

/-- Enough rounds for a tree none of whose paths has more than `room` splits. -/
def maxRounds : Nat → Nat
  | 0 => 1
  | room + 1 => 1 + 4 * maxRounds room

end FilterTree

/-- The results of `filterTree`. -/
structure FilteredTree where
  flatTree : List FlatDecisionNode
  numProps : Nat
  useWp : Bool
  wpOnly : Bool
  gradientOnly : Bool
  propertyUse : PropertyUsePlan

/-- The tree without its static splits, two levels a node, in breadth-first order. -/
def filterTree
    (globalTree : List PropertyDecisionNode)
    (staticProps : List Int32) :
    Checked FilteredTree := do
  let fuel := FilterTree.maxRounds globalTree.length
  let state ← FilterTree.loop globalTree staticProps fuel { queue := [0] }
  let extra := state.numProps - kNumNonrefProperties
  return {
    flatTree := state.output
    numProps :=
      if kNumNonrefProperties < state.numProps then
        ((extra + kExtraPropsPerChannel - 1) / kExtraPropsPerChannel) *
            kExtraPropsPerChannel +
          kNumNonrefProperties
      else
        kNumNonrefProperties
    useWp := state.hasWp
    wpOnly := state.hasWp && !state.hasNonWp
    gradientOnly := state.gradientOnly
    propertyUse := state.propertyUse.finalize }

end ContextPredict

end Jxlz
