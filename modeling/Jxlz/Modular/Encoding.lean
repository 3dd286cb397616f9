import Jxlz.Base.PackSigned
import Jxlz.Lib.Agree
import Jxlz.Modular.ContextPredict

namespace Jxlz.Modular

open ContextPredict

/-!
# Decoding a modular channel

Mirrors the pixel loops of `encoding.zig`.  The entropy decoder is a source of
symbols: it takes a context and its own state and may fail.
-/

/-- Reads the next symbol in a context. -/
abbrev SymbolSource (σ : Type) := Nat → σ → Checked (Nat × σ)

/-- The next symbol, as the `u32` that the pixel loops cast it to. -/
def readNext
    {σ : Type}
    (source : SymbolSource σ)
    (context : Nat)
    (input : σ) :
    Checked (UInt32 × σ) := do
  let (symbol, input) ← source context input
  let v ← castU 32 symbol
  return (UInt32.ofNat v, input)

/-- The sample of a symbol; wrapping in 64 bits and truncating is one remainder. -/
def makePixel
    (v : UInt32)
    (multiplier : Int32)
    (offset : Int) :
    Int32 :=
  Int32.ofInt ((unpackSigned v).toInt * multiplier.toInt + offset)

/-- `@truncate` to a sample. -/
def truncate
    (value : Int) :
    Checked Int32 :=
  .ok (Int32.ofInt value)

/-! The property sets with a loop of their own. -/

def kMaskProp9 : Nat := 1 <<< 0

def kMaskProp10 : Nat := 1 <<< 1

def kMaskProp11 : Nat := 1 <<< 2

def kMaskProp12 : Nat := 1 <<< 3

def kMaskProp13 : Nat := 1 <<< 4

def kMaskProp15 : Nat := 1 <<< 5

def propertyMaskBit : Nat → Option Nat
  | 9 => some kMaskProp9
  | 10 => some kMaskProp10
  | 11 => some kMaskProp11
  | 12 => some kMaskProp12
  | 13 => some kMaskProp13
  | 15 => some kMaskProp15
  | _ => none

/-- The mask of the used properties, where all of them have a mask bit. -/
def specializedPropertyMask
    (propertyUse : PropertyUsePlan) :
    Option Nat :=
  if propertyUse.usesReferenceProps then
    none
  else
    ((List.range kNumNonrefProperties).drop kNumStaticProperties).foldlM
      (fun mask propertyIndex =>
        if propertyUse.uses propertyIndex then
          (propertyMaskBit propertyIndex).map (mask ||| ·)
        else
          some mask)
      0

def popCount
    (mask : Nat) :
    Nat :=
  ((List.range 8).filter mask.testBit).length

/-- The place of a property among those of the mask; zero is for all others. -/
def compactPropertySlot
    (propertyMask propertyBit : Nat) :
    Nat :=
  if propertyMask &&& propertyBit = 0 then
    0
  else
    1 + popCount (propertyMask &&& (propertyBit - 1))

def remapPropertyIndex
    (propertyMask : Nat)
    (propertyIndex : Int) :
    Checked Int :=
  if propertyIndex = 0 then
    return 0
  else
    match propertyMaskBit propertyIndex.toNat with
    | some bit => return compactPropertySlot propertyMask bit
    | none => .error .trap

def kCompactNoRefLeaf : Nat := 255

def kInlineCompactNoRefTreeNodes : Nat := 128

/-- A node of the dense layout; a leaf has the largest property. -/
structure CompactNoRefNode where
  property0 : Nat := kCompactNoRefLeaf
  property1 : Nat := 0
  property2 : Nat := 0
  predictorTag : Nat := 0
  childId : Nat := 0
  splitval0 : Int32 := 0
  splitval1 : Int32 := 0
  splitval2 : Int32 := 0
  multiplier : Int32 := 1
  predictorOffset : Int64 := 0
  deriving Repr, DecidableEq

def remapNoRefMaskNode
    (propertyMask : Nat)
    (node : FlatDecisionNode) :
    Checked FlatDecisionNode :=
  if node.property0 < 0 then
    return node
  else do
    let property0 ← remapPropertyIndex propertyMask node.property0
    let property1 ← remapPropertyIndex propertyMask node.properties.1
    let property2 ← remapPropertyIndex propertyMask node.properties.2
    return { node with property0, properties := (property1, property2) }

/-- The tree over the slots of the mask's properties. -/
def remapNoRefMaskTree
    (propertyMask : Nat)
    (flatTree : List FlatDecisionNode) :
    Checked (List FlatDecisionNode) :=
  flatTree.mapM (remapNoRefMaskNode propertyMask)

def isByte
    (property : Int) :
    Prop :=
  0 ≤ property ∧ property ≤ 255
  deriving Decidable

/-- The dense form of a node, where its fields fit. -/
def compactNoRefNode
    (node : FlatDecisionNode) :
    Option CompactNoRefNode :=
  if node.property0 < 0 then
    if 65535 < node.childID then
      none
    else
      some {
        predictorTag := node.predictor.tag
        childId := node.childID
        multiplier := node.multiplier
        predictorOffset := node.predictorOffset }
  else if isByte node.property0 ∧ isByte node.properties.1 ∧
      isByte node.properties.2 ∧ node.childID ≤ 65535 then
    some {
      property0 := node.property0.toNat
      property1 := node.properties.1.toNat
      property2 := node.properties.2.toNat
      childId := node.childID
      splitval0 := node.splitval0
      splitval1 := node.splitvals.1
      splitval2 := node.splitvals.2 }
  else
    none

/-- The dense form of a tree, where it fits into the given number of nodes. -/
def compactNoRefTree
    (flatTree : List FlatDecisionNode)
    (storage : Nat) :
    Option (List CompactNoRefNode) :=
  if storage < flatTree.length ∨ 65535 < flatTree.length then
    none
  else
    flatTree.mapM compactNoRefNode

/-- The lookup in a dense tree from a node on. -/
def compactNoRefLookupFrom
    (nodes : List CompactNoRefNode)
    (properties : Nat → Int32) :
    Nat → Nat → Checked LookupResult
  | 0, _ => .error .running
  | fuel + 1, pos => do
      let node ← index nodes pos
      if node.property0 = kCompactNoRefLeaf then
        match Predictor.ofTag node.predictorTag with
        | some predictor =>
            return {
              context := node.childId
              predictor
              offset := node.predictorOffset
              multiplier := node.multiplier }
        | none => .error .trap
      else
        let p0 := properties node.property0 ≤ node.splitval0
        let off0 := if properties node.property1 ≤ node.splitval1 then 1 else 0
        let off1 :=
          2 ||| if properties node.property2 ≤ node.splitval2 then 1 else 0
        compactNoRefLookupFrom nodes properties fuel
          (node.childId + if p0 then off1 else off0)

def compactNoRefLookup
    (nodes : List CompactNoRefNode)
    (properties : Nat → Int32) :
    Checked LookupResult :=
  compactNoRefLookupFrom nodes properties nodes.length 0

/-! Properties of the channels before the current one. -/

/-- The reference properties of a row: a column and a property offset. -/
abbrev References := Nat → Nat → Int32

/-- The four properties that one earlier channel contributes to a column. -/
def referenceValues
    (sample : Nat → Nat → Int32)
    (y x : Nat) :
    List Int :=
  let v := (sample y x).toInt
  let vleft := if 0 < x then (sample y (x - 1)).toInt else 0
  let vtop := if 0 < y then (sample (y - 1) x).toInt else vleft
  let vtopleft :=
    if 0 < x ∧ 0 < y then (sample (y - 1) (x - 1)).toInt else vleft
  let vdiff := v - clampedGradient 32 vleft vtop vtopleft
  [|v|, v, |vdiff|, vdiff]

/-- The references with the properties of one earlier channel filled in. -/
def fillReferences
    (propertyUse : PropertyUsePlan)
    (narrow : Int → Int32)
    (sample : Nat → Nat → Int32)
    (y w offset : Nat)
    (references : References) :
    References :=
  fun x property =>
    if x < w ∧ offset ≤ property ∧ property < offset + kExtraPropsPerChannel ∧
        propertyUse.uses (kNumNonrefProperties + property) then
      narrow ((referenceValues sample y x).getD (property - offset) 0)
    else
      references x property

/--
The references of a row from the channels before `chan`, the nearest first.
Channels of another shape are passed over.
-/
def precomputeReferences
    (channel : Channel)
    (y : Nat)
    (image : Image)
    (propertyUse : PropertyUsePlan)
    (numExtraProps : Nat) :
    Nat → Nat → References → Checked References
  | 0, _, references => return references
  | j + 1, offset, references =>
      if offset < numExtraProps then do
        let refChan ← index image.channels j
        if refChan.w ≠ channel.w ∨ refChan.h ≠ channel.h ∨
            refChan.hshift ≠ channel.hshift ∨
            refChan.vshift ≠ channel.vshift then
          precomputeReferences channel y image propertyUse numExtraProps j
            offset references
        else
          precomputeReferences channel y image propertyUse numExtraProps j
            (offset + kExtraPropsPerChannel)
            (fillReferences propertyUse Int32.ofInt refChan.sample y channel.w
              offset references)
      else
        return references

/-! The loops over the pixels of a channel. -/

/-- Set a property when it is used. -/
def setProperty
    (used : Bool)
    (property : Nat)
    (value : Checked Int32)
    (properties : Nat → Int32) :
    Checked (Nat → Int32) :=
  if used then do
    let value ← value
    return Function.update properties property value
  else
    return properties

/--
The properties of a pixel in the order in which the loops set them; `narrow`
and `narrowGradient` are the casts of the sums to a sample.
-/
def pixelProperties
    (narrow narrowGradient : Int → Checked Int32)
    (x : Nat)
    (n : Neighbors)
    (prevGradient : Int) :
    List (Nat × Checked Int32) := [
  (3, toI32 x),
  (4, narrow |n.top|),
  (5, narrow |n.left|),
  (6, toI32 n.top),
  (7, toI32 n.left),
  (8, narrow (n.left - prevGradient)),
  (9, narrowGradient (n.left + n.top - n.topleft)),
  (10, narrow (n.left - n.topleft)),
  (11, narrow (n.topleft - n.top)),
  (12, narrow (n.top - n.topright)),
  (13, narrow (n.top - n.toptop)),
  (14, narrow (n.left - n.leftleft))]

/-- Set the used ones of some properties. -/
def setProperties
    (uses : Nat → Bool)
    (values : List (Nat × Checked Int32))
    (properties : Nat → Int32) :
    Checked (Nat → Int32) :=
  values.foldlM
    (fun properties value =>
      setProperty (uses value.1) value.1 value.2 properties)
    properties

/-- The weighted prediction of a pixel, and its error property where it is used. -/
def predictWeighted
    (usesWP : Bool)
    (slot : Nat)
    (y x w : Nat)
    (n : Neighbors)
    (wp : Option Weighted.State)
    (properties : Nat → Int32) :
    Option Weighted.State × Int × (Nat → Int32) :=
  match wp with
  | none => (none, 0, properties)
  | some state =>
      if usesWP then
        let (state, wpPred) :=
          state.predictNoProps x y w n.top n.left n.topright n.topleft n.toptop
        (some state, wpPred, Function.update properties slot state.wpProp)
      else
        let (state, wpPred) :=
          state.predictNoWPProp x y w n.top n.left n.topright n.topleft n.toptop
        (some state, wpPred, properties)

/-- Tell the weighted predictor the sample of a pixel. -/
def updateWeighted
    (y x w : Nat)
    (sample : Int32)
    (wp : Option Weighted.State) :
    Option Weighted.State :=
  wp.map (fun state => state.updateErrors sample.toInt x y w)

/-- The variables of a loop over the pixels of a channel. -/
structure PixelLoop (σ : Type) where
  channel : Channel
  input : σ
  properties : Nat → Int32 := fun _ => 0
  wp : Option Weighted.State
  localGradient : Int := 0
  references : References := fun _ _ => 0

/-- The end of a pixel: look up, predict, read and store the sample. -/
def decodePixel
    {σ : Type}
    (source : SymbolSource σ)
    (lookup : (Nat → Int32) → Checked LookupResult)
    (y x : Nat)
    (n : Neighbors)
    (wpPred : Int)
    (state : PixelLoop σ) :
    Checked (PixelLoop σ) := do
  let lr ← lookup state.properties
  let pred := predictOne lr.predictor n wpPred
  let (v, input) ← readNext source lr.context state.input
  let guess ← addI64 pred lr.offset.toInt
  let sample := makePixel v lr.multiplier guess
  return {
    state with
    channel := state.channel.set y x sample
    input
    wp := updateWeighted y x state.channel.w sample state.wp }

/-- One pixel of the loops for a fixed property set. -/
def maskPixel
    {σ : Type}
    (source : SymbolSource σ)
    (propertyMask : Nat)
    (lookup : (Nat → Int32) → Checked LookupResult)
    (y x : Nat)
    (state : PixelLoop σ) :
    Checked (PixelLoop σ) := do
  let w := state.channel.w
  let n := Neighbors.at state.channel.sample w y x
  let slot := compactPropertySlot propertyMask
  let uses (bit : Nat) : Bool := propertyMask &&& bit ≠ 0
  let properties := state.properties
  let properties ←
    setProperty (uses kMaskProp9) (slot kMaskProp9)
      (truncate (n.left + n.top - n.topleft)) properties
  let properties ←
    setProperty (uses kMaskProp10) (slot kMaskProp10)
      (truncate (n.left - n.topleft)) properties
  let properties ←
    setProperty (uses kMaskProp11) (slot kMaskProp11)
      (truncate (n.topleft - n.top)) properties
  let properties ←
    setProperty (uses kMaskProp12) (slot kMaskProp12)
      (truncate (n.top - n.topright)) properties
  let properties ←
    setProperty (uses kMaskProp13) (slot kMaskProp13)
      (truncate (n.top - n.toptop)) properties
  let (wp, wpPred, properties) :=
    predictWeighted (uses kMaskProp15) (slot kMaskProp15) y x w n state.wp
      properties
  decodePixel source lookup y x n wpPred { state with wp, properties }

def decodeModularChannelNoRefsMaskLoop
    {σ : Type}
    (source : SymbolSource σ)
    (propertyMask : Nat)
    (lookup : (Nat → Int32) → Checked LookupResult)
    (wpHeader : Weighted.Header)
    (useWp : Bool)
    (channel : Channel)
    (input : σ) :
    Checked (Channel × σ) := do
  let wp := if useWp then some (Weighted.State.init wpHeader) else none
  let state ←
    forPixels channel.h channel.w (fun _ state => .ok state)
      (maskPixel source propertyMask lookup)
      ({ channel, input, wp } : PixelLoop σ)
  return (state.channel, state.input)

/-- Decode with one of the fixed property sets, over a dense tree if it fits. -/
def decodeModularChannelNoRefsMask
    {σ : Type}
    (source : SymbolSource σ)
    (propertyMask : Nat)
    (flatTree : List FlatDecisionNode)
    (wpHeader : Weighted.Header)
    (useWp : Bool)
    (channel : Channel)
    (input : σ) :
    Checked (Channel × σ) := do
  let remapped ← remapNoRefMaskTree propertyMask flatTree
  match compactNoRefTree remapped kInlineCompactNoRefTreeNodes with
  | some compactTree =>
      decodeModularChannelNoRefsMaskLoop source propertyMask
        (compactNoRefLookup compactTree) wpHeader useWp channel input
  | none =>
      decodeModularChannelNoRefsMaskLoop source propertyMask
        (MATreeLookup.lookup remapped) wpHeader useWp channel input

/-- The property sets that have a loop of their own. -/
def dispatchedMasks : List Nat := [
  kMaskProp15,
  kMaskProp9 ||| kMaskProp15,
  kMaskProp13 ||| kMaskProp15,
  kMaskProp10 ||| kMaskProp11 ||| kMaskProp15,
  kMaskProp10 ||| kMaskProp11 ||| kMaskProp13 ||| kMaskProp15,
  kMaskProp9 ||| kMaskProp10 ||| kMaskProp11 ||| kMaskProp12 |||
    kMaskProp13 ||| kMaskProp15]

def kGradientLookupRange : Int := 512 * 16

/-- A split that the gradient lookup table of the format can hold. -/
def inLookupRange
    (splitval : Int32) :
    Bool :=
  -kGradientLookupRange - 1 ≤ splitval.toInt &&
    splitval.toInt < kGradientLookupRange - 1

def gradientLookupCompatible
    (tree : List FlatDecisionNode) :
    Bool :=
  tree.all (fun node =>
    if node.property0 < 0 then
      node.predictor = .gradient && node.predictorOffset = 0 &&
        node.multiplier = 1
    else
      node.property0 = kGradientProp && inLookupRange node.splitval0 &&
        (node.properties.1 < kNumStaticProperties ||
          node.properties.1 = kGradientProp && inLookupRange node.splitvals.1) &&
        (node.properties.2 < kNumStaticProperties ||
          node.properties.2 = kGradientProp && inLookupRange node.splitvals.2))

/-- The cast of the gradient property. -/
def narrowGradient
    (clampGradient : Bool)
    (gradient : Int) :
    Checked Int32 :=
  if clampGradient then
    toI32
      (max (-kGradientLookupRange) (min gradient (kGradientLookupRange - 1)))
  else
    truncate gradient

/-- Copy the reference properties of a column. -/
def copyReferences
    (referenceProps : List Nat)
    (references : References)
    (x : Nat)
    (properties : Nat → Int32) :
    Nat → Int32 :=
  referenceProps.foldl
    (fun properties property =>
      Function.update properties property
        (references x (property - kNumNonrefProperties)))
    properties

/-- The number of reference properties of a filtered tree. -/
def numExtraProps
    (filtered : FilteredTree) :
    Nat :=
  if filtered.propertyUse.referenceProps.length ≠ 0 ∧
      kNumNonrefProperties < filtered.numProps then
    filtered.numProps - kNumNonrefProperties
  else
    0

/-- The start of a row of the general loop. -/
def generalRow
    {σ : Type}
    (filtered : FilteredTree)
    (image : Image)
    (chan y : Nat)
    (state : PixelLoop σ) :
    Checked (PixelLoop σ) := do
  let references ←
    if numExtraProps filtered = 0 then
      pure state.references
    else
      -- The entries in use are zero before they are filled.
      precomputeReferences state.channel y image filtered.propertyUse
        (numExtraProps filtered) chan 0 (fun _ _ => 0)
  let properties ←
    setProperty (filtered.propertyUse.uses 2) 2 (toI32 y) state.properties
  return { state with references, properties, localGradient := 0 }

/-- One pixel of the general loop. -/
def generalPixel
    {σ : Type}
    (source : SymbolSource σ)
    (filtered : FilteredTree)
    (clampGradient : Bool)
    (lookup : (Nat → Int32) → Checked LookupResult)
    (y x : Nat)
    (state : PixelLoop σ) :
    Checked (PixelLoop σ) := do
  let propertyUse := filtered.propertyUse
  let w := state.channel.w
  let n := Neighbors.at state.channel.sample w y x
  let properties ←
    setProperties propertyUse.uses
      (pixelProperties truncate (narrowGradient clampGradient) x n
        state.localGradient)
      state.properties
  let localGradient :=
    if propertyUse.needsLocalGradientHistory then
      n.left + n.top - n.topleft
    else
      state.localGradient
  let (wp, wpPred, properties) :=
    predictWeighted (propertyUse.uses kWPProp) kWPProp y x w n state.wp
      properties
  let properties :=
    if numExtraProps filtered = 0 then
      properties
    else
      copyReferences propertyUse.referenceProps state.references x properties
  decodePixel source lookup y x n wpPred
    { state with wp, properties, localGradient }

/-- The general property loop. -/
def decodeGeneral
    {σ : Type}
    (source : SymbolSource σ)
    (filtered : FilteredTree)
    (flatTree : List FlatDecisionNode)
    (wpHeader : Weighted.Header)
    (chan : Nat)
    (image : Image)
    (channel : Channel)
    (input : σ) :
    Checked (Channel × σ) := do
  let clampGradient :=
    filtered.gradientOnly && gradientLookupCompatible flatTree
  let wp := if filtered.useWp then some (Weighted.State.init wpHeader) else none
  let state ←
    forPixels channel.h channel.w (generalRow filtered image chan)
      (generalPixel source filtered clampGradient (MATreeLookup.lookup flatTree))
      ({ channel, input, wp } : PixelLoop σ)
  return (state.channel, state.input)

/-- The track for one leaf with the zero predictor. -/
def decodeZeroTrack
    {σ : Type}
    (source : SymbolSource σ)
    (leaf : FlatDecisionNode)
    (channel : Channel)
    (input : σ) :
    Checked (Channel × σ) :=
  forPixels channel.h channel.w (fun _ state => .ok state)
    (fun y x (state : Channel × σ) => do
      let (v, input) ← readNext source leaf.childID state.2
      let sample :=
        if leaf.multiplier = 1 ∧ leaf.predictorOffset = 0 then
          unpackSigned v
        else
          makePixel v leaf.multiplier leaf.predictorOffset.toInt
      return (state.1.set y x sample, input))
    (channel, input)

/-- The track for one leaf with the plain gradient predictor. -/
def decodeGradientTrack
    {σ : Type}
    (source : SymbolSource σ)
    (leaf : FlatDecisionNode)
    (channel : Channel)
    (input : σ) :
    Checked (Channel × σ) :=
  forPixels channel.h channel.w (fun _ state => .ok state)
    (fun y x (state : Channel × σ) => do
      let n := Neighbors.at state.1.sample state.1.w y x
      let guess := clampedGradient 32 n.left n.top n.topleft
      let (v, input) ← readNext source leaf.childID state.2
      return (state.1.set y x (makePixel v 1 guess), input))
    (channel, input)

/-- The loops after the single leaf tracks. -/
def decodeWithProperties
    {σ : Type}
    (source : SymbolSource σ)
    (filtered : FilteredTree)
    (flatTree : List FlatDecisionNode)
    (wpHeader : Weighted.Header)
    (chan : Nat)
    (image : Image)
    (channel : Channel)
    (input : σ) :
    Checked (Channel × σ) :=
  match specializedPropertyMask filtered.propertyUse with
  | some propertyMask =>
      if propertyMask ∈ dispatchedMasks then
        decodeModularChannelNoRefsMask source propertyMask flatTree wpHeader
          filtered.useWp channel input
      else
        decodeGeneral source filtered flatTree wpHeader chan image channel input
  | none =>
      decodeGeneral source filtered flatTree wpHeader chan image channel input

/-- The track for a filtered tree: a fast one where it qualifies. -/
def decodeFiltered
    {σ : Type}
    (source : SymbolSource σ)
    (filtered : FilteredTree)
    (flatTree : List FlatDecisionNode)
    (wpHeader : Weighted.Header)
    (chan : Nat)
    (image : Image)
    (channel : Channel)
    (input : σ) :
    Checked (Channel × σ) :=
  match flatTree with
  | [leaf] =>
      if leaf.predictor = .zero then
        decodeZeroTrack source leaf channel input
      else if leaf.predictor = .gradient ∧ leaf.predictorOffset = 0 ∧
          leaf.multiplier = 1 then
        decodeGradientTrack source leaf channel input
      else
        decodeWithProperties source filtered flatTree wpHeader chan image
          channel input
  | _ =>
      decodeWithProperties source filtered flatTree wpHeader chan image channel
        input

/-- The context of a leaf goes through the context map. -/
def mapContext
    (contextMap : List Nat)
    (node : FlatDecisionNode) :
    Checked FlatDecisionNode :=
  if node.property0 < 0 then do
    let childID ← index contextMap node.childID
    return { node with childID }
  else
    return node

/-- Decode a channel with a given choice of the track. -/
def decodeChannelWith
    {σ : Type}
    (track :
      FilteredTree → List FlatDecisionNode → Image → Channel → σ →
        Checked (Channel × σ))
    (contextMap : List Nat)
    (globalTree : List PropertyDecisionNode)
    (chan groupId : Nat)
    (image : Image)
    (input : σ) :
    Checked (Image × σ) := do
  let channel ← index image.channels chan
  if channel.w = 0 ∨ channel.h = 0 then
    return (image, input)
  else
    let chanProp ← toI32 chan
    let groupProp ← toI32 groupId
    let filtered ← filterTree globalTree [chanProp, groupProp]
    let flatTree ← filtered.flatTree.mapM (mapContext contextMap)
    let (channel, input) ← track filtered flatTree image channel input
    return (image.setChannel chan channel, input)

/-- Decode one channel of a modular image. -/
def decodeModularChannelImpl
    {σ : Type}
    (source : SymbolSource σ)
    (contextMap : List Nat)
    (globalTree : List PropertyDecisionNode)
    (wpHeader : Weighted.Header)
    (chan groupId : Nat)
    (image : Image)
    (input : σ) :
    Checked (Image × σ) :=
  decodeChannelWith
    (fun filtered flatTree image channel input =>
      decodeFiltered source filtered flatTree wpHeader chan image channel input)
    contextMap globalTree chan groupId image input

end Jxlz.Modular
