import Jxlz.Entropy.EncAns
import Jxlz.Modular.Encoding

namespace Jxlz.Modular

open ContextPredict

/-!
# Tokenizing a modular channel

Mirrors the decision tree tokenizer of `enc_encoding.zig`.  It works on a
rectangle of a larger image and never looks beyond the rectangle's left and top
edges, as if the rectangle were an image of its own.
-/

/-- A rectangle of an image, in unshifted pixels. -/
structure Rect where
  x0 : Nat
  y0 : Nat
  xsize : Nat
  ysize : Nat
  deriving Repr, DecidableEq

/-- The size of a plane that is subsampled by a shift. -/
def subsampledSize
    (size : Nat)
    (shift : Int) :
    Nat :=
  if shift ≤ 0 then
    size
  else if 64 ≤ shift then
    if size = 0 then 0 else 1
  else
    (size + (1 <<< shift.toNat - 1)) / (1 <<< shift.toNat)

/-- The part of a channel that a rectangle covers. -/
structure ChannelRect where
  rx0 : Nat
  ry0 : Nat
  rw : Nat
  rh : Nat
  deriving Repr, DecidableEq

/-- The rectangle in a channel's own pixels; it has to be aligned to its shifts. -/
def channelRect
    (channel : Channel)
    (rect : Rect) :
    Checked ChannelRect := do
  if channel.hshift < 0 ∨ channel.vshift < 0 then
    fail .Unsupported
  else
    let shiftX ← castU 6 channel.hshift.toNat
    let shiftY ← castU 6 channel.vshift.toNat
    let alignX := 1 <<< shiftX - 1
    let alignY := 1 <<< shiftY - 1
    if rect.x0 &&& alignX ≠ 0 ∨ rect.y0 &&& alignY ≠ 0 then
      fail .Unsupported
    else
      return {
        rx0 := rect.x0 >>> shiftX
        ry0 := rect.y0 >>> shiftY
        rw := subsampledSize rect.xsize channel.hshift
        rh := subsampledSize rect.ysize channel.vshift }

/-- The samples of a channel in a rectangle's own coordinates. -/
def ChannelRect.sample
    (self : ChannelRect)
    (channel : Channel) :
    Nat → Nat → Int32 :=
  fun y x => channel.sample (self.ry0 + y) (self.rx0 + x)

/-- The values that are kept of an earlier channel are those of a sample. -/
def referencesFit
    (propertyUse : PropertyUsePlan)
    (sample : Nat → Nat → Int32)
    (y rw offset : Nat) :
    Bool :=
  (List.range rw).all (fun x =>
    (List.range kExtraPropsPerChannel).all (fun place =>
      let value := (referenceValues sample y x).getD place 0
      !propertyUse.uses (kNumNonrefProperties + offset + place) ||
        -2 ^ 31 ≤ value && value < 2 ^ 31))

/-- The references of a row of the rectangle, the nearest channel first. -/
def precomputeReferencesRect
    (channel : Channel)
    (area : ChannelRect)
    (y : Nat)
    (image : Image)
    (propertyUse : PropertyUsePlan)
    (numExtraProps : Nat) :
    Nat → Nat → References → Checked References
  | 0, _, references => return references
  | j + 1, offset, references =>
      if offset < numExtraProps then do
        let refChan ← index image.channels j
        if refChan.w ≠ channel.w ∨ refChan.h ≠ channel.h ∨
            refChan.hshift ≠ channel.hshift ∨
            refChan.vshift ≠ channel.vshift then
          precomputeReferencesRect channel area y image propertyUse
            numExtraProps j offset references
        else
          require (referencesFit propertyUse (area.sample refChan) y area.rw offset)
          precomputeReferencesRect channel area y image propertyUse
            numExtraProps j (offset + kExtraPropsPerChannel)
            (fillReferences propertyUse Int32.ofInt (area.sample refChan) y
              area.rw offset references)
      else
        return references

/-- The variables of the tokenizer's loop. -/
structure TokenizeLoop where
  tokens : List Token := []
  properties : Nat → Int32
  wp : Option Weighted.State
  prevGradient : Int := 0
  references : References := fun _ _ => 0

/-- The start of a row of the tokenizer. -/
def tokenizeRow
    (filtered : FilteredTree)
    (image : Image)
    (channel : Channel)
    (area : ChannelRect)
    (chan y : Nat)
    (state : TokenizeLoop) :
    Checked TokenizeLoop := do
  require (area.ry0 + y < channel.h)
  let references ←
    if numExtraProps filtered = 0 then
      pure state.references
    else
      -- The entries in use are zero before they are filled.
      precomputeReferencesRect channel area y image filtered.propertyUse
        (numExtraProps filtered) chan 0 (fun _ _ => 0)
  let properties ←
    setProperty (filtered.propertyUse.uses 2) 2 (toI32 y) state.properties
  return { state with references, properties, prevGradient := 0 }

/-- The token of a sample: what is left of it after the prediction. -/
def residualToken
    (lr : LookupResult)
    (sample : Int32)
    (pred : Int) :
    Checked Token := do
  let residual := sample.toInt - pred
  let multiplier := lr.multiplier.toInt
  require (0 < multiplier)
  if residual % multiplier ≠ 0 then
    fail .GenericError
  else
    let value ← toI32 (residual / multiplier)
    let context ← castU 32 lr.context
    return { context := UInt32.ofNat context, value := packSigned value }

/-- One pixel of the tokenizer. -/
def tokenizePixel
    (filtered : FilteredTree)
    (channel : Channel)
    (area : ChannelRect)
    (y x : Nat)
    (state : TokenizeLoop) :
    Checked TokenizeLoop := do
  let propertyUse := filtered.propertyUse
  require (area.rx0 + x < channel.w)
  let n := Neighbors.at (area.sample channel) area.rw y x
  let properties ←
    setProperties propertyUse.uses
      (pixelProperties toI32 toI32 x n state.prevGradient) state.properties
  let prevGradient :=
    if propertyUse.needsLocalGradientHistory then
      n.left + n.top - n.topleft
    else
      state.prevGradient
  let (wp, wpPred, properties) :=
    predictWeighted (propertyUse.uses kWPProp) kWPProp y x area.rw n state.wp
      properties
  let properties :=
    if numExtraProps filtered = 0 then
      properties
    else
      copyReferences propertyUse.referenceProps state.references x properties
  let lr ← MATreeLookup.lookup filtered.flatTree properties
  let pred ← addI64 (predictOne lr.predictor n wpPred) lr.offset.toInt
  let token ← residualToken lr (area.sample channel y x) pred
  return {
    state with
    tokens := state.tokens ++ [token]
    properties
    prevGradient
    wp := updateWeighted y x area.rw (area.sample channel y x) wp }

/-- Tokenize a rectangle of one channel over a decision tree. -/
def tokenizeGlobalTreeChannelRectImpl
    (image : Image)
    (chan groupId : Nat)
    (globalTree : List PropertyDecisionNode)
    (rect : Rect)
    (allowWp allowRefs : Bool) :
    Checked (List Token) := do
  let channel ← index image.channels chan
  if channel.hshift < 0 ∨ channel.vshift < 0 then
    fail .Unsupported
  else
    let chanProp ← toI32 chan
    let groupProp ← toI32 groupId
    let filtered ← filterTree globalTree [chanProp, groupProp]
    if (!allowWp && filtered.useWp) ||
        (!allowRefs && filtered.propertyUse.usesReferenceProps) then
      fail .Unsupported
    else
      let area ← channelRect channel rect
      let properties :=
        Function.update
          (Function.update (fun _ : Nat => (0 : Int32)) 0 chanProp) 1 groupProp
      let wp := if filtered.useWp then some (Weighted.State.init .initial) else none
      let state ←
        forPixels area.rh area.rw (tokenizeRow filtered image channel area chan)
          (tokenizePixel filtered channel area) { properties, wp }
      return state.tokens

/-- The tokens of all channels, one channel after the other. -/
def appendGlobalTreeImageRectTokensWPRefs
    (image : Image)
    (rect : Rect)
    (groupId : Nat)
    (globalTree : List PropertyDecisionNode)
    (tokens : List Token) :
    Checked (List Token) := do
  if image.channels.length = 0 then
    fail .GenericError
  else
    (List.range image.channels.length).foldlM
      (fun tokens chan => do
        let channelTokens ←
          tokenizeGlobalTreeChannelRectImpl image chan groupId globalTree rect
            true true
        return tokens ++ channelTokens)
      tokens

/-- A rectangle of an image as an image of its own. -/
def extractImageRect
    (image : Image)
    (rect : Rect) :
    Checked Image := do
  let channels ←
    image.channels.mapM (fun channel => do
      let area ← channelRect channel rect
      require
        (area.rh = 0 ∨
          area.ry0 + area.rh ≤ channel.h ∧ area.rx0 + area.rw ≤ channel.w)
      return {
        Channel.create area.rw area.rh channel.hshift channel.vshift with
        sample := area.sample channel })
  return { channels }

end Jxlz.Modular
