import Jxlz.Codec.References
import Jxlz.Lib.Stateful

namespace Jxlz

open Stateful (Action fallible)

/-!
# Sessions

Mirrors `decode_session.zig` and the `finish` of `float_reference.zig`.  Decoding the
frame itself and the color conversions of a pixel are parameters: what a session does
with its slots does not depend on them.  The slots are replaced in place, so a step that
failed behind that would leave them changed.
-/

/-- The state of a frame decoder that a session reads and writes. -/
structure FrameDecoder where
  metadata : CodecMetadata
  frame_header : FrameHeader := {}
  rendered_image : Option FloatImage := none
  rendered_in_output_space : Bool := false
  force_render : Bool := false
  visible_frame_index : UInt32 := 0
  nonvisible_frame_index : UInt32 := 0
  references : Vector Reference 4
  dc_references : Vector (Option FixedImage) 4

/-- What a session calls. -/
structure FrameTools where
  Params : Type
  refuses : Allocation → Bool
  decodeFrame : FrameDecoder → List UInt8 → Checked FrameDecoder
  opsinParams : CodecMetadata → Checked Params
  /-- `xyb.toOutputRgb`. -/
  toOutputRgb :
    Params → CodecMetadata → UInt32 → UInt32 → UInt32 →
      Checked (UInt32 × UInt32 × UInt32)
  /-- `chroma.toRgb`. -/
  toRgb : Fixed → Fixed → Fixed → Checked (Fixed × Fixed × Fixed)
  /-- `chroma.toRgbBinary32`. -/
  toRgbBinary32 : UInt32 → UInt32 → UInt32 → Checked (UInt32 × UInt32 × UInt32)
  numbers : Blending.Numbers UInt32

/-- The slots of a session, and its counters. -/
structure Session where
  refs : Vector Reference 4 := .replicate 4 {}
  dc_refs : Vector (Option FixedImage) 4 := .replicate 4 none
  coalescing : Bool := true
  visible_frame_index : UInt32 := 0
  nonvisible_frame_index : UInt32 := 0

/-- `slot.* = ...` for one of the reference slots. -/
def Session.replaceRef
    (self : Session)
    (slot : Nat)
    (reference : Reference) :
    Session :=
  { self with refs := self.refs.setIfInBounds slot reference }

/-- `slot.* = ...` for one of the DC slots. -/
def Session.replaceDcRef
    (self : Session)
    (slot : Nat)
    (image : FixedImage) :
    Session :=
  { self with dc_refs := self.dc_refs.setIfInBounds slot (some image) }

/-- The image that a decoder ends with. -/
def FrameDecoder.shows
    (dec : FrameDecoder)
    (image : FloatImage)
    (post_color : Bool) :
    FrameDecoder :=
  { dec with
    rendered_image := some image
    rendered_in_output_space := post_color }

/-- The frame is shown by itself, and may be blended with the slots. -/
def FrameHeader.regular
    (self : FrameHeader) :
    Bool :=
  decide (self.frame_type = .regular_frame) ||
    decide (self.frame_type = .skip_progressive)

/-- The samples of the frame are not yet in a color space of pixels. -/
def FrameDecoder.xyb
    (dec : FrameDecoder) :
    Bool :=
  dec.metadata.xyb_encoded || decide (dec.frame_header.color_transform = .xyb)

def FrameDecoder.ycbcr
    (dec : FrameDecoder) :
    Bool :=
  decide (dec.frame_header.color_transform = .ycbcr)

/-- Some channel has floating-point samples. -/
def CodecMetadata.hasFloat
    (self : CodecMetadata) :
    Bool :=
  self.bit_depth.floating_point_sample ||
    (self.extra_channel_info.toList.take self.num_extra_channels).any fun extra =>
      extra.bit_depth.floating_point_sample

/-- The pixels are converted before they are blended and shown. -/
def FrameDecoder.postColor
    (dec : FrameDecoder)
    (coalescing : Bool) :
    Bool :=
  let fh := dec.frame_header
  (dec.xyb && coalescing &&
      (!fh.save_before_color_transform ||
        (fh.regular && fh.needsBlending dec.metadata.num_extra_channels))) ||
    (dec.ycbcr && (fh.regular || !fh.save_before_color_transform))

/-- The frame goes into a slot. -/
def FrameHeader.isSaved
    (self : FrameHeader)
    (coalescing : Bool) :
    Bool :=
  self.canBeReferenced && (self.save_before_color_transform || coalescing)

namespace FloatReference

/-- A copy of an image. -/
def copy
    (tools : FrameTools)
    (place : Allocation)
    (input : FloatImage) :
    Checked FloatImage := do
  allocate tools.refuses place
  return input

/-- The pixels of a frame after the color conversion. -/
def convert
    (tools : FrameTools)
    (dec : FrameDecoder)
    (input : FloatImage) :
    Checked FloatImage := do
  let converted ← copy tools .converted input
  let params ← (if dec.ycbcr then
      return none
    else
      return some (← tools.opsinParams dec.metadata) : Checked (Option tools.Params))
  let data ←
    scanPixels input.ysize input.xsize (FloatImage.put input.xsize input.ysize)
      (fun y x => do
        let first ← input.get y 0 x
        let second ← input.get y 1 x
        let third ← input.get y 2 x
        let (r, g, b) ←
          (match params with
            | none => tools.toRgbBinary32 first second third
            | some params => tools.toOutputRgb params dec.metadata first second third)
        return [r, g, b])
      converted.data
  return { converted with data }

/-- The pixels of the frame go into a slot, and the decoder shows them. -/
def finish
    (tools : FrameTools)
    (dec : FrameDecoder)
    (coalescing post_color : Bool) :
    Action Fault Session FrameDecoder := do
  let fh := dec.frame_header
  match dec.rendered_image with
  | none => fallible (fail .GenericError)
  | some input =>
      let pixels ←
        fallible (if post_color then convert tools dec input else return input)
      let session ← get
      let output ←
        fallible
          (if coalescing && fh.regular && (!dec.xyb || post_color) then
            compose tools.refuses tools.numbers session.refs pixels fh dec.metadata
          else
            copy tools .output pixels)
      if fh.isSaved coalescing then
        if 4 ≤ fh.save_as_reference then
          fallible (fail .GenericError)
        else
          let saved ←
            fallible
              (copy tools .saved
                (if fh.save_before_color_transform then input else output))
          modify fun session =>
            session.replaceRef fh.save_as_reference {
              float_image := some saved
              pre_color := fh.save_before_color_transform }
          return dec.shows output post_color
      else
        return dec.shows output post_color

end FloatReference

namespace Session

/-- The sample of a slot; a slot without an image is black. -/
def background
    (ref : Reference)
    (c x y : Nat) :
    Checked Fixed :=
  match ref.image with
  | some image => image.get y c x
  | none => return Fixed.zero

/-- The checks on a slot that a channel is blended with. -/
def checkSource
    (refs : Vector Reference 4)
    (channels width height source : Nat) :
    Checked Unit := do
  if 4 ≤ source then
    fail .GenericError
  else
    let ref ← index refs.toList source
    match ref.image with
    | some image =>
        if
            ref.pre_color ∨ image.channels ≠ channels ∨ image.width < width ∨
              image.height < height then
          fail .GenericError
        else
          return ()
    | none => return ()

/-- The samples of one pixel of the canvas. -/
def composePixel
    (refs : Vector Reference 4)
    (input : FixedImage)
    (fh : FrameHeader)
    (info : List Blending.Extra)
    (y x : Nat) :
    Checked (List Fixed) :=
  composeAt
    (fun bg fg => Blending.pixel Blending.finite bg fg (mode fh.blending_info) info)
    (fun c x y => do
      let source ← channelSource fh c
      let ref ← index refs.toList source
      background ref c x y)
    input.get input.channels input.width input.height fh y x

/-- The frame, put over the images of the slots. -/
def compose
    (refuses : Allocation → Bool)
    (refs : Vector Reference 4)
    (input : FixedImage)
    (fh : FrameHeader)
    (metadata : CodecMetadata) :
    Checked FixedImage := do
  let width := metadata.xsize
  let height := metadata.ysize
  let channels := input.channels
  let extras := metadata.num_extra_channels
  if channels ≠ extras + 3 then
    fail .GenericError
  else
    let area ← mulSize width height
    let length ← mulSize area channels
    let used ← sources fh extras
    used.forM (checkSource refs channels width height)
    allocate refuses .output
    allocate refuses .info
    let info ← extraInfo fh metadata
    allocate refuses .storage
    let data ←
      scanPixels height width (FixedImage.put width height)
        (composePixel refs input fh info) (List.replicate length Fixed.zero)
    return { width, height, channels, data }

/-- The pixels of a frame after the color conversion. -/
def convert
    (tools : FrameTools)
    (dec : FrameDecoder)
    (rendered : FloatImage)
    (input : FixedImage) :
    Checked FixedImage := do
  allocate tools.refuses .converted
  let params ← (if dec.ycbcr then
      return none
    else
      return some (← tools.opsinParams dec.metadata) : Checked (Option tools.Params))
  let data ←
    scanPixels input.height input.width (FixedImage.put input.width input.height)
      (fun y x => do
        match params with
        | none =>
            let first ← input.get y 0 x
            let second ← input.get y 1 x
            let third ← input.get y 2 x
            let (r, g, b) ← tools.toRgb first second third
            return [r, g, b]
        | some params =>
            let first ← rendered.get y 0 x
            let second ← rendered.get y 1 x
            let third ← rendered.get y 2 x
            let (r, g, b) ← tools.toOutputRgb params dec.metadata first second third
            [r, g, b].mapM FixedDisplay.loadFloat32Fixed)
      input.data
  return { input with data }

/-- A DC frame goes into the slot of its level. -/
def finishDc
    (tools : FrameTools)
    (dec : FrameDecoder) :
    Action Fault Session Unit := do
  let fh := dec.frame_header
  if fh.dc_level = 0 ∨ 4 < fh.dc_level then
    fallible (fail .GenericError)
  else
    match dec.rendered_image with
    | none => fallible (fail .GenericError)
    | some rendered =>
        if rendered.channels < 3 then
          fallible (fail .GenericError)
        else
          let count := 3 * rendered.xsize * rendered.ysize
          fallible (allocate tools.refuses .dcReference)
          fallible (require (count ≤ rendered.data.length))
          let values ←
            fallible ((rendered.data.take count).mapM FixedDisplay.loadFloat32Fixed)
          modify fun session =>
            session.replaceDcRef (fh.dc_level - 1) {
              width := rendered.xsize
              height := rendered.ysize
              channels := 3
              data := values }

/-- The samples of a frame as soft-floats. -/
def loadInput
    (tools : FrameTools)
    (rendered : FloatImage) :
    Checked FixedImage := do
  allocate tools.refuses .input
  let data ← rendered.data.mapM FixedDisplay.loadFloat32Fixed
  return {
    width := rendered.xsize
    height := rendered.ysize
    channels := rendered.channels
    data }

/-- The pixels that are shown, as binary32 words. -/
def display
    (tools : FrameTools)
    (channels : Nat)
    (output : FixedImage) :
    Checked FloatImage := do
  let final ← FloatImage.init tools.refuses .final output.width output.height channels
  require (output.data.length = final.data.length)
  let data ← output.data.mapM FixedDisplay.bits
  return { final with data }

/-- The pixels of a frame of soft-floats go into a slot, and the decoder shows them. -/
def finishFixed
    (tools : FrameTools)
    (dec : FrameDecoder)
    (coalescing post_color : Bool) :
    Action Fault Session FrameDecoder := do
  let fh := dec.frame_header
  match dec.rendered_image with
  | none => fallible (fail .GenericError)
  | some rendered =>
      let input ← fallible (loadInput tools rendered)
      let pixels ←
        fallible (if post_color then convert tools dec rendered input else return input)
      let session ← get
      let output ←
        fallible
          (if coalescing && fh.regular && (!dec.xyb || post_color) then
            compose tools.refuses session.refs pixels fh dec.metadata
          else
            return pixels)
      let final ← fallible (display tools input.channels output)
      if fh.isSaved coalescing then
        if 4 ≤ fh.save_as_reference then
          fallible (fail .GenericError)
        else
          fallible (allocate tools.refuses .saved)
          modify fun session =>
            session.replaceRef fh.save_as_reference {
              image := some (if fh.save_before_color_transform then input else output)
              pre_color := fh.save_before_color_transform }
          return dec.shows final post_color
      else
        return dec.shows final post_color

/-- What a decoded frame leaves in the slots. -/
def finish
    (tools : FrameTools)
    (dec : FrameDecoder) :
    Action Fault Session FrameDecoder := do
  let fh := dec.frame_header
  let coalescing := (← get).coalescing
  if fh.frame_type = .dc_frame then
    finishDc tools dec
    return dec
  else if
      !fh.canBeReferenced && !fh.needsBlending dec.metadata.num_extra_channels &&
        !dec.ycbcr then
    return dec
  else if !dec.xyb && !dec.ycbcr && decide (fh.color_transform ≠ .none) then
    fallible (fail .Unsupported)
  else if dec.metadata.hasFloat then
    FloatReference.finish tools dec coalescing (dec.postColor coalescing)
  else
    finishFixed tools dec coalescing (dec.postColor coalescing)

/-- A frame is decoded with the slots as they are, and put into them. -/
def decode
    (tools : FrameTools)
    (metadata : CodecMetadata)
    (data : List UInt8) :
    Action Fault Session FrameDecoder := do
  let session ← get
  let dec ←
    fallible
      (tools.decodeFrame {
        metadata
        force_render := true
        visible_frame_index := session.visible_frame_index
        nonvisible_frame_index := session.nonvisible_frame_index
        references := session.refs
        dc_references := session.dc_refs } data)
  let dec ← finish tools dec
  modify fun session => {
    session with
    visible_frame_index := dec.visible_frame_index
    nonvisible_frame_index := dec.nonvisible_frame_index }
  return dec

end Session

end Jxlz
