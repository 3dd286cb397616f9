import Jxlz.Base.FixedDisplay
import Jxlz.Base.Raster
import Jxlz.Codec.Blending
import Jxlz.Codec.FrameHeader

namespace Jxlz

/-!
# Reference images

Mirrors the image types of `patches.zig` and `render.zig`, and what both versions of
the frame composition share: the slots of a session, the checks on the slots that a
frame blends with, and the memory that they ask for.
-/

/-- `patches.Image`: planes of soft-floats. -/
structure FixedImage where
  width : Nat
  height : Nat
  channels : Nat
  data : List Fixed
  deriving Repr, DecidableEq

/-- `render.FloatImage`: planes of binary32 words. -/
structure FloatImage where
  xsize : Nat
  ysize : Nat
  channels : Nat
  data : List UInt32
  deriving Repr, DecidableEq

/-- A slot of a session. -/
structure Reference where
  image : Option FixedImage := none
  float_image : Option FloatImage := none
  pre_color : Bool := false
  deriving Repr, DecidableEq

/-- The places where the code asks for memory. -/
inductive Allocation where
  | dcReference
  | input
  | converted
  | output
  | info
  | storage
  | final
  | saved
  deriving Repr, DecidableEq

/-- Memory that may not be there. -/
def allocate
    (refuses : Allocation → Bool)
    (place : Allocation) :
    Checked Unit :=
  if refuses place then fail .OutOfMemory else return ()

/-- `std.math.mul`, with its overflow turned into an error. -/
def mulSize
    (first second : Nat) :
    Checked Nat :=
  if first * second < 2 ^ 64 then return first * second else fail .GenericError

namespace FloatImage

/-- The samples of a row, by its place in the data. -/
def rowConst
    (self : FloatImage)
    (y channel : Nat) :
    Checked (List UInt32) :=
  let start := (channel * self.ysize + y) * self.xsize
  if start + self.xsize ≤ self.data.length then
    .ok ((self.data.drop start).take self.xsize)
  else
    .error .trap

/-- One sample of a row. -/
def get
    (self : FloatImage)
    (y channel x : Nat) :
    Checked UInt32 := do
  let row ← self.rowConst y channel
  index row x

/-- `row(y, channel)[x] = value`, on the data of an image of the given size. -/
def put
    (xsize ysize : Nat)
    (data : List UInt32)
    (channel y x : Nat)
    (value : UInt32) :
    Checked (List UInt32) :=
  let start := (channel * ysize + y) * xsize
  if start + xsize ≤ data.length ∧ x < xsize then
    store data (start + x) value
  else
    .error .trap

/-- A new image, all of it zero. -/
def init
    (refuses : Allocation → Bool)
    (place : Allocation)
    (xsize ysize channels : Nat) :
    Checked FloatImage := do
  let area ← mulSize xsize ysize
  let count ← mulSize area channels
  allocate refuses place
  return { xsize, ysize, channels, data := List.replicate count 0 }

end FloatImage

namespace FixedImage

/-- `data[(c * height + y) * width + x]`. -/
def get
    (self : FixedImage)
    (y c x : Nat) :
    Checked Fixed :=
  index self.data ((c * self.height + y) * self.width + x)

/-- `data[(c * height + y) * width + x] = value`. -/
def put
    (width height : Nat)
    (data : List Fixed)
    (c y x : Nat)
    (value : Fixed) :
    Checked (List Fixed) :=
  store data ((c * height + y) * width + x) value

end FixedImage

/-- The blending mode of a frame as one of a pixel. -/
def mode
    (info : BlendingInfo) :
    Blending.Info where
  mode :=
    match info.mode with
    | .replace => .replace
    | .add => .add
    | .blend => .blend_above
    | .alpha_weighted_add => .alpha_add_above
    | .mul => .mul
  alpha_channel := info.alpha_channel
  clamp := info.clamp

/-- The slots that the color and each extra channel are blended with. -/
def sources
    (fh : FrameHeader)
    (extras : Nat) :
    Checked (List Nat) :=
  (List.range (extras + 1)).mapM fun c => do
    if c = 0 then
      return fh.blending_info.source
    else
      let info ← index fh.extra_channel_blending_info.toList (c - 1)
      return info.source

/-- The slot that a channel of a pixel is blended with. -/
def channelSource
    (fh : FrameHeader)
    (c : Nat) :
    Checked Nat := do
  if c < 3 then
    return fh.blending_info.source
  else
    let info ← index fh.extra_channel_blending_info.toList (c - 3)
    return info.source

/-- How the extra channels are blended. -/
def extraInfo
    (fh : FrameHeader)
    (metadata : CodecMetadata) :
    Checked (List Blending.Extra) :=
  (List.range metadata.num_extra_channels).mapM fun e => do
    let extra ← index metadata.extra_channel_info.toList e
    let blend ← index fh.extra_channel_blending_info.toList e
    return {
      is_alpha := decide (extra.type = .alpha)
      associated := extra.alpha_associated
      blend := mode blend }

/-- The position in the frame of a position on the canvas. -/
def framePosition
    (fh : FrameHeader)
    (x y : Nat) :
    Checked (Int × Int) := do
  require (x < 2 ^ 63 ∧ y < 2 ^ 63)
  let fx ← addI64 x (-fh.frame_origin.x0.toInt)
  let fy ← addI64 y (-fh.frame_origin.y0.toInt)
  return (fx, fy)

/--
The samples of one pixel of the canvas: what lies under the frame there, blended with
the frame's pixel when there is one.
-/
def composeAt
    {α : Type}
    (blend : List α → List α → Checked (List α))
    (background : Nat → Nat → Nat → Checked α)
    (frame : Nat → Nat → Nat → Checked α)
    (channels width height : Nat)
    (fh : FrameHeader)
    (y x : Nat) :
    Checked (List α) := do
  let bg ← (List.range channels).mapM fun c => background c x y
  let (fx, fy) ← framePosition fh x y
  if 0 ≤ fx ∧ 0 ≤ fy ∧ fx < width ∧ fy < height then
    let fg ← (List.range channels).mapM fun c => frame fy.toNat c fx.toNat
    blend bg fg
  else
    return bg

end Jxlz

namespace Jxlz.FloatReference

/-!
# Layers of binary32 samples

Mirrors the composition of `float_reference.zig`.
-/

/-- The sample of a slot; a slot without an image is black. -/
def background
    (ref : Reference)
    (c x y : Nat) :
    Checked UInt32 := do
  match ref.float_image, ref.image with
  | some image, _ => image.get y c x
  | none, some image => FixedDisplay.bits (← image.get y c x)
  | none, none => return 0

/-- The checks on a slot that a channel is blended with. -/
def checkSource
    (refs : Vector Reference 4)
    (channels width height source : Nat) :
    Checked Unit := do
  if 4 ≤ source then
    fail .GenericError
  else
    let ref ← index refs.toList source
    match ref.float_image, ref.image with
    | some image, _ =>
        if
            ref.pre_color ∨ image.channels ≠ channels ∨ image.xsize < width ∨
              image.ysize < height then
          fail .GenericError
        else
          return ()
    | none, some image =>
        if
            ref.pre_color ∨ image.channels ≠ channels ∨ image.width < width ∨
              image.height < height then
          fail .GenericError
        else
          return ()
    | none, none => return ()

/-- The samples of one pixel of the canvas. -/
def composePixel
    (numbers : Blending.Numbers UInt32)
    (refs : Vector Reference 4)
    (input : FloatImage)
    (fh : FrameHeader)
    (info : List Blending.Extra)
    (y x : Nat) :
    Checked (List UInt32) :=
  composeAt
    (fun bg fg => Blending.pixel numbers bg fg (mode fh.blending_info) info)
    (fun c x y => do
      let source ← channelSource fh c
      let ref ← index refs.toList source
      background ref c x y)
    input.get input.channels input.xsize input.ysize fh y x

/-- The frame, put over the images of the slots. -/
def compose
    (refuses : Allocation → Bool)
    (numbers : Blending.Numbers UInt32)
    (refs : Vector Reference 4)
    (input : FloatImage)
    (fh : FrameHeader)
    (metadata : CodecMetadata) :
    Checked FloatImage := do
  let extras := metadata.num_extra_channels
  let width := metadata.xsize
  let height := metadata.ysize
  let channels := input.channels
  if channels ≠ 3 + extras then
    fail .GenericError
  else
    let used ← sources fh extras
    used.forM (checkSource refs channels width height)
    let output ← FloatImage.init refuses .output width height channels
    allocate refuses .info
    let info ← extraInfo fh metadata
    allocate refuses .storage
    let data ←
      scanPixels height width (FloatImage.put width height)
        (composePixel numbers refs input fh info) output.data
    return { output with data }

end Jxlz.FloatReference
