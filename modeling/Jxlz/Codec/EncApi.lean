import Jxlz.Codec.Container
import Jxlz.Codec.FrameDimensions
import Jxlz.Codec.ImageMetadata
import Jxlz.Modular.ModularImage

namespace Jxlz.EncApi

open Binary32 BigEndian Container

/-!
# The encoder behind the C interface

Mirrors the packed surface of `enc_api.zig`: the planes of a source image are filled
from packed bytes, 16-bit samples with the high byte first.  What is made of a
source image is a parameter.  Offsets into pixels stay below their length, so their
sums and products are plain.
-/

/-- `subsampledSize` of a size and a shift cast to `i32`. -/
def subsampledSize
    (size dim_shift : Nat) :
    Checked Nat := do
  let shift ← castU 31 dim_shift
  if shift = 0 then
    return size
  else if 64 ≤ shift then
    return (if size = 0 then 0 else 1)
  else
    divCeil size (shlU 64 1 shift)

structure SimpleExtraPlaneU8 where
  info : ExtraChannelInfo
  row_stride : Nat
  pixels : List UInt8
  deriving Repr, DecidableEq

structure SimplePackedU8Image where
  width : Nat
  height : Nat
  num_color_channels : Nat
  bits_per_sample : Nat := 8
  embedded_icc : List UInt8 := []
  color_row_stride : Nat
  color_pixels : List UInt8
  alpha_row_stride : Nat := 0
  alpha_pixels : List UInt8 := []
  use_container : Bool := false
  alpha_associated : Bool := false
  alpha_info : Option ExtraChannelInfo := none
  orientation : Nat := 1
  preview_width : Nat := 0
  preview_height : Nat := 0
  intrinsic_width : Nat := 0
  intrinsic_height : Nat := 0
  have_animation : Bool := false
  animation : AnimationHeader := {}
  frame_duration : Nat := 0
  frame_timecode : Nat := 0
  tone_mapping : ToneMapping := {}
  extra_planes : List SimpleExtraPlaneU8 := []
  deriving Repr, DecidableEq

structure SimplePackedU8AnimationFrame where
  color_row_stride : Nat
  color_pixels : List UInt8
  alpha_row_stride : Nat := 0
  alpha_pixels : List UInt8 := []
  extra_planes : List SimpleExtraPlaneU8 := []
  frame_duration : Nat := 0
  frame_timecode : Nat := 0
  deriving Repr, DecidableEq

structure SimplePackedU8Animation where
  width : Nat
  height : Nat
  num_color_channels : Nat
  bits_per_sample : Nat := 8
  embedded_icc : List UInt8 := []
  alpha_associated : Bool := false
  use_container : Bool := false
  alpha_info : Option ExtraChannelInfo := none
  orientation : Nat := 1
  preview_width : Nat := 0
  preview_height : Nat := 0
  intrinsic_width : Nat := 0
  intrinsic_height : Nat := 0
  animation : AnimationHeader
  tone_mapping : ToneMapping := {}
  frames : List SimplePackedU8AnimationFrame
  deriving Repr, DecidableEq

/-- `return error.<code>` where the condition holds. -/
def failIf
    (condition : Prop)
    [Decidable condition]
    (code : JxlError) :
    Checked Unit :=
  if condition then fail code else .ok ()

theorem failIf_eq_ok
    {condition : Prop}
    [Decidable condition]
    {code : JxlError} :
    failIf condition code = .ok () ↔ ¬ condition := by
  unfold failIf fail
  split
  next holds => exact ⟨fun impossible => (by cases impossible), fun not => absurd holds not⟩
  next not => exact ⟨fun _ => not, fun _ => rfl⟩

def validateToneMapping
    (tone_mapping : ToneMapping) :
    Checked Unit := do
  failIf (¬ less 0 tone_mapping.intensity_target) .InvalidArgs
  failIf
    (less tone_mapping.min_nits 0 ∨
      less tone_mapping.intensity_target tone_mapping.min_nits)
    .InvalidArgs
  failIf (less tone_mapping.linear_below 0) .InvalidArgs
  failIf
    (tone_mapping.relative_to_max_display ∧
      less 0x3f800000 tone_mapping.linear_below)
    .InvalidArgs

def validateMetadataGeometry
    (orientation preview_width preview_height : Nat)
    (intrinsic_width intrinsic_height : Nat) :
    Checked Unit := do
  failIf (orientation < 1 ∨ 8 < orientation) .InvalidArgs
  failIf (¬ (preview_width = 0 ↔ preview_height = 0)) .InvalidArgs
  failIf (¬ (intrinsic_width = 0 ↔ intrinsic_height = 0)) .InvalidArgs

def validateAnimation
    (have_animation : Bool)
    (animation : AnimationHeader)
    (frame_duration frame_timecode : Nat) :
    Checked Unit :=
  if ¬ have_animation then
    failIf (frame_duration ≠ 0 ∨ frame_timecode ≠ 0) .InvalidArgs
  else do
    failIf (animation.tps_numerator = 0 ∨ animation.tps_denominator = 0) .InvalidArgs
    failIf (¬ animation.have_timecodes ∧ frame_timecode ≠ 0) .InvalidArgs

/-- The bytes of a sample of so many bits. -/
def bytesPerSample
    (bits_per_sample : Nat) :
    Nat :=
  if bits_per_sample ≤ 8 then 1 else 2

namespace SimplePackedU8Image

/-- The depth of alpha samples, which may be described on its own. -/
def alphaBitsPerSample
    (image : SimplePackedU8Image) :
    Nat :=
  match image.alpha_info with
  | some alpha_info => alpha_info.bit_depth.bits_per_sample
  | none => image.bits_per_sample

def alphaDimShift
    (image : SimplePackedU8Image) :
    Nat :=
  match image.alpha_info with
  | some alpha_info => alpha_info.dim_shift
  | none => 0

/-- The checks of a description of the alpha channel. -/
def validateAlphaInfo
    (image : SimplePackedU8Image) :
    Checked Unit :=
  match image.alpha_info with
  | none => return ()
  | some alpha_info => do
      failIf (alpha_info.type ≠ .alpha) .InvalidArgs
      failIf alpha_info.bit_depth.floating_point_sample .Unsupported
      failIf
        (alpha_info.bit_depth.bits_per_sample ≠ image.bits_per_sample ∨
          alpha_info.bit_depth.exponent_bits_per_sample ≠ 0)
        .Unsupported
      failIf (3 < alpha_info.dim_shift) .Unsupported
      failIf (alpha_info.alpha_associated ≠ image.alpha_associated) .InvalidArgs

/-- The checks of the alpha pixels, if there are any. -/
def validateAlpha
    (image : SimplePackedU8Image) :
    Checked Unit :=
  if image.alpha_pixels.length = 0 then
    return ()
  else do
    let alpha_bytes_per_sample := bytesPerSample image.alphaBitsPerSample
    let alpha_width ← subsampledSize image.width image.alphaDimShift
    let alpha_height ← subsampledSize image.height image.alphaDimShift
    failIf (image.alpha_row_stride < alpha_width * alpha_bytes_per_sample) .InvalidArgs
    failIf (image.alpha_pixels.length < image.alpha_row_stride * alpha_height)
      .InvalidArgs
    image.validateAlphaInfo

def validateExtraPlane
    (image : SimplePackedU8Image)
    (extra : SimpleExtraPlaneU8) :
    Checked Unit := do
  failIf (extra.info.type = .alpha) .InvalidArgs
  let plane_width ← subsampledSize image.width extra.info.dim_shift
  let plane_height ← subsampledSize image.height extra.info.dim_shift
  failIf (extra.row_stride < plane_width) .InvalidArgs
  failIf (extra.pixels.length < extra.row_stride * plane_height) .InvalidArgs

end SimplePackedU8Image

def validateSimplePackedImage
    (image : SimplePackedU8Image) :
    Checked Unit := do
  failIf (image.width = 0 ∨ image.height = 0) .InvalidArgs
  failIf (¬ (image.num_color_channels = 1 ∨ image.num_color_channels = 3)) .Unsupported
  failIf (¬ (image.bits_per_sample = 8 ∨ image.bits_per_sample = 16)) .Unsupported
  failIf (image.bits_per_sample ≠ 8 ∧ image.extra_planes.length ≠ 0) .Unsupported
  failIf (image.alpha_pixels.length = 0 ∧ image.alpha_associated) .Unsupported
  failIf (image.alpha_pixels.length = 0 ∧ image.alpha_info.isSome) .InvalidArgs
  validateMetadataGeometry image.orientation image.preview_width
    image.preview_height image.intrinsic_width image.intrinsic_height
  validateAnimation image.have_animation image.animation image.frame_duration
    image.frame_timecode
  validateToneMapping image.tone_mapping
  let min_color_row_stride :=
    image.width * image.num_color_channels * bytesPerSample image.bits_per_sample
  failIf (image.color_row_stride < min_color_row_stride) .InvalidArgs
  failIf (image.color_pixels.length < image.color_row_stride * image.height)
    .InvalidArgs
  image.validateAlpha
  image.extra_planes.forM image.validateExtraPlane

/-- `channels.items[c].row(y)[x] = value`. -/
def writeSample
    (channels : List Channel)
    (c y x : Nat)
    (value : Int32) :
    Checked (List Channel) := do
  let channel ← index channels c
  require (y < channel.h ∧ x < channel.w)
  store channels c (channel.set y x value)

/-- One or two bytes of a row, the high byte first. -/
def loadSample
    (bytes_per_sample : Nat)
    (row : List UInt8)
    (sample_base : Nat) :
    Checked Int32 :=
  if bytes_per_sample = 1 then do
    let byte ← index row sample_base
    return Int32.ofNat byte.toNat
  else do
    let value ← readInt row sample_base (sample_base + 2)
    return Int32.ofNat value

/-- The loops over the interleaved color samples. -/
def fillColor
    (image : SimplePackedU8Image)
    (channels : List Channel) :
    Checked (List Channel) :=
  (List.range image.height).foldlM
    (fun channels y => do
      let row ←
        slice image.color_pixels (y * image.color_row_stride)
          (y * image.color_row_stride + image.color_row_stride)
      (List.range image.width).foldlM
        (fun channels x =>
          let bytes_per_sample := bytesPerSample image.bits_per_sample
          let pixel_base := x * image.num_color_channels * bytes_per_sample
          (List.range image.num_color_channels).foldlM
            (fun channels c => do
              let sample_base := pixel_base + c * bytes_per_sample
              let value ← loadSample bytes_per_sample row sample_base
              writeSample channels c y x value)
            channels)
        channels)
    channels

/-- The loops over the samples of one further plane. -/
def fillPlane
    (pixels : List UInt8)
    (row_stride bytes_per_sample c : Nat)
    (channels : List Channel) :
    Checked (List Channel) := do
  let channel ← index channels c
  (List.range channel.h).foldlM
    (fun channels y => do
      let row ← slice pixels (y * row_stride) (y * row_stride + row_stride)
      (List.range channel.w).foldlM
        (fun channels x => do
          let value ← loadSample bytes_per_sample row (x * bytes_per_sample)
          writeSample channels c y x value)
        channels)
    channels

/-- A channel of a subsampled plane, filled with zeros. -/
def createPlane
    (image : SimplePackedU8Image)
    (dim_shift : Nat) :
    Checked Channel := do
  let plane_width ← subsampledSize image.width dim_shift
  let plane_height ← subsampledSize image.height dim_shift
  return Channel.create plane_width plane_height dim_shift dim_shift

def buildPackedSourceImage
    (image : SimplePackedU8Image) :
    Checked Image := do
  let color :=
    List.replicate image.num_color_channels
      (Channel.create image.width image.height 0 0)
  let alpha ←
    (if image.alpha_pixels.length ≠ 0 then do
      let channel ← createPlane image image.alphaDimShift
      return [channel]
    else
      return [])
  let extra ← image.extra_planes.mapM (createPlane image ·.info.dim_shift)
  let channels ← fillColor image (color ++ alpha ++ extra)
  let channels ←
    (if image.alpha_pixels.length ≠ 0 then
      fillPlane image.alpha_pixels image.alpha_row_stride
        (bytesPerSample image.alphaBitsPerSample) image.num_color_channels channels
    else
      return channels)
  let first_extra :=
    image.num_color_channels + (if image.alpha_pixels.length ≠ 0 then 1 else 0)
  let (channels, _) ←
    image.extra_planes.foldlM
      (fun (channels, extra_channel_index) extra => do
        let channels ←
          fillPlane extra.pixels extra.row_stride 1 extra_channel_index channels
        return (channels, extra_channel_index + 1))
      (channels, first_extra)
  return { channels }

/-- What the color encoding of an image must agree with. -/
def checkColorEncoding
    (num_color_channels : Nat)
    (embedded_icc : List UInt8)
    (color_encoding : Option ColorEncoding) :
    Checked ColorEncoding := do
  let effective_color_encoding :=
    color_encoding.getD
      (if num_color_channels = 1 then { color_space := .gray } else {})
  failIf (effective_color_encoding.channels ≠ num_color_channels) .Unsupported
  failIf (¬ (effective_color_encoding.want_icc ↔ embedded_icc.length ≠ 0)) .InvalidArgs
  return effective_color_encoding

/-- The frame of an animation as an image of its own. -/
def SimplePackedU8Animation.frameImage
    (image : SimplePackedU8Animation)
    (frame : SimplePackedU8AnimationFrame) :
    SimplePackedU8Image :=
  { width := image.width
    height := image.height
    num_color_channels := image.num_color_channels
    bits_per_sample := image.bits_per_sample
    use_container := image.use_container
    color_row_stride := frame.color_row_stride
    color_pixels := frame.color_pixels
    alpha_row_stride := frame.alpha_row_stride
    alpha_pixels := frame.alpha_pixels
    alpha_associated := image.alpha_associated
    alpha_info := image.alpha_info
    orientation := image.orientation
    preview_width := image.preview_width
    preview_height := image.preview_height
    intrinsic_width := image.intrinsic_width
    intrinsic_height := image.intrinsic_height
    have_animation := true
    animation := image.animation
    frame_duration := frame.frame_duration
    frame_timecode := frame.frame_timecode
    tone_mapping := image.tone_mapping
    extra_planes := frame.extra_planes }

def validateSimplePackedAnimation
    (image : SimplePackedU8Animation) :
    Checked Unit :=
  match image.frames with
  | [] => fail .InvalidArgs
  | first :: _ => do
      validateMetadataGeometry image.orientation image.preview_width
        image.preview_height image.intrinsic_width image.intrinsic_height
      validateAnimation true image.animation 0 0
      validateToneMapping image.tone_mapping
      image.frames.forM fun frame => do
        failIf (frame.extra_planes.length ≠ first.extra_planes.length) .InvalidArgs
        (frame.extra_planes.zip first.extra_planes).forM fun (extra, reference) =>
          failIf (¬ extra.info.eql reference.info) .InvalidArgs
        validateSimplePackedImage
          { image.frameImage frame with
            use_container := false, preview_width := 0, preview_height := 0 }

/-- The rest of the encoder, which gets the source images. -/
structure Encoder where
  encodePreparedSource :
    SimplePackedU8Image → ColorEncoding → Image → Checked (List UInt8)
  encodePreparedFrames :
    SimplePackedU8Animation → ColorEncoding → List Image → Checked (List UInt8)

def encodeSimplePackedU8
    (encoder : Encoder)
    (image : SimplePackedU8Image)
    (color_encoding : Option ColorEncoding) :
    Checked (List UInt8) := do
  validateSimplePackedImage image
  let effective_color_encoding ←
    checkColorEncoding image.num_color_channels image.embedded_icc color_encoding
  let source ← buildPackedSourceImage image
  encoder.encodePreparedSource image effective_color_encoding source

/-- Each frame is encoded from its source image before the next one is built. -/
def encodeSimplePackedU8Animation
    (encoder : Encoder)
    (image : SimplePackedU8Animation)
    (color_encoding : Option ColorEncoding) :
    Checked (List UInt8) := do
  validateSimplePackedAnimation image
  let effective_color_encoding ←
    checkColorEncoding image.num_color_channels image.embedded_icc color_encoding
  let sources ←
    image.frames.mapM fun frame => buildPackedSourceImage (image.frameImage frame)
  encoder.encodePreparedFrames image effective_color_encoding sources

end Jxlz.EncApi
