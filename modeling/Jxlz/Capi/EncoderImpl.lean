import Jxlz.Capi.BasicInfo
import Jxlz.Capi.PixelFormat

namespace Jxlz.Capi

open BigEndian Container Delivery EncApi

/-!
# The encoder of the C interface

Mirrors `EncoderImpl` of `capi_root.zig`: the staged frame, the queue of frames, how
a queued frame is packed for the encoder behind it, and how the stream is made.
Which allocations succeed is a parameter of each call.
-/

/-- The allocations that one call can make; the numbers are those of its loops. -/
inductive Allocation where
  | settings
  | settingsEntry
  | profile
  | compressed
  | boxContents
  | boxEntry
  | queuedImage
  | queuedPlane (index : Nat)
  | queuedFrame
  | image
  | plane
  | preparedFrames
  | animationFrames
  | colorPixels (frame : Nat)
  | alphaPixels (frame : Nat)
  | extraPlanes (frame : Nat)
  | codestream
  | boxList
  | wrapped
  deriving Repr, DecidableEq

/-- No memory at all is always granted. -/
def allocate
    (granted : Allocation → Bool)
    (allocation : Allocation)
    (size : Nat) :
    Checked Unit :=
  if size = 0 ∨ granted allocation then .ok () else fail .OutOfMemory

structure PendingExtraChannel where
  info_set : Bool := false
  info : JxlExtraChannelInfo := {}
  name : List UInt8 := []
  buffer : List UInt8 := []
  row_stride : Nat := 0
  buffer_set : Bool := false
  deriving Repr, DecidableEq

structure QueuedPlaneBuffer where
  buffer : List UInt8 := []
  row_stride : Nat := 0
  buffer_set : Bool := false
  deriving Repr, DecidableEq

/-- A frame of the queue; it has `channelSlots` extra buffers. -/
structure EncoderQueuedFrame where
  image_format : JxlPixelFormat := {}
  image_bytes : List UInt8 := []
  frame_header_set : Bool := false
  frame_header : JxlFrameHeader := {}
  extra_buffers : Nat → QueuedPlaneBuffer := fun _ => {}

structure EncoderFrameSettings where
  frame_header_set : Bool := false
  frame_header : JxlFrameHeader := {}
  deriving Repr, DecidableEq

/-- The encoder; it has `channelSlots` pending extra channels. -/
structure EncoderImpl where
  basic_info_set : Bool := false
  color_encoding_set : Bool := false
  use_boxes : Bool := false
  boxes_closed : Bool := false
  added_frame : Bool := false
  frames_closed : Bool := false
  input_closed : Bool := false
  started_processing : Bool := false
  basic_info : JxlBasicInfo := {}
  encoded_bytes : List UInt8 := []
  owned_icc : List UInt8 := []
  output_offset : Nat := 0
  frame_settings : List EncoderFrameSettings := []
  queued_frames : List EncoderQueuedFrame := []
  staged_boxes : List Container.Box := []
  internal_color_encoding : Option ColorEncoding := none
  image_format : JxlPixelFormat := {}
  image_bytes : List UInt8 := []
  pending_frame_header_set : Bool := false
  pending_frame_header : JxlFrameHeader := {}
  pending_extra_channels : Nat → PendingExtraChannel := fun _ => {}

/-- The length of the arrays of extra channels. -/
def channelSlots : Nat := 256

/-- Everything behind the encoder that is not part of it. -/
structure Library (Color : Type) where
  builtinEndian : Endian
  toInternalColorEncoding : Color → Nat → Checked ColorEncoding
  compress : List UInt8 → Checked (List UInt8)
  encoder : Encoder

/-- The error of a computation, with `catch`; a stop is no error. -/
def attempt
    {α : Type} :
    Checked α → Checked (Except JxlError α)
  | .ok value => .ok (.ok value)
  | .error (.error code) => .ok (.error code)
  | .error .trap => .error .trap
  | .error .running => .error .running

def PendingExtraChannel.clearBuffer
    (pending : PendingExtraChannel) :
    PendingExtraChannel :=
  { pending with buffer := [], row_stride := 0, buffer_set := false }

def PendingExtraChannel.queued
    (pending : PendingExtraChannel) :
    QueuedPlaneBuffer :=
  if pending.buffer_set then
    { buffer := pending.buffer, row_stride := pending.row_stride, buffer_set := true }
  else
    {}

/-- Drops the staged pixels and keeps what was declared about the channels. -/
def clearPendingFrameBuffers
    (impl : EncoderImpl) :
    EncoderImpl :=
  { impl with
    image_bytes := []
    image_format := {}
    pending_frame_header_set := false
    pending_frame_header := {}
    pending_extra_channels := fun index =>
      (impl.pending_extra_channels index).clearBuffer }

/-- The staged frame as an entry of the queue. -/
def EncoderImpl.stagedFrame
    (impl : EncoderImpl) :
    EncoderQueuedFrame :=
  { image_format := impl.image_format
    image_bytes := impl.image_bytes
    frame_header_set := impl.pending_frame_header_set
    frame_header := impl.pending_frame_header
    extra_buffers := fun index => (impl.pending_extra_channels index).queued }

/-- Moves the staged frame to the end of the queue. -/
def queuePendingFrame
    (granted : Allocation → Bool)
    (impl : EncoderImpl) :
    Checked EncoderImpl :=
  if impl.image_bytes.length = 0 then
    .ok impl
  else do
    allocate granted .queuedImage impl.image_bytes.length
    (List.range channelSlots).forM fun index =>
      let pending := impl.pending_extra_channels index
      if pending.buffer_set then
        allocate granted (.queuedPlane index) pending.buffer.length
      else
        return ()
    allocate granted .queuedFrame 1
    return clearPendingFrameBuffers
      { impl with
        queued_frames := impl.queued_frames ++ [impl.stagedFrame]
        added_frame := true }

/--
Normalizes a row of samples of the caller; `length` is that of the destination.
-/
def copyColorRowForSimpleEncode
    (builtinEndian : Endian)
    (length : Nat)
    (src : List UInt8)
    (format : JxlPixelFormat) :
    Checked (List UInt8) :=
  if format.data_type ≠ .uint16 ∨ format.endianness = .big then
    slice src 0 length
  else do
    let samples ←
      (List.range ((length + 1) / 2)).mapM fun i => do
        let value ← loadU16 builtinEndian (src.drop (2 * i)) format.endianness
        require (2 * i + 2 ≤ length)
        return bytesOf 2 value
    return samples.flatten

/-- `@memcpy` into a part of the row of a buffer. -/
def copyIntoRow
    (buffer : List UInt8)
    (row_start row_length offset : Nat)
    (bytes : List UInt8) :
    Checked (List UInt8) := do
  require (row_start + row_length ≤ buffer.length)
  require (offset + bytes.length ≤ row_length)
  return overwrite buffer (row_start + offset) bytes

structure PreparedSimplePackedInput where
  color_row_stride : Nat
  color_pixels : List UInt8
  alpha_row_stride : Nat
  alpha_pixels : List UInt8
  extra_planes : List SimpleExtraPlaneU8
  deriving Repr, DecidableEq

/-- The sizes that the packing of a frame works with. -/
structure PackedShape where
  width : Nat
  height : Nat
  num_color_channels : Nat
  sample_bytes : Nat
  alpha_sample_bytes : Nat
  image_stride : Nat
  color_row_stride : Nat
  alpha_row_stride : Nat
  alpha_height : Nat

/-- One row of color, with the alpha samples between the colors or without. -/
def packRow
    (builtinEndian : Endian)
    (frame : EncoderQueuedFrame)
    (shape : PackedShape)
    (has_interleaved_alpha : Bool)
    (pixels : List UInt8 × List UInt8)
    (y : Nat) :
    Checked (List UInt8 × List UInt8) := do
  let format := frame.image_format
  let src_row_start := y * shape.image_stride
  let src_row ←
    slice frame.image_bytes src_row_start (src_row_start + shape.image_stride)
  let color_row_start := y * shape.color_row_stride
  if has_interleaved_alpha then
    let alpha_row_start := y * shape.alpha_row_stride
    let color_bytes := shape.num_color_channels * shape.sample_bytes
    (List.range shape.width).foldlM
      (fun (color_pixels, alpha_pixels) x => do
        let src_pixel := x * (shape.num_color_channels + 1)
        let dst_pixel := x * shape.num_color_channels * shape.sample_bytes
        let color ←
          slice src_row (src_pixel * shape.sample_bytes)
            (src_pixel * shape.sample_bytes + color_bytes)
        let color ← copyColorRowForSimpleEncode builtinEndian color_bytes color format
        let color_pixels ←
          copyIntoRow color_pixels color_row_start shape.color_row_stride dst_pixel color
        let alpha ←
          slice src_row ((src_pixel + shape.num_color_channels) * shape.sample_bytes)
            ((src_pixel + shape.num_color_channels + 1) * shape.sample_bytes)
        let alpha ←
          copyColorRowForSimpleEncode builtinEndian shape.alpha_sample_bytes alpha format
        let alpha_pixels ←
          copyIntoRow alpha_pixels alpha_row_start shape.alpha_row_stride
            (x * shape.alpha_sample_bytes) alpha
        return (color_pixels, alpha_pixels))
      pixels
  else
    let row ← slice src_row 0 shape.color_row_stride
    let color ←
      copyColorRowForSimpleEncode builtinEndian shape.color_row_stride row format
    let color_pixels ←
      copyIntoRow pixels.1 color_row_start shape.color_row_stride 0 color
    return (color_pixels, pixels.2)

/-- One row of an alpha plane that was staged on its own. -/
def packAlphaRow
    (plane : QueuedPlaneBuffer)
    (shape : PackedShape)
    (alpha_pixels : List UInt8)
    (y : Nat) :
    Checked (List UInt8) := do
  let alpha_src_start := y * plane.row_stride
  let row ←
    slice plane.buffer alpha_src_start (alpha_src_start + shape.alpha_row_stride)
  copyIntoRow alpha_pixels (y * shape.alpha_row_stride) shape.alpha_row_stride 0 row

def toInternalExtraChannelInfo
    (pending : PendingExtraChannel) :
    Checked ExtraChannelInfo :=
  match extraChannelTypeToInternal pending.info.type with
  | none => fail .Unsupported
  | some extra_type =>
      .ok
        { type := extra_type
          bit_depth :=
            { floating_point_sample := pending.info.exponent_bits_per_sample != 0
              bits_per_sample := pending.info.bits_per_sample
              exponent_bits_per_sample := pending.info.exponent_bits_per_sample }
          dim_shift := pending.info.dim_shift
          name := pending.name
          name_len := pending.name.length
          alpha_associated := pending.info.alpha_premultiplied != 0
          spot_color := pending.info.spot_color
          cfa_channel := pending.info.cfa_channel }

namespace EncoderImpl

def hasAlpha
    (impl : EncoderImpl) :
    Bool :=
  impl.basic_info.alpha_bits != 0

def hasStagedAlpha
    (impl : EncoderImpl)
    (frame : EncoderQueuedFrame) :
    Bool :=
  impl.hasAlpha && (frame.extra_buffers 0).buffer_set

def hasInterleavedAlpha
    (impl : EncoderImpl)
    (frame : EncoderQueuedFrame) :
    Bool :=
  impl.hasAlpha &&
    frame.image_format.num_channels = impl.basic_info.num_color_channels + 1

/-- The subsampling of an alpha plane that was staged on its own. -/
def stagedAlphaDimShift
    (impl : EncoderImpl) :
    Nat :=
  if impl.hasAlpha && (impl.pending_extra_channels 0).info_set then
    (impl.pending_extra_channels 0).info.dim_shift
  else
    0

/-- The extra channels that are no alpha channel start here. -/
def sidecarStart
    (impl : EncoderImpl) :
    Nat :=
  if impl.hasAlpha then 1 else 0

end EncoderImpl

def packedShape
    (impl : EncoderImpl)
    (frame : EncoderQueuedFrame) :
    Checked PackedShape := do
  let width := impl.basic_info.xsize
  let height := impl.basic_info.ysize
  let num_color_channels := impl.basic_info.num_color_channels
  match rowStrideBytes width frame.image_format with
  | none => fail .GenericError
  | some image_stride => do
      let sample_bytes := bytesPerChannel frame.image_format.data_type
      let alpha_sample_bytes := if impl.basic_info.alpha_bits ≤ 8 then 1 else 2
      let alpha_width ← subsampledSize width impl.stagedAlphaDimShift
      let alpha_height ← subsampledSize height impl.stagedAlphaDimShift
      let alpha_row_stride :=
        (if impl.hasInterleavedAlpha frame then width else alpha_width) *
          alpha_sample_bytes
      return {
        width, height, num_color_channels, sample_bytes, alpha_sample_bytes
        image_stride
        color_row_stride := width * num_color_channels * sample_bytes
        alpha_row_stride
        alpha_height := if impl.hasInterleavedAlpha frame then height else alpha_height }

/-- The further plane of a frame with this number among its sidecars. -/
def sidecarPlane
    (impl : EncoderImpl)
    (frame : EncoderQueuedFrame)
    (i : Nat) :
    Checked SimpleExtraPlaneU8 := do
  let extra_index := impl.sidecarStart + i
  require (extra_index < channelSlots)
  let pending := impl.pending_extra_channels extra_index
  let plane := frame.extra_buffers extra_index
  failIf (¬ pending.info_set ∨ ¬ plane.buffer_set) .InvalidArgs
  let info ← toInternalExtraChannelInfo pending
  return { info, row_stride := plane.row_stride, pixels := plane.buffer }

/-- Packs the queued frame with this number. -/
def prepareQueuedPackedInput
    (builtinEndian : Endian)
    (granted : Allocation → Bool)
    (impl : EncoderImpl)
    (number : Nat)
    (frame : EncoderQueuedFrame) :
    Checked PreparedSimplePackedInput := do
  let shape ← packedShape impl frame
  let has_staged_alpha := impl.hasStagedAlpha frame
  let has_interleaved_alpha := impl.hasInterleavedAlpha frame
  let color_size ← mulU 64 shape.color_row_stride shape.height
  allocate granted (.colorPixels number) color_size
  let alpha_size ←
    (if impl.hasAlpha then do
      failIf (has_staged_alpha = has_interleaved_alpha) .InvalidArgs
      let alpha_size ← mulU 64 shape.alpha_row_stride shape.alpha_height
      allocate granted (.alphaPixels number) alpha_size
      return alpha_size
    else
      return 0)
  let sidecar_count ← subU impl.basic_info.num_extra_channels impl.sidecarStart
  allocate granted (.extraPlanes number) sidecar_count
  let extra_planes ← (List.range sidecar_count).mapM (sidecarPlane impl frame)
  let (color_pixels, alpha_pixels) ←
    (List.range shape.height).foldlM
      (packRow builtinEndian frame shape has_interleaved_alpha)
      (List.replicate color_size 0, List.replicate alpha_size 0)
  let alpha_pixels ←
    (if has_staged_alpha then
      (List.range shape.alpha_height).foldlM
        (packAlphaRow (frame.extra_buffers 0) shape) alpha_pixels
    else
      return alpha_pixels)
  return {
    color_row_stride := shape.color_row_stride
    color_pixels
    alpha_row_stride := shape.alpha_row_stride
    alpha_pixels, extra_planes }

/-- The description of the alpha channel, or that of plain alpha. -/
def alphaInfo
    (impl : EncoderImpl) :
    Checked (Option ExtraChannelInfo) :=
  if impl.hasAlpha && (impl.pending_extra_channels 0).info_set then do
    let info ← toInternalExtraChannelInfo (impl.pending_extra_channels 0)
    return some info
  else if impl.hasAlpha then
    return some
      { type := .alpha
        bit_depth := { bits_per_sample := impl.basic_info.alpha_bits }
        alpha_associated := impl.basic_info.alpha_premultiplied != 0 }
  else
    return none

def animationHeader
    (info : JxlBasicInfo) :
    AnimationHeader :=
  { tps_numerator := info.animation.tps_numerator
    tps_denominator := info.animation.tps_denominator
    num_loops := info.animation.num_loops
    have_timecodes := info.animation.have_timecodes != 0 }

def toneMapping
    (info : JxlBasicInfo) :
    ToneMapping :=
  { intensity_target := info.intensity_target
    min_nits := info.min_nits
    relative_to_max_display := info.relative_to_max_display != 0
    linear_below := info.linear_below }

/-- The image of the one frame that is queued. -/
def packedImage
    (impl : EncoderImpl)
    (frame : EncoderQueuedFrame)
    (prepared : PreparedSimplePackedInput) :
    Checked SimplePackedU8Image := do
  let alpha_info ← alphaInfo impl
  let info := impl.basic_info
  return {
    width := info.xsize
    height := info.ysize
    num_color_channels := info.num_color_channels
    bits_per_sample := info.bits_per_sample
    embedded_icc := impl.owned_icc
    color_row_stride := prepared.color_row_stride
    color_pixels := prepared.color_pixels
    alpha_row_stride := prepared.alpha_row_stride
    alpha_pixels := prepared.alpha_pixels
    use_container := info.have_container ≠ 0 ∧ impl.staged_boxes.length = 0
    alpha_associated := info.alpha_premultiplied != 0
    alpha_info
    orientation := info.orientation.tag
    preview_width := info.preview.xsize
    preview_height := info.preview.ysize
    intrinsic_width := info.intrinsic_xsize
    intrinsic_height := info.intrinsic_ysize
    have_animation := info.have_animation != 0
    animation := animationHeader info
    frame_duration := if frame.frame_header_set then frame.frame_header.duration else 0
    frame_timecode := if frame.frame_header_set then frame.frame_header.timecode else 0
    tone_mapping := toneMapping info
    extra_planes := prepared.extra_planes }

def packedAnimationFrame
    (frame : EncoderQueuedFrame)
    (prepared : PreparedSimplePackedInput) :
    SimplePackedU8AnimationFrame :=
  { color_row_stride := prepared.color_row_stride
    color_pixels := prepared.color_pixels
    alpha_row_stride := prepared.alpha_row_stride
    alpha_pixels := prepared.alpha_pixels
    extra_planes := prepared.extra_planes
    frame_duration := if frame.frame_header_set then frame.frame_header.duration else 0
    frame_timecode :=
      if frame.frame_header_set then frame.frame_header.timecode else 0 }

/-- The animation of all frames that are queued. -/
def packedAnimation
    (impl : EncoderImpl)
    (frames : List SimplePackedU8AnimationFrame) :
    Checked SimplePackedU8Animation := do
  let alpha_info ← alphaInfo impl
  let info := impl.basic_info
  return {
    width := info.xsize
    height := info.ysize
    num_color_channels := info.num_color_channels
    bits_per_sample := info.bits_per_sample
    embedded_icc := impl.owned_icc
    use_container := info.have_container ≠ 0 ∧ impl.staged_boxes.length = 0
    alpha_associated := info.alpha_premultiplied != 0
    alpha_info
    orientation := info.orientation.tag
    preview_width := info.preview.xsize
    preview_height := info.preview.ysize
    intrinsic_width := info.intrinsic_xsize
    intrinsic_height := info.intrinsic_ysize
    animation := animationHeader info
    tone_mapping := toneMapping info
    frames }

section

variable {Color : Type}
variable (library : Library Color)
variable (granted : Allocation → Bool)

/-- The codestream of the queued frames, in front of the boxes around it. -/
def encodeQueuedFrames
    (impl : EncoderImpl) :
    Checked (List UInt8) := do
  match impl.queued_frames with
  | [] => fail .InvalidArgs
  | [frame] => do
      failIf (impl.image_bytes.length ≠ 0) .InvalidArgs
      let prepared ←
        prepareQueuedPackedInput library.builtinEndian granted impl 0 frame
      let image ← packedImage impl frame prepared
      allocate granted .codestream 1
      encodeSimplePackedU8 library.encoder image impl.internal_color_encoding
  | frames => do
      allocate granted .preparedFrames frames.length
      allocate granted .animationFrames frames.length
      let animation_frames ←
        frames.zipIdx.mapM fun (frame, i) => do
          let prepared ←
            prepareQueuedPackedInput library.builtinEndian granted impl i frame
          return packedAnimationFrame frame prepared
      let image ← packedAnimation impl animation_frames
      allocate granted .codestream 1
      encodeSimplePackedU8Animation library.encoder image impl.internal_color_encoding

/-- The stream with the staged boxes around it. -/
def wrapPendingBoxes
    (impl : EncoderImpl) :
    Checked (List UInt8) :=
  if impl.staged_boxes.length = 0 then
    .ok impl.encoded_bytes
  else do
    allocate granted .boxList impl.staged_boxes.length
    allocate granted .wrapped 1
    wrapCodestreamWithBoxes impl.encoded_bytes impl.staged_boxes

/-- Makes the stream; the codestream stays when the boxes around it fail. -/
def finalizeSimpleEncode
    (impl : EncoderImpl) :
    Checked (Option JxlError × EncoderImpl) := do
  if impl.encoded_bytes.length ≠ 0 then
    return (none, impl)
  let encoded ← attempt (encodeQueuedFrames library granted impl)
  match encoded with
  | .error code => return (some code, impl)
  | .ok codestream => do
      let impl := { impl with encoded_bytes := codestream }
      let wrapped ← attempt (wrapPendingBoxes granted impl)
      match wrapped with
      | .error code => return (some code, impl)
      | .ok encoded_bytes => return (none, { impl with encoded_bytes, output_offset := 0 })

end

end Jxlz.Capi
