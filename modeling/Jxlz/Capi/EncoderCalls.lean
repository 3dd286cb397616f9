import Jxlz.Capi.EncoderImpl
import Jxlz.Capi.JpegOutput

namespace Jxlz.Capi

open BigEndian Container Delivery EncApi

/-!
# The calls of the encoder

Mirrors the `JxlEncoder...` functions of `capi_root.zig` that work on one encoder.  A
null pointer is a missing argument.  Frame settings are known by their place in the
list of their encoder, and only those that it made are passed to it.
-/

inductive JxlEncoderStatus where
  | success
  | error
  | needMoreOutput
  deriving Repr, DecidableEq

/-- `next_out` and `avail_out`, and the memory of the caller that they point into. -/
structure OutputSpace where
  memory : List UInt8
  next_out : Nat
  avail_out : Nat
  room : next_out + avail_out ≤ memory.length

/-- The space after some bytes were copied to its front. -/
def OutputSpace.copy
    (space : OutputSpace)
    (bytes : List UInt8)
    (fits : bytes.length ≤ space.avail_out) :
    OutputSpace :=
  { memory := overwrite space.memory space.next_out bytes
    next_out := space.next_out + bytes.length
    avail_out := space.avail_out - bytes.length
    room := by
      have inside := space.room
      rw [length_overwrite (by omega)]
      omega }

/-- What a call reports, and the output space that it leaves. -/
structure Reply where
  status : JxlEncoderStatus
  space : Option OutputSpace := none

/--
A call that returns `JXL_ENC_ERROR` for every error of its body, and changes the
encoder only once nothing can fail any more.
-/
def answer
    (impl : EncoderImpl)
    (body : Checked EncoderImpl) :
    Checked (JxlEncoderStatus × EncoderImpl) := do
  let outcome ← attempt body
  match outcome with
  | .ok next => return (.success, next)
  | .error _ => return (.error, impl)

/-- `return .JXL_ENC_ERROR`, where the condition holds. -/
def rejectIf
    (condition : Prop)
    [Decidable condition] :
    Checked Unit :=
  failIf condition .GenericError

/-- An argument that must not be null. -/
def given
    {α : Type}
    (argument : Option α) :
    Checked α :=
  match argument with
  | some value => .ok value
  | none => fail .GenericError

structure IccEmbeddingShape where
  main_color_channels : Nat
  requires_black_extra : Bool := false
  deriving Repr, DecidableEq

/-- The four bytes of a signature. -/
def signature
    (text : String) :
    List UInt8 :=
  text.toList.map Char.toUInt8

def classifyIccEmbeddingShape
    (icc : List UInt8) :
    Checked IccEmbeddingShape := do
  failIf (icc.length < 128 ∨ 2 ^ 32 - 1 < icc.length) .InvalidArgs
  let declared_size ← readInt icc 0 4
  failIf (declared_size ≠ icc.length) .InvalidArgs
  let profile_signature ← slice icc 36 40
  failIf (profile_signature ≠ signature "acsp") .InvalidArgs
  let color_space ← slice icc 16 20
  if color_space ∈ ["GRAY", "MCH1", "1CLR"].map signature then
    return { main_color_channels := 1 }
  else if
    color_space ∈
      ["RGB ", "XYZ ", "Lab ", "Luv ", "YCbr", "Yxy ", "HSV ", "HLS ", "CMY ", "MCH3",
        "3CLR"].map signature
  then
    return { main_color_channels := 3 }
  else if color_space = signature "CMYK" then
    return { main_color_channels := 3, requires_black_extra := true }
  else
    fail .Unsupported

def internalIccColorEncoding
    (num_color_channels : Nat) :
    ColorEncoding :=
  { want_icc := true
    color_space := if num_color_channels = 1 then .gray else .rgb }

def hasStagedBlackExtraChannel
    (impl : EncoderImpl) :
    Checked Bool := do
  require (impl.basic_info.num_extra_channels ≤ channelSlots)
  return (List.range impl.basic_info.num_extra_channels).any fun index =>
    (impl.pending_extra_channels index).info_set &&
      (impl.pending_extra_channels index).info.type = .black

/-- The box types that the container keeps for itself. -/
def reservedBoxTypes : List BoxType :=
  [.JXL, .ftyp, .jxlc, .jxlp, .of 'j' 'x' 'l' 'l', .jbrd, .brob]

/-- Assigns to one of the pending extra channels. -/
def EncoderImpl.setPending
    (impl : EncoderImpl)
    (index : Nat)
    (pending : PendingExtraChannel) :
    EncoderImpl :=
  { impl with
    pending_extra_channels := fun channel =>
      if channel = index then pending else impl.pending_extra_channels channel }

section

variable {Color : Type}
variable (library : Library Color)
variable (granted : Allocation → Bool)
variable (impl : EncoderImpl)

/-- Returns null where an allocation fails. -/
def frameSettingsCreate
    (source : Option Nat) :
    Checked (JxlEncoderStatus × EncoderImpl) := do
  let initial ←
    (match source with
    | none => return {}
    | some settings => index impl.frame_settings settings)
  answer impl (do
    allocate granted .settings 1
    allocate granted .settingsEntry 1
    return { impl with frame_settings := impl.frame_settings ++ [initial] })

def setBasicInfo
    (info : Option JxlBasicInfo) :
    Checked (JxlEncoderStatus × EncoderImpl) :=
  answer impl (do
    let src ← given info
    rejectIf (impl.started_processing ∨ impl.added_frame ∨ impl.frames_closed)
    validateBasicInfoForSimpleEncode src
    return { impl with basic_info := src, basic_info_set := true })

def setColorEncoding
    (color : Option Color) :
    Checked (JxlEncoderStatus × EncoderImpl) :=
  answer impl (do
    let color ← given color
    rejectIf
      (¬ impl.basic_info_set ∨ impl.started_processing ∨ impl.added_frame ∨
        impl.frames_closed)
    let internal ←
      library.toInternalColorEncoding color impl.basic_info.num_color_channels
    return { impl with internal_color_encoding := some internal, color_encoding_set := true })

/-- The checks of a profile, which return its bytes and what it describes. -/
def checkICCProfile
    (icc_profile : CallerBuffer) :
    Checked (List UInt8 × IccEmbeddingShape) := do
  let memory ← given icc_profile.data
  rejectIf
    (¬ impl.basic_info_set ∨ impl.color_encoding_set ∨ impl.started_processing ∨
      impl.added_frame ∨ impl.frames_closed)
  rejectIf (icc_profile.size = 0 ∨ 2 ^ 28 ≤ icc_profile.size)
  let icc ← slice memory 0 icc_profile.size
  let shape ← classifyIccEmbeddingShape icc
  rejectIf (shape.main_color_channels ≠ impl.basic_info.num_color_channels)
  if shape.requires_black_extra then
    let black ← hasStagedBlackExtraChannel impl
    rejectIf (¬ black)
  return (icc, shape)

/-- The old profile is freed before the new one is allocated. -/
def setICCProfile
    (icc_profile : CallerBuffer) :
    Checked (JxlEncoderStatus × EncoderImpl) := do
  let checked ← attempt (checkICCProfile impl icc_profile)
  match checked with
  | .error _ => return (.error, impl)
  | .ok (icc, shape) =>
      let impl := { impl with owned_icc := [] }
      answer impl (do
        allocate granted .profile icc.length
        return {
          impl with
          owned_icc := icc
          internal_color_encoding :=
            some (internalIccColorEncoding shape.main_color_channels)
          color_encoding_set := true })

def useBoxes :
    Checked (JxlEncoderStatus × EncoderImpl) :=
  answer impl (do
    rejectIf
      (¬ impl.basic_info_set ∨ impl.started_processing ∨ impl.added_frame ∨
        impl.use_boxes)
    return { impl with use_boxes := true, boxes_closed := false })

def addBox
    (box_type : Option BoxType)
    (contents : CallerBuffer)
    (compress_box : Int) :
    Checked (JxlEncoderStatus × EncoderImpl) :=
  answer impl (do
    let box_name ← given box_type
    rejectIf (¬ impl.use_boxes ∨ impl.boxes_closed ∨ impl.started_processing)
    rejectIf (box_name ∈ reservedBoxTypes)
    let contents ←
      (if contents.size = 0 then
        return []
      else do
        let memory ← given contents.data
        slice memory 0 contents.size)
    let box ←
      (if compress_box ≠ 0 then do
        allocate granted .compressed 1
        let compressed ← library.compress contents
        allocate granted .boxContents (compressed.length + 4)
        return ({ box_type := .brob, contents := box_name.bytes ++ compressed } :
          Container.Box)
      else do
        allocate granted .boxContents contents.length
        return { box_type := box_name, contents })
    allocate granted .boxEntry 1
    return { impl with staged_boxes := impl.staged_boxes ++ [box] })

/-- `JxlEncoderCloseBoxes`, which reports nothing. -/
def closeBoxes : EncoderImpl :=
  if ¬ impl.use_boxes ∨ impl.started_processing then
    impl
  else
    { impl with boxes_closed := true }

def setExtraChannelInfo
    (index : Nat)
    (info : Option JxlExtraChannelInfo) :
    Checked (JxlEncoderStatus × EncoderImpl) :=
  answer impl (do
    let info ← given info
    rejectIf
      (¬ impl.basic_info_set ∨ impl.started_processing ∨ impl.added_frame ∨
        impl.frames_closed)
    rejectIf (impl.basic_info.num_extra_channels ≤ index)
    validateExtraChannelInfoForSimpleEncode impl.basic_info index info
    require (index < channelSlots)
    let pending := impl.pending_extra_channels index
    return impl.setPending index
      { pending with
        info := { info with name_length := pending.name.length }
        info_set := true })

def setExtraChannelName
    (index : Nat)
    (name : CallerBuffer) :
    Checked (JxlEncoderStatus × EncoderImpl) :=
  answer impl (do
    rejectIf
      (¬ impl.basic_info_set ∨ impl.started_processing ∨ impl.added_frame ∨
        impl.frames_closed)
    rejectIf (impl.basic_info.num_extra_channels ≤ index ∨ 1071 < name.size)
    require (index < channelSlots)
    let pending := impl.pending_extra_channels index
    rejectIf (¬ pending.info_set)
    let bytes ←
      (if name.size = 0 then
        return []
      else do
        let memory ← given name.data
        slice memory 0 name.size)
    return impl.setPending index
      { pending with
        name := bytes
        info := { pending.info with name_length := name.size } })

def setFrameHeader
    (frame_settings : Option Nat)
    (frame_header : Option JxlFrameHeader) :
    Checked (JxlEncoderStatus × EncoderImpl) :=
  answer impl (do
    let settings ← given frame_settings
    let frame_header ← given frame_header
    rejectIf (impl.started_processing ∨ impl.frames_closed)
    let frame_settings ←
      store impl.frame_settings settings { frame_header, frame_header_set := true }
    return { impl with frame_settings })

/-- The sample formats that fit the depth of the image. -/
def checkSampleFormat
    (bits_per_sample : Nat)
    (format : JxlPixelFormat) :
    Checked Unit :=
  if bits_per_sample = 8 then
    rejectIf (format.data_type ≠ .uint8)
  else if bits_per_sample = 16 then
    rejectIf (format.data_type ≠ .uint16)
  else
    fail .GenericError

/-- A frame header is checked if one was set. -/
def checkFrameHeader
    (settings_impl : EncoderFrameSettings) :
    Checked Unit :=
  if settings_impl.frame_header_set then
    validateFrameHeaderForSimpleEncode impl.basic_info settings_impl.frame_header
  else
    return ()

/-- The checks of a frame, which return the bytes that are taken from the caller. -/
def checkImageFrame
    (settings_impl : EncoderFrameSettings)
    (format : JxlPixelFormat)
    (memory : List UInt8)
    (size : Nat) :
    Checked (List UInt8) := do
  rejectIf
    (¬ impl.basic_info_set ∨ ¬ impl.color_encoding_set ∨ impl.frames_closed ∨
      impl.started_processing)
  checkSampleFormat impl.basic_info.bits_per_sample format
  let min_channels := impl.basic_info.num_color_channels
  let max_channels := min_channels + (if impl.hasAlpha then 1 else 0)
  rejectIf (format.num_channels < min_channels ∨ max_channels < format.num_channels)
  rejectIf
    (impl.hasAlpha ∧ format.num_channels = max_channels ∧
      (impl.pending_extra_channels 0).info_set ∧
      (impl.pending_extra_channels 0).info.dim_shift ≠ 0)
  checkFrameHeader impl settings_impl
  let stride ← given (rowStrideBytes impl.basic_info.xsize format)
  let needed ← mulU 64 stride impl.basic_info.ysize
  rejectIf (size < needed)
  slice memory 0 needed

/-- The frame staged before is queued before the new one is allocated. -/
def addImageFrame
    (frame_settings : Option Nat)
    (format : Option JxlPixelFormat)
    (buffer : CallerBuffer) :
    Checked (JxlEncoderStatus × EncoderImpl) := do
  match frame_settings, format, buffer.data with
  | some settings, some format, some memory => do
      let settings_impl ← index impl.frame_settings settings
      let checked ←
        attempt (checkImageFrame impl settings_impl format memory buffer.size)
      match checked with
      | .error _ => return (.error, impl)
      | .ok pixels => do
          let queued ← attempt (queuePendingFrame granted impl)
          match queued with
          | .error _ => return (.error, impl)
          | .ok impl =>
              let allocated ← attempt (allocate granted .image pixels.length)
              match allocated with
              | .error _ => return (.error, impl)
              | .ok _ =>
                  return (.success, {
                    impl with
                    image_bytes := pixels
                    image_format := format
                    pending_frame_header_set := settings_impl.frame_header_set
                    pending_frame_header := settings_impl.frame_header
                    added_frame := true })
  | _, _, _ => return (.error, impl)

/-- A plane that passed its checks: the bytes of the caller, and their shape. -/
structure CheckedPlane where
  bytes : List UInt8
  stride : Nat
  plane_width : Nat
  plane_height : Nat

/-- Whether a channel is the alpha channel, staged apart from the colors. -/
def isStagedAlpha
    (index : Nat) :
    Bool :=
  impl.hasAlpha && index = 0

/-- The subsampling of a channel, which plain alpha does not have. -/
def channelDimShift
    (index : Nat) :
    Nat :=
  if isStagedAlpha impl index && !(impl.pending_extra_channels index).info_set then
    0
  else
    (impl.pending_extra_channels index).info.dim_shift

/-- The sample formats that fit a channel. -/
def checkPlaneFormat
    (format : JxlPixelFormat)
    (index : Nat) :
    Checked Unit :=
  if isStagedAlpha impl index then
    checkSampleFormat impl.basic_info.alpha_bits format
  else
    rejectIf (format.data_type ≠ .uint8)

def checkExtraChannelBuffer
    (format : JxlPixelFormat)
    (memory : List UInt8)
    (size index : Nat) :
    Checked CheckedPlane := do
  rejectIf
    (¬ impl.basic_info_set ∨ ¬ impl.color_encoding_set ∨ impl.image_bytes.length = 0 ∨
      impl.started_processing ∨ impl.frames_closed)
  rejectIf (impl.basic_info.num_extra_channels ≤ index)
  require (index < channelSlots)
  let pending := impl.pending_extra_channels index
  rejectIf (¬ isStagedAlpha impl index ∧ ¬ pending.info_set)
  checkPlaneFormat impl format index
  let extra_format := { format with num_channels := 1 }
  let dim_shift := channelDimShift impl index
  let plane_width ← subsampledSize impl.basic_info.xsize dim_shift
  let plane_width ← castU 32 plane_width
  let plane_height ← subsampledSize impl.basic_info.ysize dim_shift
  let stride ← given (rowStrideBytes plane_width extra_format)
  let needed ← mulU 64 stride plane_height
  rejectIf (size < needed)
  let bytes ← slice memory 0 needed
  return { bytes, stride, plane_width, plane_height }

/-- One row of 16-bit alpha, with its padding, in the order of the encoder. -/
def stageAlphaRow
    (builtinEndian : Endian)
    (format : JxlPixelFormat)
    (plane : CheckedPlane)
    (staged : List UInt8)
    (y : Nat) :
    Checked (List UInt8) := do
  let sample_row_bytes := plane.plane_width * 2
  let row_start := y * plane.stride
  let src_row ← slice plane.bytes row_start (row_start + plane.stride)
  let src_samples ← slice src_row 0 sample_row_bytes
  let samples ←
    copyColorRowForSimpleEncode builtinEndian sample_row_bytes src_samples format
  let staged ← copyIntoRow staged row_start plane.stride 0 samples
  if sample_row_bytes < plane.stride then do
    let padding ← slice src_row sample_row_bytes plane.stride
    copyIntoRow staged row_start plane.stride sample_row_bytes padding
  else
    return staged

/-- The staged copy of a plane. -/
def stagePlane
    (builtinEndian : Endian)
    (format : JxlPixelFormat)
    (is_staged_alpha : Bool)
    (plane : CheckedPlane) :
    Checked (List UInt8) :=
  if is_staged_alpha ∧ format.data_type = .uint16 ∧ format.endianness ≠ .big then
    (List.range plane.plane_height).foldlM
      (stageAlphaRow builtinEndian { format with num_channels := 1 } plane)
      (List.replicate plane.bytes.length 0)
  else
    return plane.bytes

/-- The buffer staged before is freed before the new one is allocated. -/
def setExtraChannelBuffer
    (frame_settings : Option Nat)
    (format : Option JxlPixelFormat)
    (buffer : CallerBuffer)
    (index : Nat) :
    Checked (JxlEncoderStatus × EncoderImpl) := do
  match frame_settings, format, buffer.data with
  | some settings, some format, some memory => do
      require (settings < impl.frame_settings.length)
      let checked ←
        attempt (checkExtraChannelBuffer impl format memory buffer.size index)
      match checked with
      | .error _ => return (.error, impl)
      | .ok plane => do
          let is_staged_alpha := isStagedAlpha impl index
          let pending := { impl.pending_extra_channels index with buffer := [] }
          let impl := impl.setPending index pending
          let allocated ← attempt (allocate granted .plane plane.bytes.length)
          match allocated with
          | .error _ => return (.error, impl)
          | .ok _ => do
              let staged ←
                stagePlane library.builtinEndian format is_staged_alpha plane
              return (.success,
                impl.setPending index
                  { pending with
                    buffer := staged, row_stride := plane.stride, buffer_set := true })
  | _, _, _ => return (.error, impl)

/-- `JxlEncoderCloseFrames`, which reports nothing. -/
def closeFrames : Checked EncoderImpl := do
  if impl.started_processing then
    return impl
  let queued ← attempt (queuePendingFrame granted impl)
  match queued with
  | .error _ => return impl
  | .ok impl => return { impl with frames_closed := true }

/-- `JxlEncoderCloseInput`, which reports nothing. -/
def closeInput : Checked EncoderImpl := do
  let queued ← attempt (queuePendingFrame granted impl)
  match queued with
  | .error _ => return impl
  | .ok impl =>
      return {
        impl with
        boxes_closed := impl.boxes_closed || impl.use_boxes
        frames_closed := true
        input_closed := true }

/-- Copies the next part of the stream; `space` is missing for a null pointer. -/
def processOutput
    (space : Option OutputSpace) :
    Checked (JxlEncoderStatus × Option OutputSpace × EncoderImpl) := do
  match space with
  | none => return (.error, none, impl)
  | some space => do
      let impl := { impl with started_processing := true }
      if ¬ (impl.input_closed ∨ impl.frames_closed) ∨ ¬ impl.added_frame then
        return (.error, some space, impl)
      if impl.use_boxes ∧ ¬ impl.boxes_closed then
        return (.error, some space, impl)
      let (failed, impl) ←
        (if impl.encoded_bytes.length = 0 then
          finalizeSimpleEncode library granted impl
        else
          return (none, impl))
      if failed.isSome then
        return (.error, some space, impl)
      if impl.encoded_bytes.length ≤ impl.output_offset then
        return (.success, some space, impl)
      if space.avail_out = 0 then
        return (.needMoreOutput, some space, impl)
      let remaining := impl.encoded_bytes.length - impl.output_offset
      let to_copy := min remaining space.avail_out
      let bytes ←
        slice impl.encoded_bytes impl.output_offset (impl.output_offset + to_copy)
      if fits : bytes.length ≤ space.avail_out then
        let impl := { impl with output_offset := impl.output_offset + to_copy }
        let status :=
          if impl.encoded_bytes.length ≤ impl.output_offset then
            .success
          else
            .needMoreOutput
        return (status, some (space.copy bytes fits), impl)
      else
        .error .trap

end

/-- The calls of a client on one encoder. -/
inductive Call (Color : Type) where
  | frameSettingsCreate (source : Option Nat)
  | setBasicInfo (info : Option JxlBasicInfo)
  | setColorEncoding (color : Option Color)
  | setICCProfile (icc_profile : CallerBuffer)
  | useBoxes
  | addBox (box_type : Option BoxType) (contents : CallerBuffer) (compress_box : Int)
  | closeBoxes
  | setExtraChannelInfo (index : Nat) (info : Option JxlExtraChannelInfo)
  | setExtraChannelName (index : Nat) (name : CallerBuffer)
  | setFrameHeader (frame_settings : Option Nat) (frame_header : Option JxlFrameHeader)
  | addImageFrame
      (frame_settings : Option Nat)
      (format : Option JxlPixelFormat)
      (buffer : CallerBuffer)
  | setExtraChannelBuffer
      (frame_settings : Option Nat)
      (format : Option JxlPixelFormat)
      (buffer : CallerBuffer)
      (index : Nat)
  | closeFrames
  | closeInput
  | processOutput (space : Option OutputSpace)

/-- A call, and which of its allocations succeed. -/
structure Request (Color : Type) where
  call : Call Color
  granted : Allocation → Bool := fun _ => true

/-- A call that reports a status, or nothing but success. -/
def step
    {Color : Type}
    (library : Library Color)
    (impl : EncoderImpl)
    (request : Request Color) :
    Checked (Reply × EncoderImpl) :=
  let plain (answered : Checked (JxlEncoderStatus × EncoderImpl)) :
      Checked (Reply × EncoderImpl) := do
    let (status, next) ← answered
    return ({ status }, next)
  let silent (closed : Checked EncoderImpl) : Checked (Reply × EncoderImpl) := do
    let next ← closed
    return ({ status := .success }, next)
  let granted := request.granted
  match request.call with
  | .frameSettingsCreate source => plain (frameSettingsCreate granted impl source)
  | .setBasicInfo info => plain (setBasicInfo impl info)
  | .setColorEncoding color => plain (setColorEncoding library impl color)
  | .setICCProfile icc_profile => plain (setICCProfile granted impl icc_profile)
  | .useBoxes => plain (useBoxes impl)
  | .addBox box_type contents compress_box =>
      plain (addBox library granted impl box_type contents compress_box)
  | .closeBoxes => silent (.ok (closeBoxes impl))
  | .setExtraChannelInfo index info => plain (setExtraChannelInfo impl index info)
  | .setExtraChannelName index name => plain (setExtraChannelName impl index name)
  | .setFrameHeader frame_settings frame_header =>
      plain (setFrameHeader impl frame_settings frame_header)
  | .addImageFrame frame_settings format buffer =>
      plain (addImageFrame granted impl frame_settings format buffer)
  | .setExtraChannelBuffer frame_settings format buffer index =>
      plain
        (setExtraChannelBuffer library granted impl frame_settings format buffer index)
  | .closeFrames => silent (closeFrames granted impl)
  | .closeInput => silent (closeInput granted impl)
  | .processOutput space => do
      let (status, space, next) ← processOutput library granted impl space
      return ({ status, space }, next)

/-- All calls of a client in order, with what they report. -/
def runCalls
    {Color : Type}
    (library : Library Color)
    (impl : EncoderImpl) :
    List (Request Color) → Checked (List Reply × EncoderImpl)
  | [] => .ok ([], impl)
  | request :: requests => do
      let (reply, next) ← step library impl request
      let (replies, last) ← runCalls library next requests
      return (reply :: replies, last)

end Jxlz.Capi
