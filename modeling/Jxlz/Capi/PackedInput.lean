import Jxlz.Capi.PackedRows

namespace Jxlz.Capi

open BigEndian Container Delivery EncApi

/-!
# Queued frames as packed images

What the caller has submitted for a frame, how a queued frame holds it, and that the
packed image of the frame holds the same samples.
-/

/-- A plane that the caller submitted: its format and its memory. -/
structure SubmittedPlane where
  format : JxlPixelFormat
  memory : List UInt8

/-- A frame that the caller submitted, with the planes that belong to it. -/
structure SubmittedFrame where
  format : JxlPixelFormat
  memory : List UInt8
  planes : Nat → Option SubmittedPlane := fun _ => none

/-- What the checks of a basic info guarantee. -/
structure ValidInfo
    (info : JxlBasicInfo) :
    Prop where
  width : 0 < info.xsize
  height : 0 < info.ysize
  bits : info.bits_per_sample = 8 ∨ info.bits_per_sample = 16
  colors : info.num_color_channels = 1 ∨ info.num_color_channels = 3
  alpha :
    info.alpha_bits ≠ 0 →
      info.alpha_bits = info.bits_per_sample ∧ info.num_extra_channels ≠ 0

/-- The samples of the caller are as wide as those of the packed image. -/
theorem checkSampleFormat_ok
    {bits_per_sample : Nat}
    {format : JxlPixelFormat}
    (checked : checkSampleFormat bits_per_sample format = .ok ()) :
    PackedType format ∧
      bytesPerChannel format.data_type = bytesPerSample bits_per_sample := by
  unfold checkSampleFormat at checked
  split at checked
  next isEight =>
    have isByte := not_not.1 (rejectIf_eq_ok.1 checked)
    rw [isByte, isEight]
    exact ⟨.inl isByte, rfl⟩
  next =>
    split at checked
    next isSixteen =>
      have isWord := not_not.1 (rejectIf_eq_ok.1 checked)
      rw [isWord, isSixteen]
      exact ⟨.inr isWord, rfl⟩
    next =>
      cases checked

/-- A staged plane holds the samples of the caller in big-endian order. -/
structure StagedPlane
    (builtinEndian : Endian)
    (w h : Nat)
    (given : SubmittedPlane)
    (plane : QueuedPlaneBuffer) :
    Prop where
  length : plane.buffer.length = plane.row_stride * h
  sample :
    ∀ y x,
      y < h →
      x < w →
      part plane.buffer
          (y * plane.row_stride + x * bytesPerChannel given.format.data_type)
          (bytesPerChannel given.format.data_type) =
        inOrder builtinEndian given.format.endianness
          (part given.memory
            (y * plane.row_stride + x * bytesPerChannel given.format.data_type)
            (bytesPerChannel given.format.data_type))

/-- A plane that was accepted; it may have been lost again afterwards. -/
structure KeptPlane
    (builtinEndian : Endian)
    (impl : EncoderImpl)
    (index : Nat)
    (given : SubmittedPlane)
    (plane : QueuedPlaneBuffer)
    (w h : Nat) :
    Prop where
  width : subsampledSize impl.basic_info.xsize (channelDimShift impl index) = .ok w
  height : subsampledSize impl.basic_info.ysize (channelDimShift impl index) = .ok h
  alphaFormat :
    isStagedAlpha impl index = true →
      checkSampleFormat impl.basic_info.alpha_bits given.format = .ok ()
  sidecarFormat : isStagedAlpha impl index = false → given.format.data_type = .uint8
  stride :
    rowStrideBytes w { given.format with num_channels := 1 } = some plane.row_stride
  inside : plane.row_stride * h ≤ given.memory.length
  buffer : plane.buffer = [] ∨ StagedPlane builtinEndian w h given plane

/-- The pixels of a frame are taken from the memory of the caller. -/
structure KeptPixels
    (impl : EncoderImpl)
    (given : SubmittedFrame)
    (frame : EncoderQueuedFrame)
    (stride : Nat) :
    Prop where
  isStride : rowStrideBytes impl.basic_info.xsize given.format = some stride
  small : stride * impl.basic_info.ysize < 2 ^ 64
  inside : stride * impl.basic_info.ysize ≤ given.memory.length
  taken : frame.image_bytes = given.memory.take (stride * impl.basic_info.ysize)

/-- A frame of the queue, or the one that is staged, holds what was submitted. -/
structure KeptFrame
    (builtinEndian : Endian)
    (impl : EncoderImpl)
    (given : SubmittedFrame)
    (frame : EncoderQueuedFrame) :
    Prop where
  format : frame.image_format = given.format
  sampleFormat : checkSampleFormat impl.basic_info.bits_per_sample given.format = .ok ()
  enough : impl.basic_info.num_color_channels ≤ given.format.num_channels
  notTooMany :
    given.format.num_channels ≤
      impl.basic_info.num_color_channels + (if impl.hasAlpha then 1 else 0)
  wholeAlpha :
    impl.hasAlpha = true →
      given.format.num_channels = impl.basic_info.num_color_channels + 1 →
      impl.stagedAlphaDimShift = 0
  pixels : ∃ stride, KeptPixels impl given frame stride
  unset :
    ∀ index, given.planes index = none → (frame.extra_buffers index).buffer_set = false
  set :
    ∀ index plane,
      given.planes index = some plane →
      (frame.extra_buffers index).buffer_set = true ∧
        ∃ w h,
          KeptPlane builtinEndian impl index plane (frame.extra_buffers index) w h

section

variable {builtinEndian : Endian}
variable {impl : EncoderImpl}
variable {given : SubmittedFrame}
variable {frame : EncoderQueuedFrame}
variable {shape : PackedShape}

theorem packedShape_ok
    (shaped : packedShape impl frame = .ok shape) :
    ∃ image_stride alpha_width alpha_height,
      rowStrideBytes impl.basic_info.xsize frame.image_format = some image_stride ∧
        subsampledSize impl.basic_info.xsize impl.stagedAlphaDimShift =
            .ok alpha_width ∧
        subsampledSize impl.basic_info.ysize impl.stagedAlphaDimShift =
            .ok alpha_height ∧
        shape =
          { width := impl.basic_info.xsize
            height := impl.basic_info.ysize
            num_color_channels := impl.basic_info.num_color_channels
            sample_bytes := bytesPerChannel frame.image_format.data_type
            alpha_sample_bytes := if impl.basic_info.alpha_bits ≤ 8 then 1 else 2
            image_stride
            color_row_stride :=
              impl.basic_info.xsize * impl.basic_info.num_color_channels *
                bytesPerChannel frame.image_format.data_type
            alpha_row_stride :=
              (if impl.hasInterleavedAlpha frame then impl.basic_info.xsize
                else alpha_width) *
                (if impl.basic_info.alpha_bits ≤ 8 then 1 else 2)
            alpha_height :=
              if impl.hasInterleavedAlpha frame then impl.basic_info.ysize
              else alpha_height } := by
  unfold packedShape at shaped
  dsimp only at shaped
  split at shaped
  next => cases shaped
  next image_stride isStride =>
    obtain ⟨alpha_width, isWidth, shaped⟩ := bind_eq_ok.1 shaped
    obtain ⟨alpha_height, isHeight, shaped⟩ := bind_eq_ok.1 shaped
    exact ⟨image_stride, alpha_width, alpha_height, isStride, isWidth, isHeight,
      (Except.ok.inj shaped).symm⟩

/-- The samples of a frame are as wide as its basic info says. -/
theorem KeptFrame.bytes
    (kept : KeptFrame builtinEndian impl given frame) :
    PackedType given.format ∧
      bytesPerChannel given.format.data_type =
        bytesPerSample impl.basic_info.bits_per_sample :=
  checkSampleFormat_ok kept.sampleFormat

variable {stride : Nat}

/-- The rows of a kept frame fit the shape that it is packed with. -/
theorem KeptFrame.rowsFit
    (kept : KeptFrame builtinEndian impl given frame)
    (pixels : KeptPixels impl given frame stride)
    (shaped : packedShape impl frame = .ok shape) :
    RowsFit frame shape ∧ shape.image_stride = stride := by
  obtain ⟨image_stride, alpha_width, alpha_height, isStride, _, _, rfl⟩ :=
    packedShape_ok shaped
  rw [kept.format] at isStride
  have same : image_stride = stride :=
    Option.some.inj (isStride.symm.trans pixels.isStride)
  obtain ⟨row_bytes, isRow, short, _⟩ := rowStrideBytes_eq_some isStride
  obtain ⟨rfl, _⟩ := packedRowBytes_eq_some isRow
  refine ⟨?_, same⟩
  constructor
  · rw [kept.format]
    exact kept.bytes.1
  · rfl
  · rfl
  · dsimp only
    rw [kept.format, Nat.mul_assoc]
    exact short
  · dsimp only
    rw [pixels.taken, List.length_take, same]
    exact Nat.le_min.2 ⟨Nat.le_refl _, pixels.inside⟩

/-- The sample of a channel of a submitted frame, in big-endian order. -/
def submittedSample
    (builtinEndian : Endian)
    (given : SubmittedFrame)
    (stride y x c : Nat) :
    List UInt8 :=
  inOrder builtinEndian given.format.endianness
    (part given.memory
      (y * stride +
        (x * given.format.num_channels + c) * bytesPerChannel given.format.data_type)
      (bytesPerChannel given.format.data_type))

/-- A sample lies inside the memory that was checked. -/
theorem submittedSample_inside
    {width height stride y x c : Nat}
    {format : JxlPixelFormat}
    (isStride : rowStrideBytes width format = some stride)
    (inHeight : y < height)
    (inWidth : x < width)
    (inChannels : c < format.num_channels) :
    y * stride +
        (x * format.num_channels + c) * bytesPerChannel format.data_type +
          bytesPerChannel format.data_type ≤
      stride * height := by
  obtain ⟨row_bytes, isRow, short, _⟩ := rowStrideBytes_eq_some isStride
  obtain ⟨rfl, _⟩ := packedRowBytes_eq_some isRow
  rw [← Nat.mul_assoc] at short
  have row := row_inside inHeight (Nat.le_refl (stride * height))
  have sample := sample_inside (bytesPerChannel format.data_type) inWidth inChannels
  rw [← Nat.add_mul] at sample
  omega

theorem callerSample_eq
    (kept : KeptFrame builtinEndian impl given frame)
    (pixels : KeptPixels impl given frame stride)
    (shaped : packedShape impl frame = .ok shape)
    {y x c : Nat}
    (inHeight : y < impl.basic_info.ysize)
    (inWidth : x < impl.basic_info.xsize)
    (inChannels : c < given.format.num_channels) :
    callerSample builtinEndian frame shape y x c =
      submittedSample builtinEndian given stride y x c := by
  obtain ⟨fits, isStride⟩ := kept.rowsFit pixels shaped
  have inside := submittedSample_inside pixels.isStride inHeight inWidth inChannels
  unfold callerSample submittedSample
  rw [fits.sample, kept.format, isStride, pixels.taken, part_take inside]

/-- The steps of the packing of a frame that succeeds. -/
structure PackingSteps
    (builtinEndian : Endian)
    (impl : EncoderImpl)
    (frame : EncoderQueuedFrame)
    (prepared : PreparedSimplePackedInput)
    (shape : PackedShape) :
    Prop where
  shaped : packedShape impl frame = .ok shape
  oneAlpha :
    impl.hasAlpha = true → impl.hasStagedAlpha frame ≠ impl.hasInterleavedAlpha frame
  start : impl.sidecarStart ≤ impl.basic_info.num_extra_channels
  planes :
    (List.range (impl.basic_info.num_extra_channels - impl.sidecarStart)).mapM
        (sidecarPlane impl frame) =
      .ok prepared.extra_planes
  rows :
    ∃ color_size alpha_size alpha_pixels,
      color_size = shape.color_row_stride * shape.height ∧
        alpha_size =
            (if impl.hasAlpha then shape.alpha_row_stride * shape.alpha_height else 0) ∧
        (List.range shape.height).foldlM
              (packRow builtinEndian frame shape (impl.hasInterleavedAlpha frame))
              (List.replicate color_size 0, List.replicate alpha_size 0) =
            .ok (prepared.color_pixels, alpha_pixels) ∧
        (if impl.hasStagedAlpha frame then
            (List.range shape.alpha_height).foldlM
              (packAlphaRow (frame.extra_buffers 0) shape) alpha_pixels
          else
            return alpha_pixels) =
          .ok prepared.alpha_pixels
  strides :
    prepared.color_row_stride = shape.color_row_stride ∧
      prepared.alpha_row_stride = shape.alpha_row_stride

variable {prepared : PreparedSimplePackedInput}

/-- The packed colors of a frame are the submitted ones. -/
structure ColorsExact
    (builtinEndian : Endian)
    (impl : EncoderImpl)
    (given : SubmittedFrame)
    (prepared : PreparedSimplePackedInput)
    (stride : Nat) :
    Prop where
  row_stride :
    prepared.color_row_stride =
      impl.basic_info.xsize * impl.basic_info.num_color_channels *
        bytesPerChannel given.format.data_type
  sample :
    ∀ y x c,
      y < impl.basic_info.ysize →
      x < impl.basic_info.xsize →
      c < impl.basic_info.num_color_channels →
      part prepared.color_pixels
          (y * prepared.color_row_stride +
            (x * impl.basic_info.num_color_channels *
                bytesPerChannel given.format.data_type +
              c * bytesPerChannel given.format.data_type))
          (bytesPerChannel given.format.data_type) =
        submittedSample builtinEndian given stride y x c

/-- Alpha is submitted between the colors, and packed as submitted. -/
structure AlphaBetween
    (builtinEndian : Endian)
    (impl : EncoderImpl)
    (given : SubmittedFrame)
    (prepared : PreparedSimplePackedInput)
    (stride : Nat) :
    Prop where
  channels : given.format.num_channels = impl.basic_info.num_color_channels + 1
  noPlane : given.planes 0 = none
  row_stride :
    prepared.alpha_row_stride =
      impl.basic_info.xsize * bytesPerChannel given.format.data_type
  sample :
    ∀ y x,
      y < impl.basic_info.ysize →
      x < impl.basic_info.xsize →
      part prepared.alpha_pixels
          (y * prepared.alpha_row_stride +
            x * bytesPerChannel given.format.data_type)
          (bytesPerChannel given.format.data_type) =
        submittedSample builtinEndian given stride y x
          impl.basic_info.num_color_channels

/-- The sample of a plane that was submitted on its own, in big-endian order. -/
def planeSample
    (builtinEndian : Endian)
    (given : SubmittedPlane)
    (stride y x : Nat) :
    List UInt8 :=
  inOrder builtinEndian given.format.endianness
    (part given.memory (y * stride + x * bytesPerChannel given.format.data_type)
      (bytesPerChannel given.format.data_type))

/-- Alpha is submitted as a plane of its own, and packed as submitted. -/
structure AlphaApart
    (builtinEndian : Endian)
    (impl : EncoderImpl)
    (given : SubmittedFrame)
    (frame : EncoderQueuedFrame)
    (prepared : PreparedSimplePackedInput)
    (plane : SubmittedPlane)
    (w h : Nat) :
    Prop where
  channels : given.format.num_channels = impl.basic_info.num_color_channels
  isPlane : given.planes 0 = some plane
  kept : KeptPlane builtinEndian impl 0 plane (frame.extra_buffers 0) w h
  row_stride :
    prepared.alpha_row_stride = w * bytesPerChannel plane.format.data_type
  sample :
    ∀ y x,
      y < h →
      x < w →
      part prepared.alpha_pixels
          (y * prepared.alpha_row_stride +
            x * bytesPerChannel plane.format.data_type)
          (bytesPerChannel plane.format.data_type) =
        planeSample builtinEndian plane (frame.extra_buffers 0).row_stride y x

/-- A plane of an image that is not empty is not empty. -/
theorem subsampledSize_pos
    {size dim_shift result : Nat}
    (subsampled : subsampledSize size dim_shift = .ok result)
    (positive : 0 < size) :
    0 < result := by
  unfold subsampledSize at subsampled
  obtain ⟨shift, _, subsampled⟩ := bind_eq_ok.1 subsampled
  split at subsampled
  next =>
    cases subsampled
    exact positive
  next =>
    split at subsampled
    next =>
      cases subsampled
      split <;> omega
    next =>
      unfold divCeil at subsampled
      obtain ⟨sum, isSum, subsampled⟩ := bind_eq_ok.1 subsampled
      obtain ⟨top, isTop, subsampled⟩ := bind_eq_ok.1 subsampled
      obtain ⟨_, isDivisor, subsampled⟩ := bind_eq_ok.1 subsampled
      cases subsampled
      obtain ⟨rfl, _⟩ := addU_eq_ok isSum
      obtain ⟨rfl, _⟩ := subU_eq_ok isTop
      have divisor := Nat.pos_of_ne_zero (require_eq_ok.1 isDivisor)
      exact Nat.div_pos (by omega) divisor

/-- The subsampling of alpha is the same where it is staged and where it is packed. -/
theorem channelDimShift_alpha
    (hasAlpha : impl.hasAlpha = true) :
    isStagedAlpha impl 0 = true ∧ channelDimShift impl 0 = impl.stagedAlphaDimShift := by
  have isAlpha : isStagedAlpha impl 0 = true := by
    unfold isStagedAlpha
    rw [hasAlpha]
    rfl
  refine ⟨isAlpha, ?_⟩
  unfold channelDimShift EncoderImpl.stagedAlphaDimShift
  rw [isAlpha, hasAlpha]
  cases (impl.pending_extra_channels 0).info_set <;> rfl

/-- Samples of alpha are as wide as those of the colors. -/
theorem KeptFrame.alphaBytes
    (kept : KeptFrame builtinEndian impl given frame)
    (valid : ValidInfo impl.basic_info)
    (hasAlpha : impl.hasAlpha = true) :
    (if impl.basic_info.alpha_bits ≤ 8 then 1 else 2) =
      bytesPerChannel given.format.data_type := by
  have declared : impl.basic_info.alpha_bits ≠ 0 := by
    simpa [EncoderImpl.hasAlpha] using hasAlpha
  rw [kept.bytes.2, (valid.alpha declared).1]
  rfl

theorem KeptFrame.plainChannels
    (kept : KeptFrame builtinEndian impl given frame)
    (notBetween : impl.hasInterleavedAlpha frame = false) :
    given.format.num_channels = impl.basic_info.num_color_channels := by
  have enough := kept.enough
  have notTooMany := kept.notTooMany
  unfold EncoderImpl.hasInterleavedAlpha at notBetween
  rw [kept.format] at notBetween
  cases hasAlpha : impl.hasAlpha with
  | false =>
      rw [hasAlpha] at notTooMany
      simp only [Bool.false_eq_true, if_false] at notTooMany
      omega
  | true =>
      rw [hasAlpha] at notBetween notTooMany
      simp only [Bool.true_and, decide_eq_false_iff_not, if_true] at notBetween notTooMany
      omega

/-- The colors of a packed frame. -/
theorem PackingSteps.colors
    (steps : PackingSteps builtinEndian impl frame prepared shape)
    (kept : KeptFrame builtinEndian impl given frame)
    (pixels : KeptPixels impl given frame stride)
    (packed : ColorPacked builtinEndian frame shape prepared.color_pixels) :
    ColorsExact builtinEndian impl given prepared stride := by
  have shaped := steps.shaped
  obtain ⟨strideEq, _⟩ := steps.strides
  obtain ⟨_, _, _, _, _, _, isShape⟩ := packedShape_ok shaped
  have width : shape.width = impl.basic_info.xsize := by rw [isShape]
  have height : shape.height = impl.basic_info.ysize := by rw [isShape]
  have colors : shape.num_color_channels = impl.basic_info.num_color_channels := by
    rw [isShape]
  have bytes : shape.sample_bytes = bytesPerChannel given.format.data_type := by
    rw [isShape, ← kept.format]
  have row :
      shape.color_row_stride =
        impl.basic_info.xsize * impl.basic_info.num_color_channels *
          bytesPerChannel given.format.data_type := by
    rw [isShape, ← kept.format]
  refine ⟨strideEq.trans row, fun y x c inHeight inWidth inColors => ?_⟩
  have sample :=
    packed.sample y x c (height ▸ inHeight) (width ▸ inWidth) (colors ▸ inColors)
  rw [callerSample_eq kept pixels shaped inHeight inWidth
    (inColors.trans_le kept.enough), bytes, colors, ← strideEq] at sample
  exact sample

/-- How the alpha of a frame was submitted, and that it is packed as submitted. -/
inductive AlphaExact
    (builtinEndian : Endian)
    (impl : EncoderImpl)
    (given : SubmittedFrame)
    (frame : EncoderQueuedFrame)
    (prepared : PreparedSimplePackedInput)
    (stride : Nat) :
    Prop where
  | none :
      impl.hasAlpha = false →
        given.format.num_channels = impl.basic_info.num_color_channels →
        prepared.alpha_pixels = [] →
        AlphaExact builtinEndian impl given frame prepared stride
  | between :
      impl.hasAlpha = true →
        prepared.alpha_pixels ≠ [] →
        AlphaBetween builtinEndian impl given prepared stride →
        AlphaExact builtinEndian impl given frame prepared stride
  | apart (plane : SubmittedPlane) (w h : Nat) :
      impl.hasAlpha = true →
        prepared.alpha_pixels ≠ [] →
        AlphaApart builtinEndian impl given frame prepared plane w h →
        AlphaExact builtinEndian impl given frame prepared stride

/-- Rows of pixels that are not empty are not empty. -/
theorem pixels_ne_nil
    {pixels : List UInt8}
    {row_length height : Nat}
    (length : pixels.length = row_length * height)
    (wide : 0 < row_length)
    (high : 0 < height) :
    pixels ≠ [] := by
  intro isEmpty
  rw [isEmpty, List.length_nil] at length
  exact absurd length (Nat.mul_pos wide high).ne

/-- A frame without alpha between its colors keeps the alpha pixels as they were. -/
theorem PackingSteps.plainRows
    (steps : PackingSteps builtinEndian impl frame prepared shape)
    (fits : RowsFit frame shape)
    (isPlain : frame.image_format.num_channels = shape.num_color_channels)
    (notBetween : impl.hasInterleavedAlpha frame = false) :
    ColorPacked builtinEndian frame shape prepared.color_pixels ∧
      (if impl.hasStagedAlpha frame then
          (List.range shape.alpha_height).foldlM
            (packAlphaRow (frame.extra_buffers 0) shape)
            (List.replicate
              (if impl.hasAlpha then shape.alpha_row_stride * shape.alpha_height else 0) 0)
        else
          return (List.replicate
            (if impl.hasAlpha then shape.alpha_row_stride * shape.alpha_height else 0)
            0)) =
        .ok prepared.alpha_pixels := by
  obtain ⟨_, _, alpha_pixels, rfl, rfl, rows, alphaRows⟩ := steps.rows
  rw [notBetween] at rows
  obtain ⟨result, ran, packed, same⟩ := packRows_plain builtinEndian fits isPlain
    (List.replicate
      (if impl.hasAlpha then shape.alpha_row_stride * shape.alpha_height else 0) 0)
  obtain rfl : result = (prepared.color_pixels, alpha_pixels) :=
    Except.ok.inj (ran.symm.trans rows)
  refine ⟨packed, ?_⟩
  rw [← show alpha_pixels = _ from same]
  exact alphaRows

/-- Alpha that was staged on its own is copied without the padding of its rows. -/
theorem PackingSteps.alphaApart
    (steps : PackingSteps builtinEndian impl frame prepared shape)
    (kept : KeptFrame builtinEndian impl given frame)
    (valid : ValidInfo impl.basic_info)
    (hasAlpha : impl.hasAlpha = true)
    (notBetween : impl.hasInterleavedAlpha frame = false)
    (alphaRows :
      (if impl.hasStagedAlpha frame then
          (List.range shape.alpha_height).foldlM
            (packAlphaRow (frame.extra_buffers 0) shape)
            (List.replicate (shape.alpha_row_stride * shape.alpha_height) 0)
        else
          return (List.replicate (shape.alpha_row_stride * shape.alpha_height) 0)) =
        .ok prepared.alpha_pixels) :
    ∃ plane w h,
      prepared.alpha_pixels ≠ [] ∧
        AlphaApart builtinEndian impl given frame prepared plane w h := by
  have isStaged : impl.hasStagedAlpha frame = true := by
    have differs := steps.oneAlpha hasAlpha
    rw [notBetween] at differs
    simpa using differs
  rw [if_pos isStaged] at alphaRows
  have isSet : (frame.extra_buffers 0).buffer_set = true := by
    unfold EncoderImpl.hasStagedAlpha at isStaged
    rw [hasAlpha] at isStaged
    exact isStaged
  cases isPlane : given.planes 0 with
  | none =>
      rw [kept.unset 0 isPlane] at isSet
      cases isSet
  | some plane =>
      obtain ⟨_, w, h, isKept⟩ := kept.set 0 plane isPlane
      obtain ⟨isAlpha, shift⟩ := channelDimShift_alpha hasAlpha
      obtain ⟨_, planeBytes⟩ := checkSampleFormat_ok (isKept.alphaFormat isAlpha)
      have declared : impl.basic_info.alpha_bits ≠ 0 := by
        simpa [EncoderImpl.hasAlpha] using hasAlpha
      have sameBytes :
          (if impl.basic_info.alpha_bits ≤ 8 then 1 else 2) =
            bytesPerChannel plane.format.data_type := by
        rw [planeBytes]
        rfl
      obtain ⟨_, alpha_width, alpha_height, _, isWidth, isHeight, isShape⟩ :=
        packedShape_ok steps.shaped
      rw [← shift, isKept.width] at isWidth
      rw [← shift, isKept.height] at isHeight
      cases isWidth
      cases isHeight
      have row : shape.alpha_row_stride = w * bytesPerChannel plane.format.data_type := by
        rw [isShape, notBetween, ← sameBytes]
        rfl
      have high : shape.alpha_height = h := by
        rw [isShape, notBetween]
        rfl
      have wPositive := subsampledSize_pos isKept.width valid.width
      have hPositive := subsampledSize_pos isKept.height valid.height
      have rowPositive : 0 < shape.alpha_row_stride := by
        rw [row]
        exact Nat.mul_pos wPositive (bytesPerChannel_pos _)
      rcases isKept.buffer with lost | staged
      · exact absurd alphaRows (packAlphaRows_lost lost rowPositive (high ▸ hPositive))
      · obtain ⟨row_bytes, isRow, short, _⟩ := rowStrideBytes_eq_some isKept.stride
        obtain ⟨isBytes, _⟩ := packedRowBytes_eq_some isRow
        rw [Nat.one_mul] at isBytes
        have rows : shape.alpha_row_stride ≤ (frame.extra_buffers 0).row_stride := by
          rw [row, ← isBytes]
          exact short
        obtain ⟨result, ran, taken⟩ :=
          packAlphaRows_ok rows
            (by rw [high]; exact Nat.le_of_eq staged.length.symm)
            List.length_replicate
        obtain rfl : result = prepared.alpha_pixels :=
          Except.ok.inj (ran.symm.trans alphaRows)
        refine ⟨plane, w, h, pixels_ne_nil taken.length rowPositive (high ▸ hPositive),
          kept.plainChannels notBetween, isPlane, isKept, steps.strides.2.trans row, ?_⟩
        intro y x inHeight inWidth
        have isRow := taken.row y (high ▸ inHeight)
        have room :
            x * bytesPerChannel plane.format.data_type +
                bytesPerChannel plane.format.data_type ≤
              shape.alpha_row_stride :=
          pixel_inside inWidth (Nat.le_of_eq row.symm)
        rw [steps.strides.2, ← part_part room, isRow, part_part room]
        exact staged.sample y x inHeight inWidth

/-- The packed pixels of a frame are those that were submitted for it. -/
theorem PackingSteps.exact
    (steps : PackingSteps builtinEndian impl frame prepared shape)
    (kept : KeptFrame builtinEndian impl given frame)
    (valid : ValidInfo impl.basic_info)
    (pixels : KeptPixels impl given frame stride) :
    ColorsExact builtinEndian impl given prepared stride ∧
      AlphaExact builtinEndian impl given frame prepared stride := by
  have shaped := steps.shaped
  obtain ⟨fits, isStride⟩ := kept.rowsFit pixels shaped
  obtain ⟨_, _, _, _, _, _, isShape⟩ := packedShape_ok shaped
  have colors : shape.num_color_channels = impl.basic_info.num_color_channels := by
    rw [isShape]
  cases isBetween : impl.hasInterleavedAlpha frame with
  | false =>
      have plain := kept.plainChannels isBetween
      obtain ⟨packed, alphaRows⟩ :=
        steps.plainRows fits (by rw [kept.format, plain, colors]) isBetween
      refine ⟨steps.colors kept pixels packed, ?_⟩
      cases hasAlpha : impl.hasAlpha with
      | false =>
          have notStaged : impl.hasStagedAlpha frame = false := by
            unfold EncoderImpl.hasStagedAlpha
            rw [hasAlpha]
            rfl
          rw [notStaged, hasAlpha] at alphaRows
          exact .none hasAlpha plain (Except.ok.inj alphaRows).symm
      | true =>
          rw [if_pos hasAlpha] at alphaRows
          obtain ⟨plane, w, h, nonempty, apart⟩ :=
            steps.alphaApart kept valid hasAlpha isBetween alphaRows
          exact .apart plane w h hasAlpha nonempty apart
  | true =>
      have isBetween' := isBetween
      unfold EncoderImpl.hasInterleavedAlpha at isBetween'
      simp only [Bool.and_eq_true, decide_eq_true_eq] at isBetween'
      obtain ⟨hasAlpha, channels⟩ := isBetween'
      have sameBytes := kept.alphaBytes valid hasAlpha
      have bytes : shape.sample_bytes = bytesPerChannel given.format.data_type := by
        rw [isShape, ← kept.format]
      have width : shape.width = impl.basic_info.xsize := by rw [isShape]
      have height : shape.height = impl.basic_info.ysize := by rw [isShape]
      have row :
          shape.alpha_row_stride =
            impl.basic_info.xsize * bytesPerChannel given.format.data_type := by
        rw [isShape, isBetween, ← sameBytes]
        rfl
      have high : shape.alpha_height = shape.height := by
        rw [isShape, isBetween]
        rfl
      have between : InterleavedFit frame shape :=
        { rows := fits
          channels := by rw [channels, colors]
          sample := by
            rw [bytes, ← sameBytes, isShape]
          alpha := by rw [row, bytes, width] }
      obtain ⟨_, _, alpha_pixels, rfl, rfl, rows, alphaRows⟩ := steps.rows
      have notStaged : impl.hasStagedAlpha frame = false := by
        have differs := steps.oneAlpha hasAlpha
        rw [isBetween] at differs
        simpa using differs
      rw [notStaged] at alphaRows
      obtain rfl : alpha_pixels = prepared.alpha_pixels := Except.ok.inj alphaRows
      rw [isBetween, if_pos hasAlpha, high] at rows
      obtain ⟨result, ran, packed, alphaPacked⟩ :=
        packRows_interleaved builtinEndian between
      obtain rfl : result = (prepared.color_pixels, prepared.alpha_pixels) :=
        Except.ok.inj (ran.symm.trans rows)
      refine ⟨steps.colors kept pixels packed, ?_⟩
      have rowPositive : 0 < shape.alpha_row_stride := by
        rw [row]
        exact Nat.mul_pos valid.width (bytesPerChannel_pos _)
      have noPlane : given.planes 0 = none := by
        cases isPlane : given.planes 0 with
        | none => rfl
        | some plane =>
            unfold EncoderImpl.hasStagedAlpha at notStaged
            rw [hasAlpha, (kept.set 0 plane isPlane).1] at notStaged
            cases notStaged
      refine .between hasAlpha
        (pixels_ne_nil alphaPacked.length rowPositive (height ▸ valid.height))
        ⟨by rw [← kept.format]; exact channels, noPlane, steps.strides.2.trans row, ?_⟩
      intro y x inHeight inWidth
      have sample := alphaPacked.sample y x (height ▸ inHeight) (width ▸ inWidth)
      rw [bytes, colors, callerSample_eq kept pixels shaped inHeight inWidth (by
        rw [← kept.format, channels]
        exact Nat.lt_succ_self _), ← steps.strides.2] at sample
      exact sample

end

end Jxlz.Capi
