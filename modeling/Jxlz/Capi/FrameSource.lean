import Jxlz.Capi.PackedInput

namespace Jxlz.Capi

open BigEndian Container Delivery EncApi

/-!
# Source images of queued frames

The source image that is built from a queued frame holds, in every channel and at every
position, the sample that the caller submitted for it.
-/

/-- What a packed image has of the encoder and of a packed frame. -/
structure ImageOf
    (impl : EncoderImpl)
    (prepared : PreparedSimplePackedInput)
    (image : SimplePackedU8Image) :
    Prop where
  width : image.width = impl.basic_info.xsize
  height : image.height = impl.basic_info.ysize
  colors : image.num_color_channels = impl.basic_info.num_color_channels
  bits : image.bits_per_sample = impl.basic_info.bits_per_sample
  color :
    image.color_row_stride = prepared.color_row_stride ∧
      image.color_pixels = prepared.color_pixels
  alpha :
    image.alpha_row_stride = prepared.alpha_row_stride ∧
      image.alpha_pixels = prepared.alpha_pixels
  alphaInfo : alphaInfo impl = .ok image.alpha_info
  extra : image.extra_planes = prepared.extra_planes

/-- What the checks of a packed image guarantee. -/
structure PackedChecked
    (image : SimplePackedU8Image) :
    Prop where
  fits : PackedFits image
  alphaInfo : image.alpha_pixels ≠ [] → image.validateAlphaInfo = .ok ()

/--
The images that are made of a packed frame and pass the checks: that of the only frame,
or that of one frame of an animation.
-/
inductive EncodedImage
    (impl : EncoderImpl)
    (frame : EncoderQueuedFrame)
    (prepared : PreparedSimplePackedInput) :
    SimplePackedU8Image → Prop where
  | single
      {image : SimplePackedU8Image}
      (packed : packedImage impl frame prepared = .ok image)
      (valid : validateSimplePackedImage image = .ok ()) :
      EncodedImage impl frame prepared image
  | animated
      {frames : List SimplePackedU8AnimationFrame}
      {animation : SimplePackedU8Animation}
      (packed : packedAnimation impl frames = .ok animation)
      (member : packedAnimationFrame frame prepared ∈ frames)
      (valid : validateSimplePackedAnimation animation = .ok ()) :
      EncodedImage impl frame prepared
        (animation.frameImage (packedAnimationFrame frame prepared))

section

variable {builtinEndian : Endian}
variable {impl : EncoderImpl}
variable {given : SubmittedFrame}
variable {frame : EncoderQueuedFrame}
variable {prepared : PreparedSimplePackedInput}
variable {image : SimplePackedU8Image}

/-- The image of a single frame. -/
theorem packedImage_imageOf
    (packed : packedImage impl frame prepared = .ok image) :
    ImageOf impl prepared image := by
  unfold packedImage at packed
  obtain ⟨alpha_info, isInfo, packed⟩ := bind_eq_ok.1 packed
  cases packed
  exact ⟨rfl, rfl, rfl, rfl, ⟨rfl, rfl⟩, ⟨rfl, rfl⟩, isInfo, rfl⟩

/-- The image of a frame of an animation. -/
theorem packedAnimation_imageOf
    {frames : List SimplePackedU8AnimationFrame}
    {animation : SimplePackedU8Animation}
    (packed : packedAnimation impl frames = .ok animation) :
    ImageOf impl prepared
      (animation.frameImage (packedAnimationFrame frame prepared)) := by
  unfold packedAnimation at packed
  obtain ⟨alpha_info, isInfo, packed⟩ := bind_eq_ok.1 packed
  cases packed
  exact ⟨rfl, rfl, rfl, rfl, ⟨rfl, rfl⟩, ⟨rfl, rfl⟩, isInfo, rfl⟩

theorem packedChecked_ok
    (valid : validateSimplePackedImage image = .ok ()) :
    PackedChecked image :=
  ⟨validateSimplePackedImage_ok valid, validateAlphaInfo_of_valid valid⟩

/-- The checks are made without the container and without the preview. -/
theorem PackedChecked.of_plain
    (plain :
      PackedChecked
        { image with use_container := false, preview_width := 0, preview_height := 0 }) :
    PackedChecked image := by
  obtain ⟨fits, alphaInfo⟩ := plain
  refine ⟨⟨fits.rows, fits.enough, fun given => ?_, fun plane member => ?_⟩, alphaInfo⟩
  · obtain ⟨w, h, isFits⟩ := fits.alpha given
    exact ⟨w, h, isFits.width, isFits.height, isFits.rows, isFits.enough⟩
  · obtain ⟨w, h, isFits⟩ := fits.extra plane member
    exact ⟨w, h, isFits.width, isFits.height, isFits.rows, isFits.enough⟩

/-- The checks of an animation cover the images of its frames. -/
theorem packedChecked_frame
    {animation : SimplePackedU8Animation}
    {packedFrame : SimplePackedU8AnimationFrame}
    (valid : validateSimplePackedAnimation animation = .ok ())
    (member : packedFrame ∈ animation.frames) :
    PackedChecked (animation.frameImage packedFrame) := by
  unfold validateSimplePackedAnimation at valid
  split at valid
  next => cases valid
  next first others isFrames =>
    obtain ⟨_, _, valid⟩ := bind_eq_ok.1 valid
    obtain ⟨_, _, valid⟩ := bind_eq_ok.1 valid
    obtain ⟨_, _, valid⟩ := bind_eq_ok.1 valid
    have checked := forM_eq_ok valid packedFrame member
    obtain ⟨_, _, checked⟩ := bind_eq_ok.1 checked
    obtain ⟨_, _, checked⟩ := bind_eq_ok.1 checked
    exact (packedChecked_ok checked).of_plain

/-- An image that is encoded is that of its frame, and checked. -/
theorem EncodedImage.checked
    (encoded : EncodedImage impl frame prepared image) :
    ImageOf impl prepared image ∧ PackedChecked image := by
  cases encoded with
  | single packed valid => exact ⟨packedImage_imageOf packed, packedChecked_ok valid⟩
  | animated packed member valid =>
      refine ⟨packedAnimation_imageOf packed, packedChecked_frame valid ?_⟩
      unfold packedAnimation at packed
      obtain ⟨_, _, packed⟩ := bind_eq_ok.1 packed
      cases packed
      exact member

/-- A submitted plane is not lost where the packed image passes its checks. -/
theorem KeptPlane.staged
    {index w h : Nat}
    {plane : SubmittedPlane}
    {buffer : QueuedPlaneBuffer}
    (kept : KeptPlane builtinEndian impl index plane buffer w h)
    (valid : ValidInfo impl.basic_info)
    (enough : buffer.row_stride * h ≤ buffer.buffer.length) :
    StagedPlane builtinEndian w h plane buffer := by
  rcases kept.buffer with lost | staged
  · have wPositive := subsampledSize_pos kept.width valid.width
    have hPositive := subsampledSize_pos kept.height valid.height
    obtain ⟨row_bytes, isRow, short, _⟩ := rowStrideBytes_eq_some kept.stride
    obtain ⟨rfl, _⟩ := packedRowBytes_eq_some isRow
    have bytes := bytesPerChannel_pos plane.format.data_type
    have rowPositive := Nat.mul_pos wPositive (Nat.mul_pos Nat.one_pos bytes)
    have filled := Nat.mul_pos (rowPositive.trans_le short) hPositive
    rw [lost, List.length_nil] at enough
    omega
  · exact staged

end

end Jxlz.Capi
