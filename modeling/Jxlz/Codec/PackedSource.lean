import Jxlz.Base.Raster
import Jxlz.Base.Returns
import Jxlz.Codec.EncApi
import Jxlz.Lib.Placing

namespace Jxlz.EncApi

open BigEndian Container Delivery

/-!
# The planes of a packed image

A packed image that passes its checks becomes a source image: each plane has the size
that its subsampling gives it, and holds at every position the sample that the packed
bytes hold for it.
-/

theorem slice_ok
    {items : List UInt8}
    {start count : Nat}
    (inside : start + count ≤ items.length) :
    slice items start (start + count) = .ok (part items start count) := by
  unfold slice part
  rw [if_pos ⟨Nat.le_add_right _ _, inside⟩, Nat.add_sub_cancel_left]

/-- A row of a buffer that holds all rows. -/
theorem row_inside
    {y height stride length : Nat}
    (inHeight : y < height)
    (enough : stride * height ≤ length) :
    y * stride + stride ≤ length := by
  have rows : (y + 1) * stride ≤ height * stride :=
    Nat.mul_le_mul_right stride inHeight
  rw [Nat.succ_mul, Nat.mul_comm height] at rows
  exact rows.trans enough

/-- A sample of a row that holds all samples of all its pixels. -/
theorem sample_inside
    {x width c channels : Nat}
    (bytes : Nat)
    (inWidth : x < width)
    (inChannels : c < channels) :
    x * channels * bytes + c * bytes + bytes ≤ width * channels * bytes := by
  have pixels : (x + 1) * channels ≤ width * channels :=
    Nat.mul_le_mul_right channels inWidth
  have samples : x * channels + c + 1 ≤ width * channels := by
    rw [Nat.succ_mul] at pixels
    omega
  calc x * channels * bytes + c * bytes + bytes
      = (x * channels + c + 1) * bytes := by ring
    _ ≤ width * channels * bytes := Nat.mul_le_mul_right bytes samples

/-- The samples of some positions are written into some channels. -/
structure Painted
    (value : Nat → Nat → Nat → Int32)
    (written : Nat → Nat → Nat → Prop)
    (before after : List Channel) :
    Prop where
  length : after.length = before.length
  size :
    ∀ c,
      (Image.chan ⟨after⟩ c).w = (Image.chan ⟨before⟩ c).w ∧
        (Image.chan ⟨after⟩ c).h = (Image.chan ⟨before⟩ c).h
  painted :
    ∀ c y x, written c y x → (Image.chan ⟨after⟩ c).sample y x = value c y x
  kept :
    ∀ c y x,
      ¬ written c y x →
      (Image.chan ⟨after⟩ c).sample y x = (Image.chan ⟨before⟩ c).sample y x

namespace Painted

variable {value : Nat → Nat → Nat → Int32}
variable {written next : Nat → Nat → Nat → Prop}
variable {before after : List Channel}

theorem nothing
    (channels : List Channel)
    (none : ∀ c y x, ¬ written c y x) :
    Painted value written channels channels :=
  { length := rfl
    size := fun _ => ⟨rfl, rfl⟩
    painted := fun c y x isWritten => absurd isWritten (none c y x)
    kept := fun _ _ _ _ => rfl }

theorem congr
    (painted : Painted value written before after)
    (same : ∀ c y x, next c y x ↔ written c y x) :
    Painted value next before after :=
  { length := painted.length
    size := painted.size
    painted := fun c y x isNext => painted.painted c y x ((same c y x).1 isNext)
    kept := fun c y x notNext =>
      painted.kept c y x fun isWritten => notNext ((same c y x).2 isWritten) }

/-- One more sample is written. -/
theorem write
    (painted : Painted value written before after)
    {c y x : Nat}
    (inside : c < before.length)
    (inHeight : y < (Image.chan ⟨before⟩ c).h)
    (inWidth : x < (Image.chan ⟨before⟩ c).w)
    (same :
      ∀ other row column,
        next other row column ↔
          written other row column ∨ (other = c ∧ row = y ∧ column = x)) :
    ∃ result,
      writeSample after c y x (value c y x) = .ok result ∧
        Painted value next before result := by
  have present : c < after.length := painted.length ▸ inside
  have found : index after c = .ok (Image.chan ⟨after⟩ c) := by
    rw [index_ok present]
    unfold Image.chan
    rw [List.getD_eq_getElem _ _ present]
  obtain ⟨sameWidth, sameHeight⟩ := painted.size c
  have chan_set (other : Nat) :
      Image.chan ⟨after.set c ((Image.chan ⟨after⟩ c).set y x (value c y x))⟩ other =
        if other = c then (Image.chan ⟨after⟩ c).set y x (value c y x)
        else Image.chan ⟨after⟩ other := by
    unfold Image.chan
    rw [getD_set present]
  refine ⟨after.set c ((Image.chan ⟨after⟩ c).set y x (value c y x)), ?_, ?_, ?_, ?_, ?_⟩
  · unfold writeSample
    rw [found, ok_bind, require_ok ⟨sameHeight ▸ inHeight, sameWidth ▸ inWidth⟩, ok_bind,
      store_ok present]
  · rw [List.length_set, painted.length]
  · intro other
    rw [chan_set]
    split
    next isHere =>
      rw [isHere]
      exact painted.size c
    next => exact painted.size other
  · intro other row column isNext
    rw [chan_set]
    split
    next isHere =>
      rw [Channel.sample_set]
      split
      next isPlace => rw [isHere, isPlace.1, isPlace.2]
      next notPlace =>
        rcases (same other row column).1 isNext with isWritten | isPlace
        · rw [← isHere]
          exact painted.painted other row column isWritten
        · exact absurd isPlace.2 notPlace
    next notHere =>
      rcases (same other row column).1 isNext with isWritten | isPlace
      · exact painted.painted other row column isWritten
      · exact absurd isPlace.1 notHere
  · intro other row column notNext
    have notWritten := fun isWritten =>
      notNext ((same other row column).2 (.inl isWritten))
    rw [chan_set]
    split
    next isHere =>
      rw [Channel.sample_set, if_neg fun isPlace =>
        notNext ((same other row column).2 (.inr ⟨isHere, isPlace⟩)), ← isHere]
      exact painted.kept other row column notWritten
    next => exact painted.kept other row column notWritten

end Painted

variable {image : SimplePackedU8Image}

namespace Painted

variable {value other : Nat → Nat → Nat → Int32}
variable {written later both : Nat → Nat → Nat → Prop}
variable {before middle after : List Channel}

/-- One after the other, with samples of one image. -/
theorem trans
    (first : Painted value written before middle)
    (second : Painted value later middle after)
    (same : ∀ c y x, both c y x ↔ written c y x ∨ later c y x) :
    Painted value both before after := by
  refine ⟨second.length.trans first.length, ?_, ?_, ?_⟩
  · intro c
    exact ⟨(second.size c).1.trans (first.size c).1, (second.size c).2.trans (first.size c).2⟩
  · intro c y x isBoth
    by_cases isLater : later c y x
    · exact second.painted c y x isLater
    · rw [second.kept c y x isLater]
      exact first.painted c y x (((same c y x).1 isBoth).resolve_right isLater)
  · intro c y x notBoth
    rw [second.kept c y x fun isLater => notBoth ((same c y x).2 (.inr isLater))]
    exact first.kept c y x fun isWritten => notBoth ((same c y x).2 (.inl isWritten))

end Painted

/-- The size of a plane, and bytes that hold all of its rows. -/
structure PlaneFits
    (image : SimplePackedU8Image)
    (dim_shift row_stride bytes_per_sample : Nat)
    (pixels : List UInt8)
    (w h : Nat) :
    Prop where
  width : subsampledSize image.width dim_shift = .ok w
  height : subsampledSize image.height dim_shift = .ok h
  rows : w * bytes_per_sample ≤ row_stride
  enough : row_stride * h ≤ pixels.length

/-- What the checks of a packed image guarantee. -/
structure PackedFits
    (image : SimplePackedU8Image) :
    Prop where
  rows :
    image.width * image.num_color_channels * bytesPerSample image.bits_per_sample ≤
      image.color_row_stride
  enough : image.color_row_stride * image.height ≤ image.color_pixels.length
  alpha :
    image.alpha_pixels ≠ [] →
      ∃ w h,
        PlaneFits image image.alphaDimShift image.alpha_row_stride
          (bytesPerSample image.alphaBitsPerSample) image.alpha_pixels w h
  extra :
    ∀ plane ∈ image.extra_planes,
      ∃ w h,
        PlaneFits image plane.info.dim_shift plane.row_stride 1 plane.pixels w h

theorem validateAlpha_ok
    (valid : image.validateAlpha = .ok ())
    (given : image.alpha_pixels ≠ []) :
    ∃ w h,
      PlaneFits image image.alphaDimShift image.alpha_row_stride
        (bytesPerSample image.alphaBitsPerSample) image.alpha_pixels w h := by
  unfold SimplePackedU8Image.validateAlpha at valid
  rw [if_neg fun isEmpty => given (List.length_eq_zero_iff.1 isEmpty)] at valid
  obtain ⟨w, width, valid⟩ := bind_eq_ok.1 valid
  obtain ⟨h, height, valid⟩ := bind_eq_ok.1 valid
  obtain ⟨_, rows, valid⟩ := bind_eq_ok.1 valid
  obtain ⟨_, enough, _⟩ := bind_eq_ok.1 valid
  exact ⟨w, h, width, height, Nat.le_of_not_lt (failIf_eq_ok.1 rows),
    Nat.le_of_not_lt (failIf_eq_ok.1 enough)⟩

theorem validateExtraPlane_ok
    {plane : SimpleExtraPlaneU8}
    (valid : image.validateExtraPlane plane = .ok ()) :
    ∃ w h,
      PlaneFits image plane.info.dim_shift plane.row_stride 1 plane.pixels w h := by
  unfold SimplePackedU8Image.validateExtraPlane at valid
  obtain ⟨_, _, valid⟩ := bind_eq_ok.1 valid
  obtain ⟨w, width, valid⟩ := bind_eq_ok.1 valid
  obtain ⟨h, height, valid⟩ := bind_eq_ok.1 valid
  obtain ⟨_, rows, enough⟩ := bind_eq_ok.1 valid
  refine ⟨w, h, width, height, ?_, Nat.le_of_not_lt (failIf_eq_ok.1 enough)⟩
  rw [Nat.mul_one]
  exact Nat.le_of_not_lt (failIf_eq_ok.1 rows)

/-- The checks of the pixels of a packed image. -/
theorem validateSimplePackedImage_parts
    (valid : validateSimplePackedImage image = .ok ()) :
    image.width * image.num_color_channels * bytesPerSample image.bits_per_sample ≤
        image.color_row_stride ∧
      image.color_row_stride * image.height ≤ image.color_pixels.length ∧
      image.validateAlpha = .ok () ∧
      image.extra_planes.forM image.validateExtraPlane = .ok () := by
  unfold validateSimplePackedImage at valid
  obtain ⟨_, _, valid⟩ := bind_eq_ok.1 valid
  obtain ⟨_, _, valid⟩ := bind_eq_ok.1 valid
  obtain ⟨_, _, valid⟩ := bind_eq_ok.1 valid
  obtain ⟨_, _, valid⟩ := bind_eq_ok.1 valid
  obtain ⟨_, _, valid⟩ := bind_eq_ok.1 valid
  obtain ⟨_, _, valid⟩ := bind_eq_ok.1 valid
  obtain ⟨_, _, valid⟩ := bind_eq_ok.1 valid
  obtain ⟨_, _, valid⟩ := bind_eq_ok.1 valid
  obtain ⟨_, _, valid⟩ := bind_eq_ok.1 valid
  obtain ⟨_, rows, valid⟩ := bind_eq_ok.1 valid
  obtain ⟨_, enough, valid⟩ := bind_eq_ok.1 valid
  obtain ⟨_, alpha, extra⟩ := bind_eq_ok.1 valid
  exact ⟨Nat.le_of_not_lt (failIf_eq_ok.1 rows), Nat.le_of_not_lt (failIf_eq_ok.1 enough),
    alpha, extra⟩

/-- The description of alpha is checked where there is alpha. -/
theorem validateAlphaInfo_of_valid
    (valid : validateSimplePackedImage image = .ok ())
    (given : image.alpha_pixels ≠ []) :
    image.validateAlphaInfo = .ok () := by
  obtain ⟨_, _, alpha, _⟩ := validateSimplePackedImage_parts valid
  unfold SimplePackedU8Image.validateAlpha at alpha
  rw [if_neg fun isEmpty => given (List.length_eq_zero_iff.1 isEmpty)] at alpha
  obtain ⟨_, _, alpha⟩ := bind_eq_ok.1 alpha
  obtain ⟨_, _, alpha⟩ := bind_eq_ok.1 alpha
  obtain ⟨_, _, alpha⟩ := bind_eq_ok.1 alpha
  obtain ⟨_, _, alpha⟩ := bind_eq_ok.1 alpha
  exact alpha

theorem validateSimplePackedImage_ok
    (valid : validateSimplePackedImage image = .ok ()) :
    PackedFits image := by
  obtain ⟨rows, enough, alpha, extra⟩ := validateSimplePackedImage_parts valid
  exact
    { rows, enough
      alpha := validateAlpha_ok alpha
      extra := fun plane member =>
        validateExtraPlane_ok (forM_eq_ok extra plane member) }

/-- A channel of some size that holds some samples. -/
structure Holds
    (channel : Channel)
    (w h : Nat)
    (value : Nat → Nat → Int32) :
    Prop where
  width : channel.w = w
  height : channel.h = h
  sample : ∀ y x, y < h → x < w → channel.sample y x = value y x

theorem Holds.congr
    {channel : Channel}
    {w h : Nat}
    {value other : Nat → Nat → Int32}
    (holds : Holds channel w h value)
    (same : ∀ y x, value y x = other y x) :
    Holds channel w h other :=
  { width := holds.width
    height := holds.height
    sample := fun y x inHeight inWidth =>
      (holds.sample y x inHeight inWidth).trans (same y x) }

namespace PackedFits

variable {image : SimplePackedU8Image}

end PackedFits

end Jxlz.EncApi
