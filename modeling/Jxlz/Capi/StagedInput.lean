import Jxlz.Base.Returns
import Jxlz.Capi.FrameSource
import Jxlz.Capi.StagedFrames

namespace Jxlz.Capi

open BigEndian Container Delivery EncApi

/-!
# Staged input

The calls that take pixels read inside the memory of the caller, and the source images
that are built from the queued frames hold what was submitted for them.
-/

section

variable {Color : Type}
variable {library : Library Color}
variable {builtinEndian : Endian}
variable {granted : Allocation → Bool}
variable {impl last : EncoderImpl}
variable {frames : List SubmittedFrame}

theorem allocate_cases
    (granted : Allocation → Bool)
    (allocation : Allocation)
    (size : Nat) :
    allocate granted allocation size = .ok () ∨
      allocate granted allocation size = fail .OutOfMemory := by
  unfold allocate
  split
  · exact .inl rfl
  · exact .inr rfl

/-- A side that is subsampled at most eightfold can be computed. -/
theorem subsampledSize_ok
    {size dim_shift : Nat}
    (inRange : size < 2 ^ 32)
    (small : dim_shift ≤ 3) :
    ∃ result, subsampledSize size dim_shift = .ok result ∧ result ≤ size := by
  unfold subsampledSize
  rw [castU_ok (show dim_shift < 2 ^ 31 by omega), ok_bind]
  split
  next => exact ⟨size, rfl, Nat.le_refl size⟩
  next hasShift =>
    rw [if_neg (by omega)]
    have divisor : shlU 64 1 dim_shift = 2 ^ dim_shift := by
      unfold shlU
      have : 2 ^ dim_shift ≤ 2 ^ 3 := Nat.pow_le_pow_right (by decide) small
      rw [Nat.one_shiftLeft]
      exact Nat.mod_eq_of_lt (by omega)
    rw [divisor]
    have positive : 0 < 2 ^ dim_shift := Nat.two_pow_pos _
    have bound : 2 ^ dim_shift ≤ 2 ^ 3 := Nat.pow_le_pow_right (by decide) small
    have atLeastTwo : 2 ^ 1 ≤ 2 ^ dim_shift :=
      Nat.pow_le_pow_right (by decide) (Nat.one_le_iff_ne_zero.2 hasShift)
    refine ⟨(size + 2 ^ dim_shift - 1) / 2 ^ dim_shift, ?_, ?_⟩
    · unfold divCeil
      rw [addU_ok (by omega), ok_bind, subU_ok (by omega), ok_bind,
        require_ok positive.ne', ok_bind]
      rfl
    · rcases Nat.eq_zero_or_pos size with rfl | isPositive
      · rw [Nat.zero_add, Nat.div_eq_of_lt (by omega)]
      · refine Nat.lt_succ_iff.1 ((Nat.div_lt_iff_lt_mul positive).2 ?_)
        have doubled := Nat.mul_le_mul_left size atLeastTwo
        rw [Nat.succ_mul]
        omega

/-! ## Reading from the caller -/

variable {given : SubmittedFrame}
variable {frame : EncoderQueuedFrame}

/-- The shape of a kept frame, whose buffers are not larger than that of the caller. -/
theorem KeptFrame.shape
    (kept : KeptFrame builtinEndian impl given frame)
    (valid : ValidInfo impl.basic_info)
    (width : impl.basic_info.xsize < 2 ^ 32)
    (height : impl.basic_info.ysize < 2 ^ 32)
    (shift : (impl.pending_extra_channels 0).info.dim_shift ≤ 3) :
    ∃ shape,
      packedShape impl frame = .ok shape ∧
        shape.color_row_stride * shape.height < 2 ^ 64 ∧
        shape.alpha_row_stride * shape.alpha_height < 2 ^ 64 := by
  have small : impl.stagedAlphaDimShift ≤ 3 := by
    unfold EncoderImpl.stagedAlphaDimShift
    split
    · exact shift
    · exact Nat.zero_le 3
  obtain ⟨w, isWidth, narrow⟩ := subsampledSize_ok width small
  obtain ⟨h, isHeight, low⟩ := subsampledSize_ok height small
  obtain ⟨stride, pixels⟩ := kept.pixels
  obtain ⟨row_bytes, isRow, short, _⟩ := rowStrideBytes_eq_some pixels.isStride
  obtain ⟨rfl, _⟩ := packedRowBytes_eq_some isRow
  have isStride := pixels.isStride
  rw [← kept.format] at isStride
  have bytes := bytesPerChannel_pos given.format.data_type
  have colors : 1 ≤ impl.basic_info.num_color_channels := by
    rcases valid.colors with single | three <;> omega
  have alphaBytes :
      (if impl.basic_info.alpha_bits ≤ 8 then 1 else 2) ≤
        bytesPerChannel given.format.data_type := by
    cases hasAlpha : impl.hasAlpha with
    | true => exact Nat.le_of_eq (kept.alphaBytes valid hasAlpha)
    | false =>
        unfold EncoderImpl.hasAlpha at hasAlpha
        have noBits : impl.basic_info.alpha_bits = 0 := by simpa using hasAlpha
        rw [noBits]
        exact bytes
  have fits {row : Nat} {rows : Nat}
      (inRow :
        row ≤
          impl.basic_info.xsize *
            (given.format.num_channels * bytesPerChannel given.format.data_type))
      (inRows : rows ≤ impl.basic_info.ysize) :
      row * rows < 2 ^ 64 :=
    (Nat.mul_le_mul (inRow.trans short) inRows).trans_lt pixels.small
  have colorRow :
      impl.basic_info.xsize * impl.basic_info.num_color_channels *
          bytesPerChannel given.format.data_type ≤
        impl.basic_info.xsize *
          (given.format.num_channels * bytesPerChannel given.format.data_type) := by
    rw [Nat.mul_assoc]
    exact Nat.mul_le_mul_left _ (Nat.mul_le_mul_right _ kept.enough)
  have alphaRow {side : Nat} (inWidth : side ≤ impl.basic_info.xsize) :
      side * (if impl.basic_info.alpha_bits ≤ 8 then 1 else 2) ≤
        impl.basic_info.xsize *
          (given.format.num_channels * bytesPerChannel given.format.data_type) := by
    refine Nat.mul_le_mul inWidth (alphaBytes.trans ?_)
    exact Nat.le_mul_of_pos_left _ (colors.trans kept.enough)
  unfold packedShape
  dsimp only
  rw [isStride]
  dsimp only
  rw [isWidth, ok_bind, isHeight, ok_bind]
  refine ⟨_, rfl, ?_, ?_⟩
  · dsimp only
    rw [kept.format]
    exact fits colorRow (Nat.le_refl _)
  · dsimp only
    cases impl.hasInterleavedAlpha frame with
    | true => exact fits (alphaRow (Nat.le_refl _)) (Nat.le_refl _)
    | false => exact fits (alphaRow narrow) low

/-- A frame has its alpha twice, or not at all. -/
def OneAlphaMissing
    (impl : EncoderImpl)
    (given : SubmittedFrame) :
    Prop :=
  (given.format.num_channels = impl.basic_info.num_color_channels + 1 ∧
      given.planes 0 ≠ none) ∨
    (given.format.num_channels = impl.basic_info.num_color_channels ∧
      given.planes 0 = none)

/-- A frame whose alpha is given both ways or neither is rejected. -/
theorem KeptFrame.rejected
    (kept : KeptFrame builtinEndian impl given frame)
    (valid : ValidInfo impl.basic_info)
    (width : impl.basic_info.xsize < 2 ^ 32)
    (height : impl.basic_info.ysize < 2 ^ 32)
    (shift : (impl.pending_extra_channels 0).info.dim_shift ≤ 3)
    (hasAlpha : impl.hasAlpha = true)
    (missing : OneAlphaMissing impl given)
    (number : Nat) :
    prepareQueuedPackedInput builtinEndian granted impl number frame =
        fail .InvalidArgs ∨
      prepareQueuedPackedInput builtinEndian granted impl number frame =
        fail .OutOfMemory := by
  obtain ⟨shape, shaped, colorFits, alphaFits⟩ := kept.shape valid width height shift
  have same : impl.hasStagedAlpha frame = impl.hasInterleavedAlpha frame := by
    unfold EncoderImpl.hasStagedAlpha EncoderImpl.hasInterleavedAlpha
    rw [hasAlpha, kept.format]
    rcases missing with ⟨between, apart⟩ | ⟨plain, none⟩
    · obtain ⟨plane, isPlane⟩ := Option.ne_none_iff_exists'.1 apart
      rw [(kept.set 0 plane isPlane).1, between]
      simp
    · rw [kept.unset 0 none, plain]
      simp
  unfold prepareQueuedPackedInput
  rw [shaped, ok_bind]
  dsimp only
  rw [mulU_ok colorFits, ok_bind]
  rcases allocate_cases granted (.colorPixels number)
    (shape.color_row_stride * shape.height) with allocated | refused
  · left
    rw [allocated, ok_bind, if_pos hasAlpha, same]
    unfold failIf
    rw [if_pos rfl]
    rfl
  · right
    rw [refused]
    rfl

end

end Jxlz.Capi
