import Jxlz.Codec.EncApi

namespace Jxlz.Capi

open Binary32 EncApi

/-!
# What the caller describes to the encoder

Mirrors the records of `capi_root.zig` and `extra_channels.zig` and the checks that
the encoder makes of them.  A `JXL_BOOL` is an integer; floating-point fields are
binary32 words.
-/

inductive JxlOrientation where
  | identity
  | flip_horizontal
  | rotate_180
  | flip_vertical
  | transpose
  | rotate_90_cw
  | anti_transpose
  | rotate_90_ccw
  deriving Repr, DecidableEq

/-- `@intFromEnum`, which is the number of the EXIF orientation. -/
def JxlOrientation.tag
    (self : JxlOrientation) :
    Nat :=
  self.ctorIdx + 1

structure JxlPreviewHeader where
  xsize : Nat := 0
  ysize : Nat := 0
  deriving Repr, DecidableEq

structure JxlAnimationHeader where
  tps_numerator : Nat := 0
  tps_denominator : Nat := 0
  num_loops : Nat := 0
  have_timecodes : Int := 0
  deriving Repr, DecidableEq

inductive JxlBlendMode where
  | replace
  | add
  | blend
  | muladd
  | mul
  deriving Repr, DecidableEq

structure JxlBlendInfo where
  blendmode : JxlBlendMode := .replace
  source : Nat := 0
  alpha : Nat := 0
  clamp : Int := 0
  deriving Repr, DecidableEq

structure JxlLayerInfo where
  have_crop : Int := 0
  crop_x0 : Int := 0
  crop_y0 : Int := 0
  xsize : Nat := 0
  ysize : Nat := 0
  blend_info : JxlBlendInfo := {}
  save_as_reference : Nat := 0
  deriving Repr, DecidableEq

structure JxlFrameHeader where
  duration : Nat := 0
  timecode : Nat := 0
  name_length : Nat := 0
  is_last : Int := 0
  layer_info : JxlLayerInfo := {}
  deriving Repr, DecidableEq

/-- The fields that `std.mem.zeroes` leaves at zero. -/
structure JxlBasicInfo where
  have_container : Int := 0
  xsize : Nat := 0
  ysize : Nat := 0
  bits_per_sample : Nat := 0
  exponent_bits_per_sample : Nat := 0
  intensity_target : UInt32 := 0
  min_nits : UInt32 := 0
  relative_to_max_display : Int := 0
  linear_below : UInt32 := 0
  have_preview : Int := 0
  have_animation : Int := 0
  orientation : JxlOrientation := .identity
  num_color_channels : Nat := 0
  num_extra_channels : Nat := 0
  alpha_bits : Nat := 0
  alpha_exponent_bits : Nat := 0
  alpha_premultiplied : Int := 0
  preview : JxlPreviewHeader := {}
  animation : JxlAnimationHeader := {}
  intrinsic_xsize : Nat := 0
  intrinsic_ysize : Nat := 0
  deriving Repr, DecidableEq

/-- What `JxlEncoderInitBasicInfo` fills in. -/
def defaultBasicInfo : JxlBasicInfo :=
  { bits_per_sample := 8
    intensity_target := 0x437f0000
    num_color_channels := 3 }

/-- A `JXL_BOOL` that is neither true nor false. -/
def notBool
    (value : Int) :
    Prop :=
  ¬ (value = 0 ∨ value = 1)
  deriving Decidable

/-- The timing of an animation; a still image has no timecodes. -/
def validateAnimationInfo
    (info : JxlBasicInfo) :
    Checked Unit :=
  if info.have_animation ≠ 0 then do
    failIf (info.animation.tps_numerator = 0 ∨ info.animation.tps_denominator = 0)
      .InvalidArgs
    failIf (notBool info.animation.have_timecodes) .InvalidArgs
  else
    failIf (info.animation.have_timecodes ≠ 0) .InvalidArgs

/-- The declared alpha has the depth of the colors. -/
def validateDeclaredAlpha
    (info : JxlBasicInfo) :
    Checked Unit :=
  if info.num_extra_channels = 0 then
    failIf
      (info.alpha_bits ≠ 0 ∨ info.alpha_exponent_bits ≠ 0 ∨
        info.alpha_premultiplied ≠ 0)
      .Unsupported
  else if info.alpha_bits = 0 then
    failIf (info.alpha_exponent_bits ≠ 0 ∨ info.alpha_premultiplied ≠ 0) .Unsupported
  else do
    failIf
      (info.alpha_bits ≠ info.bits_per_sample ∨ info.alpha_exponent_bits ≠ 0)
      .Unsupported
    failIf (notBool info.alpha_premultiplied) .Unsupported

def validateBasicInfoForSimpleEncode
    (info : JxlBasicInfo) :
    Checked Unit := do
  failIf (info.xsize = 0 ∨ info.ysize = 0) .InvalidArgs
  failIf (notBool info.have_container) .InvalidArgs
  failIf (notBool info.have_animation) .InvalidArgs
  failIf (notBool info.have_preview) .InvalidArgs
  failIf (info.orientation.tag < 1 ∨ 8 < info.orientation.tag) .InvalidArgs
  failIf (¬ (info.preview.xsize = 0 ↔ info.preview.ysize = 0)) .InvalidArgs
  failIf (¬ (info.have_preview ≠ 0 ↔ info.preview.xsize ≠ 0)) .InvalidArgs
  failIf (¬ (info.intrinsic_xsize = 0 ↔ info.intrinsic_ysize = 0)) .InvalidArgs
  failIf
    (¬ (info.bits_per_sample = 8 ∨ info.bits_per_sample = 16) ∨
      info.exponent_bits_per_sample ≠ 0)
    .Unsupported
  failIf (¬ less 0 info.intensity_target) .InvalidArgs
  failIf (less info.min_nits 0 ∨ less info.intensity_target info.min_nits) .InvalidArgs
  failIf (notBool info.relative_to_max_display) .InvalidArgs
  failIf (less info.linear_below 0) .InvalidArgs
  failIf (info.relative_to_max_display ≠ 0 ∧ less 0x3f800000 info.linear_below)
    .InvalidArgs
  validateAnimationInfo info
  failIf (¬ (info.num_color_channels = 1 ∨ info.num_color_channels = 3)) .Unsupported
  failIf
    (info.bits_per_sample ≠ 8 ∧
      (if info.alpha_bits ≠ 0 then 1 else 0) < info.num_extra_channels)
    .Unsupported
  validateDeclaredAlpha info

def validateFrameHeaderForSimpleEncode
    (basic_info : JxlBasicInfo)
    (frame_header : JxlFrameHeader) :
    Checked Unit := do
  failIf (frame_header.name_length ≠ 0) .Unsupported
  failIf (frame_header.is_last ≠ 0) .Unsupported
  failIf (frame_header.layer_info.have_crop ≠ 0) .Unsupported
  failIf
    (frame_header.layer_info.crop_x0 ≠ 0 ∨ frame_header.layer_info.crop_y0 ≠ 0)
    .Unsupported
  failIf
    (frame_header.layer_info.xsize ≠ 0 ∨ frame_header.layer_info.ysize ≠ 0)
    .Unsupported
  failIf (frame_header.layer_info.blend_info ≠ {}) .Unsupported
  failIf (frame_header.layer_info.save_as_reference ≠ 0) .Unsupported
  failIf (frame_header.layer_info ≠ {}) .Unsupported
  if basic_info.have_animation = 0 then
    failIf (frame_header.duration ≠ 0 ∨ frame_header.timecode ≠ 0) .Unsupported
  else
    failIf (basic_info.animation.have_timecodes = 0 ∧ frame_header.timecode ≠ 0)
      .InvalidArgs

inductive JxlExtraChannelType where
  | alpha
  | depth
  | spot_color
  | selection_mask
  | black
  | cfa
  | thermal
  | reserved0
  | reserved1
  | reserved2
  | reserved3
  | reserved4
  | reserved5
  | reserved6
  | reserved7
  | unknown
  | optional
  deriving Repr, DecidableEq

/-- The fields that `std.mem.zeroes` leaves at zero. -/
structure JxlExtraChannelInfo where
  type : JxlExtraChannelType := .alpha
  bits_per_sample : Nat := 0
  exponent_bits_per_sample : Nat := 0
  dim_shift : Nat := 0
  name_length : Nat := 0
  alpha_premultiplied : Int := 0
  spot_color : SpotColor := {}
  cfa_channel : Nat := 0
  deriving Repr, DecidableEq

def extraChannelTypeToInternal : JxlExtraChannelType → Option ExtraChannel
  | .alpha => some .alpha
  | .depth => some .depth
  | .spot_color => some .spot_color
  | .selection_mask => some .selection_mask
  | .black => some .black
  | .cfa => some .cfa
  | .thermal => some .thermal
  | .optional => some .optional
  | _ => none

/-- `std.math.isFinite` of every component. -/
def finiteSpotColor
    (color : SpotColor) :
    Prop :=
  IsFinite color.red ∧ IsFinite color.green ∧ IsFinite color.blue ∧
    IsFinite color.solidity
  deriving Decidable

/-- The checks of the fields that only some kinds of channel use. -/
def validateExtraChannelFields
    (extra_type : ExtraChannel)
    (info : JxlExtraChannelInfo) :
    Checked Unit :=
  match extra_type with
  | .depth | .selection_mask | .black | .thermal | .optional => do
      failIf (info.alpha_premultiplied ≠ 0) .Unsupported
      failIf (¬ info.spot_color.eql {}) .Unsupported
      failIf (info.cfa_channel ≠ 0) .Unsupported
  | .spot_color => do
      failIf (info.alpha_premultiplied ≠ 0) .Unsupported
      failIf (info.cfa_channel ≠ 0) .Unsupported
      failIf (¬ finiteSpotColor info.spot_color) .Unsupported
  | .cfa => do
      failIf (info.alpha_premultiplied ≠ 0) .Unsupported
      failIf (¬ info.spot_color.eql {}) .Unsupported
  | _ => fail .Unsupported

def validateExtraChannelInfoForSimpleEncode
    (basic_info : JxlBasicInfo)
    (index : Nat)
    (info : JxlExtraChannelInfo) :
    Checked Unit :=
  match extraChannelTypeToInternal info.type with
  | none => fail .Unsupported
  | some extra_type => do
      failIf (basic_info.num_extra_channels = 0) .Unsupported
      if basic_info.alpha_bits ≠ 0 ∧ index = 0 then do
        failIf (extra_type ≠ .alpha) .Unsupported
        failIf
          (info.bits_per_sample ≠ basic_info.alpha_bits ∨
            info.exponent_bits_per_sample ≠ basic_info.alpha_exponent_bits)
          .Unsupported
        failIf (3 < info.dim_shift) .Unsupported
        failIf (1071 < info.name_length) .Unsupported
        failIf (info.alpha_premultiplied ≠ basic_info.alpha_premultiplied) .Unsupported
        failIf (¬ info.spot_color.eql {}) .Unsupported
        failIf (info.cfa_channel ≠ 0) .Unsupported
      else do
        failIf (extra_type = .alpha) .Unsupported
        failIf (info.bits_per_sample ≠ 8 ∨ info.exponent_bits_per_sample ≠ 0)
          .Unsupported
        failIf (3 < info.dim_shift) .Unsupported
        failIf (1071 < info.name_length) .Unsupported
        validateExtraChannelFields extra_type info

end Jxlz.Capi
