import Jxlz.Codec.ImageMetadata

namespace Jxlz

/-!
# Frame headers

Mirrors the parts of `frame_header.zig` and of the codestream metadata that say how
a frame is blended, referenced and shown.
-/

inductive FrameType where
  | regular_frame
  | dc_frame
  | reference_only
  | skip_progressive
  deriving Repr, DecidableEq

inductive ColorTransform where
  | xyb
  | none
  | ycbcr
  deriving Repr, DecidableEq

inductive BlendMode where
  | replace
  | add
  | blend
  | alpha_weighted_add
  | mul
  deriving Repr, DecidableEq

structure BlendingInfo where
  mode : BlendMode := .replace
  alpha_channel : Nat := 0
  clamp : Bool := false
  source : Nat := 0
  deriving Repr, DecidableEq

structure AnimationFrame where
  duration : Nat := 0
  timecode : Nat := 0
  deriving Repr, DecidableEq

structure FrameOrigin where
  x0 : Int32 := 0
  y0 : Int32 := 0
  deriving Repr, DecidableEq

/-- The number of entries of the tables that have one for each extra channel. -/
def kMaxExtraChannels : Nat := 256

structure FrameHeader where
  frame_type : FrameType := .regular_frame
  color_transform : ColorTransform := .xyb
  dc_level : Nat := 0
  custom_size_or_origin : Bool := false
  frame_origin : FrameOrigin := {}
  blending_info : BlendingInfo := {}
  extra_channel_blending_info : Vector BlendingInfo kMaxExtraChannels :=
    .replicate kMaxExtraChannels {}
  animation_frame : AnimationFrame := {}
  is_last : Bool := true
  save_as_reference : Nat := 0
  save_before_color_transform : Bool := false

namespace FrameHeader

def canBeReferenced
    (self : FrameHeader) :
    Bool :=
  !self.is_last && decide (self.frame_type ≠ .dc_frame) &&
    (decide (self.animation_frame.duration = 0) ||
      decide (self.save_as_reference ≠ 0))

def needsBlending
    (self : FrameHeader)
    (extra_count : Nat) :
    Bool :=
  self.custom_size_or_origin || decide (self.blending_info.mode ≠ .replace) ||
    (self.extra_channel_blending_info.toList.take extra_count).any fun info =>
      decide (info.mode ≠ .replace)

end FrameHeader

/-- The parts of the codestream metadata that composing layers needs. -/
structure CodecMetadata where
  xsize : Nat
  ysize : Nat
  bit_depth : BitDepth := {}
  num_extra_channels : Nat := 0
  extra_channel_info : Vector ExtraChannelInfo kMaxExtraChannels :=
    .replicate kMaxExtraChannels {}
  xyb_encoded : Bool := true
  /-- Metadata with more extra channels are not read. -/
  few_extras : num_extra_channels ≤ kMaxExtraChannels

end Jxlz
