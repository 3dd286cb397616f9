import Jxlz.Base.Binary32Value
import Jxlz.Codec.FieldCoders

namespace Jxlz

/-!
# Codestream headers

Mirrors `headers.zig`: the size of an image, of its preview, and the timing of an
animation.
-/

structure AnimationHeader where
  tps_numerator : Nat := 1
  tps_denominator : Nat := 1
  num_loops : Nat := 0
  have_timecodes : Bool := false
  deriving Repr, DecidableEq

end Jxlz

namespace Jxlz

/-!
# Color encodings

Mirrors `color_encoding.zig`: the description of a color space, its white point,
primaries, transfer function and rendering intent.
-/

inductive ColorSpace where
  | rgb
  | gray
  | xyb
  | unknown
  deriving Repr, DecidableEq

inductive WhitePoint where
  | d65
  | custom
  | e
  | dci
  deriving Repr, DecidableEq

inductive Primaries where
  | srgb
  | custom
  | bt2100
  | p3
  deriving Repr, DecidableEq

inductive TransferFunction where
  | bt709
  | unknown
  | linear
  | srgb
  | pq
  | dci
  | hlg
  deriving Repr, DecidableEq

inductive RenderingIntent where
  | perceptual
  | relative
  | saturation
  | absolute
  deriving Repr, DecidableEq

/-- A chromaticity in millionths. -/
structure Customxy where
  x : Int := 0
  y : Int := 0
  deriving Repr, DecidableEq

structure CustomTransferFunction where
  have_gamma : Bool := false
  gamma : Nat := 10000000
  transfer_function : TransferFunction := .srgb
  deriving Repr, DecidableEq

structure ColorEncoding where
  want_icc : Bool := false
  color_space : ColorSpace := .rgb
  white_point : WhitePoint := .d65
  white : Customxy := {}
  primaries : Primaries := .srgb
  red : Customxy := {}
  green : Customxy := {}
  blue : Customxy := {}
  tf : CustomTransferFunction := {}
  rendering_intent : RenderingIntent := .relative
  deriving Repr, DecidableEq

namespace ColorEncoding

def channels
    (self : ColorEncoding) :
    Nat :=
  if self.color_space = .gray then 1 else 3

end ColorEncoding

end Jxlz

namespace Jxlz

open Binary32

/-!
# Image metadata

Mirrors `image_metadata.zig`.  Floating-point fields are binary32 words.
-/

inductive ExtraChannel where
  | alpha
  | depth
  | spot_color
  | selection_mask
  | black
  | cfa
  | thermal
  | reserved0
  | reserved1
  | reserved2
  | reserved3
  | reserved4
  | reserved5
  | reserved6
  | reserved7
  | unknown
  | optional
  deriving Repr, DecidableEq

structure BitDepth where
  floating_point_sample : Bool := false
  bits_per_sample : Nat := 8
  exponent_bits_per_sample : Nat := 0
  deriving Repr, DecidableEq

/-- The four components of a spot color. -/
structure SpotColor where
  red : UInt32 := 0
  green : UInt32 := 0
  blue : UInt32 := 0
  solidity : UInt32 := 0
  deriving Repr, DecidableEq

/-- `std.mem.eql` of the components. -/
def SpotColor.eql
    (self other : SpotColor) :
    Bool :=
  equals self.red other.red && equals self.green other.green &&
    equals self.blue other.blue && equals self.solidity other.solidity

structure ExtraChannelInfo where
  type : ExtraChannel := .alpha
  bit_depth : BitDepth := {}
  dim_shift : Nat := 0
  name : List UInt8 := []
  alpha_associated : Bool := false
  spot_color : SpotColor := {}
  cfa_channel : Nat := 0
  name_len : Nat := 0
  deriving Repr, DecidableEq

/-- The name buffer of the source holds the name again, or memory never written. -/
def ExtraChannelInfo.eql
    (self other : ExtraChannelInfo) :
    Bool :=
  self.type = other.type && self.bit_depth = other.bit_depth &&
    self.dim_shift = other.dim_shift &&
      self.alpha_associated = other.alpha_associated &&
        self.spot_color.eql other.spot_color &&
          self.cfa_channel = other.cfa_channel && self.name_len = other.name_len &&
            self.name = other.name

structure ToneMapping where
  intensity_target : UInt32 := 0x437f0000
  min_nits : UInt32 := 0
  relative_to_max_display : Bool := false
  linear_below : UInt32 := 0
  deriving Repr, DecidableEq

end Jxlz
