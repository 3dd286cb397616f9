import Jxlz.Codec.DecodeSession

namespace Jxlz

/-!
# Where a layer lands on the canvas

Both versions of the composition put the frame's rectangle, moved to its origin, over
the samples of the slots.  They differ in the samples only.
-/

/-- The position on the canvas is in the frame's rectangle. -/
structure InFrame
    (origin : FrameOrigin)
    (width height y x : Nat) :
    Prop where
  left : origin.x0.toInt ≤ x
  right : (x : Int) < origin.x0.toInt + width
  top : origin.y0.toInt ≤ y
  bottom : (y : Int) < origin.y0.toInt + height

/-- The slot that a channel is blended with. -/
def layerSource
    (fh : FrameHeader)
    (c : Nat) :
    Nat :=
  if c < 3 then
    fh.blending_info.source
  else
    (fh.extra_channel_blending_info.toList.getD (c - 3) {}).source

namespace FixedImage

def sample
    (self : FixedImage)
    (c y x : Nat) :
    Option Fixed :=
  self.data[planarIndex self.height self.width c y x]?

theorem puts
    (channels width height : Nat) :
    Puts channels height width (FixedImage.put width height) := by
  intro data c y x value size inPlanes inHeight inWidth
  refine store_ok ?_ value
  rw [size]
  exact planarIndex_lt inPlanes inHeight inWidth

end FixedImage

namespace FloatImage

def sample
    (self : FloatImage)
    (c y x : Nat) :
    Option UInt32 :=
  self.data[planarIndex self.ysize self.xsize c y x]?

/-- The row of a sample is part of the data. -/
theorem row_le
    {channels ysize xsize c y : Nat}
    (inPlanes : c < channels)
    (inHeight : y < ysize) :
    (c * ysize + y) * xsize + xsize ≤ channels * ysize * xsize := by
  rw [← Nat.succ_mul]
  refine Nat.mul_le_mul_right xsize ?_
  calc
    (c * ysize + y).succ ≤ (c + 1) * ysize := by
      rw [Nat.succ_mul]
      omega
    _ ≤ channels * ysize := Nat.mul_le_mul_right ysize inPlanes

theorem puts
    (channels xsize ysize : Nat) :
    Puts channels ysize xsize (FloatImage.put xsize ysize) := by
  intro data c y x value size inPlanes inHeight inWidth
  unfold put
  dsimp only
  rw [if_pos ⟨by rw [size]; exact row_le inPlanes inHeight, inWidth⟩]
  refine store_ok ?_ value
  rw [size]
  exact planarIndex_lt inPlanes inHeight inWidth

end FloatImage

/-- What a slot holds as soft-floats; without such an image it is black. -/
def Reference.sample
    (ref : Reference)
    (c y x : Nat) :
    Option Fixed :=
  match ref.image with
  | some image => image.sample c y x
  | none => some Fixed.zero

/-- What a slot holds as binary32 words; without an image it is black. -/
def Reference.floatSample
    (ref : Reference)
    (c y x : Nat) :
    Option UInt32 :=
  match ref.float_image, ref.image with
  | some image, _ => image.sample c y x
  | none, some image =>
      (image.sample c y x).bind fun value => (FixedDisplay.bits value).toOption
  | none, none => some 0

variable {allowed : Fault → Prop} {fh : FrameHeader} {metadata : CodecMetadata}
  {refs : Vector Reference 4} {width height y x c : Nat}

section

variable {α : Type} {blend : List α → List α → Checked (List α)}
  {background frame : Nat → Nat → Nat → Checked α} {channels frameWidth frameHeight : Nat}
  {under over' : Nat → Nat → Nat → Option α}

end

namespace Session

/-- The samples that lie under a layer of soft-floats. -/
def under
    (refs : Vector Reference 4)
    (fh : FrameHeader)
    (c y x : Nat) :
    Option Fixed :=
  refs.toList[layerSource fh c]?.bind fun ref => ref.sample c y x

end Session

namespace FloatReference

/-- The samples that lie under a layer of binary32 words. -/
def under
    (refs : Vector Reference 4)
    (fh : FrameHeader)
    (c y x : Nat) :
    Option UInt32 :=
  refs.toList[layerSource fh c]?.bind fun ref => ref.floatSample c y x

end FloatReference

end Jxlz
