import Jxlz.Capi.BasicInfo
import Jxlz.Capi.JpegOutput
import Mathlib.Data.Set.Function
import Mathlib.Tactic.IntervalCases

namespace Jxlz.Capi.Oriented

open Delivery

/-!
# Oriented layers

An orientation maps the points of a plane onto each other and rectangles onto rectangles.
Mirrors the frame header of `capi_root.zig`, which reports the rectangle that the map makes
of a layer.
-/

/-- The point that an EXIF orientation of a canvas makes of a point of the plane. -/
def oriented
    (orientation : Nat)
    (width height : Int)
    (point : Int × Int) :
    Int × Int :=
  match orientation with
  | 2 => (width - 1 - point.1, point.2)
  | 3 => (width - 1 - point.1, height - 1 - point.2)
  | 4 => (point.1, height - 1 - point.2)
  | 5 => (point.2, point.1)
  | 6 => (height - 1 - point.2, point.1)
  | 7 => (height - 1 - point.2, width - 1 - point.1)
  | 8 => (point.2, width - 1 - point.1)
  | _ => point

/-- The orientation of the oriented canvas that undoes an orientation. -/
def inverse : Nat → Nat
  | 6 => 8
  | 8 => 6
  | orientation => orientation

variable {orientation : Nat} {width height : Int}

/-- An orientation and its inverse undo each other. -/
theorem oriented_inverse
    (known : 1 ≤ orientation ∧ orientation ≤ 8)
    (point : Int × Int) :
    let size := if 5 ≤ orientation then (height, width) else (width, height)
    oriented (inverse orientation) size.1 size.2
          (oriented orientation width height point) =
        point ∧
      oriented orientation width height
          (oriented (inverse orientation) size.1 size.2 point) =
        point := by
  obtain ⟨positive, small⟩ := known
  interval_cases orientation <;> simp [oriented, inverse]

/-- A rectangle of points. -/
structure Rectangle where
  x : Int
  y : Int
  width : Int
  height : Int

namespace Rectangle

def points
    (rectangle : Rectangle) :
    Set (Int × Int) :=
  { point |
    (rectangle.x ≤ point.1 ∧ point.1 < rectangle.x + rectangle.width) ∧
      rectangle.y ≤ point.2 ∧ point.2 < rectangle.y + rectangle.height }

/-- The rectangle that an orientation makes of a rectangle. -/
def orient
    (orientation : Nat)
    (width height : Int)
    (rectangle : Rectangle) :
    Rectangle :=
  let right := width - rectangle.width - rectangle.x
  let bottom := height - rectangle.height - rectangle.y
  match orientation with
  | 2 => { rectangle with x := right }
  | 3 => { rectangle with x := right, y := bottom }
  | 4 => { rectangle with y := bottom }
  | 5 => ⟨rectangle.y, rectangle.x, rectangle.height, rectangle.width⟩
  | 6 => ⟨bottom, rectangle.x, rectangle.height, rectangle.width⟩
  | 7 => ⟨bottom, right, rectangle.height, rectangle.width⟩
  | 8 => ⟨rectangle.y, right, rectangle.height, rectangle.width⟩
  | _ => rectangle

theorem oriented_mem_orient
    (known : 1 ≤ orientation ∧ orientation ≤ 8)
    {rectangle : Rectangle}
    {point : Int × Int} :
    oriented orientation width height point ∈
        (rectangle.orient orientation width height).points ↔
      point ∈ rectangle.points := by
  obtain ⟨positive, small⟩ := known
  interval_cases orientation <;>
    simp only [oriented, orient, points, Set.mem_ofPred_eq] <;> omega

theorem bijOn_orient
    (known : 1 ≤ orientation ∧ orientation ≤ 8)
    (rectangle : Rectangle) :
    Set.BijOn (oriented orientation width height) rectangle.points
      (rectangle.orient orientation width height).points := by
  refine ⟨fun point isInside => (oriented_mem_orient known).2 isInside, ?_, ?_⟩
  · intro first _ second _ same
    rw [← (oriented_inverse known first).1, same, (oriented_inverse known second).1]
  · intro point isInside
    have same := (@oriented_inverse _ width height known point).2
    refine ⟨_, ?_, same⟩
    rw [← oriented_mem_orient known, same]
    exact isInside

end Rectangle

/-! The frame header. -/

/-- The parts of the decoder that the frame header is taken from. -/
structure DecoderImpl where
  frame_parsed : Bool := false
  frame_header : JxlFrameHeader := {}
  coalescing : Bool := true
  keep_orientation : Bool := false
  basic_info : JxlBasicInfo := {}
  orientation : Nat := 1

variable {impl : DecoderImpl}

/-- `std.math.cast` to `i32`. -/
def castI32
    (value : Int) :
    Option Int :=
  if -(2 ^ 31) ≤ value ∧ value < 2 ^ 31 then some value else none

/-- The size of a layer on the oriented canvas. -/
def orientedLayer
    (impl : DecoderImpl)
    (layer_info : JxlLayerInfo) :
    JxlLayerInfo :=
  if 5 ≤ impl.orientation then
    { layer_info with xsize := layer_info.ysize, ysize := layer_info.xsize }
  else
    layer_info

/-- The corner of a layer on the oriented canvas, from its oriented size. -/
def orientedCrop
    (impl : DecoderImpl)
    (layer_info : JxlLayerInfo) :
    Int × Int :=
  let swaps := 5 ≤ impl.orientation
  let x := if swaps then layer_info.crop_y0 else layer_info.crop_x0
  let y := if swaps then layer_info.crop_x0 else layer_info.crop_y0
  let width : Int := if swaps then impl.basic_info.ysize else impl.basic_info.xsize
  let height : Int := if swaps then impl.basic_info.xsize else impl.basic_info.ysize
  let flips := (impl.orientation - 1) &&& 3
  (if flips = 1 ∨ flips = 2 then width - layer_info.xsize - x else x,
    if 2 ≤ flips then height - layer_info.ysize - y else y)

/-- The layer of a frame, or the whole canvas where layers are put together. -/
def shownLayer
    (impl : DecoderImpl) :
    JxlLayerInfo :=
  if impl.coalescing then
    { xsize := impl.basic_info.xsize, ysize := impl.basic_info.ysize }
  else
    impl.frame_header.layer_info

/-- The status, and the header when there is a place for it. -/
def JxlDecoderGetFrameHeader
    (impl : DecoderImpl)
    (header_ptr : Option JxlFrameHeader) :
    JxlDecoderStatus × Option JxlFrameHeader :=
  if !impl.frame_parsed then
    (.needMoreInput, header_ptr)
  else if header_ptr.isNone then
    (.success, none)
  else
    let report := fun (status : JxlDecoderStatus) (layer_info : JxlLayerInfo) =>
      (status, some { impl.frame_header with layer_info })
    if impl.keep_orientation then
      report .success (shownLayer impl)
    else
      let layer := orientedLayer impl (shownLayer impl)
      if impl.coalescing then
        report .success layer
      else
        let corner := orientedCrop impl layer
        match castI32 corner.1, castI32 corner.2 with
        | some crop_x0, some crop_y0 => report .success { layer with crop_x0, crop_y0 }
        | some crop_x0, none => report .error { layer with crop_x0 }
        | none, _ => report .error layer

/-- The rectangle of a layer. -/
def layerRectangle
    (layer_info : JxlLayerInfo) :
    Rectangle :=
  ⟨layer_info.crop_x0, layer_info.crop_y0, layer_info.xsize, layer_info.ysize⟩

/-- The orientation of the output: none where the caller keeps that of the image. -/
def outputOrientation
    (impl : DecoderImpl) :
    Nat :=
  if impl.keep_orientation then 1 else impl.orientation

theorem castI32_eq_some
    {value result : Int}
    (cast : castI32 value = some result) :
    result = value := by
  unfold castI32 at cast
  split at cast
  · cases cast
    rfl
  · exact nomatch cast

theorem layerRectangle_oriented
    (known : 1 ≤ impl.orientation ∧ impl.orientation ≤ 8)
    (layer_info : JxlLayerInfo) :
    let layer := orientedLayer impl layer_info
    layerRectangle
        { layer with
          crop_x0 := (orientedCrop impl layer).1
          crop_y0 := (orientedCrop impl layer).2 } =
      (layerRectangle layer_info).orient impl.orientation impl.basic_info.xsize
        impl.basic_info.ysize := by
  obtain ⟨_, _, _, _, _, orientation⟩ := impl
  obtain ⟨positive, small⟩ := known
  dsimp only at positive small
  interval_cases orientation <;>
    simp [orientedCrop, orientedLayer, layerRectangle, Rectangle.orient]

/-- The canvas that layers are put together on has its corner at the origin again. -/
theorem layerRectangle_coalesced
    (known : 1 ≤ impl.orientation ∧ impl.orientation ≤ 8)
    (together : impl.coalescing = true) :
    layerRectangle (orientedLayer impl (shownLayer impl)) =
      (layerRectangle (shownLayer impl)).orient impl.orientation impl.basic_info.xsize
        impl.basic_info.ysize := by
  obtain ⟨_, _, _, _, _, orientation⟩ := impl
  obtain ⟨positive, small⟩ := known
  dsimp only at positive small together
  subst together
  interval_cases orientation <;>
    simp [shownLayer, orientedLayer, layerRectangle, Rectangle.orient]

/-- The header reports the oriented rectangle of a layer, whenever it reports one. -/
theorem layerRectangle_reported
    {old header : JxlFrameHeader}
    (known : 1 ≤ impl.orientation ∧ impl.orientation ≤ 8)
    (reported :
      JxlDecoderGetFrameHeader impl (some old) = (.success, some header)) :
    layerRectangle header.layer_info =
      (layerRectangle (shownLayer impl)).orient (outputOrientation impl)
        impl.basic_info.xsize impl.basic_info.ysize := by
  unfold JxlDecoderGetFrameHeader at reported
  unfold outputOrientation
  simp only [Option.isNone_some, Bool.false_eq_true, if_false] at reported
  split at reported
  · exact nomatch reported
  · split at reported
    · next keeps =>
        cases reported
        rw [if_pos keeps]
        rfl
    · next turns =>
        rw [if_neg turns]
        split at reported
        · next together =>
            cases reported
            exact layerRectangle_coalesced known together
        · split at reported
          · next crop_x0 crop_y0 isX isY =>
              cases reported
              rw [castI32_eq_some isX, castI32_eq_some isY]
              exact layerRectangle_oriented known _
          · exact nomatch reported
          · exact nomatch reported

/--
The frame header reports the oriented layer: the orientation of the canvas, unless it is
kept, takes the points of the layer one to one onto the points of the rectangle in the
header, whether layers are put together or not.
-/
theorem header_follows_orientation
    {old header : JxlFrameHeader}
    (known : 1 ≤ impl.orientation ∧ impl.orientation ≤ 8)
    (reported :
      JxlDecoderGetFrameHeader impl (some old) = (.success, some header)) :
    Set.BijOn
      (oriented (outputOrientation impl) impl.basic_info.xsize impl.basic_info.ysize)
      (layerRectangle (shownLayer impl)).points (layerRectangle header.layer_info).points
    := by
  rw [layerRectangle_reported known reported]
  apply Rectangle.bijOn_orient
  unfold outputOrientation
  split
  · decide
  · exact known

/-- A layer that begins above the canvas, turned by a quarter. -/
theorem header_follows_orientation_turned :
    Set.BijOn (oriented 6 4 3) (layerRectangle ⟨1, 2, -1, 2, 3, {}, 0⟩).points
      (layerRectangle ⟨1, 1, 2, 3, 2, {}, 0⟩).points :=
  @header_follows_orientation
    { frame_parsed := true
      frame_header := { layer_info := ⟨1, 2, -1, 2, 3, {}, 0⟩ }
      coalescing := false
      basic_info := { xsize := 4, ysize := 3 }
      orientation := 6 }
    {} { layer_info := ⟨1, 1, 2, 3, 2, {}, 0⟩ } (by decide) (by decide)

end Jxlz.Capi.Oriented
