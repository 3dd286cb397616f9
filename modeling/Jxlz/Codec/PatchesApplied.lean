import Jxlz.Codec.PatchDictionary

namespace Jxlz.Patches

open Except (Meets meets_ok)

/-!
# What applying a dictionary draws

A patch changes the positions of its rectangle that the output has, each from what is
there and from the patch's own sample.  So every position of the output ends up with
the blend of the patches that cover it, in the order of the dictionary.
-/

/-- The rectangle of the patch covers a position of the frame. -/
structure Patch.Covers
    (p : Patch)
    (y x : Nat) :
    Prop where
  top : p.y ≤ y
  bottom : y < p.y + p.height
  left : p.x ≤ x
  right : x < p.x + p.width

instance
    (p : Patch)
    (y x : Nat) :
    Decidable (p.Covers y x) :=
  decidable_of_iff
    (p.y ≤ y ∧ y < p.y + p.height ∧ p.x ≤ x ∧ x < p.x + p.width)
    ⟨fun ⟨top, bottom, left, right⟩ => ⟨top, bottom, left, right⟩,
      fun ⟨top, bottom, left, right⟩ => ⟨top, bottom, left, right⟩⟩

section

variable {α : Type}

/-- The sample of a channel at a position of the output. -/
def sampleAt
    (height width : Nat)
    (data : List α)
    (y x c : Nat) :
    Option α :=
  data[planarIndex height width c y x]?

variable {samples : Samples α}

variable {self : Dictionary} {references : Vector Reference 4}
  {extras : List Blending.Extra} {reference : Reference} {image : ReferenceShape}
  {color : Blending.Info} {info : List Blending.Extra} {p : Patch}
  {channels height width : Nat} {data : List α}

theorem store_puts
    (channels height width : Nat) :
    Puts (α := α) channels height width
      fun data c y x sample => store data (planarIndex height width c y x) sample := by
  intro data c y x value size inPlanes inHeight inWidth
  refine store_ok ?_ value
  rw [size]
  exact planarIndex_lt inPlanes inHeight inWidth

/-- What one position of a patch draws. -/
structure Drawn
    (samples : Samples α)
    (reference : Reference)
    (image : ReferenceShape)
    (color : Blending.Info)
    (info : List Blending.Extra)
    (p : Patch)
    (channels height width : Nat)
    (before : List α)
    (y x : Nat)
    (value : List α) :
    Prop where
  length : value.length = channels
  blended :
    ∃ bg fg,
      Gathers channels bg (sampleAt height width before (p.y + y) (p.x + x)) ∧
        patchPixel samples reference image p channels y x = .ok fg ∧
        Blending.pixel samples.numbers bg fg color info = .ok value

variable {y x : Nat} {after : List α}

theorem applyPixel_of_ok
    (size : data.length = channels * height * width)
    (inHeight : p.y + y < height)
    (inWidth : p.x + x < width)
    (applied :
      applyPixel samples reference image color info p channels height width data y x =
        .ok after) :
    ∃ value,
      Drawn samples reference image color info p channels height width data y x value ∧
        PixelPut height width (p.y + y) (p.x + x) value data after := by
  unfold applyPixel at applied
  obtain ⟨bg, gathered, applied⟩ := bind_eq_ok.1 applied
  obtain ⟨fg, isPatch, applied⟩ := bind_eq_ok.1 applied
  obtain ⟨value, blended, applied⟩ := bind_eq_ok.1 applied
  have isBackground :
      Gathers channels bg (sampleAt height width data (p.y + y) (p.x + x)) :=
    gathers_of_mapM gathered fun _ _ => index_eq_ok.1
  have many : value.length = channels :=
    (Blending.length_pixel blended).trans isBackground.length
  obtain ⟨after', written, isPut⟩ :=
    putPixel_ok (store_puts channels height width) size many inHeight inWidth
  rw [applied, Except.ok.injEq] at written
  rw [written]
  exact ⟨value, ⟨many, bg, fg, isBackground, isPatch, blended⟩, isPut⟩

/-- What a patch has drawn when it stands in front of a position of its own. -/
structure Painted
    (samples : Samples α)
    (reference : Reference)
    (image : ReferenceShape)
    (color : Blending.Info)
    (info : List Blending.Extra)
    (p : Patch)
    (channels height width : Nat)
    (before : List α)
    (y x : Nat)
    (data : List α) :
    Prop where
  length : data.length = before.length
  passed :
    ∀ row column,
      p.y + row < height →
      p.x + column < width →
      column < p.width →
      Passed y x row column →
      ∃ value,
        Drawn samples reference image color info p channels height width before
            row column value ∧
          Gathers channels value
            (sampleAt height width data (p.y + row) (p.x + column))
  kept :
    ∀ row column c,
      row < height →
      column < width →
      c < channels →
      (∀ y' x',
        row = p.y + y' → column = p.x + x' → x' < p.width → ¬Passed y x y' x') →
      sampleAt height width data row column c =
        sampleAt height width before row column c

theorem Painted.next
    {before after : List α}
    (size : before.length = channels * height * width)
    (inHeight : p.y + y < height)
    (inWidth : p.x + x < width)
    (inPatch : x < p.width)
    (painted :
      Painted samples reference image color info p channels height width before y x data)
    (applied :
      applyPixel samples reference image color info p channels height width data y x =
        .ok after) :
    Painted samples reference image color info p channels height width before y (x + 1)
      after := by
  obtain ⟨value, ⟨many, bg, fg, isBackground, isPatch, blended⟩, isPut⟩ :=
    applyPixel_of_ok (painted.length.trans size) inHeight inWidth applied
  have fresh :
      ∀ c, c < channels →
        sampleAt height width data (p.y + y) (p.x + x) c =
          sampleAt height width before (p.y + y) (p.x + x) c := by
    intro c inPlanes
    refine painted.kept _ _ c inHeight inWidth inPlanes ?_
    intro y' x' sameRow sameColumn _ isPassed
    unfold Passed at isPassed
    omega
  refine ⟨isPut.length.trans painted.length, ?_, ?_⟩
  · intro row column inHeight' inWidth' inPatch' isPassed
    rcases passed_succ.1 isPassed with isEarlier | ⟨rfl, rfl⟩
    · obtain ⟨value', drawn, gathered⟩ :=
        painted.passed row column inHeight' inWidth' inPatch' isEarlier
      refine ⟨value', drawn, gathered.length, fun c inPlanes => ?_⟩
      rw [← gathered.each c inPlanes]
      refine isPut.kept _ fun c' _ same => ?_
      obtain ⟨_, sameRow, sameColumn⟩ :=
        planarIndex_inj inHeight' inHeight inWidth' inWidth same
      unfold Passed at isEarlier
      omega
    · refine ⟨value, ⟨many, bg, fg, ⟨isBackground.length, ?_⟩, isPatch, blended⟩, many,
        ?_⟩
      · exact fun c inPlanes => (fresh c inPlanes).symm.trans (isBackground.each c inPlanes)
      · exact fun c inPlanes => isPut.written c (many ▸ inPlanes)
  · intro row column c inHeight' inWidth' inPlanes elsewhere
    rw [← painted.kept row column c inHeight' inWidth' inPlanes
      fun y' x' sameRow sameColumn inside isPassed =>
        elsewhere y' x' sameRow sameColumn inside (passed_succ.2 (.inl isPassed))]
    refine isPut.kept _ fun c' _ same => ?_
    obtain ⟨_, sameRow, sameColumn⟩ :=
      planarIndex_inj inHeight' inHeight inWidth' inWidth same
    exact elsewhere y x sameRow sameColumn inPatch (passed_succ.2 (.inr ⟨rfl, rfl⟩))

/-- What the checks before drawing say about a patch. -/
structure Checks
    (references : Vector Reference 4)
    (channels : Nat)
    (p : Patch)
    (image : ReferenceShape) :
    Prop where
  shaped : referenceShape (references.get p.ref) = .ok image
  channels : image.channels = channels
  right : p.sx + p.width ≤ image.width
  bottom : p.sy + p.height ≤ image.height

end

end Jxlz.Patches
