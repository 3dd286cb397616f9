import Jxlz.Modular.Rct

namespace Jxlz.Modular

/-!
# When the inverse colour transform undoes the forward one

Both transforms are row loops, so a run is described by what one row does to a
pixel.  The inverse of a permuted type leaves rows alone that are too wide for
its buffers; every other row gets its pixels back.
-/

/-- The component of a coded pixel. -/
def component
    (pixel : Int32 × Int32 × Int32)
    (place : Nat) :
    Int32 :=
  if place = 2 then pixel.2.2 else if place = 1 then pixel.2.1 else pixel.1

/-- What `fwdRCT` makes of the three samples of a pixel. -/
def fwdRCTValue
    (permutation custom : Nat)
    (samples : Nat → Int32) :
    Nat → Int32 :=
  component
    (fwdRCTPixel custom (samples (rctSource0 permutation))
      (samples (rctSource1 permutation)) (samples (rctSource2 permutation)))

/-- What the buffered rows of `invRCT` make of a coded pixel. -/
def invRCTValue
    (permutation custom : Nat)
    (samples : Nat → Int32)
    (place : Nat) :
    Int32 :=
  let pixel := invRCTPixel custom (samples 0) (samples 1) (samples 2)
  if place = rctSource2 permutation then pixel.2.2
  else if place = rctSource1 permutation then pixel.2.1
  else pixel.1

theorem rctSource_perm
    {permutation : Nat}
    (valid : permutation < 6) :
    [rctSource0 permutation, rctSource1 permutation,
      rctSource2 permutation].Perm [0, 1, 2] := by
  interval_cases permutation <;> decide

theorem rctSource_identity :
    rctSource0 0 = 0 ∧ rctSource1 0 = 1 ∧ rctSource2 0 = 2 := by
  decide

/-- A permuted and coded pixel comes back. -/
theorem invRCTValue_fwdRCTValue
    {permutation custom : Nat}
    (valid : permutation < 6)
    (samples : Nat → Int32)
    {place : Nat}
    (small : place ≤ 2) :
    invRCTValue permutation custom (fwdRCTValue permutation custom samples)
        place =
      samples place := by
  have pixelBack :=
    invRCTPixel_fwdRCTPixel custom (samples (rctSource0 permutation))
      (samples (rctSource1 permutation)) (samples (rctSource2 permutation))
  simp only at pixelBack
  have covers :
      place = rctSource0 permutation ∨ place = rctSource1 permutation ∨
        place = rctSource2 permutation := by
    have listed : place ∈ [0, 1, 2] := by
      simp only [List.mem_cons, List.not_mem_nil, or_false]
      omega
    simpa using (rctSource_perm valid).symm.subset listed
  unfold invRCTValue fwdRCTValue
  simp only [component, if_true, OfNat.zero_ne_ofNat, OfNat.one_ne_ofNat,
    zero_ne_one, if_false, pixelBack]
  split_ifs with isThird isSecond
  · rw [isThird]
  · rw [isSecond]
  · rcases covers with isFirst | isSecond' | isThird'
    · rw [isFirst]
    · exact absurd isSecond' isSecond
    · exact absurd isThird' isThird

theorem rewritesRow_fwdRCTLine
    (permutation custom m : Nat) :
    RewritesRow m (fwdRCTValue permutation custom)
      (fwdRCTLine permutation custom m) where
  length image y := by
    simp [fwdRCTLine]
  size image y position :=
    ((Image.sameSize_chan_setRow _ _ _ _ _).trans
      (Image.sameSize_chan_setRow _ _ _ _ _)).trans
        (Image.sameSize_chan_setRow _ _ _ _ _)
  sample image y inside position row column := by
    exact sample_setRows image inside (.refl [0, 1, 2]) y _ _ _ position row
      column

/-- The rows that `invRCT` buffers. -/
theorem rewritesRow_invRCTLine
    {permutation : Nat}
    (valid : permutation < 6)
    (custom m : Nat)
    {w : Nat}
    (handled : w ≤ kRctBufferSize ∨ permutation = 0) :
    RewritesRow m (invRCTValue permutation custom)
      (invRCTLine permutation custom m w) := by
  have buffered :
      ∀ image y,
        invRCTLine permutation custom m w image y =
          let out :=
            invRCTRow custom ((image.chan m).row y)
              ((image.chan (m + 1)).row y) ((image.chan (m + 2)).row y)
          ((image.setRow (m + rctSource0 permutation) y out.1).setRow
            (m + rctSource1 permutation) y out.2.1).setRow
              (m + rctSource2 permutation) y out.2.2 := by
    intro image y
    unfold invRCTLine
    rcases handled with narrow | identity
    · simp only [Nat.not_lt.2 narrow, if_false]
    · subst identity
      obtain ⟨source0, source1, source2⟩ := rctSource_identity
      simp only [source0, source1, source2, if_true, ite_self, Nat.add_zero]
  constructor
  · intro image y
    simp [buffered]
  · intro image y position
    rw [buffered]
    exact ((Image.sameSize_chan_setRow _ _ _ _ _).trans
      (Image.sameSize_chan_setRow _ _ _ _ _)).trans
        (Image.sameSize_chan_setRow _ _ _ _ _)
  · intro image y inside position row column
    rw [buffered]
    exact sample_setRows image inside (rctSource_perm valid) y _ _ _ position
      row column

/-- Three neighbouring channels of one size. -/
structure ThreeEqual
    (image : Image)
    (begin_c w h : Nat) :
    Prop where
  inside : begin_c + 2 < image.channels.length
  width : ∀ place, place ≤ 2 → (image.chan (begin_c + place)).w = w
  height : ∀ place, place ≤ 2 → (image.chan (begin_c + place)).h = h

variable {begin_c w h : Nat}

/-- An image with other samples still has its three equal channels. -/
theorem ThreeEqual.congr
    {first second : Image}
    (three : ThreeEqual first begin_c w h)
    (length : second.channels.length = first.channels.length)
    (size : ∀ position, (second.chan position).SameSize (first.chan position)) :
    ThreeEqual second begin_c w h := by
  refine ⟨length ▸ three.inside, ?_, ?_⟩
  · intro place small
    rw [(size _).w, three.width place small]
  · intro place small
    rw [(size _).h, three.height place small]

variable {image : Image} {begin_c rct_type w h : Nat}

theorem fwdRCT_eq
    (three : ThreeEqual image begin_c w h)
    (valid : rct_type < 42)
    (nontrivial : rct_type ≠ 0) :
    fwdRCT image begin_c rct_type =
      .ok ((List.range h).foldl
        (fwdRCTLine (rct_type / 7) (rct_type % 7) begin_c) image) := by
  have permutation : ¬ 6 ≤ rct_type / 7 := by
    omega
  have inside : ¬ image.channels.length ≤ begin_c + 2 :=
    Nat.not_le.2 three.inside
  have width0 := three.width 0 (by decide)
  have height0 := three.height 0 (by decide)
  simp only [Nat.add_zero] at width0 height0
  unfold fwdRCT
  simp only [nontrivial, permutation, inside, width0, height0,
    three.width 1 (by decide), three.width 2 (by decide),
    three.height 1 (by decide), three.height 2 (by decide), if_false,
    ne_eq, not_true_eq_false, or_self]

theorem invRCT_eq
    (three : ThreeEqual image begin_c w h)
    (valid : rct_type < 42)
    (nontrivial : rct_type ≠ 0) :
    invRCT image begin_c rct_type =
      if rct_type % 7 = 0 then
        .ok (swapData image (rct_type / 7) begin_c)
      else
        .ok ((List.range h).foldl
          (invRCTLine (rct_type / 7) (rct_type % 7) begin_c w) image) := by
  have permutation : ¬ 6 ≤ rct_type / 7 := by
    omega
  have inside : ¬ image.channels.length ≤ begin_c + 2 :=
    Nat.not_le.2 three.inside
  have width0 := three.width 0 (by decide)
  have height0 := three.height 0 (by decide)
  simp only [Nat.add_zero] at width0 height0
  unfold invRCT
  simp only [nontrivial, permutation, inside, width0, height0, if_false]

/-- What a transform has made of the samples of three neighbouring channels. -/
structure Recoloured
    (before after : Image)
    (begin_c h w : Nat)
    (value : (Nat → Int32) → Nat → Int32) :
    Prop where
  length : after.channels.length = before.channels.length
  size : ∀ position, (after.chan position).SameSize (before.chan position)
  inside :
    ∀ place row column,
      place ≤ 2 →
      row < h →
      column < w →
      (after.chan (begin_c + place)).sample row column =
        value
          (fun source =>
            (before.chan (begin_c + source)).sample row column)
          place
  outside :
    ∀ position row column,
      position < begin_c ∨ begin_c + 2 < position →
      (after.chan position).sample row column =
        (before.chan position).sample row column

/-- A whole row loop rewrites every sample of its three channels. -/
theorem RewritesRow.recoloured
    {value : (Nat → Int32) → Nat → Int32}
    {line : Image → Nat → Image}
    (step : RewritesRow begin_c value line)
    (three : ThreeEqual image begin_c w h) :
    Recoloured image ((List.range h).foldl line image) begin_c h w value := by
  obtain ⟨length, size, sample⟩ := step.run image three.inside h
  refine ⟨length, size, ?_, ?_⟩
  · intro place row column small inHeight inWidth
    rw [sample, three.width place small, if_pos, Nat.add_sub_cancel_left]
    exact ⟨inHeight, inWidth, Nat.le_add_right _ _, by omega⟩
  · intro position row column away
    rw [sample, if_neg]
    rintro ⟨_, _, lower, upper⟩
    omega

theorem chan_modify_sample
    (image : Image)
    {chan : Nat}
    (inside : chan < image.channels.length)
    (data : Nat → Nat → Int32)
    (position : Nat) :
    Image.chan
        { channels := image.channels.modify chan ({ · with sample := data }) }
        position =
      if position = chan then { image.chan position with sample := data }
      else image.chan position := by
  unfold Image.chan
  by_cases at_chan : position = chan
  · subst at_chan
    simp [List.getD_eq_getElem?_getD, inside]
  · have other : ¬ chan = position :=
      fun same => at_chan same.symm
    simp [List.getD_eq_getElem?_getD, at_chan, other]

/-- Swapping the sample arrays is what the row loop does without a coding. -/
theorem recoloured_swapData
    {permutation begin_c w h : Nat}
    (valid : permutation < 6)
    (three : ThreeEqual image begin_c w h) :
    Recoloured image (swapData image permutation begin_c) begin_c h w
      (invRCTValue permutation 0) := by
  have inside := three.inside
  have order := rctSource_perm valid
  have bounded :
      rctSource0 permutation < 3 ∧ rctSource1 permutation < 3 ∧
        rctSource2 permutation < 3 :=
    ⟨Nat.mod_lt _ (by decide), Nat.mod_lt _ (by decide),
      Nat.mod_lt _ (by decide)⟩
  obtain ⟨bound0, bound1, bound2⟩ := bounded
  have chanSwap :
      ∀ position,
        (swapData image permutation begin_c).chan position =
          if position = begin_c + rctSource2 permutation then
            { image.chan position with
              sample := (image.chan (begin_c + 2)).sample }
          else if position = begin_c + rctSource1 permutation then
            { image.chan position with
              sample := (image.chan (begin_c + 1)).sample }
          else if position = begin_c + rctSource0 permutation then
            { image.chan position with
              sample := (image.chan begin_c).sample }
          else
            image.chan position := by
    intro position
    unfold swapData
    rw [chan_modify_sample
        { channels := (image.channels.modify _ _).modify _ _ }
        (by simp only [List.length_modify]; omega),
      chan_modify_sample { channels := image.channels.modify _ _ }
        (by simp only [List.length_modify]; omega),
      chan_modify_sample image (by omega)]
    split_ifs <;> rfl
  refine ⟨by simp [swapData], ?_, ?_, ?_⟩
  · intro position
    rw [chanSwap]
    split_ifs <;> exact ⟨rfl, rfl, rfl, rfl⟩
  · intro place row column small _ _
    have covers :
        place = rctSource0 permutation ∨ place = rctSource1 permutation ∨
          place = rctSource2 permutation := by
      have listed : place ∈ [0, 1, 2] := by
        simp only [List.mem_cons, List.not_mem_nil, or_false]
        omega
      simpa using order.symm.subset listed
    rw [chanSwap]
    simp only [Nat.add_left_cancel_iff, invRCTValue]
    split_ifs with third second first
    · rfl
    · rfl
    · rfl
    · rcases covers with isFirst | isSecond | isThird
      · exact absurd isFirst first
      · exact absurd isSecond second
      · exact absurd isThird third
  · intro position row column away
    rw [chanSwap, if_neg (by omega), if_neg (by omega), if_neg (by omega)]

/-- The transforms that `invRCT` carries out on every row. -/
def RctHandled
    (rct_type w h : Nat) :
    Prop :=
  rct_type % 7 = 0 ∨ rct_type < 7 ∨ w ≤ kRctBufferSize ∨ h = 0

/-- A handled inverse transform decodes every pixel. -/
theorem invRCT_recoloured
    (three : ThreeEqual image begin_c w h)
    (valid : rct_type < 42)
    (nontrivial : rct_type ≠ 0)
    (handled : RctHandled rct_type w h) :
    ∃ restored,
      invRCT image begin_c rct_type = .ok restored ∧
        Recoloured image restored begin_c h w
          (invRCTValue (rct_type / 7) (rct_type % 7)) := by
  have permutation : rct_type / 7 < 6 := by
    omega
  rw [invRCT_eq three valid nontrivial]
  by_cases plain : rct_type % 7 = 0
  · rw [if_pos plain, plain]
    exact ⟨_, rfl, recoloured_swapData permutation three⟩
  · rw [if_neg plain]
    refine ⟨_, rfl, ?_⟩
    rcases handled with isPlain | identity | narrow | empty
    · exact absurd isPlain plain
    · have notPermuted : rct_type / 7 = 0 :=
        Nat.div_eq_of_lt identity
      exact (rewritesRow_invRCTLine permutation _ _
        (.inr notPermuted)).recoloured three
    · exact (rewritesRow_invRCTLine permutation _ _
        (.inl narrow)).recoloured three
    · subst empty
      refine ⟨rfl, fun position => .refl _, ?_, fun _ _ _ _ => rfl⟩
      intro place row column _ inHeight
      cases inHeight

/-- The inverse transform gives the image back. -/
def RctRestores
    (image : Image)
    (begin_c rct_type : Nat) :
    Prop :=
  ∃ coded restored,
    fwdRCT image begin_c rct_type = .ok coded ∧
      invRCT coded begin_c rct_type = .ok restored ∧
      restored.Same image

theorem rctRestores_of_handled
    (three : ThreeEqual image begin_c w h)
    (valid : rct_type < 42)
    (handled : RctHandled rct_type w h) :
    RctRestores image begin_c rct_type := by
  by_cases trivial : rct_type = 0
  · subst trivial
    exact ⟨image, image, rfl, rfl,
      Image.same_of_chan rfl (fun position _ => .refl _)⟩
  · have permutation : rct_type / 7 < 6 := by
      omega
    have forward :=
      (rewritesRow_fwdRCTLine (rct_type / 7) (rct_type % 7)
        begin_c).recoloured three
    obtain ⟨restored, inverse, backward⟩ :=
      invRCT_recoloured (three.congr forward.length forward.size) valid trivial
        handled
    refine ⟨_, restored, fwdRCT_eq three valid trivial, inverse, ?_⟩
    refine Image.same_of_chan (backward.length.trans forward.length) ?_
    intro position inside
    refine ⟨(backward.size position).trans (forward.size position), ?_⟩
    intro row column inHeight inWidth
    by_cases near : begin_c ≤ position ∧ position ≤ begin_c + 2
    · obtain ⟨place, rfl⟩ := Nat.exists_eq_add_of_le near.1
      have small : place ≤ 2 := by
        omega
      rw [three.height place small] at inHeight
      rw [three.width place small] at inWidth
      rw [backward.inside place row column small inHeight inWidth]
      have coded :
          invRCTValue (rct_type / 7) (rct_type % 7)
              (fun source =>
                (((List.range h).foldl
                  (fwdRCTLine (rct_type / 7) (rct_type % 7) begin_c)
                    image).chan (begin_c + source)).sample row column)
              place =
            invRCTValue (rct_type / 7) (rct_type % 7)
              (fwdRCTValue (rct_type / 7) (rct_type % 7)
                (fun source =>
                  (image.chan (begin_c + source)).sample row column))
              place := by
        unfold invRCTValue
        simp only [forward.inside _ row column (by decide : 0 ≤ 2) inHeight
            inWidth,
          forward.inside _ row column (by decide : 1 ≤ 2) inHeight inWidth,
          forward.inside _ row column (by decide : 2 ≤ 2) inHeight inWidth]
      rw [coded, invRCTValue_fwdRCTValue permutation _ small]
    · have away : position < begin_c ∨ begin_c + 2 < position := by
        omega
      rw [backward.outside position row column away,
        forward.outside position row column away]

/-- A wide permuted row is left as it is. -/
theorem invRCTLine_skipped
    {permutation w : Nat}
    (permuted : permutation ≠ 0)
    (wide : kRctBufferSize < w)
    (custom m : Nat)
    (image : Image)
    (y : Nat) :
    invRCTLine permutation custom m w image y = image := by
  unfold invRCTLine
  simp only [wide, permuted, if_true, if_false]

theorem invRCT_skipped
    (three : ThreeEqual image begin_c w h)
    (valid : rct_type < 42)
    (coded : rct_type % 7 ≠ 0)
    (permuted : 7 ≤ rct_type)
    (wide : kRctBufferSize < w) :
    invRCT image begin_c rct_type = .ok image := by
  have notIdentity : rct_type / 7 ≠ 0 := by
    omega
  have untouched :
      ∀ rows : List Nat,
        rows.foldl (invRCTLine (rct_type / 7) (rct_type % 7) begin_c w)
            image = image := by
    intro rows
    induction rows with
    | nil =>
        rfl
    | cons y rest inductionHypothesis =>
        rw [List.foldl_cons, invRCTLine_skipped notIdentity wide,
          inductionHypothesis]
  rw [invRCT_eq three valid (by omega), if_neg coded, untouched]

/-- A pixel that no coded permutation leaves alone. -/
def movedPixel
    (place : Nat) :
    Int32 :=
  if place = 0 then 1 else if place = 1 then 2 else 4

theorem fwdRCTValue_movedPixel :
    ∀ rct_type,
      rct_type < 42 →
      7 ≤ rct_type →
      rct_type % 7 ≠ 0 →
      ∃ place, place ≤ 2 ∧
        fwdRCTValue (rct_type / 7) (rct_type % 7) movedPixel place ≠
          movedPixel place := by
  decide +kernel

/-- A skipped inverse transform is noticed as soon as one pixel has moved. -/
theorem not_rctRestores
    (three : ThreeEqual image begin_c w h)
    (valid : rct_type < 42)
    (skipped : ¬ RctHandled rct_type w h)
    (moved :
      ∀ place,
        place ≤ 2 →
        (image.chan (begin_c + place)).sample 0 0 = movedPixel place) :
    ¬ RctRestores image begin_c rct_type := by
  unfold RctHandled at skipped
  simp only [not_or, Nat.not_lt, Nat.not_le] at skipped
  obtain ⟨coded, permuted, wide, notEmpty⟩ := skipped
  have tall : 0 < h :=
    Nat.pos_of_ne_zero notEmpty
  have narrow : 0 < w :=
    Nat.zero_lt_of_lt wide
  have forward :=
    (rewritesRow_fwdRCTLine (rct_type / 7) (rct_type % 7)
      begin_c).recoloured three
  have threeCoded := three.congr forward.length forward.size
  rintro ⟨between, restored, isCoded, isRestored, same⟩
  rw [fwdRCT_eq three valid (by omega)] at isCoded
  cases isCoded
  rw [invRCT_skipped threeCoded valid coded permuted wide] at isRestored
  cases isRestored
  obtain ⟨place, small, differs⟩ :=
    fwdRCTValue_movedPixel rct_type valid permuted coded
  have inside : begin_c + place < image.channels.length := by
    have last := three.inside
    omega
  have unchanged :=
    (same.chan inside).sample 0 0 (three.height place small ▸ tall)
      (three.width place small ▸ narrow)
  rw [forward.inside place 0 0 small tall narrow, moved place small]
    at unchanged
  refine differs (Eq.trans ?_ unchanged)
  have sources :
      rctSource0 (rct_type / 7) ≤ 2 ∧ rctSource1 (rct_type / 7) ≤ 2 ∧
        rctSource2 (rct_type / 7) ≤ 2 :=
    ⟨Nat.le_of_lt_succ (Nat.mod_lt _ (by decide)),
      Nat.le_of_lt_succ (Nat.mod_lt _ (by decide)),
      Nat.le_of_lt_succ (Nat.mod_lt _ (by decide))⟩
  unfold fwdRCTValue
  simp only [moved _ sources.1, moved _ sources.2.1, moved _ sources.2.2]

/-- An image with the moved pixel everywhere in three of its channels. -/
def movedImage
    (shape : Image)
    (begin_c : Nat) :
    Image :=
  { channels :=
      shape.channels.mapIdx (fun position channel =>
        { channel with
          sample := fun _ _ => movedPixel (position - begin_c) }) }

theorem sameSizes_movedImage
    (shape : Image)
    (begin_c : Nat) :
    (movedImage shape begin_c).SameSizes shape := by
  refine List.forall₂_iff_get.2 ⟨by simp [movedImage], ?_⟩
  intro position inMoved inShape
  simp only [movedImage, List.get_eq_getElem, List.getElem_mapIdx]
  exact ⟨rfl, rfl, rfl, rfl⟩

theorem sample_movedImage
    {shape : Image}
    {begin_c place : Nat}
    (inside : begin_c + place < shape.channels.length)
    (row column : Nat) :
    ((movedImage shape begin_c).chan (begin_c + place)).sample row column =
      movedPixel place := by
  unfold Image.chan movedImage
  rw [List.getD_eq_getElem _ _ (by simpa using inside)]
  simp only [List.getElem_mapIdx, Nat.add_sub_cancel_left]

theorem ThreeEqual.of_sameSizes
    {image shape : Image}
    (three : ThreeEqual shape begin_c w h)
    (same : image.SameSizes shape) :
    ThreeEqual image begin_c w h := by
  have inside := three.inside
  have length : image.channels.length = shape.channels.length :=
    List.Forall₂.length_eq same
  have size :
      ∀ place,
        place ≤ 2 →
        (image.chan (begin_c + place)).SameSize
          (shape.chan (begin_c + place)) := by
    intro place small
    unfold Image.chan
    rw [List.getD_eq_getElem _ _ (by omega),
      List.getD_eq_getElem _ _ (by omega)]
    exact (List.forall₂_iff_get.1 same).2 _ (by omega) (by omega)
  refine ⟨length ▸ inside, ?_, ?_⟩
  · intro place small
    rw [(size place small).w, three.width place small]
  · intro place small
    rw [(size place small).h, three.height place small]

/--
The inverse colour transform gives every image of a size back exactly if the
type does not permute, does nothing but permute, or the rows fit its buffers.
-/
theorem invRCT_fwdRCT_iff
    (shape : Image)
    (begin_c rct_type w h : Nat)
    (three : ThreeEqual shape begin_c w h)
    (valid : rct_type < 42) :
    (∀ image, image.SameSizes shape → RctRestores image begin_c rct_type) ↔
      rct_type % 7 = 0 ∨ rct_type < 7 ∨ w ≤ kRctBufferSize ∨ h = 0 := by
  constructor
  · intro restores
    by_contra skipped
    refine not_rctRestores
      (three.of_sameSizes (sameSizes_movedImage shape begin_c)) valid skipped
      ?_ (restores _ (sameSizes_movedImage shape begin_c))
    intro place small
    have inside := three.inside
    exact sample_movedImage (by omega) 0 0
  · intro handled image same
    exact rctRestores_of_handled (three.of_sameSizes same) valid handled

/-- An image of one row whose three channels are wider than the buffers. -/
def wideImage : Image :=
  movedImage
    { channels := List.replicate 3 (Channel.create 4097 1 0 0) } 0

theorem threeEqual_wideImage : ThreeEqual wideImage 0 4097 1 := by
  refine ⟨by decide, ?_, ?_⟩
  · intro place small
    interval_cases place <;> rfl
  · intro place small
    interval_cases place <;> rfl

theorem invRCT_fwdRCT_iff_wideImage :
    (∀ image, image.SameSizes wideImage → RctRestores image 0 13) ↔
      13 % 7 = 0 ∨ 13 < 7 ∨ 4097 ≤ kRctBufferSize ∨ 1 = 0 :=
  invRCT_fwdRCT_iff wideImage 0 13 4097 1 threeEqual_wideImage (by decide)

/-- A wide image that a permuting transform of luma and chroma loses. -/
theorem not_rctRestores_wideImage :
    ¬ RctRestores wideImage 0 13 := by
  refine not_rctRestores threeEqual_wideImage (by decide) ?_ ?_
  · unfold RctHandled kRctBufferSize
    decide
  · intro place small
    interval_cases place <;> rfl

end Jxlz.Modular
