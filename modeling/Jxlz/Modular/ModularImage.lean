import Mathlib
import Jxlz.Base.Checked
import Jxlz.Lib.Meets

namespace Jxlz

/-!
# Modular images

Mirrors the parts of `options.zig` and `modular_image.zig` that pixel coding
uses.  A sample is an `Int32`; sums of samples are taken in 64 bits, which no
fixed number of terms can overflow, so wide values are plain integers.  The rows
of a channel do not overlap, so a channel is a function of row and column.
-/

/-- The predictors of a decision tree leaf, in the order of their numbers. -/
inductive Predictor where
  | zero
  | left
  | top
  | average0
  | select
  | gradient
  | weighted
  | top_right
  | top_left
  | left_left
  | average1
  | average2
  | average3
  | average4
  | best
  | variable
  deriving Repr, DecidableEq, Inhabited

/-- The number that `@enumFromInt` and `@intFromEnum` exchange. -/
def Predictor.tag
    (self : Predictor) :
    Nat :=
  self.ctorIdx

/-- The predictor with a given number. -/
def Predictor.ofTag : Nat → Option Predictor
  | 0 => some .zero
  | 1 => some .left
  | 2 => some .top
  | 3 => some .average0
  | 4 => some .select
  | 5 => some .gradient
  | 6 => some .weighted
  | 7 => some .top_right
  | 8 => some .top_left
  | 9 => some .left_left
  | 10 => some .average1
  | 11 => some .average2
  | 12 => some .average3
  | 13 => some .average4
  | 14 => some .best
  | 15 => some .variable
  | _ => none

theorem Predictor.ofTag_tag
    (predictor : Predictor) :
    Predictor.ofTag predictor.tag = some predictor := by
  cases predictor <;> rfl

/-- The properties that do not depend on the pixel: channel and group. -/
def kNumStaticProperties : Nat := 2

/-- A plane of samples. -/
structure Channel where
  w : Nat
  h : Nat
  hshift : Int := 0
  vshift : Int := 0
  sample : Nat → Nat → Int32 := fun _ _ => 0

namespace Channel

/-- A channel filled with zeros. -/
def create
    (w h : Nat)
    (hshift vshift : Int) :
    Channel :=
  { w, h, hshift, vshift }

/-- `row(y)[x] = value`. -/
def set
    (self : Channel)
    (y x : Nat)
    (value : Int32) :
    Channel :=
  { self with
    sample := fun row column =>
      if row = y ∧ column = x then value else self.sample row column }

theorem sample_set
    (self : Channel)
    (y x row column : Nat)
    (value : Int32) :
    (self.set y x value).sample row column =
      if row = y ∧ column = x then value else self.sample row column :=
  rfl

/-- `row(y)`. -/
def row
    (self : Channel)
    (y : Nat) :
    Nat → Int32 :=
  self.sample y

/-- `@memcpy(row(y), values)`. -/
def setRow
    (self : Channel)
    (y : Nat)
    (values : Nat → Int32) :
    Channel :=
  { self with
    sample := fun row column =>
      if row = y ∧ column < self.w then values column
      else self.sample row column }

theorem sample_setRow
    (self : Channel)
    (y row column : Nat)
    (values : Nat → Int32) :
    (self.setRow y values).sample row column =
      if row = y ∧ column < self.w then values column
      else self.sample row column :=
  rfl

/-- Two planes of one size and one position in the frame. -/
structure SameSize
    (first second : Channel) :
    Prop where
  w : first.w = second.w
  h : first.h = second.h
  hshift : first.hshift = second.hshift
  vshift : first.vshift = second.vshift

/-- Two planes that hold the same samples. -/
structure Same
    (first second : Channel) :
    Prop extends SameSize first second where
  sample :
    ∀ row column,
      row < second.h →
      column < second.w →
      first.sample row column = second.sample row column

theorem SameSize.refl
    (self : Channel) :
    self.SameSize self :=
  ⟨rfl, rfl, rfl, rfl⟩

theorem SameSize.trans
    {first second third : Channel}
    (left : first.SameSize second)
    (right : second.SameSize third) :
    first.SameSize third :=
  ⟨left.w.trans right.w, left.h.trans right.h,
    left.hshift.trans right.hshift, left.vshift.trans right.vshift⟩

theorem sameSize_setRow
    (self : Channel)
    (y : Nat)
    (values : Nat → Int32) :
    (self.setRow y values).SameSize self :=
  ⟨rfl, rfl, rfl, rfl⟩

theorem Same.refl
    (self : Channel) :
    self.Same self :=
  ⟨.refl self, fun _ _ _ _ => rfl⟩

end Channel

/-- The channels of an image. -/
structure Image where
  channels : List Channel

namespace Image

/-- `channels.items[chan]`, for an index in range. -/
def chan
    (self : Image)
    (chan : Nat) :
    Channel :=
  self.channels.getD chan { w := 0, h := 0 }

/-- The image after a row of one of its channels was written. -/
def setRow
    (self : Image)
    (chan y : Nat)
    (values : Nat → Int32) :
    Image :=
  { channels := self.channels.modify chan (·.setRow y values) }

@[simp]
theorem length_setRow
    (self : Image)
    (chan y : Nat)
    (values : Nat → Int32) :
    (self.setRow chan y values).channels.length = self.channels.length :=
  List.length_modify _ _ _

theorem chan_setRow
    (self : Image)
    {chan : Nat}
    (inside : chan < self.channels.length)
    (y : Nat)
    (values : Nat → Int32)
    (position : Nat) :
    (self.setRow chan y values).chan position =
      if position = chan then (self.chan position).setRow y values
      else self.chan position := by
  unfold setRow Image.chan
  by_cases at_chan : position = chan
  · subst at_chan
    simp [List.getD_eq_getElem?_getD, inside]
  · have other : ¬ chan = position :=
      fun same => at_chan same.symm
    simp [List.getD_eq_getElem?_getD, at_chan, other]

theorem sameSize_chan_setRow
    (self : Image)
    (chan y : Nat)
    (values : Nat → Int32)
    (position : Nat) :
    ((self.setRow chan y values).chan position).SameSize
      (self.chan position) := by
  unfold setRow Image.chan
  simp only [List.getD_eq_getElem?_getD, List.getElem?_modify]
  cases self.channels[position]? with
  | none =>
      exact .refl _
  | some channel =>
      by_cases at_chan : chan = position
      · simpa [at_chan] using Channel.sameSize_setRow channel y values
      · simpa [at_chan] using Channel.SameSize.refl channel

/-- Two images whose channels have the same sizes. -/
def SameSizes
    (first second : Image) :
    Prop :=
  List.Forall₂ Channel.SameSize first.channels second.channels

/-- Two images with the same channels and samples. -/
def Same
    (first second : Image) :
    Prop :=
  List.Forall₂ Channel.Same first.channels second.channels

theorem same_of_chan
    {first second : Image}
    (length : first.channels.length = second.channels.length)
    (same :
      ∀ position,
        position < second.channels.length →
        (first.chan position).Same (second.chan position)) :
    first.Same second := by
  refine List.forall₂_iff_get.2 ⟨length, ?_⟩
  intro position inFirst inSecond
  have samePlane := same position inSecond
  unfold chan at samePlane
  rw [List.getD_eq_getElem _ _ inFirst,
    List.getD_eq_getElem _ _ inSecond] at samePlane
  exact samePlane

theorem Same.length
    {first second : Image}
    (same : first.Same second) :
    first.channels.length = second.channels.length :=
  List.Forall₂.length_eq same

theorem Same.chan
    {first second : Image}
    (same : first.Same second)
    {position : Nat}
    (inside : position < second.channels.length) :
    (first.chan position).Same (second.chan position) := by
  have inFirst : position < first.channels.length :=
    same.length ▸ inside
  unfold Image.chan
  rw [List.getD_eq_getElem _ _ inFirst, List.getD_eq_getElem _ _ inside]
  exact (List.forall₂_iff_get.1 same).2 position inFirst inside

/-- The image after one of its channels was written. -/
def setChannel
    (self : Image)
    (chan : Nat)
    (channel : Channel) :
    Image :=
  { channels := self.channels.set chan channel }

end Image

/--
An image with what its transforms keep about it: how many of the first channels
are meta channels, and the depth of its samples.
-/
structure ModularImage extends Image where
  nb_meta_channels : Nat := 0
  bitdepth : Int := 8

end Jxlz

namespace Jxlz.Modular

open Except

/-!
# Loops over a run of channels

A forward loop replaces each channel of a run and puts another one in behind
the run or at the end of the list; the inverse loop reads both again.  What one
round does to its channels gives what the loop does to the list.
-/

section Lists

variable {α : Type}

theorem set_append_length
    (front back : List α)
    (old item : α) :
    (front ++ old :: back).set front.length item = front ++ item :: back := by
  rw [List.set_append_right _ _ (Nat.le_refl _), Nat.sub_self,
    List.set_cons_zero]

theorem insertIdx_append_length
    (front back : List α)
    (item : α) :
    (front ++ back).insertIdx front.length item = front ++ item :: back := by
  induction front with
  | nil =>
      rfl
  | cons head tail inductionHypothesis =>
      simp only [List.cons_append, List.length_cons, List.insertIdx_succ_cons,
        inductionHypothesis]

theorem getElem?_append_length
    (front back : List α)
    (item : α) :
    (front ++ item :: back)[front.length]? = some item := by
  rw [List.getElem?_append_right (Nat.le_refl _), Nat.sub_self,
    List.getElem?_cons_zero]

/-- Removing an index again and again takes away a run of items. -/
theorem foldl_eraseIdx_append
    (front middle back : List α) :
    (List.range middle.length).foldl
        (fun items _ => items.eraseIdx front.length) (front ++ middle ++ back) =
      front ++ back := by
  induction middle with
  | nil =>
      rw [List.append_nil]
      rfl
  | cons head tail inductionHypothesis =>
      rw [List.length_cons, List.range_succ_eq_map, List.foldl_cons,
        List.foldl_map, List.append_assoc, List.cons_append,
        List.eraseIdx_append_of_length_le (Nat.le_refl _), Nat.sub_self,
        List.eraseIdx_zero, List.tail_cons, ← List.append_assoc]
      exact inductionHypothesis

end Lists

/-- A list of channels, some of them replaced and others put in. -/
def splitList
    (front between back : List Channel)
    (pairs : List (Channel × Channel)) :
    List Channel :=
  front ++ pairs.map Prod.fst ++ between ++ pairs.map Prod.snd ++ back

variable {allowed : Fault → Prop}
variable {step : ModularImage → Nat → Checked ModularImage}
variable {beginc offset : Nat}

/-- A round replaces a channel and puts another one in. -/
def Splits
    (allowed : Fault → Prop)
    (step : ModularImage → Nat → Checked ModularImage)
    (beginc offset : Nat)
    (R : Channel → Channel × Channel → Prop)
    (before : Channel) :
    Prop :=
  ∀ image place,
    image.channels[beginc + place]? = some before →
    offset + place ≤ image.channels.length →
    Meets allowed (step image place) fun after =>
      ∃ out res,
        after =
            { image with
              channels :=
                (image.channels.set (beginc + place) out).insertIdx
                  (offset + place) res } ∧
          R before (out, res)

/-- A round restores a channel from two. -/
def Joins
    (allowed : Fault → Prop)
    (step : ModularImage → Nat → Checked ModularImage)
    (beginc offset limit : Nat)
    (S : Channel → Channel → Prop)
    (before : Channel)
    (pair : Channel × Channel) :
    Prop :=
  ∀ image place,
    place < limit →
    image.channels[beginc + place]? = some pair.1 →
    image.channels[offset + place]? = some pair.2 →
    Meets allowed (step image place) fun after =>
      ∃ restored,
        after =
            { image with
              channels :=
                image.channels.set (beginc + place) restored } ∧
          S restored before

/-- A loop of rounds that split the channels of a run. -/
theorem meets_splits
    {R : Channel → Channel × Channel → Prop}
    {image : ModularImage}
    {front mids between back : List Channel}
    {start : Nat}
    (splits : ∀ before ∈ mids, Splits allowed step beginc offset R before)
    (channels : image.channels = front ++ mids ++ between ++ back)
    (first : beginc + start = front.length)
    (firstResidual : offset + start = (front ++ mids ++ between).length) :
    Meets allowed ((List.range' start mids.length).foldlM step image)
      fun after =>
        ∃ pairs,
          after = { image with channels := splitList front between back pairs } ∧
            List.Forall₂ R mids pairs := by
  induction mids generalizing image front between start with
  | nil =>
      refine meets_ok ⟨[], ?_, .nil⟩
      simp only [splitList, List.map_nil, List.append_nil] at channels ⊢
      rw [← channels]
  | cons before mids inductionHypothesis =>
      have split :
          image.channels = front ++ before :: (mids ++ between ++ back) := by
        simp only [channels, List.append_assoc, List.cons_append]
      have isChannel : image.channels[beginc + start]? = some before := by
        rw [split, first, getElem?_append_length]
      have inside : offset + start ≤ image.channels.length := by
        rw [firstResidual, channels]
        simp only [List.length_append]
        omega
      rw [List.length_cons, List.range'_succ, List.foldlM_cons]
      refine (splits before List.mem_cons_self image start isChannel inside).bind
        ?_
      rintro _ ⟨out, res, rfl, related⟩
      have stored :
          (image.channels.set (beginc + start) out).insertIdx (offset + start)
              res =
            front ++ [out] ++ mids ++ (between ++ [res]) ++ back := by
        have atResidual :
            offset + start = (front ++ out :: (mids ++ between)).length := by
          rw [firstResidual]
          simp only [List.length_append, List.length_cons]
          omega
        rw [split, first, set_append_length, atResidual,
          show front ++ out :: (mids ++ between ++ back) =
            front ++ out :: (mids ++ between) ++ back by simp,
          insertIdx_append_length]
        simp
      rw [stored]
      refine
        (@inductionHypothesis
          { image with
            channels := front ++ [out] ++ mids ++ (between ++ [res]) ++ back }
          (front ++ [out]) (between ++ [res]) (start + 1)
          (fun other member => splits other (List.mem_cons_of_mem _ member)) rfl
          (by simp only [List.length_append, List.length_singleton]; omega)
          (by
            simp only [List.length_append, List.length_cons,
              List.length_nil] at firstResidual ⊢
            omega)).mono ?_
      rintro _ ⟨pairs, rfl, allRelated⟩
      refine ⟨(out, res) :: pairs, ?_, .cons related allRelated⟩
      simp [splitList]

/-- A loop of rounds that join the channels of a run. -/
theorem meets_joins
    {S : Channel → Channel → Prop}
    {image : ModularImage}
    {front mids between back : List Channel}
    {pairs : List (Channel × Channel)}
    {start limit : Nat}
    (joins : List.Forall₂ (Joins allowed step beginc offset limit S) mids pairs)
    (channels : image.channels = splitList front between back pairs)
    (first : beginc + start = front.length)
    (firstResidual :
      offset + start = (front ++ pairs.map Prod.fst ++ between).length)
    (within : start + mids.length ≤ limit) :
    Meets allowed ((List.range' start mids.length).foldlM step image)
      fun after =>
        ∃ restored,
          after =
              { image with
                channels :=
                  front ++ restored ++ between ++ pairs.map Prod.snd ++ back } ∧
            List.Forall₂ S restored mids := by
  unfold splitList at channels
  induction joins generalizing image front between start with
  | nil =>
      refine meets_ok ⟨[], ?_, .nil⟩
      simp only [List.map_nil, List.append_nil] at channels ⊢
      rw [← channels]
  | @cons before pair mids pairs join _ inductionHypothesis =>
      obtain ⟨out, res⟩ := pair
      simp only [List.map_cons, List.length_cons] at channels firstResidual within ⊢
      have split :
          image.channels =
            front ++ out ::
              (pairs.map Prod.fst ++ between ++
                res :: pairs.map Prod.snd ++ back) := by
        rw [channels]
        simp
      have isOut : image.channels[beginc + start]? = some out := by
        rw [split, first, getElem?_append_length]
      have isRes : image.channels[offset + start]? = some res := by
        rw [channels, firstResidual, List.append_assoc, List.cons_append,
          getElem?_append_length]
      rw [List.range'_succ, List.foldlM_cons]
      refine (join image start (by omega) isOut isRes).bind ?_
      rintro _ ⟨restored, rfl, related⟩
      have stored :
          image.channels.set (beginc + start) restored =
            front ++ [restored] ++ pairs.map Prod.fst ++ (between ++ [res]) ++
              pairs.map Prod.snd ++ back := by
        rw [split, first, set_append_length]
        simp
      rw [stored]
      refine
        (@inductionHypothesis
          { image with
            channels :=
              front ++ [restored] ++ pairs.map Prod.fst ++
                (between ++ [res]) ++ pairs.map Prod.snd ++ back }
          (front ++ [restored]) (between ++ [res]) (start + 1) rfl
          (by simp only [List.length_append, List.length_singleton]; omega)
          (by
            simp only [List.length_append, List.length_cons,
              List.length_nil] at firstResidual ⊢
            omega)
          (by omega)).mono ?_
      rintro _ ⟨others, rfl, allRelated⟩
      refine ⟨restored :: others, ?_, .cons related allRelated⟩
      simp

end Jxlz.Modular
