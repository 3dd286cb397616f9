import Jxlz.Lib.Meets
import Jxlz.Modular.ModularImage
import Jxlz.Modular.Palette
import Jxlz.Modular.RctRoundTrip

namespace Jxlz.Channel

/-- The width and the height of a plane. -/
def size
    (self : Channel) :
    Nat × Nat :=
  (self.w, self.h)

end Jxlz.Channel

namespace Jxlz.Modular

open Except

/-!
# The structure of an image

The number of channels, their sizes and the number of meta channels.  Undoing a
transform restores the structure, whatever samples were decoded in between.
-/

/-- The sizes of the channels. -/
def sizes
    (image : ModularImage) :
    List (Nat × Nat) :=
  image.channels.map Channel.size

/-- Two images of one structure. -/
structure SameShape
    (first second : ModularImage) :
    Prop where
  sizes : sizes first = sizes second
  nb_meta_channels : first.nb_meta_channels = second.nb_meta_channels

theorem SameShape.length
    {first second : ModularImage}
    (same : SameShape first second) :
    first.channels.length = second.channels.length := by
  have lengths := congrArg List.length same.sizes
  rwa [Modular.sizes, Modular.sizes, List.length_map, List.length_map] at lengths

/-- The only failures are errors that the code returns. -/
def Rejects
    (fault : Fault) :
    Prop :=
  ∃ code, fault = .error code

theorem meets_fail
    {α : Type}
    {post : α → Prop}
    (code : JxlError) :
    Meets Rejects (fail code) post :=
  ⟨code, rfl⟩

/-- Neighbouring channels of one size. -/
def EqualRun
    (image : ModularImage)
    (begin_c end_c : Nat)
    (size : Nat × Nat) :
    Prop :=
  ∀ c, begin_c ≤ c → c ≤ end_c → (sizes image)[c]? = some size

/-- The check rejects, or the channels of the run have one size. -/
theorem meets_checkEqualChannels
    {image : ModularImage}
    {begin_c end_c : Nat}
    (ordered : begin_c ≤ end_c) :
    Meets Rejects (checkEqualChannels image begin_c end_c) fun _ =>
      end_c < image.channels.length ∧
        ∃ size, EqualRun image begin_c end_c size := by
  unfold checkEqualChannels
  by_cases outside : image.channels.length ≤ end_c
  · rw [if_pos outside]
    exact meets_fail _
  · have inside : begin_c < image.channels.length := by
      omega
    rw [if_neg outside, index_ok inside, ok_bind]
    split
    next equal =>
      refine meets_ok ⟨Nat.not_le.1 outside, image.channels[begin_c].size, ?_⟩
      intro c lower upper
      have within : c < image.channels.length := by
        omega
      rw [sizes, List.getElem?_map, List.getElem?_eq_getElem within]
      by_cases first : c = begin_c
      · subst first
        rfl
      · have member :
            image.channels[c] ∈
              (image.channels.drop (begin_c + 1)).take (end_c - begin_c) := by
          refine List.mem_iff_getElem?.2 ⟨c - (begin_c + 1), ?_⟩
          rw [List.getElem?_take_of_lt (by omega), List.getElem?_drop,
            show begin_c + 1 + (c - (begin_c + 1)) = c by omega,
            List.getElem?_eq_getElem within]
        have same := List.all_eq_true.1 equal _ member
        simp only [Bool.decide_and, Bool.and_eq_true, decide_eq_true_eq] at same
        exact congrArg some (Prod.ext same.1 same.2)
    next unequal =>
      exact meets_fail _

end Jxlz.Modular
