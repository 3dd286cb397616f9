import Jxlz.Base.Checked
import Jxlz.Modular.ModularImage

namespace Jxlz.Modular

/-!
# The reversible colour transform

Mirrors `fwdRCT` and `invRCT` of `transform.zig`.  A type is a permutation of
three channels together with one of seven ways to code a pixel's second and
third value relative to the others.  Sample arithmetic wraps.
-/

/-- Wrapping addition of two samples. -/
def pixelAdd
    (a b : Int32) :
    Int32 :=
  a + b

/-- Wrapping subtraction of two samples. -/
def pixelSub
    (a b : Int32) :
    Int32 :=
  a - b

/-- The body of the loop of `fwdRCTRow`: one pixel. -/
def fwdRCTPixel
    (transform_type : Nat)
    (First Second_v Third_v : Int32) :
    Int32 × Int32 × Int32 :=
  let second := transform_type >>> 1
  let third := transform_type &&& 1
  if transform_type = 6 then
    let o1 := pixelSub First Third_v
    let tmp := pixelAdd Third_v (o1 >>> 1)
    let o2 := pixelSub Second_v tmp
    (pixelAdd tmp (o2 >>> 1), o1, o2)
  else
    let coded :=
      if second = 1 then
        pixelSub Second_v First
      else if second = 2 then
        pixelSub Second_v (pixelAdd First Third_v >>> 1)
      else
        Second_v
    (First, coded, if third ≠ 0 then pixelSub Third_v First else Third_v)

/-- The body of the loop of `invRCTRow`.  Half a sample can always be negated. -/
def invRCTPixel
    (transform_type : Nat)
    (in0 in1 in2 : Int32) :
    Int32 × Int32 × Int32 :=
  let second := transform_type >>> 1
  let third := transform_type &&& 1
  if transform_type = 6 then
    let Y := pixelAdd in0 (-(in2 >>> 1))
    let G := pixelAdd in2 Y
    let B := pixelAdd Y (-(in1 >>> 1))
    let R := pixelAdd B in1
    (R, G, B)
  else
    let Third_v := if third ≠ 0 then pixelAdd in2 in0 else in2
    let Second_v :=
      if second = 1 then
        pixelAdd in1 in0
      else if second = 2 then
        pixelAdd in1 (pixelAdd in0 Third_v >>> 1)
      else
        in1
    (in0, Second_v, Third_v)

/-- A pixel loop over three rows into three rows. -/
def mapRows
    (pixel : Int32 → Int32 → Int32 → Int32 × Int32 × Int32)
    (in0 in1 in2 : Nat → Int32) :
    (Nat → Int32) × (Nat → Int32) × (Nat → Int32) :=
  (fun x => (pixel (in0 x) (in1 x) (in2 x)).1,
    fun x => (pixel (in0 x) (in1 x) (in2 x)).2.1,
    fun x => (pixel (in0 x) (in1 x) (in2 x)).2.2)

def fwdRCTRow
    (transform_type : Nat)
    (in0 in1 in2 : Nat → Int32) :
    (Nat → Int32) × (Nat → Int32) × (Nat → Int32) :=
  mapRows (fwdRCTPixel transform_type) in0 in1 in2

def invRCTRow
    (transform_type : Nat)
    (in0 in1 in2 : Nat → Int32) :
    (Nat → Int32) × (Nat → Int32) × (Nat → Int32) :=
  mapRows (invRCTPixel transform_type) in0 in1 in2

/-- The source channel of the first value; subtraction saturates in the third. -/
def rctSource0
    (permutation : Nat) :
    Nat :=
  permutation % 3

def rctSource1
    (permutation : Nat) :
    Nat :=
  (permutation + 1 + permutation / 3) % 3

def rctSource2
    (permutation : Nat) :
    Nat :=
  (permutation + 2 - permutation / 3) % 3

/-- One row of `fwdRCT`, through the three row buffers. -/
def fwdRCTLine
    (permutation custom m : Nat)
    (image : Image)
    (y : Nat) :
    Image :=
  let in0 := (image.chan (m + rctSource0 permutation)).row y
  let in1 := (image.chan (m + rctSource1 permutation)).row y
  let in2 := (image.chan (m + rctSource2 permutation)).row y
  let (buf0, buf1, buf2) := fwdRCTRow custom in0 in1 in2
  ((image.setRow m y buf0).setRow (m + 1) y buf1).setRow (m + 2) y buf2

def fwdRCT
    (image : Image)
    (begin_c rct_type : Nat) :
    Checked Image :=
  if rct_type = 0 then
    .ok image
  else
    let permutation := rct_type / 7
    if 6 ≤ permutation then
      fail .GenericError
    else
      let custom := rct_type % 7
      let m := begin_c
      if image.channels.length ≤ m + 2 then
        fail .GenericError
      else
        let w := (image.chan m).w
        let h := (image.chan m).h
        if (image.chan (m + 1)).w ≠ w ∨ (image.chan (m + 2)).w ≠ w then
          fail .GenericError
        else if (image.chan (m + 1)).h ≠ h ∨ (image.chan (m + 2)).h ≠ h then
          fail .GenericError
        else
          .ok ((List.range h).foldl (fwdRCTLine permutation custom m) image)

/-- The widest row that the stack buffers of `invRCT` hold. -/
def kRctBufferSize : Nat := 4096

/-- One row of `invRCT`. -/
def invRCTLine
    (permutation custom m w : Nat)
    (image : Image)
    (y : Nat) :
    Image :=
  let in0 := (image.chan m).row y
  let in1 := (image.chan (m + 1)).row y
  let in2 := (image.chan (m + 2)).row y
  let (buf0, buf1, buf2) := invRCTRow custom in0 in1 in2
  if kRctBufferSize < w then
    -- A wide row is rewritten in place, and only if nothing is permuted.  Each
    -- pixel is read before it is written, so this is the buffered result.
    if permutation = 0 then
      ((image.setRow m y buf0).setRow (m + 1) y buf1).setRow (m + 2) y buf2
    else
      image
  else
    ((image.setRow (m + rctSource0 permutation) y buf0).setRow
      (m + rctSource1 permutation) y buf1).setRow
        (m + rctSource2 permutation) y buf2

/-- The permutation alone: three swaps of the sample arrays. -/
def swapData
    (image : Image)
    (permutation m : Nat) :
    Image :=
  let tmp0 := (image.chan m).sample
  let tmp1 := (image.chan (m + 1)).sample
  let tmp2 := (image.chan (m + 2)).sample
  { channels :=
      ((image.channels.modify (m + rctSource0 permutation)
        ({ · with sample := tmp0 })).modify (m + rctSource1 permutation)
          ({ · with sample := tmp1 })).modify (m + rctSource2 permutation)
            ({ · with sample := tmp2 }) }

def invRCT
    (image : Image)
    (begin_c rct_type : Nat) :
    Checked Image :=
  if rct_type = 0 then
    .ok image
  else
    let permutation := rct_type / 7
    if 6 ≤ permutation then
      fail .GenericError
    else
      let custom := rct_type % 7
      let m := begin_c
      if image.channels.length ≤ m + 2 then
        fail .GenericError
      else
        let w := (image.chan m).w
        let h := (image.chan m).h
        if custom = 0 then
          .ok (swapData image permutation m)
        else
          .ok ((List.range h).foldl (invRCTLine permutation custom m w) image)

/-- The inverse pixel loop undoes the forward one, whatever the values are. -/
theorem invRCTPixel_fwdRCTPixel
    (transform_type : Nat)
    (First Second_v Third_v : Int32) :
    let coded := fwdRCTPixel transform_type First Second_v Third_v
    invRCTPixel transform_type coded.1 coded.2.1 coded.2.2 =
      (First, Second_v, Third_v) := by
  unfold fwdRCTPixel invRCTPixel
  by_cases ycocg : transform_type = 6
  · simp only [ycocg, if_true, Prod.mk.injEq, pixelAdd, pixelSub]
    refine ⟨?_, ?_, ?_⟩ <;> grind
  · simp only [ycocg, if_false, Prod.mk.injEq, pixelAdd, true_and, pixelSub]
    split_ifs <;> simp only [Int32.sub_add_cancel, and_self]

/--
A step of a row loop: it rewrites one row of three neighbouring channels, from
that row alone.
-/
structure RewritesRow
    (m : Nat)
    (value : (Nat → Int32) → Nat → Int32)
    (line : Image → Nat → Image) :
    Prop where
  length :
    ∀ image y,
      (line image y).channels.length = image.channels.length
  size :
    ∀ image y position,
      ((line image y).chan position).SameSize (image.chan position)
  sample :
    ∀ image y,
      m + 2 < image.channels.length →
      ∀ position row column,
        ((line image y).chan position).sample row column =
          if row = y ∧ column < (image.chan position).w ∧
              m ≤ position ∧ position ≤ m + 2 then
            value (fun place => (image.chan (m + place)).sample y column)
              (position - m)
          else
            (image.chan position).sample row column

/-- The rows that a row loop has rewritten, and the rows that it has not. -/
theorem RewritesRow.run
    {m : Nat}
    {value : (Nat → Int32) → Nat → Int32}
    {line : Image → Nat → Image}
    (step : RewritesRow m value line)
    (image : Image)
    (inside : m + 2 < image.channels.length)
    (rows : Nat) :
    let result := (List.range rows).foldl line image
    result.channels.length = image.channels.length ∧
      (∀ position,
        (result.chan position).SameSize (image.chan position)) ∧
      ∀ position row column,
        (result.chan position).sample row column =
          if row < rows ∧ column < (image.chan position).w ∧
              m ≤ position ∧ position ≤ m + 2 then
            value (fun place => (image.chan (m + place)).sample row column)
              (position - m)
          else
            (image.chan position).sample row column := by
  induction rows with
  | zero =>
      refine ⟨rfl, fun position => .refl _, ?_⟩
      intro position row column
      simp
  | succ rows inductionHypothesis =>
      obtain ⟨length, size, sample⟩ := inductionHypothesis
      rw [List.range_succ, List.foldl_append]
      simp only [List.foldl_cons, List.foldl_nil]
      refine ⟨(step.length _ _).trans length,
        fun position => (step.size _ _ position).trans (size position), ?_⟩
      intro position row column
      rw [step.sample _ _ (length ▸ inside), (size position).w]
      by_cases thisRow : row = rows
      · -- the row that this step rewrites is still the original one
        subst thisRow
        have original :
            ∀ place,
              (((List.range row).foldl line image).chan
                  (m + place)).sample row column =
                (image.chan (m + place)).sample row column := by
          intro place
          rw [sample]
          simp
        simp only [original, sample]
        simp
      · have sameRows : row < rows + 1 ↔ row < rows := by
          omega
        simp only [thisRow, false_and, if_false, sample, sameRows]

/-- Writing one row of three neighbouring channels in any order. -/
theorem sample_setRows
    (image : Image)
    {m a b c : Nat}
    (inside : m + 2 < image.channels.length)
    (order : [a, b, c].Perm [0, 1, 2])
    (y : Nat)
    (row0 row1 row2 : Nat → Int32)
    (position row column : Nat) :
    ((((image.setRow (m + a) y row0).setRow (m + b) y row1).setRow
        (m + c) y row2).chan position).sample row column =
      if row = y ∧ column < (image.chan position).w ∧
          m ≤ position ∧ position ≤ m + 2 then
        if position - m = c then row2 column
        else if position - m = b then row1 column
        else row0 column
      else
        (image.chan position).sample row column := by
  have distinct : [a, b, c].Nodup :=
    order.nodup_iff.2 (by decide)
  have bounded : ∀ place ∈ [a, b, c], place ≤ 2 := by
    intro place member
    have listed := order.subset member
    simp only [List.mem_cons, List.not_mem_nil, or_false] at listed
    omega
  have covers : ∀ place, place ≤ 2 → place = a ∨ place = b ∨ place = c := by
    intro place small
    have listed : place ∈ [0, 1, 2] := by
      simp only [List.mem_cons, List.not_mem_nil, or_false]
      omega
    simpa using order.symm.subset listed
  simp only [List.mem_cons, List.not_mem_nil, or_false, forall_eq_or_imp,
    forall_eq] at bounded
  obtain ⟨boundA, boundB, boundC⟩ := bounded
  simp only [List.nodup_cons, List.mem_cons, List.not_mem_nil, or_false,
    not_or] at distinct
  rw [Image.chan_setRow _ (by simp only [Image.length_setRow]; omega),
    Image.chan_setRow _ (by simp only [Image.length_setRow]; omega),
    Image.chan_setRow _ (by omega)]
  by_cases near : m ≤ position ∧ position ≤ m + 2
  · obtain ⟨place, rfl⟩ := Nat.exists_eq_add_of_le near.1
    have small : place ≤ 2 := by
      omega
    simp only [Nat.add_sub_cancel_left, Nat.add_left_cancel_iff,
      Nat.le_add_right, Nat.add_le_add_iff_left, small, and_true]
    rcases covers place small with rfl | rfl | rfl
    · simp [distinct.1.1, distinct.1.2, Channel.sample_setRow]
    · simp [distinct.2.1, Ne.symm distinct.1.1, Channel.sample_setRow]
    · simp [Ne.symm distinct.1.2, Ne.symm distinct.2.1, Channel.sample_setRow]
  · have notA : position ≠ m + a := by
      omega
    have notB : position ≠ m + b := by
      omega
    have notC : position ≠ m + c := by
      omega
    simp only [notA, notB, notC, near, and_false, if_false]

end Jxlz.Modular
