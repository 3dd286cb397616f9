import Jxlz.Modular.FwdPalette
import Jxlz.Modular.PaletteSamples
import Jxlz.Modular.SpecializedPaths

namespace Jxlz.Modular

/-!
# The choices behind a palette

Whatever order the luma gives, sorting moves the colours of a palette to other
places, and the old places still lead to them.  The choice for a pixel shows the
pixel: a difference on top of its prediction, a colour of the palette, or one
that the decoder makes up.
-/

/-- The colours at their new places. -/
structure Reordered
    (values sorted : List (List Int32))
    (remap : List Nat) :
    Prop where
  count : sorted.length = values.length
  moved :
    ∀ (old_index : Nat) (color : List Int32),
      values[old_index]? = some color →
      ∃ new_index : Nat,
        remap[old_index]? = some new_index ∧ sorted[new_index]? = some color

/-- Inserting the numbers of a range one by one permutes the range. -/
theorem perm_foldl_orderedInsert
    (le : Nat → Nat → Prop)
    [DecidableRel le]
    (count : Nat) :
    ((List.range count).foldl
        (fun sorted current => sorted.orderedInsert le current) []).Perm
      (List.range count) := by
  induction count with
  | zero =>
      exact .refl []
  | succ count inductionHypothesis =>
      rw [List.range_succ, List.foldl_append, List.foldl_cons, List.foldl_nil]
      have inserted :=
        List.perm_orderedInsert le count
          ((List.range count).foldl
            (fun sorted current => sorted.orderedInsert le current) [])
      have behind := (inductionHypothesis.cons count).trans
        (List.perm_append_singleton count (List.range count)).symm
      exact inserted.trans behind

/-- The table leads from every row of a permutation to its place. -/
theorem getElem?_inverseRemap
    {order : List Nat}
    {count : Nat}
    (permutes : order.Perm (List.range count)) :
    ∀ (place item : Nat),
      order[place]? = some item →
      (inverseRemap order count)[item]? = some place := by
  have inOrder : ∀ item ∈ order, item < count :=
    fun item member => List.mem_range.1 (permutes.mem_iff.1 member)
  have different : order.Nodup := permutes.nodup_iff.2 List.nodup_range
  have filled :=
    @foldl_zipIdx (List Nat) Nat
      (fun inverse_remap (item : Nat × Nat) =>
        inverse_remap.set item.1 item.2)
      (fun position inverse_remap =>
        inverse_remap.length = count ∧
          ∀ (place item : Nat),
            place < position →
            order[place]? = some item →
            inverse_remap[item]? = some place)
      (List.replicate count 0) order
      ⟨List.length_replicate,
        fun place _ below => absurd below (Nat.not_lt_zero place)⟩
      ?_
  · intro place item isItem
    exact filled.2 place item (List.getElem?_eq_some_iff.1 isItem).1 isItem
  · rintro position current inverse_remap isCurrent ⟨length, earlier⟩
    refine ⟨by rw [List.length_set, length], ?_⟩
    intro place item below isItem
    have inside : current < inverse_remap.length :=
      length ▸ inOrder current (List.mem_of_getElem? isCurrent)
    rcases Nat.lt_succ_iff_lt_or_eq.1 below with before | rfl
    · have others : current ≠ item := by
        rintro rfl
        have samePlace : place = position :=
          (List.getElem?_inj (List.getElem?_eq_some_iff.1 isItem).1 different).1
            (isItem.trans isCurrent.symm)
        omega
      rw [List.getElem?_set_ne others]
      exact earlier place item before isItem
    · rw [isCurrent] at isItem
      cases isItem
      rw [List.getElem?_set_self inside]

/-- Sorting by luma only moves the colours. -/
theorem reordered
    (lumaLe : List Int32 → List Int32 → Bool)
    (values : List (List Int32))
    (num_channels : Nat) :
    Reordered values
      (reorderExplicitPaletteByLuma lumaLe values num_channels).1
      (reorderExplicitPaletteByLuma lumaLe values num_channels).2 := by
  unfold reorderExplicitPaletteByLuma
  dsimp only
  split
  next small =>
    refine ⟨rfl, ?_⟩
    intro old_index color isColor
    refine ⟨old_index, ?_, isColor⟩
    rw [List.getElem?_range (List.getElem?_eq_some_iff.1 isColor).1]
  next large =>
    have permutes :=
      (List.reverse_perm _).trans
        (perm_foldl_orderedInsert
          (fun current prev =>
            lumaLe (values.getD prev []) (values.getD current []) = true)
          values.length)
    generalize
      ((List.range values.length).foldl
        (fun sorted current =>
          sorted.orderedInsert
            (fun current prev =>
              lumaLe (values.getD prev []) (values.getD current []) = true)
            current)
        []).reverse = order at permutes ⊢
    refine ⟨?_, ?_⟩
    · rw [List.length_map, permutes.length_eq, List.length_range]
    · intro old_index color isColor
      have inside := (List.getElem?_eq_some_iff.1 isColor).1
      obtain ⟨new_index, isOld⟩ :=
        List.mem_iff_getElem?.1
          (permutes.mem_iff.2 (List.mem_range.2 inside))
      refine
        ⟨new_index, getElem?_inverseRemap permutes new_index old_index isOld, ?_⟩
      rw [List.getElem?_map, isOld, Option.map_some,
        List.getD_eq_getElem?_getD, isColor, Option.getD_some]

/-- A choice stands for the samples of the channels at a position. -/
def ChoiceShows
    (channels : List Channel)
    (bit_depth : Int)
    (deltas values : List (List Int32))
    (predictor : Predictor)
    (y x : Nat) :
    IndexChoice → Prop
  | .delta delta_index =>
      ∃ tuple,
        deltas[delta_index]? = some tuple ∧
          ∀ c channel,
            channels[c]? = some channel →
            pixelAdd (predictPalette predictor channel.sample y x)
                (tuple.getD c 0) =
              channel.sample y x
  | .explicit palette_index =>
      values[palette_index]? = some (colorAt channels y x)
  | .implicit implicit_offset =>
      ∀ c channel,
        channels[c]? = some channel →
        getPaletteValue { w := 0, h := 0 } implicit_offset c 0 bit_depth =
          .ok (channel.sample y x)

/-- The choices of the pixels up to a position. -/
structure BuildShows
    (channels : List Channel)
    (bit_depth : Int)
    (deltas : List (List Int32))
    (predictor : Predictor)
    (w position : Nat)
    (build : PaletteBuild) :
    Prop where
  count : build.choices.length = position
  few : build.values.length ≤ position
  shows :
    ∀ (pixel_index : Nat) (choice : IndexChoice),
      build.choices[pixel_index]? = some choice →
      ChoiceShows channels bit_depth deltas build.values predictor
        (pixel_index / w) (pixel_index % w) choice

section

variable {channels : List Channel}
variable {bit_depth : Int}
variable {deltas : List (List Int32)}
variable {predictor : Predictor}
variable {w position : Nat}
variable {build next : PaletteBuild}

/-- A channel that is tested is the one of its number. -/
theorem mem_zipIdx
    {α : Type}
    {items : List α}
    {position : Nat}
    {item : α}
    (isItem : items[position]? = some item) :
    (item, position) ∈ items.zipIdx := by
  rw [List.mk_mem_zipIdx_iff_getElem?]
  exact isItem

/-- The colour that was found behind the palette. -/
theorem implicit_shows
    {y x implicit_offset : Nat}
    (values : List (List Int32))
    (found :
      findImplicitPaletteOffset (colorAt channels y x) bit_depth =
        .ok (some implicit_offset)) :
    ChoiceShows channels bit_depth deltas values predictor y x
      (.implicit implicit_offset) := by
  unfold findImplicitPaletteOffset at found
  split at found
  next colourless =>
    cases found
  next coloured =>
    intro c channel isChannel
    have isValue :
        (colorAt channels y x)[c]? = some (channel.sample y x) := by
      unfold colorAt
      rw [List.getElem?_map, isChannel]
      rfl
    have passed :=
      test_of_allOf (test_of_firstOf found).2 _ (mem_zipIdx isValue)
    obtain ⟨entry, isEntry, same⟩ := bind_eq_ok.1 passed
    have equal : entry = channel.sample y x :=
      of_decide_eq_true (Except.ok.inj same)
    rw [isEntry, equal]

/-- The encoder predicts as the decoder does. -/
theorem predictPaletteSlowPath_eq
    (channel : Channel)
    (x y : Nat)
    (predictor : Predictor) :
    predictPaletteSlowPath channel x y predictor =
      predictPalette predictor channel.sample y x := by
  cases predictor <;> rfl

/-- A residual that did not overflow gives the sample back. -/
theorem pixelAdd_residual
    {actual pred residual : Int32}
    (isResidual : toI32 (actual.toInt - pred.toInt) = .ok residual) :
    pixelAdd pred residual = actual := by
  have isValue := toI32_eq_ok isResidual
  apply Int32.toInt_inj.1
  unfold pixelAdd
  rw [Int32.toInt_add, isValue]
  have sum : pred.toInt + (actual.toInt - pred.toInt) = actual.toInt := by
    omega
  rw [sum]
  exact Int.bmod_eq_of_le (Int32.le_toInt actual) (Int32.toInt_lt actual)

/-- The difference that was found. -/
theorem delta_shows
    {delta_values : List Int32}
    {y x delta_index : Nat}
    (values : List (List Int32))
    (found :
      firstOf (matchesDelta channels delta_values predictor y x)
          (List.range (delta_values.length / channels.length)) =
        .ok (some delta_index)) :
    ChoiceShows channels bit_depth
      ((List.range (delta_values.length / channels.length)).map
        (deltaTuple delta_values channels.length))
      values predictor y x (.delta delta_index) := by
  obtain ⟨member, matched⟩ := test_of_firstOf found
  have inside := List.mem_range.1 member
  refine ⟨deltaTuple delta_values channels.length delta_index, ?_, ?_⟩
  · rw [List.getElem?_map, List.getElem?_range inside]
    rfl
  · intro c channel isChannel
    have passed := test_of_allOf matched _ (mem_zipIdx isChannel)
    obtain ⟨residual, isResidual, passed⟩ := bind_eq_ok.1 passed
    obtain ⟨value, isValue, same⟩ := bind_eq_ok.1 passed
    have equal : value = residual := of_decide_eq_true (Except.ok.inj same)
    have inTuple : c < channels.length :=
      (List.getElem?_eq_some_iff.1 isChannel).1
    have isEntry :
        (deltaTuple delta_values channels.length delta_index).getD c 0 =
          residual := by
      unfold deltaTuple
      rw [List.getD_eq_getElem?_getD, List.getElem?_take, if_pos inTuple,
        List.getElem?_drop, index_eq_ok.1 isValue, Option.getD_some, equal]
    rw [isEntry, ← predictPaletteSlowPath_eq]
    exact pixelAdd_residual isResidual

/-- New colours leave the choices before them as they are. -/
theorem ChoiceShows.grow
    {values : List (List Int32)}
    {y x : Nat}
    {choice : IndexChoice}
    (shows : ChoiceShows channels bit_depth deltas values predictor y x choice)
    (color : List Int32) :
    ChoiceShows channels bit_depth deltas (values ++ [color]) predictor y x
      choice := by
  cases choice with
  | delta delta_index =>
      exact shows
  | explicit palette_index =>
      have inside := (List.getElem?_eq_some_iff.1 shows).1
      exact (List.getElem?_append_left inside).trans shows
  | implicit implicit_offset =>
      exact shows

/-- A choice that shows the next pixel. -/
theorem buildShows_choose
    {choice : IndexChoice}
    (count : build.choices.length = position)
    (few : build.values.length ≤ position + 1)
    (before :
      ∀ (pixel_index : Nat) (choice : IndexChoice),
        build.choices[pixel_index]? = some choice →
        ChoiceShows channels bit_depth deltas build.values predictor
          (pixel_index / w) (pixel_index % w) choice)
    (shows :
      ChoiceShows channels bit_depth deltas build.values predictor
        (position / w) (position % w) choice) :
    BuildShows channels bit_depth deltas predictor w (position + 1)
      (build.choose choice) := by
  refine ⟨?_, few, ?_⟩
  · unfold PaletteBuild.choose
    rw [List.length_append, count]
    rfl
  · intro pixel_index other isOther
    unfold PaletteBuild.choose at isOther ⊢
    dsimp only at isOther ⊢
    rcases Nat.lt_or_ge pixel_index build.choices.length with earlier | last
    · rw [List.getElem?_append_left earlier] at isOther
      exact before pixel_index other isOther
    · have isLast : pixel_index = position := by
        have inside := (List.getElem?_eq_some_iff.1 isOther).1
        rw [List.length_append, count] at inside
        rw [count] at last
        exact Nat.le_antisymm (Nat.le_of_lt_succ inside) last
      subst isLast
      rw [← count, List.getElem?_concat_length] at isOther
      cases isOther
      exact shows

/-- A colour of the palette shows the pixel that it was made for. -/
theorem BuildShows.chooseExplicit
    (before :
      BuildShows channels bit_depth deltas predictor w position build)
    (chosen :
      build.chooseExplicit (colorAt channels (position / w) (position % w)) =
        .ok next) :
    BuildShows channels bit_depth deltas predictor w (position + 1) next := by
  unfold PaletteBuild.chooseExplicit at chosen
  split at chosen
  next found isFound =>
    obtain ⟨palette_index, isIndex, chosen⟩ := bind_eq_ok.1 chosen
    cases chosen
    obtain ⟨rfl, _⟩ := castU_eq_ok isIndex
    obtain ⟨inside, isColor, _⟩ := List.idxOf?_eq_some_iff.1 isFound
    exact buildShows_choose before.count (Nat.le_succ_of_le before.few)
      before.shows (List.getElem?_eq_some_iff.2 ⟨inside, isColor⟩)
  next missing =>
    obtain ⟨new_index, isIndex, chosen⟩ := bind_eq_ok.1 chosen
    cases chosen
    obtain ⟨rfl, _⟩ := castU_eq_ok isIndex
    refine buildShows_choose before.count ?_ ?_ ?_
    · rw [List.length_append, List.length_singleton]
      exact Nat.succ_le_succ before.few
    · intro pixel_index choice isChoice
      exact (before.shows pixel_index choice isChoice).grow _
    · exact List.getElem?_concat_length

/-- A pixel without differences. -/
theorem choosePalette_shows
    {implicit_counts : List Nat}
    (before :
      BuildShows channels bit_depth deltas predictor w position build)
    (chosen :
      choosePalette channels w bit_depth implicit_counts build position =
        .ok next) :
    BuildShows channels bit_depth deltas predictor w (position + 1) next := by
  unfold choosePalette at chosen
  obtain ⟨implicit, isImplicit, chosen⟩ := bind_eq_ok.1 chosen
  cases implicit with
  | none =>
      exact before.chooseExplicit chosen
  | some implicit_offset =>
      obtain ⟨count, isCount, chosen⟩ := bind_eq_ok.1 chosen
      split at chosen
      next rare =>
        cases chosen
        exact buildShows_choose before.count (Nat.le_succ_of_le before.few)
          before.shows (implicit_shows build.values isImplicit)
      next frequent =>
        exact before.chooseExplicit chosen

/-- A pixel that may be a difference. -/
theorem chooseWithDeltas_shows
    {delta_values : List Int32}
    (before :
      BuildShows channels bit_depth
        ((List.range (delta_values.length / channels.length)).map
          (deltaTuple delta_values channels.length))
        predictor w position build)
    (chosen :
      chooseWithDeltas channels bit_depth delta_values
          (delta_values.length / channels.length) predictor (position / w) build
          (position % w) =
        .ok next) :
    BuildShows channels bit_depth
      ((List.range (delta_values.length / channels.length)).map
        (deltaTuple delta_values channels.length))
      predictor w (position + 1) next := by
  unfold chooseWithDeltas at chosen
  obtain ⟨found_delta, isFound, chosen⟩ := bind_eq_ok.1 chosen
  cases found_delta with
  | some delta_index =>
      obtain ⟨number, isNumber, chosen⟩ := bind_eq_ok.1 chosen
      cases chosen
      obtain ⟨rfl, _⟩ := castU_eq_ok isNumber
      exact buildShows_choose before.count (Nat.le_succ_of_le before.few)
        before.shows (delta_shows build.values isFound)
  | none =>
      obtain ⟨implicit, isImplicit, chosen⟩ := bind_eq_ok.1 chosen
      cases implicit with
      | none =>
          exact before.chooseExplicit chosen
      | some implicit_offset =>
          cases chosen
          exact buildShows_choose before.count (Nat.le_succ_of_le before.few)
            before.shows (implicit_shows build.values isImplicit)

end

end Jxlz.Modular

namespace Jxlz.Modular

open ContextPredict

/-!
# The predictions behind a palette

The slow path of `invPalette` knows three predictors and has its own stand-ins
at the edges.  Two of the predictors agree with those of pixel coding at every
position, the left one agrees outside the first column, and every other
predictor is taken for the left one.
-/

/-- The predictor that the slow path uses in the place of another one. -/
def simplePredictor : Predictor → Predictor
  | .zero => .zero
  | .gradient => .gradient
  | _ => .left

/-- Where the slow path's left neighbour is that of pixel coding. -/
def SameEdges
    (predictor : Predictor)
    (y x : Nat) :
    Prop :=
  predictor = .zero ∨ predictor = .gradient ∨ 0 < x ∨ y = 0

/-- A gradient of a sample with itself, or with zeros beside it. -/
theorem clampedGradient_edge
    (sample : Int32) :
    clampedGradient 64 0 sample.toInt 0 = sample.toInt ∧
      clampedGradient 64 sample.toInt sample.toInt sample.toInt =
        sample.toInt := by
  have fits := fitsI32_toInt sample
  rw [clampedGradient_eq ⟨by decide, by decide⟩ fits (by decide),
    clampedGradient_eq fits fits (by decide)]
  constructor
  · split
    next above =>
      omega
    next notAbove =>
      split <;> omega
  · split
    next above =>
      omega
    next notAbove =>
      split <;> omega

/-- The slow path predicts as pixel coding does with the simple predictor. -/
theorem predictPalette_eq_predictOne
    {predictor : Predictor}
    {y x : Nat}
    (sameEdges : SameEdges predictor y x)
    (sample : Nat → Nat → Int32)
    (w : Nat)
    (wpPred : Int) :
    predictPalette predictor sample y x =
      Int32.ofInt
        (predictOne (simplePredictor predictor) (Neighbors.at sample w y x)
          wpPred) := by
  have left :
      0 < x ∨ y = 0 →
        (if 0 < x then sample y (x - 1) else 0) =
          Int32.ofInt (Neighbors.at sample w y x).left := by
    intro edge
    unfold Neighbors.at
    dsimp only
    by_cases inner : 0 < x
    · rw [if_pos inner, if_pos inner, Int32.ofInt_toInt]
    · have first : ¬ 0 < y := by
        omega
      rw [if_neg inner, if_neg inner, if_neg first]
      rfl
  cases predictor with
  | zero =>
      rfl
  | gradient =>
      unfold predictPalette simplePredictor predictOne
      dsimp only
      refine congrArg Int32.ofInt ?_
      rw [← clampedGradient_narrow (fitsI32_toInt _) (fitsI32_toInt _)]
      unfold Neighbors.at
      dsimp only
      by_cases inner : 0 < x
      · by_cases below : 0 < y
        · simp only [if_pos inner, if_pos below, if_pos (And.intro inner below)]
        · have notBoth : ¬ (0 < x ∧ 0 < y) := fun both => below both.2
          simp only [if_pos inner, if_neg below, if_neg notBoth]
      · have notBoth : ¬ (0 < x ∧ 0 < y) := fun both => inner both.1
        by_cases below : 0 < y
        · simp only [if_neg inner, if_pos below, if_neg notBoth]
          obtain ⟨besideZeros, withItself⟩ := clampedGradient_edge (sample (y - 1) x)
          rw [withItself]
          exact besideZeros
        · simp only [if_neg inner, if_neg below, if_neg notBoth]
          rfl
  | _ =>
      refine left ?_
      rcases sameEdges with isZero | isGradient | edge
      · cases isZero
      · cases isGradient
      · exact edge

/--
The differences of a palette follow a predictor of pixel coding: with its
stand-ins at the edges, on the samples that have been restored before.
-/
def DeltasFollow
    (image : ModularImage)
    (t : Transform)
    (rule : Predictor)
    (wpPred : Int)
    (positions : Nat → Nat → Prop) :
    Prop :=
  ∀ restored palette indices,
    invPalette image t.begin_c t.nb_deltas t.predictor = .ok restored →
    image.channels[0]? = some palette →
    image.channels[t.begin_c + 1]? = some indices →
    ∀ c,
      c < palette.h →
      ∃ channel,
        restored.channels[t.begin_c + c]? = some channel ∧
          ∀ y x,
            y < indices.h →
            x < indices.w →
            (indices.sample y x).toInt < t.nb_deltas →
            positions y x →
            ∃ entry,
              getPaletteValue palette (indices.sample y x).toInt
                  c palette.w (min image.bitdepth 24) =
                .ok entry ∧
              channel.sample y x =
                pixelAdd
                  (Int32.ofInt
                    (predictOne rule
                      (Neighbors.at channel.sample indices.w y
                        x)
                      wpPred))
                  entry

/--
The differences of every palette follow the simple predictor, at every position
where the edges are those of pixel coding.
-/
theorem invPalette_deltas
    (image : ModularImage)
    (t : Transform)
    (wpPred : Int)
    (slow : 0 < t.nb_deltas ∨ t.predictor ≠ .zero) :
    DeltasFollow image t (simplePredictor t.predictor) wpPred
      (SameEdges t.predictor) := by
  intro restored palette indices ran isPalette isIndices c inPalette
  obtain ⟨palette', indices', front, outs, back, undone⟩ := invPalette_undone ran
  have samePalette : palette' = palette := by
    have found := isPalette
    rw [undone.before, List.getElem?_cons_zero] at found
    exact Option.some.inj found
  have sameIndices : indices' = indices := by
    have found := isIndices
    rw [undone.before, List.getElem?_cons_succ, ← undone.frontCount,
      getElem?_append_length] at found
    exact Option.some.inj found
  subst samePalette sameIndices
  have everyChannel :
      channelsWritten t.nb_deltas palette'.h t.predictor = palette'.h := by
    unfold channelsWritten
    refine if_neg ?_
    rintro ⟨noDeltas, isZero⟩
    rcases slow with deltas | notZero
    · omega
    · exact notZero isZero
  obtain ⟨channel, isChannel, _, shown⟩ :=
    undone.shown c (by rw [everyChannel]; exact inPalette)
  refine ⟨channel, ?_, ?_⟩
  · rw [undone.after, ← undone.frontCount,
      List.getElem?_append_right (Nat.le_add_right _ _),
      Nat.add_sub_cancel_left,
      List.getElem?_append_left (by rw [undone.outCount]; exact inPalette)]
    exact isChannel
  · intro y x inHeight inWidth isDelta sameEdges
    obtain ⟨entry, isEntry, isSample⟩ := shown y x inHeight inWidth
    refine ⟨entry, isEntry, ?_⟩
    rw [if_pos isDelta,
      predictPalette_eq_predictOne sameEdges channel.sample indices'.w
        wpPred] at isSample
    exact isSample

/-- Two rows of indices into a difference of one and the colours ten and twenty. -/
def deltaImage : ModularImage where
  channels := [
    { w := 3, h := 1
      hshift := -1
      vshift := -1
      sample := fun _ x => if x = 0 then 1 else if x = 1 then 10 else 20 },
    { w := 2, h := 2
      sample := fun y x => if y = 1 ∧ x = 1 then 0 else if x = 0 then 1 else 2 }]
  nb_meta_channels := 1

/-- The palette of these indices. -/
def deltaTransform
    (predictor : Predictor) :
    Transform :=
  { id := .palette, num_c := 1, nb_colors := 2, nb_deltas := 1, predictor }

/-- The last pixel of the indices is one more than the gradient of the others. -/
theorem invPalette_deltas_gradient :
    (∃ restored,
      invPalette deltaImage 0 1 .gradient = .ok restored) ∧
      DeltasFollow deltaImage (deltaTransform .gradient) .gradient 0
        (SameEdges .gradient) :=
  ⟨⟨_, rfl⟩,
    invPalette_deltas deltaImage (deltaTransform .gradient) 0
      (.inl (by decide))⟩

/-- With the predictor of the sample above, that of the left one is used. -/
theorem not_deltasFollow_top :
    ¬ DeltasFollow deltaImage (deltaTransform .top) .top 0 fun _ _ => True := by
  intro follow
  obtain ⟨channel, isChannel, samples⟩ :=
    follow _ _ _ rfl rfl rfl 0 (by decide)
  cases isChannel
  obtain ⟨entry, isEntry, isSample⟩ :=
    samples 1 1 (by decide) (by decide) (by decide) trivial
  cases isEntry
  revert isSample
  decide

end Jxlz.Modular
