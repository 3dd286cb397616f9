import Jxlz.Lib.Meets
import Jxlz.Modular.TransformShape

namespace Jxlz.Modular

open Except

/-!
# The structure that a palette changes

`metaPalette` takes a run of equal channels down to one of indices and puts the
palette in front.  `invPalette` reads the number of channels off the palette's
height and puts the run back, as long as the sums of its lookups fit.
-/

/-- The machine integers of `metaPalette` do not overflow. -/
structure PaletteFits
    (image : ModularImage)
    (t : Transform) :
    Prop where
  sum : 0 < t.num_c ∧ t.begin_c + t.num_c < 2 ^ 32
  width : t.nb_colors + t.nb_deltas < 2 ^ 31
  nb_meta_channels : image.nb_meta_channels + 1 < 2 ^ 64
  -- On meta channels the change of their number is computed as `2 - nb`, and
  -- the inverse tells such a palette by the place of its indices.
  among :
    t.begin_c < image.nb_meta_channels →
      t.num_c ≤ 2 ∧ t.begin_c + t.num_c ≤ image.nb_meta_channels

/-- What a palette needs of them, without the sum that its header computes. -/
structure RunFits
    (image : ModularImage)
    (t : Transform) :
    Prop where
  positive : 0 < t.num_c ∧ t.num_c < 2 ^ 32
  first : t.begin_c + 1 < 2 ^ 32
  width : t.nb_colors + t.nb_deltas < 2 ^ 31
  nb_meta_channels : image.nb_meta_channels + 1 < 2 ^ 64
  among :
    t.begin_c < image.nb_meta_channels →
      t.num_c ≤ 2 ∧ t.begin_c + t.num_c ≤ image.nb_meta_channels

variable {image : ModularImage} {t : Transform}

theorem PaletteFits.run
    (fits : PaletteFits image t) :
    RunFits image t := by
  obtain ⟨positive, sum⟩ := fits.sum
  exact ⟨⟨positive, by omega⟩, by omega, fits.width, fits.nb_meta_channels,
    fits.among⟩

/-- The lookups of the indices of an image fit. -/
def LookupsFit
    (image : ModularImage)
    (t : Transform) :
    Prop :=
  ∀ palette indices,
    image.channels[0]? = some palette →
    image.channels[t.begin_c + 1]? = some indices →
    ∀ y x c,
      y < indices.h →
      x < indices.w →
      ∃ value,
        getPaletteValue palette (indices.sample y x).toInt c palette.w
            (min image.bitdepth 24) =
          .ok value

/-- Equal channels in a row are a run of the list of sizes. -/
theorem EqualRun.split
    {begin_c nb : Nat}
    {size : Nat × Nat}
    (run : EqualRun image begin_c (begin_c + nb) size)
    (inside : begin_c + nb < image.channels.length) :
    ∃ front index middle back,
      image.channels = front ++ index :: (middle ++ back) ∧
        front.length = begin_c ∧ middle.length = nb ∧ index.size = size ∧
        middle.map Channel.size = List.replicate nb size := by
  have atPlace :
      ∀ c (within : c < image.channels.length),
        begin_c ≤ c → c ≤ begin_c + nb → image.channels[c].size = size := by
    intro c within lower upper
    have isSize := run c lower upper
    rw [sizes, List.getElem?_map, List.getElem?_eq_getElem within] at isSize
    exact Option.some.inj isSize
  have first : begin_c < image.channels.length := by
    omega
  refine ⟨image.channels.take begin_c, image.channels[begin_c],
    (image.channels.drop (begin_c + 1)).take nb,
    (image.channels.drop (begin_c + 1)).drop nb, ?_, ?_, ?_, ?_, ?_⟩
  · rw [List.take_append_drop, ← List.drop_eq_getElem_cons first,
      List.take_append_drop]
  · rw [List.length_take]
    omega
  · rw [List.length_take, List.length_drop]
    omega
  · exact atPlace begin_c first (Nat.le_refl _) (Nat.le_add_right _ _)
  · refine List.eq_replicate_iff.2 ⟨?_, ?_⟩
    · rw [List.length_map, List.length_take, List.length_drop]
      omega
    · intro other member
      obtain ⟨channel, inMiddle, rfl⟩ := List.mem_map.1 member
      obtain ⟨place, isChannel⟩ := List.mem_iff_getElem?.1 inMiddle
      obtain ⟨within, rfl⟩ := List.getElem?_eq_some_iff.1 isChannel
      rw [List.length_take, List.length_drop] at within
      rw [List.getElem_take, List.getElem_drop]
      exact atPlace _ _ (by omega) (by omega)

/-- Removing channels behind the first of a run. -/
theorem foldl_eraseIdx_run
    (front middle back : List Channel)
    (index : Channel) :
    (List.range middle.length).foldl
        (fun channels _ => channels.eraseIdx (front.length + 1))
        (front ++ index :: (middle ++ back)) =
      front ++ index :: back := by
  have erased :=
    foldl_eraseIdx_append (front ++ [index]) middle back
  rw [List.length_append, List.length_singleton] at erased
  simpa using erased

/-- Inserting equal channels behind one of a list. -/
theorem foldl_insertIdx_run
    (front back : List Channel)
    (index channel : Channel)
    (count : Nat) :
    (List.range count).foldl
        (fun channels _ => channels.insertIdx (front.length + 1) channel)
        (front ++ index :: back) =
      front ++ index :: (List.replicate count channel ++ back) := by
  induction count with
  | zero =>
      rfl
  | succ count inductionHypothesis =>
      have inserted :=
        insertIdx_append_length (front ++ [index])
          (List.replicate count channel ++ back) channel
      rw [List.length_append, List.length_singleton] at inserted
      rw [List.range_succ, List.foldl_append, inductionHypothesis]
      simpa [List.replicate_succ] using inserted

/-- Every lookup of an index of a channel fits. -/
def AllLookups
    (palette indices : Channel)
    (palette_size bit_depth : Int) :
    Prop :=
  ∀ y x c,
    y < indices.h →
    x < indices.w →
    ∃ value,
      getPaletteValue palette (indices.sample y x).toInt c palette_size
          bit_depth =
        .ok value

/-- Storing a channel of the same size keeps the sizes. -/
theorem map_size_set
    {channels : List Channel}
    {c : Nat}
    {old new : Channel}
    (isOld : channels[c]? = some old)
    (sameSize : new.size = old.size) :
    (channels.set c new).map Channel.size = channels.map Channel.size := by
  refine List.ext_getElem? ?_
  intro position
  rw [List.getElem?_map, List.getElem?_map, List.getElem?_set]
  split
  next here =>
    subst here
    have within := (List.getElem?_eq_some_iff.1 isOld).1
    rw [if_pos within, isOld]
    exact congrArg some sameSize
  next elsewhere =>
    rfl

/-- Lists of the same sizes have channels at the same places. -/
theorem exists_of_map_size
    {channels others : List Channel}
    {c : Nat}
    (same : channels.map Channel.size = others.map Channel.size)
    (within : c < others.length) :
    ∃ channel, channels[c]? = some channel := by
  have lengths := congrArg List.length same
  rw [List.length_map, List.length_map] at lengths
  exact ⟨_, List.getElem?_eq_getElem (lengths ▸ within)⟩

section

variable {palette indices : Channel}
variable {palette_size bit_depth : Int}
variable {nb_deltas c0 nb : Nat}
variable {predictor : Predictor}
variable {channels : List Channel}

/-- A channel of the slow path keeps its size. -/
theorem paletteChannel_size
    (lookups : AllLookups palette indices palette_size bit_depth)
    (deltas : nb_deltas < 2 ^ 31)
    (c : Nat)
    (channel : Channel) :
    ∃ result,
      paletteChannel palette palette_size bit_depth nb_deltas predictor indices
          c channel = .ok result ∧
        result.size = channel.size := by
  refine
    foldlM_range_ok (fun _ (next : Channel) => next.size = channel.size) _ rfl
      ?_
  intro y state inHeight keeps
  refine foldlM_range_ok (fun _ (next : Channel) => next.size = channel.size) _
    keeps ?_
  intro x row inWidth same
  obtain ⟨value, isValue⟩ := lookups y x c inHeight inWidth
  unfold palettePixel
  dsimp only
  rw [isValue, ok_bind, castU_ok deltas, ok_bind]
  split
  next difference =>
    exact ⟨_, rfl, same⟩
  next colour =>
    exact ⟨_, rfl, same⟩

/-- The slow path keeps the sizes. -/
theorem paletteSlow_sizes
    (lookups : AllLookups palette indices palette_size bit_depth)
    (deltas : nb_deltas < 2 ^ 31)
    (inside : c0 + nb ≤ channels.length) :
    ∃ result,
      paletteSlow palette palette_size bit_depth nb_deltas predictor indices c0
          nb channels = .ok result ∧
        result.map Channel.size = channels.map Channel.size := by
  refine
    foldlM_range_ok
      (fun _ (next : List Channel) =>
        next.map Channel.size = channels.map Channel.size)
      nb rfl ?_
  intro c state within same
  obtain ⟨channel, isChannel⟩ :=
    @exists_of_map_size state channels (c0 + c) same (by omega)
  obtain ⟨result, ran, size⟩ :=
    @paletteChannel_size palette indices palette_size bit_depth nb_deltas
      predictor lookups deltas c channel
  refine ⟨state.set (c0 + c) result, ?_, ?_⟩
  · rw [index_eq_ok.2 isChannel, ok_bind, ran, ok_bind]
    rfl
  · exact (map_size_set isChannel size).trans same

/-- The indices that the fast path has still to read. -/
structure FastState
    (indices : Channel)
    (channels : List Channel)
    (c0 y x : Nat)
    (state : List Channel) :
    Prop where
  sizes : state.map Channel.size = channels.map Channel.size
  unread :
    ∀ channel,
      state[c0]? = some channel →
      ∀ row column,
        y < row ∨ (row = y ∧ x ≤ column) →
        channel.sample row column = indices.sample row column

/-- A pixel of the fast path keeps the sizes and the indices behind it. -/
theorem palettePoint_keeps
    {y x : Nat}
    {state : List Channel}
    (lookups : AllLookups palette indices palette_size bit_depth)
    (inside : c0 + nb ≤ channels.length)
    (positive : 0 < nb)
    (inHeight : y < indices.h)
    (inWidth : x < indices.w)
    (before : FastState indices channels c0 y x state) :
    ∃ next,
      palettePoint palette palette_size bit_depth c0 (min nb 256) y state x =
          .ok next ∧
        FastState indices channels c0 y (x + 1) next := by
  obtain ⟨first, isFirst⟩ :=
    @exists_of_map_size state channels c0 before.sizes (by omega)
  have here : first.sample y x = indices.sample y x :=
    before.unread first isFirst y x (.inr ⟨rfl, Nat.le_refl _⟩)
  unfold palettePoint
  rw [index_eq_ok.2 isFirst, ok_bind, here]
  refine
    foldlM_range_ok
      (fun _ next => FastState indices channels c0 y (x + 1) next) _ ?_ ?_
  · refine ⟨before.sizes, ?_⟩
    intro channel isChannel row column behind
    exact before.unread channel isChannel row column (by omega)
  · intro c next within keeps
    obtain ⟨value, isValue⟩ := lookups y x c inHeight inWidth
    obtain ⟨channel, isChannel⟩ :=
      @exists_of_map_size next channels (c0 + c) keeps.sizes
        (by have := Nat.min_le_left nb 256; omega)
    refine ⟨next.set (c0 + c) (channel.set y x value), ?_, ?_, ?_⟩
    · rw [isValue, ok_bind, index_eq_ok.2 isChannel, ok_bind]
      rfl
    · have stored :=
        @map_size_set next (c0 + c) channel (channel.set y x value) isChannel rfl
      exact stored.trans keeps.sizes
    · intro other isOther row column behind
      rw [List.getElem?_set] at isOther
      split at isOther
      next atFirst =>
        rw [if_pos (List.getElem?_eq_some_iff.1 isChannel).1] at isOther
        cases isOther
        rw [Channel.sample_set, if_neg (by omega)]
        exact keeps.unread channel (atFirst ▸ isChannel) row column behind
      next elsewhere =>
        exact keeps.unread other isOther row column behind

/-- The fast path keeps the sizes. -/
theorem paletteFast_sizes
    (lookups : AllLookups palette indices palette_size bit_depth)
    (inside : c0 + nb ≤ channels.length)
    (positive : 0 < nb)
    (isIndices : channels[c0]? = some indices) :
    ∃ result,
      paletteFast palette palette_size bit_depth c0 nb indices.w indices.h
          channels = .ok result ∧
        result.map Channel.size = channels.map Channel.size := by
  have rows :=
    @foldlM_range_ok (List Channel)
      (fun state y =>
        (List.range indices.w).foldlM
          (palettePoint palette palette_size bit_depth c0 (min nb 256) y) state)
      (fun y state => FastState indices channels c0 y 0 state)
      channels indices.h ?_ ?_
  · obtain ⟨result, ran, state⟩ := rows
    exact ⟨result, ran, state.sizes⟩
  · refine ⟨rfl, ?_⟩
    intro channel isChannel row column _
    rw [isIndices] at isChannel
    cases isChannel
    rfl
  · intro y state inHeight before
    obtain ⟨next, ran, after⟩ :=
      @foldlM_range_ok (List Channel)
        (palettePoint palette palette_size bit_depth c0 (min nb 256) y)
        (fun x state => FastState indices channels c0 y x state)
        state indices.w before
        (fun x row inWidth keeps =>
          palettePoint_keeps lookups inside positive inHeight inWidth keeps)
    refine ⟨next, ran, after.sizes, ?_⟩
    intro channel isChannel row column behind
    exact after.unread channel isChannel row column (by omega)

/-- Looking up the indices keeps the sizes. -/
theorem paletteSamples_sizes
    (lookups : AllLookups palette indices palette_size bit_depth)
    (deltas : nb_deltas < 2 ^ 31)
    (inside : c0 + nb ≤ channels.length)
    (positive : 0 < nb)
    (isIndices : channels[c0]? = some indices) :
    ∃ result,
      paletteSamples palette indices palette_size bit_depth nb_deltas predictor
          c0 nb channels = .ok result ∧
        result.map Channel.size = channels.map Channel.size := by
  unfold paletteSamples
  split
  next empty =>
    exact ⟨channels, rfl, rfl⟩
  next some =>
    split
    next fast =>
      exact paletteFast_sizes lookups inside positive isIndices
    next slow =>
      exact paletteSlow_sizes lookups deltas inside

end

/-- The channels before a palette and after it. -/
structure PaletteMade
    (t : Transform)
    (before after : ModularImage)
    (front middle back : List Channel)
    (index pch : Channel) :
    Prop where
  channels : before.channels = front ++ index :: (middle ++ back)
  frontCount : front.length = t.begin_c
  middleSizes :
    middle.map Channel.size = List.replicate (t.num_c - 1) index.size
  made : after.channels = pch :: (front ++ index :: back)
  paletteSize : pch.size = (t.nb_colors + t.nb_deltas, t.num_c)
  nb_meta_channels :
    after.nb_meta_channels =
      if before.nb_meta_channels ≤ t.begin_c then before.nb_meta_channels + 1
      else before.nb_meta_channels + (2 - t.num_c)

/-- `metaPalette` rejects, or makes a palette and an index channel. -/
theorem meets_metaPalette
    (fits : RunFits image t) :
    Meets Rejects
      (metaPalette image t.begin_c (t.begin_c + t.num_c - 1) t.nb_colors
        t.nb_deltas)
      fun after =>
        ∃ front middle back index pch,
          PaletteMade t image after front middle back index pch := by
  obtain ⟨positive, few⟩ := fits.positive
  have width := fits.width
  have room := fits.nb_meta_channels
  unfold metaPalette
  refine (@meets_checkEqualChannels image t.begin_c (t.begin_c + t.num_c - 1)
    (by omega)).bind ?_
  rintro _ ⟨inside, size, run⟩
  have count : t.begin_c + t.num_c - 1 - t.begin_c + 1 = t.num_c := by
    omega
  rw [subU_ok (by omega), ok_bind, addU_ok (by omega), ok_bind, count]
  have counted :
      Meets Rejects
        (metaPaletteCount image.nb_meta_channels t.begin_c t.num_c)
        fun nb_meta_channels =>
          nb_meta_channels =
            if image.nb_meta_channels ≤ t.begin_c then
              image.nb_meta_channels + 1
            else
              image.nb_meta_channels + (2 - t.num_c) := by
    unfold metaPaletteCount
    split
    next behind =>
      exact .of_eq_ok (addU_ok room) rfl
    next among =>
      obtain ⟨few, within⟩ := fits.among (Nat.not_le.1 among)
      rw [if_neg (by omega), subU_ok few, ok_bind]
      exact .of_eq_ok (addU_ok (by omega)) rfl
  refine counted.bind ?_
  intro nb_meta_channels isCount
  have last : t.begin_c + t.num_c - 1 = t.begin_c + (t.num_c - 1) := by
    omega
  rw [last] at inside run
  obtain ⟨front, index, middle, back, split, frontCount, middleCount, isSize,
    middleSizes⟩ := run.split inside
  have erased :
      (List.range (t.num_c - 1)).foldl
          (fun channels _ => channels.eraseIdx (t.begin_c + 1))
          image.channels =
        front ++ index :: back := by
    rw [split, ← middleCount, ← frontCount, foldl_eraseIdx_run]
  rw [erased, addU_ok (by omega), ok_bind]
  exact meets_ok ⟨front, middle, back, index, _, {
    channels := split
    frontCount := frontCount
    middleSizes := isSize.symm ▸ middleSizes
    made := rfl
    paletteSize := rfl
    nb_meta_channels := isCount }⟩

/-- `invPalette` restores the structure before a palette. -/
theorem invPalette_shape
    {before after image : ModularImage}
    {front middle back : List Channel}
    {index pch : Channel}
    (fits : RunFits before t)
    (palette : PaletteMade t before after front middle back index pch)
    (same : SameShape image after)
    (lookups : LookupsFit image t) :
    ∃ restored,
      invPalette image t.begin_c t.nb_deltas t.predictor = .ok restored ∧
        SameShape restored before := by
  obtain ⟨positive, few⟩ := fits.positive
  have first := fits.first
  have width := fits.width
  have frontCount := palette.frontCount
  -- The same places in the decoded image.
  have sameSizes := same.sizes
  unfold sizes at sameSizes
  rw [palette.made, List.map_cons, List.map_append, List.map_cons] at sameSizes
  obtain ⟨pal, rest, areChannels, palSize, sameSizes⟩ :=
    List.map_eq_cons_iff.1 sameSizes
  obtain ⟨front', rest, rfl, sameFront, sameSizes⟩ :=
    List.map_eq_append_iff.1 sameSizes
  obtain ⟨indices, back', rfl, indexSize, sameBack⟩ :=
    List.map_eq_cons_iff.1 sameSizes
  have frontLength := congrArg List.length sameFront
  rw [List.length_map, List.length_map] at frontLength
  have palSize := palSize.trans palette.paletteSize
  have palWidth : pal.w = t.nb_colors + t.nb_deltas := congrArg Prod.fst palSize
  have palHeight : pal.h = t.num_c := congrArg Prod.snd palSize
  have split :
      image.channels = (pal :: front') ++ indices :: back' :=
    areChannels
  have c0 : t.begin_c + 1 = (pal :: front').length := by
    rw [List.length_cons]
    omega
  have isIndices : image.channels[t.begin_c + 1]? = some indices := by
    rw [split, c0, getElem?_append_length]
  have isPalette : image.channels[0]? = some pal := by
    rw [split]
    rfl
  have allLookups :
      AllLookups pal indices pal.w (min image.bitdepth 24) :=
    fun y x c inHeight inWidth =>
      lookups pal indices isPalette isIndices y x c inHeight inWidth
  let ch := Channel.create indices.w indices.h indices.hshift indices.vshift
  have inserted :
      (List.range (t.num_c - 1)).foldl
          (fun channels _ => channels.insertIdx (t.begin_c + 1 + 1) ch)
          image.channels =
        (pal :: front') ++
          indices :: (List.replicate (t.num_c - 1) ch ++ back') := by
    rw [split, c0, foldl_insertIdx_run]
  obtain ⟨result, ran, resultSizes⟩ :=
    @paletteSamples_sizes pal indices pal.w (min image.bitdepth 24) t.nb_deltas
      (t.begin_c + 1) t.num_c t.predictor
      ((pal :: front') ++
        indices :: (List.replicate (t.num_c - 1) ch ++ back'))
      allLookups (by omega)
      (by
        rw [c0]
        simp only [List.length_append, List.length_cons, List.length_replicate]
        omega)
      positive
      (by rw [c0, getElem?_append_length])
  have isCount := palette.nb_meta_channels
  rw [← same.nb_meta_channels] at isCount
  have someMeta : ¬ image.nb_meta_channels < 1 := by
    split at isCount
    next behind =>
      omega
    next among =>
      have := fits.among (Nat.not_le.1 among)
      omega
  have countBack :
      invPaletteCount image.nb_meta_channels (t.begin_c + 1) t.num_c =
        .ok before.nb_meta_channels := by
    unfold invPaletteCount
    split at isCount
    next behind =>
      rw [if_pos (by omega), isCount]
      rfl
    next among =>
      obtain ⟨few, within⟩ := fits.among (Nat.not_le.1 among)
      rw [if_neg (by omega), subU_ok few, ok_bind, if_pos (by omega)]
      exact congrArg Except.ok (by omega)
  have inside : ¬ image.channels.length ≤ t.begin_c + 1 :=
    Nat.not_le.2 (List.getElem?_eq_some_iff.1 isIndices).1
  refine
    ⟨{ image with
        nb_meta_channels := before.nb_meta_channels
        channels := result.eraseIdx 0 }, ?_, ?_, rfl⟩
  · unfold invPalette
    rw [if_neg someMeta, index_eq_ok.2 isPalette, ok_bind]
    dsimp only
    rw [addU_ok (by omega), ok_bind, if_neg inside, index_eq_ok.2 isIndices,
      ok_bind, palHeight, if_neg (by omega), castU_ok (by omega), ok_bind,
      inserted, ran, ok_bind, countBack, ok_bind]
    rfl
  · have erased :
        (result.eraseIdx 0).map Channel.size =
          (result.map Channel.size).eraseIdx 0 := by
      cases result with
      | nil =>
          rfl
      | cons head tail =>
          rfl
    have chSize : ch.size = index.size := indexSize
    unfold sizes
    dsimp only
    rw [erased, resultSizes, palette.channels]
    simp only [List.cons_append, List.map_cons, List.eraseIdx_cons_zero,
      List.map_append, List.map_replicate, sameFront, indexSize, chSize,
      sameBack, palette.middleSizes]

end Jxlz.Modular
