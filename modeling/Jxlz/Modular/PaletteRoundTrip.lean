import Jxlz.Modular.MetaPalette
import Jxlz.Modular.PaletteChoices

namespace Jxlz.Modular

/-!
# Palettes are undone

The indices of the choices, looked up in the palette that was made, show the
original samples.  The decoder's samples are shown by the same palette and
indices, and there is only one plane that is.
-/

section

variable {palette indices : Channel}
variable {bit_depth : Int}

/-- A colour of the palette itself. -/
theorem getPaletteValue_table
    {place c : Nat}
    (narrow : palette.w + 64 < 2 ^ 31)
    (inWidth : place < palette.w)
    (inHeight : c < palette.h) :
    getPaletteValue palette place c palette.w bit_depth =
      .ok (palette.sample c place) := by
  unfold getPaletteValue
  rw [if_neg (by omega), if_neg (by omega),
    addI32_ok (by unfold kLargeCubeOffset; omega)
      (by unfold kLargeCubeOffset; omega), ok_bind]
  unfold tableValue
  rw [Int.toNat_natCast, if_pos ⟨inWidth, inHeight⟩]
  rfl

/-- Behind every palette the decoder makes up the same colours. -/
theorem getPaletteValue_behind
    {palette_size : Nat}
    (narrow : palette_size + 64 < 2 ^ 31)
    (implicit_offset c : Nat) :
    getPaletteValue palette (palette_size + implicit_offset : Nat) c palette_size
        bit_depth =
      getPaletteValue { w := 0, h := 0 } implicit_offset c 0 bit_depth := by
  unfold getPaletteValue
  rw [if_neg (by omega), if_pos (by omega), if_neg (by omega),
    if_pos (by omega)]
  unfold cubeValue
  have behind :
      ((palette_size + implicit_offset : Nat) : Int) - palette_size =
        implicit_offset - 0 := by
    omega
  rw [addI32_ok (by unfold kLargeCubeOffset; omega)
      (by unfold kLargeCubeOffset; omega),
    addI32_ok (by unfold kLargeCubeOffset; omega)
      (by unfold kLargeCubeOffset; omega), ok_bind, ok_bind, behind]
  split
  next colourless =>
    rfl
  next coloured =>
    exact if_congr (by omega) rfl rfl

/-- The palette channel that holds some rows of colours. -/
structure Holds
    (palette : Channel)
    (rows : List (List Int32)) :
    Prop where
  width : palette.w = rows.length
  sample :
    ∀ c place,
      c < palette.h →
      place < palette.w →
      palette.sample c place = (rows.getD place []).getD c 0

/-- The index of a choice that shows a pixel shows its samples. -/
theorem shown_of_choice
    {deltas values sorted : List (List Int32)}
    {explicit_remap : List Nat}
    {channels : List Channel}
    {channel : Channel}
    {predictor : Predictor}
    {choice : IndexChoice}
    {y x c : Nat}
    (holds : Holds palette (deltas ++ sorted))
    (narrow : palette.w + 64 < 2 ^ 31)
    (moved : Reordered values sorted explicit_remap)
    (isIndex :
      choiceIndex deltas.length values.length explicit_remap choice =
        .ok (indices.sample y x))
    (shows :
      ChoiceShows channels bit_depth deltas values predictor y x choice)
    (inHeight : c < palette.h)
    (isChannel : channels[c]? = some channel) :
    Shown palette indices palette.w bit_depth deltas.length predictor c
      channel.sample y x := by
  have width := holds.width
  rw [List.length_append] at width
  cases choice with
  | delta delta_index =>
      obtain ⟨tuple, isTuple, restores⟩ := shows
      have inside := (List.getElem?_eq_some_iff.1 isTuple).1
      have isValue := toI32_eq_ok isIndex
      have isRow : (deltas ++ sorted).getD delta_index [] = tuple := by
        rw [List.getD_eq_getElem?_getD, List.getElem?_append_left inside,
          isTuple, Option.getD_some]
      refine ⟨palette.sample c delta_index, ?_, ?_⟩
      · rw [isValue]
        exact getPaletteValue_table narrow (by omega) inHeight
      · rw [isValue, if_pos (by omega),
          holds.sample c delta_index inHeight (by omega), isRow]
        exact (restores c channel isChannel).symm
  | explicit palette_index =>
      obtain ⟨place, isPlace, isIndex⟩ := bind_eq_ok.1 isIndex
      have isValue := toI32_eq_ok isIndex
      obtain ⟨new_index, isNew, isColor⟩ := moved.moved _ _ shows
      rw [index_eq_ok.1 isPlace] at isNew
      cases isNew
      have inside := (List.getElem?_eq_some_iff.1 isColor).1
      have isRow :
          (deltas ++ sorted).getD (deltas.length + place) [] =
            colorAt channels y x := by
        rw [List.getD_eq_getElem?_getD,
          List.getElem?_append_right (Nat.le_add_right _ _),
          Nat.add_sub_cancel_left, isColor, Option.getD_some]
      have isSample :
          (colorAt channels y x).getD c 0 = channel.sample y x := by
        unfold colorAt
        rw [List.getD_eq_getElem?_getD, List.getElem?_map, isChannel]
        rfl
      refine ⟨palette.sample c (deltas.length + place), ?_, ?_⟩
      · rw [isValue]
        exact getPaletteValue_table narrow (by omega) inHeight
      · rw [isValue, if_neg (by omega),
          holds.sample c (deltas.length + place) inHeight (by omega), isRow,
          isSample]
  | implicit implicit_offset =>
      have isValue := toI32_eq_ok isIndex
      have count : deltas.length + values.length = palette.w := by
        rw [width, moved.count]
      refine ⟨channel.sample y x, ?_, ?_⟩
      · rw [isValue, count, getPaletteValue_behind narrow]
        exact shows c channel isChannel
      · rw [isValue, if_neg (by omega)]

end

/-- An image whose palette and indices show the channels that they replaced. -/
structure PaletteCoded
    (t : Transform)
    (image after coded : ModularImage)
    (front middle back : List Channel)
    (index pch palette indices : Channel) :
    Prop where
  made : PaletteMade t image after front middle back index pch
  channels : coded.channels = palette :: (front ++ indices :: back)
  paletteSize : palette.SameSize pch
  indicesSize : indices.SameSize index
  nb_meta_channels : coded.nb_meta_channels = after.nb_meta_channels
  bitdepth : coded.bitdepth = image.bitdepth
  shown :
    ∀ c channel,
      (index :: middle)[c]? = some channel →
      ∀ y x,
        y < index.h →
        x < index.w →
        Shown palette indices palette.w (min image.bitdepth 24)
          t.nb_deltas t.predictor c channel.sample y x

/-- A palette for channels of the image itself is one more meta channel. -/
theorem room_of_metaPalette
    {image after : ModularImage}
    {begin_c end_c nb_colors nb_deltas : Nat}
    (behind : image.nb_meta_channels ≤ begin_c)
    (ran : metaPalette image begin_c end_c nb_colors nb_deltas = .ok after) :
    image.nb_meta_channels + 1 < 2 ^ 64 ∧ after.bitdepth = image.bitdepth := by
  unfold metaPalette at ran
  obtain ⟨_, _, ran⟩ := bind_eq_ok.1 ran
  obtain ⟨_, _, ran⟩ := bind_eq_ok.1 ran
  obtain ⟨nb, _, ran⟩ := bind_eq_ok.1 ran
  obtain ⟨nb_meta_channels, isCount, ran⟩ := bind_eq_ok.1 ran
  obtain ⟨width, _, ran⟩ := bind_eq_ok.1 ran
  cases ran
  unfold metaPaletteCount at isCount
  rw [if_pos behind] at isCount
  exact ⟨(addU_eq_ok isCount).2, rfl⟩

/-- The palette channel holds the rows. -/
theorem fillPalette_holds
    {image filled : ModularImage}
    {pch : Channel}
    {rest : List Channel}
    {num_channels : Nat}
    {rows : List (List Int32)}
    (channels : image.channels = pch :: rest)
    (ran : fillPalette image num_channels rows = .ok filled) :
    ∃ palette,
      filled = { image with channels := palette :: rest } ∧
        palette.SameSize pch ∧ Holds palette rows := by
  unfold fillPalette at ran
  obtain ⟨palette_channel, isFirst, ran⟩ := bind_eq_ok.1 ran
  rw [channels] at isFirst
  cases isFirst
  split at ran
  next wrong =>
    cases ran
  next right =>
    cases ran
    rw [not_or, not_not, not_not] at right
    obtain ⟨size, samples⟩ :=
      pch.fill_spec fun c color_index => (rows.getD color_index []).getD c 0
    refine ⟨_, ?_, size, ?_⟩
    · rw [channels]
      rfl
    · refine ⟨size.w.trans right.2, ?_⟩
      intro c place inHeight inWidth
      exact samples c place (size.h ▸ inHeight) (size.w ▸ inWidth)

/-- The first channel of the range holds the indices. -/
theorem fillIndices_holds
    {image coded : ModularImage}
    {palette index_channel : Channel}
    {front back : List Channel}
    {begin_c : Nat}
    {values : List Int32}
    (channels :
      image.channels = palette :: (front ++ index_channel :: back))
    (frontCount : front.length = begin_c)
    (ran : fillIndices image begin_c values = .ok coded) :
    begin_c + 1 < 2 ^ 32 ∧
      ∃ indices,
        coded =
            { image with
              channels := palette :: (front ++ indices :: back) } ∧
          indices.SameSize index_channel ∧
          ∀ y x,
            y < index_channel.h →
            x < index_channel.w →
            indices.sample y x = values.getD (y * index_channel.w + x) 0 := by
  unfold fillIndices at ran
  obtain ⟨first, isFirst, ran⟩ := bind_eq_ok.1 ran
  obtain ⟨rfl, fits⟩ := addU_eq_ok isFirst
  obtain ⟨found, isFound, ran⟩ := bind_eq_ok.1 ran
  rw [channels, index_eq_ok, List.getElem?_cons_succ, ← frontCount,
    getElem?_append_length] at isFound
  cases isFound
  cases ran
  obtain ⟨size, samples⟩ :=
    index_channel.fill_spec fun y x =>
      values.getD (y * index_channel.w + x) 0
  refine ⟨fits, _, ?_, size, samples⟩
  rw [channels, ← frontCount, List.set_cons_succ, List.set_append_right _ _
    (Nat.le_refl _), Nat.sub_self, List.set_cons_zero]

/-- The range that becomes a palette is the run that `metaPalette` takes down. -/
theorem paletteRange_run
    {image : ModularImage}
    {front middle back : List Channel}
    {index : Channel}
    {num_c : Nat}
    (channels : image.channels = front ++ index :: (middle ++ back))
    (count : middle.length + 1 = num_c) :
    paletteRange image front.length num_c = index :: middle := by
  unfold paletteRange
  rw [channels, List.drop_left, ← count, List.take_succ_cons, List.take_left]

/-- The indices of all choices show the image. -/
theorem paletteCoded
    {t : Transform}
    {image after filled coded : ModularImage}
    {source : Channel}
    {deltas sorted : List (List Int32)}
    {build : PaletteBuild}
    {explicit_remap : List Nat}
    {values : List Int32}
    (positive : 0 < t.num_c ∧ t.num_c < 2 ^ 32)
    (behind : image.nb_meta_channels ≤ t.begin_c)
    (narrow : t.nb_colors + t.nb_deltas + 64 < 2 ^ 31)
    (isSource : image.channels[t.begin_c]? = some source)
    (builds :
      BuildShows (paletteRange image t.begin_c t.num_c) (min image.bitdepth 24)
        deltas t.predictor source.w (source.w * source.h) build)
    (moved : Reordered build.values sorted explicit_remap)
    (colorCount : t.nb_colors = build.values.length)
    (deltaCount : t.nb_deltas = deltas.length)
    (made :
      metaPalette image t.begin_c (t.begin_c + t.num_c - 1) t.nb_colors
        t.nb_deltas = .ok after)
    (rowsFilled : fillPalette after t.num_c (deltas ++ sorted) = .ok filled)
    (areIndices :
      build.choices.mapM
          (choiceIndex deltas.length t.nb_colors explicit_remap) =
        .ok values)
    (indicesFilled : fillIndices filled t.begin_c values = .ok coded) :
    RunFits image t ∧
      ∃ front middle back index pch palette indices,
        PaletteCoded t image after coded front middle back index pch palette
          indices := by
  obtain ⟨room, bitdepth⟩ := room_of_metaPalette behind made
  have first : t.begin_c + 1 < 2 ^ 32 := by
    unfold fillIndices at indicesFilled
    obtain ⟨_, isFirst, _⟩ := bind_eq_ok.1 indicesFilled
    exact (addU_eq_ok isFirst).2
  have fits : RunFits image t :=
    ⟨positive, first, by omega, room, fun among => absurd behind (by omega)⟩
  refine ⟨fits, ?_⟩
  obtain ⟨front, middle, back, index, pch, palettes⟩ :=
    (meets_metaPalette fits).of_ok made
  obtain ⟨palette, rfl, paletteSize, holds⟩ :=
    fillPalette_holds palettes.made rowsFilled
  obtain ⟨_, indices, rfl, indicesSize, samples⟩ :=
    fillIndices_holds rfl palettes.frontCount indicesFilled
  refine ⟨front, middle, back, index, pch, palette, indices, palettes, rfl,
    paletteSize, indicesSize, rfl, bitdepth, ?_⟩
  have middleCount : middle.length + 1 = t.num_c := by
    have count := congrArg List.length palettes.middleSizes
    rw [List.length_map, List.length_replicate] at count
    omega
  have isIndex : source = index := by
    rw [palettes.channels, ← palettes.frontCount, getElem?_append_length]
      at isSource
    exact (Option.some.inj isSource).symm
  subst isIndex
  rw [← palettes.frontCount, paletteRange_run palettes.channels middleCount]
    at builds
  have width : palette.w = t.nb_colors + t.nb_deltas :=
    paletteSize.w.trans (congrArg Prod.fst palettes.paletteSize)
  have height : palette.h = t.num_c :=
    paletteSize.h.trans (congrArg Prod.snd palettes.paletteSize)
  intro c channel isChannel y x inHeight inWidth
  have inside : y * source.w + x < build.choices.length := by
    rw [builds.count, Nat.mul_comm source.w]
    calc
      y * source.w + x < y * source.w + source.w :=
        Nat.add_lt_add_left inWidth _
      _ = (y + 1) * source.w := (Nat.succ_mul y source.w).symm
      _ ≤ source.h * source.w := Nat.mul_le_mul_right _ inHeight
  obtain ⟨lengths, mapped⟩ :=
    List.forall₂_iff_get.1 (forall₂_of_mapM_eq_ok areIndices)
  have isValue := mapped (y * source.w + x) inside (lengths ▸ inside)
  rw [List.get_eq_getElem, List.get_eq_getElem] at isValue
  have shows := builds.shows _ _ (List.getElem?_eq_getElem inside)
  have row : (y * source.w + x) / source.w = y := by
    rw [Nat.mul_comm, Nat.mul_add_div (Nat.zero_lt_of_lt inWidth),
      Nat.div_eq_of_lt inWidth, Nat.add_zero]
  have column : (y * source.w + x) % source.w = x := by
    rw [Nat.mul_comm, Nat.mul_add_mod, Nat.mod_eq_of_lt inWidth]
  rw [row, column] at shows
  rw [deltaCount]
  refine shown_of_choice holds (by omega) moved ?_ shows ?_ isChannel
  · rw [samples y x inHeight inWidth, List.getD_eq_getElem?_getD,
      List.getElem?_eq_getElem (lengths ▸ inside), Option.getD_some,
      ← colorCount]
    exact isValue
  · have inRun := (List.getElem?_eq_some_iff.1 isChannel).1
    rw [List.length_cons] at inRun
    omega

/--
The channels of an image after its palette was undone: those of the range have
their samples back, and the position in the frame of the first of them.
-/
structure PaletteRestored
    (image restored : ModularImage)
    (begin_c num_c : Nat)
    (source : Channel) :
    Prop where
  nb_meta_channels : restored.nb_meta_channels = image.nb_meta_channels
  length : restored.channels.length = image.channels.length
  outside :
    ∀ place,
      place < begin_c ∨ begin_c + num_c ≤ place →
      restored.channels[place]? = image.channels[place]?
  inside :
    ∀ (c : Nat) (channel : Channel),
      c < num_c →
      image.channels[begin_c + c]? = some channel →
      ∃ result : Channel,
        restored.channels[begin_c + c]? = some result ∧
          result.SameSize
            { channel with
              hshift := source.hshift
              vshift := source.vshift } ∧
          ∀ y x,
            y < channel.h →
            x < channel.w → result.sample y x = channel.sample y x

/-- An index that can be looked up for one channel can be for all of them. -/
theorem getPaletteValue_every
    {palette : Channel}
    {position bit_depth : Int}
    {value : Int32}
    (narrow : palette.w + 64 < 2 ^ 31)
    (shallow : bit_depth ≤ 24)
    (lookedUp :
      getPaletteValue palette position 0 palette.w bit_depth = .ok value)
    (c : Nat) :
    ∃ value,
      getPaletteValue palette position c palette.w bit_depth = .ok value := by
  have size :
      (0 : Int) ≤ palette.w ∧ palette.w + kLargeCubeOffset < 2 ^ 31 := by
    unfold kLargeCubeOffset
    omega
  by_cases positive : 0 ≤ bit_depth
  · exact getPaletteValue_ok palette c size positive shallow
  · unfold getPaletteValue at lookedUp ⊢
    split
    next negative =>
      split
      next colourless =>
        exact ⟨0, rfl⟩
      next coloured =>
        exact deltaValue_ok (Nat.not_le.1 coloured) shallow
    next notNegative =>
      rw [if_neg notNegative] at lookedUp
      split
      next behind =>
        -- Behind the palette the depth is the amount of a shift.
        rw [if_pos behind] at lookedUp
        unfold cubeValue smallCubeValue largeCubeValue scalePalette depthAmount
          at lookedUp
        rw [addI32_ok (by unfold kLargeCubeOffset; omega) size.2, ok_bind,
          if_neg positive] at lookedUp
        split at lookedUp
        next colourless =>
          cases colourless
        next coloured =>
          split at lookedUp <;> cases lookedUp
      next inside =>
        rw [addI32_ok (by unfold kLargeCubeOffset; omega) size.2, ok_bind]
        exact ⟨_, rfl⟩

/-- Undoing a palette that shows its channels restores them. -/
theorem invPalette_restores
    {t : Transform}
    {image after coded : ModularImage}
    {front middle back : List Channel}
    {index pch palette indices : Channel}
    (fits : RunFits image t)
    (isCoded :
      PaletteCoded t image after coded front middle back index pch palette
        indices)
    (narrow : t.nb_colors + t.nb_deltas + 64 < 2 ^ 31)
    (written : channelsWritten t.nb_deltas t.num_c t.predictor = t.num_c) :
    ∃ restored,
      invPalette coded t.begin_c t.nb_deltas t.predictor = .ok restored ∧
        PaletteRestored image restored t.begin_c t.num_c index := by
  obtain ⟨positive, _⟩ := fits.positive
  have palettes := isCoded.made
  have frontCount := palettes.frontCount
  have middleCount : middle.length + 1 = t.num_c := by
    have count := congrArg List.length palettes.middleSizes
    rw [List.length_map, List.length_replicate] at count
    omega
  have paletteSize := palettes.paletteSize
  have width : palette.w = t.nb_colors + t.nb_deltas :=
    isCoded.paletteSize.w.trans (congrArg Prod.fst paletteSize)
  have height : palette.h = t.num_c :=
    isCoded.paletteSize.h.trans (congrArg Prod.snd paletteSize)
  have sameShape : SameShape coded after := by
    refine ⟨?_, isCoded.nb_meta_channels⟩
    have sameIndices : indices.size = index.size :=
      Prod.ext isCoded.indicesSize.w isCoded.indicesSize.h
    have samePalette : palette.size = pch.size :=
      Prod.ext isCoded.paletteSize.w isCoded.paletteSize.h
    unfold sizes
    rw [isCoded.channels, palettes.made, List.map_cons, List.map_cons,
      List.map_append, List.map_append, List.map_cons, List.map_cons,
      sameIndices, samePalette]
  have lookups : LookupsFit coded t := by
    intro first second isFirst isSecond y x c inHeight inWidth
    rw [isCoded.channels, List.getElem?_cons_zero] at isFirst
    rw [isCoded.channels, List.getElem?_cons_succ, ← frontCount,
      getElem?_append_length] at isSecond
    cases isFirst
    cases isSecond
    obtain ⟨entry, isEntry, _⟩ :=
      isCoded.shown 0 index rfl y x (isCoded.indicesSize.h ▸ inHeight)
        (isCoded.indicesSize.w ▸ inWidth)
    rw [isCoded.bitdepth]
    exact getPaletteValue_every (by omega) (Int.min_le_right _ _) isEntry c
  obtain ⟨restored, ran, shape⟩ :=
    invPalette_shape fits palettes sameShape lookups
  refine ⟨restored, ran, ?_⟩
  obtain ⟨palette', indices', front', outs, back', undone⟩ :=
    invPalette_undone ran
  have lists := undone.before
  rw [isCoded.channels] at lists
  obtain ⟨rfl, behindPalette⟩ := List.cons.inj lists
  obtain ⟨rfl, behindFront⟩ :=
    List.append_inj behindPalette (frontCount.trans undone.frontCount.symm)
  obtain ⟨rfl, rfl⟩ := List.cons.inj behindFront
  have outCount : outs.length = t.num_c := undone.outCount.trans height
  refine ⟨shape.nb_meta_channels, shape.length, ?_, ?_⟩
  · intro place outside
    rw [undone.after, palettes.channels]
    rcases outside with before | behind
    · rw [List.getElem?_append_left (by omega),
        List.getElem?_append_left (by omega)]
    · have sameRun :
          front ++ index :: (middle ++ back) =
            front ++ ((index :: middle) ++ back) :=
        rfl
      rw [sameRun, List.getElem?_append_right (by omega),
        List.getElem?_append_right (by omega),
        List.getElem?_append_right (by omega),
        List.getElem?_append_right (by rw [List.length_cons]; omega),
        outCount, List.length_cons, middleCount]
  · intro c channel inRange isChannel
    have sameRun :
        front ++ index :: (middle ++ back) =
          front ++ ((index :: middle) ++ back) :=
      rfl
    rw [palettes.channels, sameRun, ← frontCount,
      List.getElem?_append_right (Nat.le_add_right _ _),
      Nat.add_sub_cancel_left,
      List.getElem?_append_left (by rw [List.length_cons]; omega)] at isChannel
    obtain ⟨result, isResult, resultSize, shown⟩ :=
      undone.shown c (by rw [height, written]; exact inRange)
    have original := isCoded.shown c channel isChannel
    have channelSize : channel.size = index.size := by
      cases c with
      | zero =>
          cases isChannel
          rfl
      | succ c =>
          rw [List.getElem?_cons_succ] at isChannel
          have member :
              channel.size ∈ List.replicate (t.num_c - 1) index.size :=
            palettes.middleSizes ▸
              List.mem_map_of_mem (List.mem_of_getElem? isChannel)
          exact (List.mem_replicate.1 member).2
    have sameWidth : channel.w = index.w := congrArg Prod.fst channelSize
    have sameHeight : channel.h = index.h := congrArg Prod.snd channelSize
    have toIndex := resultSize.trans isCoded.indicesSize
    refine ⟨result, ?_, ⟨?_, ?_, toIndex.hshift, toIndex.vshift⟩, ?_⟩
    · rw [undone.after, ← frontCount,
        List.getElem?_append_right (Nat.le_add_right _ _),
        Nat.add_sub_cancel_left,
        List.getElem?_append_left (by omega)]
      exact isResult
    · exact toIndex.w.trans sameWidth.symm
    · exact toIndex.h.trans sameHeight.symm
    · intro y x inHeight inWidth
      refine shown_unique shown ?_ y x ?_ ?_
      · intro y x inHeight inWidth
        rw [isCoded.bitdepth]
        exact original y x (isCoded.indicesSize.h ▸ inHeight)
          (isCoded.indicesSize.w ▸ inWidth)
      · rw [isCoded.indicesSize.h, ← sameHeight]
        exact inHeight
      · rw [isCoded.indicesSize.w, ← sameWidth]
        exact inWidth

end Jxlz.Modular
