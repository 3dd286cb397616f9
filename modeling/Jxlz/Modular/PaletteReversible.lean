import Jxlz.Modular.FwdPaletteExact

namespace Jxlz.Modular

/-!
# Palettes are reversible

Undoing what an encoder returned gives the image back, as long as the lookups of
the palette fit.  The encoders compare the sizes of the channels and not their
shifts, so the shifts come back if they are equal.
-/

/-- Undoing a transform restores the channels of a range. -/
def PaletteUndoes
    (image coded : ModularImage)
    (begin_c end_c : Nat)
    (t : Transform) :
    Prop :=
  ∃ restored source,
    invPalette coded t.begin_c t.nb_deltas t.predictor = .ok restored ∧
      image.channels[begin_c]? = some source ∧
      PaletteRestored image restored begin_c (end_c - begin_c + 1) source

/-- A palette that shows its range is undone. -/
theorem Shows.undoes
    {image coded : ModularImage}
    {begin_c end_c : Nat}
    {t : Transform}
    (shows : Shows image coded begin_c end_c t)
    (narrow : t.nb_colors + t.nb_deltas + 64 < 2 ^ 31)
    (written : channelsWritten t.nb_deltas t.num_c t.predictor = t.num_c) :
    PaletteUndoes image coded begin_c end_c t := by
  obtain ⟨after, front, middle, back, index, pch, palette, indices, isCoded⟩ :=
    shows.shown
  obtain ⟨restored, ran, isRestored⟩ :=
    invPalette_restores shows.fits isCoded narrow written
  rw [shows.first, shows.count] at isRestored
  refine ⟨restored, index, ran, ?_, isRestored⟩
  rw [isCoded.made.channels, ← shows.first, ← isCoded.made.frontCount,
    getElem?_append_length]

/-- The channels of a range have one position in the frame. -/
def EqualShifts
    (image : ModularImage)
    (begin_c end_c : Nat) :
    Prop :=
  ∀ (c : Nat) (source channel : Channel),
    begin_c ≤ c →
    c ≤ end_c →
    image.channels[begin_c]? = some source →
    image.channels[c]? = some channel →
    channel.hshift = source.hshift ∧ channel.vshift = source.vshift

/-- Undoing a transform gives the image back. -/
def PaletteReverses
    (image coded : ModularImage)
    (t : Transform) :
    Prop :=
  ∃ restored,
    invPalette coded t.begin_c t.nb_deltas t.predictor = .ok restored ∧
      restored.nb_meta_channels = image.nb_meta_channels ∧
      List.Forall₂ Channel.Same restored.channels image.channels

/-- With equal shifts the whole list of channels comes back. -/
theorem PaletteUndoes.reverses
    {image coded : ModularImage}
    {begin_c end_c : Nat}
    {t : Transform}
    (undoes : PaletteUndoes image coded begin_c end_c t)
    (ordered : begin_c ≤ end_c)
    (equalShifts : EqualShifts image begin_c end_c) :
    PaletteReverses image coded t := by
  obtain ⟨restored, source, ran, isSource, isRestored⟩ := undoes
  refine ⟨restored, ran, isRestored.nb_meta_channels, ?_⟩
  refine List.forall₂_iff_get.2 ⟨isRestored.length, ?_⟩
  intro place inRestored inImage
  have isChannel := List.getElem?_eq_getElem inImage
  have isResult := List.getElem?_eq_getElem inRestored
  rw [List.get_eq_getElem, List.get_eq_getElem]
  by_cases inRange : begin_c ≤ place ∧ place < begin_c + (end_c - begin_c + 1)
  · obtain ⟨lower, upper⟩ := inRange
    obtain ⟨c, rfl⟩ := Nat.exists_eq_add_of_le lower
    obtain ⟨hshift, vshift⟩ :=
      equalShifts (begin_c + c) source _ lower (by omega) isSource isChannel
    obtain ⟨result, found, size, samples⟩ :=
      isRestored.inside c _ (by omega) isChannel
    rw [found] at isResult
    rw [← Option.some.inj isResult]
    exact ⟨⟨size.w, size.h, size.hshift.trans hshift.symm,
      size.vshift.trans vshift.symm⟩, samples⟩
  · have unchanged := isRestored.outside place (by omega)
    rw [isChannel, isResult] at unchanged
    rw [Option.some.inj unchanged]
    exact .refl _

/--
Explicit palettes are undone: the list of channels and every sample come back.
-/
theorem fwdPalette_reverses
    (lumaLe : List Int32 → List Int32 → Bool)
    (image : ModularImage)
    (begin_c end_c : Nat)
    (behind : image.nb_meta_channels ≤ begin_c)
    (few : end_c - begin_c + 1 ≤ 256)
    (equalShifts : EqualShifts image begin_c end_c) :
    ∀ coded t,
      fwdPalette lumaLe image begin_c end_c = .ok (coded, t) →
      t.nb_colors + 64 < 2 ^ 31 → PaletteReverses image coded t := by
  intro coded t ran narrow
  obtain ⟨noDeltas, isZero, shows⟩ := fwdPalette_shows behind ran narrow
  refine
    PaletteUndoes.reverses (shows.undoes (by omega) ?_) shows.inside.1
      equalShifts
  unfold channelsWritten
  rw [if_pos ⟨noDeltas, isZero⟩, shows.count]
  exact Nat.min_eq_left few

/-- Four pixels of three channels, with two explicit colours and an implicit one. -/
def paletteImage : ModularImage where
  channels := [
    { w := 2, h := 2, sample := fun y _ => if y = 0 then 9 else 7 },
    { w := 2, h := 2, sample := fun y _ => if y = 0 then 9 else 8 },
    { w := 2, h := 2, sample := fun y x => if y = 1 ∧ x = 1 then 0 else 9 }]

theorem fwdPalette_reverses_rgb :
    ∃ coded t,
      fwdPalette (fun _ _ => true) paletteImage 0 2 = .ok (coded, t) ∧
        PaletteReverses paletteImage coded t := by
  have colors :
      (fwdPalette (fun _ _ => true) paletteImage 0 2).toOption.map
          (fun result => result.2.nb_colors) =
        some 3 := by
    decide +kernel
  cases returned : fwdPalette (fun _ _ => true) paletteImage 0 2 with
  | error fault =>
      rw [returned] at colors
      cases colors
  | ok result =>
      rw [returned] at colors
      have isCount : result.2.nb_colors = 3 := Option.some.inj colors
      refine ⟨result.1, result.2, rfl, ?_⟩
      refine
        fwdPalette_reverses (fun _ _ => true) paletteImage 0 2 (by decide)
          (by decide) ?_ result.1 result.2 returned (by omega)
      intro c source channel _ inRange isSource isChannel
      have isPlace : c = 0 ∨ c = 1 ∨ c = 2 := by
        omega
      cases isSource
      rcases isPlace with rfl | rfl | rfl
      all_goals
        cases isChannel
        exact ⟨rfl, rfl⟩

/-- Two channels of one pixel; the second stands for four pixels of the frame. -/
def shiftedImage : ModularImage where
  channels := [
    { w := 1, h := 1 },
    { w := 1, h := 1, hshift := 1, vshift := 1 }]

/-- Four channels of a row in which every pixel has another colour. -/
def colorfulImage
    (w : Nat) :
    ModularImage where
  channels :=
    List.replicate 4 { w, h := 1, sample := fun _ x => Int32.ofNat x }

/-- The colours of a colourful image. -/
def ownColor
    (x : Nat) :
    List Int32 :=
  List.replicate 4 (Int32.ofNat x)

theorem ownColor_injective
    {x other : Nat}
    (inWidth : x < 2 ^ 31)
    (otherInWidth : other < 2 ^ 31)
    (same : ownColor x = ownColor other) :
    x = other := by
  have samples : Int32.ofNat x = Int32.ofNat other :=
    (List.replicate_inj.1 same).2.resolve_left (by decide)
  have values := congrArg Int32.toInt samples
  rw [Int32.toInt_ofNat_of_lt (by omega), Int32.toInt_ofNat_of_lt (by omega)]
    at values
  exact Int.ofNat.inj values

/-- Every pixel of a colourful image is a colour of its own. -/
theorem choosePalette_colorful
    (implicit_counts : List Nat)
    {w total : Nat}
    (narrow : w < 2 ^ 31)
    (small : total ≤ w) :
    (List.range total).foldlM
        (choosePalette (paletteRange (colorfulImage w) 0 4) w 8
          implicit_counts) {} =
      .ok {
        values := (List.range total).map ownColor
        choices := (List.range total).map .explicit } := by
  induction total with
  | zero =>
      rfl
  | succ x inductionHypothesis =>
      have inWidth : x < w := by
        omega
      rw [List.range_succ, List.foldlM_append, inductionHypothesis (by omega),
        ok_bind, List.foldlM_cons]
      have isColor :
          colorAt (paletteRange (colorfulImage w) 0 4) (x / w) (x % w) =
            ownColor x := by
        rw [Nat.mod_eq_of_lt inWidth]
        rfl
      have noImplicit :
          findImplicitPaletteOffset (ownColor x) 8 = .ok none :=
        rfl
      have isNew :
          ((List.range x).map ownColor).idxOf? (ownColor x) = none := by
        rw [List.idxOf?_eq_none_iff]
        intro member
        obtain ⟨other, inRange, same⟩ := List.mem_map.1 member
        have before := List.mem_range.1 inRange
        have equal :=
          ownColor_injective (by omega) (by omega) same
        omega
      unfold choosePalette
      rw [isColor]
      dsimp only
      rw [noImplicit, ok_bind]
      dsimp only
      unfold PaletteBuild.chooseExplicit
      rw [isNew]
      dsimp only
      rw [castU_ok (by rw [List.length_map, List.length_range]; omega), ok_bind,
        List.length_map, List.length_range]
      unfold PaletteBuild.choose
      rw [List.map_append, List.map_append]
      rfl

/-- None of them is behind the palette. -/
theorem countImplicit_colorful
    (w total : Nat) :
    ∃ implicit_counts,
      (List.range total).foldlM
          (countImplicit (paletteRange (colorfulImage w) 0 4) w 8)
          (List.replicate kImplicitPaletteSize 0) =
        .ok implicit_counts := by
  obtain ⟨implicit_counts, ran, _⟩ :=
    @foldlM_range_ok (List Nat)
      (countImplicit (paletteRange (colorfulImage w) 0 4) w 8)
      (fun _ _ => True) (List.replicate kImplicitPaletteSize 0) total trivial
      (fun _ implicit_counts _ _ => ⟨implicit_counts, rfl, trivial⟩)
  exact ⟨implicit_counts, ran⟩

/-- Every choice of a colour has an index. -/
theorem choiceIndex_explicit
    {values sorted : List (List Int32)}
    {explicit_remap : List Nat}
    (moved : Reordered values sorted explicit_remap)
    (few : values.length < 2 ^ 31)
    {nb_colors count : Nat}
    (inside : count ≤ values.length) :
    ∃ indices,
      ((List.range count).map IndexChoice.explicit).mapM
          (choiceIndex 0 nb_colors explicit_remap) =
        .ok indices ∧
        indices.length = count ∧ ∀ position ∈ indices, 0 ≤ position.toInt := by
  induction count with
  | zero =>
      exact ⟨[], rfl, rfl, fun position member => by cases member⟩
  | succ last inductionHypothesis =>
      obtain ⟨indices, mapped, length, natural⟩ :=
        inductionHypothesis (by omega)
      obtain ⟨place, isPlace, isColor⟩ :=
        moved.moved last values[last]
          (List.getElem?_eq_getElem (by omega))
      have below : place < values.length :=
        moved.count ▸ (List.getElem?_eq_some_iff.1 isColor).1
      have isIndex :
          choiceIndex 0 nb_colors explicit_remap (.explicit last) =
            .ok (Int32.ofInt ((0 + place : Nat) : Int)) := by
        unfold choiceIndex
        dsimp only
        rw [index_eq_ok.2 isPlace, ok_bind]
        exact toI32_ok (by omega) (by omega)
      refine ⟨indices ++ [Int32.ofInt ((0 + place : Nat) : Int)], ?_, ?_, ?_⟩
      · rw [List.range_succ, List.map_append, List.mapM_append, mapped, ok_bind,
          List.map_singleton, List.mapM_cons, isIndex]
        rfl
      · rw [List.length_append, length, List.length_singleton]
      · intro position member
        rcases List.mem_append.1 member with before | isLast
        · exact natural position before
        · rw [List.mem_singleton.1 isLast,
            Int32.toInt_ofInt_of_le (by omega) (by omega)]
          omega

/-- A lookup of an index that is not negative adds to the palette's width. -/
theorem narrow_of_lookup
    {palette : Channel}
    {position palette_size bit_depth : Int}
    {c : Nat}
    {value : Int32}
    (natural : 0 ≤ position)
    (lookedUp :
      getPaletteValue palette position c palette_size bit_depth = .ok value) :
    palette_size + kLargeCubeOffset < 2 ^ 31 := by
  unfold getPaletteValue at lookedUp
  rw [if_neg (by omega)] at lookedUp
  have added : ∃ sum, addI32 palette_size kLargeCubeOffset = .ok sum := by
    split at lookedUp
    next behind =>
      obtain ⟨sum, isSum, _⟩ := bind_eq_ok.1 lookedUp
      exact ⟨sum, isSum⟩
    next inside =>
      obtain ⟨sum, isSum, _⟩ := bind_eq_ok.1 lookedUp
      exact ⟨sum, isSum⟩
  obtain ⟨sum, isSum⟩ := added
  unfold addI32 at isSum
  split at isSum
  next fits =>
    exact fits.2
  next outside =>
    cases isSum

/-- The palette of a colourful image can be too wide to be looked up. -/
theorem fwdPalette_colorful
    (lumaLe : List Int32 → List Int32 → Bool)
    {w : Nat}
    (narrow : w < 2 ^ 31)
    (wide : 2 ^ 31 ≤ w + 64) :
    ∃ coded t,
      fwdPalette lumaLe (colorfulImage w) 0 3 = .ok (coded, t) ∧
        ∀ restored,
          invPalette coded t.begin_c t.nb_deltas t.predictor ≠
            .ok restored := by
  obtain ⟨implicit_counts, counted⟩ := countImplicit_colorful w w
  have chosen := choosePalette_colorful implicit_counts narrow (Nat.le_refl _)
  generalize areValues : (List.range w).map ownColor = values at chosen
  have valuesCount : values.length = w := by
    rw [← areValues, List.length_map, List.length_range]
  have moved := reordered lumaLe values 4
  obtain ⟨indices, mapped, indicesCount, natural⟩ :=
    @choiceIndex_explicit _ _ _ moved (by omega) w w (by omega)
  let source : Channel := { w, h := 1, sample := fun _ x => Int32.ofNat x }
  let pch : Channel := Channel.create (w + 0) 4 (-1) (-1)
  let palette : Channel :=
    pch.fill fun c color_index =>
      ((reorderExplicitPaletteByLuma lumaLe values 4).1.getD color_index
        []).getD c 0
  let filled : Channel :=
    source.fill fun y x => indices.getD (y * w + x) 0
  have four : (colorfulImage w).channels.length = 4 := rfl
  have checked : checkEqualChannels (colorfulImage w) 0 3 = .ok () := by
    unfold checkEqualChannels
    have isFirst : index (colorfulImage w).channels 0 = .ok source := rfl
    have areEqual :
        ((((colorfulImage w).channels.drop (0 + 1)).take (3 - 0)).all
          fun channel => channel.w = source.w ∧ channel.h = source.h) =
            true := by
      simp [colorfulImage, source]
    rw [if_neg (by omega), isFirst, ok_bind, if_pos areEqual]
    rfl
  have made :
      metaPalette (colorfulImage w) 0 3 w 0 =
        .ok {
          colorfulImage w with
          nb_meta_channels := 1
          channels := [pch, source] } := by
    unfold metaPalette
    rw [checked, ok_bind, subU_ok (by decide), ok_bind, addU_ok (by decide),
      ok_bind]
    have isCount :
        metaPaletteCount (colorfulImage w).nb_meta_channels 0 (3 - 0 + 1) =
          .ok 1 :=
      rfl
    rw [isCount, ok_bind, addU_ok (by omega), ok_bind]
    rfl
  have rowsFilled :
      fillPalette
          { colorfulImage w with
            nb_meta_channels := 1
            channels := [pch, source] }
          4 (reorderExplicitPaletteByLuma lumaLe values 4).1 =
        .ok {
          colorfulImage w with
          nb_meta_channels := 1
          channels := [palette, source] } := by
    unfold fillPalette
    have isFirst : index [pch, source] 0 = .ok pch := rfl
    dsimp only
    rw [isFirst, ok_bind, if_neg]
    · rfl
    · rw [moved.count, valuesCount]
      exact not_or.2 ⟨fun differs => differs rfl, fun differs => differs rfl⟩
  let coded : ModularImage :=
    { colorfulImage w with
      nb_meta_channels := 1
      channels := [palette, filled] }
  refine ⟨coded, {
    id := .palette
    begin_c := 0
    num_c := 4
    nb_colors := w }, ?_, ?_⟩
  · unfold fwdPalette
    have isSource : index (colorfulImage w).channels 0 = .ok source := rfl
    have isTotal : source.w * source.h = w := Nat.mul_one w
    have isDepth : min (colorfulImage w).bitdepth 24 = 8 := rfl
    have isRange : 3 - 0 + 1 = 4 := rfl
    have isWidth : source.w = w := rfl
    have isHeight : source.h = 1 := rfl
    rw [if_neg (by omega), checked, ok_bind, subU_ok (by decide), ok_bind, addU_ok (by decide),
      ok_bind, isSource, ok_bind, if_neg (by omega),
      mulU_ok (by rw [isTotal]; omega), ok_bind, isTotal, isRange,
      mulU_ok (by omega), ok_bind, isDepth]
    dsimp only
    rw [isWidth, counted, ok_bind, chosen, ok_bind]
    dsimp only
    rw [valuesCount, castU_ok (by omega), ok_bind]
    rw [made, ok_bind, rowsFilled, ok_bind, mapped, ok_bind]
    rfl
  · intro restored ran
    obtain ⟨palette', indices', front, outs, back, undone⟩ :=
      invPalette_undone ran
    have lists := undone.before
    have frontEmpty : front = [] :=
      List.length_eq_zero_iff.1 undone.frontCount
    rw [frontEmpty] at lists
    obtain ⟨rfl, rest⟩ := List.cons.inj lists
    obtain ⟨rfl, _⟩ := List.cons.inj rest
    obtain ⟨size, samples⟩ :=
      source.fill_spec fun y x => indices.getD (y * w + x) 0
    have inHeight : 0 < source.h := Nat.one_pos
    have inWidth : 0 < source.w := by
      have isWidth : source.w = w := rfl
      omega
    have height : palette.h = 4 :=
      (pch.fill_spec _).1.h
    have written : channelsWritten 0 4 .zero = 4 := rfl
    obtain ⟨channel, _, _, shown⟩ :=
      undone.shown 0 (by rw [height, written]; decide)
    obtain ⟨entry, isEntry, _⟩ :=
      shown 0 0 (size.h ▸ inHeight) (size.w ▸ inWidth)
    have isSample := samples 0 0 inHeight inWidth
    have member : indices.getD (0 * w + 0) 0 ∈ indices := by
      rw [Nat.zero_mul, List.getD_eq_getElem?_getD,
        List.getElem?_eq_getElem (by omega), Option.getD_some]
      exact List.getElem_mem _
    have fits :=
      narrow_of_lookup (by rw [isSample]; exact natural _ member) isEntry
    have width : palette.w = w :=
      (pch.fill_spec _).1.w
    rw [width] at fits
    unfold kLargeCubeOffset at fits
    omega

/-- Neither other shifts come back, nor a palette that is too wide. -/
theorem not_palette_reverses :
    ¬ (∀ coded t,
        fwdPalette (fun _ _ => true) shiftedImage 0 1 = .ok (coded, t) →
        PaletteReverses shiftedImage coded t) ∧
      ¬ ∀ coded t,
        fwdPalette (fun _ _ => true) (colorfulImage (2 ^ 31 - 64)) 0 3 =
            .ok (coded, t) →
        PaletteReverses (colorfulImage (2 ^ 31 - 64)) coded t := by
  constructor
  · intro reverses
    have restores :
        ((fwdPalette (fun _ _ => true) shiftedImage 0 1).bind fun result =>
            invPalette result.1 result.2.begin_c result.2.nb_deltas
              result.2.predictor).toOption.map
          (fun restored => restored.channels.map Channel.hshift) =
          some [0, 0] := by
      decide +kernel
    cases returned : fwdPalette (fun _ _ => true) shiftedImage 0 1 with
    | error fault =>
        rw [returned] at restores
        cases restores
    | ok result =>
        obtain ⟨restored, isRestored, _, same⟩ :=
          reverses result.1 result.2 returned
        rw [returned] at restores
        change
          (invPalette result.1 result.2.begin_c result.2.nb_deltas
              result.2.predictor).toOption.map
            (fun restored => restored.channels.map Channel.hshift) =
            some [0, 0] at restores
        rw [isRestored] at restores
        have shifts : restored.channels.map Channel.hshift = [0, 0] :=
          Option.some.inj restores
        have original : restored.channels.map Channel.hshift = [0, 1] :=
          List.forall₂_eq_eq_eq ▸
            List.forall₂_map_left_iff.2
              (List.forall₂_map_right_iff.2
                (same.imp fun _ _ equal => equal.hshift))
        rw [shifts] at original
        exact absurd original (by decide)
  · intro reverses
    obtain ⟨coded, t, ran, fails⟩ :=
      @fwdPalette_colorful (fun _ _ => true) (2 ^ 31 - 64) (by decide)
        (by decide)
    obtain ⟨restored, isRestored, _⟩ := reverses coded t ran
    exact fails restored isRestored

/--
Palettes with differences are undone, whoever chose the differences: every
sample of the range comes back, and the other channels are untouched.
-/
theorem fwdPaletteWithDeltas_undone
    (lumaLe : List Int32 → List Int32 → Bool)
    (image : ModularImage)
    (begin_c end_c : Nat)
    (predictor : Predictor)
    (behind : image.nb_meta_channels ≤ begin_c) :
    (∀ delta_values coded t,
      fwdPaletteWithDeltas lumaLe image begin_c end_c delta_values predictor =
          .ok (coded, t) →
      t.nb_colors + t.nb_deltas + 64 < 2 ^ 31 →
      PaletteUndoes image coded begin_c end_c t) ∧
      ∀ chooseCommonDeltaTuples max_deltas coded t,
        fwdPaletteAutoDeltas chooseCommonDeltaTuples lumaLe image begin_c end_c
            max_deltas predictor =
          .ok (coded, t) →
        t.nb_colors + t.nb_deltas + 64 < 2 ^ 31 →
        PaletteUndoes image coded begin_c end_c t := by
  have undone :
      ∀ delta_values coded t,
        fwdPaletteWithDeltas lumaLe image begin_c end_c delta_values predictor =
            .ok (coded, t) →
        t.nb_colors + t.nb_deltas + 64 < 2 ^ 31 →
        PaletteUndoes image coded begin_c end_c t := by
    intro delta_values coded t ran narrow
    obtain ⟨someDeltas, shows⟩ := fwdPaletteWithDeltas_shows behind ran narrow
    refine shows.undoes narrow ?_
    unfold channelsWritten
    exact if_neg fun plain => absurd plain.1 (Nat.ne_of_gt someDeltas)
  refine ⟨undone, ?_⟩
  intro chooseCommonDeltaTuples max_deltas coded t ran
  obtain ⟨delta_values, _, ran⟩ := bind_eq_ok.1 ran
  exact undone delta_values coded t ran

theorem fwdPaletteWithDeltas_undone_rgb :
    ∃ coded t,
      fwdPaletteWithDeltas (fun _ _ => true) paletteImage 0 2 [0, 0, 0]
          .gradient =
        .ok (coded, t) ∧
        PaletteUndoes paletteImage coded 0 2 t := by
  have width :
      (fwdPaletteWithDeltas (fun _ _ => true) paletteImage 0 2 [0, 0, 0]
            .gradient).toOption.map
          (fun result => result.2.nb_colors + result.2.nb_deltas) =
        some 4 := by
    decide +kernel
  cases returned :
      fwdPaletteWithDeltas (fun _ _ => true) paletteImage 0 2 [0, 0, 0]
        .gradient with
  | error fault =>
      rw [returned] at width
      cases width
  | ok result =>
      rw [returned] at width
      have isWidth : result.2.nb_colors + result.2.nb_deltas = 4 :=
        Option.some.inj width
      exact ⟨result.1, result.2, rfl,
        (fwdPaletteWithDeltas_undone (fun _ _ => true) paletteImage 0 2
          .gradient (by decide)).1 [0, 0, 0] result.1 result.2 returned
          (by omega)⟩

/-- One pixel, which is no difference from its prediction. -/
def blankImage : ModularImage where
  channels := [{ w := 1, h := 1 }]

/-- With too many differences a palette can be too wide to be looked up. -/
theorem fwdPaletteWithDeltas_blank
    (lumaLe : List Int32 → List Int32 → Bool)
    {count : Nat}
    (narrow : count < 2 ^ 31)
    (wide : 2 ^ 31 ≤ count + 64) :
    ∃ coded t,
      fwdPaletteWithDeltas lumaLe blankImage 0 0 (List.replicate count 0)
          .zero =
        .ok (coded, t) ∧
        ∀ restored,
          invPalette coded t.begin_c t.nb_deltas t.predictor ≠
            .ok restored := by
  obtain ⟨others, rfl⟩ : ∃ others, count = others + 1 :=
    ⟨count - 1, by omega⟩
  let source : Channel := { w := 1, h := 1 }
  let pch : Channel := Channel.create (0 + (others + 1)) 1 (-1) (-1)
  let deltas : List (List Int32) :=
    (List.range (others + 1)).map
      (deltaTuple (List.replicate (others + 1) 0) 1)
  let palette : Channel :=
    pch.fill fun c color_index => ((deltas ++ []).getD color_index []).getD c 0
  have chosen :
      chooseWithDeltas [source] 8 (List.replicate (others + 1) 0) (others + 1)
          .zero 0 {} 0 =
        .ok { choices := [.delta 0] } := by
    have matched :
        matchesDelta [source] (List.replicate (others + 1) 0) .zero 0 0 0 =
          .ok true := by
      have residual : toI32 ((0 : Int32).toInt - (0 : Int32).toInt) = .ok 0 := by
        decide
      unfold matchesDelta
      simp only [List.zipIdx_cons, List.zipIdx_nil, allOf]
      have isZero :
          toI32 ((source.sample 0 0).toInt -
              (predictPaletteSlowPath source 0 0 .zero).toInt) =
            .ok 0 :=
        residual
      rw [isZero, List.replicate_succ]
      rfl
    unfold chooseWithDeltas
    rw [List.range_succ_eq_map]
    unfold firstOf
    rw [matched, ok_bind]
    rfl
  have checked : checkEqualChannels blankImage 0 0 = .ok () := rfl
  have made :
      metaPalette blankImage 0 0 0 (others + 1) =
        .ok {
          blankImage with
          nb_meta_channels := 1
          channels := [pch, source] } := by
    unfold metaPalette
    rw [checked, ok_bind, subU_ok (by decide), ok_bind, addU_ok (by decide),
      ok_bind]
    have isCount :
        metaPaletteCount blankImage.nb_meta_channels 0 (0 - 0 + 1) = .ok 1 :=
      rfl
    rw [isCount, ok_bind, addU_ok (by omega), ok_bind]
    rfl
  have rowsFilled :
      fillPalette
          { blankImage with
            nb_meta_channels := 1
            channels := [pch, source] }
          1 (deltas ++ []) =
        .ok {
          blankImage with
          nb_meta_channels := 1
          channels := [palette, source] } := by
    unfold fillPalette
    have isFirst : index [pch, source] 0 = .ok pch := rfl
    dsimp only
    rw [isFirst, ok_bind, if_neg]
    · rfl
    · have rows : (deltas ++ []).length = others + 1 := by
        rw [List.append_nil, List.length_map, List.length_range]
      have width : pch.w = 0 + (others + 1) := rfl
      have height : pch.h = 1 := rfl
      omega
  let filled : Channel := source.fill fun y x => [0].getD (y * 1 + x) 0
  let coded : ModularImage :=
    { blankImage with
      nb_meta_channels := 1
      channels := [palette, filled] }
  refine ⟨coded, {
    id := .palette
    begin_c := 0
    num_c := 1
    nb_colors := 0
    nb_deltas := others + 1 }, ?_, ?_⟩
  · unfold fwdPaletteWithDeltas
    have isSource : index blankImage.channels 0 = .ok source := rfl
    have isRange : 0 - 0 + 1 = 1 := rfl
    have isDepth : min blankImage.bitdepth 24 = 8 := rfl
    have channels : paletteRange blankImage 0 1 = [source] := rfl
    have height : source.h = 1 := rfl
    have width : source.w = 1 := rfl
    have scanned :
        (List.range 1).foldlM
            (fun build y =>
              (List.range 1).foldlM
                (chooseWithDeltas [source] 8 (List.replicate (others + 1) 0)
                  (others + 1) .zero y)
                build)
            ({} : PaletteBuild) =
          .ok { choices := [.delta 0] } := by
      rw [List.range_one, List.foldlM_cons, List.foldlM_cons, chosen, ok_bind]
      rfl
    rw [if_neg (by decide), if_neg (by rw [List.length_replicate]; omega),
      checked, ok_bind, subU_ok (by decide), ok_bind, addU_ok (by decide),
      ok_bind, isRange, List.length_replicate, if_neg (by omega), isSource,
      ok_bind, if_neg (by decide), mulU_ok (by decide), ok_bind, channels,
      isDepth, height, width, Nat.div_one]
    dsimp only
    rw [scanned, ok_bind]
    have noColors : castU 32 ([] : List (List Int32)).length = .ok 0 := rfl
    rw [noColors, ok_bind, castU_ok (by omega), ok_bind]
    have order :
        reorderExplicitPaletteByLuma lumaLe [] 1 = ([], List.range 0) :=
      rfl
    dsimp only
    rw [order, made, ok_bind]
    dsimp only
    rw [rowsFilled, ok_bind]
    rfl
  · intro restored ran
    obtain ⟨palette', indices', front, outs, back, undone⟩ :=
      invPalette_undone ran
    have lists := undone.before
    have frontEmpty : front = [] :=
      List.length_eq_zero_iff.1 undone.frontCount
    rw [frontEmpty] at lists
    obtain ⟨rfl, rest⟩ := List.cons.inj lists
    obtain ⟨rfl, _⟩ := List.cons.inj rest
    obtain ⟨size, samples⟩ :=
      source.fill_spec fun y x => [0].getD (y * 1 + x) 0
    have height : palette.h = 1 := (pch.fill_spec _).1.h
    have written : channelsWritten (others + 1) 1 .zero = 1 := rfl
    obtain ⟨channel, _, _, shown⟩ :=
      undone.shown 0 (by rw [height, written]; decide)
    obtain ⟨entry, isEntry, _⟩ :=
      shown 0 0 (size.h ▸ Nat.one_pos) (size.w ▸ Nat.one_pos)
    have isSample := samples 0 0 Nat.one_pos Nat.one_pos
    have natural : 0 ≤ ([0].getD (0 * 1 + 0) (0 : Int32)).toInt := by
      decide
    have fits :=
      narrow_of_lookup (by rw [isSample]; exact natural) isEntry
    have width : palette.w = 0 + (others + 1) := (pch.fill_spec _).1.w
    rw [width] at fits
    unfold kLargeCubeOffset at fits
    omega

theorem not_paletteUndoes_blank :
    ¬ ∀ coded t,
      fwdPaletteWithDeltas (fun _ _ => true) blankImage 0 0
          (List.replicate (2 ^ 31 - 64) 0) .zero =
        .ok (coded, t) →
      PaletteUndoes blankImage coded 0 0 t := by
  intro undoes
  obtain ⟨coded, t, ran, fails⟩ :=
    @fwdPaletteWithDeltas_blank (fun _ _ => true) (2 ^ 31 - 64) (by decide)
      (by decide)
  obtain ⟨restored, _, isRestored, _⟩ := undoes coded t ran
  exact fails restored isRestored

end Jxlz.Modular
