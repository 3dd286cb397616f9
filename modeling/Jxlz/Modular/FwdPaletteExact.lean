import Jxlz.Modular.PaletteRoundTrip

namespace Jxlz.Modular

/-!
# What the palette encoders return

Both encoders scan the pixels, move the colours, take the channels down and
store the indices.  The scan keeps that every choice shows its pixel.
-/

section

variable {lumaLe : List Int32 → List Int32 → Bool}
variable {image coded : ModularImage}
variable {begin_c end_c : Nat}
variable {t : Transform}

/-- A transform for a range whose palette shows the range. -/
structure Shows
    (image coded : ModularImage)
    (begin_c end_c : Nat)
    (t : Transform) :
    Prop where
  first : t.begin_c = begin_c
  count : t.num_c = end_c - begin_c + 1
  inside : begin_c ≤ end_c ∧ end_c < image.channels.length
  fits : RunFits image t
  shown :
    ∃ after front middle back index pch palette indices,
      PaletteCoded t image after coded front middle back index pch palette
        indices

/-- The choices of a scan over all pixels by their number. -/
theorem choosePalette_run
    {channels : List Channel}
    {bit_depth : Int}
    {deltas : List (List Int32)}
    {predictor : Predictor}
    {w total : Nat}
    {implicit_counts : List Nat}
    {build : PaletteBuild}
    (ran :
      (List.range total).foldlM
          (choosePalette channels w bit_depth implicit_counts) {} =
        .ok build) :
    BuildShows channels bit_depth deltas predictor w total build := by
  refine
    foldlM_range_of_ok
      (fun position build =>
        BuildShows channels bit_depth deltas predictor w position build)
      ran ?_ ?_
  · refine ⟨rfl, Nat.le_refl 0, ?_⟩
    intro pixel_index choice isChoice
    cases isChoice
  · intro position build next _ step before
    exact choosePalette_shows before step

/-- The palette that `fwdPalette` returns shows its range. -/
theorem fwdPalette_shows
    (behind : image.nb_meta_channels ≤ begin_c)
    (ran : fwdPalette lumaLe image begin_c end_c = .ok (coded, t))
    (narrow : t.nb_colors + 64 < 2 ^ 31) :
    t.nb_deltas = 0 ∧ t.predictor = .zero ∧
      Shows image coded begin_c end_c t := by
  unfold fwdPalette at ran
  split at ran
  · cases ran
  next inside =>
    obtain ⟨_, _, ran⟩ := bind_eq_ok.1 ran
    obtain ⟨between, isBetween, ran⟩ := bind_eq_ok.1 ran
    obtain ⟨rfl, ordered⟩ := subU_eq_ok isBetween
    obtain ⟨num_channels, isCount, ran⟩ := bind_eq_ok.1 ran
    obtain ⟨rfl, count⟩ := addU_eq_ok isCount
    obtain ⟨source, isSource, ran⟩ := bind_eq_ok.1 ran
    split at ran
    · cases ran
    · obtain ⟨total, isTotal, ran⟩ := bind_eq_ok.1 ran
      obtain ⟨rfl, _⟩ := mulU_eq_ok isTotal
      obtain ⟨_, _, ran⟩ := bind_eq_ok.1 ran
      obtain ⟨implicit_counts, _, ran⟩ := bind_eq_ok.1 ran
      obtain ⟨build, isBuild, ran⟩ := bind_eq_ok.1 ran
      obtain ⟨nb_colors, isColors, ran⟩ := bind_eq_ok.1 ran
      obtain ⟨rfl, _⟩ := castU_eq_ok isColors
      obtain ⟨after, made, ran⟩ := bind_eq_ok.1 ran
      obtain ⟨filled, rowsFilled, ran⟩ := bind_eq_ok.1 ran
      obtain ⟨indices, areIndices, ran⟩ := bind_eq_ok.1 ran
      obtain ⟨stored, indicesFilled, ran⟩ := bind_eq_ok.1 ran
      cases ran
      have isEnd : begin_c + (end_c - begin_c + 1) - 1 = end_c := by
        omega
      have shows :=
        @paletteCoded
          { id := .palette, begin_c, num_c := end_c - begin_c + 1
            nb_colors := build.values.length, nb_deltas := 0
            predictor := .zero }
          image after filled coded source [] _ build _ indices
          ⟨Nat.succ_pos _, count⟩ behind (by simpa using narrow)
          (index_eq_ok.1 isSource) (choosePalette_run isBuild)
          (reordered lumaLe build.values (end_c - begin_c + 1)) rfl rfl
          (by dsimp only; rw [isEnd]; exact made) rowsFilled areIndices
          indicesFilled
      obtain ⟨fits, shown⟩ := shows
      exact ⟨rfl, rfl, rfl, rfl, ⟨ordered, by omega⟩, fits, after, shown⟩

/-- The choices of a scan over all pixels, row by row. -/
theorem chooseWithDeltas_run
    {channels : List Channel}
    {bit_depth : Int}
    {delta_values : List Int32}
    {predictor : Predictor}
    {w h : Nat}
    {build : PaletteBuild}
    (ran :
      (List.range h).foldlM
          (fun build y =>
            (List.range w).foldlM
              (chooseWithDeltas channels bit_depth delta_values
                (delta_values.length / channels.length) predictor y)
              build)
          {} =
        .ok build) :
    BuildShows channels bit_depth
      ((List.range (delta_values.length / channels.length)).map
        (deltaTuple delta_values channels.length))
      predictor w (w * h) build := by
  have scanned :=
    raster_of_ok
      (fun y x build =>
        BuildShows channels bit_depth
          ((List.range (delta_values.length / channels.length)).map
            (deltaTuple delta_values channels.length))
          predictor w (y * w + x) build)
      ran ?_ ?_ ?_
  · rw [Nat.mul_comm w h]
    exact scanned
  · rw [Nat.zero_mul]
    refine ⟨rfl, Nat.le_refl 0, ?_⟩
    intro pixel_index choice isChoice
    cases isChoice
  · intro y x build next _ inWidth step before
    have row : (y * w + x) / w = y := by
      rw [Nat.mul_comm, Nat.mul_add_div (Nat.zero_lt_of_lt inWidth),
        Nat.div_eq_of_lt inWidth, Nat.add_zero]
    have column : (y * w + x) % w = x := by
      rw [Nat.mul_comm, Nat.mul_add_mod, Nat.mod_eq_of_lt inWidth]
    have stepHere :
        chooseWithDeltas channels bit_depth delta_values
            (delta_values.length / channels.length) predictor
            ((y * w + x) / w) build ((y * w + x) % w) =
          .ok next := by
      rw [row, column]
      exact step
    exact chooseWithDeltas_shows before stepHere
  · intro y build atEnd
    rw [Nat.succ_mul]
    exact atEnd

/-- The palette that `fwdPaletteWithDeltas` returns shows its range. -/
theorem fwdPaletteWithDeltas_shows
    {delta_values : List Int32}
    {predictor : Predictor}
    (behind : image.nb_meta_channels ≤ begin_c)
    (ran :
      fwdPaletteWithDeltas lumaLe image begin_c end_c delta_values predictor =
        .ok (coded, t))
    (narrow : t.nb_colors + t.nb_deltas + 64 < 2 ^ 31) :
    0 < t.nb_deltas ∧ Shows image coded begin_c end_c t := by
  unfold fwdPaletteWithDeltas at ran
  split at ran
  · cases ran
  next inside =>
    split at ran
    · cases ran
    next someDeltas =>
      obtain ⟨_, _, ran⟩ := bind_eq_ok.1 ran
      obtain ⟨between, isBetween, ran⟩ := bind_eq_ok.1 ran
      obtain ⟨rfl, ordered⟩ := subU_eq_ok isBetween
      obtain ⟨num_channels, isCount, ran⟩ := bind_eq_ok.1 ran
      obtain ⟨rfl, count⟩ := addU_eq_ok isCount
      split at ran
      · cases ran
      next whole =>
        obtain ⟨source, isSource, ran⟩ := bind_eq_ok.1 ran
        split at ran
        · cases ran
        · obtain ⟨_, _, ran⟩ := bind_eq_ok.1 ran
          obtain ⟨build, isBuild, ran⟩ := bind_eq_ok.1 ran
          obtain ⟨nb_colors, isColors, ran⟩ := bind_eq_ok.1 ran
          obtain ⟨rfl, _⟩ := castU_eq_ok isColors
          obtain ⟨nb_deltas, areDeltas, ran⟩ := bind_eq_ok.1 ran
          obtain ⟨rfl, _⟩ := castU_eq_ok areDeltas
          obtain ⟨after, made, ran⟩ := bind_eq_ok.1 ran
          obtain ⟨filled, rowsFilled, ran⟩ := bind_eq_ok.1 ran
          obtain ⟨indices, areIndices, ran⟩ := bind_eq_ok.1 ran
          obtain ⟨stored, indicesFilled, ran⟩ := bind_eq_ok.1 ran
          cases ran
          have isEnd : begin_c + (end_c - begin_c + 1) - 1 = end_c := by
            omega
          have rangeCount :
              (paletteRange image begin_c (end_c - begin_c + 1)).length =
                end_c - begin_c + 1 := by
            unfold paletteRange
            rw [List.length_take, List.length_drop]
            omega
          have builds :=
            @chooseWithDeltas_run
              (paletteRange image begin_c (end_c - begin_c + 1))
              (min image.bitdepth 24) delta_values predictor source.w source.h
              build (by rw [rangeCount]; exact isBuild)
          rw [rangeCount] at builds
          have shows :=
            @paletteCoded
              { id := .palette, begin_c, num_c := end_c - begin_c + 1
                nb_colors := build.values.length
                nb_deltas := delta_values.length / (end_c - begin_c + 1)
                predictor }
              image after filled coded source _ _ build _ indices
              ⟨Nat.succ_pos _, count⟩ behind narrow (index_eq_ok.1 isSource)
              builds (reordered lumaLe build.values (end_c - begin_c + 1)) rfl
              (by rw [List.length_map, List.length_range])
              (by dsimp only; rw [isEnd]; exact made) rowsFilled
              (by rw [List.length_map, List.length_range]; exact areIndices)
              indicesFilled
          obtain ⟨fits, shown⟩ := shows
          refine ⟨?_, rfl, rfl, ⟨ordered, by omega⟩, fits, after, shown⟩
          have atLeast :
              end_c - begin_c + 1 ≤ delta_values.length :=
            Nat.le_of_dvd (Nat.pos_of_ne_zero someDeltas)
              (Nat.dvd_of_mod_eq_zero (not_not.1 whole))
          exact Nat.div_pos atLeast (Nat.succ_pos _)

end

end Jxlz.Modular
