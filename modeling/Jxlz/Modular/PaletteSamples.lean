import Jxlz.Base.Raster
import Jxlz.Modular.MetaPalette

namespace Jxlz.Modular

/-!
# The samples behind a palette

Both paths of `invPalette` store, for every pixel, what `Shown` says: the
palette's entry for the index, on top of the prediction if the index is one of
a difference.  The slow path predicts from the samples that it has restored
before, and these do not change any more.
-/

section

variable {palette indices : Channel}
variable {palette_size bit_depth : Int}
variable {nb_deltas c0 nb c : Nat}
variable {predictor : Predictor}

/-- What a plane holds where an index was looked up. -/
def Shown
    (palette indices : Channel)
    (palette_size bit_depth : Int)
    (nb_deltas : Nat)
    (predictor : Predictor)
    (c : Nat)
    (sample : Nat → Nat → Int32)
    (y x : Nat) :
    Prop :=
  ∃ entry,
    getPaletteValue palette (indices.sample y x).toInt c palette_size
        bit_depth = .ok entry ∧
      sample y x =
        if (indices.sample y x).toInt < nb_deltas then
          pixelAdd (predictPalette predictor sample y x) entry
        else
          entry

variable {y x : Nat}

/-- A prediction only depends on samples that a scan has passed, not right of it. -/
theorem predictPalette_congr
    {sample other : Nat → Nat → Int32}
    (same :
      ∀ row column,
        Passed y x row column →
        column ≤ x → sample row column = other row column)
    (predictor : Predictor) :
    predictPalette predictor sample y x =
      predictPalette predictor other y x := by
  have left :
      (if 0 < x then sample y (x - 1) else 0) =
        if 0 < x then other y (x - 1) else 0 := by
    split
    next inner =>
      exact same y (x - 1) (.inr ⟨rfl, Nat.sub_lt inner Nat.one_pos⟩)
        (Nat.sub_le x 1)
    next first =>
      rfl
  have top :
      0 < y → sample (y - 1) x = other (y - 1) x := by
    intro below
    exact same (y - 1) x (.inl (Nat.sub_lt below Nat.one_pos)) (Nat.le_refl x)
  have topleft :
      0 < x ∧ 0 < y → sample (y - 1) (x - 1) = other (y - 1) (x - 1) := by
    intro inner
    exact same (y - 1) (x - 1) (.inl (Nat.sub_lt inner.2 Nat.one_pos))
      (Nat.sub_le x 1)
  unfold predictPalette
  dsimp only
  rw [left]
  cases predictor with
  | gradient =>
      dsimp only
      by_cases below : 0 < y
      · rw [if_pos below, if_pos below, top below]
        by_cases inner : 0 < x ∧ 0 < y
        · rw [if_pos inner, if_pos inner, topleft inner]
        · rw [if_neg inner, if_neg inner]
      · have notInner : ¬ (0 < x ∧ 0 < y) := fun inner => below inner.2
        rw [if_neg below, if_neg below, if_neg notInner, if_neg notInner]
  | _ =>
      rfl

/-- A sample that is stored in front of the scan changes nothing behind it. -/
theorem Shown.set
    {channel : Channel}
    {y x row column : Nat}
    {value : Int32}
    (shown :
      Shown palette indices palette_size bit_depth nb_deltas predictor c
        channel.sample row column)
    (passed : Passed y x row column) :
    Shown palette indices palette_size bit_depth nb_deltas predictor c
      (channel.set y x value).sample row column := by
  obtain ⟨entry, isEntry, isSample⟩ := shown
  have elsewhere :
      ∀ row' column',
        (row' = row ∧ column' = column) ∨ Passed row column row' column' →
        channel.sample row' column' =
          (channel.set y x value).sample row' column' := by
    intro row' column' before
    rw [Channel.sample_set, if_neg]
    unfold Passed at passed before
    omega
  refine ⟨entry, isEntry, ?_⟩
  rw [← elsewhere row column (.inl ⟨rfl, rfl⟩), isSample,
    predictPalette_congr
      (fun row' column' before _ => elsewhere row' column' (.inr before))]

/-- One pixel of the slow path. -/
theorem palettePixel_shown
    {channel next : Channel}
    (ran :
      palettePixel palette palette_size bit_depth nb_deltas predictor
        indices.sample c y channel x = .ok next) :
    ∃ value,
      next = channel.set y x value ∧
        Shown palette indices palette_size bit_depth nb_deltas predictor c
          next.sample y x := by
  unfold palettePixel at ran
  obtain ⟨entry, isEntry, ran⟩ := bind_eq_ok.1 ran
  obtain ⟨deltas, isDeltas, ran⟩ := bind_eq_ok.1 ran
  rw [(castU_eq_ok isDeltas).1] at ran
  have unchanged :
      ∀ value,
        predictPalette predictor channel.sample y x =
          predictPalette predictor (channel.set y x value).sample y x := by
    intro value
    refine predictPalette_congr (fun row column before _ => ?_) predictor
    rw [Channel.sample_set, if_neg]
    unfold Passed at before
    omega
  have here :
      ∀ value, (channel.set y x value).sample y x = value := by
    intro value
    rw [Channel.sample_set, if_pos ⟨rfl, rfl⟩]
  split at ran
  next difference =>
    cases ran
    refine ⟨_, rfl, entry, isEntry, ?_⟩
    rw [here, if_pos difference, ← unchanged]
  next colour =>
    cases ran
    refine ⟨_, rfl, entry, isEntry, ?_⟩
    rw [here, if_neg colour]

/-- One channel of the slow path. -/
theorem paletteChannel_shown
    {channel result : Channel}
    (ran :
      paletteChannel palette palette_size bit_depth nb_deltas predictor indices
        c channel = .ok result) :
    result.SameSize channel ∧
      ∀ y x,
        y < indices.h →
        x < indices.w →
        Shown palette indices palette_size bit_depth nb_deltas predictor c
          result.sample y x := by
  have scanned :=
    raster_of_ok
      (fun y x (state : Channel) =>
        state.SameSize channel ∧
          ∀ row column,
            column < indices.w →
            Passed y x row column →
            Shown palette indices palette_size bit_depth nb_deltas
              predictor c state.sample row column)
      ran
      ⟨.refl channel,
        fun row column _ passed => absurd passed (not_passed_start row column)⟩
      ?_ ?_
  · refine ⟨scanned.1, ?_⟩
    intro y x inHeight inWidth
    exact scanned.2 y x inWidth (passed_end.2 inHeight)
  · rintro y x state next _ _ step ⟨size, shown⟩
    obtain ⟨value, rfl, here⟩ := palettePixel_shown step
    refine ⟨⟨size.w, size.h, size.hshift, size.vshift⟩, ?_⟩
    intro row column inWidth passed
    rcases passed_succ.1 passed with before | ⟨rfl, rfl⟩
    · exact (shown row column inWidth before).set before
    · exact here
  · rintro y state ⟨size, shown⟩
    refine ⟨size, ?_⟩
    intro row column inWidth passed
    exact shown row column inWidth ((passed_next_row inWidth).1 passed)

/--
The channels `c0 .. c0 + nb` were written from their indices; the others are as
they were.
-/
structure AllShown
    (palette indices : Channel)
    (palette_size bit_depth : Int)
    (nb_deltas : Nat)
    (predictor : Predictor)
    (c0 nb : Nat)
    (channels result : List Channel) :
    Prop where
  length :
    result.length = channels.length
  others :
    ∀ place, place < c0 ∨ c0 + nb ≤ place → result[place]? = channels[place]?
  shown :
    ∀ c old,
      c < nb →
      channels[c0 + c]? = some old →
      ∃ channel,
        result[c0 + c]? = some channel ∧
          channel.SameSize old ∧
          ∀ y x,
            y < indices.h →
            x < indices.w →
            Shown palette indices palette_size bit_depth nb_deltas
              predictor c channel.sample y x

variable {channels result : List Channel}

/-- The slow path, channel by channel. -/
theorem paletteSlow_shown
    (ran :
      paletteSlow palette palette_size bit_depth nb_deltas predictor indices c0
        nb channels = .ok result) :
    AllShown palette indices palette_size bit_depth nb_deltas predictor c0 nb
      channels result := by
  refine
    foldlM_range_of_ok
      (fun count state =>
        AllShown palette indices palette_size bit_depth nb_deltas predictor c0
          count channels state)
      ran ?_ ?_
  · exact
      ⟨rfl, fun _ _ => rfl, fun c _ below => absurd below (Nat.not_lt_zero c)⟩
  · intro count state next _ step before
    obtain ⟨old, isOld, step⟩ := bind_eq_ok.1 step
    obtain ⟨new, isNew, step⟩ := bind_eq_ok.1 step
    cases step
    have found := index_eq_ok.1 isOld
    have inside := (List.getElem?_eq_some_iff.1 found).1
    obtain ⟨size, shown⟩ := paletteChannel_shown isNew
    refine ⟨?_, ?_, ?_⟩
    · rw [List.length_set, before.length]
    · intro place outside
      rw [List.getElem?_set, if_neg (by omega)]
      exact before.others place (by omega)
    · intro c original below isOriginal
      rw [List.getElem?_set]
      rcases Nat.lt_succ_iff_lt_or_eq.1 below with earlier | rfl
      · rw [if_neg (by omega)]
        exact before.shown c original earlier isOriginal
      · rw [if_pos rfl, if_pos inside]
        rw [before.others (c0 + c) (Or.inr (Nat.le_refl _)), isOriginal] at found
        cases found
        exact ⟨new, rfl, size, shown⟩

/-- A palette without differences and predictions shows its entries. -/
theorem shown_zero
    {sample : Nat → Nat → Int32}
    {entry : Int32}
    (isEntry :
      getPaletteValue palette (indices.sample y x).toInt c palette_size
        bit_depth = .ok entry)
    (isSample : sample y x = entry) :
    Shown palette indices palette_size bit_depth 0 .zero c sample y x := by
  refine ⟨entry, isEntry, ?_⟩
  have added : pixelAdd (predictPalette .zero sample y x) entry = entry := by
    unfold pixelAdd predictPalette
    exact Int32.zero_add entry
  rw [added, ite_self, isSample]

/-- A channel of the fast path is written up to a position. -/
def ShownTo
    (palette indices : Channel)
    (palette_size bit_depth : Int)
    (c y x : Nat)
    (old channel : Channel) :
    Prop :=
  channel.SameSize old ∧
    ∀ row column,
      column < indices.w →
      (Passed y x row column →
      Shown palette indices palette_size bit_depth 0 .zero c channel.sample
        row column) ∧
    (¬ Passed y x row column →
      channel.sample row column = old.sample row column)

/-- The fast path has written `count` channels at a position, the others before it. -/
structure FastShown
    (palette indices : Channel)
    (palette_size bit_depth : Int)
    (c0 nb y x count : Nat)
    (channels state : List Channel) :
    Prop where
  length :
    state.length = channels.length
  others :
    ∀ place, place < c0 ∨ c0 + nb ≤ place → state[place]? = channels[place]?
  shown :
    ∀ c old,
      c < nb →
      channels[c0 + c]? = some old →
      ∃ channel,
        state[c0 + c]? = some channel ∧
          ShownTo palette indices palette_size bit_depth c y
            (if c < count then x + 1 else x) old channel

/-- Storing an entry moves a channel past the position. -/
theorem ShownTo.set
    {old channel : Channel}
    {entry : Int32}
    (isEntry :
      getPaletteValue palette (indices.sample y x).toInt c palette_size
        bit_depth = .ok entry)
    (shownTo :
      ShownTo palette indices palette_size bit_depth c y x old channel) :
    ShownTo palette indices palette_size bit_depth c y (x + 1) old
      (channel.set y x entry) := by
  obtain ⟨size, samples⟩ := shownTo
  refine ⟨⟨size.w, size.h, size.hshift, size.vshift⟩, ?_⟩
  intro row column inWidth
  obtain ⟨behind, ahead⟩ := samples row column inWidth
  refine ⟨?_, ?_⟩
  · intro passed
    rcases passed_succ.1 passed with before | ⟨rfl, rfl⟩
    · exact (behind before).set before
    · refine shown_zero isEntry ?_
      rw [Channel.sample_set, if_pos ⟨rfl, rfl⟩]
  · intro notPassed
    rw [passed_succ, not_or] at notPassed
    rw [Channel.sample_set, if_neg notPassed.2]
    exact ahead notPassed.1

/-- One pixel of the fast path. -/
theorem palettePoint_shown
    {channels state next : List Channel}
    (positive : 0 < nb)
    (inWidth : x < indices.w)
    (isIndices : channels[c0]? = some indices)
    (ran :
      palettePoint palette palette_size bit_depth c0 nb y state x = .ok next)
    (before :
      FastShown palette indices palette_size bit_depth c0 nb y x 0 channels
        state) :
    FastShown palette indices palette_size bit_depth c0 nb y (x + 1) 0 channels
      next := by
  unfold palettePoint at ran
  obtain ⟨first, isFirst, ran⟩ := bind_eq_ok.1 ran
  have here : first.sample y x = indices.sample y x := by
    obtain ⟨channel, isChannel, _, samples⟩ :=
      before.shown 0 indices positive isIndices
    rw [Nat.add_zero, index_eq_ok.1 isFirst] at isChannel
    cases isChannel
    refine (samples y x inWidth).2 ?_
    rw [if_neg (Nat.lt_irrefl 0)]
    unfold Passed
    omega
  rw [here] at ran
  have wrote :
      FastShown palette indices palette_size bit_depth c0 nb y x nb channels
        next := by
    refine
      foldlM_range_of_ok
        (fun count state =>
          FastShown palette indices palette_size bit_depth c0 nb y x count
            channels state)
        ran before ?_
    intro count state next inside step keeps
    obtain ⟨entry, isEntry, step⟩ := bind_eq_ok.1 step
    obtain ⟨channel, isChannel, step⟩ := bind_eq_ok.1 step
    cases step
    have found := index_eq_ok.1 isChannel
    have inState := (List.getElem?_eq_some_iff.1 found).1
    refine ⟨?_, ?_, ?_⟩
    · rw [List.length_set, keeps.length]
    · intro place outside
      rw [List.getElem?_set, if_neg (by omega)]
      exact keeps.others place outside
    · intro c old below isOld
      obtain ⟨other, isOther, shownTo⟩ := keeps.shown c old below isOld
      rw [List.getElem?_set]
      by_cases same : c = count
      · subst same
        rw [found] at isOther
        cases isOther
        rw [if_neg (Nat.lt_irrefl c)] at shownTo
        rw [if_pos rfl, if_pos inState, if_pos (Nat.lt_succ_self c)]
        exact ⟨_, rfl, shownTo.set isEntry⟩
      · rw [if_neg (by omega)]
        refine ⟨other, isOther, ?_⟩
        have unchanged :
            (if c < count + 1 then x + 1 else x) =
              if c < count then x + 1 else x :=
          if_congr (by omega) rfl rfl
        rw [unchanged]
        exact shownTo
  refine ⟨wrote.length, wrote.others, ?_⟩
  intro c old below isOld
  obtain ⟨channel, isChannel, shownTo⟩ := wrote.shown c old below isOld
  rw [if_pos below] at shownTo
  rw [if_neg (Nat.not_lt_zero c)]
  exact ⟨channel, isChannel, shownTo⟩

/-- The fast path, pixel by pixel. -/
theorem paletteFast_shown
    (positive : 0 < nb)
    (isIndices : channels[c0]? = some indices)
    (ran :
      paletteFast palette palette_size bit_depth c0 nb indices.w indices.h
        channels = .ok result) :
    AllShown palette indices palette_size bit_depth 0 .zero c0 (min nb 256)
      channels result := by
  have some : 0 < min nb 256 := by
    omega
  have scanned :=
    raster_of_ok
      (fun y x state =>
        FastShown palette indices palette_size bit_depth c0 (min nb 256) y x 0
          channels state)
      ran ?_ ?_ ?_
  · refine ⟨scanned.length, scanned.others, ?_⟩
    intro c old below isOld
    obtain ⟨channel, isChannel, size, samples⟩ :=
      scanned.shown c old below isOld
    refine ⟨channel, isChannel, size, ?_⟩
    intro y x inHeight inWidth
    rw [if_neg (Nat.not_lt_zero c)] at samples
    exact (samples y x inWidth).1 (passed_end.2 inHeight)
  · refine ⟨rfl, fun _ _ => rfl, ?_⟩
    intro c old below isOld
    rw [if_neg (Nat.not_lt_zero c)]
    refine ⟨old, isOld, .refl old, ?_⟩
    intro row column _
    exact ⟨fun passed => absurd passed (not_passed_start row column),
      fun _ => rfl⟩
  · intro y x state next _ inWidth step before
    exact palettePoint_shown some inWidth isIndices step before
  · intro y state atEnd
    refine ⟨atEnd.length, atEnd.others, ?_⟩
    intro c old below isOld
    obtain ⟨channel, isChannel, size, samples⟩ := atEnd.shown c old below isOld
    rw [if_neg (Nat.not_lt_zero c)] at samples ⊢
    refine ⟨channel, isChannel, size, ?_⟩
    intro row column inWidth
    rw [passed_next_row inWidth]
    exact samples row column inWidth

/-- The channels that the path for this palette writes. -/
def channelsWritten
    (nb_deltas nb : Nat)
    (predictor : Predictor) :
    Nat :=
  if nb_deltas = 0 ∧ predictor = .zero then min nb 256 else nb

/-- The palette and the indices leave no choice for the samples of a plane. -/
theorem shown_unique
    {first second : Nat → Nat → Int32}
    (firstShown :
      ∀ y x,
        y < indices.h →
        x < indices.w →
        Shown palette indices palette_size bit_depth nb_deltas predictor c
          first y x)
    (secondShown :
      ∀ y x,
        y < indices.h →
        x < indices.w →
        Shown palette indices palette_size bit_depth nb_deltas predictor c
          second y x) :
    ∀ y x, y < indices.h → x < indices.w → first y x = second y x := by
  -- Along the scan: the predictions only use samples that are already equal.
  intro y
  induction y using Nat.strong_induction_on with
  | _ y above =>
      intro x
      induction x using Nat.strong_induction_on with
      | _ x before =>
          intro inHeight inWidth
          have passed :
              ∀ row column,
                Passed y x row column →
                column ≤ x → first row column = second row column := by
            rintro row column (higher | ⟨rfl, left⟩) inside
            · exact above row higher column (by omega) (by omega)
            · exact before column left inHeight (by omega)
          obtain ⟨entry, isEntry, isFirst⟩ := firstShown y x inHeight inWidth
          obtain ⟨other, isOther, isSecond⟩ := secondShown y x inHeight inWidth
          rw [isEntry] at isOther
          cases isOther
          rw [isFirst, isSecond, predictPalette_congr passed]

/-- Both paths show the palette behind the indices. -/
theorem paletteSamples_shown
    (positive : 0 < nb)
    (isIndices : channels[c0]? = some indices)
    (ran :
      paletteSamples palette indices palette_size bit_depth nb_deltas predictor
        c0 nb channels = .ok result) :
    AllShown palette indices palette_size bit_depth nb_deltas predictor c0
      (channelsWritten nb_deltas nb predictor) channels result := by
  unfold paletteSamples at ran
  split at ran
  next empty =>
    cases ran
    refine ⟨rfl, fun _ _ => rfl, ?_⟩
    intro c old _ isOld
    refine ⟨old, isOld, .refl old, ?_⟩
    intro y x _ inWidth
    omega
  next some =>
    unfold channelsWritten
    split at ran
    next fast =>
      obtain ⟨rfl, rfl⟩ := fast
      rw [if_pos ⟨rfl, rfl⟩]
      exact paletteFast_shown positive isIndices ran
    next slow =>
      rw [if_neg slow]
      exact paletteSlow_shown ran

end

/-- A list around one of its places. -/
theorem exists_split
    {channels : List Channel}
    {place : Nat}
    {channel : Channel}
    (isChannel : channels[place]? = some channel) :
    ∃ front back,
      channels = front ++ channel :: back ∧ front.length = place := by
  obtain ⟨inside, rfl⟩ := List.getElem?_eq_some_iff.1 isChannel
  refine ⟨channels.take place, channels.drop (place + 1), ?_, ?_⟩
  · rw [← List.drop_eq_getElem_cons inside, List.take_append_drop]
  · rw [List.length_take]
    omega

/-- Places outside a run do not change, so the lists only differ in the run. -/
theorem AllShown.split
    {palette indices : Channel}
    {palette_size bit_depth : Int}
    {nb_deltas count : Nat}
    {predictor : Predictor}
    {front run back result : List Channel}
    (shown :
      AllShown palette indices palette_size bit_depth nb_deltas predictor
        front.length count (front ++ (run ++ back)) result)
    (within : count ≤ run.length) :
    ∃ outs,
      result = front ++ (outs ++ back) ∧ outs.length = run.length := by
  have length := shown.length
  rw [List.length_append, List.length_append] at length
  refine ⟨(result.drop front.length).take run.length, ?_, ?_⟩
  · apply List.ext_getElem?
    intro place
    by_cases before : place < front.length
    · rw [shown.others place (.inl before), List.getElem?_append_left before,
        List.getElem?_append_left before]
    · by_cases behind : front.length + run.length ≤ place
      · rw [shown.others place (.inr (by omega))]
        rw [List.getElem?_append_right (by omega),
          List.getElem?_append_right (by omega),
          List.getElem?_append_right (by omega),
          List.getElem?_append_right
            (by rw [List.length_take, List.length_drop]; omega)]
        congr 1
        rw [List.length_take, List.length_drop]
        omega
      · rw [List.getElem?_append_right (by omega),
          List.getElem?_append_left
            (by rw [List.length_take, List.length_drop]; omega),
          List.getElem?_take, if_pos (by omega), List.getElem?_drop]
        congr 1
        omega
  · rw [List.length_take, List.length_drop]
    omega

/-- The channels of an image before and after its palette is undone. -/
structure PaletteUndone
    (image restored : ModularImage)
    (begin_c nb_deltas : Nat)
    (predictor : Predictor)
    (palette indices : Channel)
    (front outs back : List Channel) :
    Prop where
  before :
    image.channels = palette :: (front ++ indices :: back)
  frontCount :
    front.length = begin_c
  after :
    restored.channels = front ++ (outs ++ back)
  outCount :
    outs.length = palette.h
  shown :
    ∀ c,
      c < channelsWritten nb_deltas palette.h predictor →
      ∃ channel,
        outs[c]? = some channel ∧
          channel.SameSize indices ∧
          ∀ y x,
            y < indices.h →
            x < indices.w →
            Shown palette indices palette.w (min image.bitdepth 24)
              nb_deltas predictor c channel.sample y x

/-- What `invPalette` returns, whenever it returns. -/
theorem invPalette_undone
    {image restored : ModularImage}
    {begin_c nb_deltas : Nat}
    {predictor : Predictor}
    (ran : invPalette image begin_c nb_deltas predictor = .ok restored) :
    ∃ palette indices front outs back,
      PaletteUndone image restored begin_c nb_deltas predictor palette indices
        front outs back := by
  unfold invPalette at ran
  split at ran
  · cases ran
  · obtain ⟨palette, isPalette, ran⟩ := bind_eq_ok.1 ran
    dsimp only at ran
    obtain ⟨c0, isFirst, ran⟩ := bind_eq_ok.1 ran
    obtain ⟨rfl, _⟩ := addU_eq_ok isFirst
    split at ran
    · cases ran
    · obtain ⟨indices, isIndices, ran⟩ := bind_eq_ok.1 ran
      split at ran
      · cases ran
      next notFlat =>
        obtain ⟨palette_size, isSize, ran⟩ := bind_eq_ok.1 ran
        rw [(castU_eq_ok isSize).1] at ran
        obtain ⟨channels, areShown, ran⟩ := bind_eq_ok.1 ran
        obtain ⟨nb_meta_channels, _, ran⟩ := bind_eq_ok.1 ran
        cases ran
        obtain ⟨first, rest, split, noFirst⟩ :=
          exists_split (index_eq_ok.1 isPalette)
        rw [List.length_eq_zero_iff.1 noFirst, List.nil_append] at split
        have isIndices' := index_eq_ok.1 isIndices
        rw [split, List.getElem?_cons_succ] at isIndices'
        obtain ⟨front, back, rfl, frontCount⟩ := exists_split isIndices'
        subst frontCount
        have positive : 0 < palette.h := by
          omega
        have place : front.length + 1 = (palette :: front).length := rfl
        have inserted :=
          foldl_insertIdx_run (palette :: front) back indices
            (Channel.create indices.w indices.h indices.hshift indices.vshift)
            (palette.h - 1)
        have shape :
            image.channels = (palette :: front) ++ indices :: back :=
          split
        rw [shape, place, inserted] at areShown
        have shown :=
          paletteSamples_shown positive (getElem?_append_length _ _ _) areShown
        have written :
            channelsWritten nb_deltas palette.h predictor ≤ palette.h := by
          unfold channelsWritten
          split
          · exact Nat.min_le_left _ _
          · exact Nat.le_refl _
        have runCount :
            (indices ::
              List.replicate (palette.h - 1)
                (Channel.create indices.w indices.h indices.hshift
                  indices.vshift)).length = palette.h := by
          rw [List.length_cons, List.length_replicate]
          omega
        obtain ⟨outs, isResult, outCount⟩ :=
          @AllShown.split _ _ _ _ _ _ _ (palette :: front)
            (indices ::
              List.replicate (palette.h - 1)
                (Channel.create indices.w indices.h indices.hshift
                  indices.vshift))
            back channels shown (by rw [runCount]; exact written)
        refine ⟨palette, indices, front, outs, back, split, rfl, ?_, ?_, ?_⟩
        · rw [isResult]
          rfl
        · rw [outCount, runCount]
        · intro c below
          have inRun : c < palette.h := Nat.lt_of_lt_of_le below written
          obtain ⟨old, isOld, oldSize⟩ :
              ∃ old,
                ((palette :: front) ++
                    indices ::
                      (List.replicate (palette.h - 1)
                          (Channel.create indices.w indices.h indices.hshift
                            indices.vshift) ++ back))[(palette :: front).length +
                      c]? = some old ∧
                  old.SameSize indices := by
            rw [List.getElem?_append_right (Nat.le_add_right _ _),
              Nat.add_sub_cancel_left]
            cases c with
            | zero =>
                exact ⟨indices, rfl, .refl indices⟩
            | succ c =>
                rw [List.getElem?_cons_succ,
                  List.getElem?_append_left
                    (by rw [List.length_replicate]; omega),
                  List.getElem?_replicate, if_pos (by omega)]
                exact ⟨_, rfl, rfl, rfl, rfl, rfl⟩
          obtain ⟨channel, isChannel, size, samples⟩ :=
            shown.shown c old below isOld
          refine ⟨channel, ?_, size.trans oldSize, samples⟩
          rw [isResult, List.getElem?_append_right (Nat.le_add_right _ _),
            Nat.add_sub_cancel_left,
            List.getElem?_append_left (by rw [outCount, runCount]; exact inRun)]
            at isChannel
          exact isChannel

end Jxlz.Modular
