import Jxlz.Base.Search
import Jxlz.Modular.Palette

namespace Jxlz.Channel

/-- Writing all rows of a plane. -/
def fill
    (self : Channel)
    (values : Nat → Nat → Int32) :
    Channel :=
  (List.range self.h).foldl
    (fun channel y => channel.setRow y (values y)) self

theorem fill_spec
    (self : Channel)
    (values : Nat → Nat → Int32) :
    (self.fill values).SameSize self ∧
      ∀ y x,
        y < self.h →
        x < self.w →
        (self.fill values).sample y x = values y x := by
  suffices filled :
      ∀ count,
        let channel :=
          (List.range count).foldl
            (fun (channel : Channel) y => channel.setRow y (values y)) self
        channel.SameSize self ∧
          ∀ y x,
            y < count → x < self.w → channel.sample y x = values y x from
    filled self.h
  intro count
  induction count with
  | zero =>
      exact ⟨.refl self, fun y x below => absurd below (Nat.not_lt_zero y)⟩
  | succ count inductionHypothesis =>
      obtain ⟨size, samples⟩ := inductionHypothesis
      dsimp only
      rw [List.range_succ, List.foldl_append, List.foldl_cons, List.foldl_nil]
      refine ⟨(sameSize_setRow _ _ _).trans size, ?_⟩
      intro y x below inWidth
      rw [sample_setRow, size.w]
      rcases Nat.lt_succ_iff_lt_or_eq.1 below with before | rfl
      · rw [if_neg (fun here => Nat.ne_of_lt before here.1)]
        exact samples y x before inWidth
      · rw [if_pos ⟨rfl, inWidth⟩]

end Jxlz.Channel

namespace Jxlz.Modular

/-!
# Making palettes

Mirrors `fwdPalette`, `fwdPaletteWithDeltas` and `reorderExplicitPaletteByLuma`
of `transform.zig`.  The flat arrays of colours are lists of colours.  The luma
of a colour is a floating point number, so the comparison of two of them is a
parameter: colours are sorted, in whatever order it gives.
-/

def kImplicitPaletteSize : Nat := 189

/-- A colour that the decoder makes up behind an empty palette. -/
def matchesImplicit
    (color : List Int32)
    (bit_depth : Int)
    (implicit_offset : Nat) :
    Checked Bool :=
  allOf
    (fun (item : Int32 × Nat) => do
      let entry ←
        getPaletteValue { w := 0, h := 0 } implicit_offset item.2 0 bit_depth
      return decide (entry = item.1))
    color.zipIdx

def findImplicitPaletteOffset
    (color : List Int32)
    (bit_depth : Int) :
    Checked (Option Nat) :=
  if color.length = 0 ∨ kRgbChannels < color.length then
    .ok none
  else
    firstOf (matchesImplicit color bit_depth) (List.range kImplicitPaletteSize)

/-- The channels from `begin_c` on that become a palette. -/
def paletteRange
    (image : ModularImage)
    (begin_c num_channels : Nat) :
    List Channel :=
  (image.channels.drop begin_c).take num_channels

/-- The samples of the channels at one position. -/
def colorAt
    (channels : List Channel)
    (y x : Nat) :
    List Int32 :=
  channels.map fun channel => channel.sample y x

/-- What a pixel is coded as. -/
inductive IndexChoice where
  | delta (delta_index : Nat)
  | explicit (palette_index : Nat)
  | implicit (implicit_offset : Nat)
  deriving Repr, DecidableEq

/-- The colours of the palette and the choices of the pixels so far. -/
structure PaletteBuild where
  values : List (List Int32) := []
  choices : List IndexChoice := []
  deriving Repr, DecidableEq

/-- The next pixel is coded without a new colour. -/
def PaletteBuild.choose
    (self : PaletteBuild)
    (choice : IndexChoice) :
    PaletteBuild :=
  { self with choices := self.choices ++ [choice] }

/-- The next pixel is a colour of the palette, which may be a new one. -/
def PaletteBuild.chooseExplicit
    (self : PaletteBuild)
    (color : List Int32) :
    Checked PaletteBuild :=
  match self.values.idxOf? color with
  | some found => do
      let palette_index ← castU 32 found
      return self.choose (.explicit palette_index)
  | none => do
      let new_index ← castU 32 self.values.length
      let grown := { self with values := self.values ++ [color] }
      return grown.choose (.explicit new_index)

/-- The place of each row in an order of them. -/
def inverseRemap
    (remap : List Nat)
    (nb_colors : Nat) :
    List Nat :=
  remap.zipIdx.foldl
    (fun inverse_remap (item : Nat × Nat) => inverse_remap.set item.1 item.2)
    (List.replicate nb_colors 0)

/--
The rows of a palette by their luma, in a stable order, and the places where the
old rows are now.
-/
def reorderExplicitPaletteByLuma
    (lumaLe : List Int32 → List Int32 → Bool)
    (values : List (List Int32))
    (num_channels : Nat) :
    List (List Int32) × List Nat :=
  let nb_colors := values.length
  if num_channels < 3 ∨ nb_colors ≤ 1 then
    (values, List.range nb_colors)
  else
    -- The sorted part is kept backwards: a row is compared with the last first.
    let sorted :=
      (List.range nb_colors).foldl
        (fun sorted current =>
          sorted.orderedInsert
            (fun current prev =>
              lumaLe (values.getD prev []) (values.getD current []) = true)
            current)
        []
    let remap := sorted.reverse
    (remap.map fun old_index => values.getD old_index [],
      inverseRemap remap nb_colors)

/-- The rows of the palette channel, a column for each colour. -/
def fillPalette
    (image : ModularImage)
    (num_channels : Nat)
    (rows : List (List Int32)) :
    Checked ModularImage := do
  let palette_channel ← index image.channels 0
  if palette_channel.h ≠ num_channels ∨ palette_channel.w ≠ rows.length then
    fail .GenericError
  else
    let filled :=
      palette_channel.fill fun c color_index =>
        (rows.getD color_index []).getD c 0
    return { image with channels := image.channels.set 0 filled }

/--
The index of a choice: differences first, then colours, and behind them what the
decoder makes up.
-/
def choiceIndex
    (num_delta_tuples nb_colors : Nat)
    (explicit_remap : List Nat) :
    IndexChoice → Checked Int32
  | .delta delta_index => toI32 delta_index
  | .explicit palette_index => do
      let place ← index explicit_remap palette_index
      toI32 (num_delta_tuples + place : Nat)
  | .implicit implicit_offset =>
      toI32 (num_delta_tuples + nb_colors + implicit_offset : Nat)

/-- The indices go where the first channel of the range was. -/
def fillIndices
    (image : ModularImage)
    (begin_c : Nat)
    (indices : List Int32) :
    Checked ModularImage := do
  let first ← addU 32 begin_c 1
  let index_channel ← index image.channels first
  let filled :=
    index_channel.fill fun y x => indices.getD (y * index_channel.w + x) 0
  return { image with channels := image.channels.set first filled }

/-- The colours that occur behind the palette, counted. -/
def countImplicit
    (channels : List Channel)
    (w : Nat)
    (bit_depth : Int)
    (implicit_counts : List Nat)
    (pixel_index : Nat) :
    Checked (List Nat) := do
  let color := colorAt channels (pixel_index / w) (pixel_index % w)
  match ← findImplicitPaletteOffset color bit_depth with
  | some implicit_offset =>
      let count ← index implicit_counts implicit_offset
      let more ← addU 64 count 1
      return implicit_counts.set implicit_offset more
  | none => return implicit_counts

def frequent_implicit_threshold : Nat := 10

/-- The choice for a pixel: a rare colour behind the palette stays there. -/
def choosePalette
    (channels : List Channel)
    (w : Nat)
    (bit_depth : Int)
    (implicit_counts : List Nat)
    (build : PaletteBuild)
    (pixel_index : Nat) :
    Checked PaletteBuild := do
  let color := colorAt channels (pixel_index / w) (pixel_index % w)
  match ← findImplicitPaletteOffset color bit_depth with
  | some implicit_offset =>
      let count ← index implicit_counts implicit_offset
      if count ≤ frequent_implicit_threshold then
        return build.choose (.implicit implicit_offset)
      else
        build.chooseExplicit color
  | none => build.chooseExplicit color

/-- Explicit colours, without differences. -/
def fwdPalette
    (lumaLe : List Int32 → List Int32 → Bool)
    (image : ModularImage)
    (begin_c end_c : Nat) :
    Checked (ModularImage × Transform) :=
  if end_c < begin_c ∨ image.channels.length ≤ end_c then
    fail .GenericError
  else do
    checkEqualChannels image begin_c end_c
    let between ← subU end_c begin_c
    let num_channels ← addU 32 between 1
    let source ← index image.channels begin_c
    if source.w = 0 ∨ source.h = 0 then
      fail .GenericError
    else
      let total ← mulU 64 source.w source.h
      let _ ← mulU 64 total num_channels
      let channels := paletteRange image begin_c num_channels
      let bit_depth := min image.bitdepth 24
      let implicit_counts ←
        (List.range total).foldlM (countImplicit channels source.w bit_depth)
          (List.replicate kImplicitPaletteSize 0)
      let build ←
        (List.range total).foldlM
          (choosePalette channels source.w bit_depth implicit_counts) {}
      let nb_colors ← castU 32 build.values.length
      let (values, explicit_remap) :=
        reorderExplicitPaletteByLuma lumaLe build.values num_channels
      let image ← metaPalette image begin_c end_c nb_colors 0
      let image ← fillPalette image num_channels values
      let indices ←
        build.choices.mapM (choiceIndex 0 nb_colors explicit_remap)
      let image ← fillIndices image begin_c indices
      return (image, {
        id := .palette
        begin_c
        num_c := num_channels
        nb_colors
        nb_deltas := 0
        predictor := .zero })

/-- The encoder's copy of the predictions behind a palette. -/
def predictPaletteSlowPath
    (channel : Channel)
    (x y : Nat)
    (predictor : Predictor) :
    Int32 :=
  let left := if 0 < x then channel.sample y (x - 1) else 0
  match predictor with
  | .zero => 0
  | .left => left
  | .gradient =>
      let top := if 0 < y then channel.sample (y - 1) x else left
      let topleft :=
        if 0 < x ∧ 0 < y then channel.sample (y - 1) (x - 1) else left
      Int32.ofInt
        (ContextPredict.clampedGradient 32 left.toInt top.toInt topleft.toInt)
  | _ => left

/-- Whether the channels of a pixel are a difference on top of the predictions. -/
def matchesDelta
    (channels : List Channel)
    (delta_values : List Int32)
    (predictor : Predictor)
    (y x : Nat)
    (delta_index : Nat) :
    Checked Bool :=
  allOf
    (fun (item : Channel × Nat) => do
      let actual := item.1.sample y x
      let pred := predictPaletteSlowPath item.1 x y predictor
      let residual ← toI32 (actual.toInt - pred.toInt)
      let value ← index delta_values (delta_index * channels.length + item.2)
      return decide (value = residual))
    channels.zipIdx

/-- The choice for a pixel: the first difference, or a colour. -/
def chooseWithDeltas
    (channels : List Channel)
    (bit_depth : Int)
    (delta_values : List Int32)
    (num_delta_tuples : Nat)
    (predictor : Predictor)
    (y : Nat)
    (build : PaletteBuild)
    (x : Nat) :
    Checked PaletteBuild := do
  let found_delta ←
    firstOf (matchesDelta channels delta_values predictor y x)
      (List.range num_delta_tuples)
  match found_delta with
  | some delta_index =>
      let delta_index ← castU 32 delta_index
      return build.choose (.delta delta_index)
  | none =>
      let color := colorAt channels y x
      match ← findImplicitPaletteOffset color bit_depth with
      | some implicit_offset => return build.choose (.implicit implicit_offset)
      | none => build.chooseExplicit color

/-- One of the differences of a caller. -/
def deltaTuple
    (delta_values : List Int32)
    (num_channels delta_index : Nat) :
    List Int32 :=
  (delta_values.drop (delta_index * num_channels)).take num_channels

/-- Explicit colours, and differences that the caller chose. -/
def fwdPaletteWithDeltas
    (lumaLe : List Int32 → List Int32 → Bool)
    (image : ModularImage)
    (begin_c end_c : Nat)
    (delta_values : List Int32)
    (predictor : Predictor) :
    Checked (ModularImage × Transform) :=
  if end_c < begin_c ∨ image.channels.length ≤ end_c then
    fail .GenericError
  else if delta_values.length = 0 then
    fail .GenericError
  else do
    checkEqualChannels image begin_c end_c
    let between ← subU end_c begin_c
    let num_channels ← addU 32 between 1
    if delta_values.length % num_channels ≠ 0 then
      fail .GenericError
    else
      let num_delta_tuples := delta_values.length / num_channels
      let source ← index image.channels begin_c
      if source.w = 0 ∨ source.h = 0 then
        fail .GenericError
      else
        let _ ← mulU 64 source.w source.h
        let channels := paletteRange image begin_c num_channels
        let bit_depth := min image.bitdepth 24
        let build ←
          (List.range source.h).foldlM
            (fun build y =>
              (List.range source.w).foldlM
                (chooseWithDeltas channels bit_depth delta_values
                  num_delta_tuples predictor y)
                build)
            {}
        let nb_colors ← castU 32 build.values.length
        let nb_deltas ← castU 32 num_delta_tuples
        let (values, explicit_remap) :=
          reorderExplicitPaletteByLuma lumaLe build.values num_channels
        let image ← metaPalette image begin_c end_c nb_colors nb_deltas
        let deltas :=
          (List.range num_delta_tuples).map
            (deltaTuple delta_values num_channels)
        let image ← fillPalette image num_channels (deltas ++ values)
        let indices ←
          build.choices.mapM
            (choiceIndex num_delta_tuples nb_colors explicit_remap)
        let image ← fillIndices image begin_c indices
        return (image, {
          id := .palette
          begin_c
          num_c := num_channels
          nb_colors
          nb_deltas
          predictor })

/--
Differences that are chosen from the image; the choice compares distances, which
are floating point numbers.
-/
def fwdPaletteAutoDeltas
    (chooseCommonDeltaTuples :
      ModularImage → Nat → Nat → Nat → Predictor → Checked (List Int32))
    (lumaLe : List Int32 → List Int32 → Bool)
    (image : ModularImage)
    (begin_c end_c max_deltas : Nat)
    (predictor : Predictor) :
    Checked (ModularImage × Transform) := do
  let delta_values ←
    chooseCommonDeltaTuples image begin_c end_c max_deltas predictor
  fwdPaletteWithDeltas lumaLe image begin_c end_c delta_values predictor

end Jxlz.Modular
