import Jxlz.Modular.Transform

namespace Jxlz.Modular

/-!
# Palettes

Mirrors `getPaletteValue`, `invPalette` and `undoTransforms` of
`transform.zig`.  An index is looked up in the palette, in one of two colour
cubes behind it, or, if it is negative, in a table of differences.
-/

def kRgbChannels : Nat := 3
def kLargeCube : Int := 5
def kSmallCube : Int := 4
def kSmallCubeBits : Nat := 2
def kLargeCubeOffset : Int := 64

def kDeltaPalette : List (List Int) :=
  [[0, 0, 0], [4, 4, 4], [11, 0, 0],
    [0, 0, -13], [0, -12, 0], [-10, -10, -10],
    [-18, -18, -18], [-27, -27, -27], [-18, -18, 0],
    [0, 0, -32], [-32, 0, 0], [-37, -37, -37],
    [0, -32, -32], [24, 24, 45], [50, 50, 50],
    [-45, -24, -24], [-24, -45, -45], [0, -24, -24],
    [-34, -34, 0], [-24, 0, -24], [-45, -45, -24],
    [64, 64, 64], [-32, 0, -32], [0, -32, 0],
    [-32, 0, 32], [-24, -45, -24], [45, 24, 45],
    [24, -24, -45], [-45, -24, 24], [80, 80, 80],
    [64, 0, 0], [0, 0, -64], [0, -64, -64],
    [-24, -24, 45], [96, 96, 96], [64, 64, 0],
    [45, -24, -24], [34, -34, 0], [112, 112, 112],
    [24, -45, -45], [45, 45, -24], [0, -32, 32],
    [24, -24, 45], [0, 96, 96], [45, -24, 24],
    [24, -45, -24], [-24, -45, 24], [0, -64, 0],
    [96, 0, 0], [128, 128, 128], [64, 0, 64],
    [144, 144, 144], [96, 96, 0], [-36, -36, 36],
    [45, -24, -45], [45, -45, -24], [0, 0, -96],
    [0, 128, 128], [0, 96, 0], [45, 24, -45],
    [-128, 0, 0], [24, -45, 24], [-45, 24, -45],
    [64, 0, -64], [64, -64, -64], [96, 0, 96],
    [45, -45, 24], [24, 45, -45], [64, 64, -64],
    [128, 128, 0], [0, 0, -128], [-24, 45, -45]]

/-- The depth of the samples as an amount of a shift, which is not negative. -/
def depthAmount
    (bit_depth : Int) :
    Checked Nat :=
  if 0 ≤ bit_depth then .ok bit_depth.toNat else .error .trap

def scalePalette
    (denom value : Nat)
    (bit_depth : Int) :
    Checked Int32 := do
  let amount ← depthAmount bit_depth
  toI32 ((value * (2 ^ amount - 1) / denom : Nat) : Int)

/-- A difference of the table, by a negative index. -/
def deltaValue
    (index : Int)
    (c : Nat)
    (bit_depth : Int) :
    Checked Int32 := do
  let index := (-(index + 1)) % (2 * (kDeltaPalette.length - 1) + 1 : Nat)
  let half_idx := ((index + 1) / 2).toNat
  let row ← Jxlz.index kDeltaPalette half_idx
  let entry ← Jxlz.index row c
  let result := entry * if index % 2 ≠ 0 then 1 else -1
  if 8 < bit_depth then
    toI32 (result * 2 ^ (bit_depth - 8).toNat)
  else
    toI32 result

/-- A colour of the cube of four values a side. -/
def smallCubeValue
    (idx : Int)
    (c : Nat)
    (bit_depth : Int) :
    Checked Int32 := do
  let idx := idx >>> (c * kSmallCubeBits)
  let scaled ← scalePalette 4 (idx % kSmallCube).toNat bit_depth
  toI32 (scaled.toInt + 2 ^ (max 0 (bit_depth - 3)).toNat)

/-- A colour of the cube of five values a side. -/
def largeCubeValue
    (idx : Int)
    (c : Nat)
    (bit_depth : Int) :
    Checked Int32 :=
  let idx :=
    if c = 1 then idx / kLargeCube
    else if c = 2 then idx / (kLargeCube * kLargeCube)
    else idx
  scalePalette 4 (idx % kLargeCube).toNat bit_depth

/-- A colour of the palette itself. -/
def tableValue
    (palette : Channel)
    (index c : Nat) :
    Int32 :=
  if index < palette.w ∧ c < palette.h then palette.sample c index else 0

/-- A colour behind the palette, in one of the two cubes. -/
def cubeValue
    (index : Int)
    (c : Nat)
    (palette_size bit_depth : Int) :
    Checked Int32 := do
  let largeCube ← addI32 palette_size kLargeCubeOffset
  if kRgbChannels ≤ c then
    return 0
  else if index < largeCube then
    smallCubeValue (index - palette_size) c bit_depth
  else
    largeCubeValue (index - palette_size - kLargeCubeOffset) c bit_depth

def getPaletteValue
    (palette : Channel)
    (index : Int)
    (c : Nat)
    (palette_size bit_depth : Int) :
    Checked Int32 :=
  if index < 0 then
    if kRgbChannels ≤ c then .ok 0 else deltaValue index c bit_depth
  else if palette_size ≤ index then
    cubeValue index c palette_size bit_depth
  else do
    let _ ← addI32 palette_size kLargeCubeOffset
    return tableValue palette index.toNat c

theorem scalePalette_ok
    {value : Nat}
    {bit_depth : Int}
    (small : value ≤ 4)
    (positive : 0 ≤ bit_depth)
    (shallow : bit_depth ≤ 24) :
    ∃ scaled,
      scalePalette 4 value bit_depth = .ok scaled ∧
        0 ≤ scaled.toInt ∧ scaled.toInt ≤ 2 ^ 24 := by
  have power : 2 ^ bit_depth.toNat ≤ 2 ^ 24 :=
    Nat.pow_le_pow_right (by decide) (by omega)
  have product :
      value * (2 ^ bit_depth.toNat - 1) ≤ 4 * 2 ^ 24 :=
    Nat.mul_le_mul small (by omega)
  have bound : value * (2 ^ bit_depth.toNat - 1) / 4 ≤ 2 ^ 24 := by
    omega
  generalize isScaled : value * (2 ^ bit_depth.toNat - 1) / 4 = scaled at bound
  unfold scalePalette depthAmount
  rw [if_pos positive, ok_bind, isScaled]
  have converted : toI32 (scaled : Int) = .ok (Int32.ofInt scaled) :=
    toI32_ok (by omega) (by omega)
  have isValue := toI32_eq_ok converted
  exact ⟨_, converted, by omega, by omega⟩

/-- The entries of the table of differences. -/
theorem kDeltaPalette_bounds :
    kDeltaPalette.length = 72 ∧
      ∀ row ∈ kDeltaPalette,
        row.length = 3 ∧ ∀ entry ∈ row, -144 ≤ entry ∧ entry ≤ 144 := by
  decide

theorem deltaValue_ok
    {index bit_depth : Int}
    {c : Nat}
    (coloured : c < kRgbChannels)
    (shallow : bit_depth ≤ 24) :
    ∃ value, deltaValue index c bit_depth = .ok value := by
  obtain ⟨count, rows⟩ := kDeltaPalette_bounds
  unfold deltaValue
  rw [count]
  dsimp only
  have inside :
      ((-(index + 1) % ((2 * (72 - 1) + 1 : Nat) : Int) + 1) / 2).toNat <
        kDeltaPalette.length := by
    rw [count]
    omega
  have isRow := List.getElem?_eq_getElem inside
  generalize
    kDeltaPalette[((-(index + 1) % ((2 * (72 - 1) + 1 : Nat) : Int) + 1) /
      2).toNat] = row at isRow
  obtain ⟨three, entries⟩ := rows row (List.mem_of_getElem? isRow)
  have within : c < row.length := by
    rw [three]
    exact coloured
  have isEntry := List.getElem?_eq_getElem within
  have ⟨lower, upper⟩ := entries _ (List.getElem_mem within)
  generalize row[c] = entry at isEntry lower upper
  rw [index_eq_ok.2 isRow, ok_bind, index_eq_ok.2 isEntry, ok_bind]
  have signed :
      -144 ≤ entry * (if -(index + 1) % ((2 * (72 - 1) + 1 : Nat) : Int) % 2 ≠ 0
          then 1 else -1) ∧
        entry * (if -(index + 1) % ((2 * (72 - 1) + 1 : Nat) : Int) % 2 ≠ 0
          then 1 else -1) ≤ 144 := by
    split <;> omega
  generalize
    entry * (if -(index + 1) % ((2 * (72 - 1) + 1 : Nat) : Int) % 2 ≠ 0
      then 1 else -1) = result at signed
  split
  next deep =>
    have power : (2 : Int) ^ (bit_depth - 8).toNat ≤ 2 ^ 16 :=
      pow_le_pow_right₀ (by decide) (by omega)
    have positive : (0 : Int) < 2 ^ (bit_depth - 8).toNat := by
      positivity
    exact ⟨_, toI32_ok (by nlinarith) (by nlinarith)⟩
  next plain =>
    exact ⟨_, toI32_ok (by omega) (by omega)⟩

/--
A palette that is not too wide answers every index, if the depth of the samples
is not negative.
-/
theorem getPaletteValue_ok
    (palette : Channel)
    (c : Nat)
    {index palette_size bit_depth : Int}
    (size : 0 ≤ palette_size ∧ palette_size + kLargeCubeOffset < 2 ^ 31)
    (positive : 0 ≤ bit_depth)
    (shallow : bit_depth ≤ 24) :
    ∃ value,
      getPaletteValue palette index c palette_size bit_depth = .ok value := by
  unfold kLargeCubeOffset at size
  have cube :
      addI32 palette_size kLargeCubeOffset =
        .ok (palette_size + kLargeCubeOffset) :=
    addI32_ok (by unfold kLargeCubeOffset; omega) size.2
  unfold getPaletteValue
  split
  next negative =>
    split
    next colourless =>
      exact ⟨0, rfl⟩
    next coloured =>
      exact deltaValue_ok (Nat.not_le.1 coloured) shallow
  next notNegative =>
    split
    next behind =>
      unfold cubeValue
      rw [cube, ok_bind]
      split
      next colourless =>
        exact ⟨0, rfl⟩
      next coloured =>
        split
        next small =>
          unfold smallCubeValue
          dsimp only
          obtain ⟨scaled, isScaled, lower, upper⟩ :=
            @scalePalette_ok
              (((index - palette_size) >>> (c * kSmallCubeBits)) %
                kSmallCube).toNat bit_depth
              (by unfold kSmallCube; omega) positive shallow
          have power :
              (2 : Int) ^ (max 0 (bit_depth - 3)).toNat ≤ 2 ^ 21 :=
            pow_le_pow_right₀ (by decide) (by omega)
          have notLess : (0 : Int) < 2 ^ (max 0 (bit_depth - 3)).toNat := by
            positivity
          rw [isScaled, ok_bind]
          exact ⟨_, toI32_ok (by omega) (by omega)⟩
        next large =>
          obtain ⟨scaled, isScaled, _⟩ :=
            @scalePalette_ok
              ((if c = 1 then
                  (index - palette_size - kLargeCubeOffset) / kLargeCube
                else if c = 2 then
                  (index - palette_size - kLargeCubeOffset) /
                    (kLargeCube * kLargeCube)
                else index - palette_size - kLargeCubeOffset) %
                kLargeCube).toNat bit_depth
              (by unfold kLargeCube; omega) positive shallow
          exact ⟨scaled, isScaled⟩
    next inside =>
      rw [cube, ok_bind]
      exact ⟨_, rfl⟩

/-- The palette's predictions of a pixel that a difference is added to. -/
def predictPalette
    (predictor : Predictor)
    (sample : Nat → Nat → Int32)
    (y x : Nat) :
    Int32 :=
  let left := if 0 < x then sample y (x - 1) else 0
  match predictor with
  | .zero => 0
  | .left => left
  | .gradient =>
      let top := if 0 < y then sample (y - 1) x else left
      let topleft := if 0 < x ∧ 0 < y then sample (y - 1) (x - 1) else left
      Int32.ofInt (ContextPredict.clampedGradient 32 left.toInt top.toInt topleft.toInt)
  | _ => left

/-- A pixel of a channel that indices into the palette have become. -/
def palettePixel
    (palette : Channel)
    (palette_size bit_depth : Int)
    (nb_deltas : Nat)
    (predictor : Predictor)
    (indices : Nat → Nat → Int32)
    (c y : Nat)
    (channel : Channel)
    (x : Nat) :
    Checked Channel := do
  let index := (indices y x).toInt
  let palette_entry ←
    getPaletteValue palette index c palette_size bit_depth
  let deltas ← castU 31 nb_deltas
  if index < deltas then
    let pred := predictPalette predictor channel.sample y x
    return channel.set y x (pixelAdd pred palette_entry)
  else
    return channel.set y x palette_entry

/-- One channel of the slow path. -/
def paletteChannel
    (palette : Channel)
    (palette_size bit_depth : Int)
    (nb_deltas : Nat)
    (predictor : Predictor)
    (indices : Channel)
    (c : Nat)
    (channel : Channel) :
    Checked Channel :=
  (List.range indices.h).foldlM
    (fun channel y =>
      (List.range indices.w).foldlM
        (palettePixel palette palette_size bit_depth nb_deltas predictor
          indices.sample c y)
        channel)
    channel

/-- The slow path, channel by channel, from a copy of the indices. -/
def paletteSlow
    (palette : Channel)
    (palette_size bit_depth : Int)
    (nb_deltas : Nat)
    (predictor : Predictor)
    (indices : Channel)
    (c0 nb : Nat)
    (channels : List Channel) :
    Checked (List Channel) :=
  (List.range nb).foldlM
    (fun channels c => do
      let channel ← index channels (c0 + c)
      let channel ←
        paletteChannel palette palette_size bit_depth nb_deltas predictor
          indices c channel
      return channels.set (c0 + c) channel)
    channels

/-- One pixel of the fast path: its index, and then its channels. -/
def palettePoint
    (palette : Channel)
    (palette_size bit_depth : Int)
    (c0 nb_clamped y : Nat)
    (channels : List Channel)
    (x : Nat) :
    Checked (List Channel) := do
  let indices ← index channels c0
  let position := (indices.sample y x).toInt
  (List.range nb_clamped).foldlM
    (fun channels c => do
      let value ← getPaletteValue palette position c palette_size bit_depth
      let channel ← index channels (c0 + c)
      return channels.set (c0 + c) (channel.set y x value))
    channels

/-- The fast path, row by row; it writes the first 256 channels. -/
def paletteFast
    (palette : Channel)
    (palette_size bit_depth : Int)
    (c0 nb w h : Nat)
    (channels : List Channel) :
    Checked (List Channel) :=
  (List.range h).foldlM
    (fun channels y =>
      (List.range w).foldlM
        (palettePoint palette palette_size bit_depth c0 (min nb 256) y)
        channels)
    channels

/-- The meta channels once a palette and its index are channels again. -/
def invPaletteCount
    (nb_meta_channels c0 nb : Nat) :
    Checked Nat :=
  if nb_meta_channels ≤ c0 then
    return nb_meta_channels - 1
  else do
    let more ← subU 2 nb
    return if more ≤ nb_meta_channels then nb_meta_channels - more
      else nb_meta_channels

/-- The samples of the channels that the indices stand for. -/
def paletteSamples
    (palette indices : Channel)
    (palette_size bit_depth : Int)
    (nb_deltas : Nat)
    (predictor : Predictor)
    (c0 nb : Nat)
    (channels : List Channel) :
    Checked (List Channel) :=
  if indices.w = 0 then
    .ok channels
  else if nb_deltas = 0 ∧ predictor = .zero then
    paletteFast palette palette_size bit_depth c0 nb indices.w indices.h
      channels
  else
    paletteSlow palette palette_size bit_depth nb_deltas predictor indices c0
      nb channels

def invPalette
    (image : ModularImage)
    (begin_c nb_deltas : Nat)
    (predictor : Predictor) :
    Checked ModularImage :=
  if image.nb_meta_channels < 1 then
    fail .GenericError
  else do
    let palette ← index image.channels 0
    let nb := palette.h
    let c0 ← addU 32 begin_c 1
    if image.channels.length ≤ c0 then
      fail .GenericError
    else
      let indices ← index image.channels c0
      if nb < 1 then
        fail .GenericError
      else
        let palette_size ← castU 31 palette.w
        let bit_depth := min image.bitdepth 24
        let ch :=
          Channel.create indices.w indices.h indices.hshift indices.vshift
        let channels :=
          (List.range (nb - 1)).foldl
            (fun channels _ => channels.insertIdx (c0 + 1) ch) image.channels
        let channels ←
          paletteSamples palette indices palette_size bit_depth nb_deltas
            predictor c0 nb channels
        let nb_meta_channels ←
          invPaletteCount image.nb_meta_channels c0 nb
        return { image with nb_meta_channels, channels := channels.eraseIdx 0 }

end Jxlz.Modular
