import Jxlz.Base.Raster
import Jxlz.Capi.EncoderSteps
import Jxlz.Codec.PackedSource

namespace Jxlz.Capi

open BigEndian Container Delivery EncApi

/-!
# Rows of the caller as packed rows

The samples of a row are put into big-endian order one by one.  The loops over the rows
of a frame place them in the packed buffers, with alpha between the colors or without.
-/

/-- Samples of a row in big-endian order. -/
def normalizedRow
    (builtinEndian : Endian)
    (endianness : JxlEndianness)
    (bytes count : Nat)
    (src : List UInt8) :
    List UInt8 :=
  (List.range count).flatMap fun i =>
    inOrder builtinEndian endianness (part src (i * bytes) bytes)

section

variable {builtinEndian : Endian}
variable {endianness : JxlEndianness}
variable {bytes count : Nat}
variable {src : List UInt8}

theorem length_sample
    (enough : count * bytes ≤ src.length)
    {i : Nat}
    (inside : i < count) :
    (inOrder builtinEndian endianness (part src (i * bytes) bytes)).length = bytes := by
  have room := Nat.mul_le_mul_right bytes (Nat.succ_le_of_lt inside)
  rw [Nat.succ_mul] at room
  rw [length_inOrder]
  exact length_part (room.trans enough)

theorem length_normalizedRow
    (enough : count * bytes ≤ src.length) :
    (normalizedRow builtinEndian endianness bytes count src).length = count * bytes :=
  length_flatMap_range fun _ inside => length_sample enough inside

theorem part_normalizedRow
    (enough : count * bytes ≤ src.length)
    {i : Nat}
    (inside : i < count) :
    part (normalizedRow builtinEndian endianness bytes count src) (i * bytes) bytes =
      inOrder builtinEndian endianness (part src (i * bytes) bytes) := by
  unfold normalizedRow
  rw [part_flatMap_range (fun _ inside => length_sample enough inside) inside]

/-- Where no sample is turned around, the row is what it was. -/
theorem normalizedRow_eq_take
    (keeps :
      ∀ i,
        i < count →
        inOrder builtinEndian endianness (part src (i * bytes) bytes) =
          part src (i * bytes) bytes) :
    normalizedRow builtinEndian endianness bytes count src = src.take (count * bytes) := by
  rw [← flatMap_part, normalizedRow, List.flatMap_def, List.flatMap_def]
  congr 1
  exact List.map_congr_left fun i member => keeps i (List.mem_range.1 member)

end

/-- A single byte is its own big-endian order. -/
theorem inOrder_of_length_one
    (builtinEndian : Endian)
    (endianness : JxlEndianness)
    {bytes : List UInt8}
    (single : bytes.length = 1) :
    inOrder builtinEndian endianness bytes = bytes := by
  obtain ⟨byte, rfl⟩ := List.length_eq_one_iff.1 single
  exact inOrder_singleton builtinEndian endianness byte

/-- A loaded and stored sample is its bytes in big-endian order. -/
theorem loadU16_ok
    {builtinEndian : Endian}
    {endianness : JxlEndianness}
    {src : List UInt8}
    {position : Nat}
    (inside : position + 2 ≤ src.length) :
    loadU16 builtinEndian (src.drop position) endianness =
      .ok (valueOf (inOrder builtinEndian endianness (part src position 2))) := by
  unfold loadU16
  rw [require_ok (by rw [List.length_drop]; omega)]
  rfl

/-- The formats that are accepted from the caller. -/
def PackedType
    (format : JxlPixelFormat) :
    Prop :=
  format.data_type = .uint8 ∨ format.data_type = .uint16

/-- A row of the caller is copied in big-endian order. -/
theorem copyColorRow_ok
    (builtinEndian : Endian)
    (count : Nat)
    {format : JxlPixelFormat}
    {src : List UInt8}
    (isPacked : PackedType format)
    (enough : count * bytesPerChannel format.data_type ≤ src.length) :
    copyColorRowForSimpleEncode builtinEndian (count * bytesPerChannel format.data_type)
        src format =
      .ok
        (normalizedRow builtinEndian format.endianness
          (bytesPerChannel format.data_type) count src) := by
  unfold copyColorRowForSimpleEncode
  have kept
      (keeps :
        ∀ i,
          i < count →
          inOrder builtinEndian format.endianness
              (part src (i * bytesPerChannel format.data_type)
                (bytesPerChannel format.data_type)) =
            part src (i * bytesPerChannel format.data_type)
              (bytesPerChannel format.data_type)) :
      slice src 0 (count * bytesPerChannel format.data_type) =
        .ok
          (normalizedRow builtinEndian format.endianness
            (bytesPerChannel format.data_type) count src) := by
    have whole :
        slice src 0 (0 + count * bytesPerChannel format.data_type) =
          .ok (part src 0 (count * bytesPerChannel format.data_type)) :=
      slice_ok (by rw [Nat.zero_add]; exact enough)
    rw [Nat.zero_add] at whole
    rw [whole, normalizedRow_eq_take keeps]
    rfl
  split
  next plain =>
    refine kept fun i inside => ?_
    rcases isPacked with isByte | isWord
    · refine inOrder_of_length_one _ _ ?_
      rw [← length_inOrder builtinEndian format.endianness, length_sample enough inside,
        isByte]
      rfl
    · have isBig := plain.resolve_left (not_not.2 isWord)
      unfold inOrder actualEndian
      rw [isBig]
  next turned =>
    obtain ⟨isWord, _⟩ := not_or.1 turned
    have two : bytesPerChannel format.data_type = 2 := by
      rw [not_not.1 isWord]
      rfl
    rw [two] at enough ⊢
    have count_eq : (count * 2 + 1) / 2 = count := by omega
    have samples :
        (List.range count).mapM
            (fun i => do
              let value ← loadU16 builtinEndian (src.drop (2 * i)) format.endianness
              require (2 * i + 2 ≤ count * 2)
              return bytesOf 2 value) =
          .ok
            ((List.range count).map fun i =>
              inOrder builtinEndian format.endianness (part src (i * 2) 2)) := by
      refine mapM_ok fun i member => ?_
      have inside := List.mem_range.1 member
      have length :
          (inOrder builtinEndian format.endianness (part src (i * 2) 2)).length = 2 :=
        length_sample enough inside
      have spelled := bytesOf_valueOf
        (inOrder builtinEndian format.endianness (part src (i * 2) 2))
      rw [length] at spelled
      rw [Nat.mul_comm 2 i, loadU16_ok (by omega), ok_bind, require_ok (by omega), spelled]
      rfl
    rw [count_eq, samples]
    rfl

theorem copyIntoRow_ok
    {buffer bytes : List UInt8}
    {row_start row_length offset : Nat}
    (inside : row_start + row_length ≤ buffer.length)
    (fits : offset + bytes.length ≤ row_length) :
    copyIntoRow buffer row_start row_length offset bytes =
      .ok (overwrite buffer (row_start + offset) bytes) := by
  unfold copyIntoRow
  rw [require_ok inside, ok_bind, require_ok fits]
  rfl

/-- The rows of a queued frame fit the shape that it is packed with. -/
structure RowsFit
    (frame : EncoderQueuedFrame)
    (shape : PackedShape) :
    Prop where
  isPacked : PackedType frame.image_format
  sample : shape.sample_bytes = bytesPerChannel frame.image_format.data_type
  color :
    shape.color_row_stride =
      shape.width * shape.num_color_channels * shape.sample_bytes
  row :
    shape.width * frame.image_format.num_channels * shape.sample_bytes ≤
      shape.image_stride
  image : shape.image_stride * shape.height ≤ frame.image_bytes.length

/-- The sample of the caller at a pixel, in big-endian order. -/
def callerSample
    (builtinEndian : Endian)
    (frame : EncoderQueuedFrame)
    (shape : PackedShape)
    (y x c : Nat) :
    List UInt8 :=
  inOrder builtinEndian frame.image_format.endianness
    (part frame.image_bytes
      (y * shape.image_stride +
        (x * frame.image_format.num_channels + c) * shape.sample_bytes)
      shape.sample_bytes)

/-- The packed colors are the samples of the caller. -/
structure ColorPacked
    (builtinEndian : Endian)
    (frame : EncoderQueuedFrame)
    (shape : PackedShape)
    (color_pixels : List UInt8) :
    Prop where
  length : color_pixels.length = shape.color_row_stride * shape.height
  sample :
    ∀ y x c,
      y < shape.height →
      x < shape.width →
      c < shape.num_color_channels →
      part color_pixels
          (y * shape.color_row_stride +
            (x * shape.num_color_channels * shape.sample_bytes +
              c * shape.sample_bytes))
          shape.sample_bytes =
        callerSample builtinEndian frame shape y x c

section

variable {builtinEndian : Endian}
variable {frame : EncoderQueuedFrame}
variable {shape : PackedShape}

/-- A row of colors that nothing stands between. -/
def plainRow
    (builtinEndian : Endian)
    (frame : EncoderQueuedFrame)
    (shape : PackedShape)
    (y : Nat) :
    List UInt8 :=
  normalizedRow builtinEndian frame.image_format.endianness shape.sample_bytes
    (shape.width * shape.num_color_channels)
    (part frame.image_bytes (y * shape.image_stride) shape.color_row_stride)

/-- The packed row is not longer than that of the caller. -/
theorem RowsFit.short
    (fits : RowsFit frame shape)
    (enough : shape.num_color_channels ≤ frame.image_format.num_channels) :
    shape.color_row_stride ≤ shape.image_stride := by
  have channels := Nat.mul_le_mul_left shape.width enough
  rw [fits.color]
  exact (Nat.mul_le_mul_right shape.sample_bytes channels).trans fits.row

theorem length_plainRow
    (builtinEndian : Endian)
    (fits : RowsFit frame shape)
    (enough : shape.num_color_channels ≤ frame.image_format.num_channels)
    {y : Nat}
    (inHeight : y < shape.height) :
    (plainRow builtinEndian frame shape y).length = shape.color_row_stride := by
  have short := fits.short enough
  have rowInside := row_inside inHeight fits.image
  unfold plainRow
  rw [length_normalizedRow, fits.color]
  rw [length_part (by omega), fits.color]

/-- One row is placed. -/
theorem packRow_plain
    (fits : RowsFit frame shape)
    (enough : shape.num_color_channels ≤ frame.image_format.num_channels)
    {color_pixels alpha_pixels : List UInt8}
    (length : color_pixels.length = shape.color_row_stride * shape.height)
    {y : Nat}
    (inHeight : y < shape.height) :
    packRow builtinEndian frame shape false (color_pixels, alpha_pixels) y =
      .ok
        (overwrite color_pixels (y * shape.color_row_stride)
          (plainRow builtinEndian frame shape y), alpha_pixels) := by
  have short := fits.short enough
  have rowInside := row_inside inHeight fits.image
  have outInside := row_inside inHeight (Nat.le_of_eq length.symm)
  have isLength := length_plainRow builtinEndian fits enough inHeight
  have whole :
      slice (part frame.image_bytes (y * shape.image_stride) shape.image_stride) 0
          (0 + shape.color_row_stride) =
        .ok (part frame.image_bytes (y * shape.image_stride) shape.color_row_stride) := by
    rw [slice_ok (by rw [length_part rowInside, Nat.zero_add]; exact short),
      part_part (by omega), Nat.add_zero]
  have copied :
      copyColorRowForSimpleEncode builtinEndian shape.color_row_stride
          (part frame.image_bytes (y * shape.image_stride) shape.color_row_stride)
          frame.image_format =
        .ok (plainRow builtinEndian frame shape y) := by
    have length :
        (part frame.image_bytes (y * shape.image_stride) shape.color_row_stride).length =
          shape.color_row_stride :=
      length_part (by omega)
    have isCopy :=
      copyColorRow_ok builtinEndian (shape.width * shape.num_color_channels)
        fits.isPacked
        (by rw [← fits.sample, ← fits.color]; exact Nat.le_of_eq length.symm)
    rw [← fits.sample, ← fits.color] at isCopy
    exact isCopy
  rw [Nat.zero_add] at whole
  unfold packRow
  dsimp only
  rw [slice_ok rowInside, ok_bind, if_neg (by decide), whole, ok_bind, copied, ok_bind,
    copyIntoRow_ok outInside (by omega), ok_bind, Nat.add_zero]
  rfl

/-- Rows of one length do not overlap. -/
theorem rows_apart
    {row y : Nat}
    (stride : Nat)
    (before : row < y) :
    row * stride + stride ≤ y * stride := by
  have rows := Nat.mul_le_mul_right stride (Nat.succ_le_of_lt before)
  rw [Nat.succ_mul] at rows
  exact rows

/-- The rows of colors without alpha between them. -/
theorem packRows_plain
    (builtinEndian : Endian)
    (fits : RowsFit frame shape)
    (isPlain : frame.image_format.num_channels = shape.num_color_channels)
    (alpha_pixels : List UInt8) :
    ∃ result,
      (List.range shape.height).foldlM (packRow builtinEndian frame shape false)
          (List.replicate (shape.color_row_stride * shape.height) 0, alpha_pixels) =
        .ok result ∧
        ColorPacked builtinEndian frame shape result.1 ∧ result.2 = alpha_pixels := by
  have enough := Nat.le_of_eq isPlain.symm
  refine ok_mono
    (foldlM_range_ok
      (fun y pixels =>
        Placed (fun row => row * shape.color_row_stride)
            (plainRow builtinEndian frame shape) (fun row => row < y ∧ row < shape.height)
            (List.replicate (shape.color_row_stride * shape.height) 0) pixels.1 ∧
          pixels.2 = alpha_pixels)
      shape.height ⟨.nothing _ fun row isWritten => Nat.not_lt_zero row isWritten.1, rfl⟩
      ?_) ?_
  · rintro y ⟨color_pixels, _⟩ inHeight ⟨placed, rfl⟩
    have length : color_pixels.length = shape.color_row_stride * shape.height := by
      rw [placed.length, List.length_replicate]
    have isLength := length_plainRow builtinEndian fits enough inHeight
    have room := row_inside inHeight (Nat.le_of_eq length.symm)
    refine ⟨_, packRow_plain fits enough length inHeight,
      placed.write y (by rw [isLength]; exact room) ?_ ?_, rfl⟩
    · intro row isWritten
      rw [length_plainRow builtinEndian fits enough isWritten.2]
      exact .inl (rows_apart _ isWritten.1)
    · intro row
      rw [Nat.lt_succ_iff_lt_or_eq]
      constructor
      · rintro ⟨before | isRow, inside⟩
        · exact .inl ⟨before, inside⟩
        · exact .inr isRow
      · rintro (⟨before, inside⟩ | rfl)
        · exact ⟨.inl before, inside⟩
        · exact ⟨.inr rfl, inHeight⟩
  · rintro ⟨color_pixels, _⟩ ⟨placed, rfl⟩
    refine ⟨⟨?_, ?_⟩, rfl⟩
    · rw [placed.length, List.length_replicate]
    · intro y x c inHeight inWidth inColors
      have isRow := placed.placed y ⟨inHeight, inHeight⟩
      have isLength := length_plainRow builtinEndian fits enough inHeight
      have rowInside := row_inside inHeight fits.image
      have short := fits.short enough
      have inside := sample_inside shape.sample_bytes inWidth inColors
      rw [← fits.color] at inside
      have number : x * shape.num_color_channels + c <
          shape.width * shape.num_color_channels := by
        have pixels := Nat.mul_le_mul_right shape.num_color_channels
          (Nat.succ_le_of_lt inWidth)
        rw [Nat.succ_mul] at pixels
        omega
      have place :
          x * shape.num_color_channels * shape.sample_bytes + c * shape.sample_bytes =
            (x * shape.num_color_channels + c) * shape.sample_bytes := by
        rw [Nat.add_mul]
      rw [isLength] at isRow
      rw [← part_part inside, isRow, place]
      unfold plainRow
      rw [part_normalizedRow (by
        rw [← fits.color, length_part (by omega)]) number, part_part (by omega)]
      unfold callerSample
      rw [isPlain]

/-- The colors of one pixel, with alpha behind them. -/
def pixelColors
    (builtinEndian : Endian)
    (frame : EncoderQueuedFrame)
    (shape : PackedShape)
    (place : Nat × Nat) :
    List UInt8 :=
  normalizedRow builtinEndian frame.image_format.endianness shape.sample_bytes
    shape.num_color_channels
    (part frame.image_bytes
      (place.1 * shape.image_stride +
        place.2 * (shape.num_color_channels + 1) * shape.sample_bytes)
      (shape.num_color_channels * shape.sample_bytes))

/-- The alpha of one pixel, behind its colors. -/
def pixelAlpha
    (builtinEndian : Endian)
    (frame : EncoderQueuedFrame)
    (shape : PackedShape)
    (place : Nat × Nat) :
    List UInt8 :=
  normalizedRow builtinEndian frame.image_format.endianness shape.sample_bytes 1
    (part frame.image_bytes
      (place.1 * shape.image_stride +
        (place.2 * (shape.num_color_channels + 1) + shape.num_color_channels) *
          shape.sample_bytes)
      shape.sample_bytes)

/-- Pixels of one size do not overlap, in one row or in different ones. -/
theorem pixels_apart
    {row column y x width size stride : Nat}
    (passed : Passed y x row column)
    (inWidth : column < width)
    (rows : width * size ≤ stride) :
    row * stride + column * size + size ≤ y * stride + x * size := by
  rcases passed with before | ⟨rfl, before⟩
  · have inRow := Nat.mul_le_mul_right size (Nat.succ_le_of_lt inWidth)
    rw [Nat.succ_mul] at inRow
    have apart := rows_apart stride before
    omega
  · have inRow := rows_apart size before
    omega

/-- A pixel lies inside its row. -/
theorem pixel_inside
    {x width size stride : Nat}
    (inWidth : x < width)
    (rows : width * size ≤ stride) :
    x * size + size ≤ stride :=
  (rows_apart size inWidth).trans rows

/-- What the rows of a frame with alpha between the colors need. -/
structure InterleavedFit
    (frame : EncoderQueuedFrame)
    (shape : PackedShape) :
    Prop where
  rows : RowsFit frame shape
  channels : frame.image_format.num_channels = shape.num_color_channels + 1
  sample : shape.alpha_sample_bytes = shape.sample_bytes
  alpha : shape.alpha_row_stride = shape.width * shape.sample_bytes

/-- The packed alpha is that of the caller, which stands behind the colors. -/
structure AlphaPacked
    (builtinEndian : Endian)
    (frame : EncoderQueuedFrame)
    (shape : PackedShape)
    (alpha_pixels : List UInt8) :
    Prop where
  length : alpha_pixels.length = shape.alpha_row_stride * shape.height
  sample :
    ∀ y x,
      y < shape.height →
      x < shape.width →
      part alpha_pixels (y * shape.alpha_row_stride + x * shape.sample_bytes)
          shape.sample_bytes =
        callerSample builtinEndian frame shape y x shape.num_color_channels

/-- The bytes of one pixel of the caller lie inside its row. -/
theorem InterleavedFit.pixel
    (fits : InterleavedFit frame shape)
    {x : Nat}
    (inWidth : x < shape.width) :
    (x * (shape.num_color_channels + 1) + shape.num_color_channels) *
        shape.sample_bytes + shape.sample_bytes ≤
      shape.image_stride := by
  have inside :=
    sample_inside shape.sample_bytes inWidth (Nat.lt_succ_self shape.num_color_channels)
  have rows := fits.rows.row
  rw [fits.channels] at rows
  rw [Nat.add_mul]
  exact inside.trans rows

theorem length_pixelColors
    (builtinEndian : Endian)
    (fits : InterleavedFit frame shape)
    {place : Nat × Nat}
    (inHeight : place.1 < shape.height)
    (inWidth : place.2 < shape.width) :
    (pixelColors builtinEndian frame shape place).length =
      shape.num_color_channels * shape.sample_bytes := by
  have rowInside := row_inside inHeight fits.rows.image
  have pixel := fits.pixel inWidth
  rw [Nat.add_mul] at pixel
  unfold pixelColors
  exact length_normalizedRow (Nat.le_of_eq (length_part (by omega)).symm)

theorem length_pixelAlpha
    (builtinEndian : Endian)
    (fits : InterleavedFit frame shape)
    {place : Nat × Nat}
    (inHeight : place.1 < shape.height)
    (inWidth : place.2 < shape.width) :
    (pixelAlpha builtinEndian frame shape place).length = shape.sample_bytes := by
  have rowInside := row_inside inHeight fits.rows.image
  have pixel := fits.pixel inWidth
  unfold pixelAlpha
  rw [length_normalizedRow, Nat.one_mul]
  rw [length_part (by omega), Nat.one_mul]

/-- The pixels in front of a position of the scan. -/
def PixelsBefore
    (shape : PackedShape)
    (y x : Nat)
    (place : Nat × Nat) :
    Prop :=
  place.1 < shape.height ∧ place.2 < shape.width ∧ Passed y x place.1 place.2

/-- What both buffers hold when the scan stands at a pixel. -/
structure PixelsPlaced
    (builtinEndian : Endian)
    (frame : EncoderQueuedFrame)
    (shape : PackedShape)
    (y x : Nat)
    (pixels : List UInt8 × List UInt8) :
    Prop where
  color :
    Placed
      (fun place =>
        place.1 * shape.color_row_stride +
          place.2 * (shape.num_color_channels * shape.sample_bytes))
      (pixelColors builtinEndian frame shape) (PixelsBefore shape y x)
      (List.replicate (shape.color_row_stride * shape.height) 0) pixels.1
  alpha :
    Placed
      (fun place => place.1 * shape.alpha_row_stride + place.2 * shape.sample_bytes)
      (pixelAlpha builtinEndian frame shape) (PixelsBefore shape y x)
      (List.replicate (shape.alpha_row_stride * shape.height) 0) pixels.2

theorem PixelsPlaced.start :
    PixelsPlaced builtinEndian frame shape 0 0
      (List.replicate (shape.color_row_stride * shape.height) 0,
        List.replicate (shape.alpha_row_stride * shape.height) 0) :=
  { color := .nothing _ fun _ before => not_passed_start _ _ before.2.2
    alpha := .nothing _ fun _ before => not_passed_start _ _ before.2.2 }

variable {pixels : List UInt8 × List UInt8}

theorem PixelsPlaced.nextRow
    {y : Nat}
    (placed : PixelsPlaced builtinEndian frame shape y shape.width pixels) :
    PixelsPlaced builtinEndian frame shape (y + 1) 0 pixels := by
  have same (place : Nat × Nat) :
      PixelsBefore shape (y + 1) 0 place ↔ PixelsBefore shape y shape.width place := by
    unfold PixelsBefore
    constructor
    · rintro ⟨inHeight, inWidth, passed⟩
      exact ⟨inHeight, inWidth, (passed_next_row inWidth).1 passed⟩
    · rintro ⟨inHeight, inWidth, passed⟩
      exact ⟨inHeight, inWidth, (passed_next_row inWidth).2 passed⟩
  exact ⟨placed.color.congr same, placed.alpha.congr same⟩

/-- Both buffers with one more pixel. -/
theorem PixelsPlaced.write
    (fits : InterleavedFit frame shape)
    {y x : Nat}
    (inHeight : y < shape.height)
    (inWidth : x < shape.width)
    (placed : PixelsPlaced builtinEndian frame shape y x pixels) :
    PixelsPlaced builtinEndian frame shape y (x + 1)
      (overwrite pixels.1
          (y * shape.color_row_stride +
            x * (shape.num_color_channels * shape.sample_bytes))
          (pixelColors builtinEndian frame shape (y, x)),
        overwrite pixels.2 (y * shape.alpha_row_stride + x * shape.sample_bytes)
          (pixelAlpha builtinEndian frame shape (y, x))) := by
  have same (place : Nat × Nat) :
      PixelsBefore shape y (x + 1) place ↔
        PixelsBefore shape y x place ∨ place = (y, x) := by
    unfold PixelsBefore
    rw [passed_succ, Prod.ext_iff]
    constructor
    · rintro ⟨rows, columns, passed | isPlace⟩
      · exact .inl ⟨rows, columns, passed⟩
      · exact .inr isPlace
    · rintro (⟨rows, columns, passed⟩ | isPlace)
      · exact ⟨rows, columns, .inl passed⟩
      · exact ⟨isPlace.1 ▸ inHeight, isPlace.2 ▸ inWidth, .inr isPlace⟩
  have colorRows :
      shape.width * (shape.num_color_channels * shape.sample_bytes) ≤
        shape.color_row_stride := by
    rw [← Nat.mul_assoc, ← fits.rows.color]
  have alphaRows := Nat.le_of_eq fits.alpha.symm
  constructor
  · refine placed.color.write (y, x) ?_ ?_ same
    · have length : pixels.1.length = shape.color_row_stride * shape.height := by
        rw [placed.color.length, List.length_replicate]
      have row := row_inside inHeight (Nat.le_of_eq length.symm)
      have inside := pixel_inside inWidth colorRows
      rw [length_pixelColors builtinEndian fits inHeight inWidth]
      dsimp only
      omega
    · rintro ⟨row, column⟩ ⟨inRows, inColumns, passed⟩
      rw [length_pixelColors builtinEndian fits inRows inColumns]
      exact .inl (pixels_apart passed inColumns colorRows)
  · refine placed.alpha.write (y, x) ?_ ?_ same
    · have length : pixels.2.length = shape.alpha_row_stride * shape.height := by
        rw [placed.alpha.length, List.length_replicate]
      have row := row_inside inHeight (Nat.le_of_eq length.symm)
      have inside := pixel_inside inWidth alphaRows
      rw [length_pixelAlpha builtinEndian fits inHeight inWidth]
      dsimp only
      omega
    · rintro ⟨row, column⟩ ⟨inRows, inColumns, passed⟩
      rw [length_pixelAlpha builtinEndian fits inRows inColumns]
      exact .inl (pixels_apart passed inColumns alphaRows)

/-- The colors of a pixel are read from the row of the caller. -/
theorem readColors
    (builtinEndian : Endian)
    (fits : InterleavedFit frame shape)
    {y x : Nat}
    (inHeight : y < shape.height)
    (inWidth : x < shape.width) :
    slice (part frame.image_bytes (y * shape.image_stride) shape.image_stride)
        (x * (shape.num_color_channels + 1) * shape.sample_bytes)
        (x * (shape.num_color_channels + 1) * shape.sample_bytes +
          shape.num_color_channels * shape.sample_bytes) =
      .ok
        (part frame.image_bytes
          (y * shape.image_stride +
            x * (shape.num_color_channels + 1) * shape.sample_bytes)
          (shape.num_color_channels * shape.sample_bytes)) ∧
      copyColorRowForSimpleEncode builtinEndian
          (shape.num_color_channels * shape.sample_bytes)
          (part frame.image_bytes
            (y * shape.image_stride +
              x * (shape.num_color_channels + 1) * shape.sample_bytes)
            (shape.num_color_channels * shape.sample_bytes))
          frame.image_format =
        .ok (pixelColors builtinEndian frame shape (y, x)) := by
  have rowInside := row_inside inHeight fits.rows.image
  have pixel := fits.pixel inWidth
  rw [Nat.add_mul] at pixel
  constructor
  · rw [slice_ok (by rw [length_part rowInside]; omega), part_part (by omega)]
  · have length := length_part
      (show y * shape.image_stride + x * (shape.num_color_channels + 1) *
        shape.sample_bytes + shape.num_color_channels * shape.sample_bytes ≤
          frame.image_bytes.length by omega)
    have isCopy :=
      copyColorRow_ok builtinEndian shape.num_color_channels fits.rows.isPacked
        (by rw [← fits.rows.sample]; exact Nat.le_of_eq length.symm)
    rw [← fits.rows.sample] at isCopy
    exact isCopy

/-- The alpha of a pixel is read from behind its colors. -/
theorem readAlpha
    (builtinEndian : Endian)
    (fits : InterleavedFit frame shape)
    {y x : Nat}
    (inHeight : y < shape.height)
    (inWidth : x < shape.width) :
    slice (part frame.image_bytes (y * shape.image_stride) shape.image_stride)
        ((x * (shape.num_color_channels + 1) + shape.num_color_channels) *
          shape.sample_bytes)
        ((x * (shape.num_color_channels + 1) + shape.num_color_channels + 1) *
          shape.sample_bytes) =
      .ok
        (part frame.image_bytes
          (y * shape.image_stride +
            (x * (shape.num_color_channels + 1) + shape.num_color_channels) *
              shape.sample_bytes)
          shape.sample_bytes) ∧
      copyColorRowForSimpleEncode builtinEndian shape.alpha_sample_bytes
          (part frame.image_bytes
            (y * shape.image_stride +
              (x * (shape.num_color_channels + 1) + shape.num_color_channels) *
                shape.sample_bytes)
            shape.sample_bytes)
          frame.image_format =
        .ok (pixelAlpha builtinEndian frame shape (y, x)) := by
  have rowInside := row_inside inHeight fits.rows.image
  have pixel := fits.pixel inWidth
  constructor
  · rw [Nat.succ_mul (x * (shape.num_color_channels + 1) + shape.num_color_channels),
      slice_ok (by rw [length_part rowInside]; exact pixel), part_part pixel]
  · have length := length_part
      (show y * shape.image_stride +
        (x * (shape.num_color_channels + 1) + shape.num_color_channels) *
          shape.sample_bytes + shape.sample_bytes ≤ frame.image_bytes.length by omega)
    have isCopy :=
      copyColorRow_ok builtinEndian 1 fits.rows.isPacked
        (by rw [← fits.rows.sample, Nat.one_mul]; exact Nat.le_of_eq length.symm)
    rw [← fits.rows.sample, Nat.one_mul] at isCopy
    rw [fits.sample]
    exact isCopy

/-- A row with alpha between the colors. -/
theorem packRow_interleaved
    (fits : InterleavedFit frame shape)
    {y : Nat}
    (inHeight : y < shape.height)
    (placed : PixelsPlaced builtinEndian frame shape y 0 pixels) :
    ∃ next,
      packRow builtinEndian frame shape true pixels y = .ok next ∧
        PixelsPlaced builtinEndian frame shape (y + 1) 0 next := by
  have rowInside := row_inside inHeight fits.rows.image
  have rowLength := length_part rowInside
  unfold packRow
  dsimp only
  rw [slice_ok rowInside, ok_bind, if_pos rfl]
  refine ok_mono
    (foldlM_range_ok (fun x => PixelsPlaced builtinEndian frame shape y x)
      shape.width placed ?_) fun _ => PixelsPlaced.nextRow
  rintro x ⟨color_pixels, alpha_pixels⟩ inWidth placed
  have pixel := fits.pixel inWidth
  refine ⟨_, ?_, placed.write fits inHeight inWidth⟩
  have isColors := readColors builtinEndian fits inHeight inWidth
  have isAlpha := readAlpha builtinEndian fits inHeight inWidth
  have colorLength :=
    @length_pixelColors frame shape builtinEndian fits (y, x) inHeight inWidth
  have alphaLength :=
    @length_pixelAlpha frame shape builtinEndian fits (y, x) inHeight inWidth
  have colorRow :
      y * shape.color_row_stride + shape.color_row_stride ≤ color_pixels.length := by
    refine row_inside inHeight (Nat.le_of_eq ?_)
    rw [placed.color.length, List.length_replicate]
  have alphaRow :
      y * shape.alpha_row_stride + shape.alpha_row_stride ≤ alpha_pixels.length := by
    refine row_inside inHeight (Nat.le_of_eq ?_)
    rw [placed.alpha.length, List.length_replicate]
  have colorFits :
      x * shape.num_color_channels * shape.sample_bytes +
          (pixelColors builtinEndian frame shape (y, x)).length ≤
        shape.color_row_stride := by
    rw [colorLength, Nat.mul_assoc]
    refine pixel_inside inWidth ?_
    rw [← Nat.mul_assoc, ← fits.rows.color]
  have alphaFits :
      x * shape.sample_bytes + (pixelAlpha builtinEndian frame shape (y, x)).length ≤
        shape.alpha_row_stride := by
    rw [alphaLength]
    exact pixel_inside inWidth (Nat.le_of_eq fits.alpha.symm)
  dsimp only
  rw [isColors.1, ok_bind, isColors.2, ok_bind, copyIntoRow_ok colorRow colorFits, ok_bind,
    isAlpha.1, ok_bind, isAlpha.2, ok_bind, fits.sample,
    copyIntoRow_ok alphaRow alphaFits, ok_bind, Nat.mul_assoc x]
  rfl

/-- The sample of a row that is a sample of a pixel. -/
theorem callerSample_interleaved
    (fits : InterleavedFit frame shape)
    {y x c : Nat}
    (inHeight : y < shape.height)
    (inWidth : x < shape.width)
    (inColors : c < shape.num_color_channels) :
    part (pixelColors builtinEndian frame shape (y, x)) (c * shape.sample_bytes)
        shape.sample_bytes =
      callerSample builtinEndian frame shape y x c := by
  have rowInside := row_inside inHeight fits.rows.image
  have pixel := fits.pixel inWidth
  rw [Nat.add_mul] at pixel
  have room := pixel_inside inColors (Nat.le_refl (shape.num_color_channels * shape.sample_bytes))
  unfold pixelColors callerSample
  rw [part_normalizedRow (Nat.le_of_eq (length_part (by dsimp only; omega)).symm) inColors,
    part_part room, fits.channels]
  dsimp only
  rw [Nat.add_assoc, ← Nat.add_mul]

/-- The rows of colors and alpha. -/
theorem packRows_interleaved
    (builtinEndian : Endian)
    (fits : InterleavedFit frame shape) :
    ∃ result,
      (List.range shape.height).foldlM (packRow builtinEndian frame shape true)
          (List.replicate (shape.color_row_stride * shape.height) 0,
            List.replicate (shape.alpha_row_stride * shape.height) 0) =
        .ok result ∧
        ColorPacked builtinEndian frame shape result.1 ∧
        AlphaPacked builtinEndian frame shape result.2 := by
  refine ok_mono
    (foldlM_range_ok (fun y => PixelsPlaced builtinEndian frame shape y 0) shape.height
      .start ?_) ?_
  · intro y pixels inHeight placed
    exact packRow_interleaved fits inHeight placed
  rintro ⟨color_pixels, alpha_pixels⟩ placed
  have before {y x : Nat} (inHeight : y < shape.height) (inWidth : x < shape.width) :
      PixelsBefore shape shape.height 0 (y, x) :=
    ⟨inHeight, inWidth, passed_end.2 inHeight⟩
  refine ⟨⟨?_, ?_⟩, ⟨?_, ?_⟩⟩
  · rw [placed.color.length, List.length_replicate]
  · intro y x c inHeight inWidth inColors
    have isPixel := placed.color.placed (y, x) (before inHeight inWidth)
    rw [@length_pixelColors frame shape builtinEndian fits (y, x) inHeight inWidth] at isPixel
    have room :=
      pixel_inside inColors (Nat.le_refl (shape.num_color_channels * shape.sample_bytes))
    rw [← callerSample_interleaved fits inHeight inWidth inColors, ← isPixel,
      part_part room, Nat.mul_assoc x, Nat.add_assoc]
  · rw [placed.alpha.length, List.length_replicate]
  · intro y x inHeight inWidth
    have isPixel := placed.alpha.placed (y, x) (before inHeight inWidth)
    rw [@length_pixelAlpha frame shape builtinEndian fits (y, x) inHeight inWidth] at isPixel
    rw [isPixel]
    have rowInside := row_inside inHeight fits.rows.image
    have pixel := fits.pixel inWidth
    have length := length_part
      (show y * shape.image_stride +
        (x * (shape.num_color_channels + 1) + shape.num_color_channels) *
          shape.sample_bytes + shape.sample_bytes ≤ frame.image_bytes.length by omega)
    have single := part_all (pixelAlpha builtinEndian frame shape (y, x))
    rw [@length_pixelAlpha frame shape builtinEndian fits (y, x) inHeight inWidth] at single
    rw [← single]
    have first
        (src : List UInt8)
        (enough : 1 * shape.sample_bytes ≤ src.length) :
        part
            (normalizedRow builtinEndian frame.image_format.endianness shape.sample_bytes 1
              src)
            (0 * shape.sample_bytes) shape.sample_bytes =
          inOrder builtinEndian frame.image_format.endianness
            (part src (0 * shape.sample_bytes) shape.sample_bytes) :=
      part_normalizedRow enough Nat.one_pos
    simp only [Nat.zero_mul] at first
    unfold pixelAlpha callerSample
    rw [first _ (by rw [length, Nat.one_mul]), fits.channels, part_part (by rw [Nat.zero_add]), Nat.add_zero]

/-- The rows of an alpha plane that was staged on its own, without their padding. -/
structure RowsTaken
    (plane : QueuedPlaneBuffer)
    (row_length height : Nat)
    (pixels : List UInt8) :
    Prop where
  length : pixels.length = row_length * height
  row :
    ∀ y,
      y < height →
      part pixels (y * row_length) row_length =
        part plane.buffer (y * plane.row_stride) row_length

/-- A staged plane that holds all its rows is copied row by row. -/
theorem packAlphaRows_ok
    {plane : QueuedPlaneBuffer}
    (rows : shape.alpha_row_stride ≤ plane.row_stride)
    (enough : plane.row_stride * shape.alpha_height ≤ plane.buffer.length)
    {alpha_pixels : List UInt8}
    (length : alpha_pixels.length = shape.alpha_row_stride * shape.alpha_height) :
    ∃ result,
      (List.range shape.alpha_height).foldlM (packAlphaRow plane shape) alpha_pixels =
        .ok result ∧
        RowsTaken plane shape.alpha_row_stride shape.alpha_height result := by
  let source (y : Nat) : List UInt8 :=
    part plane.buffer (y * plane.row_stride) shape.alpha_row_stride
  have sourceLength {y : Nat} (inHeight : y < shape.alpha_height) :
      (source y).length = shape.alpha_row_stride := by
    have inside := row_inside inHeight enough
    exact length_part (by omega)
  refine ok_mono
    (foldlM_range_ok
      (fun y =>
        Placed (fun row => row * shape.alpha_row_stride) source
          (fun row => row < y ∧ row < shape.alpha_height) alpha_pixels)
      shape.alpha_height (.nothing _ fun row isWritten => Nat.not_lt_zero row isWritten.1)
      ?_) ?_
  · intro y pixels inHeight placed
    have inside := row_inside inHeight enough
    have room :
        y * shape.alpha_row_stride + shape.alpha_row_stride ≤ pixels.length := by
      refine row_inside inHeight (Nat.le_of_eq ?_)
      rw [placed.length, length]
    have isLength := sourceLength inHeight
    refine ⟨overwrite pixels (y * shape.alpha_row_stride) (source y), ?_,
      placed.write y (by rw [isLength]; exact room) ?_ ?_⟩
    · unfold packAlphaRow
      dsimp only
      rw [slice_ok (by omega), ok_bind, copyIntoRow_ok room (by
        rw [Nat.zero_add]; exact Nat.le_of_eq isLength)]
      rfl
    · intro row isWritten
      rw [sourceLength isWritten.2]
      exact .inl (rows_apart _ isWritten.1)
    · intro row
      rw [Nat.lt_succ_iff_lt_or_eq]
      constructor
      · rintro ⟨before | isRow, inRows⟩
        · exact .inl ⟨before, inRows⟩
        · exact .inr isRow
      · rintro (⟨before, inRows⟩ | rfl)
        · exact ⟨.inl before, inRows⟩
        · exact ⟨.inr rfl, inHeight⟩
  · intro result placed
    refine ⟨placed.length.trans length, fun y inHeight => ?_⟩
    have isRow := placed.placed y ⟨inHeight, inHeight⟩
    rw [sourceLength inHeight] at isRow
    exact isRow

/-- A plane that was lost stops the copy of its first row. -/
theorem packAlphaRows_lost
    {plane : QueuedPlaneBuffer}
    {alpha_pixels result : List UInt8}
    (lost : plane.buffer = [])
    (wide : 0 < shape.alpha_row_stride)
    (high : 0 < shape.alpha_height) :
    (List.range shape.alpha_height).foldlM (packAlphaRow plane shape) alpha_pixels ≠
      .ok result := by
  intro ran
  have present :=
    foldlM_range_of_ok (fun y _ => y = 0 ∨ 0 < plane.buffer.length) ran (.inl rfl) (by
      intro y pixels next _ packed _
      unfold packAlphaRow at packed
      obtain ⟨_, isRow, _⟩ := bind_eq_ok.1 packed
      have inside := (slice_eq_part.1 isRow).2.1
      omega)
  rw [lost, List.length_nil] at present
  omega

end

end Jxlz.Capi
