import Jxlz.Capi.FrameSource

namespace Jxlz.Capi

open BigEndian Container Delivery EncApi

/-!
# Staged planes

A plane that the encoder accepts is staged with its samples in big-endian order; the
padding of its rows is kept.
-/

/-- Items right behind each other are written at once. -/
theorem overwrite_overwrite
    {buffer first second : List UInt8}
    {position : Nat}
    (room : position + first.length + second.length ≤ buffer.length) :
    overwrite (overwrite buffer position first) (position + first.length) second =
      overwrite buffer position (first ++ second) := by
  have front := take_overwrite (show position + first.length ≤ buffer.length by omega)
  have parted (items : List UInt8) :
      items.drop (position + first.length + second.length) =
        (items.drop (position + first.length)).drop second.length :=
    List.drop_drop.symm
  have behind :
      (overwrite buffer position first).drop (position + first.length + second.length) =
        buffer.drop (position + first.length + second.length) := by
    rw [parted, parted, drop_overwrite (by omega)]
  rw [overwrite, front, behind, overwrite, List.length_append, Nat.add_assoc,
    List.append_assoc (buffer.take position)]

/-- A row of a staged plane, with the padding of the caller. -/
def stagedRow
    (builtinEndian : Endian)
    (format : JxlPixelFormat)
    (plane : CheckedPlane)
    (y : Nat) :
    List UInt8 :=
  normalizedRow builtinEndian format.endianness 2 plane.plane_width
      (part plane.bytes (y * plane.stride) (plane.plane_width * 2)) ++
    part plane.bytes (y * plane.stride + plane.plane_width * 2)
      (plane.stride - plane.plane_width * 2)

/-- The checked bytes of a plane hold all of its rows. -/
structure PlaneBytes
    (format : JxlPixelFormat)
    (memory : List UInt8)
    (plane : CheckedPlane) :
    Prop where
  stride :
    rowStrideBytes plane.plane_width { format with num_channels := 1 } =
      some plane.stride
  inside : plane.stride * plane.plane_height ≤ memory.length
  taken : plane.bytes = memory.take (plane.stride * plane.plane_height)

section

variable {builtinEndian : Endian}
variable {format : JxlPixelFormat}
variable {memory : List UInt8}
variable {plane : CheckedPlane}

theorem PlaneBytes.length
    (bytes : PlaneBytes format memory plane) :
    plane.bytes.length = plane.stride * plane.plane_height := by
  rw [bytes.taken, List.length_take]
  exact Nat.min_eq_left bytes.inside

theorem PlaneBytes.rows
    (bytes : PlaneBytes format memory plane) :
    plane.plane_width * bytesPerChannel format.data_type ≤ plane.stride := by
  obtain ⟨row_bytes, isRow, short, _⟩ := rowStrideBytes_eq_some bytes.stride
  obtain ⟨isBytes, _⟩ := packedRowBytes_eq_some isRow
  rw [Nat.one_mul] at isBytes
  rw [← isBytes]
  exact short

/-- The sample of a plane lies inside the bytes that were checked. -/
theorem PlaneBytes.sample
    (bytes : PlaneBytes format memory plane)
    {y x : Nat}
    (inHeight : y < plane.plane_height)
    (inWidth : x < plane.plane_width) :
    part plane.bytes (y * plane.stride + x * bytesPerChannel format.data_type)
        (bytesPerChannel format.data_type) =
      part memory (y * plane.stride + x * bytesPerChannel format.data_type)
        (bytesPerChannel format.data_type) := by
  have row := row_inside inHeight (Nat.le_refl (plane.stride * plane.plane_height))
  have inRow := pixel_inside inWidth bytes.rows
  rw [bytes.taken, part_take (by omega)]

/-- One row of 16-bit alpha is staged. -/
theorem stageAlphaRow_ok
    (builtinEndian : Endian)
    (bytes : PlaneBytes format memory plane)
    (isWord : format.data_type = .uint16)
    {y : Nat}
    {staged : List UInt8}
    (inHeight : y < plane.plane_height)
    (length : staged.length = plane.stride * plane.plane_height) :
    stageAlphaRow builtinEndian { format with num_channels := 1 } plane staged y =
      .ok
        (overwrite staged (y * plane.stride) (stagedRow builtinEndian format plane y)) ∧
      (stagedRow builtinEndian format plane y).length = plane.stride := by
  have rows := bytes.rows
  have two : bytesPerChannel format.data_type = 2 := by
    rw [isWord]
    rfl
  rw [two] at rows
  have rowInside := row_inside inHeight (Nat.le_of_eq bytes.length.symm)
  have room := row_inside inHeight (Nat.le_of_eq length.symm)
  have sourceLength :
      (part plane.bytes (y * plane.stride) (plane.plane_width * 2)).length =
        plane.plane_width * 2 :=
    length_part (by omega)
  have samplesLength :
      (normalizedRow builtinEndian format.endianness 2 plane.plane_width
        (part plane.bytes (y * plane.stride) (plane.plane_width * 2))).length =
        plane.plane_width * 2 :=
    length_normalizedRow (Nat.le_of_eq sourceLength.symm)
  have paddingLength :
      (part plane.bytes (y * plane.stride + plane.plane_width * 2)
        (plane.stride - plane.plane_width * 2)).length =
        plane.stride - plane.plane_width * 2 :=
    length_part (by omega)
  have isSource :
      slice (part plane.bytes (y * plane.stride) plane.stride) 0
          (0 + plane.plane_width * 2) =
        .ok (part plane.bytes (y * plane.stride) (plane.plane_width * 2)) := by
    rw [slice_ok (by rw [length_part rowInside]; omega), part_part (by omega), Nat.add_zero]
  rw [Nat.zero_add] at isSource
  have isCopy :=
    @copyColorRow_ok builtinEndian plane.plane_width { format with num_channels := 1 }
      (part plane.bytes (y * plane.stride) (plane.plane_width * 2)) (.inr isWord)
      (by
        show plane.plane_width * bytesPerChannel format.data_type ≤ _
        rw [two]
        exact Nat.le_of_eq sourceLength.symm)
  dsimp only at isCopy
  rw [two] at isCopy
  refine ⟨?_, ?_⟩
  · unfold stageAlphaRow
    dsimp only
    rw [slice_ok rowInside, ok_bind, isSource, ok_bind, isCopy, ok_bind,
      copyIntoRow_ok room (by omega), ok_bind, Nat.add_zero]
    split
    next hasPadding =>
      have isPadding :
          slice (part plane.bytes (y * plane.stride) plane.stride)
              (plane.plane_width * 2)
              (plane.plane_width * 2 + (plane.stride - plane.plane_width * 2)) =
            .ok
              (part plane.bytes (y * plane.stride + plane.plane_width * 2)
                (plane.stride - plane.plane_width * 2)) := by
        rw [slice_ok (by rw [length_part rowInside]; omega), part_part (by omega)]
      rw [Nat.add_sub_cancel' rows] at isPadding
      rw [isPadding, ok_bind, copyIntoRow_ok (by
        rw [length_overwrite (by omega)]; exact room) (by omega)]
      have both :
          y * plane.stride +
              (normalizedRow builtinEndian format.endianness 2 plane.plane_width
                (part plane.bytes (y * plane.stride) (plane.plane_width * 2))).length +
            (part plane.bytes (y * plane.stride + plane.plane_width * 2)
              (plane.stride - plane.plane_width * 2)).length ≤
            staged.length := by
        omega
      have joined := overwrite_overwrite both
      rw [samplesLength] at joined
      rw [joined]
      rfl
    next noPadding =>
      have noBytes :
          part plane.bytes (y * plane.stride + plane.plane_width * 2)
              (plane.stride - plane.plane_width * 2) =
            [] :=
        List.length_eq_zero_iff.1 (by omega)
      unfold stagedRow
      rw [noBytes, List.append_nil]
      rfl
  · unfold stagedRow
    rw [List.length_append, samplesLength, paddingLength]
    omega

/-- A sample of a staged row is that of the caller, in big-endian order. -/
theorem part_stagedRow
    (builtinEndian : Endian)
    (bytes : PlaneBytes format memory plane)
    (isWord : format.data_type = .uint16)
    {y x : Nat}
    (inHeight : y < plane.plane_height)
    (inWidth : x < plane.plane_width) :
    part (stagedRow builtinEndian format plane y) (x * 2) 2 =
      inOrder builtinEndian format.endianness
        (part plane.bytes (y * plane.stride + x * 2) 2) := by
  have rows := bytes.rows
  have two : bytesPerChannel format.data_type = 2 := by
    rw [isWord]
    rfl
  rw [two] at rows
  have rowInside := row_inside inHeight (Nat.le_of_eq bytes.length.symm)
  have inRow := pixel_inside inWidth (Nat.le_refl (plane.plane_width * 2))
  have sourceLength :
      (part plane.bytes (y * plane.stride) (plane.plane_width * 2)).length =
        plane.plane_width * 2 :=
    length_part (by omega)
  unfold stagedRow
  rw [part_append_left (by
      rw [length_normalizedRow (Nat.le_of_eq sourceLength.symm)]; exact inRow),
    part_normalizedRow (Nat.le_of_eq sourceLength.symm) inWidth, part_part inRow]

/-- The rows of 16-bit alpha are staged one after the other. -/
theorem stageAlphaRows_ok
    (builtinEndian : Endian)
    (bytes : PlaneBytes format memory plane)
    (isWord : format.data_type = .uint16) :
    ∃ staged,
      (List.range plane.plane_height).foldlM
          (stageAlphaRow builtinEndian { format with num_channels := 1 } plane)
          (List.replicate plane.bytes.length 0) =
        .ok staged ∧
        StagedPlane builtinEndian plane.plane_width plane.plane_height
          { format, memory }
          { buffer := staged, row_stride := plane.stride, buffer_set := true } := by
  have isLength {y : Nat} (inHeight : y < plane.plane_height) :
      (stagedRow builtinEndian format plane y).length = plane.stride := by
    have length :
        (List.replicate (plane.stride * plane.plane_height) (0 : UInt8)).length =
          plane.stride * plane.plane_height :=
      List.length_replicate
    exact (stageAlphaRow_ok builtinEndian bytes isWord inHeight length).2
  refine ok_mono
    (foldlM_range_ok
      (fun y =>
        Placed (fun row => row * plane.stride) (stagedRow builtinEndian format plane)
          (fun row => row < y ∧ row < plane.plane_height)
          (List.replicate plane.bytes.length 0))
      plane.plane_height (.nothing _ fun row isWritten => Nat.not_lt_zero row isWritten.1)
      ?_) ?_
  · intro y staged inHeight placed
    have length : staged.length = plane.stride * plane.plane_height := by
      rw [placed.length, List.length_replicate, bytes.length]
    have room := row_inside inHeight (Nat.le_of_eq length.symm)
    refine ⟨_, (stageAlphaRow_ok builtinEndian bytes isWord inHeight length).1,
      placed.write y (by rw [isLength inHeight]; exact room) ?_ ?_⟩
    · intro row isWritten
      rw [isLength isWritten.2]
      exact .inl (rows_apart _ isWritten.1)
    · intro row
      rw [Nat.lt_succ_iff_lt_or_eq]
      constructor
      · rintro ⟨before | isRow, inRows⟩
        · exact .inl ⟨before, inRows⟩
        · exact .inr isRow
      · rintro (⟨before, inRows⟩ | rfl)
        · exact ⟨.inl before, inRows⟩
        · exact ⟨.inr rfl, inHeight⟩
  · intro staged placed
    refine ⟨?_, ?_⟩
    · dsimp only
      rw [placed.length, List.length_replicate, bytes.length]
    · intro y x inHeight inWidth
      have two : bytesPerChannel format.data_type = 2 := by
        rw [isWord]
        rfl
      have isRow := placed.placed y ⟨inHeight, inHeight⟩
      rw [isLength inHeight] at isRow
      have rows := bytes.rows
      have inRow := pixel_inside inWidth rows
      have sample := bytes.sample inHeight inWidth
      dsimp only
      rw [two] at inRow sample ⊢
      rw [← part_part inRow, isRow,
        part_stagedRow builtinEndian bytes isWord inHeight inWidth, sample]

/-- A plane in a format that fits is staged with the samples of the caller. -/
theorem stagePlane_ok
    (builtinEndian : Endian)
    {is_staged_alpha : Bool}
    (bytes : PlaneBytes format memory plane)
    (isPacked : PackedType format)
    (sidecar : is_staged_alpha = false → format.data_type = .uint8) :
    ∃ staged,
      stagePlane builtinEndian format is_staged_alpha plane = .ok staged ∧
        StagedPlane builtinEndian plane.plane_width plane.plane_height
          { format, memory }
          { buffer := staged, row_stride := plane.stride, buffer_set := true } := by
  unfold stagePlane
  split
  next turned => exact stageAlphaRows_ok builtinEndian bytes turned.2.1
  next kept =>
    refine ⟨plane.bytes, rfl, bytes.length, fun y x inHeight inWidth => ?_⟩
    have sample := bytes.sample inHeight inWidth
    dsimp only
    rw [sample]
    rcases isPacked with isByte | isWord
    · have row := row_inside inHeight (Nat.le_of_eq bytes.length.symm)
      have inRow := pixel_inside inWidth bytes.rows
      refine (inOrder_of_length_one _ _ ?_).symm
      rw [← sample, length_part (by omega), isByte]
      rfl
    · have isBig : format.endianness = .big := by
        by_contra notBig
        cases isAlpha : is_staged_alpha with
        | false =>
            rw [sidecar isAlpha] at isWord
            cases isWord
        | true => exact kept ⟨isAlpha, isWord, notBig⟩
      unfold inOrder actualEndian
      rw [isBig]

end

end Jxlz.Capi
