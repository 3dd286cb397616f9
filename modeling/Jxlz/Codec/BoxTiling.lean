import Jxlz.Codec.Container

namespace Jxlz.Container

open BigEndian

/-!
# Boxes as the format describes them

A box is its size, in one of three forms, its type and its payload.  The header
parser accepts exactly the boxes that a file spells at an offset.
-/

/-- How a box states its size. -/
inductive SizeForm where
  | short
  | extended
  | toEnd
  deriving Repr, DecidableEq

/-- A box of a file. -/
structure FileBox where
  form : SizeForm
  box_type : BoxType
  payload : List UInt8
  deriving Repr, DecidableEq

namespace FileBox

variable (box : FileBox)

/-- The bytes in front of the payload. -/
def header : List UInt8 :=
  match box.form with
  | .short => bytesOf 4 (8 + box.payload.length) ++ box.box_type.bytes
  | .extended =>
      bytesOf 4 1 ++ box.box_type.bytes ++ bytesOf 8 (16 + box.payload.length)
  | .toEnd => bytesOf 4 0 ++ box.box_type.bytes

def bytes : List UInt8 :=
  box.header ++ box.payload

/-- The size that the box takes up. -/
def raw_size : Nat :=
  match box.form with
  | .short => 8 + box.payload.length
  | .extended => 16 + box.payload.length
  | .toEnd => 8 + box.payload.length

/-- The form can state the size; a box to the end of a file is its last one. -/
def Fits
    (behind : List UInt8) :
    Prop :=
  match box.form with
  | .short => 8 + box.payload.length < 2 ^ 32
  | .extended => 16 + box.payload.length < 2 ^ 64
  | .toEnd => behind = []

/-- What the parser returns for a box at an offset. -/
def parsed
    (offset : Nat) :
    ParsedBoxHeader :=
  { box_type := box.box_type
    raw_size := box.raw_size
    payload := box.payload
    next_offset := offset + box.raw_size }

theorem length_bytes :
    box.bytes.length = box.raw_size := by
  cases form : box.form <;>
    simp [bytes, header, raw_size, form, BoxType.bytes] <;>
    omega

theorem eight_le_raw_size :
    8 ≤ box.raw_size := by
  cases form : box.form <;> simp [raw_size, form]
  omega

end FileBox

theorem slice_append
    {items front middle back : List UInt8}
    {start stop : Nat}
    (split : items = front ++ middle ++ back)
    (atStart : start = front.length)
    (atStop : stop = front.length + middle.length) :
    slice items start stop = .ok middle := by
  have inside :
      start ≤ stop ∧ stop ≤ (front ++ middle ++ back).length := by
    simp only [List.length_append]
    omega
  rw [split, slice, if_pos inside, atStart, atStop, Nat.add_sub_cancel_left,
    List.append_assoc, List.drop_left, List.take_left]

theorem readInt_append
    {items front middle back : List UInt8}
    {start stop : Nat}
    (split : items = front ++ middle ++ back)
    (atStart : start = front.length)
    (atStop : stop = front.length + middle.length) :
    readInt items start stop = .ok (valueOf middle) := by
  rw [readInt, slice_append split atStart atStop, ok_bind]
  rfl

theorem readType_append
    {items front back : List UInt8}
    {box_type : BoxType}
    {offset : Nat}
    (split : items = front ++ box_type.bytes ++ back)
    (atOffset : offset = front.length) :
    readType items offset = .ok box_type := by
  have atPlace :
      ∀ place (item : UInt8),
        (box_type.bytes ++ back)[place]? = some item →
        index items (offset + place) = .ok item := by
    intro place item isItem
    rw [index_eq_ok, split, List.append_assoc, atOffset,
      List.getElem?_append_right (Nat.le_add_right _ _),
      Nat.add_sub_cancel_left, isItem]
  have first := atPlace 0 box_type.c0 rfl
  rw [Nat.add_zero] at first
  rw [readType, first, ok_bind, atPlace 1 box_type.c1 rfl, ok_bind,
    atPlace 2 box_type.c2 rfl, ok_bind, atPlace 3 box_type.c3 rfl, ok_bind]
  rfl

/-- A slice stands at its place in the items. -/
theorem slice_eq_ok
    {items middle : List UInt8}
    {start stop : Nat}
    (read : slice items start stop = .ok middle) :
    items.drop start = middle ++ items.drop stop ∧
      start ≤ stop ∧ stop ≤ items.length ∧ start + middle.length = stop := by
  unfold slice at read
  split at read
  next inside =>
    cases read
    refine ⟨?_, inside.1, inside.2, ?_⟩
    · have later : items.drop stop = (items.drop start).drop (stop - start) := by
        rw [List.drop_drop]
        congr 1
        omega
      rw [later, List.take_append_drop]
    · rw [List.length_take, List.length_drop]
      omega
  next outside =>
    cases read

/-- A number that was read stands at its place in the items. -/
theorem readInt_eq_ok
    {items : List UInt8}
    {start count value : Nat}
    (read : readInt items start (start + count) = .ok value) :
    items.drop start = bytesOf count value ++ items.drop (start + count) ∧
      value < 256 ^ count := by
  obtain ⟨bytes, isSlice, isValue⟩ := bind_eq_ok.1 read
  cases isValue
  obtain ⟨split, _, _, length⟩ := slice_eq_ok isSlice
  have counted : bytes.length = count := by
    omega
  have again := bytesOf_valueOf bytes
  rw [counted] at again
  exact ⟨again.symm ▸ split, counted ▸ valueOf_lt bytes⟩

/-- A type that was read stands at its place in the items. -/
theorem readType_eq_ok
    {items : List UInt8}
    {offset : Nat}
    {box_type : BoxType}
    (read : readType items offset = .ok box_type) :
    items.drop offset = box_type.bytes ++ items.drop (offset + 4) := by
  unfold readType at read
  obtain ⟨c0, is0, read⟩ := bind_eq_ok.1 read
  obtain ⟨c1, is1, read⟩ := bind_eq_ok.1 read
  obtain ⟨c2, is2, read⟩ := bind_eq_ok.1 read
  obtain ⟨c3, is3, read⟩ := bind_eq_ok.1 read
  cases read
  rw [index_eq_ok] at is0 is1 is2 is3
  obtain ⟨in0, rfl⟩ := List.getElem?_eq_some_iff.1 is0
  obtain ⟨in1, rfl⟩ := List.getElem?_eq_some_iff.1 is1
  obtain ⟨in2, rfl⟩ := List.getElem?_eq_some_iff.1 is2
  obtain ⟨in3, rfl⟩ := List.getElem?_eq_some_iff.1 is3
  rw [List.drop_eq_getElem_cons in0, List.drop_eq_getElem_cons in1,
    List.drop_eq_getElem_cons in2, List.drop_eq_getElem_cons in3]
  rfl

/-- What the parser reads makes up the header. -/
theorem parseBoxHeader_of_reads
    {container_bytes payload : List UInt8}
    {box_type : BoxType}
    {offset size32 raw_size payload_offset : Nat}
    (isSize : readInt container_bytes offset (offset + 4) = .ok size32)
    (isType : readType container_bytes (offset + 4) = .ok box_type)
    (isRaw :
      readSize container_bytes offset (container_bytes.length - offset) size32 =
        .ok (raw_size, payload_offset))
    (atLeast : 8 ≤ raw_size)
    (inside : offset + raw_size ≤ container_bytes.length)
    (behind : payload_offset ≤ offset + raw_size)
    (isPayload :
      slice container_bytes payload_offset (offset + raw_size) = .ok payload) :
    parseBoxHeader container_bytes offset =
      .ok { box_type, raw_size, payload, next_offset := offset + raw_size } := by
  have enough : ¬ container_bytes.length - offset < raw_size := by
    omega
  unfold parseBoxHeader
  rw [if_neg (by omega), if_neg (by omega), isSize, ok_bind, isType, ok_bind,
    isRaw, ok_bind]
  dsimp only
  rw [if_neg enough, if_neg (Nat.not_lt.2 behind), isPayload, ok_bind]
  rfl

/-- The parser reads a box of a file at its offset. -/
theorem parseBoxHeader_ok
    {container_bytes front behind : List UInt8}
    {box : FileBox}
    (split : container_bytes = front ++ box.bytes ++ behind)
    (fits : box.Fits behind) :
    parseBoxHeader container_bytes front.length =
      .ok (box.parsed front.length) := by
  have least := box.eight_le_raw_size
  have total :
      container_bytes.length = front.length + box.raw_size + behind.length := by
    rw [split, List.length_append, List.length_append, box.length_bytes]
  have inside : front.length + box.raw_size ≤ container_bytes.length := by
    omega
  obtain ⟨form, box_type, payload⟩ := box
  unfold FileBox.parsed
  cases form with
  | short =>
      have small : 8 + payload.length < 2 ^ 32 := fits
      have spelled :
          container_bytes =
            front ++ bytesOf 4 (8 + payload.length) ++ box_type.bytes ++
              payload ++ behind := by
        rw [split]
        simp [FileBox.bytes, FileBox.header]
      refine
        @parseBoxHeader_of_reads _ payload box_type _ (8 + payload.length)
          (8 + payload.length) (front.length + 8) ?_ ?_ ?_ least inside
          (by omega) ?_
      · refine (@readInt_append _ front (bytesOf 4 (8 + payload.length))
          (box_type.bytes ++ payload ++ behind) _ _ (by simp [spelled]) rfl
          (by simp)).trans ?_
        rw [valueOf_bytesOf (by omega)]
      · refine readType_append
          (by rw [spelled, List.append_assoc _ payload]) (by simp)
      · rw [readSize, if_neg (by omega), if_neg (by omega), if_neg (by omega)]
      · exact slice_append spelled (by simp [BoxType.bytes])
          (by simp [BoxType.bytes]; omega)
  | extended =>
      have small : 16 + payload.length < 2 ^ 64 := fits
      have spelled :
          container_bytes =
            front ++ bytesOf 4 1 ++ box_type.bytes ++
              bytesOf 8 (16 + payload.length) ++ payload ++ behind := by
        rw [split]
        simp [FileBox.bytes, FileBox.header]
      refine
        @parseBoxHeader_of_reads _ payload box_type _ 1
          (16 + payload.length) (front.length + 16) ?_ ?_ ?_ least inside
          (by omega) ?_
      · refine (@readInt_append _ front (bytesOf 4 1)
          (box_type.bytes ++ bytesOf 8 (16 + payload.length) ++ payload ++
            behind) _ _ (by simp [spelled]) rfl (by simp)).trans ?_
        rfl
      · exact @readType_append _ (front ++ bytesOf 4 1)
          (bytesOf 8 (16 + payload.length) ++ payload ++ behind) _ _
          (by simp [spelled]) (by simp)
      · have wide :
            readInt container_bytes (front.length + 8) (front.length + 16) =
              .ok (16 + payload.length) := by
          refine (@readInt_append _ (front ++ bytesOf 4 1 ++ box_type.bytes)
            (bytesOf 8 (16 + payload.length)) (payload ++ behind) _ _
            (by simp [spelled]) (by simp [BoxType.bytes])
            (by simp [BoxType.bytes])).trans ?_
          rw [valueOf_bytesOf (by omega)]
        have room : ¬ container_bytes.length - front.length < 16 := by
          simp only [FileBox.raw_size] at inside
          omega
        rw [readSize, if_neg (by omega), if_pos rfl, if_neg room, wide, ok_bind,
          if_neg (by omega)]
        rfl
      · exact slice_append spelled (by simp [BoxType.bytes])
          (by simp [BoxType.bytes]; omega)
  | toEnd =>
      have last : behind = [] := fits
      have spelled :
          container_bytes =
            front ++ bytesOf 4 0 ++ box_type.bytes ++ payload ++ [] := by
        rw [split, last]
        simp [FileBox.bytes, FileBox.header]
      refine
        @parseBoxHeader_of_reads _ payload box_type _ 0
          (8 + payload.length) (front.length + 8) ?_ ?_ ?_ least inside
          (by omega) ?_
      · refine (@readInt_append _ front (bytesOf 4 0)
          (box_type.bytes ++ payload ++ []) _ _ (by simp [spelled]) rfl
          (by simp)).trans ?_
        rfl
      · refine readType_append
          (by rw [spelled, List.append_assoc _ payload]) (by simp)
      · rw [readSize, if_pos rfl, total, last]
        simp only [FileBox.raw_size, List.length_nil]
        congr 2
        omega
      · exact slice_append spelled (by simp [BoxType.bytes])
          (by simp [BoxType.bytes]; omega)

/-- The three forms of a size. -/
theorem readSize_cases
    {container_bytes : List UInt8}
    {offset remaining size32 raw_size payload_offset : Nat}
    (read :
      readSize container_bytes offset remaining size32 =
        .ok (raw_size, payload_offset)) :
    (size32 = 0 ∧ raw_size = container_bytes.length - offset ∧
        payload_offset = offset + 8) ∨
      (size32 = 1 ∧ payload_offset = offset + 16 ∧
        container_bytes.drop (offset + 8) =
          bytesOf 8 raw_size ++ container_bytes.drop (offset + 16) ∧
            raw_size < 2 ^ 64) ∨
        (raw_size = size32 ∧ payload_offset = offset + 8) := by
  unfold readSize at read
  split at read
  next toEnd =>
    cases read
    exact .inl ⟨toEnd, rfl, rfl⟩
  next notToEnd =>
    split at read
    next extended =>
      split at read
      next short =>
        cases read
      next room =>
        obtain ⟨raw, isWide, read⟩ := bind_eq_ok.1 read
        split at read
        next small =>
          cases read
        next large =>
          cases read
          obtain ⟨wideAt, wide_lt⟩ :=
            @readInt_eq_ok container_bytes (offset + 8) 8 raw_size isWide
          exact .inr (.inl ⟨extended, rfl, wideAt, wide_lt⟩)
    next notExtended =>
      split at read
      next small =>
        cases read
      next large =>
        cases read
        exact .inr (.inr ⟨rfl, rfl⟩)

/-- Whatever the parser reads at an offset is a box of the format. -/
theorem exists_of_parseBoxHeader
    {container_bytes : List UInt8}
    {offset : Nat}
    {header : ParsedBoxHeader}
    (read : parseBoxHeader container_bytes offset = .ok header) :
    ∃ box : FileBox,
      offset + box.raw_size ≤ container_bytes.length ∧
        container_bytes.drop offset =
          box.bytes ++ container_bytes.drop (offset + box.raw_size) ∧
            box.Fits (container_bytes.drop (offset + box.raw_size)) ∧
            header = box.parsed offset := by
  unfold parseBoxHeader at read
  split at read
  next outside =>
    cases read
  next atOffset =>
    split at read
    next short =>
      cases read
    next enough =>
      dsimp only at read
      obtain ⟨size32, isSize, read⟩ := bind_eq_ok.1 read
      obtain ⟨box_type, isType, read⟩ := bind_eq_ok.1 read
      obtain ⟨⟨raw_size, payload_offset⟩, isRaw, read⟩ := bind_eq_ok.1 read
      dsimp only at read
      split at read
      next tooLarge =>
        cases read
      next inside =>
        split at read
        next tooSmall =>
          cases read
        next behindHeader =>
          obtain ⟨payload, isPayload, read⟩ := bind_eq_ok.1 read
          cases read
          obtain ⟨sizeAt, size_lt⟩ := readInt_eq_ok isSize
          have typeAt := readType_eq_ok isType
          obtain ⟨payloadAt, _, _, stop⟩ := slice_eq_ok isPayload
          rw [typeAt] at sizeAt
          have room : offset + raw_size ≤ container_bytes.length := by
            omega
          rcases readSize_cases isRaw with
            ⟨rfl, isRaw, rfl⟩ | ⟨rfl, rfl, wideAt, raw_lt⟩ | ⟨rfl, rfl⟩
          · have size : raw_size = 8 + payload.length := by
              omega
            subst size
            refine ⟨⟨.toEnd, box_type, payload⟩, room, ?_, ?_, rfl⟩
            · refine sizeAt.trans ?_
              rw [payloadAt]
              simp [FileBox.bytes, FileBox.header, FileBox.raw_size]
            · refine List.drop_eq_nil_of_le ?_
              simp only [FileBox.raw_size]
              omega
          · have size : raw_size = 16 + payload.length := by
              omega
            subst size
            refine ⟨⟨.extended, box_type, payload⟩, room, ?_, raw_lt, rfl⟩
            refine sizeAt.trans ?_
            rw [wideAt, payloadAt]
            simp [FileBox.bytes, FileBox.header, FileBox.raw_size]
          · have size : raw_size = 8 + payload.length := by
              omega
            subst size
            refine ⟨⟨.short, box_type, payload⟩, room, ?_, size_lt, rfl⟩
            refine sizeAt.trans ?_
            rw [payloadAt]
            simp [FileBox.bytes, FileBox.header, FileBox.raw_size]

end Jxlz.Container
