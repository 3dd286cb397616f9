import Jxlz.Base.Checked
import Jxlz.Lib.BigEndian

namespace Jxlz.Icc

open BigEndian

/-!
# What the two sides of the ICC codec share

Mirrors `icc_codec_common.zig`: keywords and numbers of a profile, the
predictions of its bytes, and the contexts that the predicted bytes are coded
in.
-/

def kICCHeaderSize : Nat := 128

/-- A keyword of four bytes. -/
structure Tag where
  c0 : UInt8
  c1 : UInt8
  c2 : UInt8
  c3 : UInt8
  deriving Repr, DecidableEq

namespace Tag

def of
    (c0 c1 c2 c3 : Char) :
    Tag :=
  ⟨c0.toUInt8, c1.toUInt8, c2.toUInt8, c3.toUInt8⟩

def bytes
    (self : Tag) :
    List UInt8 :=
  [self.c0, self.c1, self.c2, self.c3]

@[simp]
theorem length_bytes
    (self : Tag) :
    self.bytes.length = 4 :=
  rfl

end Tag

def kBkptTag : Tag := .of 'b' 'k' 'p' 't'
def kBtrcTag : Tag := .of 'b' 'T' 'R' 'C'
def kBxyzTag : Tag := .of 'b' 'X' 'Y' 'Z'
def kChadTag : Tag := .of 'c' 'h' 'a' 'd'
def kChrmTag : Tag := .of 'c' 'h' 'r' 'm'
def kCprtTag : Tag := .of 'c' 'p' 'r' 't'
def kCurvTag : Tag := .of 'c' 'u' 'r' 'v'
def kDescTag : Tag := .of 'd' 'e' 's' 'c'
def kDmddTag : Tag := .of 'd' 'm' 'd' 'd'
def kDmndTag : Tag := .of 'd' 'm' 'n' 'd'
def kGbd_Tag : Tag := .of 'g' 'b' 'd' ' '
def kGtrcTag : Tag := .of 'g' 'T' 'R' 'C'
def kGxyzTag : Tag := .of 'g' 'X' 'Y' 'Z'
def kKtrcTag : Tag := .of 'k' 'T' 'R' 'C'
def kKxyzTag : Tag := .of 'k' 'X' 'Y' 'Z'
def kLumiTag : Tag := .of 'l' 'u' 'm' 'i'
def kMab_Tag : Tag := .of 'm' 'A' 'B' ' '
def kMba_Tag : Tag := .of 'm' 'B' 'A' ' '
def kMlucTag : Tag := .of 'm' 'l' 'u' 'c'
def kParaTag : Tag := .of 'p' 'a' 'r' 'a'
def kRtrcTag : Tag := .of 'r' 'T' 'R' 'C'
def kRxyzTag : Tag := .of 'r' 'X' 'Y' 'Z'
def kSf32Tag : Tag := .of 's' 'f' '3' '2'
def kTextTag : Tag := .of 't' 'e' 'x' 't'
def kVcgtTag : Tag := .of 'v' 'c' 'g' 't'
def kWtptTag : Tag := .of 'w' 't' 'p' 't'
def kXyz_Tag : Tag := .of 'X' 'Y' 'Z' ' '

def kTagStrings : List Tag :=
  [kCprtTag, kWtptTag, kBkptTag, kRxyzTag, kGxyzTag, kBxyzTag, kKxyzTag,
    kRtrcTag, kGtrcTag, kBtrcTag, kKtrcTag, kChadTag, kDescTag, kChrmTag,
    kDmndTag, kDmddTag, kLumiTag]

def kCommandTagUnknown : UInt8 := 1
def kCommandTagTRC : UInt8 := 2
def kCommandTagXYZ : UInt8 := 3
def kCommandTagStringFirst : UInt8 := 4

def kTypeStrings : List Tag :=
  [kXyz_Tag, kDescTag, kTextTag, kMlucTag, kParaTag, kCurvTag, kSf32Tag,
    kGbd_Tag]

def kCommandInsert : UInt8 := 1
def kCommandShuffle2 : UInt8 := 2
def kCommandShuffle4 : UInt8 := 3
def kCommandPredict : UInt8 := 4
def kCommandXYZ : UInt8 := 10
def kCommandTypeStartFirst : UInt8 := 16

def kFlagBitOffset : UInt8 := 64
def kFlagBitSize : UInt8 := 128

/-- `predictValue`, in unsigned arithmetic of the given width that wraps. -/
def predictValue
    (width p1 p2 p3 order : Nat) :
    Nat :=
  match order with
  | 0 => p1
  | 1 => ((2 * p1 - p2 : Int) % 2 ^ width).toNat
  | 2 => ((3 * p1 - 3 * p2 + p3 : Int) % 2 ^ width).toNat
  | _ => 0

/-- The number at a position, zero where there is none. -/
def decodeUint32
    (data : List UInt8)
    (pos : Nat) :
    Nat :=
  if data.length < pos + 4 then 0 else valueOf ((data.drop pos).take 4)

theorem decodeUint32_lt
    (data : List UInt8)
    (pos : Nat) :
    decodeUint32 data pos < 2 ^ 32 := by
  unfold decodeUint32
  split
  · exact Nat.two_pow_pos 32
  · have bound := valueOf_lt ((data.drop pos).take 4)
    have short : ((data.drop pos).take 4).length ≤ 4 := List.length_take_le _ _
    exact Nat.lt_of_lt_of_le bound (Nat.pow_le_pow_right (by decide) short)

def appendUint32
    (bytes : List UInt8)
    (value : Nat) :
    List UInt8 :=
  bytes ++ bytesOf 4 value

/-- The keyword at a position, blanks where there is none. -/
def decodeKeyword
    (data : List UInt8)
    (pos : Nat) :
    Tag :=
  match (data.drop pos).take 4 with
  | [c0, c1, c2, c3] => ⟨c0, c1, c2, c3⟩
  | _ => .of ' ' ' ' ' ' ' '

def appendKeyword
    (bytes : List UInt8)
    (keyword : Tag) :
    List UInt8 :=
  bytes ++ keyword.bytes

/-- `a + b > size`, also where the sum wraps. -/
def checkOutOfBounds
    (a b size : Nat) :
    Checked Unit :=
  let pos := (a + b) % 2 ^ 64
  if size < pos ∨ pos < a then fail .OutOfBounds else .ok ()

def checkIs32Bit
    (v : Nat) :
    Checked Unit :=
  if v < 2 ^ 32 then .ok () else fail .Expected32BitValue

/-- The default header behind the size of the profile. -/
def kIccInitialHeaderPrediction : List UInt8 :=
  [0, 0, 0, 0, 4, 0, 0, 0] ++
    (Tag.of 'm' 'n' 't' 'r').bytes ++ (Tag.of 'R' 'G' 'B' ' ').bytes ++
    kXyz_Tag.bytes ++ List.replicate 12 0 ++
    (Tag.of 'a' 'c' 's' 'p').bytes ++ List.replicate 30 0 ++
    [246, 214, 0, 1, 0, 0, 0, 0, 211, 45] ++ List.replicate 48 0

/-- The default header of a profile of the given size. -/
def initialHeaderPrediction
    (size : Nat) :
    List UInt8 :=
  bytesOf 4 size ++ kIccInitialHeaderPrediction

theorem length_initialHeaderPrediction
    (size : Nat) :
    (initialHeaderPrediction size).length = kICCHeaderSize := by
  rw [initialHeaderPrediction, List.length_append, length_bytesOf]
  simp [kIccInitialHeaderPrediction, kICCHeaderSize]

/-- Bytes stored in the header from a position on. -/
def storeHeader
    (header : List UInt8)
    (pos : Nat)
    (bytes : List UInt8) :
    List UInt8 :=
  header.take pos ++ bytes ++ header.drop (pos + bytes.length)

/-- What the bytes before a position change about the default header. -/
def predictHeader
    (icc header : List UInt8)
    (pos : Nat) :
    List UInt8 :=
  if pos = 8 ∧ 8 ≤ icc.length then
    storeHeader header 80 ((icc.drop 4).take 4)
  else if pos = 41 ∧ 41 ≤ icc.length then
    -- The byte before tells `APPL` from `MSFT`.
    if icc[40]? = some 'A'.toUInt8 then
      storeHeader header 41 ['P'.toUInt8, 'P'.toUInt8, 'L'.toUInt8]
    else if icc[40]? = some 'M'.toUInt8 then
      storeHeader header 41 ['S'.toUInt8, 'F'.toUInt8, 'T'.toUInt8]
    else
      header
  else if pos = 42 ∧ 42 ≤ icc.length then
    -- The two bytes before tell `SGI ` from `SUNW`.
    if icc[40]? = some 'S'.toUInt8 ∧ icc[41]? = some 'G'.toUInt8 then
      storeHeader header 42 ['I'.toUInt8, ' '.toUInt8]
    else if icc[40]? = some 'S'.toUInt8 ∧ icc[41]? = some 'U'.toUInt8 then
      storeHeader header 42 ['N'.toUInt8, 'W'.toUInt8]
    else
      header
  else
    header

/-- A header byte is predicted from the bytes before it. -/
theorem predictHeader_take
    (icc header : List UInt8)
    {pos : Nat}
    (inside : pos ≤ icc.length) :
    predictHeader (icc.take pos) header pos = predictHeader icc header pos := by
  have count : (icc.take pos).length = pos := by
    rw [List.length_take, Nat.min_eq_left inside]
  have same :
      ∀ place,
        (pos = place ∧ place ≤ (icc.take pos).length) ↔
          (pos = place ∧ place ≤ icc.length) := by
    intro place
    rw [count]
    exact ⟨fun ⟨isPlace, _⟩ => ⟨isPlace, isPlace ▸ inside⟩,
      fun ⟨isPlace, _⟩ => ⟨isPlace, Nat.le_of_eq isPlace.symm⟩⟩
  unfold predictHeader
  simp only [same]
  by_cases at8 : pos = 8 ∧ 8 ≤ icc.length
  · rw [if_pos at8, if_pos at8, at8.1, List.drop_take, List.take_take]
    rfl
  · rw [if_neg at8, if_neg at8]
    by_cases at41 : pos = 41 ∧ 41 ≤ icc.length
    · rw [if_pos at41, if_pos at41, at41.1,
        List.getElem?_take_of_lt (by decide)]
    · rw [if_neg at41, if_neg at41]
      by_cases at42 : pos = 42 ∧ 42 ≤ icc.length
      · rw [if_pos at42, if_pos at42, at42.1,
          List.getElem?_take_of_lt (by decide),
          List.getElem?_take_of_lt (by decide)]
      · rw [if_neg at42, if_neg at42]

/-- The value of a lane: the bytes from a position, most significant first. -/
def lane16
    (data : List UInt8)
    (pos : Nat) :
    Checked Nat := do
  let high ← index data pos
  let low ← index data (pos + 1)
  return high.toNat * 2 ^ 8 + low.toNat

/--
The prediction of a byte from three lanes before it, each `stride` bytes from
the next.
-/
def linearPredictValue
    (data : List UInt8)
    (start i stride width order : Nat) :
    Checked UInt8 := do
  let pos := start + i
  if width = 1 then
    let p1 ← index data (← subU pos stride)
    let p2 ← index data (← subU pos (stride * 2))
    let p3 ← index data (← subU pos (stride * 3))
    return UInt8.ofNat (predictValue 8 p1.toNat p2.toNat p3.toNat order)
  else if width = 2 then
    let p := start + i / 2 * 2
    let p1 ← lane16 data (← subU p stride)
    let p2 ← lane16 data (← subU p (stride * 2))
    let p3 ← lane16 data (← subU p (stride * 3))
    let pred := predictValue 16 p1 p2 p3 order
    return UInt8.ofNat (if i % 2 = 1 then pred else pred >>> 8)
  else
    let p := start + i / 4 * 4
    require (pos ≤ data.length)
    let known := data.take pos
    let p1 := decodeUint32 known (← subU p stride)
    let p2 := decodeUint32 known (← subU p (stride * 2))
    let p3 := decodeUint32 known (← subU p (stride * 3))
    let pred := predictValue 32 p1 p2 p3 order
    return UInt8.ofNat (pred >>> ((3 - i % 4) * 8))

theorem index_take
    {data : List UInt8}
    {count place : Nat}
    {byte : UInt8}
    (read : index data place = .ok byte)
    (before : place < count) :
    index (data.take count) place = .ok byte := by
  rw [index_eq_ok, List.getElem?_take_of_lt before]
  exact index_eq_ok.1 read

theorem lane16_take
    {data : List UInt8}
    {count place lane : Nat}
    (read : lane16 data place = .ok lane)
    (before : place + 1 < count) :
    lane16 (data.take count) place = .ok lane := by
  unfold lane16 at read ⊢
  obtain ⟨high, isHigh, read⟩ := bind_eq_ok.1 read
  obtain ⟨low, isLow, read⟩ := bind_eq_ok.1 read
  rw [index_take isHigh (by omega), ok_bind, index_take isLow before, ok_bind]
  exact read

/-- A byte is predicted from the bytes before it. -/
theorem linearPredictValue_take
    {data : List UInt8}
    {start i stride width order : Nat}
    {value : UInt8}
    (predicted :
      linearPredictValue data start i stride width order = .ok value)
    (apart : width ≤ stride) :
    linearPredictValue (data.take (start + i)) start i stride width order =
      .ok value := by
  unfold linearPredictValue at predicted ⊢
  dsimp only at predicted ⊢
  by_cases one : width = 1
  · rw [if_pos one] at predicted ⊢
    obtain ⟨place1, isPlace1, predicted⟩ := bind_eq_ok.1 predicted
    obtain ⟨p1, isP1, predicted⟩ := bind_eq_ok.1 predicted
    obtain ⟨place2, isPlace2, predicted⟩ := bind_eq_ok.1 predicted
    obtain ⟨p2, isP2, predicted⟩ := bind_eq_ok.1 predicted
    obtain ⟨place3, isPlace3, predicted⟩ := bind_eq_ok.1 predicted
    obtain ⟨p3, isP3, predicted⟩ := bind_eq_ok.1 predicted
    obtain ⟨value1, room1⟩ := subU_eq_ok isPlace1
    obtain ⟨value2, room2⟩ := subU_eq_ok isPlace2
    obtain ⟨value3, room3⟩ := subU_eq_ok isPlace3
    rw [isPlace1, ok_bind, index_take isP1 (by omega), ok_bind, isPlace2,
      ok_bind, index_take isP2 (by omega), ok_bind, isPlace3, ok_bind,
      index_take isP3 (by omega), ok_bind]
    exact predicted
  · rw [if_neg one] at predicted ⊢
    by_cases two : width = 2
    · rw [if_pos two] at predicted ⊢
      obtain ⟨place1, isPlace1, predicted⟩ := bind_eq_ok.1 predicted
      obtain ⟨p1, isP1, predicted⟩ := bind_eq_ok.1 predicted
      obtain ⟨place2, isPlace2, predicted⟩ := bind_eq_ok.1 predicted
      obtain ⟨p2, isP2, predicted⟩ := bind_eq_ok.1 predicted
      obtain ⟨place3, isPlace3, predicted⟩ := bind_eq_ok.1 predicted
      obtain ⟨p3, isP3, predicted⟩ := bind_eq_ok.1 predicted
      obtain ⟨value1, room1⟩ := subU_eq_ok isPlace1
      obtain ⟨value2, room2⟩ := subU_eq_ok isPlace2
      obtain ⟨value3, room3⟩ := subU_eq_ok isPlace3
      rw [isPlace1, ok_bind, lane16_take isP1 (by omega), ok_bind, isPlace2,
        ok_bind, lane16_take isP2 (by omega), ok_bind, isPlace3, ok_bind,
        lane16_take isP3 (by omega), ok_bind]
      exact predicted
    · rw [if_neg two] at predicted ⊢
      obtain ⟨_, isInside, predicted⟩ := bind_eq_ok.1 predicted
      have inside : start + i ≤ data.length := require_eq_ok.1 isInside
      have count : (data.take (start + i)).length = start + i := by
        rw [List.length_take, Nat.min_eq_left inside]
      rw [require_ok (Nat.le_of_eq count.symm), ok_bind, List.take_take,
        Nat.min_self]
      exact predicted

end Jxlz.Icc
