import Jxlz.Codec.ContainerExact

namespace Jxlz.Container

open BigEndian

/-!
# Wrapping a codestream and parsing it back

The writer spells the signature, `ftyp`, the metadata boxes and one `jxlc` box,
and refuses payloads whose size a short header cannot state.  The parser keeps
metadata boxes as they are.
-/

/-- The types that the parser does not look into. -/
def IsMetadata
    (box_type : BoxType) :
    Prop :=
  box_type ≠ .jxlc ∧ box_type ≠ .jxlp ∧ box_type ≠ .ftyp ∧
    box_type ≠ .brob ∧ box_type ≠ .jbrd

/-- A box as the writer spells it. -/
def shortBox
    (box_type : BoxType)
    (payload : List UInt8) :
    FileBox :=
  { form := .short, box_type, payload }

/-- The boxes that the writer spells. -/
def wrappedBoxes
    (codestream : List UInt8)
    (boxes : List Box) :
    List FileBox :=
  signatureBox :: shortBox .ftyp ftyp_payload ::
    (boxes.map (fun box => shortBox box.box_type box.contents) ++
      [shortBox .jxlc codestream])

/-- All payloads are short enough for a header of eight bytes. -/
def SizesFit
    (codestream : List UInt8)
    (boxes : List Box) :
    Prop :=
  (∀ box ∈ boxes, 8 + box.contents.length < 2 ^ 32) ∧
    8 + codestream.length < 2 ^ 32

variable {Data : Type}

/-- A box of the file as the parser keeps it. -/
def FileBox.keep
    (box : FileBox) :
    OwnedBox Data :=
  { box_type := box.box_type, raw_size := box.raw_size, contents := box.payload }

/-- Parsing what the writer wrote returns the codestream and the boxes. -/
def RoundTrips
    (decompress : List UInt8 → Checked (List UInt8))
    (parse : List UInt8 → Checked Data)
    (codestream : List UInt8)
    (boxes : List Box) :
    Prop :=
  ∃ bytes,
    wrapCodestreamWithBoxes codestream boxes = .ok bytes ∧
      extractCodestreamAndBoxes decompress parse bytes =
        .ok {
          codestream
          boxes := (wrappedBoxes codestream boxes).map FileBox.keep }

theorem bytes_shortBox
    (box_type : BoxType)
    (payload : List UInt8) :
    (shortBox box_type payload).bytes =
      bytesOf 4 (8 + payload.length) ++ box_type.bytes ++ payload :=
  rfl

theorem appendBox_eq_ok
    {list payload result : List UInt8}
    {box_type : BoxType} :
    appendBox list box_type payload = .ok result ↔
      8 + payload.length < 2 ^ 32 ∧
        result = list ++ (shortBox box_type payload).bytes := by
  unfold appendBox
  dsimp only
  by_cases large : 2 ^ 32 - 1 < 8 + payload.length
  · rw [if_pos large]
    constructor
    · intro failed
      cases failed
    · rintro ⟨small, _⟩
      omega
  · rw [if_neg large, bytes_shortBox, ← List.append_assoc, ← List.append_assoc]
    constructor
    · intro done
      cases done
      exact ⟨by omega, rfl⟩
    · rintro ⟨_, rfl⟩
      rfl

theorem appendBoxes_eq_ok
    {boxes : List Box}
    {list result : List UInt8} :
    boxes.foldlM (fun list box => appendBox list box.box_type box.contents)
        list = .ok result ↔
      (∀ box ∈ boxes, 8 + box.contents.length < 2 ^ 32) ∧
        result =
          list ++
            bytesOfBoxes
              (boxes.map (fun box => shortBox box.box_type box.contents)) := by
  induction boxes generalizing list with
  | nil =>
      rw [List.foldlM_nil, pure_eq_ok]
      constructor
      · intro done
        cases done
        exact ⟨fun box member => absurd member List.not_mem_nil,
          (List.append_nil _).symm⟩
      · rintro ⟨_, isResult⟩
        rw [isResult]
        exact congrArg Except.ok (List.append_nil _).symm
  | cons first boxes inductionHypothesis =>
      rw [List.foldlM_cons, bind_eq_ok]
      constructor
      · rintro ⟨middle, isMiddle, isResult⟩
        obtain ⟨firstFits, isMiddle⟩ := appendBox_eq_ok.1 isMiddle
        obtain ⟨fits, isResult⟩ := inductionHypothesis.1 isResult
        refine ⟨List.forall_mem_cons.2 ⟨firstFits, fits⟩, ?_⟩
        rw [isResult, isMiddle, List.map_cons, bytesOfBoxes_cons,
          List.append_assoc]
      · rintro ⟨fits, isResult⟩
        obtain ⟨firstFits, fits⟩ := List.forall_mem_cons.1 fits
        refine ⟨_, appendBox_eq_ok.2 ⟨firstFits, rfl⟩,
          inductionHypothesis.2 ⟨fits, ?_⟩⟩
        rw [isResult, List.map_cons, bytesOfBoxes_cons, List.append_assoc]

/-- The writer succeeds when all sizes fit, and then spells the boxes. -/
theorem wrapCodestreamWithBoxes_eq_ok
    {codestream bytes : List UInt8}
    {boxes : List Box} :
    wrapCodestreamWithBoxes codestream boxes = .ok bytes ↔
      SizesFit codestream boxes ∧
        bytes = bytesOfBoxes (wrappedBoxes codestream boxes) := by
  have spelled :
      bytesOfBoxes (wrappedBoxes codestream boxes) =
        signature_box ++ (shortBox .ftyp ftyp_payload).bytes ++
          bytesOfBoxes
            (boxes.map (fun box => shortBox box.box_type box.contents)) ++
            (shortBox .jxlc codestream).bytes := by
    have last :
        bytesOfBoxes [shortBox .jxlc codestream] =
          (shortBox .jxlc codestream).bytes :=
      List.append_nil _
    unfold wrappedBoxes
    rw [bytesOfBoxes_cons, bytesOfBoxes_cons, bytesOfBoxes_append, last,
      bytes_signatureBox]
    simp only [List.append_assoc]
  unfold wrapCodestreamWithBoxes
  rw [spelled, bind_eq_ok]
  constructor
  · rintro ⟨first, isFirst, ran⟩
    obtain ⟨_, rfl⟩ := appendBox_eq_ok.1 isFirst
    obtain ⟨second, isSecond, ran⟩ := bind_eq_ok.1 ran
    obtain ⟨boxesFit, rfl⟩ := appendBoxes_eq_ok.1 isSecond
    obtain ⟨fits, rfl⟩ := appendBox_eq_ok.1 ran
    exact ⟨⟨boxesFit, fits⟩, rfl⟩
  · rintro ⟨⟨boxesFit, fits⟩, rfl⟩
    refine ⟨_, appendBox_eq_ok.2 ⟨by decide, rfl⟩, bind_eq_ok.2 ?_⟩
    exact ⟨_, appendBoxes_eq_ok.2 ⟨boxesFit, rfl⟩,
      appendBox_eq_ok.2 ⟨fits, rfl⟩⟩

section

variable {decompress : List UInt8 → Checked (List UInt8)}
variable {parse : List UInt8 → Checked Data}
variable {container_bytes : List UInt8}
variable {state next : ContainerState Data}
variable {fuel : Nat}

/-- The loop goes on behind a box. -/
theorem parseBoxes_step
    {front behind : List UInt8}
    {box : FileBox}
    (split : container_bytes = front ++ box.bytes ++ behind)
    (fits : box.Fits behind)
    (atOffset : state.offset = front.length)
    (taken :
      state.parseBox decompress parse (box.parsed state.offset) = .ok next) :
    parseBoxes decompress parse container_bytes (fuel + 1) state =
      parseBoxes decompress parse container_bytes fuel next := by
  have least := box.eight_le_raw_size
  have room : state.offset + 8 ≤ container_bytes.length := by
    rw [split, List.length_append, List.length_append, box.length_bytes,
      atOffset]
    omega
  rw [parseBoxes, if_pos room, atOffset, parseBoxHeader_ok split fits, ok_bind,
    ← atOffset, taken, ok_bind]

/-- The loop ends at the end of the input. -/
theorem parseBoxes_end
    (atEnd : state.offset = container_bytes.length) :
    parseBoxes decompress parse container_bytes fuel state = .ok state := by
  have done : ¬ state.offset + 8 ≤ container_bytes.length := by
    omega
  cases fuel with
  | zero =>
      rw [parseBoxes, if_neg done]
  | succ fuel =>
      rw [parseBoxes, if_neg done]

/-- A metadata box is kept. -/
theorem parseBox_metadata
    {box : FileBox}
    (metadata : IsMetadata box.box_type)
    (behindFtyp : signature_box.length < state.offset) :
    state.parseBox decompress parse (box.parsed state.offset) =
      .ok { state with
        offset := state.offset + box.raw_size
        owned_boxes := state.owned_boxes ++ [box.keep] } := by
  obtain ⟨notJxlc, notJxlp, notFtyp, notBrob, notJbrd⟩ := metadata
  have isType : (box.parsed state.offset).box_type = box.box_type := rfl
  have notSecond : ¬ state.offset = signature_box.length :=
    Nat.ne_of_gt behindFtyp
  have checked : checkFtyp state.offset (box.parsed state.offset) = .ok () := by
    unfold checkFtyp
    rw [isType]
    simp [notFtyp, notSecond]
  have contents :
      state.parseContents decompress parse (box.parsed state.offset) =
        .ok (state.append (box.parsed state.offset) none) := by
    rw [ContainerState.parseContents, isType, if_neg notJxlc, if_neg notJxlp,
      ContainerState.parseOther, isType, if_neg notBrob, if_neg notJbrd]
  rw [ContainerState.parseBox, checked, ok_bind, contents, ok_bind]
  rfl

/-- The loop keeps a run of metadata boxes. -/
theorem parseBoxes_metadata
    {front behind : List UInt8}
    {boxes : List FileBox}
    (split : container_bytes = front ++ bytesOfBoxes boxes ++ behind)
    (short :
      ∀ box ∈ boxes, box.form = .short ∧ 8 + box.payload.length < 2 ^ 32)
    (metadata : ∀ box ∈ boxes, IsMetadata box.box_type)
    (behindFtyp : signature_box.length < front.length)
    (atOffset : state.offset = front.length) :
    parseBoxes decompress parse container_bytes (boxes.length + fuel) state =
      parseBoxes decompress parse container_bytes fuel
        { state with
          offset := (front ++ bytesOfBoxes boxes).length
          owned_boxes := state.owned_boxes ++ boxes.map FileBox.keep } := by
  induction boxes generalizing front state with
  | nil =>
      have none : bytesOfBoxes [] = [] := rfl
      rw [List.length_nil, Nat.zero_add, none, List.append_nil, ← atOffset,
        List.map_nil, List.append_nil]
  | cons box boxes inductionHypothesis =>
      obtain ⟨form, small⟩ := short box List.mem_cons_self
      have fits : box.Fits (bytesOfBoxes boxes ++ behind) := by
        unfold FileBox.Fits
        rw [form]
        exact small
      have here :
          container_bytes =
            front ++ box.bytes ++ (bytesOfBoxes boxes ++ behind) := by
        rw [split, bytesOfBoxes_cons]
        simp only [List.append_assoc]
      have later :
          container_bytes =
            (front ++ box.bytes) ++ bytesOfBoxes boxes ++ behind := by
        rw [here]
        simp only [List.append_assoc]
      have kept :=
        @parseBox_metadata Data decompress parse state box
          (metadata box List.mem_cons_self) (atOffset ▸ behindFtyp)
      rw [List.length_cons, Nat.add_right_comm,
        parseBoxes_step here fits atOffset kept,
        inductionHypothesis later
          (fun other member => short other (List.mem_cons_of_mem _ member))
          (fun other member => metadata other (List.mem_cons_of_mem _ member))
          (by rw [List.length_append]; omega)
          (by
            rw [List.length_append, box.length_bytes, ← atOffset])]
      simp [bytesOfBoxes_cons]

/-- The box behind the signature. -/
def ftypBox : FileBox :=
  shortBox .ftyp ftyp_payload

theorem parseBox_ftyp :
    (ContainerState.start : ContainerState Data).parseBox decompress parse
        (ftypBox.parsed signature_box.length) =
      .ok { (ContainerState.start : ContainerState Data) with
        offset := 32
        owned_boxes := [signatureBox.keep, ftypBox.keep] } :=
  rfl

/-- A whole codestream is taken. -/
theorem parseBox_jxlc
    {codestream : List UInt8}
    (unbroken : state.saw_jxlp = false)
    (first : state.codestream = none)
    (behindFtyp : signature_box.length < state.offset) :
    state.parseBox decompress parse
        ((shortBox .jxlc codestream).parsed state.offset) =
      .ok { state with
        offset := state.offset + (8 + codestream.length)
        owned_boxes := state.owned_boxes ++ [(shortBox .jxlc codestream).keep]
        codestream := some codestream } := by
  have isType :
      ((shortBox .jxlc codestream).parsed state.offset).box_type = .jxlc :=
    rfl
  have notSecond : ¬ state.offset = signature_box.length :=
    Nat.ne_of_gt behindFtyp
  have notFtyp : BoxType.jxlc ≠ .ftyp := by
    decide
  have checked :
      checkFtyp state.offset ((shortBox .jxlc codestream).parsed state.offset) =
        .ok () := by
    unfold checkFtyp
    rw [isType]
    simp [notFtyp, notSecond]
  rw [ContainerState.parseBox, checked, ok_bind, ContainerState.parseContents,
    isType, if_pos rfl, ContainerState.parseJxlc,
    if_neg (Bool.eq_false_iff.1 unbroken), if_neg (not_not_intro first),
    ok_bind]
  rfl

end

theorem length_le_bytesOfBoxes
    (boxes : List FileBox) :
    boxes.length ≤ (bytesOfBoxes boxes).length := by
  induction boxes with
  | nil =>
      exact Nat.le_refl _
  | cons box boxes inductionHypothesis =>
      have least := box.eight_le_raw_size
      rw [bytesOfBoxes_cons, List.length_append, box.length_bytes,
        List.length_cons]
      omega

/-- What the parser makes of the boxes that the writer spells. -/
theorem extract_wrappedBoxes
    (decompress : List UInt8 → Checked (List UInt8))
    (parse : List UInt8 → Checked Data)
    {codestream : List UInt8}
    {boxes : List Box}
    (metadata : ∀ box ∈ boxes, IsMetadata box.box_type)
    (sizes : SizesFit codestream boxes) :
    extractCodestreamAndBoxes decompress parse
        (bytesOfBoxes (wrappedBoxes codestream boxes)) =
      .ok {
        codestream
        boxes := (wrappedBoxes codestream boxes).map FileBox.keep } := by
  let middle := boxes.map (fun box => shortBox box.box_type box.contents)
  let last := shortBox .jxlc codestream
  have lastBytes : bytesOfBoxes [last] = last.bytes :=
    List.append_nil _
  have atFtyp :
      bytesOfBoxes (wrappedBoxes codestream boxes) =
        signature_box ++ ftypBox.bytes ++ (bytesOfBoxes middle ++ last.bytes) := by
    unfold wrappedBoxes
    rw [bytesOfBoxes_cons, bytesOfBoxes_cons, bytesOfBoxes_append,
      bytes_signatureBox, lastBytes]
    simp only [List.append_assoc]
    rfl
  have atMiddle :
      bytesOfBoxes (wrappedBoxes codestream boxes) =
        (signature_box ++ ftypBox.bytes) ++ bytesOfBoxes middle ++ last.bytes := by
    rw [atFtyp]
    simp only [List.append_assoc]
  have atLast :
      bytesOfBoxes (wrappedBoxes codestream boxes) =
        (signature_box ++ ftypBox.bytes ++ bytesOfBoxes middle) ++
          last.bytes ++ [] := by
    rw [atMiddle, List.append_nil]
  have signed :
      (bytesOfBoxes (wrappedBoxes codestream boxes)).take signature_box.length =
        signature_box := by
    rw [atFtyp, List.append_assoc, List.take_left]
  have lastFits : last.Fits [] := sizes.2
  have shortMiddle :
      ∀ box ∈ middle, box.form = .short ∧ 8 + box.payload.length < 2 ^ 32 := by
    intro box member
    obtain ⟨source, inBoxes, rfl⟩ := List.mem_map.1 member
    exact ⟨rfl, sizes.1 source inBoxes⟩
  have metadataMiddle : ∀ box ∈ middle, IsMetadata box.box_type := by
    intro box member
    obtain ⟨source, inBoxes, rfl⟩ := List.mem_map.1 member
    exact metadata source inBoxes
  have ftypSize : ftypBox.bytes.length = 20 := rfl
  have signatureSize : signature_box.length = 12 := rfl
  have total :
      (bytesOfBoxes (wrappedBoxes codestream boxes)).length =
        32 + (bytesOfBoxes middle).length + (8 + codestream.length) := by
    have lastSize : last.bytes.length = 8 + codestream.length :=
      last.length_bytes
    rw [atMiddle]
    simp only [List.length_append, ftypSize, signatureSize, lastSize]
  -- Every box takes a round of the loop, and there are more bytes than boxes.
  obtain ⟨fuel, enough⟩ :
      ∃ fuel,
        (bytesOfBoxes (wrappedBoxes codestream boxes)).length =
          middle.length + (fuel + 1) + 1 := by
    have more := length_le_bytesOfBoxes middle
    refine ⟨(bytesOfBoxes (wrappedBoxes codestream boxes)).length -
      middle.length - 2, ?_⟩
    omega
  have start :
      parseBoxes decompress parse
          (bytesOfBoxes (wrappedBoxes codestream boxes))
          (middle.length + (fuel + 1) + 1) ContainerState.start =
        parseBoxes decompress parse
          (bytesOfBoxes (wrappedBoxes codestream boxes))
          (middle.length + (fuel + 1))
          { (ContainerState.start : ContainerState Data) with
            offset := 32
            owned_boxes := [signatureBox.keep, ftypBox.keep] } :=
    parseBoxes_step atFtyp (show (20 : Nat) < 2 ^ 32 by decide) rfl
      parseBox_ftyp
  have front :
      (signature_box ++ ftypBox.bytes ++ bytesOfBoxes middle).length =
        32 + (bytesOfBoxes middle).length := by
    simp only [List.length_append, ftypSize, signatureSize]
  have atEnd :
      (signature_box ++ ftypBox.bytes ++ bytesOfBoxes middle).length +
          (8 + codestream.length) =
        (bytesOfBoxes (wrappedBoxes codestream boxes)).length := by
    omega
  have behindFtyp :
      signature_box.length <
        (signature_box ++ ftypBox.bytes ++ bytesOfBoxes middle).length := by
    omega
  unfold extractCodestreamAndBoxes parseContainer
  rw [if_neg (by omega), if_neg (not_not_intro signed), enough, start,
    parseBoxes_metadata atMiddle shortMiddle metadataMiddle (by decide) rfl,
    parseBoxes_step atLast lastFits rfl
      (parseBox_jxlc rfl rfl behindFtyp),
    parseBoxes_end atEnd, ok_bind]
  simp only [ContainerState.finish, wrappedBoxes, List.map_cons, List.map_append,
    List.cons_append, List.nil_append]
  rfl

/-- Wrapping and parsing back works exactly for payloads that fit. -/
theorem roundTrips_iff
    (decompress : List UInt8 → Checked (List UInt8))
    (parse : List UInt8 → Checked Data)
    {codestream : List UInt8}
    {boxes : List Box}
    (metadata : ∀ box ∈ boxes, IsMetadata box.box_type) :
    RoundTrips decompress parse codestream boxes ↔
      SizesFit codestream boxes := by
  constructor
  · rintro ⟨bytes, wrapped, _⟩
    exact (wrapCodestreamWithBoxes_eq_ok.1 wrapped).1
  · intro sizes
    exact ⟨_, wrapCodestreamWithBoxes_eq_ok.2 ⟨sizes, rfl⟩,
      extract_wrappedBoxes decompress parse metadata sizes⟩

/--
Wrapping and parsing back works exactly for payloads that fit, and an accepted
input is exactly its boxes unless bytes are left over behind the last one.
-/
theorem container_exact_iff
    (decompress : List UInt8 → Checked (List UInt8))
    (parse : List UInt8 → Checked Data) :
    (∀ codestream boxes,
      (∀ box ∈ boxes, IsMetadata box.box_type) →
      (RoundTrips decompress parse codestream boxes ↔
        SizesFit codestream boxes)) ∧
      ∀ container_bytes parsed,
        parseContainer decompress parse container_bytes = .ok parsed →
        (ExactParse container_bytes parsed ↔ ¬ LeftOver container_bytes) :=
  ⟨fun _ _ metadata => roundTrips_iff decompress parse metadata,
    fun _ _ accepted => exactParse_iff accepted⟩

/-- A file of a codestream of two bytes. -/
def plainFile : List UInt8 :=
  signature_box ++ ftypBox.bytes ++ (shortBox .jxlc [0xFF, 0x0A]).bytes

def noBrotli : List UInt8 → Checked (List UInt8) :=
  fun _ => fail .BrotliDecoderFailure

def noReconstruction : List UInt8 → Checked Unit :=
  fun _ => fail .InvalidJpegReconstruction

theorem container_exact_iff_plainFile :
    RoundTrips noBrotli noReconstruction [0xFF, 0x0A]
        [{ box_type := .of 'x' 'm' 'l' ' ', contents := [0x3C] }] ∧
      ∃ parsed,
        parseContainer noBrotli noReconstruction plainFile = .ok parsed ∧
          (ExactParse plainFile parsed ↔ ¬ LeftOver plainFile) := by
  obtain ⟨wraps, parses⟩ := container_exact_iff noBrotli noReconstruction
  refine ⟨(wraps _ _ ?_).2 ?_, _, rfl, parses _ _ rfl⟩
  · intro box member
    rw [List.mem_singleton.1 member]
    unfold IsMetadata
    decide
  · refine ⟨?_, by decide⟩
    intro box member
    rw [List.mem_singleton.1 member]
    decide

/-- The same file with a byte behind its last box. -/
def longerFile : List UInt8 :=
  plainFile ++ [0x00]

theorem leftOver_longerFile :
    LeftOver longerFile := by
  have first :
      parseBoxHeader longerFile 0 = .ok (signatureBox.parsed 0) := by
    decide
  have second :
      parseBoxHeader longerFile 12 = .ok (ftypBox.parsed 12) := by
    decide
  have third :
      parseBoxHeader longerFile 32 =
        .ok ((shortBox .jxlc [0xFF, 0x0A]).parsed 32) := by
    decide
  refine ⟨42, ?_, by decide, by decide⟩
  exact ((Reaches.start.next first).next second).next third

/-- The parser accepts a byte that belongs to no box. -/
theorem not_exactParse_longerFile :
    ∃ parsed,
      parseContainer noBrotli noReconstruction longerFile = .ok parsed ∧
        ¬ ExactParse longerFile parsed :=
  ⟨_, rfl, fun exact => not_leftOver_of_exactParse exact leftOver_longerFile⟩

end Jxlz.Container
