import Jxlz.Codec.BoxTiling

namespace Jxlz.Container

open BigEndian

/-!
# What an accepted container holds

The loop over the boxes reads a run of boxes of the format, keeps each of them,
and takes the codestream from one `jxlc` box or from numbered `jxlp` boxes.  It
stops with fewer than eight bytes left, which it does not look at.
-/

/-- The bytes of boxes in a row. -/
def bytesOfBoxes
    (boxes : List FileBox) :
    List UInt8 :=
  boxes.flatMap FileBox.bytes

/-- Boxes in a row, each of a form that can state its size there. -/
def TiledBefore
    (behind : List UInt8) :
    List FileBox → Prop
  | [] => True
  | box :: boxes =>
      box.Fits (bytesOfBoxes boxes ++ behind) ∧ TiledBefore behind boxes

/-- The payloads of the boxes of one type, in order. -/
def payloads
    (box_type : BoxType)
    (boxes : List FileBox) :
    List (List UInt8) :=
  (boxes.filter (fun box => box.box_type = box_type)).map FileBox.payload

/-- The payload of a fragment: its index, the final flag, and its bytes. -/
def fragment
    (index : Nat)
    (is_last : Bool)
    (piece : List UInt8) :
    List UInt8 :=
  bytesOf 4 (index + if is_last then 2 ^ 31 else 0) ++ piece

/-- Fragments numbered from zero; only the last one may carry the flag. -/
def numbered
    (is_last : Bool)
    (pieces : List (List UInt8)) :
    List (List UInt8) :=
  pieces.mapIdx
    (fun index piece =>
      fragment index (is_last && index + 1 == pieces.length) piece)

/-- The codestream that the boxes of a file carry. -/
inductive Carries
    (boxes : List FileBox) :
    List UInt8 → Prop
  | whole
      (codestream : List UInt8)
      (only : payloads .jxlc boxes = [codestream])
      (unbroken : payloads .jxlp boxes = []) :
      Carries boxes codestream
  | fragments
      (pieces : List (List UInt8))
      (broken : payloads .jxlc boxes = [])
      (nonempty : pieces ≠ [])
      (indices : pieces.length ≤ 2 ^ 31)
      (inOrder : payloads .jxlp boxes = numbered true pieces) :
      Carries boxes pieces.flatten

variable {Data : Type}
variable {container_bytes : List UInt8}

/-- What a kept box says of a box of the file. -/
def OwnedBox.view
    (box : OwnedBox Data) :
    BoxType × Nat × List UInt8 :=
  (box.box_type, box.raw_size, box.contents)

def FileBox.view
    (box : FileBox) :
    BoxType × Nat × List UInt8 :=
  (box.box_type, box.raw_size, box.payload)

/-- The input is boxes and nothing else, and they carry the codestream. -/
def ExactParse
    (container_bytes : List UInt8)
    (parsed : ParsedContainer Data) :
    Prop :=
  ∃ boxes,
    container_bytes = bytesOfBoxes boxes ∧
      TiledBefore [] boxes ∧
      parsed.boxes.map OwnedBox.view = boxes.map FileBox.view ∧
      Carries boxes parsed.codestream

/-- The offsets that a walk over the box headers comes to. -/
inductive Reaches
    (container_bytes : List UInt8) :
    Nat → Prop
  | start : Reaches container_bytes 0
  | next
      {offset : Nat}
      {header : ParsedBoxHeader}
      (reached : Reaches container_bytes offset)
      (read : parseBoxHeader container_bytes offset = .ok header) :
      Reaches container_bytes header.next_offset

/-- Bytes remain behind the last box, too few for the header of another one. -/
def LeftOver
    (container_bytes : List UInt8) :
    Prop :=
  ∃ offset,
    Reaches container_bytes offset ∧
      offset < container_bytes.length ∧ container_bytes.length < offset + 8

theorem bytesOfBoxes_append
    (front back : List FileBox) :
    bytesOfBoxes (front ++ back) = bytesOfBoxes front ++ bytesOfBoxes back :=
  List.flatMap_append

theorem bytesOfBoxes_cons
    (box : FileBox)
    (boxes : List FileBox) :
    bytesOfBoxes (box :: boxes) = box.bytes ++ bytesOfBoxes boxes :=
  List.flatMap_cons

/-- One more box behind a run of boxes. -/
theorem TiledBefore.concat
    {behind : List UInt8}
    {boxes : List FileBox}
    {box : FileBox}
    (tiled : TiledBefore (box.bytes ++ behind) boxes)
    (fits : box.Fits behind) :
    TiledBefore behind (boxes ++ [box]) := by
  induction boxes with
  | nil =>
      exact ⟨fits, trivial⟩
  | cons first boxes inductionHypothesis =>
      obtain ⟨firstFits, rest⟩ := tiled
      refine ⟨?_, inductionHypothesis rest⟩
      show first.Fits (bytesOfBoxes (boxes ++ [box]) ++ behind)
      have last : bytesOfBoxes [box] = box.bytes :=
        List.append_nil _
      rw [bytesOfBoxes_append, last, List.append_assoc]
      exact firstFits

/-- A box in the middle of a run fits there. -/
theorem TiledBefore.fits
    {front back : List FileBox}
    {box : FileBox}
    (tiled : TiledBefore [] (front ++ box :: back)) :
    box.Fits (bytesOfBoxes back) := by
  induction front with
  | nil =>
      have fits := tiled.1
      rwa [List.append_nil] at fits
  | cons first front inductionHypothesis =>
      exact inductionHypothesis tiled.2

theorem payloads_concat
    (box_type : BoxType)
    (boxes : List FileBox)
    (box : FileBox) :
    payloads box_type (boxes ++ [box]) =
      payloads box_type boxes ++
        if box.box_type = box_type then [box.payload] else [] := by
  unfold payloads
  rw [List.filter_append, List.map_append]
  by_cases same : box.box_type = box_type <;> simp [same]

/-- The walk over the headers of a tiled input stops at the ends of its boxes. -/
theorem Reaches.exists_split
    {boxes : List FileBox}
    {offset : Nat}
    (tiles : container_bytes = bytesOfBoxes boxes)
    (tiled : TiledBefore [] boxes)
    (reached : Reaches container_bytes offset) :
    ∃ front back,
      boxes = front ++ back ∧ offset = (bytesOfBoxes front).length := by
  induction reached with
  | start =>
      exact ⟨[], boxes, rfl, rfl⟩
  | @next offset header _ read inductionHypothesis =>
      obtain ⟨front, back, split, atOffset⟩ := inductionHypothesis
      cases back with
      | nil =>
          -- Nothing is left to read.
          rw [List.append_nil] at split
          obtain ⟨box, inside, _⟩ := exists_of_parseBoxHeader read
          have least := box.eight_le_raw_size
          rw [tiles, split] at inside
          omega
      | cons box back =>
          refine ⟨front ++ [box], back, ?_, ?_⟩
          · rw [split, List.append_assoc]
            rfl
          · have fits := TiledBefore.fits (split ▸ tiled)
            have isBox :=
              @parseBoxHeader_ok container_bytes (bytesOfBoxes front)
                (bytesOfBoxes back) box
                (by
                  rw [tiles, split, bytesOfBoxes_append, bytesOfBoxes_cons,
                    List.append_assoc])
                fits
            rw [← atOffset, read] at isBox
            cases isBox
            rw [bytesOfBoxes_append, List.length_append, ← atOffset]
            simp [bytesOfBoxes, FileBox.parsed, FileBox.length_bytes]

/-- Nothing is left over behind boxes that tile the input. -/
theorem not_leftOver_of_exactParse
    {parsed : ParsedContainer Data}
    (exact : ExactParse container_bytes parsed) :
    ¬ LeftOver container_bytes := by
  rintro ⟨offset, reached, inside, few⟩
  obtain ⟨boxes, tiles, tiled, _⟩ := exact
  obtain ⟨front, back, split, atOffset⟩ := reached.exists_split tiles tiled
  rw [tiles, split, bytesOfBoxes_append, List.length_append] at inside few
  cases back with
  | nil =>
      simp only [bytesOfBoxes, List.flatMap_nil, List.length_nil] at inside
      rw [atOffset] at inside
      exact absurd inside (Nat.lt_irrefl _)
  | cons box back =>
      have least := box.eight_le_raw_size
      rw [bytesOfBoxes_cons, List.length_append, FileBox.length_bytes] at few
      omega

/-- One more fragment, while the last one has not come. -/
theorem numbered_concat
    (pieces : List (List UInt8))
    (piece : List UInt8)
    (is_last : Bool) :
    numbered is_last (pieces ++ [piece]) =
      numbered false pieces ++ [fragment pieces.length is_last piece] := by
  unfold numbered
  rw [List.mapIdx_append, List.mapIdx_singleton]
  congr 1
  · refine List.mapIdx_eq_mapIdx_iff.2 ?_
    intro index inside
    have earlier : (index + 1 == (pieces ++ [piece]).length) = false := by
      rw [beq_eq_false_iff_ne, List.length_append, List.length_singleton]
      omega
    rw [earlier, Bool.and_false, Bool.false_and]
  · have isLast : (0 + pieces.length + 1 == (pieces ++ [piece]).length) = true := by
      rw [beq_iff_eq, List.length_append, List.length_singleton, Nat.zero_add]
    rw [isLast, Bool.and_true, Nat.zero_add]

/-- What the loop has taken from the boxes before its offset. -/
structure CarriedSoFar
    (boxes : List FileBox)
    (state : ContainerState Data)
    (pieces : List (List UInt8)) :
    Prop where
  whole : payloads .jxlc boxes = state.codestream.toList
  separate : state.codestream ≠ none → pieces = []
  inOrder : payloads .jxlp boxes = numbered state.saw_last_jxlp pieces
  joined : state.fragments = pieces.flatten
  indices : state.next_jxlp_index = pieces.length
  bound : pieces.length ≤ 2 ^ 31
  saw : state.saw_jxlp = true ↔ pieces ≠ []
  sawLast : state.saw_last_jxlp = true → pieces ≠ []

/-- The boxes that the loop has read. -/
structure ReadSoFar
    (container_bytes : List UInt8)
    (boxes : List FileBox)
    (state : ContainerState Data) :
    Prop where
  atOffset : state.offset = (bytesOfBoxes boxes).length
  inside : state.offset ≤ container_bytes.length
  tiles :
    container_bytes =
      bytesOfBoxes boxes ++ container_bytes.drop state.offset
  tiled : TiledBefore (container_bytes.drop state.offset) boxes
  kept : state.owned_boxes.map OwnedBox.view = boxes.map FileBox.view
  carried : ∃ pieces, CarriedSoFar boxes state pieces
  reached : Reaches container_bytes state.offset

/-- A payload that starts with an index is a fragment. -/
theorem fragment_of_readInt
    {payload : List UInt8}
    {index : Nat}
    (read : readInt payload 0 4 = .ok index) :
    payload =
      fragment (index &&& 0x7FFFFFFF) (decide (index &&& 0x80000000 ≠ 0))
        (payload.drop 4) ∧ index &&& 0x7FFFFFFF < 2 ^ 31 := by
  obtain ⟨spelled, index_lt⟩ := @readInt_eq_ok payload 0 4 index read
  have low : index &&& 0x7FFFFFFF = index % 2 ^ 31 :=
    Nat.and_two_pow_sub_one_eq_mod index 31
  have high :
      (decide (index &&& 0x80000000 ≠ 0)) = decide (2 ^ 31 ≤ index) := by
    have bit : index &&& 0x80000000 = (index.testBit 31).toNat * 2 ^ 31 :=
      Nat.and_two_pow index 31
    rw [bit, Nat.testBit_eq_decide_div_mod_eq]
    refine decide_eq_decide.2 ?_
    by_cases top : index / 2 ^ 31 % 2 = 1
    · simp only [top, decide_true, Bool.toNat_true]
      omega
    · simp only [top, decide_false, Bool.toNat_false]
      omega
  refine ⟨?_, by omega⟩
  rw [List.drop_zero, Nat.zero_add] at spelled
  rw [low, high]
  have whole :
      index % 2 ^ 31 + (if decide (2 ^ 31 ≤ index) = true then 2 ^ 31 else 0) =
        index := by
    by_cases top : 2 ^ 31 ≤ index
    · rw [decide_eq_true top, if_pos rfl]
      omega
    · rw [decide_eq_false top, if_neg Bool.false_ne_true]
      omega
  rw [fragment, whole]
  exact spelled

section

variable {decompress : List UInt8 → Checked (List UInt8)}
variable {parse : List UInt8 → Checked Data}
variable {boxes : List FileBox}
variable {state next : ContainerState Data}
variable {pieces : List (List UInt8)}
variable {box : FileBox}
variable {offset : Nat}

/-- What the loop has taken once a box was kept. -/
def TakenWith
    (boxes : List FileBox)
    (box : FileBox)
    (state next : ContainerState Data) :
    Prop :=
  next.owned_boxes.map OwnedBox.view =
      state.owned_boxes.map OwnedBox.view ++ [box.view] ∧
    ∃ pieces, CarriedSoFar (boxes ++ [box]) next pieces

theorem map_view_append
    (state : ContainerState Data)
    (reconstruction : Option Data) :
    (state.append (box.parsed offset) reconstruction).owned_boxes.map
        OwnedBox.view =
      state.owned_boxes.map OwnedBox.view ++ [box.view] := by
  rw [ContainerState.append, List.map_append]
  rfl

theorem taken_of_parseJxlc
    (carried : CarriedSoFar boxes state pieces)
    (isJxlc : box.box_type = .jxlc)
    (taken : state.parseJxlc (box.parsed offset) = .ok next) :
    TakenWith boxes box state next := by
  unfold ContainerState.parseJxlc at taken
  split at taken
  next sawFragment =>
    cases taken
  next noFragment =>
    split at taken
    next second =>
      cases taken
    next first =>
      cases taken
      have isNone : state.codestream = none :=
        Decidable.of_not_not first
      have noPieces : pieces = [] := by
        by_contra nonempty
        exact noFragment (carried.saw.2 nonempty)
      subst noPieces
      refine ⟨map_view_append state _, [], ?_⟩
      exact {
        whole := by
          rw [payloads_concat, carried.whole, isNone, if_pos isJxlc]
          rfl
        separate := fun _ => rfl
        inOrder := by
          rw [payloads_concat, carried.inOrder, isJxlc,
            if_neg (by decide), List.append_nil]
          rfl
        joined := carried.joined
        indices := carried.indices
        bound := carried.bound
        saw := carried.saw
        sawLast := carried.sawLast }

theorem taken_of_parseJxlp
    (carried : CarriedSoFar boxes state pieces)
    (isJxlp : box.box_type = .jxlp)
    (taken : state.parseJxlp (box.parsed offset) = .ok next) :
    TakenWith boxes box state next := by
  unfold ContainerState.parseJxlp at taken
  split at taken
  next hasWhole =>
    cases taken
  next noWhole =>
    split at taken
    next sawLast =>
      cases taken
    next open_ =>
      split at taken
      next short =>
        cases taken
      next enough =>
        obtain ⟨index, isIndex, taken⟩ := bind_eq_ok.1 taken
        dsimp only at taken
        split at taken
        next wrong =>
          cases taken
        next right =>
          obtain ⟨count, isCount, taken⟩ := bind_eq_ok.1 taken
          cases taken
          have isNone : state.codestream = none :=
            Decidable.of_not_not noWhole
          have notLast : state.saw_last_jxlp = false :=
            Bool.eq_false_iff.2 open_
          obtain ⟨isFragment, small⟩ := fragment_of_readInt isIndex
          have same : index &&& 0x7FFFFFFF = pieces.length :=
            (Decidable.of_not_not right).trans carried.indices
          rw [same] at isFragment small
          refine ⟨map_view_append state _,
            pieces ++ [box.payload.drop 4], ?_⟩
          have someNow : pieces ++ [box.payload.drop 4] ≠ [] :=
            List.append_ne_nil_of_right_ne_nil _ (List.cons_ne_nil _ _)
          exact {
            whole := by
              rw [payloads_concat, carried.whole, isJxlp,
                if_neg (by decide), List.append_nil]
              rfl
            separate := fun whole => absurd isNone whole
            inOrder := by
              rw [payloads_concat, carried.inOrder, if_pos isJxlp, notLast,
                Bool.false_or, numbered_concat]
              exact congrArg (fun payload => _ ++ [payload]) isFragment
            joined := by
              rw [List.flatten_append, ← carried.joined,
                List.flatten_singleton]
              rfl
            indices := by
              rw [(addU_eq_ok isCount).1, carried.indices,
                List.length_append, List.length_singleton]
            bound := by
              rw [List.length_append, List.length_singleton]
              omega
            saw := ⟨fun _ => someNow, fun _ => rfl⟩
            sawLast := fun _ => someNow }

theorem taken_of_parseOther
    (carried : CarriedSoFar boxes state pieces)
    (notJxlc : box.box_type ≠ .jxlc)
    (notJxlp : box.box_type ≠ .jxlp)
    (taken :
      state.parseOther decompress parse (box.parsed offset) = .ok next) :
    TakenWith boxes box state next := by
  obtain ⟨data, isNext⟩ :
      ∃ data, next = state.append (box.parsed offset) data := by
    unfold ContainerState.parseOther at taken
    split at taken
    next isBrob =>
      obtain ⟨_, _, taken⟩ := bind_eq_ok.1 taken
      cases taken
      exact ⟨none, rfl⟩
    next notBrob =>
      split at taken
      next isJbrd =>
        obtain ⟨data, _, taken⟩ := bind_eq_ok.1 taken
        cases taken
        exact ⟨some data, rfl⟩
      next other =>
        cases taken
        exact ⟨none, rfl⟩
  subst isNext
  refine ⟨map_view_append state data, pieces, ?_⟩
  exact {
    whole := by
      rw [payloads_concat, if_neg notJxlc, List.append_nil]
      exact carried.whole
    separate := carried.separate
    inOrder := by
      rw [payloads_concat, if_neg notJxlp, List.append_nil]
      exact carried.inOrder
    joined := carried.joined
    indices := carried.indices
    bound := carried.bound
    saw := carried.saw
    sawLast := carried.sawLast }

theorem taken_of_parseContents
    (carried : CarriedSoFar boxes state pieces)
    (taken :
      state.parseContents decompress parse (box.parsed offset) = .ok next) :
    TakenWith boxes box state next := by
  unfold ContainerState.parseContents at taken
  split at taken
  next isJxlc =>
    exact taken_of_parseJxlc carried isJxlc taken
  next notJxlc =>
    split at taken
    next isJxlp =>
      exact taken_of_parseJxlp carried isJxlp taken
    next notJxlp =>
      exact taken_of_parseOther carried notJxlc notJxlp taken

/-- One round of the loop reads one more box. -/
theorem ReadSoFar.step
    {header : ParsedBoxHeader}
    (soFar : ReadSoFar container_bytes boxes state)
    (read : parseBoxHeader container_bytes state.offset = .ok header)
    (taken : state.parseBox decompress parse header = .ok next) :
    ∃ box, ReadSoFar container_bytes (boxes ++ [box]) next := by
  obtain ⟨box, inside, split, fits, isHeader⟩ := exists_of_parseBoxHeader read
  subst isHeader
  obtain ⟨_, _, taken⟩ := bind_eq_ok.1 taken
  obtain ⟨after, isAfter, taken⟩ := bind_eq_ok.1 taken
  cases taken
  obtain ⟨pieces, carried⟩ := soFar.carried
  obtain ⟨kept, pieces, carried⟩ := taken_of_parseContents carried isAfter
  have bytes : bytesOfBoxes (boxes ++ [box]) = bytesOfBoxes boxes ++ box.bytes := by
    rw [bytesOfBoxes_append]
    exact congrArg (_ ++ ·) (List.append_nil _)
  refine ⟨box, ?_⟩
  exact {
    atOffset := by
      rw [bytes, List.length_append, FileBox.length_bytes, ← soFar.atOffset]
      rfl
    inside := inside
    tiles := by
      rw [bytes, List.append_assoc]
      exact soFar.tiles.trans (congrArg (_ ++ ·) split)
    tiled := (split ▸ soFar.tiled).concat fits
    kept := by
      rw [List.map_append, ← soFar.kept]
      exact kept
    carried := by
      refine ⟨pieces, ?_⟩
      exact {
        whole := carried.whole
        separate := carried.separate
        inOrder := carried.inOrder
        joined := carried.joined
        indices := carried.indices
        bound := carried.bound
        saw := carried.saw
        sawLast := carried.sawLast }
    reached := soFar.reached.next read }

/-- The loop reads boxes until fewer than eight bytes are left. -/
theorem ReadSoFar.run
    {fuel : Nat}
    {final : ContainerState Data}
    (soFar : ReadSoFar container_bytes boxes state)
    (ran :
      parseBoxes decompress parse container_bytes fuel state = .ok final) :
    (∃ all, ReadSoFar container_bytes all final) ∧
      container_bytes.length < final.offset + 8 := by
  induction fuel generalizing boxes state with
  | zero =>
      unfold parseBoxes at ran
      split at ran
      next more =>
        cases ran
      next done =>
        cases ran
        exact ⟨⟨boxes, soFar⟩, Nat.not_le.1 done⟩
  | succ fuel inductionHypothesis =>
      unfold parseBoxes at ran
      split at ran
      next more =>
        obtain ⟨header, read, ran⟩ := bind_eq_ok.1 ran
        obtain ⟨next, taken, ran⟩ := bind_eq_ok.1 ran
        obtain ⟨box, soFar⟩ := soFar.step read taken
        exact inductionHypothesis soFar ran
      next done =>
        cases ran
        exact ⟨⟨boxes, soFar⟩, Nat.not_le.1 done⟩

/-- The signature is a box as well. -/
def signatureBox : FileBox :=
  { form := .short
    box_type := .JXL
    payload := [0x0D, 0x0A, 0x87, 0x0A] }

theorem bytes_signatureBox :
    signatureBox.bytes = signature_box := by
  decide

theorem readSoFar_start
    (signed :
      container_bytes.take signature_box.length = signature_box) :
    ReadSoFar container_bytes [signatureBox]
      (ContainerState.start : ContainerState Data) := by
  have split :
      container_bytes =
        signature_box ++ container_bytes.drop signature_box.length := by
    have parts :=
      (List.take_append_drop signature_box.length container_bytes).symm
    rwa [signed] at parts
  have only : bytesOfBoxes [signatureBox] = signature_box := by
    decide
  have small : signatureBox.Fits (container_bytes.drop signature_box.length) := by
    show (12 : Nat) < 2 ^ 32
    decide
  have first :
      parseBoxHeader container_bytes 0 = .ok (signatureBox.parsed 0) := by
    refine @parseBoxHeader_ok container_bytes []
      (container_bytes.drop signature_box.length) signatureBox ?_ small
    rw [bytes_signatureBox]
    exact split
  exact {
    atOffset := by
      rw [only]
      rfl
    inside := by
      have lengths := congrArg List.length split
      rw [List.length_append] at lengths
      show signature_box.length ≤ _
      omega
    tiles := by
      rw [only]
      exact split
    tiled := ⟨small, trivial⟩
    kept := rfl
    carried := by
      refine ⟨[], ?_⟩
      exact {
        whole := rfl
        separate := fun _ => rfl
        inOrder := rfl
        joined := rfl
        indices := rfl
        bound := Nat.zero_le _
        saw := ⟨fun saw => Bool.noConfusion saw, fun some => absurd rfl some⟩
        sawLast := fun saw => Bool.noConfusion saw }
    reached := Reaches.start.next first }

/-- The boxes of a finished file carry its codestream. -/
theorem carries_of_finish
    {parsed : ParsedContainer Data}
    (carried : CarriedSoFar boxes state pieces)
    (finished : state.finish = .ok parsed) :
    parsed.boxes = state.owned_boxes ∧ Carries boxes parsed.codestream := by
  have whole := carried.whole
  unfold ContainerState.finish at finished
  split at finished
  next codestream isWhole =>
    cases finished
    rw [isWhole] at whole
    have noPieces := carried.separate (by rw [isWhole]; exact Option.some_ne_none _)
    have inOrder := carried.inOrder
    rw [noPieces] at inOrder
    exact ⟨rfl, .whole codestream whole inOrder⟩
  next noWhole =>
    rw [noWhole] at whole
    split at finished
    next complete =>
      cases finished
      rw [Bool.and_eq_true] at complete
      refine ⟨rfl, ?_⟩
      have inOrder := carried.inOrder
      rw [complete.2] at inOrder
      rw [carried.joined]
      exact .fragments pieces whole (carried.saw.1 complete.1) carried.bound inOrder
    next incomplete =>
      cases finished

/--
An accepted input is boxes and nothing else, exactly when the walk over its
headers leaves no bytes over.
-/
theorem exactParse_iff
    {parsed : ParsedContainer Data}
    (accepted :
      parseContainer decompress parse container_bytes = .ok parsed) :
    ExactParse container_bytes parsed ↔ ¬ LeftOver container_bytes := by
  refine ⟨not_leftOver_of_exactParse, ?_⟩
  intro nothingLeft
  unfold parseContainer at accepted
  split at accepted
  next short =>
    cases accepted
  next enough =>
    split at accepted
    next unsigned =>
      cases accepted
    next signed =>
      obtain ⟨final, ran, finished⟩ := bind_eq_ok.1 accepted
      obtain ⟨⟨boxes, soFar⟩, few⟩ :=
        (readSoFar_start (Decidable.of_not_not signed)).run ran
      obtain ⟨pieces, carried⟩ := soFar.carried
      obtain ⟨sameBoxes, carries⟩ := carries_of_finish carried finished
      have noBytes : container_bytes.drop final.offset = [] := by
        refine List.drop_eq_nil_of_le (Nat.not_lt.1 ?_)
        intro some
        exact nothingLeft ⟨final.offset, soFar.reached, some, few⟩
      refine ⟨boxes, ?_, noBytes ▸ soFar.tiled, ?_, carries⟩
      · have tiles := soFar.tiles
        rwa [noBytes, List.append_nil] at tiles
      · rw [sameBoxes]
        exact soFar.kept

end

end Jxlz.Container
