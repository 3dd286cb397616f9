import Jxlz.Capi.BoxOutput

namespace Jxlz.Capi

open Container Delivery

/-!
# Intact box contents

What the client has of the boxes, and that setting and releasing buffers and preparing
a box change nothing of it.
-/

namespace BoxOutput

/-- The contents of a box, decompressed where that is asked for. -/
def boxContents
    (decompress : List UInt8 → Except JxlError (List UInt8))
    (decompress_boxes : Bool)
    (box : Box) :
    Except JxlError (List UInt8) :=
  if decompress_boxes ∧ box.box_type = .brob then
    if box.contents.length < 4 then
      .error .GenericError
    else
      decompress (box.contents.drop 4)
  else
    return box.contents

/-- What the client reads of the buffers for a box that are set no more. -/
def receivedFor
    (impl : BoxOutput)
    (i : Nat) :
    List UInt8 :=
  (impl.received.filter (·.1 = i)).flatMap Prod.snd

/--
The bytes that are delivered for a box: of each buffer, its size minus what
`JxlDecoderReleaseBoxBuffer` returns for it.
-/
def delivered
    (impl : BoxOutput)
    (i : Nat) :
    List UInt8 :=
  impl.receivedFor i ++
    (if i = impl.box_index then
      (impl.box_buffer.getD []).take impl.box_buffer_written
    else
      [])

/-- The contents of every box reach the client intact, as far as they are out. -/
structure Intact
    (decompress : List UInt8 → Except JxlError (List UInt8))
    (boxes : List Box)
    (impl : BoxOutput) :
    Prop where
  passed :
    ∀ i box,
      i < impl.box_index →
      boxes[i]? = some box →
      boxContents decompress impl.decompress_boxes box = .ok (impl.delivered i)
  current :
    ∀ box,
      impl.box_header_emitted = true →
      boxes[impl.box_index]? = some box →
      ∃ contents,
        boxContents decompress impl.decompress_boxes box = .ok contents ∧
          impl.delivered impl.box_index = contents.take impl.box_bytes_emitted
  ahead :
    ∀ i,
      impl.box_index ≤ i →
      (i = impl.box_index → impl.box_header_emitted = false) →
      impl.delivered i = []

/-- A buffer that stays set keeps what was written to it. -/
def Undisturbed
    (impl next : BoxOutput) :
    Prop :=
  ∀ memory after,
    impl.box_buffer = some memory →
    next.box_buffer = some after →
    after.take impl.box_buffer_written = memory.take impl.box_buffer_written

/-- A box of the decoder with the box of the file that it is. -/
structure Prepares
    (decompress : List UInt8 → Except JxlError (List UInt8))
    (box : Box)
    (owned : OwnedBox) :
    Prop where
  box_type : owned.box_type = box.box_type
  contents : owned.contents = box.contents
  decompressed :
    ∀ bytes,
      owned.decompressed_contents = some bytes →
      boxContents decompress true box = .ok bytes

/-- What holds between two calls, whatever was delivered. -/
structure Coherent
    (decompress : List UInt8 → Except JxlError (List UInt8))
    (boxes : List Box)
    (impl : BoxOutput) :
    Prop where
  count : impl.owned_boxes.length = boxes.length
  same :
    ∀ (i : Nat) box owned,
      boxes[i]? = some box →
      impl.owned_boxes[i]? = some owned → Prepares decompress box owned
  prepared :
    impl.box_header_emitted = true →
      ∀ box owned,
        boxes[impl.box_index]? = some box →
        impl.currentBox = some owned →
        boxContents decompress impl.decompress_boxes box =
            .ok (owned.effectiveContents impl.decompress_boxes) ∧
          impl.box_bytes_emitted ≤
              (owned.effectiveContents impl.decompress_boxes).length ∧
          (impl.box_bytes_emitted <
              (owned.effectiveContents impl.decompress_boxes).length →
            impl.box_complete_emitted = false ∧
              (impl.box_buffer_written = 0 ∨
                impl.box_buffer_written = impl.box_buffer_size))
  unopened :
    impl.box_header_emitted = false →
      impl.box_bytes_emitted = 0 ∧
        impl.box_buffer_written = 0 ∧ impl.box_complete_emitted = false
  size : (impl.box_buffer.getD []).length = impl.box_buffer_size
  written : impl.box_buffer_written ≤ impl.box_buffer_size

section

variable {decompress : List UInt8 → Except JxlError (List UInt8)}
variable {boxes : List Box}
variable {impl next : BoxOutput}
variable {box : Box}
variable {owned : OwnedBox}

theorem flatMap_filter_append
    (received : List (Nat × List UInt8))
    (j i : Nat)
    (bytes : List UInt8) :
    ((received ++ [(j, bytes)]).filter (·.1 = i)).flatMap Prod.snd =
      (received.filter (·.1 = i)).flatMap Prod.snd ++ (if i = j then bytes else []) := by
  rw [List.filter_append, List.flatMap_append]
  congr 1
  by_cases here : i = j
  · rw [if_pos here, List.filter_cons_of_pos (by simp [here])]
    simp
  · rw [if_neg here, List.filter_cons_of_neg (by simpa using fun same => here same.symm)]
    rfl

/-- Nothing that was delivered changes with the boxes or the events of the decoder. -/
theorem Intact.congr
    (intact : Intact decompress boxes impl)
    (asked : next.decompress_boxes = impl.decompress_boxes)
    (index : next.box_index = impl.box_index)
    (emitted : next.box_bytes_emitted = impl.box_bytes_emitted)
    (header :
      next.box_header_emitted = impl.box_header_emitted ∨
        (next.box_header_emitted = true ∧
          impl.box_bytes_emitted = 0 ∧
          impl.box_header_emitted = false ∧
          ∀ box,
            boxes[impl.box_index]? = some box →
            ∃ contents,
              boxContents decompress impl.decompress_boxes box = .ok contents))
    (delivered : ∀ i, next.delivered i = impl.delivered i) :
    Intact decompress boxes next := by
  refine ⟨?_, ?_, ?_⟩
  · intro i box before isBox
    rw [asked, delivered]
    exact intact.passed i box (index ▸ before) isBox
  · intro box opened isBox
    rw [index] at isBox
    rw [asked, delivered, index, emitted]
    rcases header with same | ⟨_, start, closed, readable⟩
    · exact intact.current box (same ▸ opened) isBox
    · obtain ⟨contents, isContents⟩ := readable box isBox
      refine ⟨contents, isContents, ?_⟩
      rw [start, List.take_zero]
      exact intact.ahead _ (Nat.le_refl _) fun _ => closed
  · intro i behind closed
    rw [delivered]
    rw [index] at behind closed
    refine intact.ahead i behind fun isIndex => ?_
    rcases header with same | ⟨_, _, wasClosed, _⟩
    · exact same ▸ closed isIndex
    · exact wasClosed

theorem delivered_congr
    (received : next.received = impl.received)
    (index : next.box_index = impl.box_index)
    (buffer : next.box_buffer = impl.box_buffer)
    (written : next.box_buffer_written = impl.box_buffer_written)
    (i : Nat) :
    next.delivered i = impl.delivered i := by
  unfold delivered receivedFor
  rw [received, index, buffer, written]

/-! ## Setting and releasing -/

/-- Setting a buffer changes nothing that was delivered. -/
theorem setBoxBuffer_kept
    (coherent : Coherent decompress boxes impl)
    (intact : Intact decompress boxes impl)
    (buffer : CallerBuffer) :
    Coherent decompress boxes (impl.setBoxBuffer buffer).2 ∧
      Intact decompress boxes (impl.setBoxBuffer buffer).2 ∧
      Undisturbed impl (impl.setBoxBuffer buffer).2 := by
  have same : Undisturbed impl impl := by
    intro memory after isMemory isAfter
    rw [isMemory] at isAfter
    cases isAfter
    rfl
  unfold setBoxBuffer
  split
  next => exact ⟨coherent, intact, same⟩
  next free =>
    have noBuffer : impl.box_buffer = none := not_not.1 free
    split
    next => exact ⟨coherent, intact, same⟩
    next given =>
      refine ⟨⟨coherent.count, coherent.same, ?_, ?_, ?_, Nat.zero_le _⟩, ?_, ?_⟩
      · intro opened box owned isBox isOwned
        obtain ⟨contents, inside, before⟩ := coherent.prepared opened box owned isBox isOwned
        exact ⟨contents, inside, fun left => ⟨(before left).1, .inl rfl⟩⟩
      · intro closed
        obtain ⟨start, _, incomplete⟩ := coherent.unopened closed
        exact ⟨start, rfl, incomplete⟩
      · dsimp only
        cases isData : buffer.data with
        | none =>
            have noSize : buffer.size = 0 := by
              by_contra hasSize
              exact given ⟨hasSize, isData⟩
            exact noSize.symm
        | some memory => exact buffer.sized memory isData
      · refine intact.congr rfl rfl rfl (.inl rfl) fun i => ?_
        unfold delivered receivedFor
        rw [noBuffer]
        simp
      · intro memory after isMemory
        rw [noBuffer] at isMemory
        cases isMemory

/-- A released buffer is read up to the bytes that are left of it. -/
theorem releaseBoxBuffer_kept
    (coherent : Coherent decompress boxes impl)
    (intact : Intact decompress boxes impl) :
    ∃ remaining next,
      impl.releaseBoxBuffer = .ok (remaining, next) ∧
        Coherent decompress boxes next ∧
        Intact decompress boxes next ∧ Undisturbed impl next := by
  unfold releaseBoxBuffer
  cases isBuffer : impl.box_buffer with
  | none =>
      refine ⟨0, impl, rfl, coherent, intact, ?_⟩
      intro memory after isMemory
      rw [isBuffer] at isMemory
      cases isMemory
  | some memory =>
      dsimp only
      rw [subU_ok coherent.written]
      refine ⟨_, _, rfl, ⟨coherent.count, coherent.same, ?_, ?_, rfl, Nat.le_refl _⟩, ?_, ?_⟩
      · intro opened box owned isBox isOwned
        obtain ⟨contents, inside, before⟩ := coherent.prepared opened box owned isBox isOwned
        exact ⟨contents, inside, fun left => ⟨(before left).1, .inl rfl⟩⟩
      · intro closed
        obtain ⟨start, _, incomplete⟩ := coherent.unopened closed
        exact ⟨start, rfl, incomplete⟩
      · refine intact.congr rfl rfl rfl (.inl rfl) fun i => ?_
        have read :
            impl.box_buffer_size - (impl.box_buffer_size - impl.box_buffer_written) =
              impl.box_buffer_written := by
          have written := coherent.written
          omega
        unfold delivered receivedFor
        dsimp only
        rw [flatMap_filter_append, read, isBuffer]
        simp
      · intro before after _ impossible
        cases impossible

/-! ## Preparing the box -/

/-- The decoder with another value for the box that it is at. -/
def withBox
    (impl : BoxOutput)
    (owned : OwnedBox) :
    BoxOutput :=
  { impl with owned_boxes := impl.owned_boxes.set impl.box_index owned }

theorem withBox_currentBox
    (isOwned : impl.currentBox = some owned)
    (other : OwnedBox) :
    (impl.withBox other).currentBox = some other := by
  unfold currentBox at isOwned ⊢
  unfold withBox
  exact List.getElem?_set_self (List.getElem?_eq_some_iff.1 isOwned).1

/-- Either the box cannot be decompressed, or its contents are ready. -/
theorem Coherent.ensurePrepared
    (coherent : Coherent decompress boxes impl)
    (isBox : boxes[impl.box_index]? = some box)
    (isOwned : impl.currentBox = some owned) :
    (∃ code,
      ensureCurrentBoxPrepared decompress impl = .error code ∧
        boxContents decompress impl.decompress_boxes box = .error code) ∨
      ∃ ready,
        ensureCurrentBoxPrepared decompress impl = .ok (impl.withBox ready) ∧
          Prepares decompress box ready ∧
          boxContents decompress impl.decompress_boxes box =
            .ok (ready.effectiveContents impl.decompress_boxes) := by
  have prepares := coherent.same _ _ _ isBox isOwned
  have kept : impl.withBox owned = impl := by
    unfold withBox
    obtain ⟨inside, isHere⟩ := List.getElem?_eq_some_iff.1 isOwned
    rw [← isHere, List.set_getElem_self]
  unfold ensureCurrentBoxPrepared
  by_cases asked : impl.decompress_boxes = true
  · rw [if_neg (not_not.2 asked), isOwned]
    dsimp only
    unfold OwnedBox.ensureDecompressed
    split
    next isPlain =>
      right
      have notBrob : box.box_type ≠ .brob := prepares.box_type ▸ isPlain
      have plain : boxContents decompress true box = .ok box.contents := by
        unfold boxContents
        rw [if_neg fun both => notBrob both.2]
        rfl
      refine ⟨owned, rfl, prepares, ?_⟩
      rw [asked, plain]
      unfold OwnedBox.effectiveContents
      rw [if_pos rfl]
      cases isDone : owned.decompressed_contents with
      | none => rw [Option.getD_none, prepares.contents]
      | some bytes =>
          rw [Option.getD_some]
          exact plain.symm.trans (prepares.decompressed bytes isDone)
    next isBrob =>
      have isBrob : box.box_type = .brob := prepares.box_type ▸ not_not.1 isBrob
      split
      next isDone =>
        right
        obtain ⟨bytes, isBytes⟩ := Option.isSome_iff_exists.1 isDone
        refine ⟨owned, rfl, prepares, ?_⟩
        rw [asked, prepares.decompressed bytes isBytes]
        unfold OwnedBox.effectiveContents
        rw [if_pos rfl, isBytes]
        rfl
      next =>
        have isContents :
            boxContents decompress impl.decompress_boxes box =
              if box.contents.length < 4 then
                .error .GenericError
              else
                decompress (box.contents.drop 4) := by
          unfold boxContents
          rw [if_pos ⟨asked, isBrob⟩]
        rw [isContents, prepares.contents]
        split
        next => exact .inl ⟨_, rfl, rfl⟩
        next enough =>
          rw [if_neg enough] at isContents
          cases made : decompress (box.contents.drop 4) with
          | error code => exact .inl ⟨code, rfl, rfl⟩
          | ok bytes =>
              right
              refine ⟨⟨owned.box_type, box.contents, some bytes⟩, rfl,
                ⟨prepares.box_type, rfl, ?_⟩, ?_⟩
              · intro other isOther
                cases isOther
                rw [← asked, isContents, made]
              · unfold OwnedBox.effectiveContents
                rw [if_pos asked]
                rfl
  · right
    rw [if_pos asked]
    refine ⟨owned, ?_, prepares, ?_⟩
    · rw [kept]
      rfl
    · unfold boxContents OwnedBox.effectiveContents
      rw [if_neg fun both => asked both.1, if_neg asked, prepares.contents]
      rfl

/-- Preparing the box keeps what holds. -/
theorem Coherent.withBox
    (coherent : Coherent decompress boxes impl)
    (isBox : boxes[impl.box_index]? = some box)
    (isOwned : impl.currentBox = some owned)
    (ready : OwnedBox)
    (prepares : Prepares decompress box ready)
    (isContents :
      boxContents decompress impl.decompress_boxes box =
        .ok (ready.effectiveContents impl.decompress_boxes)) :
    Coherent decompress boxes (impl.withBox ready) := by
  refine ⟨?_, ?_, ?_, coherent.unopened, coherent.size, coherent.written⟩
  · unfold BoxOutput.withBox
    rw [List.length_set]
    exact coherent.count
  · intro i other held isOther isHeld
    unfold BoxOutput.withBox at isHeld
    dsimp only at isHeld
    rw [List.getElem?_set] at isHeld
    split at isHeld
    next isIndex =>
      split at isHeld
      next =>
        cases isHeld
        rw [← isIndex, isBox] at isOther
        cases isOther
        exact prepares
      next => cases isHeld
    next => exact coherent.same i other held isOther isHeld
  · intro opened other held isOther isHeld
    rw [withBox_currentBox isOwned] at isHeld
    cases isHeld
    obtain ⟨before, inside, left⟩ := coherent.prepared opened box owned isBox isOwned
    have same :
        owned.effectiveContents impl.decompress_boxes =
          ready.effectiveContents impl.decompress_boxes :=
      Except.ok.inj (before.symm.trans isContents)
    rw [same] at inside left
    cases isBox.symm.trans isOther
    exact ⟨isContents, inside, left⟩

end

end BoxOutput

end Jxlz.Capi
