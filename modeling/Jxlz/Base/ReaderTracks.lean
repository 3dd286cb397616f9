import Jxlz.Base.ReaderCalls

namespace Jxlz

open BitString

/-!
# Every call tracks the cursor

`Moved` is what a call does to the reader's own count of the consumed bits,
skips past the end included.  From it follow the relation to the cursor, call
by call and then over any run, and what the two overread checks report.
-/

namespace BitReader

/--
`after` lies `amount` bits behind `before`, or both that place and `after` lie
past the end, a whole number of bytes apart.
-/
structure Moved
    (before after : BitReader)
    (amount : Nat) :
    Prop where
  sameData :
    after.data = before.data
  sameClose :
    after.closeCalled = before.closeCalled
  sameChecked :
    after.checkedOutOfBoundsBits = before.checkedOutOfBoundsBits
  position :
    after.totalBitsConsumed = before.totalBitsConsumed + amount ∨
      0 < amount ∧
        before.totalBitsConsumed < after.totalBitsConsumed ∧
        8 * before.data.length < after.totalBitsConsumed ∧
        8 * before.data.length < before.totalBitsConsumed + amount ∧
        after.totalBitsConsumed % 8 =
          (before.totalBitsConsumed + amount) % 8

/-- Bits that are consumed one after the other are counted exactly. -/
theorem Advanced.moved
    {before after : BitReader}
    {amount : Nat}
    (advanced : Advanced before after amount)
    (sameChecked :
      after.checkedOutOfBoundsBits = before.checkedOutOfBoundsBits) :
    Moved before after amount where
  sameData := advanced.sameData
  sameClose := advanced.sameClose
  sameChecked := sameChecked
  position := Or.inl advanced.consumedBits

/-- Loading bytes leaves the checkpoint alone. -/
theorem loadBytes_checked
    (self : BitReader) :
    self.loadBytes.checkedOutOfBoundsBits = self.checkedOutOfBoundsBits := by
  fun_induction loadBytes self with
  | case1 self room inside inductionHypothesis =>
      exact inductionHypothesis
  | case2 self room outside =>
      rfl
  | case3 self full =>
      rfl

@[simp]
theorem refill_checked
    (self : BitReader) :
    self.refill.checkedOutOfBoundsBits = self.checkedOutOfBoundsBits := by
  unfold refill
  split
  next inside =>
    rfl
  next outside =>
    exact self.loadBytes_checked

theorem consume_checked
    {self after : BitReader}
    {numBits : Nat}
    (consumed : self.consume numBits = .ok after) :
    after.checkedOutOfBoundsBits = self.checkedOutOfBoundsBits := by
  obtain ⟨_, _, consumed⟩ := bind_eq_ok.1 consumed
  split at consumed
  next available =>
    cases consumed
    rfl
  next missing =>
    cases consumed

theorem readBits_checked
    {self after : BitReader}
    {nbits value : Nat}
    (read : self.readBits nbits = .ok (value, after)) :
    after.checkedOutOfBoundsBits = self.checkedOutOfBoundsBits := by
  obtain ⟨_, _, read⟩ := bind_eq_ok.1 read
  obtain ⟨_, _, read⟩ := bind_eq_ok.1 read
  obtain ⟨consumed, isConsumed, read⟩ := bind_eq_ok.1 read
  cases read
  rw [consume_checked isConsumed, refill_checked]

/-- A refill moves nothing. -/
theorem refill_moved
    (self : BitReader) :
    Moved self self.refill 0 :=
  self.refill_advanced.moved self.refill_checked

variable {self : BitReader}

/-- Consuming buffered bits moves over them. -/
theorem consume_moved
    {numBits : Nat}
    (isOpen : self.closeCalled = false)
    (available : numBits ≤ self.bitsInBuf) :
    ∃ after, self.consume numBits = .ok after ∧ Moved self after numBits := by
  obtain ⟨after, consumed, advanced, _⟩ := consume_ok isOpen available
  exact ⟨after, consumed, advanced.moved (consume_checked consumed)⟩

/-- A peek at no more than 56 bits returns a number. -/
theorem peekBits_returns
    {nbits : Nat}
    (isOpen : self.closeCalled = false)
    (short : nbits ≤ kMaxBitsPerCall) :
    ∃ bits, self.peekBits nbits = .ok bits := by
  unfold peekBits
  rw [require_ok short, ok_bind, require_ok isOpen, ok_bind]
  split
  next empty =>
    exact ⟨0, rfl⟩
  next some =>
    exact ⟨_, rfl⟩

/-- Reading bits moves over them. -/
theorem readBits_moved
    {nbits : Nat}
    (isOpen : self.closeCalled = false)
    (short : nbits ≤ kMaxBitsPerCall) :
    ∃ after,
      self.readBits nbits = .ok (valueAt self.source nbits, after) ∧
        Moved self after nbits := by
  obtain ⟨after, read, advanced⟩ := readBits_ok isOpen short
  exact ⟨after, read, advanced.moved (readBits_checked read)⟩

/-- A few bits that are consumed behind a refill of the emptied buffer. -/
theorem discard_moved
    {wholeBytes rest : Nat}
    (inside : wholeBytes ≤ self.data.length - self.pos)
    (isOpen : self.closeCalled = false)
    (short : rest ≤ kMaxBitsPerCall) :
    ∃ after,
      (self.discard wholeBytes inside).refill.consume rest = .ok after ∧
        after.data = self.data ∧
        after.closeCalled = self.closeCalled ∧
        after.checkedOutOfBoundsBits = self.checkedOutOfBoundsBits ∧
        after.totalBitsConsumed =
          (self.pos + wholeBytes + self.overreadBytes) * 8 + rest := by
  have refilled := (self.discard wholeBytes inside).refill_moved
  obtain ⟨after, consumed, advanced, _⟩ :=
    consume_ok (refilled.sameClose.trans isOpen)
      (Nat.le_trans short (self.discard wholeBytes inside).refill_full)
  refine ⟨after, consumed, advanced.sameData.trans refilled.sameData,
    advanced.sameClose.trans refilled.sameClose,
    (consume_checked consumed).trans refilled.sameChecked, ?_⟩
  have refilledTotal :=
    (self.discard wholeBytes inside).refill_advanced.consumedBits
  rw [advanced.consumedBits, refilledTotal]
  rfl

/-- Skipping moves over the bits, or past the end. -/
theorem skipBits_moved
    (isOpen : self.closeCalled = false)
    (skip : Nat) :
    ∃ after, self.skipBits skip = .ok after ∧ Moved self after skip := by
  have inRange := self.coherent.posInRange
  have loaded := self.coherent.loaded
  have atEnd := self.coherent.overreadAtEnd
  unfold skipBits
  rw [require_ok isOpen, ok_bind]
  by_cases buffered : skip ≤ self.bitsInBuf
  · rw [if_pos buffered]
    exact consume_moved isOpen buffered
  rw [if_neg buffered]
  dsimp only
  by_cases inside :
      (skip - self.bitsInBuf) / 8 ≤ self.data.length - self.pos
  · obtain ⟨after, skipped, sameData, sameClose, sameChecked, total⟩ :=
      @discard_moved self _ ((skip - self.bitsInBuf) % 8) inside isOpen
        (by
          unfold kMaxBitsPerCall
          omega)
    rw [dif_pos inside]
    refine ⟨after, skipped, sameData, sameClose, sameChecked, Or.inl ?_⟩
    rw [total, totalBitsConsumed]
    omega
  · obtain ⟨after, skipped, sameData, sameClose, sameChecked, total⟩ :=
      @discard_moved self _ ((skip - self.bitsInBuf) % 8 + 8)
        (Nat.le_refl (self.data.length - self.pos)) isOpen
        (by
          unfold kMaxBitsPerCall
          omega)
    rw [dif_neg inside]
    refine ⟨after, skipped, sameData, sameClose, sameChecked, Or.inr ?_⟩
    rw [total, totalBitsConsumed]
    omega

/-- The padding that the reader finds in front of it. -/
theorem readPadding_moved
    (isOpen : self.closeCalled = false) :
    ∃ after,
      self.readPadding =
          .ok
            (valueAt self.source ((8 - self.totalBitsConsumed % 8) % 8),
              after) ∧
        Moved self after ((8 - self.totalBitsConsumed % 8) % 8) := by
  unfold readPadding
  by_cases aligned : self.totalBitsConsumed % 8 = 0
  · refine ⟨self, ?_, rfl, rfl, rfl, Or.inl ?_⟩
    · have empty : valueAt self.source 0 = 0 :=
        Nat.lt_one_iff.1 (valueAt_lt self.source 0)
      simp [aligned, empty]
    · simp [aligned]
  · have padding :
        (8 - self.totalBitsConsumed % 8) % 8 =
          8 - self.totalBitsConsumed % 8 := by
      omega
    dsimp only
    rw [if_neg aligned, padding]
    refine readBits_moved isOpen ?_
    unfold kMaxBitsPerCall
    omega

end BitReader

open BitReader

/-- The reader stands where the cursor does, or both stand behind the data. -/
structure Tracks
    (data : List UInt8)
    (reader : BitReader)
    (cursor : Cursor) :
    Prop where
  sameData :
    reader.data = data
  isOpen :
    reader.closeCalled = false
  position :
    reader.totalBitsConsumed = cursor.consumed ∨
      8 * data.length < reader.totalBitsConsumed ∧
        8 * data.length < cursor.consumed ∧
        reader.totalBitsConsumed % 8 = cursor.consumed % 8
  checkedBefore :
    reader.checkedOutOfBoundsBits ≤ reader.totalBitsConsumed
  recordedBefore :
    cursor.recorded ≤ cursor.consumed
  sameChecked :
    reader.checkedOutOfBoundsBits = reader.totalBitsConsumed ↔
      cursor.recorded = cursor.consumed

namespace Tracks

variable {data : List UInt8}
variable {reader : BitReader}
variable {cursor : Cursor}

/-- A fresh reader tracks a fresh cursor. -/
theorem start
    (data : List UInt8) :
    Tracks data (BitReader.init data) {} := by
  let fresh : BitReader := { data, coherent := Coherent.start data }
  have refilled := fresh.refill_moved
  have consumed : (BitReader.init data).totalBitsConsumed = 0 :=
    fresh.refill_advanced.consumedBits
  have checked : (BitReader.init data).checkedOutOfBoundsBits = 0 :=
    fresh.refill_checked
  refine ⟨refilled.sameData, refilled.sameClose, Or.inl consumed, ?_,
    Nat.le_refl 0, ?_⟩
  · rw [checked]
    exact Nat.zero_le _
  · simp [checked, consumed]

/-- Both are past the end, or neither is. -/
theorem past_iff
    (tracks : Tracks data reader cursor) :
    8 * data.length < reader.totalBitsConsumed ↔
      8 * data.length < cursor.consumed := by
  have position := tracks.position
  omega

/-- Both stand at the same place in a byte. -/
theorem padding_eq
    (tracks : Tracks data reader cursor) :
    (8 - reader.totalBitsConsumed % 8) % 8 = cursor.padding := by
  have position := tracks.position
  unfold Cursor.padding
  omega

/-- The next bits of the reader are those of the cursor. -/
theorem valueAt_eq
    (tracks : Tracks data reader cursor)
    (nbits : Nat) :
    valueAt reader.source nbits = cursor.next data nbits := by
  have position := tracks.position
  unfold Cursor.next
  rcases position with same | ⟨readerPast, cursorPast, _⟩
  · rw [source, tracks.sameData, same]
  · -- Behind the data both sources are all zeros.
    congr 1
    funext index
    rw [source, advance, advance, tracks.sameData,
      bitAt_of_length_le (by omega), bitAt_of_length_le (by omega)]

/-- What moves the reader keeps it with the cursor moved as far. -/
theorem forward
    (tracks : Tracks data reader cursor)
    {after : BitReader}
    {amount : Nat}
    (moved : Moved reader after amount) :
    Tracks data after (cursor.forward amount) := by
  have sameData := tracks.sameData
  have position := tracks.position
  have checkedBefore := tracks.checkedBefore
  have recordedBefore := tracks.recordedBefore
  have sameChecked := tracks.sameChecked
  have movedPosition := moved.position
  have keptChecked := moved.sameChecked
  have dataLength : reader.data.length = data.length := by
    rw [sameData]
  refine ⟨moved.sameData.trans sameData, moved.sameClose.trans tracks.isOpen,
    ?_, by omega, ?_, ?_⟩
  · simp only [Cursor.forward]
    omega
  · simp only [Cursor.forward]
    omega
  · simp only [Cursor.forward]
    omega

/-- A bounds check records both positions, and answers for both alike. -/
theorem check
    (tracks : Tracks data reader cursor) :
    reader.allReadsWithinBounds.1 =
        decide (cursor.consumed ≤ 8 * data.length) ∧
      Tracks data reader.allReadsWithinBounds.2
        { cursor with recorded := cursor.consumed } := by
  have past := tracks.past_iff
  have sameData := tracks.sameData
  refine ⟨?_, sameData, tracks.isOpen, tracks.position, Nat.le_refl _,
    Nat.le_refl _, ?_⟩
  · simp only [allReadsWithinBounds, totalBytes, decide_eq_decide, sameData]
    omega
  · exact iff_of_true rfl rfl

/-- Inside the data the reader counts its bits exactly. -/
theorem total_eq
    (tracks : Tracks data reader cursor)
    (inside : cursor.consumed ≤ 8 * data.length) :
    reader.totalBitsConsumed = cursor.consumed := by
  have position := tracks.position
  omega

/-- A call inside the asserted limits moves the reader and the cursor alike. -/
theorem call
    (tracks : Tracks data reader cursor)
    (request : Call)
    (asserted : reader.Asserts request) :
    ∃ answer after expected cursorAfter,
      reader.call request = .ok (answer, after) ∧
        cursor.call data request = .ok (expected, cursorAfter) ∧
        (reader.Buffers request → answer = expected) ∧
        Tracks data after cursorAfter := by
  have isOpen := tracks.isOpen
  cases request with
  | refill =>
      exact ⟨_, _, _, _, rfl, rfl, fun _ => rfl,
        tracks.forward reader.refill_moved⟩
  | peekBits nbits =>
      obtain ⟨bits, peeked⟩ := peekBits_returns isOpen asserted
      refine ⟨.bits bits, reader, _, cursor, ?_, rfl, ?_, tracks⟩
      · simp only [BitReader.call, peeked, ok_bind, pure_eq_ok]
      · rintro ⟨_, buffered⟩
        have correct := peekBits_ok isOpen asserted (buffered nbits rfl)
        rw [tracks.valueAt_eq, peeked] at correct
        cases correct
        rfl
  | consume numBits =>
      obtain ⟨after, consumed, moved⟩ := consume_moved isOpen asserted
      refine ⟨_, after, _, _, ?_, rfl, fun _ => rfl, tracks.forward moved⟩
      simp only [BitReader.call, consumed, ok_bind, pure_eq_ok]
  | readBits nbits =>
      obtain ⟨after, read, moved⟩ := readBits_moved isOpen asserted
      rw [tracks.valueAt_eq] at read
      refine ⟨_, after, _, _, ?_, rfl, fun _ => rfl, tracks.forward moved⟩
      simp only [BitReader.call, read, ok_bind, pure_eq_ok]
  | skipBits skip =>
      obtain ⟨after, skipped, moved⟩ := skipBits_moved isOpen skip
      refine ⟨_, after, _, _, ?_, rfl, fun _ => rfl, tracks.forward moved⟩
      simp only [BitReader.call, skipped, ok_bind, pure_eq_ok]
  | jumpToByteBoundary =>
      obtain ⟨after, read, moved⟩ := readPadding_moved isOpen
      rw [tracks.padding_eq] at read moved
      rw [tracks.valueAt_eq] at read
      refine ⟨_, after, _, _, ?_, rfl, fun _ => rfl, tracks.forward moved⟩
      simp only [BitReader.call, read, ok_bind, pure_eq_ok]
  | allReadsWithinBounds =>
      obtain ⟨answered, checked⟩ := tracks.check
      refine ⟨_, _, _, _, rfl, rfl, fun _ => ?_, checked⟩
      rw [answered]

/-- What closing reports, but for the reader of an empty input. -/
theorem close_iff
    (tracks : Tracks data reader cursor) :
    reader.close = .error (.error .NotEnoughBytes) ↔
      data ≠ [] ∧
        8 * data.length < cursor.consumed ∧ cursor.recorded < cursor.consumed := by
  have past := tracks.past_iff
  have checkedBefore := tracks.checkedBefore
  have recordedBefore := tracks.recordedBefore
  have sameChecked := tracks.sameChecked
  have inRange := reader.coherent.posInRange
  have sameLength : reader.data.length = data.length := by
    rw [tracks.sameData]
  unfold BitReader.close
  rw [require_ok tracks.isOpen, ok_bind]
  dsimp only
  have sameBytes : reader.totalBytes = data.length :=
    sameLength
  by_cases empty : data = []
  · have noBytes : reader.data.length = 0 ∧ reader.pos = 0 := by
      rw [empty, List.length_nil] at sameLength
      omega
    rw [if_pos noBytes]
    simp [empty]
  · have someBytes : ¬ (reader.data.length = 0 ∧ reader.pos = 0) := by
      rw [sameLength, List.length_eq_zero_iff]
      exact fun noBytes => empty noBytes.1
    rw [if_neg someBytes]
    split
    next overread =>
      exact iff_of_true rfl ⟨empty, by omega, by omega⟩
    next reported =>
      exact iff_of_false (by simp) (by omega)

end Tracks

namespace BitReader

/--
On every run of calls that peek at buffered bits only the reader answers with
the bits of the data, zeros behind it, and counts them while it is inside.
-/
theorem answers_eq_cursor
    (data : List UInt8)
    (calls : List Call)
    (permitted : Except.Permitted call Buffers (init data) calls) :
    ∃ given reader last,
      Except.answers call (init data) calls = .ok (given, reader) ∧
        Except.answers (Cursor.call data) {} calls = .ok (given, last) ∧
        (last.consumed ≤ 8 * data.length →
          reader.totalBitsConsumed = last.consumed) := by
  obtain ⟨given, reader, expected, last, ran, followed, agree, tracks⟩ :=
    Except.answers_lockstep
      (fun _ _ request related allowed => by
        obtain ⟨answer, after, expected, cursorAfter, answered, followed, agree,
          tracks⟩ :=
          related.call request allowed.1
        exact ⟨answer, after, expected, cursorAfter, answered, followed,
          agree allowed, tracks⟩)
      (Tracks.start data) permitted
  rw [List.forall₂_eq_eq_eq] at agree
  subst agree
  exact ⟨given, reader, last, ran, followed, tracks.total_eq⟩

/-- Reading, skipping and jumping over three bytes. -/
theorem answers_eq_cursor_three :
    ∃ given reader last,
      Except.answers call (init [5, 0, 7])
          [.readBits 3, .jumpToByteBoundary, .skipBits 9, .readBits 7] =
          .ok (given, reader) ∧
        Except.answers (Cursor.call [5, 0, 7]) {}
            [.readBits 3, .jumpToByteBoundary, .skipBits 9, .readBits 7] =
            .ok (given, last) ∧
        (last.consumed ≤ 8 * [(5 : UInt8), 0, 7].length →
          reader.totalBitsConsumed = last.consumed) :=
  answers_eq_cursor [5, 0, 7] _
    (Except.permitted_of_forall
      (by
        intro request isRequest reader
        simp only [List.mem_cons, List.not_mem_nil, or_false] at isRequest
        rcases isRequest with rfl | rfl | rfl | rfl
        · exact ⟨show 3 ≤ kMaxBitsPerCall by decide, by simp⟩
        · exact ⟨trivial, by simp⟩
        · exact ⟨trivial, by simp⟩
        · exact ⟨show 7 ≤ kMaxBitsPerCall by decide, by simp⟩)
      (init [5, 0, 7]))

/-- A peek past the buffered bits misses bits of the data. -/
theorem peekBits_misses :
    ¬ ∀ (data : List UInt8) (calls : List Call),
        Except.Permitted call Asserts (init data) calls →
        ∃ given reader last,
          Except.answers call (init data) calls = .ok (given, reader) ∧
            Except.answers (Cursor.call data) {} calls = .ok (given, last) ∧
            (last.consumed ≤ 8 * data.length →
              reader.totalBitsConsumed = last.consumed) := by
  intro always
  obtain ⟨given, reader, last, ran, followed, _⟩ :=
    always (List.replicate 16 255) [.consume 56, .peekBits 16]
      ⟨show 56 ≤ (init (List.replicate 16 255)).bitsInBuf by decide +kernel,
        fun _ _ _ =>
          ⟨show 16 ≤ kMaxBitsPerCall by decide, fun _ _ _ => trivial⟩⟩
  have peeked :
      (Except.answers call (init (List.replicate 16 255))
          [.consume 56, .peekBits 16]).toOption.map (·.1) =
        some [.done, .bits 255] := by
    decide +kernel
  have expected :
      (Except.answers (Cursor.call (List.replicate 16 255)) {}
          [.consume 56, .peekBits 16]).toOption.map (·.1) =
        some [.done, .bits 65535] := by
    decide +kernel
  rw [ran] at peeked
  rw [followed] at expected
  simp only [Except.toOption, Option.map_some] at peeked expected
  rw [peeked] at expected
  simp at expected

/--
Behind every run inside the asserted limits the two overread checks report what
was consumed or skipped past the end and, on closing, was not checked before:
unless the input is empty, whose reader closes without a check.
-/
theorem overreads_reported_iff
    (data : List UInt8)
    (calls : List Call)
    (permitted : Except.Permitted call Asserts (init data) calls) :
    ∃ given reader expected last,
      Except.answers call (init data) calls = .ok (given, reader) ∧
        Except.answers (Cursor.call data) {} calls = .ok (expected, last) ∧
        (((reader.allReadsWithinBounds.1 = false ↔
              8 * data.length < last.consumed) ∧
            (reader.close = .error (.error .NotEnoughBytes) ↔
              8 * data.length < last.consumed ∧
                last.recorded < last.consumed)) ↔
          (data = [] → last.consumed = last.recorded)) := by
  obtain ⟨given, reader, expected, last, ran, followed, _, tracks⟩ :=
    @Except.answers_lockstep _ _ _ _ _ _ call (Cursor.call data) Asserts
      (Tracks data) (fun _ _ => True)
      (fun _ _ request related allowed => by
        obtain ⟨answer, after, expected, cursorAfter, answered, followed, _,
          tracks⟩ :=
          related.call request allowed
        exact ⟨answer, after, expected, cursorAfter, answered, followed,
          trivial, tracks⟩)
      _ _ _ (Tracks.start data) permitted
  refine ⟨given, reader, expected, last, ran, followed, ?_⟩
  have within :
      reader.allReadsWithinBounds.1 = false ↔
        8 * data.length < last.consumed := by
    rw [tracks.check.1]
    simp
  have recordedBefore := tracks.recordedBefore
  rw [tracks.close_iff]
  by_cases empty : data = []
  · subst empty
    simp only [within, List.length_nil, ne_eq, not_true_eq_false, false_and,
      false_iff, true_and, true_implies]
    omega
  · simp [within, empty]

/-- Reading four bytes of a two-byte input and closing without a check. -/
theorem overreads_reported_iff_short :
    ∃ given reader expected last,
      Except.answers call (init [1, 2]) [.readBits 32] = .ok (given, reader) ∧
        Except.answers (Cursor.call [1, 2]) {} [.readBits 32] =
            .ok (expected, last) ∧
        (((reader.allReadsWithinBounds.1 = false ↔
              8 * [(1 : UInt8), 2].length < last.consumed) ∧
            (reader.close = .error (.error .NotEnoughBytes) ↔
              8 * [(1 : UInt8), 2].length < last.consumed ∧
                last.recorded < last.consumed)) ↔
          ([(1 : UInt8), 2] = [] → last.consumed = last.recorded)) :=
  overreads_reported_iff [1, 2] [.readBits 32]
    ⟨show 32 ≤ kMaxBitsPerCall by decide, fun _ _ _ => trivial⟩

/-- The reader of an empty input closes without an error behind an overread. -/
theorem close_empty_overread :
    ¬ ∀ (data : List UInt8) (calls : List Call),
        Except.Permitted call Asserts (init data) calls →
        ∃ given reader expected last,
          Except.answers call (init data) calls = .ok (given, reader) ∧
            Except.answers (Cursor.call data) {} calls =
                .ok (expected, last) ∧
            (reader.allReadsWithinBounds.1 = false ↔
                8 * data.length < last.consumed) ∧
            (reader.close = .error (.error .NotEnoughBytes) ↔
              8 * data.length < last.consumed ∧
                last.recorded < last.consumed) := by
  intro always
  obtain ⟨given, reader, expected, last, ran, followed, _, closed⟩ :=
    always [] [.readBits 1]
      ⟨show 1 ≤ kMaxBitsPerCall by decide, fun _ _ _ => trivial⟩
  obtain ⟨answer, after, reply, cursorAfter, answered, moved, _, tracks⟩ :=
    (Tracks.start []).call (.readBits 1) (show 1 ≤ kMaxBitsPerCall by decide)
  have ranAlone :
      Except.answers call (init []) [.readBits 1] = .ok ([answer], after) :=
    Except.answers_cons answered rfl
  rw [ranAlone] at ran
  cases ran
  cases followed
  cases moved
  rw [tracks.close_iff] at closed
  simp [Cursor.forward] at closed

end BitReader

end Jxlz
