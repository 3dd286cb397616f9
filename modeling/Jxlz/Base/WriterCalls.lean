import Jxlz.Base.ReadBack

namespace Jxlz

open BitString

/-!
# Runs of the bit writer

A run is any list of calls to a writer.  Each call appends one field, which for
padding depends on where the writer stands and for a reservation is empty; the
bits of the output are the fields one after another, and a reader that asks for
the widths of the fields gets their values back.
-/

namespace BitWriter

/-- Writes zeros up to the next byte boundary. -/
def zeroPadToByte
    (self : BitWriter) :
    Checked BitWriter :=
  let remainder := self.bitsWritten % 8
  if remainder = 0 then
    .ok self
  else
    self.write (8 - remainder) 0

/-- The bytes written; the writer must stand at a byte boundary. -/
def bytes
    (self : BitWriter) :
    Checked (List UInt8) := do
  require (self.bitsWritten % 8 = 0)
  return self.storage.take (self.bitsWritten / 8)

end BitWriter

/-- A call to a writer. -/
inductive WriterCall where
  | write (nBits bits : Nat)
  | ensureUnusedCapacityBits (nBits : Nat)
  | zeroPadToByte
  deriving Repr, DecidableEq

namespace WriterCall

def run
    (writer : BitWriter) :
    WriterCall → Checked BitWriter
  | write nBits bits => writer.write nBits bits
  | ensureUnusedCapacityBits nBits =>
      .ok (writer.ensureUnusedCapacityBits nBits)
  | zeroPadToByte => writer.zeroPadToByte

/-- A field is short enough for one call, and its value fits. -/
def Valid :
    WriterCall → Prop
  | write nBits bits => nBits ≤ BitWriter.kMaxBitsPerCall ∧ bits < 2 ^ nBits
  | _ => True

/-- The width and the value that a call writes after so many bits. -/
def field
    (bitsWritten : Nat) :
    WriterCall → Nat × Nat
  | write nBits bits => (nBits, bits)
  | ensureUnusedCapacityBits _ => (0, 0)
  | zeroPadToByte => ((8 - bitsWritten % 8) % 8, 0)

/-- The calls of a run, one after another. -/
def runAll
    (calls : List WriterCall)
    (writer : BitWriter) :
    Checked BitWriter :=
  calls.foldlM run writer

/-- The fields of a run that starts after so many bits. -/
def fields :
    Nat → List WriterCall → List (Nat × Nat)
  | _, [] => []
  | bitsWritten, call :: rest =>
      call.field bitsWritten ::
        fields (bitsWritten + (call.field bitsWritten).1) rest

/-- The fields spelled one after another, lowest bit first. -/
def spell
    (fields : List (Nat × Nat)) :
    List Bool :=
  fields.flatMap fun field => bitsOf field.1 field.2

end WriterCall

namespace BitReader

/-- Reads of the given widths, one after another. -/
def readAll :
    List Nat → BitReader → Checked (List Nat × BitReader)
  | [], reader => .ok ([], reader)
  | nbits :: rest, reader => do
      let (value, reader) ← reader.readBits nbits
      let (values, reader) ← readAll rest reader
      return (value :: values, reader)

end BitReader

namespace WriterCall

theorem zeroPadToByte_ok
    (writer : BitWriter) :
    ∃ after,
      writer.zeroPadToByte = .ok after ∧
        after.bits =
          writer.bits ++ bitsOf ((8 - writer.bitsWritten % 8) % 8) 0 := by
  unfold BitWriter.zeroPadToByte
  by_cases aligned : writer.bitsWritten % 8 = 0
  · exact ⟨writer, by simp [aligned], by simp [aligned]⟩
  · obtain ⟨after, wrote, appended⟩ :=
      writer.write_ok 0
        (show 8 - writer.bitsWritten % 8 ≤ BitWriter.kMaxBitsPerCall by
          rw [BitWriter.kMaxBitsPerCall]
          omega)
    have width :
        (8 - writer.bitsWritten % 8) % 8 = 8 - writer.bitsWritten % 8 := by
      omega
    refine ⟨after, ?_, ?_⟩
    · simp only [aligned, if_false, wrote]
    · rw [width, appended]

/-- A call appends its field and nothing else. -/
theorem run_ok
    {call : WriterCall}
    (valid : call.Valid)
    (writer : BitWriter) :
    ∃ after,
      run writer call = .ok after ∧
        after.bits =
          writer.bits ++
            bitsOf (call.field writer.bitsWritten).1
              (call.field writer.bitsWritten).2 := by
  cases call with
  | write nBits bits =>
      exact writer.write_ok bits valid.1
  | ensureUnusedCapacityBits nBits =>
      exact
        ⟨_, rfl, by simp [field, BitWriter.bits_ensureUnusedCapacityBits]⟩
  | zeroPadToByte =>
      exact zeroPadToByte_ok writer

theorem bitsWritten_eq
    {before after : BitWriter}
    {width value : Nat}
    (appended : after.bits = before.bits ++ bitsOf width value) :
    after.bitsWritten = before.bitsWritten + width := by
  rw [← BitWriter.length_bits after, appended, List.length_append,
    BitWriter.length_bits, length_bitsOf]

/-- A run appends its fields in order. -/
theorem runAll_ok
    {calls : List WriterCall}
    (valid : ∀ call ∈ calls, call.Valid)
    (writer : BitWriter) :
    ∃ after,
      runAll calls writer = .ok after ∧
        after.bits = writer.bits ++ spell (fields writer.bitsWritten calls) := by
  induction calls generalizing writer with
  | nil =>
      exact ⟨writer, rfl, by simp [fields, spell]⟩
  | cons call rest inductionHypothesis =>
      obtain ⟨middle, ran, appended⟩ :=
        run_ok (valid call List.mem_cons_self) writer
      obtain ⟨after, ranRest, appendedRest⟩ :=
        inductionHypothesis
          (fun later member => valid later (List.mem_cons_of_mem _ member))
          middle
      refine ⟨after, ?_, ?_⟩
      · rw [runAll, List.foldlM_cons, ran, ok_bind]
        exact ranRest
      · rw [appendedRest, appended, bitsWritten_eq appended, List.append_assoc]
        rfl

/-- Every field of a run of valid calls can be read in one piece. -/
theorem fields_fit
    {calls : List WriterCall}
    (valid : ∀ call ∈ calls, call.Valid)
    (bitsWritten : Nat) :
    ∀ field ∈ fields bitsWritten calls,
      field.1 ≤ BitReader.kMaxBitsPerCall ∧ field.2 < 2 ^ field.1 := by
  induction calls generalizing bitsWritten with
  | nil =>
      intro field member
      cases member
  | cons call rest inductionHypothesis =>
      intro field member
      rcases List.mem_cons.1 member with rfl | later
      · have isValid := valid call List.mem_cons_self
        cases call with
        | write nBits bits =>
            exact isValid
        | ensureUnusedCapacityBits nBits =>
            exact ⟨Nat.zero_le _, Nat.two_pow_pos _⟩
        | zeroPadToByte =>
            refine ⟨?_, Nat.two_pow_pos _⟩
            simp only [WriterCall.field, BitReader.kMaxBitsPerCall]
            omega
      · exact
          inductionHypothesis
            (fun call' member' => valid call' (List.mem_cons_of_mem _ member'))
            _ field later

/-- The widths of spelled fields read back their values. -/
theorem readAll_reads
    {fields : List (Nat × Nat)}
    (fit :
      ∀ field ∈ fields,
        field.1 ≤ BitReader.kMaxBitsPerCall ∧ field.2 < 2 ^ field.1) :
    Reads (BitReader.readAll (fields.map Prod.fst)) (spell fields)
      (fields.map Prod.snd) := by
  induction fields with
  | nil =>
      exact Reads.nothing []
  | cons field rest inductionHypothesis =>
      obtain ⟨short, small⟩ := fit field List.mem_cons_self
      have readsRest :=
        inductionHypothesis
          (fun later member => fit later (List.mem_cons_of_mem _ member))
      exact
        (Reads.readBits short small).bind
          (readsRest.last (fun reader => rfl))

/-- A reader over the bytes of an aligned writer stands before its bits. -/
theorem standsBefore_bytes
    {writer : BitWriter}
    (aligned : writer.bitsWritten % 8 = 0) :
    StandsBefore
      (BitReader.init (writer.storage.take (writer.bitsWritten / 8)))
      writer.bits := by
  have reserved := writer.reserved
  have length :
      (writer.storage.take (writer.bitsWritten / 8)).length =
        writer.bitsWritten / 8 := by
    rw [List.length_take]
    omega
  refine StandsBefore.refill ⟨rfl, ?_, ?_⟩
  · intro index inside
    rw [BitWriter.length_bits] at inside
    simp only [BitReader.source, BitReader.totalBitsConsumed, advance,
      BitWriter.bits, List.getElem_map, List.getElem_range]
    rw [show (0 + 0) * 8 - 0 + index = index by omega, bitAt_take (by omega)]
  · simp only [BitReader.totalBitsConsumed, BitWriter.length_bits, length]
    omega

/--
Whatever the calls, the output is their fields in order: a later call leaves
the earlier bits alone, the storage past the last bit is zero, and once the
output is padded a reader gets every field back from the written bits.
-/
theorem calls_readBack
    (calls : List WriterCall)
    (valid : ∀ call ∈ calls, call.Valid) :
    ∃ writer,
      runAll calls BitWriter.init = .ok writer ∧
        writer.bits = spell (fields 0 calls) ∧
        (∀ position,
          writer.bitsWritten ≤ position →
          bitAt writer.storage position = false) ∧
        (∀ earlier later,
          calls = earlier ++ later →
          ∃ before,
            runAll earlier BitWriter.init = .ok before ∧
              before.bits <+: writer.bits) ∧
        ∃ padded bytes after,
          writer.zeroPadToByte = .ok padded ∧
            padded.bytes = .ok bytes ∧
            BitReader.readAll ((fields 0 calls).map Prod.fst)
                (BitReader.init bytes) =
              .ok ((fields 0 calls).map Prod.snd, after) ∧
            after.totalBitsConsumed = writer.bitsWritten ∧
            writer.bitsWritten ≤ 8 * bytes.length := by
  obtain ⟨writer, ran, isBits⟩ := runAll_ok valid BitWriter.init
  have started : BitWriter.init.bitsWritten = 0 :=
    rfl
  rw [BitWriter.bits_init, List.nil_append, started] at isBits
  refine ⟨writer, ran, isBits, writer.clear, ?_, ?_⟩
  · rintro earlier later rfl
    obtain ⟨before, ranEarlier, _⟩ :=
      runAll_ok
        (fun call member => valid call (List.mem_append_left _ member))
        BitWriter.init
    obtain ⟨after, ranLater, appended⟩ :=
      runAll_ok
        (fun call member => valid call (List.mem_append_right _ member))
        before
    have same : after = writer := by
      have whole : runAll (earlier ++ later) BitWriter.init = .ok after := by
        rw [runAll, List.foldlM_append]
        simp only [runAll] at ranEarlier ranLater
        rw [ranEarlier, ok_bind, ranLater]
      rw [ran] at whole
      exact (Except.ok.inj whole).symm
    refine ⟨before, ranEarlier, ?_⟩
    rw [← same, appended]
    exact List.prefix_append _ _
  · obtain ⟨padded, pads, paddedBits⟩ := zeroPadToByte_ok writer
    have position := bitsWritten_eq paddedBits
    have aligned : padded.bitsWritten % 8 = 0 := by
      omega
    have stands := standsBefore_bytes aligned
    rw [paddedBits] at stands
    have reads := readAll_reads (fields_fit valid 0)
    rw [← isBits] at reads
    obtain ⟨after, read, advanced⟩ := reads _ stands.first
    have fresh :
        (BitReader.init
          (padded.storage.take (padded.bitsWritten / 8))).totalBitsConsumed = 0 :=
      (BitReader.refill_advanced _).consumedBits
    refine ⟨padded, _, after, pads, ?_, read, ?_, ?_⟩
    · rw [BitWriter.bytes, require_ok aligned, ok_bind, pure_eq_ok]
    · rw [advanced.consumedBits, fresh, BitWriter.length_bits, Nat.zero_add]
    · have reserved := padded.reserved
      rw [List.length_take]
      omega

/-- Reservations and padding between four fields, as in the round-trip test. -/
theorem calls_readBack_four :
    ∃ writer,
      runAll
          [.write 1 1, .ensureUnusedCapacityBits 32, .write 3 6,
            .zeroPadToByte, .write 8 0xDB, .write 4 8] BitWriter.init =
        .ok writer ∧
      writer.bits =
        spell
          (fields 0
            [.write 1 1, .ensureUnusedCapacityBits 32, .write 3 6,
              .zeroPadToByte, .write 8 0xDB, .write 4 8]) := by
  obtain ⟨writer, ran, isBits, _⟩ :=
    calls_readBack
      [.write 1 1, .ensureUnusedCapacityBits 32, .write 3 6,
        .zeroPadToByte, .write 8 0xDB, .write 4 8]
      (by
        intro call member
        simp only [List.mem_cons, List.not_mem_nil, or_false] at member
        rcases member with rfl | rfl | rfl | rfl | rfl | rfl <;>
          simp [Valid, BitWriter.kMaxBitsPerCall])
  exact ⟨writer, ran, isBits⟩

end WriterCall

end Jxlz
