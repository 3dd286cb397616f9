import Jxlz.Base.BitReader
import Jxlz.Base.BitWriter

namespace Jxlz

open BitString

/-!
# What is written is read back

`Writes` says which bits a writing step appends, `Reads` what a reading step
makes of bits that it stands before.  Both compose in sequence, so that a field
is read back once its writer and its reader are known to agree on its bits.
-/

/-- A reader stands before bits of its data. -/
structure StandsBefore
    (reader : BitReader)
    (bits : List Bool) :
    Prop where
  isOpen :
    reader.closeCalled = false
  served :
    Serves reader.source bits
  inside :
    reader.totalBitsConsumed + bits.length ≤ 8 * reader.data.length

/-- The steps append these bits to whatever has been written. -/
def Writes
    (write : BitWriter → Checked BitWriter)
    (bits : List Bool) :
    Prop :=
  ∀ writer,
    ∃ written, write writer = .ok written ∧ written.bits = writer.bits ++ bits

/-- The steps return the value for these bits, and consume them all. -/
def Reads
    {α : Type}
    (read : BitReader → Checked (α × BitReader))
    (bits : List Bool)
    (value : α) :
    Prop :=
  ∀ reader,
    StandsBefore reader bits →
    ∃ after,
      read reader = .ok (value, after) ∧
        BitReader.Advanced reader after bits.length

namespace StandsBefore

theorem first
    {reader : BitReader}
    {bits rest : List Bool}
    (stands : StandsBefore reader (bits ++ rest)) :
    StandsBefore reader bits where
  isOpen := stands.isOpen
  served := (serves_append.1 stands.served).1
  inside := by
    have inside := stands.inside
    rw [List.length_append] at inside
    omega

/-- After the first bits a reader stands before the others. -/
theorem rest
    {reader after : BitReader}
    {bits rest : List Bool}
    (stands : StandsBefore reader (bits ++ rest))
    (advanced : BitReader.Advanced reader after bits.length) :
    StandsBefore after rest where
  isOpen := advanced.sameClose.trans stands.isOpen
  served := by
    rw [advanced.source_eq]
    exact (serves_append.1 stands.served).2
  inside := by
    have inside := stands.inside
    rw [List.length_append] at inside
    rw [advanced.consumedBits, advanced.sameData]
    omega

theorem refill
    {reader : BitReader}
    {bits : List Bool}
    (stands : StandsBefore reader bits) :
    StandsBefore reader.refill bits :=
  @rest reader reader.refill [] bits stands reader.refill_advanced

end StandsBefore

namespace Writes

theorem nothing :
    Writes (fun writer => .ok writer) [] := by
  intro writer
  exact ⟨writer, rfl, (List.append_nil _).symm⟩

theorem patch
    {nBits : Nat}
    (short : nBits ≤ BitWriter.kMaxBitsPerCall)
    (value : Nat) :
    Writes (fun writer => writer.write nBits value) (bitsOf nBits value) := by
  intro writer
  exact writer.write_ok value short

/-- One writing step after another. -/
theorem bind
    {first second : BitWriter → Checked BitWriter}
    {bits rest : List Bool}
    (writes : Writes first bits)
    (writes' : Writes second rest) :
    Writes (fun writer => first writer >>= second) (bits ++ rest) := by
  intro writer
  obtain ⟨middle, wrote, middleBits⟩ := writes writer
  obtain ⟨written, wrote', writtenBits⟩ := writes' middle
  refine ⟨written, ?_, ?_⟩
  · dsimp only
    rw [wrote, ok_bind, wrote']
  · rw [writtenBits, middleBits, List.append_assoc]

end Writes

namespace Reads

variable {α β : Type}

theorem nothing
    (value : α) :
    Reads (fun reader => .ok (value, reader)) [] value := by
  intro reader _
  exact ⟨reader, rfl, rfl, rfl, rfl⟩

/-- A number is read back from the bits that spell it. -/
theorem readBits
    {nbits value : Nat}
    (short : nbits ≤ BitReader.kMaxBitsPerCall)
    (fits : value < 2 ^ nbits) :
    Reads (fun reader => reader.readBits nbits) (bitsOf nbits value) value := by
  intro reader stands
  rw [length_bitsOf]
  exact
    BitReader.readBits_of_serves stands.isOpen short fits stands.served

/-- One reading step after another. -/
theorem bind
    {first : BitReader → Checked (α × BitReader)}
    {second : α × BitReader → Checked (β × BitReader)}
    {bits rest : List Bool}
    {value : α}
    {result : β}
    (reads : Reads first bits value)
    (reads' : Reads (fun reader => second (value, reader)) rest result) :
    Reads (fun reader => first reader >>= second) (bits ++ rest) result := by
  intro reader stands
  obtain ⟨middle, read, advanced⟩ := reads reader stands.first
  obtain ⟨after, read', advanced'⟩ := reads' middle (stands.rest advanced)
  refine ⟨after, ?_, ?_⟩
  · dsimp only
    rw [read, ok_bind]
    exact read'
  · rw [List.length_append]
    exact advanced.trans advanced'

/-- A last reading step, whose result is only passed on. -/
theorem last
    {first : BitReader → Checked (α × BitReader)}
    {finish : α × BitReader → Checked (β × BitReader)}
    {bits : List Bool}
    {value : α}
    {result : β}
    (reads : Reads first bits value)
    (finishes : ∀ reader, finish (value, reader) = .ok (result, reader)) :
    Reads (fun reader => first reader >>= finish) bits result := by
  intro reader stands
  obtain ⟨after, read, advanced⟩ := reads reader stands
  refine ⟨after, ?_, advanced⟩
  dsimp only
  rw [read, ok_bind, finishes]

/-- A refill in front changes nothing. -/
theorem refill
    {read : BitReader → Checked (α × BitReader)}
    {bits : List Bool}
    {value : α}
    (reads : Reads read bits value) :
    Reads (fun reader => read reader.refill) bits value := by
  intro reader stands
  obtain ⟨after, isRead, advanced⟩ := reads reader.refill stands.refill
  refine ⟨after, isRead, ?_⟩
  have whole := reader.refill_advanced.trans advanced
  rwa [Nat.zero_add] at whole

end Reads

/-- A step whose bits are read back as a value. -/
def RoundTrips
    {α : Type}
    (write : BitWriter → Checked BitWriter)
    (read : BitReader → Checked (α × BitReader))
    (value : α) :
    Prop :=
  ∃ bits, Writes write bits ∧ Reads read bits value

namespace RoundTrips

variable {α β : Type}
variable {write write' : BitWriter → Checked BitWriter}
variable {read : BitReader → Checked (α × BitReader)}
variable {value : α}
variable {result : β}

theorem nothing
    (value : α) :
    RoundTrips (fun writer => .ok writer) (fun reader => .ok (value, reader))
      value :=
  ⟨[], Writes.nothing, Reads.nothing value⟩

theorem patch
    {nbits number : Nat}
    (short : nbits ≤ BitReader.kMaxBitsPerCall)
    (fits : number < 2 ^ nbits) :
    RoundTrips (fun writer => writer.write nbits number)
      (fun reader => reader.readBits nbits) number :=
  ⟨_, Writes.patch short number, Reads.readBits short fits⟩

/-- A field, and then the fields whose reading depends on it. -/
theorem bind
    {read' : α × BitReader → Checked (β × BitReader)}
    (first : RoundTrips write read value)
    (second : RoundTrips write' (fun reader => read' (value, reader)) result) :
    RoundTrips (fun writer => write writer >>= write')
      (fun reader => read reader >>= read') result := by
  obtain ⟨bits, writes, reads⟩ := first
  obtain ⟨rest, writes', reads'⟩ := second
  exact ⟨bits ++ rest, writes.bind writes', reads.bind reads'⟩

/-- The last field: its value is only passed on. -/
theorem last
    {finish : α × BitReader → Checked (β × BitReader)}
    (trips : RoundTrips write read value)
    (finishes : ∀ reader, finish (value, reader) = .ok (result, reader)) :
    RoundTrips write (fun reader => read reader >>= finish) result := by
  obtain ⟨bits, writes, reads⟩ := trips
  exact ⟨bits, writes, reads.last finishes⟩

theorem refill
    (trips : RoundTrips write read value) :
    RoundTrips write (fun reader => read reader.refill) value := by
  obtain ⟨bits, writes, reads⟩ := trips
  exact ⟨bits, writes, reads.refill⟩

end RoundTrips

end Jxlz
