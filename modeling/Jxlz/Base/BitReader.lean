import Jxlz.Base.Checked
import Jxlz.Lib.BitString

namespace Jxlz

open BitString

/-!
# The buffered bit reader

`BitReader` keeps a 64-bit buffer in front of the byte position `pos`.  A
refill may leave bits of the next, not yet counted, bytes above `bitsInBuf`;
`Coherent` records that these are the bits that a later refill loads there
again, which is why the two refill paths may be mixed freely.
-/

namespace BitReader

/-- What the buffer of a reader holds. -/
structure Coherent
    (data : List UInt8)
    (buf bitsInBuf pos overreadBytes : Nat) :
    Prop where
  bitsInRange :
    bitsInBuf < 64
  bufInRange :
    buf < 2 ^ 64
  posInRange :
    pos ≤ data.length
  overreadAtEnd :
    0 < overreadBytes → pos = data.length
  loaded :
    bitsInBuf ≤ (pos + overreadBytes) * 8
  counted :
    ∀ offset,
      offset < bitsInBuf →
      buf.testBit offset =
        bitAt data ((pos + overreadBytes) * 8 - bitsInBuf + offset)
  prefetched :
    ∀ offset,
      bitsInBuf ≤ offset →
      buf.testBit offset = true →
      bitAt data
        ((pos + overreadBytes) * 8 - bitsInBuf + offset) = true

end BitReader

/-- 64-bit buffered bitstream reader with deferred refills. -/
structure BitReader where
  data : List UInt8
  buf : Nat := 0
  bitsInBuf : Nat := 0
  pos : Nat := 0
  overreadBytes : Nat := 0
  closeCalled : Bool := false
  checkedOutOfBoundsBits : Nat := 0
  coherent : BitReader.Coherent data buf bitsInBuf pos overreadBytes

namespace BitReader

/-- Most bits that one peek may ask for. -/
def kMaxBitsPerCall : Nat := 56

/-- Number of bits consumed so far. -/
def totalBitsConsumed
    (self : BitReader) :
    Nat :=
  (self.pos + self.overreadBytes) * 8 - self.bitsInBuf

/-- Number of bytes in the input. -/
def totalBytes
    (self : BitReader) :
    Nat :=
  self.data.length

/-- The bits that the reader has not consumed yet, followed by zeros. -/
def source
    (self : BitReader) :
    Nat → Bool :=
  advance (bitAt self.data) self.totalBitsConsumed

namespace Coherent

variable {data : List UInt8}
variable {buf bitsInBuf pos overreadBytes : Nat}

/-- OR-ing whole data bytes in above the counted bits keeps every bit correct. -/
private theorem testBit_load
    (coherent : Coherent data buf bitsInBuf pos overreadBytes)
    {loaded : Nat}
    (inside : pos < data.length)
    (fromData :
      ∀ offset,
        loaded.testBit offset = true →
        bitAt data (pos * 8 + offset) = true)
    {offset : Nat}
    (set : (buf ||| shlU 64 loaded bitsInBuf).testBit offset = true) :
    bitAt data (pos * 8 - bitsInBuf + offset) = true := by
  have noOverread : overreadBytes = 0 := by
    have atEnd := coherent.overreadAtEnd
    omega
  have loadedBits := coherent.loaded
  subst noOverread
  simp only [Nat.testBit_or, testBit_shlU, Bool.or_eq_true,
    Bool.and_eq_true, decide_eq_true_eq] at set
  rcases set with inBuffer | ⟨_, aboveCounted, inLoaded⟩
  · by_cases isCounted : offset < bitsInBuf
    · have same := coherent.counted offset isCounted
      simp_all
    · exact coherent.prefetched offset (by omega) inBuffer
  · have atData := fromData _ inLoaded
    have position :
        pos * 8 - bitsInBuf + offset =
          pos * 8 + (offset - bitsInBuf) := by
      omega
    rw [position]
    exact atData

/-- Appending `bytes` loaded bytes to the counted part of the buffer. -/
private theorem load
    (coherent : Coherent data buf bitsInBuf pos overreadBytes)
    {loaded : Nat}
    (bytes : Nat)
    (inside : pos + bytes ≤ data.length)
    (positive : 0 < bytes)
    (room : bitsInBuf + 8 * bytes < 64)
    (exact :
      ∀ offset,
        offset < 8 * bytes →
        loaded.testBit offset = bitAt data (pos * 8 + offset))
    (fromData :
      ∀ offset,
        loaded.testBit offset = true →
        bitAt data (pos * 8 + offset) = true) :
    Coherent data (buf ||| shlU 64 loaded bitsInBuf)
      (bitsInBuf + 8 * bytes) (pos + bytes) overreadBytes := by
  have noOverread : overreadBytes = 0 := by
    have atEnd := coherent.overreadAtEnd
    omega
  have loadedBits := coherent.loaded
  have position :
      ∀ offset,
        (pos + bytes + overreadBytes) * 8 - (bitsInBuf + 8 * bytes) + offset =
          pos * 8 - bitsInBuf + offset := by
    intro offset
    omega
  refine ⟨room, ?_, inside, by omega, by omega, ?_, ?_⟩
  · exact Nat.or_lt_two_pow coherent.bufInRange (shlU_lt _ _ _)
  · intro offset counted
    rw [position]
    by_cases old : offset < bitsInBuf
    · have same := coherent.counted offset old
      have notLoaded : ¬ bitsInBuf ≤ offset := by
        omega
      simp [testBit_shlU, notLoaded, same, noOverread]
    · have loadedBit := exact (offset - bitsInBuf) (by omega)
      have place :
          pos * 8 - bitsInBuf + offset =
            pos * 8 + (offset - bitsInBuf) := by
        subst noOverread
        omega
      have below : offset < 64 := by
        omega
      have above : bitsInBuf ≤ offset := by
        omega
      rw [place, ← loadedBit]
      cases bufferBit : buf.testBit offset with
      | false =>
          simp [testBit_shlU, bufferBit, below, above]
      | true =>
          have prefetchedBit := coherent.prefetched offset above bufferBit
          subst noOverread
          rw [Nat.add_zero, place, ← loadedBit] at prefetchedBit
          simp [Nat.testBit_or, bufferBit, prefetchedBit]
  · intro offset _ set
    rw [position]
    exact coherent.testBit_load (by omega) fromData set

/-- An empty buffer at the start of the data. -/
theorem start
    (data : List UInt8) :
    Coherent data 0 0 0 0 := by
  constructor <;> simp

/-- The fast refill: eight bytes are OR-ed in, the whole ones are counted. -/
theorem fastRefill
    (coherent : Coherent data buf bitsInBuf pos overreadBytes)
    (inside : pos + 8 ≤ data.length) :
    Coherent data
      (buf ||| shlU 64 (littleEndian ((data.drop pos).take 8)) bitsInBuf)
      (bitsInBuf ||| 56) (pos + (63 - bitsInBuf) >>> 3) overreadBytes := by
  have inRange := coherent.bitsInRange
  have byteCount : (63 - bitsInBuf) >>> 3 = (63 - bitsInBuf) / 8 := by
    simp [Nat.shiftRight_eq_div_pow]
  have countedBits :
      bitsInBuf ||| 56 = bitsInBuf + 8 * ((63 - bitsInBuf) / 8) := by
    interval_cases bitsInBuf <;> rfl
  have loadedBit :
      ∀ offset,
        (littleEndian ((data.drop pos).take 8)).testBit offset =
          if offset < 64 then bitAt data (pos * 8 + offset) else false := by
    intro offset
    rw [testBit_littleEndian]
    by_cases inWord : offset < 64
    · rw [bitAt_take (by omega), bitAt_drop, Nat.mul_comm 8 pos, if_pos inWord]
    · simp only [inWord, if_false]
      exact bitAt_of_length_le (by simp; omega)
  rw [byteCount, countedBits]
  by_cases full : (63 - bitsInBuf) / 8 = 0
  · -- The buffer already counts 56 bits: only prefetched bits are added.
    rw [full]
    refine ⟨by omega, ?_, by omega, ?_, by simpa using coherent.loaded,
      ?_, ?_⟩
    · exact Nat.or_lt_two_pow coherent.bufInRange (shlU_lt _ _ _)
    · simpa using coherent.overreadAtEnd
    · intro offset counted
      have same := coherent.counted offset (by omega)
      have notLoaded : ¬ bitsInBuf ≤ offset := by
        omega
      simp [testBit_shlU, notLoaded, same]
    · intro offset _ set
      have noOverread : overreadBytes = 0 := by
        have atEnd := coherent.overreadAtEnd
        omega
      have correct :=
        coherent.testBit_load (by omega)
          (by
            intro place isSet
            rw [loadedBit] at isSet
            split at isSet
            · exact isSet
            · contradiction)
          set
      simpa [noOverread] using correct
  · refine coherent.load _ (by omega) (by omega) (by omega) ?_ ?_
    · intro offset below
      rw [loadedBit, if_pos (by omega)]
    · intro offset set
      rw [loadedBit] at set
      split at set
      · exact set
      · contradiction

/-- One round of the slow refill: a single byte is OR-ed in and counted. -/
theorem loadByte
    (coherent : Coherent data buf bitsInBuf pos overreadBytes)
    (room : bitsInBuf < 64 - 8)
    (inside : pos < data.length) :
    Coherent data (buf ||| shlU 64 data[pos].toNat bitsInBuf)
      (bitsInBuf + 8) (pos + 1) overreadBytes := by
  have byteFits : data[pos].toNat < 2 ^ 8 :=
    data[pos].toNat_lt
  refine coherent.load 1 inside Nat.one_pos (by omega) ?_ ?_
  · intro offset below
    rw [Nat.mul_comm pos 8, bitAt_byte inside (by omega)]
  · intro offset set
    have below : offset < 8 := by
      by_contra above
      have grows : 2 ^ 8 ≤ 2 ^ offset :=
        Nat.pow_le_pow_right (by decide) (by omega)
      rw [Nat.testBit_lt_two_pow (by omega)] at set
      contradiction
    rw [Nat.mul_comm pos 8, bitAt_byte inside below]
    exact set

/-- Zero bytes past the end of the data are counted without being loaded. -/
theorem overread
    (coherent : Coherent data buf bitsInBuf pos overreadBytes)
    (extra : Nat)
    (room : bitsInBuf + extra * 8 < 64)
    (atEnd : 0 < extra → pos = data.length) :
    Coherent data buf (bitsInBuf + extra * 8) pos (overreadBytes + extra) := by
  have loadedBits := coherent.loaded
  have position :
      ∀ offset,
        (pos + (overreadBytes + extra)) * 8 - (bitsInBuf + extra * 8) +
            offset =
          (pos + overreadBytes) * 8 - bitsInBuf + offset := by
    intro offset
    omega
  refine ⟨room, coherent.bufInRange, coherent.posInRange, ?_, by omega, ?_, ?_⟩
  · intro positive
    by_cases extraBytes : 0 < extra
    · exact atEnd extraBytes
    · exact coherent.overreadAtEnd (by omega)
  · intro offset counted
    rw [position]
    by_cases old : offset < bitsInBuf
    · exact coherent.counted offset old
    · -- The bits counted here lie past the data, where both sides are zero.
      have end' := atEnd (by omega)
      have zero :
          bitAt data ((pos + overreadBytes) * 8 - bitsInBuf + offset) =
            false :=
        bitAt_of_length_le (by omega)
      cases bufferBit : buf.testBit offset with
      | false =>
          exact zero.symm
      | true =>
          have set := coherent.prefetched offset (by omega) bufferBit
          rw [zero] at set
          contradiction
  · intro offset above set
    rw [position]
    exact coherent.prefetched offset (by omega) set

/-- Dropping counted bits from the low end of the buffer. -/
theorem consume
    (coherent : Coherent data buf bitsInBuf pos overreadBytes)
    {amount : Nat}
    (available : amount ≤ bitsInBuf) :
    Coherent data (buf >>> amount) (bitsInBuf - amount) pos overreadBytes := by
  have inRange := coherent.bitsInRange
  have loadedBits := coherent.loaded
  have position :
      ∀ offset,
        (pos + overreadBytes) * 8 - (bitsInBuf - amount) + offset =
          (pos + overreadBytes) * 8 - bitsInBuf + (amount + offset) := by
    intro offset
    omega
  refine ⟨by omega, ?_, coherent.posInRange, coherent.overreadAtEnd,
    by omega, ?_, ?_⟩
  · exact Nat.lt_of_le_of_lt (Nat.shiftRight_le _ _) coherent.bufInRange
  · intro offset counted
    rw [Nat.testBit_shiftRight, position]
    exact coherent.counted _ (by omega)
  · intro offset above set
    rw [Nat.testBit_shiftRight] at set
    rw [position]
    exact coherent.prefetched _ (by omega) set

end Coherent

/-- The whole-byte rounds of the slow refill. -/
def loadBytes
    (self : BitReader) :
    BitReader :=
  if room : self.bitsInBuf < 64 - 8 then
    if inside : self.pos < self.data.length then
      loadBytes
        { self with
          buf := self.buf ||| shlU 64 self.data[self.pos].toNat self.bitsInBuf
          pos := self.pos + 1
          bitsInBuf := self.bitsInBuf + 8
          coherent := self.coherent.loadByte room inside }
    else
      self
  else
    self
termination_by 64 - self.bitsInBuf

/-- Where the whole-byte rounds stop: a full buffer or the end of the data. -/
theorem loadBytes_stops
    (self : BitReader) :
    64 - 8 ≤ self.loadBytes.bitsInBuf ∨
      self.loadBytes.pos = self.loadBytes.data.length := by
  fun_induction loadBytes self with
  | case1 self room inside inductionHypothesis =>
      exact inductionHypothesis
  | case2 self room outside =>
      have inRange := self.coherent.posInRange
      exact Or.inr (by omega)
  | case3 self full =>
      exact Or.inl (by omega)

/-- Slow-path refill: byte by byte, then zero bytes past the end. -/
def boundsCheckedRefill
    (self : BitReader) :
    BitReader :=
  let loaded := self.loadBytes
  let extraBytes := (63 - loaded.bitsInBuf) / 8
  { loaded with
    overreadBytes := loaded.overreadBytes + extraBytes
    bitsInBuf := loaded.bitsInBuf + extraBytes * 8
    coherent :=
      loaded.coherent.overread ((63 - loaded.bitsInBuf) / 8)
        (by
          have inRange := loaded.coherent.bitsInRange
          omega)
        (by
          intro positive
          rcases self.loadBytes_stops with full | atEnd
          · have stillFull : 64 - 8 ≤ loaded.bitsInBuf := full
            omega
          · exact atEnd) }

/-- Fast-path refill when eight bytes remain, else the slow path. -/
def refill
    (self : BitReader) :
    BitReader :=
  if inside : self.pos + 8 ≤ self.data.length then
    { self with
      buf :=
        self.buf |||
          shlU 64 (littleEndian ((self.data.drop self.pos).take 8))
            self.bitsInBuf
      pos := self.pos + (63 - self.bitsInBuf) >>> 3
      bitsInBuf := self.bitsInBuf ||| 56
      coherent := self.coherent.fastRefill inside }
  else
    self.boundsCheckedRefill

/-- A reader at the start of the data, after its first refill. -/
def init
    (data : List UInt8) :
    BitReader :=
  refill { data, coherent := Coherent.start data }

/-- The lowest bits of the buffer; they are not consumed. -/
def peekBits
    (self : BitReader)
    (nbits : Nat) :
    Checked Nat := do
  require (nbits ≤ kMaxBitsPerCall)
  require (self.closeCalled = false)
  if nbits = 0 then
    return 0
  return self.buf &&& (1 <<< nbits - 1)

/-- The reader without its `numBits` lowest counted bits. -/
def dropBits
    (self : BitReader)
    (numBits : Nat)
    (available : numBits ≤ self.bitsInBuf) :
    BitReader :=
  { self with
    buf := self.buf >>> numBits
    bitsInBuf := self.bitsInBuf - numBits
    coherent := self.coherent.consume available }

/-- Remove bits from the buffer; fewer than 64 are ever counted there. -/
def consume
    (self : BitReader)
    (numBits : Nat) :
    Checked BitReader := do
  require (self.closeCalled = false)
  if available : numBits ≤ self.bitsInBuf then
    return self.dropBits numBits available
  else
    .error .trap

/-- Refill, peek and consume: the standard read operation. -/
def readBits
    (self : BitReader)
    (nbits : Nat) :
    Checked (Nat × BitReader) := do
  require (self.closeCalled = false)
  let refilled := self.refill
  let bits ← refilled.peekBits nbits
  let consumed ← refilled.consume nbits
  return (bits, consumed)

/-- Whether all bits read so far lie within the input; records the position. -/
def allReadsWithinBounds
    (self : BitReader) :
    Bool × BitReader :=
  (decide (self.totalBitsConsumed ≤ self.totalBytes * 8),
    { self with checkedOutOfBoundsBits := self.totalBitsConsumed })

/-- Skip the padding up to a byte boundary, which must be zero. -/
def jumpToByteBoundary
    (self : BitReader) :
    Checked BitReader := do
  let remainder := self.totalBitsConsumed % 8
  if remainder = 0 then
    return self
  let (padding, after) ← self.readBits (8 - remainder)
  if padding ≠ 0 then
    fail .NonzeroPadding
  else
    return after

/-- `after` is `before` with `amount` more bits of the same data consumed. -/
structure Advanced
    (before after : BitReader)
    (amount : Nat) :
    Prop where
  sameData :
    after.data = before.data
  consumedBits :
    after.totalBitsConsumed = before.totalBitsConsumed + amount
  sameClose :
    after.closeCalled = before.closeCalled

namespace Advanced

theorem trans
    {first second third : BitReader}
    {amount more : Nat}
    (firstStep : Advanced first second amount)
    (secondStep : Advanced second third more) :
    Advanced first third (amount + more) where
  sameData := secondStep.sameData.trans firstStep.sameData
  consumedBits := by
    rw [secondStep.consumedBits, firstStep.consumedBits, Nat.add_assoc]
  sameClose := secondStep.sameClose.trans firstStep.sameClose

/-- The remaining bits after an advance. -/
theorem source_eq
    {before after : BitReader}
    {amount : Nat}
    (step : Advanced before after amount) :
    after.source = BitString.advance before.source amount := by
  simp [source, step.sameData, step.consumedBits]

end Advanced

theorem loadBytes_advanced
    (self : BitReader) :
    Advanced self self.loadBytes 0 := by
  fun_induction loadBytes self with
  | case1 self room inside inductionHypothesis =>
      have unchanged :
          Advanced self
            { self with
              buf :=
                self.buf ||| shlU 64 self.data[self.pos].toNat self.bitsInBuf
              pos := self.pos + 1
              bitsInBuf := self.bitsInBuf + 8
              coherent := self.coherent.loadByte room inside }
            0 := by
        refine ⟨rfl, ?_, rfl⟩
        simp only [totalBitsConsumed]
        omega
      exact unchanged.trans inductionHypothesis
  | case2 self room outside =>
      exact ⟨rfl, rfl, rfl⟩
  | case3 self full =>
      exact ⟨rfl, rfl, rfl⟩

/-- A refill changes neither the position nor the data. -/
theorem refill_advanced
    (self : BitReader) :
    Advanced self self.refill 0 := by
  have inRange := self.coherent.bitsInRange
  unfold refill
  split
  next inside =>
    refine ⟨rfl, ?_, rfl⟩
    have countedBits :
        self.bitsInBuf ||| 56 =
          self.bitsInBuf + (63 - self.bitsInBuf) / 8 * 8 := by
      generalize self.bitsInBuf = bitsInBuf at inRange
      interval_cases bitsInBuf <;> rfl
    simp only [totalBitsConsumed, countedBits, Nat.shiftRight_eq_div_pow]
    omega
  next outside =>
    have loaded := self.loadBytes_advanced
    refine ⟨loaded.sameData, ?_, loaded.sameClose⟩
    rw [← loaded.consumedBits]
    simp only [totalBitsConsumed, boundsCheckedRefill]
    omega

/-- After a refill at least 56 bits are counted. -/
theorem refill_full
    (self : BitReader) :
    kMaxBitsPerCall ≤ self.refill.bitsInBuf := by
  unfold refill kMaxBitsPerCall
  split
  next inside =>
    exact Nat.right_le_or
  next outside =>
    have inRange := self.loadBytes.coherent.bitsInRange
    simp only [boundsCheckedRefill]
    omega

/-- Peeking returns the next bits of the source. -/
theorem peekBits_ok
    {self : BitReader}
    {nbits : Nat}
    (isOpen : self.closeCalled = false)
    (short : nbits ≤ kMaxBitsPerCall)
    (available : nbits ≤ self.bitsInBuf) :
    self.peekBits nbits = .ok (valueAt self.source nbits) := by
  have masked : self.buf &&& (1 <<< nbits - 1) = valueAt self.source nbits := by
    rw [Nat.one_shiftLeft, Nat.and_two_pow_sub_one_eq_mod]
    refine eq_of_low_bits (Nat.mod_lt _ (by positivity))
      (valueAt_lt _ _) ?_
    intro index inside
    rw [testBit_valueAt _ inside, Nat.testBit_mod_two_pow]
    simp only [inside, decide_true, Bool.true_and, source, advance,
      totalBitsConsumed]
    exact self.coherent.counted index (by omega)
  by_cases empty : nbits = 0
  · subst empty
    simp [peekBits, require, isOpen, valueAt]
  · simp only [peekBits, require_ok short, require_ok isOpen, empty,
      if_false, ok_bind, pure_eq_ok, masked]

/-- Consuming counted bits advances the reader by as much. -/
theorem consume_ok
    {self : BitReader}
    {numBits : Nat}
    (isOpen : self.closeCalled = false)
    (available : numBits ≤ self.bitsInBuf) :
    ∃ after,
      self.consume numBits = .ok after ∧
        Advanced self after numBits ∧
        after.bitsInBuf = self.bitsInBuf - numBits := by
  have loadedBits := self.coherent.loaded
  refine ⟨self.dropBits numBits available, ?_, ⟨rfl, ?_, rfl⟩, rfl⟩
  · simp only [consume, require_ok isOpen, available, dif_pos, ok_bind,
      pure_eq_ok]
  · simp only [totalBitsConsumed, dropBits]
    omega

/-- Reading returns the next bits of the source and advances past them. -/
theorem readBits_ok
    {self : BitReader}
    {nbits : Nat}
    (isOpen : self.closeCalled = false)
    (short : nbits ≤ kMaxBitsPerCall) :
    ∃ after,
      self.readBits nbits = .ok (valueAt self.source nbits, after) ∧
        Advanced self after nbits := by
  have refilled := self.refill_advanced
  have full := self.refill_full
  have refilledOpen : self.refill.closeCalled = false :=
    refilled.sameClose.trans isOpen
  obtain ⟨after, consumed, advanced, _⟩ :=
    consume_ok refilledOpen (Nat.le_trans short full)
  have peeked := peekBits_ok refilledOpen short (Nat.le_trans short full)
  rw [refilled.source_eq, advance_zero] at peeked
  refine ⟨after, ?_, ?_⟩
  · simp only [readBits, require_ok isOpen, peeked, consumed, ok_bind,
      pure_eq_ok]
  · simpa using refilled.trans advanced

/-- A number that was read fits the bits that were asked for. -/
theorem readBits_lt
    {self after : BitReader}
    {nbits value : Nat}
    (read : self.readBits nbits = .ok (value, after)) :
    value < 2 ^ nbits := by
  unfold readBits at read
  obtain ⟨_, _, read⟩ := bind_eq_ok.1 read
  obtain ⟨peeked, isPeeked, read⟩ := bind_eq_ok.1 read
  obtain ⟨consumed, _, read⟩ := bind_eq_ok.1 read
  cases read
  unfold peekBits at isPeeked
  obtain ⟨_, _, isPeeked⟩ := bind_eq_ok.1 isPeeked
  obtain ⟨_, _, isPeeked⟩ := bind_eq_ok.1 isPeeked
  split at isPeeked
  · cases isPeeked
    exact Nat.two_pow_pos nbits
  · cases isPeeked
    rw [Nat.one_shiftLeft, Nat.and_two_pow_sub_one_eq_mod]
    exact Nat.mod_lt _ (Nat.two_pow_pos nbits)

/-- Reading a number that the source spells returns it. -/
theorem readBits_of_serves
    {self : BitReader}
    {nbits value : Nat}
    (isOpen : self.closeCalled = false)
    (short : nbits ≤ kMaxBitsPerCall)
    (fits : value < 2 ^ nbits)
    (served : Serves self.source (bitsOf nbits value)) :
    ∃ after,
      self.readBits nbits = .ok (value, after) ∧
        Advanced self after nbits := by
  obtain ⟨after, read, advanced⟩ := readBits_ok isOpen short
  rw [valueAt_of_serves fits served] at read
  exact ⟨after, read, advanced⟩

end BitReader

end Jxlz
