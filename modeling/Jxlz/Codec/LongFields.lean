import Jxlz.Codec.FieldCoders

namespace Jxlz

open BitString

/-!
# 64-bit fields

Mirrors `U64Coder` of `field_coders.zig`.  A 64-bit field is a short form or a
chain: 12 bits, then groups of eight bits behind a one bit each, the last of
four bits, ended by a zero bit where the last group is not reached.
-/

namespace U64Coder

/-- The loop of `read` over the groups after the first 12 bits. -/
def readGroups
    (shift result : Nat)
    (reader : BitReader) :
    Checked (Nat × BitReader) := do
  let (more, reader) ← reader.readBits 1
  if more = 0 then
    return (result, reader)
  else if shift = 60 then do
    let (last, reader) ← reader.readBits 4
    return (result ||| shlU 64 last shift, reader)
  else do
    let (group, reader) ← reader.readBits 8
    if shift + 8 < 64 then
      readGroups (shift + 8) (result ||| shlU 64 group shift) reader
    else
      .error .trap
termination_by 64 - shift

def read
    (reader : BitReader) :
    Checked (Nat × BitReader) := do
  let (selector, reader) ← reader.readBits 2
  if selector = 0 then
    return (0, reader)
  else if selector = 1 then do
    let (low, reader) ← reader.readBits 4
    return (1 + low, reader)
  else if selector = 2 then do
    let (low, reader) ← reader.readBits 8
    return (17 + low, reader)
  else do
    let (low, reader) ← reader.readBits 12
    readGroups 12 low reader

/-- The loop of `write` over the bits that are left from `shift` on. -/
def writeGroups
    (shift remaining : Nat)
    (writer : BitWriter) :
    Checked BitWriter := do
  if remaining = 0 then
    writer.write 1 0
  else do
    let writer ← writer.write 1 1
    if shift = 60 then
      writer.write 4 (remaining &&& 0xf)
    else do
      let writer ← writer.write 8 (remaining &&& 0xff)
      if shift + 8 < 64 then
        writeGroups (shift + 8) (remaining >>> 8) writer
      else
        .error .trap
termination_by 64 - shift

def write
    (value : Nat)
    (writer : BitWriter) :
    Checked BitWriter := do
  if value = 0 then
    writer.write 2 0
  else if value ≤ 16 then do
    let writer ← writer.write 2 1
    writer.write 4 (value - 1)
  else if value ≤ 272 then do
    let writer ← writer.write 2 2
    writer.write 8 (value - 17)
  else do
    let writer ← writer.write 2 3
    let writer ← writer.write 12 (value &&& 0xfff)
    writeGroups 12 (value >>> 12) writer

/-- The first round of the reading loop. -/
theorem readGroups_eq
    (shift result : Nat) :
    readGroups shift result = (fun reader => do
      let (more, reader) ← reader.readBits 1
      if more = 0 then
        return (result, reader)
      else if shift = 60 then do
        let (last, reader) ← reader.readBits 4
        return (result ||| shlU 64 last shift, reader)
      else do
        let (group, reader) ← reader.readBits 8
        if shift + 8 < 64 then
          readGroups (shift + 8) (result ||| shlU 64 group shift) reader
        else
          .error .trap) := by
  funext reader
  rw [readGroups]

/-- The first round of the writing loop. -/
theorem writeGroups_eq
    (shift remaining : Nat) :
    writeGroups shift remaining = (fun writer => do
      if remaining = 0 then
        writer.write 1 0
      else do
        let writer ← writer.write 1 1
        if shift = 60 then
          writer.write 4 (remaining &&& 0xf)
        else do
          let writer ← writer.write 8 (remaining &&& 0xff)
          if shift + 8 < 64 then
            writeGroups (shift + 8) (remaining >>> 8) writer
          else
            .error .trap) := by
  funext writer
  rw [writeGroups]

/-- The bits of a chain with so many whole groups before the short one. -/
def groupBits :
    Nat → Nat → List Bool
  | 0, remaining =>
      if remaining = 0 then bitsOf 1 0 else bitsOf 1 1 ++ bitsOf 4 remaining
  | groups + 1, remaining =>
      if remaining = 0 then
        bitsOf 1 0
      else
        bitsOf 1 1 ++
          (bitsOf 8 (remaining % 256) ++ groupBits groups (remaining / 256))

/-- OR-ing a group in above the bits read so far adds it. -/
theorem or_shlU
    {result shift group : Nat}
    (below : result < 2 ^ shift)
    (fits : group * 2 ^ shift < 2 ^ 64) :
    result ||| shlU 64 group shift = result + group * 2 ^ shift := by
  rw [shlU_eq fits, Nat.or_comm, Nat.mul_comm,
    ← Nat.two_pow_add_eq_or_of_lt below, Nat.add_comm]

theorem length_groupBits_pos
    (groups remaining : Nat) :
    1 ≤ (groupBits groups remaining).length := by
  cases groups <;>
    simp only [groupBits] <;>
    split <;>
    simp only [List.length_append, length_bitsOf] <;>
    omega

variable {groups shift : Nat}

theorem writeGroups_writes
    (place : shift + 8 * groups = 60)
    {remaining : Nat}
    (fits : remaining < 2 ^ (64 - shift)) :
    Writes (writeGroups shift remaining) (groupBits groups remaining) := by
  induction groups generalizing shift remaining with
  | zero =>
      have last : shift = 60 := by
        omega
      subst last
      rw [writeGroups_eq]
      unfold groupBits
      by_cases done : remaining = 0
      · simp only [done, if_true]
        exact Writes.patch (by decide) 0
      · have low : remaining &&& 0xf = remaining := by
          rw [Nat.and_two_pow_sub_one_eq_mod remaining 4]
          exact Nat.mod_eq_of_lt fits
        simp only [done, if_false, if_true, low]
        exact
          (Writes.patch (by decide) 1).bind (Writes.patch (by decide) remaining)
  | succ groups inductionHypothesis =>
      have inside : shift ≠ 60 := by
        omega
      have room : shift + 8 < 64 := by
        omega
      rw [writeGroups_eq]
      unfold groupBits
      by_cases done : remaining = 0
      · simp only [done, if_true]
        exact Writes.patch (by decide) 0
      · have low : remaining &&& 0xff = remaining % 256 :=
          Nat.and_two_pow_sub_one_eq_mod remaining 8
        have high : remaining >>> 8 = remaining / 256 :=
          Nat.shiftRight_eq_div_pow remaining 8
        have split : 2 ^ (64 - shift) = 2 ^ (64 - (shift + 8)) * 256 := by
          rw [show 64 - shift = 64 - (shift + 8) + 8 by omega, Nat.pow_add]
        have rest : remaining / 256 < 2 ^ (64 - (shift + 8)) := by
          rw [Nat.div_lt_iff_lt_mul (by decide), ← split]
          exact fits
        simp only [done, if_false, inside, room, if_true, low, high]
        exact
          (Writes.patch (by decide) 1).bind
            ((Writes.patch (by decide) (remaining % 256)).bind
              (inductionHypothesis (by omega) rest))

/-- A whole group goes above the bits read so far. -/
theorem add_group_lt
    {result shift group : Nat}
    (below : result < 2 ^ shift)
    (byte : group < 2 ^ 8) :
    result + group * 2 ^ shift < 2 ^ (shift + 8) := by
  calc
    result + group * 2 ^ shift < 2 ^ shift + group * 2 ^ shift :=
      Nat.add_lt_add_right below _
    _ = (group + 1) * 2 ^ shift := by
      ring
    _ ≤ 2 ^ 8 * 2 ^ shift :=
      Nat.mul_le_mul_right _ byte
    _ = 2 ^ (shift + 8) := by
      rw [Nat.pow_add, Nat.mul_comm]

theorem flag_reads
    {more : Nat}
    (isBit : more < 2 ^ 1) :
    Reads (fun reader => reader.readBits 1) (bitsOf 1 more) more :=
  Reads.readBits (by decide) isBit

/-- A zero bit ends the chain. -/
theorem readGroups_ends
    (shift result : Nat) :
    Reads (readGroups shift result) (bitsOf 1 0) result := by
  rw [readGroups_eq, ← List.append_nil (bitsOf 1 0)]
  exact (flag_reads (by decide)).bind (Reads.nothing result)

theorem readGroups_reads
    (place : shift + 8 * groups = 60)
    {result remaining : Nat}
    (below : result < 2 ^ shift)
    (fits : remaining * 2 ^ shift < 2 ^ 64) :
    Reads (readGroups shift result) (groupBits groups remaining)
      (result + remaining * 2 ^ shift) := by
  induction groups generalizing shift result remaining with
  | zero =>
      have last : shift = 60 := by
        omega
      subst last
      unfold groupBits
      by_cases done : remaining = 0
      · simpa only [done, if_true, Nat.zero_mul, Nat.add_zero] using
          readGroups_ends 60 result
      · simp only [done, if_false]
        rw [readGroups_eq]
        refine (flag_reads (by decide)).bind ?_
        refine (Reads.readBits (by decide) (by omega)).last ?_
        intro reader
        rw [← or_shlU below fits]
        rfl
  | succ groups inductionHypothesis =>
      have inside : shift ≠ 60 := by
        omega
      have room : shift + 8 < 64 := by
        omega
      unfold groupBits
      by_cases done : remaining = 0
      · simpa only [done, if_true, Nat.zero_mul, Nat.add_zero] using
          readGroups_ends shift result
      · have byte : remaining % 256 < 2 ^ 8 :=
          Nat.mod_lt _ (by decide)
        have group :
            Reads (fun reader => reader.readBits 8)
              (bitsOf 8 (remaining % 256)) (remaining % 256) :=
          Reads.readBits (by decide) byte
        have joined :
            result ||| shlU 64 (remaining % 256) shift =
              result + remaining % 256 * 2 ^ shift :=
          or_shlU below
            (Nat.lt_of_le_of_lt
              (Nat.mul_le_mul_right _ (Nat.mod_le remaining 256)) fits)
        have above :
            remaining / 256 * 2 ^ (shift + 8) =
              256 * (remaining / 256) * 2 ^ shift := by
          rw [Nat.pow_add]
          ring
        have parts := Nat.div_add_mod remaining 256
        have total :
            result + remaining % 256 * 2 ^ shift +
                remaining / 256 * 2 ^ (shift + 8) =
              result + remaining * 2 ^ shift := by
          rw [above, Nat.add_assoc, ← Nat.add_mul, Nat.add_comm (remaining % 256),
            parts]
        have rest : remaining / 256 * 2 ^ (shift + 8) < 2 ^ 64 := by
          rw [above]
          exact
            Nat.lt_of_le_of_lt
              (Nat.mul_le_mul_right _ (Nat.mul_div_le remaining 256)) fits
        have reads :=
          inductionHypothesis (by omega) (add_group_lt below byte) rest
        rw [total] at reads
        simp only [done, if_false]
        rw [readGroups_eq]
        refine (flag_reads (by decide)).bind ?_
        simp only [Nat.one_ne_zero, inside, if_false]
        refine group.bind ?_
        simp only [room, if_true, joined]
        exact reads

/-- A chain is as long as its last group that is not zero requires. -/
theorem readGroups_took
    (place : shift + 8 * groups = 60)
    {result value : Nat}
    (below : result < 2 ^ shift)
    {reader after : BitReader}
    (read : readGroups shift result reader = .ok (value, after)) :
    ∃ remaining,
      value = result + remaining * 2 ^ shift ∧
        reader.totalBitsConsumed + (groupBits groups remaining).length ≤
          after.totalBitsConsumed := by
  induction groups generalizing shift result reader with
  | zero =>
      have last : shift = 60 := by
        omega
      subst last
      rw [readGroups] at read
      obtain ⟨⟨more, middle⟩, isMore, read⟩ := bind_eq_ok.1 read
      obtain ⟨took, _⟩ := BitReader.readBits_took isMore
      by_cases done : more = 0
      · simp only [done, if_true] at read
        cases read
        exact ⟨0, by simp, by simp [groupBits, took]⟩
      · simp only [done, if_false, if_true] at read
        obtain ⟨⟨group, rest⟩, isGroup, read⟩ := bind_eq_ok.1 read
        obtain ⟨took', fits⟩ := BitReader.readBits_took isGroup
        cases read
        refine ⟨group, or_shlU below (by omega), ?_⟩
        rw [took', took, groupBits]
        split <;> simp only [List.length_append, length_bitsOf] <;> omega
  | succ groups inductionHypothesis =>
      have inside : shift ≠ 60 := by
        omega
      have room : shift + 8 < 64 := by
        omega
      rw [readGroups] at read
      obtain ⟨⟨more, middle⟩, isMore, read⟩ := bind_eq_ok.1 read
      obtain ⟨took, _⟩ := BitReader.readBits_took isMore
      by_cases done : more = 0
      · simp only [done, if_true] at read
        cases read
        exact ⟨0, by simp, by simp [groupBits, took]⟩
      · simp only [done, if_false, inside] at read
        obtain ⟨⟨group, rest⟩, isGroup, read⟩ := bind_eq_ok.1 read
        obtain ⟨took', fits⟩ := BitReader.readBits_took isGroup
        simp only [room, if_true] at read
        have power : 2 ^ (shift + 8) = 256 * 2 ^ shift := by
          rw [Nat.pow_add, Nat.mul_comm]
        have grows : group * 2 ^ shift < 2 ^ (shift + 8) := by
          rw [power]
          exact Nat.mul_lt_mul_of_pos_right fits (Nat.two_pow_pos shift)
        have inWord : 2 ^ (shift + 8) ≤ 2 ^ 64 :=
          Nat.pow_le_pow_right (by decide) (by omega)
        rw [or_shlU below (Nat.lt_of_lt_of_le grows inWord)] at read
        obtain ⟨remaining, isValue, least⟩ :=
          inductionHypothesis (by omega) (add_group_lt below fits) read
        refine ⟨group + 256 * remaining, ?_, ?_⟩
        · rw [isValue, power]
          ring
        · have quotient : (group + 256 * remaining) / 256 = remaining := by
            omega
          have remainder : (group + 256 * remaining) % 256 = group := by
            omega
          rw [groupBits, quotient, remainder]
          split <;> simp only [List.length_append, length_bitsOf] <;> omega

/-- The bits that `write` emits. -/
def formBits
    (value : Nat) :
    List Bool :=
  if value = 0 then
    bitsOf 2 0
  else if value ≤ 16 then
    bitsOf 2 1 ++ bitsOf 4 (value - 1)
  else if value ≤ 272 then
    bitsOf 2 2 ++ bitsOf 8 (value - 17)
  else
    bitsOf 2 3 ++ (bitsOf 12 (value % 4096) ++ groupBits 6 (value / 4096))

variable {value : Nat}

theorem write_writes
    (inRange : value < 2 ^ 64) :
    Writes (write value) (formBits value) := by
  have two (selector : Nat) :
      Writes (fun writer => writer.write 2 selector) (bitsOf 2 selector) :=
    Writes.patch (by decide) selector
  by_cases none : value = 0
  · have shape : write value = fun writer => writer.write 2 0 := by
      funext writer
      simp only [write, none, if_true]
    rw [shape, formBits, if_pos none]
    exact two 0
  by_cases short : value ≤ 16
  · have shape :
        write value = fun writer => writer.write 2 1 >>= fun writer =>
          writer.write 4 (value - 1) := by
      funext writer
      simp only [write, none, short, if_true, if_false]
    rw [shape, formBits, if_neg none, if_pos short]
    exact (two 1).bind (Writes.patch (by decide) _)
  by_cases middle : value ≤ 272
  · have shape :
        write value = fun writer => writer.write 2 2 >>= fun writer =>
          writer.write 8 (value - 17) := by
      funext writer
      simp only [write, none, short, middle, if_true, if_false]
    rw [shape, formBits, if_neg none, if_neg short, if_pos middle]
    exact (two 2).bind (Writes.patch (by decide) _)
  · have low : value &&& 0xfff = value % 4096 :=
      Nat.and_two_pow_sub_one_eq_mod value 12
    have high : value >>> 12 = value / 4096 :=
      Nat.shiftRight_eq_div_pow value 12
    have shape :
        write value = fun writer => writer.write 2 3 >>= fun writer =>
          writer.write 12 (value % 4096) >>= fun writer =>
            writeGroups 12 (value / 4096) writer := by
      funext writer
      simp only [write, none, short, middle, if_false, low, high]
    rw [shape, formBits, if_neg none, if_neg short, if_neg middle]
    exact
      (two 3).bind
        ((Writes.patch (by decide) _).bind
          (writeGroups_writes (by decide) (by omega)))

theorem read_reads
    (inRange : value < 2 ^ 64) :
    Reads read (formBits value) value := by
  have two (selector : Nat) (small : selector < 2 ^ 2) :
      Reads (fun reader => reader.readBits 2) (bitsOf 2 selector) selector :=
    Reads.readBits (by decide) small
  unfold formBits read
  by_cases none : value = 0
  · rw [if_pos none, none, ← List.append_nil (bitsOf 2 0)]
    exact (two 0 (by decide)).bind (Reads.nothing 0)
  by_cases short : value ≤ 16
  · rw [if_neg none, if_pos short]
    refine (two 1 (by decide)).bind ?_
    have low :
        Reads (fun reader => reader.readBits 4) (bitsOf 4 (value - 1))
          (value - 1) :=
      Reads.readBits (by decide) (by omega)
    refine low.last ?_
    intro reader
    have whole : 1 + (value - 1) = value := by
      omega
    simp only [whole, pure_eq_ok]
  by_cases middle : value ≤ 272
  · rw [if_neg none, if_neg short, if_pos middle]
    refine (two 2 (by decide)).bind ?_
    have low :
        Reads (fun reader => reader.readBits 8) (bitsOf 8 (value - 17))
          (value - 17) :=
      Reads.readBits (by decide) (by omega)
    refine low.last ?_
    intro reader
    have whole : 17 + (value - 17) = value := by
      omega
    simp only [whole, pure_eq_ok]
  · rw [if_neg none, if_neg short, if_neg middle]
    refine (two 3 (by decide)).bind ?_
    have low :
        Reads (fun reader => reader.readBits 12) (bitsOf 12 (value % 4096))
          (value % 4096) :=
      Reads.readBits (by decide) (by omega)
    refine low.bind ?_
    have whole : value % 4096 + value / 4096 * 2 ^ 12 = value := by
      omega
    have chain :
        Reads (readGroups 12 (value % 4096)) (groupBits 6 (value / 4096))
          (value % 4096 + value / 4096 * 2 ^ 12) :=
      readGroups_reads rfl (by omega) (by omega)
    rw [whole] at chain
    exact chain

/-- A reading of a value takes at least the bits that are written for it. -/
theorem read_took
    {reader after : BitReader}
    (read' : read reader = .ok (value, after)) :
    reader.totalBitsConsumed + (formBits value).length ≤
      after.totalBitsConsumed := by
  unfold read at read'
  obtain ⟨⟨selector, middle⟩, isSelector, read'⟩ := bind_eq_ok.1 read'
  obtain ⟨took, small⟩ := BitReader.readBits_took isSelector
  by_cases first : selector = 0
  · simp only [first, if_true] at read'
    cases read'
    simp [formBits, took]
  by_cases second : selector = 1
  · simp only [second, if_false, if_true, Nat.one_ne_zero] at read'
    obtain ⟨⟨low, rest⟩, isLow, read'⟩ := bind_eq_ok.1 read'
    obtain ⟨took', fits⟩ := BitReader.readBits_took isLow
    cases read'
    rw [formBits, if_neg (by omega), if_pos (by omega), took', took,
      List.length_append, length_bitsOf, length_bitsOf]
  by_cases third : selector = 2
  · simp only [third, if_true, if_false, OfNat.ofNat_ne_zero,
      OfNat.ofNat_ne_one] at read'
    obtain ⟨⟨low, rest⟩, isLow, read'⟩ := bind_eq_ok.1 read'
    obtain ⟨took', fits⟩ := BitReader.readBits_took isLow
    cases read'
    rw [formBits, if_neg (by omega), took', took]
    split
    · simp only [List.length_append, length_bitsOf]
      omega
    · rw [if_pos (by omega)]
      simp only [List.length_append, length_bitsOf]
      omega
  · simp only [first, second, third, if_false] at read'
    obtain ⟨⟨low, rest⟩, isLow, read'⟩ := bind_eq_ok.1 read'
    obtain ⟨took', fits⟩ := BitReader.readBits_took isLow
    obtain ⟨remaining, isValue, least⟩ :=
      readGroups_took (show 12 + 8 * 6 = 60 from rfl) fits read'
    dsimp only at least
    have some := length_groupBits_pos 6 remaining
    have quotient : value / 4096 = remaining := by
      omega
    unfold formBits
    split
    · simp only [length_bitsOf]
      omega
    split
    · simp only [List.length_append, length_bitsOf]
      omega
    split
    · simp only [List.length_append, length_bitsOf]
      omega
    · rw [quotient]
      simp only [List.length_append, length_bitsOf]
      omega

theorem write_shortest
    (inRange : value < 2 ^ 64) :
    ShortestForm (write value) read value (formBits value) where
  writes := write_writes inRange
  reads := read_reads inRange
  shortest := fun _ _ => read_took

end U64Coder

/--
A 32-bit field is refused exactly when no selector has the value, else it is
written in the shortest form that is read back as the value, its extra bits
added to the offset without a wrap.  Every 64-bit field is written in the
shortest form that is read back as its value.
-/
theorem fieldCoders_readBack :
    (∀ enc value,
      value < 2 ^ 32 →
      (∀ writer,
        U32Coder.write enc value writer = fail .GenericError ↔
          ∀ selector,
            selector < 4 → ¬ (enc.getDistr selector).Represents value) ∧
      ((∃ selector,
          selector < 4 ∧ (enc.getDistr selector).Represents value) →
        ∃ selector extra,
          selector < 4 ∧ extra < 2 ^ (enc.getDistr selector).width ∧
            value = (enc.getDistr selector).base + extra ∧
            ShortestForm (U32Coder.write enc value) (U32Coder.read enc) value
              (U32Coder.formBits enc selector extra))) ∧
      ∀ value,
        value < 2 ^ 64 →
        ∃ bits, ShortestForm (U64Coder.write value) U64Coder.read value bits := by
  refine ⟨?_, fun value inRange => ⟨_, U64Coder.write_shortest inRange⟩⟩
  intro enc value inRange
  exact
    ⟨U32Coder.write_fails_iff inRange, U32Coder.write_shortest inRange⟩

/-- A value near the top of its word, under the widest distributions. -/
theorem fieldCoders_readBack_wide :
    (∃ selector extra,
      selector < 4 ∧ extra < 2 ^ (U32Enc.getDistr
          ⟨bits 4, bitsOffset 8 16, bitsOffset 16 272, bitsOffset 32 65808⟩
          selector).width ∧
        4294967295 =
          (U32Enc.getDistr
            ⟨bits 4, bitsOffset 8 16, bitsOffset 16 272, bitsOffset 32 65808⟩
            selector).base + extra) ∧
      ∃ bits,
        ShortestForm (U64Coder.write 18446744073709551615) U64Coder.read
          18446744073709551615 bits := by
  obtain ⟨narrow, wide⟩ := fieldCoders_readBack
  refine ⟨?_, wide 18446744073709551615 (by decide)⟩
  obtain ⟨selector, extra, small, fits, isValue, _⟩ :=
    (narrow
      ⟨bits 4, bitsOffset 8 16, bitsOffset 16 272, bitsOffset 32 65808⟩
      4294967295 (by decide)).2
      ⟨3, by decide, 4294967295 - 65808, by decide, by decide⟩
  exact ⟨selector, extra, small, fits, isValue⟩

end Jxlz
