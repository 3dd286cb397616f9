import Jxlz.Entropy.AnsSymbol
import Jxlz.Entropy.CodeLengthsRead

namespace Jxlz

open AnsParams BitString

/-!
# Tables that any bits can be decoded with

A table reads symbols if it finds one in every refilled reader, in at most
fifteen of its bits.  The tables of complete codes do, and so do those that a
short table is replicated to.
-/

/-- Every open reader starts with a code of the table. -/
def ReadsSymbols
    (table : List HuffmanCode) :
    Prop :=
  ∀ br : BitReader,
    br.closeCalled = false →
    ∃ symbol after amount,
      HuffmanCode.readSymbol table br.refill = .ok (symbol, after) ∧
        Consumed br.refill after amount ∧ amount ≤ 15 ∧ symbol < 2 ^ 16

section Places

variable {before after : BitReader}

/-- A reader that consumes bits stays at its byte. -/
def SamePlace
    (before after : BitReader) :
    Prop :=
  after.pos = before.pos ∧ after.overreadBytes = before.overreadBytes

theorem consume_samePlace
    {numBits : Nat}
    (consumed : before.consume numBits = .ok after) :
    SamePlace before after := by
  unfold BitReader.consume at consumed
  obtain ⟨_, _, consumed⟩ := bind_eq_ok.1 consumed
  split at consumed
  · cases consumed
    exact ⟨rfl, rfl⟩
  · cases consumed

theorem SamePlace.trans
    {middle : BitReader}
    (first : SamePlace before middle)
    (second : SamePlace middle after) :
    SamePlace before after :=
  ⟨second.1.trans first.1, second.2.trans first.2⟩

theorem readSymbol_samePlace
    {table : List HuffmanCode}
    {symbol : Nat}
    (read : HuffmanCode.readSymbol table before = .ok (symbol, after)) :
    SamePlace before after := by
  unfold HuffmanCode.readSymbol at read
  obtain ⟨_, _, read⟩ := bind_eq_ok.1 read
  obtain ⟨_, _, read⟩ := bind_eq_ok.1 read
  split at read
  · obtain ⟨_, first, read⟩ := bind_eq_ok.1 read
    obtain ⟨_, _, read⟩ := bind_eq_ok.1 read
    obtain ⟨_, _, read⟩ := bind_eq_ok.1 read
    obtain ⟨_, second, read⟩ := bind_eq_ok.1 read
    cases read
    exact (consume_samePlace first).trans (consume_samePlace second)
  · obtain ⟨_, consumed, read⟩ := bind_eq_ok.1 read
    cases read
    exact consume_samePlace consumed

/-- Bits that are taken from the buffer are no longer counted there. -/
theorem consumed_of_samePlace
    {amount : Nat}
    (advanced : BitReader.Advanced before after amount)
    (same : SamePlace before after) :
    Consumed before after amount := by
  obtain ⟨samePos, sameOverread⟩ := same
  have position := advanced.consumedBits
  have loadedBefore := before.coherent.loaded
  have loadedAfter := after.coherent.loaded
  unfold BitReader.totalBitsConsumed at position
  rw [samePos, sameOverread] at position loadedAfter
  exact ⟨advanced, by omega⟩

end Places

section Tables

variable {table : List HuffmanCode}

/-- A table whose codes are all found at its root. -/
theorem readsSymbols_root
    (rooted :
      ∀ entry < 2 ^ huffmanTableBits,
        ∃ code,
          table[entry]? = some code ∧
            code.bits ≤ huffmanTableBits ∧ code.value < 2 ^ 16) :
    ReadsSymbols table := by
  intro br isOpen
  have refilledOpen := refill_open isOpen
  have full := br.refill_full
  obtain ⟨peeked, isPeeked, inside⟩ :=
    @peekBits_open br huffmanTableBits isOpen (by decide)
  obtain ⟨code, isEntry, short, small⟩ := rooted peeked inside
  have enough : code.bits ≤ br.refill.bitsInBuf :=
    Nat.le_trans short (Nat.le_trans (by decide) full)
  obtain ⟨after, consumed, advanced, counted⟩ :=
    BitReader.consume_ok refilledOpen enough
  have isCode : index table peeked = .ok code := index_eq_ok.2 isEntry
  refine ⟨code.value, after, code.bits, ?_, ⟨advanced, counted⟩,
    Nat.le_trans short (by decide), small⟩
  unfold HuffmanCode.readSymbol
  rw [isPeeked, ok_bind, isCode, ok_bind, if_neg (Nat.not_lt_of_le short),
    consumed, ok_bind]
  rfl

/-- The tables of a complete code. -/
theorem readsSymbols_built
    {codeLengths sorted : List Nat}
    {size : Nat}
    (bounded : ∀ codeLength ∈ codeLengths, codeLength ≤ prefixMaxBits)
    (few : codeLengths.length ≤ 2 ^ 16)
    (kraft : kraftSum codeLengths = 2 ^ prefixMaxBits)
    (built : Built codeLengths huffmanTableBits sorted size table) :
    ReadsSymbols (table.take size) := by
  intro br isOpen
  obtain ⟨symbol, len, starts, _⟩ :=
    existsUnique_startsWith bounded (complete_of_kraftSum bounded kraft) br.source
  obtain ⟨after, read, advanced⟩ := readSymbol_starts bounded built isOpen starts
  obtain ⟨isLength, _, _⟩ := starts
  have inside := (List.getElem?_eq_some_iff.1 isLength).1
  have fromRefilled : BitReader.Advanced br.refill after len := by
    have refilled := br.refill_advanced
    refine ⟨advanced.sameData.trans refilled.sameData.symm, ?_,
      advanced.sameClose.trans refilled.sameClose.symm⟩
    rw [advanced.consumedBits, refilled.consumedBits]
    rfl
  exact ⟨symbol, after, len, read,
    consumed_of_samePlace fromRefilled (readSymbol_samePlace read),
    bounded len (List.mem_of_getElem? isLength), by omega⟩

/-- A short table that is replicated over the root. -/
theorem readsSymbols_replicated
    {base : List HuffmanCode}
    {filled : Nat}
    (isLength : base.length = 2 ^ filled)
    (short : ∀ code ∈ base, code.bits ≤ huffmanTableBits)
    (small : ∀ code ∈ base, code.value < 2 ^ 16)
    {rest : List HuffmanCode}
    (doubled :
      ∀ index < 2 ^ huffmanTableBits,
        table[index]? = (base ++ rest)[index % 2 ^ filled]?) :
    ReadsSymbols table := by
  refine readsSymbols_root fun entry inside => ?_
  have below : entry % 2 ^ filled < base.length := by
    rw [isLength]
    exact Nat.mod_lt _ (by positivity)
  have member := List.getElem_mem below
  refine ⟨base[entry % 2 ^ filled], ?_, short _ member, small _ member⟩
  rw [doubled entry inside, List.getElem?_append_left below,
    List.getElem?_eq_getElem below]

end Tables

end Jxlz
