import Jxlz.Base.Returns
import Jxlz.Entropy.HuffmanCanonical

namespace Jxlz

open AnsParams BitReversal BitString CanonicalCode

/-!
# The code of the code lengths

Whatever bits it is read from, this code has eighteen lengths of at most five
bits, and keeps account of their shares.  When it is accepted it is complete or
has one symbol only, and its table of 32 entries holds code lengths everywhere.
-/

section Readers

variable {br : BitReader}

/-- Bits that are asked for are read, and the reader stays open. -/
theorem readBits_open
    {nbits : Nat}
    (isOpen : br.closeCalled = false)
    (short : nbits ≤ BitReader.kMaxBitsPerCall) :
    ∃ bits after,
      br.readBits nbits = .ok (bits, after) ∧
        bits < 2 ^ nbits ∧ after.closeCalled = false := by
  obtain ⟨after, read, advanced⟩ := BitReader.readBits_ok isOpen short
  exact ⟨_, after, read, valueAt_lt _ _, advanced.sameClose.trans isOpen⟩

theorem refill_open
    (isOpen : br.closeCalled = false) :
    br.refill.closeCalled = false :=
  br.refill_advanced.sameClose.trans isOpen

/-- Behind a refill the next bits can be looked at and consumed. -/
theorem peekBits_open
    {nbits : Nat}
    (isOpen : br.closeCalled = false)
    (short : nbits ≤ BitReader.kMaxBitsPerCall) :
    ∃ peeked,
      br.refill.peekBits nbits = .ok peeked ∧ peeked < 2 ^ nbits := by
  have full := br.refill_full
  exact ⟨_, BitReader.peekBits_ok (refill_open isOpen) short
    (Nat.le_trans short full), valueAt_lt _ _⟩

theorem consume_open
    {numBits : Nat}
    (isOpen : br.closeCalled = false)
    (short : numBits ≤ BitReader.kMaxBitsPerCall) :
    ∃ after,
      br.refill.consume numBits = .ok after ∧ after.closeCalled = false := by
  obtain ⟨after, consumed, advanced, _⟩ :=
    BitReader.consume_ok (refill_open isOpen)
      (Nat.le_trans short br.refill_full)
  exact ⟨after, consumed, advanced.sameClose.trans (refill_open isOpen)⟩

end Readers

section Sums

/-- The number of symbols that have a code. -/
def codedCount
    (codeLengths : List Nat) :
    Nat :=
  (codeLengths.map (fun len => if len = 0 then 0 else 1)).sum

variable {codeLengths : List Nat}

/-- A sum over the symbols is one over the lengths. -/
theorem sum_lengths_weight
    {weight : Nat → Nat}
    (uncoded : weight 0 = 0)
    (bounded : ∀ codeLength ∈ codeLengths, codeLength ≤ prefixMaxBits) :
    ∑ len ∈ Finset.Ico 1 (prefixMaxBits + 1),
        lengthCount codeLengths len * weight len =
      (codeLengths.map weight).sum := by
  unfold lengthCount
  induction codeLengths with
  | nil =>
      simp
  | cons codeLength codeLengths inductionHypothesis =>
      have small := bounded codeLength List.mem_cons_self
      have rest :=
        inductionHypothesis fun other member =>
          bounded other (List.mem_cons_of_mem _ member)
      have own :
          ∑ len ∈ Finset.Ico 1 (prefixMaxBits + 1),
              (if codeLength = len then 1 else 0) * weight len =
            weight codeLength := by
        simp only [ite_mul, Nat.one_mul, Nat.zero_mul, Finset.sum_ite_eq,
          Finset.mem_Ico]
        by_cases coded : codeLength = 0
        · rw [if_neg (by omega), coded, uncoded]
        · rw [if_pos (by omega)]
      simp only [List.count_cons, beq_iff_eq, Nat.add_mul,
        Finset.sum_add_distrib, List.map_cons, List.sum_cons, own, rest]
      omega

/-- The last rank counts the symbols that have a code. -/
theorem rank_eq_codedCount
    (bounded : ∀ codeLength ∈ codeLengths, codeLength ≤ prefixMaxBits) :
    rank (lengthCount codeLengths) (prefixMaxBits + 1) 0 = codedCount codeLengths := by
  have sums :=
    @sum_lengths_weight codeLengths (fun len => if len = 0 then 0 else 1) rfl bounded
  unfold codedCount rank
  rw [← sums, Nat.add_zero]
  refine Finset.sum_congr rfl fun len member => ?_
  have positive := (Finset.mem_Ico.1 member).1
  rw [if_neg (by omega), Nat.mul_one]

/-- A symbol that had no code yet adds its own weight. -/
theorem sum_map_set
    {weight : Nat → Nat}
    (uncoded : weight 0 = 0)
    {symbol : Nat}
    (free : codeLengths[symbol]? = some 0)
    (codeLength : Nat) :
    ((codeLengths.set symbol codeLength).map weight).sum =
      (codeLengths.map weight).sum + weight codeLength := by
  induction codeLengths generalizing symbol with
  | nil =>
      cases free
  | cons first codeLengths inductionHypothesis =>
      cases symbol with
      | zero =>
          cases free
          rw [List.set_cons_zero, List.map_cons, List.map_cons, List.sum_cons,
            List.sum_cons, uncoded]
          omega
      | succ symbol =>
          rw [List.getElem?_cons_succ] at free
          rw [List.set_cons_succ, List.map_cons, List.map_cons, List.sum_cons,
            List.sum_cons, inductionHypothesis free]
          omega

theorem kraftSum_set
    {symbol codeLength : Nat}
    (free : codeLengths[symbol]? = some 0)
    (coded : codeLength ≠ 0) :
    kraftSum (codeLengths.set symbol codeLength) =
      kraftSum codeLengths + 2 ^ (prefixMaxBits - codeLength) := by
  have sums :=
    @sum_map_set codeLengths
      (fun len => if len = 0 then 0 else 2 ^ (prefixMaxBits - len)) rfl symbol free
      codeLength
  rwa [if_neg coded] at sums

theorem codedCount_set
    {symbol codeLength : Nat}
    (free : codeLengths[symbol]? = some 0)
    (coded : codeLength ≠ 0) :
    codedCount (codeLengths.set symbol codeLength) = codedCount codeLengths + 1 := by
  have sums :=
    @sum_map_set codeLengths (fun len => if len = 0 then 0 else 1) rfl symbol free
      codeLength
  rwa [if_neg coded] at sums

end Sums

section Reading

/-- The account that is kept of the lengths of the code. -/
structure CodeLengthCode.Sound
    (code : CodeLengthCode) :
    Prop where
  length : code.lengths.length = codeLengthCodes
  bounded : ∀ codeLength ∈ code.lengths, codeLength ≤ 5
  space : (kraftSum code.lengths : Int) + code.space * 1024 = 32768
  numCodes : code.numCodes = codedCount code.lengths

theorem codeLengthHuff_bounded :
    ∀ code ∈ codeLengthHuff, code.bits ≤ 4 ∧ code.value ≤ 5 := by
  decide

/-- One more length of the code. -/
theorem CodeLengthCode.Sound.set
    {code : CodeLengthCode}
    (sound : code.Sound)
    {codeLenIdx value : Nat}
    (free : code.lengths[codeLenIdx]? = some 0)
    (coded : value ≠ 0)
    (small : value ≤ 5) :
    CodeLengthCode.Sound
      { lengths := code.lengths.set codeLenIdx value
        space := code.space - (32 >>> value : Nat)
        numCodes := code.numCodes + 1 } where
  length := by
    rw [List.length_set, sound.length]
  bounded := by
    intro codeLength member
    rcases List.mem_or_eq_of_mem_set member with old | rfl
    · exact sound.bounded codeLength old
    · exact small
  space := by
    have before := sound.space
    have share : 32 >>> value * 1024 = 2 ^ (prefixMaxBits - value) := by
      interval_cases value
      · exact (coded rfl).elim
      all_goals rfl
    dsimp only
    rw [kraftSum_set free coded, ← share]
    push_cast
    linarith
  numCodes := by
    dsimp only
    rw [codedCount_set free coded, sound.numCodes]

/-- The code of the code lengths is read from any bits. -/
theorem readCodeLengthCode_ok
    {order : List Nat}
    {code : CodeLengthCode}
    {br : BitReader}
    (once : order.Nodup)
    (free : ∀ codeLenIdx ∈ order, code.lengths[codeLenIdx]? = some 0)
    (sound : code.Sound)
    (isOpen : br.closeCalled = false) :
    ∃ last after,
      readCodeLengthCode order code br = .ok (last, after) ∧
        last.Sound ∧ after.closeCalled = false := by
  induction order generalizing code br with
  | nil =>
      exact ⟨code, br, rfl, sound, isOpen⟩
  | cons codeLenIdx order inductionHypothesis =>
      obtain ⟨different, onceLater⟩ := List.nodup_cons.1 once
      have isFree := free codeLenIdx List.mem_cons_self
      have freeLater :
          ∀ value, ∀ other ∈ order,
            (code.lengths.set codeLenIdx value)[other]? = some 0 := by
        intro value other member
        rw [List.getElem?_set_ne]
        · exact free other (List.mem_cons_of_mem _ member)
        · rintro rfl
          exact different member
      rw [readCodeLengthCode]
      by_cases room : 0 < code.space
      · obtain ⟨peeked, isPeeked, inHuff⟩ :=
          @peekBits_open br 4 isOpen (by decide)
        have inside : peeked < codeLengthHuff.length := inHuff
        have found := List.getElem_mem inside
        obtain ⟨shortBits, small⟩ := codeLengthHuff_bounded _ found
        obtain ⟨after, consumed, afterOpen⟩ :=
          @consume_open br codeLengthHuff[peeked].bits isOpen
            (Nat.le_trans shortBits (by decide))
        rw [if_pos room]
        dsimp only
        rw [isPeeked, ok_bind, index_ok inside, ok_bind, consumed, ok_bind]
        generalize codeLengthHuff[peeked].value = value at small
        by_cases coded : value ≠ 0
        · rw [if_pos coded]
          exact inductionHypothesis onceLater (freeLater value)
            (sound.set isFree coded small) afterOpen
        · rw [ne_eq, not_not] at coded
          subst coded
          obtain ⟨within, isZero⟩ := List.getElem?_eq_some_iff.1 isFree
          have same : code.lengths.set codeLenIdx 0 = code.lengths := by
            rw [← isZero, List.set_getElem_self]
          rw [if_neg (fun different => different rfl), same]
          exact inductionHypothesis onceLater
            (fun other member => free other (List.mem_cons_of_mem _ member))
            sound afterOpen
      · rw [if_neg room]
        exact ⟨code, br, rfl, sound, isOpen⟩

theorem codeLengthCode_start :
    CodeLengthCode.Sound {} := by
  constructor <;> decide

/-- The order names each code length once. -/
theorem codeLengthCodeOrder_drop
    (skip : Nat) :
    (codeLengthCodeOrder.drop skip).Nodup ∧
      ∀ codeLenIdx ∈ codeLengthCodeOrder.drop skip,
        ({} : CodeLengthCode).lengths[codeLenIdx]? = some 0 := by
  have once : codeLengthCodeOrder.Nodup := by
    decide
  have free :
      ∀ codeLenIdx ∈ codeLengthCodeOrder,
        ({} : CodeLengthCode).lengths[codeLenIdx]? = some 0 := by
    decide
  exact ⟨once.sublist (List.drop_sublist skip _),
    fun codeLenIdx member => free codeLenIdx (List.mem_of_mem_drop member)⟩

end Reading

section Table

variable {codeLengths : List Nat}

/-- The table of one symbol takes no bits. -/
theorem buildHuffmanTable_single
    {counts : List Nat}
    {rootBits : Nat}
    (bounded : ∀ codeLength ∈ codeLengths, codeLength ≤ prefixMaxBits)
    (short : codeLengths.length ≤ prefixMaxAlphabetSize)
    (single : codedCount codeLengths = 1)
    (lengths : counts.length = prefixMaxBits + 1)
    (counted : ∀ len, counts.getD len 0 = lengthCount codeLengths len)
    (memory : List HuffmanCode)
    (room : 2 ^ rootBits ≤ memory.length) :
    ∃ symbol < codeLengths.length,
      buildHuffmanTable memory rootBits codeLengths counts =
        .ok (2 ^ rootBits,
          List.replicate (2 ^ rootBits) ⟨0, symbol⟩ ++
            memory.drop (2 ^ rootBits)) := by
  have small : codeLengths.length < 2 ^ 16 :=
    Nat.lt_of_le_of_lt short (by decide)
  obtain ⟨offsets, isOffsets, upTo⟩ := symbolOffsets_ok lengths counted small
  obtain ⟨⟨sorted, offset⟩, isSorted, inOrder⟩ :=
    sortSymbols_ok bounded short upTo
  have sameLength := inOrder.length
  have inOffsets := inOrder.offsets
  dsimp only at sameLength inOffsets
  have ranks := rank_eq_codedCount bounded
  have isLast : index offset prefixMaxBits = .ok 1 := by
    rw [index_getD (by omega) 0, inOrder.offset prefixMaxBits (by decide)
      (Nat.le_refl _), ← single, ← ranks, rank_succ (by decide)]
    rfl
  -- The one coded symbol has the first rank, where the sort has placed it.
  obtain ⟨symbol, isCoded⟩ :
      ∃ symbol, ∃ len, codeLengths[symbol]? = some len ∧ 0 < len := by
    by_contra none
    have zero : codedCount codeLengths = 0 := by
      unfold codedCount
      refine List.sum_eq_zero fun weight member => ?_
      obtain ⟨len, isLength, rfl⟩ := List.mem_map.1 member
      obtain ⟨symbol, inside, isSymbol⟩ := List.mem_iff_getElem.1 isLength
      refine if_pos ?_
      by_contra coded
      refine none ⟨symbol, len, ?_, by omega⟩
      rw [List.getElem?_eq_getElem inside, isSymbol]
    omega
  obtain ⟨len, isLength, coded⟩ := isCoded
  have inside := (List.getElem?_eq_some_iff.1 isLength).1
  have isCode :
      IsCode prefixMaxBits (lengthCount codeLengths) len
        ((codeLengths.take symbol).count len) :=
    ⟨coded, bounded len (List.mem_of_getElem? isLength), count_take_lt isLength⟩
  have first := isCode.rank_lt
  rw [ranks, single, Nat.lt_one_iff] at first
  have placed := inOrder.placed symbol len isLength coded
  rw [first] at placed
  dsimp only at placed
  refine ⟨symbol, inside, ?_⟩
  unfold buildHuffmanTable
  rw [if_neg, isOffsets, ok_bind, isSorted, ok_bind]
  · dsimp only
    rw [isLast, ok_bind, if_pos rfl, index_getD (by omega) 0, ok_bind, placed,
      Nat.one_shiftLeft, require_ok room, ok_bind]
    rfl
  · have large : prefixMaxAlphabetSize ≤ 1 <<< prefixMaxBits := by
      decide
    omega

/-- Each of 32 entries gives a code length, or a repetition, behind few bits. -/
def LengthTable
    (table : List HuffmanCode) :
    Prop :=
  ∀ entry < 32,
    ∃ code,
      table[entry]? = some code ∧ code.bits ≤ 5 ∧ code.value < codeLengthCodes

/-- A complete code of short codes leaves no entry of its table out. -/
theorem lengthTable_complete
    {code : CodeLengthCode}
    (sound : code.Sound)
    (filled : code.space = 0)
    {counts : List Nat}
    (lengths : counts.length = prefixMaxBits + 1)
    (counted : ∀ len, counts.getD len 0 = lengthCount code.lengths len) :
    ∃ size table,
      buildHuffmanTable (newTable 32) 5 code.lengths counts = .ok (size, table) ∧
        size ≠ 0 ∧ LengthTable table := by
  have kraft : kraftSum code.lengths = 2 ^ prefixMaxBits := by
    have spent := sound.space
    rw [filled] at spent
    have share : 2 ^ prefixMaxBits = 32768 := rfl
    omega
  have bounded :
      ∀ codeLength ∈ code.lengths, codeLength ≤ prefixMaxBits :=
    fun codeLength member =>
      Nat.le_trans (sound.bounded codeLength member) (by decide)
  have short : code.lengths.length ≤ prefixMaxAlphabetSize := by
    rw [sound.length]
    decide
  have shortCode :
      ∀ {len i : Nat},
        IsCode prefixMaxBits (lengthCount code.lengths) len i → len ≤ 5 := by
    intro len i isCode
    refine sound.bounded len (List.count_pos_iff.1 ?_)
    exact Nat.lt_of_le_of_lt (Nat.zero_le i) isCode.counted
  have room : Room (lengthCount code.lengths) 5 (newTable 32).length :=
    ⟨by decide, by decide, by decide,
      fun len i isCode longer => absurd (shortCode isCode) (Nat.not_le_of_lt longer),
      by decide⟩
  obtain ⟨sorted, size, table, isTable, _, built⟩ :=
    buildHuffmanTable_ok bounded short kraft lengths counted (newTable 32) room
  have root := built.root
  refine ⟨size, table, isTable, by omega, ?_⟩
  intro entry inside
  have complete := complete_of_kraftSum bounded kraft
  obtain ⟨len, i, isCode, holds⟩ :=
    exists_holds complete (reverse_lt prefixMaxBits entry)
  rw [isCode.holds_iff complete] at holds
  have few := shortCode isCode
  have isEntry := (built.found len i isCode).short few entry inside holds
  obtain ⟨symbol, isLength, isNumber⟩ := exists_occurrence isCode.counted
  have placed := built.placed symbol len isLength isCode.positive
  rw [isNumber] at placed
  refine ⟨_, isEntry, few, ?_⟩
  dsimp only
  unfold symbolOf
  rw [placed, ← sound.length]
  exact (List.getElem?_eq_some_iff.1 isLength).1

/-- The table of an accepted code of code lengths. -/
theorem lengthTable_ok
    {code : CodeLengthCode}
    (sound : code.Sound)
    (accepted : code.numCodes = 1 ∨ code.space = 0) :
    ∃ counts size table,
      countLengths code.lengths = .ok counts ∧
        buildHuffmanTable (newTable 32) 5 code.lengths counts =
            .ok (size, table) ∧
        size ≠ 0 ∧ LengthTable table := by
  have bounded :
      ∀ codeLength ∈ code.lengths, codeLength ≤ prefixMaxBits :=
    fun codeLength member =>
      Nat.le_trans (sound.bounded codeLength member) (by decide)
  have few : code.lengths.length < 2 ^ 16 := by
    rw [sound.length]
    decide
  obtain ⟨counts, isCounts, lengths, counted⟩ := countLengths_ok bounded few
  rcases accepted with single | filled
  · have short : code.lengths.length ≤ prefixMaxAlphabetSize := by
      rw [sound.length]
      decide
    rw [sound.numCodes] at single
    obtain ⟨symbol, inside, isTable⟩ :=
      @buildHuffmanTable_single code.lengths counts 5 bounded short single lengths
        counted (newTable 32) (by decide)
    rw [sound.length] at inside
    refine ⟨counts, _, _, isCounts, isTable, by decide, ?_⟩
    intro entry inRoot
    have inReplicate : entry < 2 ^ 5 := inRoot
    refine ⟨⟨0, symbol⟩, ?_, Nat.zero_le 5, inside⟩
    rw [List.getElem?_append_left (by rw [List.length_replicate]; exact inReplicate),
      List.getElem?_replicate, if_pos inReplicate]
  · obtain ⟨size, table, isTable, some, isLengths⟩ :=
      lengthTable_complete sound filled lengths counted
    exact ⟨counts, size, table, isCounts, isTable, some, isLengths⟩

end Table

end Jxlz
