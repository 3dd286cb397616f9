import Jxlz.Entropy.HuffmanBuild

namespace Jxlz

open AnsParams BitReversal BitString CanonicalCode

/-!
# Symbols of a canonical code

A canonical code numbers the codewords of each length in the order of their
symbols, and starts behind the codewords of the lengths before it.  The tables
of a complete one take every input to the symbol whose codeword it starts with.
-/

/-- The codeword of a symbol, as a number of its length. -/
def codewordOf
    (codeLengths : List Nat)
    (symbol len : Nat) :
    Nat :=
  ∑ shorter ∈ Finset.Ico 1 len,
      codeLengths.count shorter * 2 ^ (len - shorter) +
    (codeLengths.take symbol).count len

/-- An input starts with the codeword of a symbol, its first bit first. -/
def StartsWith
    (codeLengths : List Nat)
    (source : Nat → Bool)
    (symbol len : Nat) :
    Prop :=
  codeLengths[symbol]? = some len ∧ 0 < len ∧
    valueAt source len = reverse len (codewordOf codeLengths symbol len)

section Inputs

variable {codeLengths : List Nat}
variable {source : Nat → Bool}

/-- The number of a longer input starts with that of a shorter one. -/
theorem valueAt_mod
    {short long : Nat}
    (ordered : short ≤ long) :
    valueAt source long % 2 ^ short = valueAt source short := by
  refine eq_of_low_bits (Nat.mod_lt _ (by positivity)) (valueAt_lt _ _) ?_
  intro index inside
  rw [Nat.testBit_mod_two_pow, testBit_valueAt _ inside,
    testBit_valueAt _ (Nat.lt_of_lt_of_le inside ordered), decide_eq_true inside,
    Bool.true_and]

theorem valueAt_advance
    (first second : Nat) :
    valueAt (advance source first) second =
      valueAt source (first + second) / 2 ^ first := by
  have small : valueAt source (first + second) / 2 ^ first < 2 ^ second := by
    rw [Nat.div_lt_iff_lt_mul (by positivity), ← Nat.pow_add, Nat.add_comm second]
    exact valueAt_lt _ _
  refine eq_of_low_bits (valueAt_lt _ _) small ?_
  intro index inside
  rw [testBit_valueAt _ inside, ← Nat.shiftRight_eq_div_pow, Nat.testBit_shiftRight,
    testBit_valueAt _ (by omega)]
  rfl

/-- An item that is there often enough is there for each number. -/
theorem exists_occurrence
    {items : List Nat}
    {item i : Nat}
    (counted : i < items.count item) :
    ∃ place, items[place]? = some item ∧ (items.take place).count item = i := by
  induction items generalizing i with
  | nil =>
      rw [List.count_nil] at counted
      omega
  | cons first items inductionHypothesis =>
      by_cases same : first = item
      · subst same
        rw [List.count_cons_self] at counted
        cases i with
        | zero =>
            exact ⟨0, rfl, rfl⟩
        | succ i =>
            obtain ⟨place, isItem, before⟩ :=
              @inductionHypothesis i (by omega)
            refine ⟨place + 1, isItem, ?_⟩
            rw [List.take_succ_cons, List.count_cons_self, before]
      · rw [List.count_cons_of_ne same] at counted
        obtain ⟨place, isItem, before⟩ := inductionHypothesis counted
        refine ⟨place + 1, isItem, ?_⟩
        rw [List.take_succ_cons, List.count_cons_of_ne same, before]

/-- A later occurrence has a larger number. -/
theorem occurrence_lt
    {items : List Nat}
    {item first second : Nat}
    (isItem : items[first]? = some item)
    (before : first < second) :
    (items.take first).count item < (items.take second).count item := by
  have inTake : (items.take second)[first]? = some item := by
    rwa [List.getElem?_take_of_lt before]
  have counted := count_take_lt inTake
  rwa [List.take_take, Nat.min_eq_left (Nat.le_of_lt before)] at counted

/-- A symbol has the codeword of its length and number. -/
theorem isCode_of_symbol
    {symbol len : Nat}
    (bounded : ∀ codeLength ∈ codeLengths, codeLength ≤ prefixMaxBits)
    (isLength : codeLengths[symbol]? = some len)
    (coded : 0 < len) :
    IsCode prefixMaxBits (lengthCount codeLengths) len
      ((codeLengths.take symbol).count len) :=
  ⟨coded, bounded len (List.mem_of_getElem? isLength), count_take_lt isLength⟩

/-- The key of a symbol is its codeword with the first bit first. -/
theorem key_eq_codeword
    {len : Nat}
    (bounded : len ≤ prefixMaxBits)
    (symbol : Nat) :
    key prefixMaxBits (lengthCount codeLengths) len
        ((codeLengths.take symbol).count len) =
      reverse len (codewordOf codeLengths symbol len) :=
  key_eq bounded _

/-- Every input starts with the codeword of exactly one symbol. -/
theorem existsUnique_startsWith
    (bounded : ∀ codeLength ∈ codeLengths, codeLength ≤ prefixMaxBits)
    (complete : Complete prefixMaxBits (lengthCount codeLengths))
    (source : Nat → Bool) :
    ∃ symbol len,
      StartsWith codeLengths source symbol len ∧
        ∀ symbol' len',
          StartsWith codeLengths source symbol' len' →
          symbol' = symbol ∧ len' = len := by
  have small := reverse_lt prefixMaxBits (valueAt source prefixMaxBits)
  have starts :
      ∀ (symbol len : Nat),
        codeLengths[symbol]? = some len →
        0 < len →
        (valueAt source len = reverse len (codewordOf codeLengths symbol len) ↔
          Holds prefixMaxBits (lengthCount codeLengths) len
            ((codeLengths.take symbol).count len)
            (reverse prefixMaxBits (valueAt source prefixMaxBits))) := by
    intro symbol len isLength coded
    have isCode := isCode_of_symbol bounded isLength coded
    rw [isCode.holds_iff complete, valueAt_mod isCode.bounded,
      key_eq_codeword isCode.bounded]
  obtain ⟨len, i, isCode, holds⟩ := exists_holds complete small
  obtain ⟨symbol, isLength, isNumber⟩ := exists_occurrence isCode.counted
  refine ⟨symbol, len, ⟨isLength, isCode.positive, ?_⟩, ?_⟩
  · rw [starts symbol len isLength isCode.positive, isNumber]
    exact holds
  · rintro symbol' len' ⟨isLength', coded', starts'⟩
    rw [starts symbol' len' isLength' coded'] at starts'
    obtain ⟨rfl, same⟩ :=
      holds_unique (isCode_of_symbol bounded isLength' coded') isCode starts' holds
    refine ⟨?_, rfl⟩
    rw [← isNumber] at same
    rcases Nat.lt_trichotomy symbol' symbol with before | equal | after
    · have apart := occurrence_lt isLength' before
      omega
    · exact equal
    · have apart := occurrence_lt isLength after
      omega

end Inputs

section Reading

variable {codeLengths sorted : List Nat}
variable {size : Nat}
variable {table : List HuffmanCode}

/-- The next symbol of a reader is the one whose codeword comes next. -/
theorem readSymbol_starts
    {symbol len : Nat}
    (bounded : ∀ codeLength ∈ codeLengths, codeLength ≤ prefixMaxBits)
    (built : Built codeLengths huffmanTableBits sorted size table)
    {br : BitReader}
    (isOpen : br.closeCalled = false)
    (starts : StartsWith codeLengths br.source symbol len) :
    ∃ after,
      HuffmanCode.readSymbol (table.take size) br.refill = .ok (symbol, after) ∧
        BitReader.Advanced br after len := by
  obtain ⟨isLength, coded, spelled⟩ := starts
  have isCode := isCode_of_symbol bounded isLength coded
  have small := isCode.bounded
  rw [← key_eq_codeword small] at spelled
  have isSymbol :
      symbolOf (lengthCount codeLengths) sorted len
          ((codeLengths.take symbol).count len) =
        symbol :=
    built.placed symbol len isLength coded
  have found := built.found len _ isCode
  have refilled := br.refill_advanced
  have full := br.refill_full
  have refilledOpen : br.refill.closeCalled = false :=
    refilled.sameClose.trans isOpen
  have sameSource : br.refill.source = br.source := by
    rw [refilled.source_eq, advance_zero]
  generalize br.refill = reader at refilled full refilledOpen sameSource
  unfold BitReader.kMaxBitsPerCall at full
  unfold prefixMaxBits at small
  have peeked :=
    @BitReader.peekBits_ok reader huffmanTableBits refilledOpen (by decide)
      (Nat.le_trans (by decide) full)
  have inRoot := valueAt_lt reader.source huffmanTableBits
  have rootInside := built.root
  have inTable := built.inside
  have taken :
      ∀ (place : Nat) (code : HuffmanCode),
        table[place]? = some code →
        place < size → index (table.take size) place = .ok code := by
    intro place code isEntry inside
    rw [index_eq_ok, List.getElem?_take_of_lt inside]
    exact isEntry
  rw [← sameSource] at spelled
  unfold HuffmanCode.readSymbol
  rw [peeked, ok_bind]
  rcases Nat.lt_or_ge huffmanTableBits len with long | short
  · obtain ⟨bits, start, second⟩ := found.long long
    have behind := second.behind
    have inside := second.inside
    have wide := second.wide
    have narrow := second.bounded
    have isEntry := second.entry
    have rootBefore := Nat.le_trans (Nat.le_of_lt inRoot) behind
    unfold prefixMaxBits at narrow
    have isRoot :
        valueAt reader.source huffmanTableBits =
          key prefixMaxBits (lengthCount codeLengths) len
              ((codeLengths.take symbol).count len) %
            2 ^ huffmanTableBits := by
      rw [← spelled, valueAt_mod (Nat.le_of_lt long)]
    rw [← isRoot] at isEntry
    obtain ⟨middle, consumed, advanced, left⟩ :=
      @BitReader.consume_ok reader huffmanTableBits refilledOpen
        (Nat.le_trans (by decide) full)
    have middleOpen : middle.closeCalled = false :=
      advanced.sameClose.trans refilledOpen
    unfold huffmanTableBits at long wide narrow behind left
    have rest :=
      @BitReader.peekBits_ok middle bits middleOpen
        (Nat.le_trans (by omega : bits ≤ 15) (by decide)) (by omega)
    rw [advanced.source_eq] at rest
    have isRest := valueAt_lt (advance reader.source huffmanTableBits) bits
    have atEntry :
        table[start + valueAt (advance reader.source huffmanTableBits) bits]? =
          some ⟨len - huffmanTableBits, symbol⟩ := by
      rw [← isSymbol]
      refine second.filled _ isRest ?_
      rw [← spelled, valueAt_mod (by unfold huffmanTableBits; omega),
        valueAt_advance]
      congr 2
      unfold huffmanTableBits
      omega
    have isPlace :
        valueAt reader.source huffmanTableBits +
              (start - valueAt reader.source huffmanTableBits) +
            valueAt (advance reader.source huffmanTableBits) bits =
          start + valueAt (advance reader.source huffmanTableBits) bits := by
      omega
    obtain ⟨after, finished, moved, _⟩ :=
      @BitReader.consume_ok middle (len - huffmanTableBits) middleOpen
        (by unfold huffmanTableBits; omega)
    rw [taken _ _ isEntry (by omega), ok_bind]
    dsimp only
    rw [if_pos (by unfold huffmanTableBits; omega), consumed, ok_bind,
      Nat.add_sub_cancel, rest, ok_bind, isPlace, taken _ _ atEntry (by omega),
      ok_bind, finished, ok_bind]
    refine ⟨after, rfl, ?_⟩
    have whole := (refilled.trans advanced).trans moved
    rwa [Nat.zero_add, Nat.add_sub_cancel' (by unfold huffmanTableBits; omega)]
      at whole
  · have isEntry :
        table[valueAt reader.source huffmanTableBits]? = some ⟨len, symbol⟩ := by
      rw [← isSymbol]
      refine found.short short _ inRoot ?_
      rw [valueAt_mod short, spelled]
    obtain ⟨after, consumed, advanced, _⟩ :=
      @BitReader.consume_ok reader len refilledOpen (by omega)
    rw [taken _ _ isEntry (by omega), ok_bind]
    dsimp only
    rw [if_neg (Nat.not_lt_of_le short), consumed, ok_bind]
    refine ⟨after, rfl, ?_⟩
    have whole := refilled.trans advanced
    rwa [Nat.zero_add] at whole

/-- The memory that the decoder takes has room for every code. -/
theorem room_of_length
    {codeLengths : List Nat}
    {memory : Nat}
    (short : codeLengths.length ≤ prefixMaxAlphabetSize)
    (isMemory : memory = codeLengths.length + 376) :
    Room (lengthCount codeLengths) huffmanTableBits memory := by
  have all := rank_le_length codeLengths (prefixMaxBits + 1)
  unfold prefixMaxAlphabetSize at short
  refine ⟨by decide, by decide, ?_, fun len i _ _ => ?_, by omega⟩
  · rw [isMemory, huffmanTableBits]
    omega
  · rw [isMemory]
    have root : 2 ^ huffmanTableBits = 256 := rfl
    have second : 2 ^ (prefixMaxBits - huffmanTableBits) = 128 := rfl
    have bits : prefixMaxBits - huffmanTableBits = 7 := rfl
    omega

end Reading

/--
The tables of a complete code of at most 4096 symbols are built in memory for
376 entries more than symbols, whatever it held before.  On any input the
reader then returns the one symbol whose codeword comes next, and consumes
exactly the codeword.
-/
theorem huffmanTable_decodes
    {codeLengths : List Nat}
    (short : codeLengths.length ≤ prefixMaxAlphabetSize)
    (bounded : ∀ codeLength ∈ codeLengths, codeLength ≤ prefixMaxBits)
    (kraft : kraftSum codeLengths = 2 ^ prefixMaxBits)
    {memory : List HuffmanCode}
    (isMemory : memory.length = codeLengths.length + 376) :
    ∃ counts size table,
      countLengths codeLengths = .ok counts ∧
        buildHuffmanTable memory huffmanTableBits codeLengths counts =
            .ok (size, table) ∧
        0 < size ∧ size ≤ codeLengths.length + 376 ∧
        ∀ br : BitReader,
          br.closeCalled = false →
          ∃ symbol len after,
            StartsWith codeLengths br.source symbol len ∧
              (∀ symbol' len',
                StartsWith codeLengths br.source symbol' len' →
                symbol' = symbol ∧ len' = len) ∧
              HuffmanCode.readSymbol (table.take size) br.refill =
                  .ok (symbol, after) ∧
              BitReader.Advanced br after len := by
  have complete := complete_of_kraftSum bounded kraft
  obtain ⟨counts, isCounts, lengths, counted⟩ :=
    countLengths_ok bounded (Nat.lt_of_le_of_lt short (by decide))
  obtain ⟨sorted, size, table, isTable, sameLength, built⟩ :=
    buildHuffmanTable_ok bounded short kraft lengths counted memory
      (room_of_length short isMemory)
  have root := built.root
  have inside := built.inside
  rw [sameLength, isMemory] at inside
  refine ⟨counts, size, table, isCounts, isTable,
    Nat.lt_of_lt_of_le (Nat.two_pow_pos huffmanTableBits) root, inside, ?_⟩
  intro br isOpen
  obtain ⟨symbol, len, starts, only⟩ :=
    existsUnique_startsWith bounded complete br.source
  obtain ⟨after, read, advanced⟩ := readSymbol_starts bounded built isOpen starts
  exact ⟨symbol, len, after, starts, only, read, advanced⟩

/-- A code with two codewords behind the root table. -/
theorem huffmanTable_decodes_ten :
    ∃ counts size table,
      countLengths [1, 2, 3, 4, 5, 6, 7, 8, 9, 9] = .ok counts ∧
        buildHuffmanTable (newTable 386) huffmanTableBits
            [1, 2, 3, 4, 5, 6, 7, 8, 9, 9] counts =
            .ok (size, table) ∧
        0 < size ∧ size ≤ 386 := by
  obtain ⟨counts, size, table, isCounts, isTable, positive, small, _⟩ :=
    @huffmanTable_decodes [1, 2, 3, 4, 5, 6, 7, 8, 9, 9] (by decide) (by decide)
      (by decide) (newTable 386) (List.length_replicate)
  exact ⟨counts, size, table, isCounts, isTable, positive, small⟩

end Jxlz
