import Jxlz.Entropy.DecodeHistograms
import Jxlz.Entropy.SymbolTables

namespace Jxlz

open AnsParams DecodeHistograms

/-!
# When prefix codes are read

Two constants do not go together with the alphabet sizes that the decoder
accepts.  A size is stored in 16 bits before it is compared with the largest
one, and the symbols of a code are sorted in storage for 4096 of them, while an
alphabet may have 32768.  Nothing else that the bits may say is out of range.
-/

section Simple

variable {br : BitReader}

/-- The symbols of a simple code are read from any bits. -/
theorem readSimpleSymbols_ok
    {alphabetSize maxBits : Nat}
    (short : maxBits ≤ 16)
    (count : Nat)
    (isOpen : br.closeCalled = false) :
    ∃ result,
      readSimpleSymbols alphabetSize maxBits count br = .ok result ∧
        ∀ symbols after,
          result = some (symbols, after) →
          (∀ symbol ∈ symbols, symbol < 2 ^ 16) ∧ after.closeCalled = false := by
  induction count generalizing br with
  | zero =>
      refine ⟨_, rfl, ?_⟩
      rintro _ _ ⟨⟩
      refine ⟨fun symbol member => ?_, isOpen⟩
      cases member
  | succ count inductionHypothesis =>
      obtain ⟨bits, after, read, fits, afterOpen⟩ :=
        @readBits_open br maxBits isOpen (Nat.le_trans short (by decide))
      have small : bits < 2 ^ 16 :=
        Nat.lt_of_lt_of_le fits (Nat.pow_le_pow_right Nat.two_pos short)
      rw [readSimpleSymbols, read, ok_bind]
      dsimp only
      rw [castU_ok small, ok_bind]
      by_cases outside : alphabetSize ≤ bits
      · rw [if_pos outside]
        refine ⟨none, rfl, ?_⟩
        rintro _ _ ⟨⟩
      · rw [if_neg outside]
        obtain ⟨others, readOthers, known⟩ := inductionHypothesis afterOpen
        rw [readOthers, ok_bind]
        cases others with
        | none =>
            refine ⟨none, rfl, ?_⟩
            rintro _ _ ⟨⟩
        | some pair =>
            obtain ⟨symbols, last⟩ := pair
            obtain ⟨allSmall, lastOpen⟩ := known symbols last rfl
            refine ⟨_, rfl, ?_⟩
            rintro _ _ ⟨⟩
            refine ⟨fun symbol member => ?_, lastOpen⟩
            rcases List.mem_cons.1 member with rfl | later
            · exact small
            · exact allSmall symbol later

/-- The replicated part has one, two, four or eight entries. -/
theorem simpleTable_length
    {deep : Nat}
    {symbols : List Nat}
    {base : List HuffmanCode}
    (isBase : simpleTable deep symbols = some base) :
    ∃ filled ≤ 3, base.length = 2 ^ filled := by
  unfold simpleTable at isBase
  split at isBase
  · cases isBase
    exact ⟨0, by decide, rfl⟩
  · cases isBase
    exact ⟨1, by decide, rfl⟩
  · cases isBase
    exact ⟨2, by decide, rfl⟩
  · split at isBase
    · split at isBase
      · cases isBase
        exact ⟨2, by decide, rfl⟩
      · cases isBase
    · cases isBase
      exact ⟨3, by decide, rfl⟩
  · cases isBase

theorem orderedPair_mem
    (first second : Nat) :
    (orderedPair first second).1 ∈ [first, second] ∧
      (orderedPair first second).2 ∈ [first, second] := by
  unfold orderedPair
  split
  · simp
  · simp

/-- The codes of a simple table are short, and its values are the symbols. -/
theorem simpleTable_codes
    {deep : Nat}
    {symbols : List Nat}
    {base : List HuffmanCode}
    (isBase : simpleTable deep symbols = some base) :
    ∀ code ∈ base, code.bits ≤ huffmanTableBits ∧ code.value ∈ symbols := by
  have short : 3 ≤ huffmanTableBits := by
    decide
  intro code member
  unfold simpleTable at isBase
  split at isBase
  next s0 =>
    cases isBase
    simp only [List.mem_singleton] at member
    subst member
    exact ⟨Nat.zero_le _, List.mem_singleton_self s0⟩
  next s0 s1 =>
    cases isBase
    obtain ⟨least, most⟩ := orderedPair_mem s0 s1
    simp only [List.mem_cons, List.not_mem_nil, or_false] at member
    rcases member with rfl | rfl
    · exact ⟨by dsimp only; omega, least⟩
    · exact ⟨by dsimp only; omega, most⟩
  next s0 s1 s2 =>
    cases isBase
    obtain ⟨least, most⟩ := orderedPair_mem s1 s2
    simp only [List.mem_cons, List.not_mem_nil, or_false] at member
    rcases member with rfl | rfl | rfl | rfl
    · exact ⟨by dsimp only; omega, List.mem_cons_self⟩
    · exact ⟨by dsimp only; omega, List.mem_cons_of_mem _ least⟩
    · exact ⟨by dsimp only; omega, List.mem_cons_self⟩
    · exact ⟨by dsimp only; omega, List.mem_cons_of_mem _ most⟩
  next s0 s1 s2 s3 =>
    split at isBase
    · have sorts := List.perm_insertionSort (· ≤ ·) [s0, s1, s2, s3]
      split at isBase
      next a b c d isSorted =>
        cases isBase
        rw [isSorted] at sorts
        simp only [List.mem_cons, List.not_mem_nil, or_false] at member
        rcases member with rfl | rfl | rfl | rfl
        all_goals
          refine ⟨by dsimp only; omega, sorts.mem_iff.1 ?_⟩
          simp
      next =>
        cases isBase
    · cases isBase
      obtain ⟨least, most⟩ := orderedPair_mem s2 s3
      have behind :
          ∀ symbol ∈ [s2, s3], symbol ∈ [s0, s1, s2, s3] := by
        intro symbol inTail
        exact List.mem_cons_of_mem _ (List.mem_cons_of_mem _ inTail)
      simp only [List.mem_cons, List.not_mem_nil, or_false] at member
      rcases member with rfl | rfl | rfl | rfl | rfl | rfl | rfl | rfl
      · exact ⟨by dsimp only; omega, by simp⟩
      · exact ⟨by dsimp only; omega, by simp⟩
      · exact ⟨by dsimp only; omega, by simp⟩
      · exact ⟨by dsimp only; omega, behind _ least⟩
      · exact ⟨by dsimp only; omega, by simp⟩
      · exact ⟨by dsimp only; omega, by simp⟩
      · exact ⟨by dsimp only; omega, by simp⟩
      · exact ⟨by dsimp only; omega, behind _ most⟩
  next =>
    cases isBase

/-- A simple code is read from any bits. -/
theorem readSimpleCode_ok
    {alphabetSize : Nat}
    (few : alphabetSize ≤ 2 ^ 15)
    (isOpen : br.closeCalled = false) :
    ∃ result,
      readSimpleCode alphabetSize br = .ok result ∧
        ∀ table after,
          result = some (table, after) →
          ReadsSymbols table ∧ after.closeCalled = false := by
  have short :
      (if 1 < alphabetSize then (alphabetSize - 1).log2 + 1 else 0) ≤ 16 := by
    split
    · have small : (alphabetSize - 1).log2 < 15 := by
        rw [Nat.log2_lt (by omega)]
        omega
      omega
    · exact Nat.zero_le _
  obtain ⟨numSymbols, br₁, read, _, open₁⟩ :=
    @readBits_open br 2 isOpen (by decide)
  obtain ⟨listed, readSymbols, known⟩ :=
    readSimpleSymbols_ok short (numSymbols + 1) open₁
  unfold readSimpleCode
  dsimp only
  rw [read, ok_bind]
  dsimp only
  rw [readSymbols, ok_bind]
  cases listed with
  | none =>
      refine ⟨none, rfl, ?_⟩
      rintro _ _ ⟨⟩
  | some pair =>
      obtain ⟨symbols, br₂⟩ := pair
      obtain ⟨small, open₂⟩ := known symbols br₂ rfl
      dsimp only
      by_cases once : symbols.Nodup
      · have shaped :
            ∃ deep br₃,
              readShape symbols.length br₂ = .ok (deep, br₃) ∧
                br₃.closeCalled = false := by
          unfold readShape
          split
          · obtain ⟨deep, br₃, readDeep, _, open₃⟩ :=
              @readBits_open br₂ 1 open₂ (by decide)
            exact ⟨deep, br₃, readDeep, open₃⟩
          · exact ⟨0, br₂, rfl, open₂⟩
        obtain ⟨deep, br₃, isShape, open₃⟩ := shaped
        rw [if_pos once, isShape, ok_bind]
        dsimp only
        cases isBase : simpleTable deep symbols with
        | none =>
            refine ⟨none, rfl, ?_⟩
            rintro _ _ ⟨⟩
        | some base =>
            obtain ⟨filled, atMost, isLength⟩ := simpleTable_length isBase
            have fits : 2 ^ filled ≤ 2 ^ huffmanTableBits :=
              Nat.pow_le_pow_right Nat.two_pos (Nat.le_trans atMost (by decide))
            obtain ⟨table, doubled, _, found⟩ :=
              @replicateRoot_ok filled huffmanTableBits
                (base ++ newTable (2 ^ huffmanTableBits - 2 ^ filled))
                (Nat.le_trans atMost (by decide)) (by
                  unfold newTable
                  rw [List.length_append, List.length_replicate, isLength]
                  omega)
            dsimp only
            rw [isLength, Nat.one_shiftLeft, doubled, ok_bind]
            refine ⟨_, rfl, ?_⟩
            rintro _ _ ⟨⟩
            have codes := simpleTable_codes isBase
            exact ⟨readsSymbols_replicated isLength
              (fun code member => (codes code member).1)
              (fun code member => small _ (codes code member).2) found, open₃⟩
      · rw [if_neg once]
        refine ⟨none, rfl, ?_⟩
        rintro _ _ ⟨⟩

end Simple

section Tables

variable {alphabetSize : Nat}
variable {codeLengths : List Nat}
variable {br after : BitReader}

/-- Accepted code lengths become a table if their symbols can be sorted. -/
theorem tableOfLengths_ok
    (accepted : Accepted alphabetSize codeLengths after)
    (short : alphabetSize ≤ prefixMaxAlphabetSize) :
    ∃ table,
      tableOfLengths codeLengths = .ok (some table) ∧ ReadsSymbols table := by
  have few : codeLengths.length ≤ prefixMaxAlphabetSize := by
    rwa [accepted.length]
  obtain ⟨counts, isCounts, lengths, counted⟩ :=
    countLengths_ok accepted.bounded (Nat.lt_of_le_of_lt few (by decide))
  obtain ⟨sorted, size, table, isTable, _, built⟩ :=
    buildHuffmanTable_ok accepted.bounded few accepted.kraft lengths counted
      (newTable (codeLengths.length + 376))
      (room_of_length few List.length_replicate)
  have some : size ≠ 0 := by
    have root := built.root
    have positive := Nat.two_pow_pos huffmanTableBits
    omega
  unfold tableOfLengths
  rw [isCounts, ok_bind, isTable, ok_bind]
  dsimp only
  rw [if_neg some]
  exact ⟨_, rfl, readsSymbols_built accepted.bounded
    (Nat.le_trans few (by decide)) accepted.kraft built⟩

/-- The storage of the sort stops more symbols. -/
theorem tableOfLengths_trap
    (accepted : Accepted alphabetSize codeLengths after)
    (many : prefixMaxAlphabetSize < alphabetSize)
    (few : alphabetSize ≤ 2 ^ 15) :
    tableOfLengths codeLengths = .error .trap := by
  have sameLength := accepted.length
  have small : codeLengths.length < 2 ^ 16 := by
    omega
  obtain ⟨counts, isCounts, lengths, counted⟩ :=
    countLengths_ok accepted.bounded small
  obtain ⟨offsets, isOffsets, _⟩ := symbolOffsets_ok lengths counted small
  have stops : ¬codeLengths.length ≤ prefixMaxAlphabetSize := by
    omega
  unfold tableOfLengths buildHuffmanTable
  rw [isCounts, ok_bind, if_neg, isOffsets, ok_bind]
  · unfold sortSymbols require
    rw [if_neg stops]
    rfl
  · have large : 1 <<< prefixMaxBits = 2 ^ 15 := rfl
    omega

end Tables

/--
A stored code that is accepted has at most 4096 symbols; a simple one may have
any number.
-/
def CodeFits
    (alphabetSize : Nat)
    (br : BitReader) :
    Prop :=
  prefixMaxAlphabetSize < alphabetSize →
    alphabetSize ≤ 1 <<< prefixMaxBits →
    ∀ simpleCodeOrSkip br',
      br.readBits 2 = .ok (simpleCodeOrSkip, br') →
      simpleCodeOrSkip ≠ 1 →
      ∀ codeLengths after,
        readCodeLengths alphabetSize simpleCodeOrSkip br' ≠
          .ok (some (codeLengths, after))

/-- The codes fit, each where the ones before it were accepted. -/
def TablesFit :
    List Nat → BitReader → Prop
  | [], _ => True
  | alphabetSize :: sizes, br =>
      if alphabetSize = 1 then
        TablesFit sizes br
      else
        CodeFits alphabetSize br ∧
          ∀ table after,
            readFromBitStream alphabetSize br = .ok (some (table, after)) →
            TablesFit sizes after

/-- The alphabet sizes fit 16 bits, each where the ones before it are allowed. -/
def AlphabetSizesFit
    (maxAlphabetSize : Nat) :
    Nat → BitReader → Prop
  | 0, _ => True
  | more + 1, br =>
      ∀ bits after,
        decodeVarLenUint16 br.refill = .ok (bits, after) →
        bits + 1 < 2 ^ 16 ∧
          (bits + 1 ≤ maxAlphabetSize →
            AlphabetSizesFit maxAlphabetSize more after)

/-- What the prefix codes of all histograms need. -/
def PrefixCodesFit
    (numHistograms : Nat)
    (br : BitReader) :
    Prop :=
  AlphabetSizesFit (1 <<< prefixMaxBits) numHistograms br ∧
    ∀ sizes after,
      readAlphabetSizes (1 <<< prefixMaxBits) numHistograms br =
          .ok (sizes, after) →
      TablesFit sizes after

section Codes

variable {alphabetSize maxAlphabetSize numHistograms : Nat}
variable {sizes : List Nat}
variable {br : BitReader}

/-- A number of variable length is read from any bits. -/
theorem decodeVarLen_open
    {lengthBits : Nat}
    (short : lengthBits ≤ 4)
    (isOpen : br.closeCalled = false) :
    ∃ value after,
      decodeVarLen lengthBits br = .ok (value, after) ∧
        after.closeCalled = false := by
  obtain ⟨present, br₁, readPresent, _, open₁⟩ :=
    @readBits_open br 1 isOpen (by decide)
  unfold decodeVarLen
  rw [readPresent, ok_bind]
  dsimp only
  split
  · obtain ⟨nbits, br₂, readLength, isShort, open₂⟩ :=
      @readBits_open br₁ lengthBits open₁ (Nat.le_trans short (by decide))
    have few : nbits < 2 ^ 4 :=
      Nat.lt_of_lt_of_le isShort (Nat.pow_le_pow_right Nat.two_pos short)
    rw [readLength, ok_bind]
    dsimp only
    split
    · exact ⟨_, _, rfl, open₂⟩
    · obtain ⟨rest, br₃, readRest, _, open₃⟩ :=
        @readBits_open br₂ nbits open₂
          (Nat.le_trans (Nat.le_of_lt few) (by decide))
      rw [readRest, ok_bind]
      exact ⟨_, _, rfl, open₃⟩
  · exact ⟨_, _, rfl, open₁⟩

/-- A code is read, or rejected, exactly if it fits; its table reads symbols. -/
theorem readFromBitStream_iff
    (isOpen : br.closeCalled = false) :
    (Returns (readFromBitStream alphabetSize br) ↔ CodeFits alphabetSize br) ∧
      ∀ table after,
        readFromBitStream alphabetSize br = .ok (some (table, after)) →
        ReadsSymbols table ∧ after.closeCalled = false := by
  have largest : 1 <<< prefixMaxBits = 2 ^ 15 := rfl
  obtain ⟨kind, br₁, readKind, _, open₁⟩ := @readBits_open br 2 isOpen (by decide)
  unfold readFromBitStream CodeFits
  by_cases tooLarge : 1 <<< prefixMaxBits < alphabetSize
  · rw [if_pos tooLarge]
    refine ⟨⟨fun _ _ allowed => ?_, fun _ => within_ok none⟩, ?_⟩
    · omega
    · rintro _ _ ⟨⟩
  · have few : alphabetSize ≤ 2 ^ 15 := by
      omega
    rw [if_neg tooLarge, readKind, ok_bind]
    dsimp only
    by_cases simple : kind = 1
    · obtain ⟨result, read, known⟩ := readSimpleCode_ok few open₁
      rw [if_pos simple, read]
      refine ⟨⟨fun _ _ _ other br' isKind stored => ?_, fun _ => within_ok result⟩,
        ?_⟩
      · cases isKind
        exact (stored simple).elim
      · intro table after returned
        cases returned
        exact known table after rfl
    · obtain ⟨lengths, read, known⟩ := readCodeLengths_ok few kind open₁
      rw [if_neg simple, read, ok_bind]
      cases lengths with
      | none =>
          refine ⟨⟨fun _ _ _ other br' isKind _ codeLengths after accepted => ?_,
            fun _ => within_ok none⟩, ?_⟩
          · cases isKind
            rw [read] at accepted
            cases accepted
          · rintro _ _ ⟨⟩
      | some pair =>
          obtain ⟨codeLengths, last⟩ := pair
          have accepted := known codeLengths last rfl
          dsimp only
          by_cases short : alphabetSize ≤ prefixMaxAlphabetSize
          · obtain ⟨table, isTable, reads⟩ := tableOfLengths_ok accepted short
            rw [isTable, ok_bind]
            refine ⟨⟨fun _ many => ?_, fun _ => within_ok (some (table, last))⟩, ?_⟩
            · omega
            · rintro _ _ ⟨⟩
              exact ⟨reads, accepted.isOpen⟩
          · have many : prefixMaxAlphabetSize < alphabetSize := by
              omega
            rw [tableOfLengths_trap accepted many few, error_bind]
            refine ⟨⟨fun returns => (not_returns_trap returns).elim, fun fits => ?_⟩,
              ?_⟩
            · exact (fits many (by omega) kind br₁ rfl simple codeLengths last
                read).elim
            · rintro _ _ ⟨⟩

/-- The tables are read exactly if all codes fit. -/
theorem readHuffmanTables_iff
    (isOpen : br.closeCalled = false) :
    Returns (readHuffmanTables sizes br) ↔ TablesFit sizes br := by
  induction sizes generalizing br with
  | nil =>
      exact ⟨fun _ => trivial, fun _ => within_ok _⟩
  | cons alphabetSize sizes inductionHypothesis =>
      rw [readHuffmanTables, TablesFit]
      by_cases single : alphabetSize = 1
      · rw [if_pos single, if_pos single, ← inductionHypothesis isOpen, Returns,
          within_bind]
        exact ⟨fun parts => parts.1, fun within => ⟨within, fun _ _ => within_ok _⟩⟩
      · obtain ⟨fits, known⟩ := @readFromBitStream_iff alphabetSize br isOpen
        rw [if_neg single, if_neg single, Returns, within_bind, ← fits]
        refine and_congr_right fun _ => ?_
        constructor
        · intro later table after returned
          rw [← inductionHypothesis (known table after returned).2]
          have rest := later _ returned
          dsimp only at rest
          exact (within_bind.1 rest).1
        · intro later result returned
          cases result with
          | none =>
              exact returns_fail .GenericError
          | some pair =>
              obtain ⟨table, after⟩ := pair
              have rest := later table after returned
              rw [← inductionHypothesis (known table after returned).2] at rest
              exact rest.bind fun _ _ => within_ok _

/-- The alphabet sizes are read exactly if they fit. -/
theorem readAlphabetSizes_iff
    (isOpen : br.closeCalled = false) :
    (Returns (readAlphabetSizes maxAlphabetSize numHistograms br) ↔
        AlphabetSizesFit maxAlphabetSize numHistograms br) ∧
      ∀ sizes after,
        readAlphabetSizes maxAlphabetSize numHistograms br = .ok (sizes, after) →
        after.closeCalled = false := by
  induction numHistograms generalizing br with
  | zero =>
      refine ⟨⟨fun _ => trivial, fun _ => within_ok _⟩, ?_⟩
      rintro _ _ ⟨⟩
      exact isOpen
  | succ numHistograms inductionHypothesis =>
      obtain ⟨bits, br₁, read, open₁⟩ :=
        @decodeVarLen_open br.refill 4 (Nat.le_refl 4) (refill_open isOpen)
      obtain ⟨fits, keepsOpen⟩ := inductionHypothesis open₁
      have isRead : decodeVarLenUint16 br.refill = .ok (bits, br₁) := read
      have onlyRead :
          AlphabetSizesFit maxAlphabetSize (numHistograms + 1) br ↔
            bits + 1 < 2 ^ 16 ∧
              (bits + 1 ≤ maxAlphabetSize →
                AlphabetSizesFit maxAlphabetSize numHistograms br₁) := by
        rw [AlphabetSizesFit]
        constructor
        · intro all
          exact all bits br₁ isRead
        · intro own other after isOther
          rw [isRead] at isOther
          cases isOther
          exact own
      rw [onlyRead, readAlphabetSizes, isRead, ok_bind]
      dsimp only
      by_cases small : bits + 1 < 2 ^ 16
      · rw [castU_ok small, ok_bind]
        by_cases tooLarge : maxAlphabetSize < bits + 1
        · rw [if_pos tooLarge]
          refine ⟨⟨fun _ => ⟨small, fun allowed => ?_⟩,
            fun _ => returns_fail .GenericError⟩, ?_⟩
          · omega
          · rintro _ _ ⟨⟩
        · rw [if_neg tooLarge]
          refine ⟨?_, ?_⟩
          · rw [Returns, within_bind]
            constructor
            · intro parts
              exact ⟨small, fun _ => fits.1 parts.1⟩
            · intro parts
              exact ⟨fits.2 (parts.2 (by omega)), fun _ _ => within_ok _⟩
          · intro sizes after returned
            obtain ⟨rest, isRest, returned⟩ := bind_eq_ok.1 returned
            cases returned
            exact keepsOpen rest.1 rest.2 isRest
      · unfold castU
        rw [if_neg small, error_bind]
        refine ⟨⟨fun returns => (not_returns_trap returns).elim, fun parts => ?_⟩, ?_⟩
        · exact (small parts.1).elim
        · rintro _ _ ⟨⟩

end Codes

/--
From any bits the prefix codes of the histograms are read or rejected, exactly
if no alphabet size takes 17 bits and no code of more than 4096 symbols stores
code lengths that are accepted.
-/
theorem readPrefixCodes_returns_iff
    (numHistograms : Nat)
    {br : BitReader}
    (isOpen : br.closeCalled = false) :
    Returns (readPrefixCodes numHistograms br) ↔
      PrefixCodesFit numHistograms br := by
  obtain ⟨fits, keepsOpen⟩ :=
    @readAlphabetSizes_iff (1 <<< prefixMaxBits) numHistograms br isOpen
  unfold readPrefixCodes PrefixCodesFit
  rw [Returns, within_bind, ← fits]
  refine and_congr_right fun _ => ?_
  constructor
  · intro later sizes after returned
    rw [← readHuffmanTables_iff (keepsOpen sizes after returned)]
    exact later _ returned
  · rintro later ⟨sizes, after⟩ returned
    have rest := later sizes after returned
    rwa [← readHuffmanTables_iff (keepsOpen sizes after returned)] at rest

/-- One histogram with one symbol. -/
theorem readPrefixCodes_returns_iff_zeros :
    (BitReader.init (List.replicate 24 0)).closeCalled = false ∧
      (Returns (readPrefixCodes 1 (BitReader.init (List.replicate 24 0))) ↔
        PrefixCodesFit 1 (BitReader.init (List.replicate 24 0))) :=
  have isOpen : (BitReader.init (List.replicate 24 0)).closeCalled = false := by
    decide +kernel
  ⟨isOpen, readPrefixCodes_returns_iff 1 isOpen⟩

/--
Two inputs stop the decoder, at the start of the prefix codes or of the whole
code.  The first stores 4097 symbols, two of them with codes of one bit, and the
second an alphabet of 65536 symbols.
-/
theorem readPrefixCodes_traps :
    (¬Returns
          (readPrefixCodes 1 (BitReader.init ([25, 0, 8] ++ List.replicate 21 0))) ∧
        ¬Returns (readPrefixCodes 1 (BitReader.init (List.replicate 24 255)))) ∧
      ¬Returns
          (decodeHistograms 1
            (BitReader.init ([126, 6, 0, 2] ++ List.replicate 20 0))) ∧
      ¬Returns (decodeHistograms 1 (BitReader.init (254 :: List.replicate 20 255))) := by
  have stopped :
      ∀ {α : Type} {run : Checked α},
        (run >>= fun _ => (.ok () : Checked Unit)) = .error .trap →
        ¬Returns run := by
    intro α run stops returns
    have ends : Returns (run >>= fun _ => (.ok () : Checked Unit)) :=
      returns.bind fun _ _ => within_ok ()
    rw [stops] at ends
    exact not_returns_trap ends
  refine ⟨⟨?_, ?_⟩, ?_, ?_⟩
  all_goals exact stopped (by decide +kernel)

end Jxlz
