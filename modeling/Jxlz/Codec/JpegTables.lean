import Jxlz.Codec.JpegReconstruction
import Jxlz.Codec.JpegWriter
import Jxlz.Lib.CanonicalCode

namespace Jxlz.JpegWriter

open JpegReconstruction (Data Huffman)
open CanonicalCode (rank IsCode)

/-!
# What a table segment says

The tables that are kept for coding hold the canonical code of the counts and symbols
that were written, and the bytes of a segment are these counts and symbols; a code with
words of length zero adds one byte for each of them.
-/

/-! ## Tables -/

/-- A table as it stands in a segment: a slot, sixteen counts and the symbols. -/
structure Definition where
  slot : UInt8
  counts : List UInt8
  symbols : List UInt8
  deriving Repr, DecidableEq

/-- The number of words of a length. -/
def Definition.count
    (definition : Definition)
    (len : Nat) :
    Nat :=
  (definition.counts.getD (len - 1) 0).toNat

/-- As many symbols as the counts add up to. -/
structure Definition.WellFormed
    (definition : Definition) :
    Prop where
  lengths : definition.counts.length = 16
  symbols : definition.symbols.length = (definition.counts.map UInt8.toNat).sum

def Definition.bytes
    (definition : Definition) :
    List UInt8 :=
  definition.slot :: definition.counts ++ definition.symbols

/-- The tables of a segment; there are at most so many. -/
def readTables : Nat → List UInt8 → Option (List Definition)
  | _, [] => some []
  | 0, _ :: _ => none
  | left + 1, slot :: bytes =>
      let counts := bytes.take 16
      let number := (counts.map UInt8.toNat).sum
      let symbols := (bytes.drop 16).take number
      if counts.length = 16 ∧ symbols.length = number then
        (readTables left ((bytes.drop 16).drop number)).map fun later =>
          { slot := slot, counts := counts, symbols := symbols } :: later
      else
        none

/--
A table holds exactly the canonical code of a definition: each codeword with its length
for its symbol, and no codeword for any other symbol.  Every codeword fits its length,
and none starts with another.
-/
structure Definition.Describes
    (definition : Definition)
    (table : Table) :
    Prop where
  distinct : definition.symbols.Nodup
  coded :
    ∀ len i,
      IsCode 16 definition.count len i →
      ∃ symbol,
        definition.symbols[rank definition.count len i]? = some symbol ∧
          table.depths[symbol.toNat]? = some len ∧
          table.codes[symbol.toNat]? = some (CanonicalCode.word definition.count len i)
  others :
    ∀ symbol : UInt8,
      symbol ∉ definition.symbols → table.depths[symbol.toNat]? = some 0
  fits :
    ∀ len i,
      IsCode 16 definition.count len i →
      CanonicalCode.word definition.count len i < 2 ^ len
  free :
    ∀ len i len' i',
      IsCode 16 definition.count len i →
      IsCode 16 definition.count len' i' →
      len ≤ len' →
      CanonicalCode.word definition.count len' i' / 2 ^ (len' - len) =
          CanonicalCode.word definition.count len i →
      len = len' ∧ i = i'

theorem sum_getD
    (items : List Nat) :
    ∑ i ∈ Finset.range items.length, items.getD i 0 = items.sum := by
  induction items with
  | nil =>
      rfl
  | cons first items inductionHypothesis =>
      rw [List.length_cons, Finset.sum_range_succ', List.sum_cons, ← inductionHypothesis,
        Nat.add_comm]
      rfl

theorem Definition.length_bytes
    {definition : Definition}
    (wellFormed : definition.WellFormed) :
    definition.bytes.length = 17 + definition.symbols.length := by
  unfold Definition.bytes
  rw [List.length_append, List.length_cons, wellFormed.lengths]

/-- The number of all codewords. -/
theorem Definition.rank_all
    {definition : Definition}
    (lengths : definition.counts.length = 16) :
    rank definition.count 17 0 = (definition.counts.map UInt8.toNat).sum := by
  unfold rank Definition.count
  rw [Nat.add_zero, Finset.sum_Ico_eq_sum_range, ← sum_getD, List.length_map, lengths]
  refine Finset.sum_congr rfl fun i _ => ?_
  rw [Nat.add_sub_cancel_left, List.getD_eq_getElem?_getD, List.getD_eq_getElem?_getD,
    List.getElem?_map]
  cases definition.counts[i]? <;> rfl

/-! ## One code -/

/-- The number of words of a length that the writer gives to symbols. -/
def held
    (code : Huffman)
    (last len : Nat) :
    Nat :=
  code.counts.getD len 0 - if len = last then 1 else 0

/-- The table that the writer makes of a code. -/
def definitionOf
    (code : Huffman)
    (last : Nat) :
    Definition :=
  let counts := (List.range' 1 16).map fun len => UInt8.ofNat (held code last len)
  {
    slot := UInt8.ofNat code.slot_id
    counts
    symbols := (code.values.take (counts.map UInt8.toNat).sum).map UInt8.ofNat }

/--
The words before one have their places in the table.  `len` and `i` name the word that
comes next.
-/
structure Coded
    (code : Huffman)
    (count : Nat → Nat)
    (len i : Nat)
    (state : Coding) :
    Prop where
  pos : state.pos = rank count len i
  next : state.code = CanonicalCode.word count len i
  bounded : state.code ≤ 2 ^ len
  depths : state.table.depths.length = 256
  codes : state.table.codes.length = 256
  small :
    ∀ number : Nat,
      number < state.pos → ∃ value, code.values[number]? = some value ∧ value < 256
  entered :
    ∀ len' i',
      1 ≤ len' →
      i' < count len' →
      (len' < len ∨ len' = len ∧ i' < i) →
      CanonicalCode.word count len' i' < 2 ^ len' ∧
        ∃ value,
          code.values[rank count len' i']? = some value ∧
            state.table.depths[value]? = some len' ∧
            state.table.codes[value]? = some (CanonicalCode.word count len' i')
  others :
    ∀ value < 256,
      value ∉ code.values.take state.pos → state.table.depths[value]? = some 0

variable {code : Huffman} {count : Nat → Nat}

/-- The next symbol gets the next word, and the other symbols keep theirs. -/
theorem Coded.symbol
    {len i total : Nat}
    {self next : Coding}
    (coded : Coded code count len i self)
    (distinct : (code.values.take total).Nodup)
    (inside : rank count len i < total)
    (short : len ≤ 16)
    (ran : codeSymbol code len self = .ok next) :
    Coded code count len (i + 1) next ∧ next.out = self.out := by
  unfold codeSymbol at ran
  obtain ⟨value, isValue, ran⟩ := bind_eq_ok.1 ran
  rw [index_eq_ok] at isValue
  split at ran
  next =>
    cases ran
  next fits =>
    rw [not_or, Nat.not_le, Nat.not_le, Nat.one_shiftLeft] at fits
    obtain ⟨byte, below⟩ := fits
    obtain ⟨depth, isDepth, ran⟩ := bind_eq_ok.1 ran
    obtain ⟨depths, areDepths, ran⟩ := bind_eq_ok.1 ran
    obtain ⟨word, isWord, ran⟩ := bind_eq_ok.1 ran
    obtain ⟨codes, areCodes, ran⟩ := bind_eq_ok.1 ran
    obtain ⟨more, isMore, ran⟩ := bind_eq_ok.1 ran
    cases ran
    obtain rfl := (castU_eq_ok isDepth).1.symm
    obtain rfl := (castU_eq_ok isWord).1
    obtain rfl := (addU_eq_ok isMore).1
    rw [store_ok (by rw [coded.depths]; exact byte)] at areDepths
    rw [store_ok (by rw [coded.codes]; exact byte)] at areCodes
    cases areDepths
    cases areCodes
    have isPos := coded.pos
    -- The symbols before are others than this one.
    have apart : ∀ (number : Nat) other, number < self.pos →
        code.values[number]? = some other → other ≠ value := by
      rintro number other before isOther rfl
      have first : (code.values.take total)[number]? = some other := by
        rw [List.getElem?_take_of_lt (by omega), isOther]
      have second : (code.values.take total)[self.pos]? = some other := by
        rw [List.getElem?_take_of_lt (by omega), isValue]
      have same := List.nodup_iff_getElem?_ne_getElem?.1 distinct number self.pos before
        (List.getElem?_eq_some_iff.1 second).1
      exact same (first.trans second.symm)
    refine ⟨{
      pos := by rw [isPos]; rfl
      next := by rw [coded.next]; rfl
      bounded := below
      depths := by rw [List.length_set, coded.depths]
      codes := by rw [List.length_set, coded.codes]
      small := ?_
      entered := ?_
      others := ?_ }, rfl⟩
    · intro number before
      rcases Nat.lt_succ_iff_lt_or_eq.1 before with earlier | rfl
      · exact coded.small number earlier
      · exact ⟨value, isValue, byte⟩
    · intro len' i' positive counted earlier
      by_cases same : len' = len ∧ i' = i
      · obtain ⟨rfl, rfl⟩ := same
        rw [← coded.next, ← isPos]
        refine ⟨below, value, isValue, ?_, ?_⟩
        · exact List.getElem?_set_self (by rw [coded.depths]; exact byte)
        · exact List.getElem?_set_self (by rw [coded.codes]; exact byte)
      · have before : len' < len ∨ len' = len ∧ i' < i := by
          omega
        obtain ⟨small, other, isOther, itsDepth, itsCode⟩ :=
          coded.entered len' i' positive counted before
        have rankLt := CanonicalCode.rank_lt_rank positive counted before
        have differs := apart _ other (by rw [isPos]; exact rankLt) isOther
        refine ⟨small, other, isOther, ?_, ?_⟩
        · rw [List.getElem?_set_ne differs.symm]
          exact itsDepth
        · rw [List.getElem?_set_ne differs.symm]
          exact itsCode
    · intro other small absent
      rw [List.take_add_one, isValue] at absent
      simp only [Option.toList_some, List.mem_append, List.mem_singleton, not_or] at absent
      rw [List.getElem?_set_ne (Ne.symm absent.2)]
      exact coded.others other small absent.1

/-- All words of a length; the next length starts with twice the next word. -/
theorem Coded.length
    {last len total : Nat}
    {self next : Coding}
    (coded : Coded code count len 0 self)
    (distinct : (code.values.take total).Nodup)
    (positive : 1 ≤ len)
    (short : len ≤ 16)
    (agrees : held code last len < 256 → count len = held code last len)
    (inside : rank count (len + 1) 0 ≤ total)
    (ran : codeLength code last self len = .ok next) :
    Coded code count (len + 1) 0 next ∧
      next.out = self.out ++ [UInt8.ofNat (held code last len)] ∧
      held code last len < 256 := by
  unfold codeLength at ran
  obtain ⟨number, isNumber, ran⟩ := bind_eq_ok.1 ran
  obtain ⟨words, areWords, ran⟩ := bind_eq_ok.1 ran
  rw [index_eq_ok] at isNumber
  obtain ⟨isHeld, -⟩ := subU_eq_ok areWords
  have sameHeld : words = held code last len := by
    unfold held
    rw [isHeld, List.getD_eq_getElem?_getD, isNumber, Option.getD_some]
  rw [sameHeld] at ran
  split at ran
  next =>
    cases ran
  next byte =>
    have small : held code last len < 256 := by
      omega
    obtain ⟨after, looped, ran⟩ := bind_eq_ok.1 ran
    cases ran
    rw [← agrees small] at looped ⊢
    rw [CanonicalCode.rank_succ positive] at inside
    have all :
        Coded code count len (count len) after ∧
          after.out = self.out ++ [UInt8.ofNat (count len)] := by
      refine foldlM_range_of_ok
        (fun i state =>
          Coded code count len i state ∧
            state.out = self.out ++ [UInt8.ofNat (count len)])
        looped ⟨?_, rfl⟩ ?_
      · exact { coded with }
      · rintro i state later before step ⟨holds, isOut⟩
        have ranked : rank count len i < total := by
          unfold rank at inside ⊢
          omega
        obtain ⟨holds', sameOut⟩ := holds.symbol distinct ranked short step
        exact ⟨holds', sameOut.trans isOut⟩
    obtain ⟨holds, isOut⟩ := all
    have bounded := holds.bounded
    have limit : 2 ^ len ≤ 2 ^ 16 :=
      Nat.pow_le_pow_right (by decide) short
    have doubled : shlU 32 after.code 1 = after.code * 2 :=
      shlU_eq (by omega)
    refine ⟨{
      pos := by rw [CanonicalCode.rank_succ positive]; exact holds.pos
      next := ?_
      bounded := ?_
      depths := holds.depths
      codes := holds.codes
      small := holds.small
      entered := ?_
      others := holds.others }, isOut, by rw [agrees small]; exact small⟩
    · change shlU 32 after.code 1 = _
      rw [doubled, holds.next, CanonicalCode.word_succ positive]
    · change shlU 32 after.code 1 ≤ _
      rw [doubled, Nat.pow_succ]
      exact Nat.mul_le_mul_right 2 bounded
    · intro len' i' positive' counted earlier
      refine holds.entered len' i' positive' counted ?_
      rcases Nat.lt_succ_iff_lt_or_eq.1 (show len' < len + 1 by omega) with shorter | rfl
      · exact .inl shorter
      · exact .inr ⟨rfl, counted⟩

/-- All lengths: the counts are written, and every word has its place. -/
theorem coded_all
    {last total : Nat}
    {start result : Coding}
    (coded : Coded code count 1 0 start)
    (distinct : (code.values.take total).Nodup)
    (agrees :
      ∀ len,
        1 ≤ len → len ≤ 16 → held code last len < 256 → count len = held code last len)
    (inside : rank count 17 0 ≤ total)
    (ran : (List.range' 1 16).foldlM (codeLength code last) start = .ok result) :
    Coded code count 17 0 result ∧
      result.out =
          start.out ++
            ((List.range' 1 16).map fun len => UInt8.ofNat (held code last len)) ∧
      ∀ len, 1 ≤ len → len ≤ 16 → held code last len < 256 := by
  rw [List.range'_eq_map_range, List.foldlM_map] at ran
  refine foldlM_range_of_ok
    (fun position state =>
      Coded code count (position + 1) 0 state ∧
        state.out =
            start.out ++
              ((List.range' 1 position).map fun len => UInt8.ofNat (held code last len)) ∧
        ∀ len, 1 ≤ len → len ≤ position → held code last len < 256)
    ran ⟨coded, (List.append_nil _).symm, ?_⟩ ?_
  · intro len positive short
    omega
  · rintro position state next within step ⟨holds, isOut, small⟩
    rw [Nat.add_comm 1 position] at step
    have ranked : rank count (position + 1 + 1) 0 ≤ total :=
      Nat.le_trans (CanonicalCode.rank_mono (by omega)) inside
    obtain ⟨holds', isOut', small'⟩ :=
      holds.length distinct (Nat.le_add_left 1 position) within
        (agrees _ (Nat.le_add_left 1 position) within) ranked step
    refine ⟨holds', ?_, ?_⟩
    · rw [isOut', isOut, List.range'_1_concat, List.map_append, List.append_assoc,
        Nat.add_comm 1 position]
      rfl
    · intro len positive short
      rcases Nat.le_succ_iff.1 short with before | rfl
      · exact small len positive before
      · exact small'

/-- The sum of the counts, and the index of one that is not zero. -/
theorem totals_spec
    (counts : List Nat) :
    (totals counts).1 = counts.sum ∧
      ((totals counts).2 ≠ 0 → counts.getD (totals counts).2 0 ≠ 0) := by
  have spec :=
    @foldl_zipIdx (Nat × Nat) Nat
      (fun state (item : Nat × Nat) =>
        (state.1 + item.1, if item.1 ≠ 0 then item.2 else state.2))
      (fun position state =>
        state.1 = (counts.take position).sum ∧
          (state.2 ≠ 0 → counts.getD state.2 0 ≠ 0))
      (0, 0) counts ⟨rfl, fun none => absurd rfl none⟩ ?_
  · rw [List.take_length] at spec
    exact spec
  · rintro position count ⟨total, last⟩ isCount ⟨isTotal, isLast⟩
    refine ⟨?_, ?_⟩
    · rw [List.take_add_one, isCount, List.sum_append, ← isTotal]
      simp
    · dsimp only
      split
      next some =>
        intro _
        rw [List.getD_eq_getElem?_getD, isCount]
        exact some
      next none =>
        exact isLast

/-- The symbols that get words, the last one, and those of the words without bits. -/
theorem sum_held
    {last : Nat}
    (lengths : code.counts.length = 17)
    (positive : last ≠ 0)
    (some : code.counts.getD last 0 ≠ 0) :
    ∑ len ∈ Finset.Ico 1 17, held code last len + 1 + code.counts.getD 0 0 =
      code.counts.sum := by
  have bounded : last < 17 := by
    by_contra large
    apply some
    rw [List.getD_eq_getElem?_getD, List.getElem?_eq_none (by omega)]
    rfl
  have each : ∀ len ∈ Finset.Ico 1 17,
      held code last len + (if len = last then 1 else 0) = code.counts.getD len 0 := by
    intro len _
    unfold held
    split
    next same =>
      rw [same]
      omega
    next =>
      rfl
  have all := Finset.sum_congr rfl each
  rw [Finset.sum_add_distrib, Finset.sum_ite_eq', if_pos (Finset.mem_Ico.2 (by omega))]
    at all
  rw [all, ← sum_getD, lengths, Finset.range_eq_Ico,
    Finset.sum_eq_sum_Ico_succ_bot (by decide : 0 < 17), Nat.add_comm]

section

variable {code : Huffman}
variable {last : Nat}

theorem count_definitionOf
    {len : Nat}
    (positive : 1 ≤ len)
    (short : len ≤ 16) :
    (definitionOf code last).count len = held code last len % 256 := by
  unfold Definition.count definitionOf
  dsimp only
  rw [List.getD_eq_getElem?_getD, List.getElem?_map,
    List.getElem?_range' (by omega : len - 1 < 16), Option.map_some, Option.getD_some,
    Nat.one_mul, Nat.add_sub_cancel' positive]
  exact UInt8.toNat_ofNat'

theorem length_counts :
    (definitionOf code last).counts.length = 16 := by
  unfold definitionOf
  dsimp only
  rw [List.length_map, List.length_range']

theorem symbols_definitionOf :
    (definitionOf code last).symbols =
      (code.values.take (rank (definitionOf code last).count 17 0)).map UInt8.ofNat := by
  rw [Definition.rank_all length_counts]
  simp only [definitionOf]

variable {state : Coding}

theorem length_symbols
    (coded : Coded code (definitionOf code last).count 17 0 state) :
    (definitionOf code last).symbols.length =
      rank (definitionOf code last).count 17 0 := by
  rw [symbols_definitionOf, List.length_map, List.length_take]
  apply Nat.min_eq_left
  by_contra few
  rw [Nat.not_le, ← coded.pos] at few
  obtain ⟨value, isValue, -⟩ := coded.small _ few
  exact absurd (List.getElem?_eq_some_iff.1 isValue).1 (Nat.lt_irrefl _)

/-- The table that is kept is the code of the definition. -/
theorem describes_definitionOf
    {total : Nat}
    (coded : Coded code (definitionOf code last).count 17 0 state)
    (distinct : (code.values.take total).Nodup)
    (inside : rank (definitionOf code last).count 17 0 ≤ total) :
    (definitionOf code last).Describes state.table := by
  have isPos := coded.pos
  have few : ∀ value ∈ code.values.take state.pos, value < 256 := by
    intro value member
    obtain ⟨number, isValue⟩ := List.mem_iff_getElem?.1 member
    rw [List.getElem?_take] at isValue
    split at isValue
    next before =>
      obtain ⟨other, isOther, byte⟩ := coded.small number before
      rw [isOther] at isValue
      cases isValue
      exact byte
    next =>
      cases isValue
  have toNat : ∀ value < 256, (UInt8.ofNat value).toNat = value := by
    intro value byte
    rw [UInt8.toNat_ofNat']
    exact Nat.mod_eq_of_lt byte
  have before : ∀ len i, IsCode 16 (definitionOf code last).count len i →
      len < 17 ∨ len = 17 ∧ i < 0 :=
    fun len i isCode => .inl (Nat.lt_succ_of_le isCode.bounded)
  refine {
    distinct := ?_
    coded := ?_
    others := ?_
    fits := ?_
    free := ?_ }
  · rw [symbols_definitionOf, ← isPos]
    refine List.Nodup.map_on ?_ ?_
    · intro first isFirst second isSecond same
      have equal := congrArg UInt8.toNat same
      rw [toNat first (few first isFirst), toNat second (few second isSecond)] at equal
      exact equal
    · rw [← isPos] at inside
      exact distinct.sublist (List.take_sublist_take_left inside)
  · intro len i isCode
    obtain ⟨-, value, isValue, itsDepth, itsCode⟩ :=
      coded.entered len i isCode.positive isCode.counted (before len i isCode)
    have ranked := isCode.rank_lt
    obtain ⟨same, isSame, byte⟩ := coded.small _ (by rw [isPos]; exact ranked)
    rw [isValue] at isSame
    cases isSame
    refine ⟨UInt8.ofNat value, ?_, ?_, ?_⟩
    · rw [symbols_definitionOf, List.getElem?_map, List.getElem?_take_of_lt ranked, isValue]
      rfl
    · rw [toNat value byte]
      exact itsDepth
    · rw [toNat value byte]
      exact itsCode
  · intro symbol absent
    refine coded.others symbol.toNat symbol.toNat_lt ?_
    intro member
    apply absent
    rw [symbols_definitionOf, ← isPos]
    refine List.mem_map.2 ⟨symbol.toNat, member, ?_⟩
    exact UInt8.ofNat_toNat
  · intro len i isCode
    exact (coded.entered len i isCode.positive isCode.counted (before len i isCode)).1
  · intro len i len' i' isCode isCode' ordered starts
    exact CanonicalCode.prefixFree isCode isCode' ⟨ordered, starts⟩

end

/-- No word is given yet. -/
theorem coded_start
    (code : Huffman)
    (count : Nat → Nat)
    (out : List UInt8) :
    Coded code count 1 0 { out := out, table := {}, pos := 0, code := 0 } := by
  refine {
    pos := CanonicalCode.rank_one.symm
    next := CanonicalCode.word_one.symm
    bounded := Nat.zero_le _
    depths := List.length_replicate
    codes := List.length_replicate
    small := fun number before => absurd before (Nat.not_lt_zero number)
    entered := ?_
    others := ?_ }
  · intro len' i' positive _ earlier
    omega
  · intro value byte _
    exact List.getElem?_replicate_of_lt byte

/-- The symbols behind the counts. -/
theorem symbolBytes_eq_ok
    {values : List Nat}
    {start out : List UInt8}
    (ran :
      values.foldlM
          (fun out value =>
            if 256 ≤ value then fail .GenericError else return out ++ [UInt8.ofNat value])
          start =
        (.ok out : Checked (List UInt8))) :
    out = start ++ values.map UInt8.ofNat := by
  induction values generalizing start with
  | nil =>
      cases ran
      exact (List.append_nil _).symm
  | cons value values inductionHypothesis =>
      rw [List.foldlM_cons] at ran
      obtain ⟨next, isNext, ran⟩ := bind_eq_ok.1 ran
      split at isNext
      next =>
        cases isNext
      next =>
        cases isNext
        rw [inductionHypothesis ran, List.map_cons, List.append_assoc]
        rfl

/--
What a code leaves behind: its table in its slot, and the bytes of a table, with one more
byte for each of its words without bits.
-/
structure Left
    (code : Huffman)
    (before after : State)
    (definition : Definition)
    (extra : List UInt8)
    (table : Table) :
    Prop where
  wellFormed : definition.WellFormed
  out : after.out = before.out ++ (definition.bytes ++ extra)
  surplus : extra.length = code.counts.getD 0 0
  describes : definition.Describes table
  inside : tableSlot code.slot_id < before.tables.length
  tables : after.tables = before.tables.set (tableSlot code.slot_id) table
  slot : definition.slot.toNat = code.slot_id

theorem huffman_empty
    {self next : State}
    (none : code.counts.sum = 0)
    (ran : huffman self code = .ok next) :
    next = self := by
  unfold huffman at ran
  rw [← (totals_spec code.counts).1] at none
  dsimp only at ran
  rw [if_pos none] at ran
  cases ran
  rfl

/-- The spec of one code that has any words. -/
theorem huffman_left
    {self next : State}
    (sound : code.Sound)
    (some : code.counts.sum ≠ 0)
    (ran : huffman self code = .ok next) :
    ∃ definition extra table, Left code self next definition extra table := by
  obtain ⟨isTotal, isLast⟩ := totals_spec code.counts
  unfold huffman at ran
  dsimp only at ran
  generalize (totals code.counts).2 = last at isLast ran
  rw [isTotal, if_neg some] at ran
  split at ran
  next =>
    cases ran
  next allowed =>
    rw [not_or, Nat.not_lt] at allowed
    have nonzero := isLast allowed.2
    obtain ⟨slotByte, isSlot, ran⟩ := bind_eq_ok.1 ran
    obtain ⟨coding, looped, ran⟩ := bind_eq_ok.1 ran
    obtain ⟨tables, areTables, ran⟩ := bind_eq_ok.1 ran
    obtain ⟨_, fits, ran⟩ := bind_eq_ok.1 ran
    obtain ⟨out, isOut, ran⟩ := bind_eq_ok.1 ran
    cases ran
    obtain ⟨rfl, slotSmall⟩ := castU_eq_ok isSlot
    rw [require_eq_ok] at fits
    have total := sum_held sound.lengths allowed.2 nonzero
    have below : ∀ len ∈ Finset.Ico 1 17,
        (definitionOf code last).count len ≤ held code last len := by
      intro len member
      have range := Finset.mem_Ico.1 member
      rw [count_definitionOf range.1 (Nat.le_of_lt_succ range.2)]
      exact Nat.mod_le _ _
    have inside : rank (definitionOf code last).count 17 0 ≤ code.counts.sum := by
      have ranked := Finset.sum_le_sum below
      unfold rank
      omega
    obtain ⟨coded, isCounts, small⟩ :=
      coded_all (coded_start code (definitionOf code last).count _) sound.distinct
        (fun len positive short byte => by
          rw [count_definitionOf positive short, Nat.mod_eq_of_lt byte])
        inside looped
    have number :
        rank (definitionOf code last).count 17 0 + 1 + code.counts.getD 0 0 =
          code.counts.sum := by
      have sums :
          ∑ len ∈ Finset.Ico 1 17, (definitionOf code last).count len =
            ∑ len ∈ Finset.Ico 1 17, held code last len := by
        refine Finset.sum_congr rfl fun len member => ?_
        have range := Finset.mem_Ico.1 member
        rw [count_definitionOf range.1 (Nat.le_of_lt_succ range.2),
          Nat.mod_eq_of_lt (small len range.1 (Nat.le_of_lt_succ range.2))]
      unfold rank
      rw [sums, Nat.add_zero]
      exact total
    have slotInside : tableSlot code.slot_id < self.tables.length := by
      by_contra outside
      rw [store, if_neg outside] at areTables
      cases areTables
    rw [store_ok slotInside] at areTables
    cases areTables
    refine ⟨definitionOf code last,
      ((code.values.take (code.counts.sum - 1)).drop
        (rank (definitionOf code last).count 17 0)).map UInt8.ofNat,
      coding.table, {
        wellFormed := ⟨length_counts, ?_⟩
        out := ?_
        surplus := ?_
        describes := describes_definitionOf coded sound.distinct inside
        inside := slotInside
        tables := rfl
        slot := ?_ }⟩
    · rw [length_symbols coded, Definition.rank_all length_counts]
    · have parts :
          code.values.take (code.counts.sum - 1) =
            code.values.take (rank (definitionOf code last).count 17 0) ++
              (code.values.take (code.counts.sum - 1)).drop
                (rank (definitionOf code last).count 17 0) := by
        have whole := List.take_append_drop (rank (definitionOf code last).count 17 0)
          (code.values.take (code.counts.sum - 1))
        rw [List.take_take, Nat.min_eq_left (by omega)] at whole
        exact whole.symm
      have head :
          (definitionOf code last).slot :: (definitionOf code last).counts =
            UInt8.ofNat code.slot_id ::
              (List.range' 1 16).map fun len => UInt8.ofNat (held code last len) := by
        simp only [definitionOf]
      unfold Definition.bytes
      rw [symbolBytes_eq_ok isOut, isCounts, head, symbols_definitionOf]
      conv_lhs => rw [parts]
      simp only [List.map_append, List.append_assoc, List.cons_append, List.nil_append]
    · rw [List.length_map, List.length_drop, List.length_take, Nat.min_eq_left fits]
      omega
    · unfold definitionOf
      dsimp only
      rw [UInt8.toNat_ofNat']
      exact Nat.mod_eq_of_lt slotSmall

end Jxlz.JpegWriter
