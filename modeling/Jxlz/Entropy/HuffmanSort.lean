import Jxlz.Entropy.HuffmanDecode
import Jxlz.Entropy.HuffmanSecond

namespace Jxlz

open AnsParams CanonicalCode

/-!
# The symbols by the length of their codes

The symbols are sorted by counting: those of a length follow each other in
ascending order, and those of the next length follow them.
-/

/-- How many symbols have a code of a length. -/
def lengthCount
    (codeLengths : List Nat)
    (len : Nat) :
    Nat :=
  codeLengths.count len

section Counts

variable {codeLengths : List Nat}

/-- The counters hold how many symbols have each length. -/
theorem countLengths_ok
    (bounded : ∀ codeLength ∈ codeLengths, codeLength ≤ prefixMaxBits)
    (short : codeLengths.length < 2 ^ 16) :
    ∃ counts,
      countLengths codeLengths = .ok counts ∧
        counts.length = prefixMaxBits + 1 ∧
        ∀ len, counts.getD len 0 = lengthCount codeLengths len := by
  unfold countLengths
  generalize isStep :
    (fun (counts : List Nat) codeLength => do
      let count ← index counts codeLength
      let count ← addU 16 count 1
      return counts.set codeLength count) = step
  have counted :
      ∀ (before after counts : List Nat),
        codeLengths = before ++ after →
        counts.length = prefixMaxBits + 1 →
        (∀ len, counts.getD len 0 = before.count len) →
        ∃ last,
          after.foldlM step counts = .ok last ∧
            last.length = prefixMaxBits + 1 ∧
            ∀ len, last.getD len 0 = lengthCount codeLengths len := by
    intro before after
    induction after generalizing before with
    | nil =>
        intro counts isAll sameLength holds
        refine ⟨counts, rfl, sameLength, ?_⟩
        intro len
        rw [isAll, List.append_nil]
        exact holds len
    | cons codeLength after inductionHypothesis =>
        intro counts isAll sameLength holds
        have member : codeLength ∈ codeLengths := by
          rw [isAll]
          exact List.mem_append_right _ List.mem_cons_self
        have small := bounded codeLength member
        have few : before.count codeLength < codeLengths.length := by
          have within := @List.count_le_length _ _ codeLength before
          rw [isAll, List.length_append, List.length_cons]
          omega
        have inside : codeLength < counts.length := by
          omega
        have stepped :
            step counts codeLength =
              .ok (counts.set codeLength (before.count codeLength + 1)) := by
          rw [← isStep]
          dsimp only
          rw [index_getD inside 0, ok_bind, holds, addU_ok (by omega), ok_bind]
          rfl
        obtain ⟨last, ran, ends⟩ :=
          inductionHypothesis (before ++ [codeLength])
            (counts.set codeLength (before.count codeLength + 1))
            (by rw [isAll, List.append_assoc]; rfl)
            (by rw [List.length_set, sameLength])
            (by
              intro len
              rw [getD_set inside, List.count_append, List.count_singleton,
                holds]
              by_cases same : len = codeLength
              · subst same
                simp
              · have different : ¬(codeLength == len) = true := by
                  simpa using Ne.symm same
                rw [if_neg same, if_neg different, Nat.add_zero])
        refine ⟨last, ?_, ends⟩
        rw [List.foldlM_cons, stepped]
        exact ran
  refine counted [] codeLengths _ rfl (by rw [List.length_replicate]) ?_
  intro len
  rw [List.count_nil, List.getD_eq_getElem?_getD, List.getElem?_replicate]
  split <;> rfl

/-- Not more symbols have a code than there are. -/
theorem rank_le_length
    (codeLengths : List Nat)
    (len : Nat) :
    rank (lengthCount codeLengths) len 0 ≤ codeLengths.length := by
  unfold rank lengthCount
  rw [Nat.add_zero]
  induction codeLengths with
  | nil =>
      simp
  | cons codeLength codeLengths inductionHypothesis =>
      have one :
          ∑ shorter ∈ Finset.Ico 1 len,
              (if (codeLength == shorter) = true then 1 else 0) ≤ 1 := by
        simp only [beq_iff_eq, Finset.sum_ite_eq]
        split <;> simp
      simp only [List.count_cons, Finset.sum_add_distrib, List.length_cons]
      omega

end Counts

section Offsets

variable {codeLengths counts : List Nat}

/-- What is known of the offsets before a length. -/
structure OffsetsUpTo
    (codeLengths : List Nat)
    (len : Nat)
    (offsets : SymbolOffsets) :
    Prop where
  length : offsets.offset.length = prefixMaxBits + 1
  offset :
    ∀ shorter,
      1 ≤ shorter →
      shorter < len →
      offsets.offset.getD shorter 0 = rank (lengthCount codeLengths) shorter 0
  sum : offsets.sum = rank (lengthCount codeLengths) len 0
  positive : 1 ≤ offsets.maxLength
  bounded : offsets.maxLength ≤ prefixMaxBits
  last :
    ∀ longer,
      offsets.maxLength < longer → longer < len → lengthCount codeLengths longer = 0

/-- The offset of a length is the number of symbols with a shorter code. -/
theorem symbolOffsets_ok
    (lengths : counts.length = prefixMaxBits + 1)
    (counted : ∀ len, counts.getD len 0 = lengthCount codeLengths len)
    (short : codeLengths.length < 2 ^ 16) :
    ∃ offsets,
      symbolOffsets counts = .ok offsets ∧
        OffsetsUpTo codeLengths (prefixMaxBits + 1) offsets := by
  unfold symbolOffsets
  refine
    @foldlM_lengths_ok SymbolOffsets (OffsetsUpTo codeLengths)
      (SymbolOffsets.step counts) 1 prefixMaxBits _ ?_ ?_
  · refine ⟨by rw [List.length_replicate], fun shorter positive below => ?_, ?_,
      Nat.le_refl 1, by decide, fun longer above below => ?_⟩
    · omega
    · simp [rank]
    · omega
  · intro len offsets positive below holds
    have inside : len < offsets.offset.length := by
      rw [holds.length]
      omega
    have next : rank (lengthCount codeLengths) (len + 1) 0 =
        rank (lengthCount codeLengths) len 0 + lengthCount codeLengths len := by
      rw [rank_succ positive]
      unfold rank
      omega
    have stored :
        ∀ shorter,
          1 ≤ shorter →
          shorter < len + 1 →
          (offsets.offset.set len offsets.sum).getD shorter 0 =
            rank (lengthCount codeLengths) shorter 0 := by
      intro shorter isLength small
      rw [getD_set inside]
      split
      next same =>
        rw [same, holds.sum]
      next different =>
        exact holds.offset shorter isLength (by omega)
    unfold SymbolOffsets.step
    rw [index_getD (by omega) 0, ok_bind, counted]
    dsimp only
    by_cases some : lengthCount codeLengths len ≠ 0
    · have few := rank_le_length codeLengths (len + 1)
      rw [if_pos some, addU_ok (by rw [holds.sum]; omega), ok_bind]
      refine ⟨_, rfl, by rw [List.length_set, holds.length], stored, ?_,
        positive, ?_, ?_⟩
      · dsimp only
        rw [holds.sum, next]
      · dsimp only
        omega
      · intro longer above small
        dsimp only at above
        omega
    · rw [if_neg some]
      rw [ne_eq, not_not] at some
      refine ⟨_, rfl, by rw [List.length_set, holds.length], stored, ?_,
        holds.positive, holds.bounded, ?_⟩
      · dsimp only
        rw [holds.sum, next, some, Nat.add_zero]
      · intro longer above small
        by_cases same : longer = len
        · rw [same, some]
        · exact holds.last longer above (by omega)

end Offsets

section Sorting

variable {codeLengths : List Nat}

/-- Codewords of different names have different ranks. -/
theorem rank_inj
    {len i len' i' : Nat}
    (isCode : IsCode prefixMaxBits (lengthCount codeLengths) len i)
    (isCode' : IsCode prefixMaxBits (lengthCount codeLengths) len' i')
    (same :
      rank (lengthCount codeLengths) len i = rank (lengthCount codeLengths) len' i') :
    len = len' ∧ i = i' := by
  have before :
      ∀ {len i len' i' : Nat},
        IsCode prefixMaxBits (lengthCount codeLengths) len i →
        len < len' →
        rank (lengthCount codeLengths) len i < rank (lengthCount codeLengths) len' i' := by
    intro len i len' i' isCode shorter
    have ranks := @rank_mono (lengthCount codeLengths) (len + 1) len' shorter
    have counted := isCode.counted
    rw [rank_succ isCode.positive] at ranks
    unfold rank at ranks ⊢
    omega
  rcases Nat.lt_trichotomy len len' with shorter | rfl | longer
  · have apart := @before len i len' i' isCode shorter
    omega
  · refine ⟨rfl, ?_⟩
    unfold rank at same
    omega
  · have apart := @before len' i' len i isCode' longer
    omega

/-- An item does not count before its own place. -/
theorem count_take_lt
    {items : List Nat}
    {place item : Nat}
    (isItem : items[place]? = some item) :
    (items.take place).count item < items.count item := by
  obtain ⟨within, isItem⟩ := List.getElem?_eq_some_iff.1 isItem
  have whole :
      items.count item =
        (items.take place).count item + (items.drop place).count item := by
    rw [← List.count_append, List.take_append_drop]
  rw [whole, List.drop_eq_getElem_cons within, isItem, List.count_cons_self]
  omega

/-- The sort has placed the symbols of the first code lengths. -/
structure SortedUpTo
    (codeLengths before : List Nat)
    (state : List Nat × List Nat) :
    Prop where
  length : state.1.length = codeLengths.length
  offsets : state.2.length = prefixMaxBits + 1
  offset :
    ∀ len,
      1 ≤ len →
      len ≤ prefixMaxBits →
      state.2.getD len 0 = rank (lengthCount codeLengths) len (before.count len)
  placed :
    ∀ (symbol len : Nat),
      before[symbol]? = some len →
      0 < len →
      state.1.getD
          (rank (lengthCount codeLengths) len ((before.take symbol).count len)) 0 =
        symbol

/-- A symbol goes to the next place of its length. -/
theorem sortSymbol_ok
    {before after : List Nat}
    {state : List Nat × List Nat}
    {codeLength : Nat}
    (split : codeLengths = before ++ codeLength :: after)
    (bounded : codeLength ≤ prefixMaxBits)
    (short : codeLengths.length ≤ prefixMaxAlphabetSize)
    (isBefore :
      ∀ other ∈ before, other ≤ prefixMaxBits)
    (upTo : SortedUpTo codeLengths before state) :
    ∃ next,
      sortSymbol state codeLength before.length = .ok next ∧
        SortedUpTo codeLengths (before ++ [codeLength]) next := by
  obtain ⟨sorted, offset⟩ := state
  obtain ⟨sameLength, offsets, isOffset, placed⟩ := upTo
  dsimp only at sameLength offsets isOffset placed
  have all : codeLengths.length = before.length + 1 + after.length := by
    rw [split, List.length_append, List.length_cons]
    omega
  unfold prefixMaxAlphabetSize at short
  have earlier :
      ∀ (symbol len : Nat),
        (before ++ [codeLength])[symbol]? = some len →
        symbol < before.length ∧ before[symbol]? = some len ∨
          symbol = before.length ∧ len = codeLength := by
    intro symbol len isLength
    rcases Nat.lt_trichotomy symbol before.length with inside | same | outside
    · rw [List.getElem?_append_left inside] at isLength
      exact .inl ⟨inside, isLength⟩
    · rw [same, List.getElem?_concat_length] at isLength
      exact .inr ⟨same, (Option.some.inj isLength).symm⟩
    · rw [List.getElem?_eq_none] at isLength
      · cases isLength
      · rw [List.length_append, List.length_singleton]
        omega
  have takes :
      ∀ symbol ≤ before.length,
        (before ++ [codeLength]).take symbol = before.take symbol := by
    intro symbol inside
    rw [List.take_append_of_le_length inside]
  unfold sortSymbol
  dsimp only
  by_cases coded : codeLength ≠ 0
  · have positive : 1 ≤ codeLength := by
      omega
    have counted : before.count codeLength < lengthCount codeLengths codeLength := by
      unfold lengthCount
      rw [split, List.count_append, List.count_cons_self]
      omega
    have isCode :
        IsCode prefixMaxBits (lengthCount codeLengths) codeLength
          (before.count codeLength) :=
      ⟨positive, bounded, counted⟩
    have ranks := isCode.rank_lt
    have few := rank_le_length codeLengths (prefixMaxBits + 1)
    have isPlace := isOffset codeLength positive bounded
    have inside :
        rank (lengthCount codeLengths) codeLength (before.count codeLength) <
          sorted.length := by
      omega
    have inOffsets : codeLength < offset.length := by
      omega
    rw [if_pos coded, index_getD inOffsets 0, ok_bind, isPlace,
      require_ok inside, ok_bind, castU_ok (by omega), ok_bind,
      addU_ok (by omega), ok_bind]
    refine ⟨_, rfl, ?_, ?_, ?_, ?_⟩
    · dsimp only
      rw [List.length_set, sameLength]
    · dsimp only
      rw [List.length_set, offsets]
    · intro len isLength small
      dsimp only
      rw [getD_set inOffsets, List.count_append, List.count_singleton]
      by_cases same : len = codeLength
      · subst same
        rw [if_pos rfl, if_pos (by simp)]
        unfold rank
        omega
      · have different : ¬(codeLength == len) = true := by
          simpa using Ne.symm same
        rw [if_neg same, if_neg different, Nat.add_zero]
        exact isOffset len isLength small
    · intro symbol len isLength coded
      dsimp only
      rcases earlier symbol len isLength with ⟨within, isEarlier⟩ | ⟨rfl, rfl⟩
      · rw [takes symbol (Nat.le_of_lt within), getD_set inside, if_neg]
        · exact placed symbol len isEarlier coded
        · intro same
          have least := count_take_lt isEarlier
          have whole : before.count len ≤ lengthCount codeLengths len := by
            unfold lengthCount
            rw [split, List.count_append]
            omega
          have member : len ∈ before := List.mem_of_getElem? isEarlier
          have isOther :
              IsCode prefixMaxBits (lengthCount codeLengths) len
                ((before.take symbol).count len) :=
            ⟨coded, isBefore len member, by omega⟩
          obtain ⟨rfl, equal⟩ := rank_inj isOther isCode same
          omega
      · rw [takes before.length (Nat.le_refl _), List.take_length,
          getD_set inside, if_pos rfl]
  · rw [if_neg coded]
    rw [ne_eq, not_not] at coded
    subst coded
    refine ⟨_, rfl, sameLength, offsets, ?_, ?_⟩
    · intro len isLength small
      dsimp only
      have different : ¬(0 == len) = true := by
        simp
        omega
      rw [List.count_append, List.count_singleton, if_neg different, Nat.add_zero]
      exact isOffset len isLength small
    · intro symbol len isLength coded
      rcases earlier symbol len isLength with ⟨within, isEarlier⟩ | ⟨rfl, rfl⟩
      · rw [takes symbol (Nat.le_of_lt within)]
        exact placed symbol len isEarlier coded
      · omega

/-- All symbols are sorted. -/
theorem sortSymbols_ok
    {offsets : SymbolOffsets}
    (bounded : ∀ codeLength ∈ codeLengths, codeLength ≤ prefixMaxBits)
    (short : codeLengths.length ≤ prefixMaxAlphabetSize)
    (upTo : OffsetsUpTo codeLengths (prefixMaxBits + 1) offsets) :
    ∃ state,
      sortSymbols codeLengths offsets.offset = .ok state ∧
        SortedUpTo codeLengths codeLengths state := by
  have rest :
      ∀ (before after : List Nat) (state : List Nat × List Nat),
        codeLengths = before ++ after →
        SortedUpTo codeLengths before state →
        ∃ last,
          (after.zipIdx before.length).foldlM
              (fun state entry => sortSymbol state entry.1 entry.2)
              state =
              .ok last ∧
            SortedUpTo codeLengths codeLengths last := by
    intro before after
    induction after generalizing before with
    | nil =>
        intro state isAll holds
        rw [List.append_nil] at isAll
        rw [← isAll] at holds
        exact ⟨state, rfl, holds⟩
    | cons codeLength after inductionHypothesis =>
        intro state isAll holds
        have small : codeLength ≤ prefixMaxBits := by
          refine bounded codeLength ?_
          rw [isAll]
          exact List.mem_append_right _ List.mem_cons_self
        obtain ⟨next, stepped, kept⟩ :=
          sortSymbol_ok isAll small short
            (fun other member => bounded other (by
              rw [isAll]
              exact List.mem_append_left _ member))
            holds
        obtain ⟨last, ran, ends⟩ :=
          inductionHypothesis (before ++ [codeLength]) next
            (by rw [isAll, List.append_assoc]; rfl) kept
        rw [List.length_append, List.length_singleton] at ran
        refine ⟨last, ?_, ends⟩
        rw [List.zipIdx_cons, List.foldlM_cons]
        dsimp only
        rw [stepped]
        exact ran
  unfold sortSymbols
  rw [require_ok short, ok_bind]
  refine rest [] codeLengths _ rfl ⟨?_, upTo.length, ?_, ?_⟩
  · rw [List.length_replicate]
  · intro len isLength small
    rw [List.count_nil]
    exact upTo.offset len isLength (by omega)
  · intro symbol len isLength
    simp at isLength

end Sorting

end Jxlz
