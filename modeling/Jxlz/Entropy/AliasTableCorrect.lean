import Jxlz.Entropy.AliasTableReassign

namespace Jxlz

open AliasTable

/-!
# Alias tables give every occurrence of a symbol a slot

`IsAliasTable` is the specification of a table: each of the `count` occurrences
of a symbol is found at some slot.  Since there are as many slots as
occurrences, the slots and the occurrences then correspond one to one.
-/

/-- Number of occurrences of a symbol in a distribution. -/
def countOf
    (distribution : List Nat)
    (symbol : Nat) :
    Nat :=
  distribution.getD symbol 0

/-- A slot of the table answers with an occurrence of a symbol. -/
def Answers
    (distribution : List Nat)
    (logAlphaSize : Nat)
    (table : List Entry)
    (slot symbol offset : Nat) :
    Prop :=
  lookup table slot (AnsParams.ansLogTabSize - logAlphaSize)
      (1 <<< (AnsParams.ansLogTabSize - logAlphaSize) - 1) =
    .ok
      { value := symbol
        offset
        freq := countOf distribution symbol }

/-- The specification of an alias table. -/
structure IsAliasTable
    (distribution : List Nat)
    (logAlphaSize : Nat)
    (table : List Entry) :
    Prop where
  /-- Every occurrence of every symbol is found at some slot. -/
  finds :
    ∀ symbol offset,
      offset < countOf distribution symbol →
      ∃ slot,
        slot < AnsParams.ansTabSize ∧
          Answers distribution logAlphaSize table slot symbol offset
  /-- A symbol that has the whole range has its occurrences in order. -/
  inOrder :
    ∀ symbol offset,
      countOf distribution symbol = AnsParams.ansTabSize →
      offset < AnsParams.ansTabSize →
      Answers distribution logAlphaSize table offset symbol offset

variable {logAlphaSize : Nat}

/-- The slots of one bucket. -/
theorem entrySize_eq
    (logSmall : logAlphaSize ≤ AnsParams.ansLogTabSize) :
    AnsParams.ansTabSize >>> logAlphaSize =
      2 ^ (AnsParams.ansLogTabSize - logAlphaSize) := by
  rw [AnsParams.ansTabSize, Nat.one_shiftLeft, Nat.shiftRight_eq_div_pow,
    Nat.pow_div logSmall (by decide)]

/-- The buckets together have as many slots as the range. -/
theorem tableSize_mul_entrySize
    (logSmall : logAlphaSize ≤ AnsParams.ansLogTabSize) :
    2 ^ logAlphaSize * 2 ^ (AnsParams.ansLogTabSize - logAlphaSize) =
      AnsParams.ansTabSize := by
  rw [← Nat.pow_add, Nat.add_sub_cancel' logSmall, AnsParams.ansTabSize,
    Nat.one_shiftLeft]

variable {distribution : List Nat}

theorem countOf_pos_lt_length
    {symbol : Nat}
    (positive : 0 < countOf distribution symbol) :
    symbol < distribution.length := by
  by_contra outside
  rw [countOf, List.getD_eq_default _ _ (Nat.le_of_not_lt outside)] at positive
  contradiction

/-- The counts of the symbols below a bound on all symbols add up to the sum. -/
theorem sum_countOf
    {bound : Nat}
    (enough : distribution.length ≤ bound) :
    ∑ symbol ∈ Finset.range bound, countOf distribution symbol =
      distribution.sum := by
  induction distribution generalizing bound with
  | nil =>
      simp [countOf]
  | cons head tail inductionHypothesis =>
      obtain ⟨smaller, rfl⟩ : ∃ smaller, bound = smaller + 1 :=
        ⟨bound - 1, by simp only [List.length_cons] at enough; omega⟩
      have tailShort : tail.length ≤ smaller := by
        simpa using enough
      rw [Finset.sum_range_succ', List.sum_cons,
        ← inductionHypothesis tailShort, Nat.add_comm]
      rfl

/-- Trailing zeros do not change the counts. -/
theorem countOf_trim
    (distribution : List Nat)
    (symbol : Nat) :
    countOf (distribution.rdropWhile (· = 0)) symbol =
      countOf distribution symbol := by
  have parts :
      distribution.rdropWhile (fun count : Nat => count = 0) ++
          distribution.rtakeWhile (fun count : Nat => count = 0) =
        distribution :=
    List.rdropWhile_append_rtakeWhile
  conv_rhs => rw [← parts]
  simp only [countOf, List.getD_eq_getElem?_getD]
  by_cases inside :
      symbol < (distribution.rdropWhile (fun count : Nat => count = 0)).length
  · rw [List.getElem?_append_left inside]
  · rw [List.getElem?_append_right (Nat.le_of_not_lt inside),
      List.getElem?_eq_none (Nat.le_of_not_lt inside)]
    cases dropped :
        (distribution.rtakeWhile (fun count : Nat => count = 0))[symbol -
          (distribution.rdropWhile (fun count : Nat => count = 0)).length]? with
    | none =>
        rfl
    | some count =>
        have member := List.mem_of_getElem? dropped
        have isZero := List.mem_rtakeWhile_imp member
        simp only [decide_eq_true_eq] at isZero
        simp [isZero]

theorem sum_trim
    (distribution : List Nat) :
    (distribution.rdropWhile (· = 0)).sum = distribution.sum := by
  have shorter :
      (distribution.rdropWhile (fun count : Nat => count = 0)).length ≤
        distribution.length :=
    (List.rdropWhile_prefix _ distribution).length_le
  rw [← sum_countOf shorter, ← sum_countOf (Nat.le_refl distribution.length)]
  exact Finset.sum_congr rfl (fun symbol _ => countOf_trim distribution symbol)

variable {table : List Entry}

/-- The slot at `pos` of bucket `i`. -/
theorem lookup_bucket
    {entry : Entry}
    {i pos logEntrySize : Nat}
    (bucket : table[i]? = some entry)
    (inBucket : pos < 2 ^ logEntrySize) :
    lookup table (i * 2 ^ logEntrySize + pos) logEntrySize
        (1 <<< logEntrySize - 1) =
      .ok (entry.answer i pos) := by
  have quotient :
      (i * 2 ^ logEntrySize + pos) >>> logEntrySize = i := by
    rw [Nat.shiftRight_eq_div_pow, Nat.mul_comm,
      Nat.mul_add_div (by positivity), Nat.div_eq_of_lt inBucket, Nat.add_zero]
  have remainder :
      (i * 2 ^ logEntrySize + pos) &&& (1 <<< logEntrySize - 1) = pos := by
    rw [Nat.one_shiftLeft, Nat.and_two_pow_sub_one_eq_mod, Nat.mul_comm,
      Nat.mul_add_mod, Nat.mod_eq_of_lt inBucket]
  simp only [lookup, quotient, remainder, index_eq_ok.2 bucket, ok_bind,
    pure_eq_ok]

namespace InitAliasTable

variable {distribution : List Nat}

/-- Where the loop for a single symbol ends once it has found one. -/
private theorem singleSymbol_found
    (first : Nat)
    {found : Nat}
    (noOther : ∀ count ∈ distribution, count ≠ AnsParams.ansTabSize) :
    (distribution.zipIdx first).foldlM
        (fun single (v, sym) =>
          if v = AnsParams.ansTabSize then
            if single = none then
              pure (some sym)
            else
              fail .GenericError
          else
            (pure single : Checked (Option Nat)))
        (some found) =
      .ok (some found) := by
  induction distribution generalizing first with
  | nil =>
      rfl
  | cons head tail inductionHypothesis =>
      have headNe := noOther head List.mem_cons_self
      have tailOk :=
        inductionHypothesis (first + 1)
          (fun count member => noOther count (List.mem_cons_of_mem _ member))
      simpa [List.zipIdx_cons, headNe] using tailOk

private theorem singleSymbol_from
    (first : Nat)
    (bounded : distribution.sum ≤ AnsParams.ansTabSize) :
    ∃ single,
      (distribution.zipIdx first).foldlM
          (fun single (v, sym) =>
            if v = AnsParams.ansTabSize then
              if single = none then
                pure (some sym)
              else
                fail .GenericError
            else
              (pure single : Checked (Option Nat)))
          none =
        .ok single ∧
        (∀ symbol,
          single = some symbol →
          ∃ place,
            symbol = first + place ∧
              distribution[place]? = some AnsParams.ansTabSize) ∧
        (single = none →
          ∀ count ∈ distribution, count ≠ AnsParams.ansTabSize) := by
  induction distribution generalizing first with
  | nil =>
      exact ⟨none, rfl, by simp, by simp⟩
  | cons head tail inductionHypothesis =>
      simp only [List.sum_cons] at bounded
      by_cases whole : head = AnsParams.ansTabSize
      · have noOther : ∀ count ∈ tail, count ≠ AnsParams.ansTabSize := by
          intro count member isWhole
          have atMost := List.single_le_sum (by simp) count member
          have positive : 0 < AnsParams.ansTabSize := by
            decide
          omega
        refine ⟨some first, ?_, ?_, by simp⟩
        · simpa [List.zipIdx_cons, whole] using
            singleSymbol_found (first + 1) noOther
        · intro symbol isFirst
          simp only [Option.some.injEq] at isFirst
          exact ⟨0, by omega, by simp [whole]⟩
      · obtain ⟨single, run, sound, complete⟩ :=
          inductionHypothesis (first + 1) (by omega)
        refine ⟨single, ?_, ?_, ?_⟩
        · simpa [List.zipIdx_cons, whole] using run
        · intro symbol isSingle
          obtain ⟨place, position, found⟩ := sound symbol isSingle
          exact ⟨place + 1, by omega, by simpa using found⟩
        · intro isNone count member
          rcases List.mem_cons.1 member with isHead | inTail
          · rwa [isHead]
          · exact complete isNone count inTail

/-- The search for a symbol with the whole range. -/
theorem singleSymbol_ok
    (bounded : distribution.sum ≤ AnsParams.ansTabSize) :
    ∃ single,
      singleSymbol distribution = .ok single ∧
        (∀ symbol,
          single = some symbol →
          distribution[symbol]? = some AnsParams.ansTabSize) ∧
        (single = none →
          ∀ count ∈ distribution, count ≠ AnsParams.ansTabSize) := by
  obtain ⟨single, run, sound, complete⟩ := singleSymbol_from 0 bounded
  refine ⟨single, run, ?_, complete⟩
  intro symbol isSingle
  obtain ⟨place, position, found⟩ := sound symbol isSingle
  rw [Nat.zero_add] at position
  rwa [position]

/-- The cutoffs start at the counts. -/
theorem getD_initialCutoffs
    (distribution : List Nat)
    (tableSize symbol : Nat) :
    (initialCutoffs distribution tableSize).getD symbol 0 =
      countOf distribution symbol := by
  simp only [initialCutoffs, countOf, List.getD_eq_getElem?_getD]
  by_cases inside : symbol < distribution.length
  · rw [List.getElem?_append_left inside]
  · rw [List.getElem?_append_right (Nat.le_of_not_lt inside),
      List.getElem?_eq_none (Nat.le_of_not_lt inside), List.getElem?_replicate]
    split <;> rfl

theorem mem_initialStack
    {cutoffs : List Nat}
    {selected : Nat → Bool}
    {symbol : Nat} :
    symbol ∈ initialStack cutoffs selected ↔
      symbol < cutoffs.length ∧ selected (cutoffs.getD symbol 0) = true := by
  simp [initialStack]

theorem nodup_initialStack
    (cutoffs : List Nat)
    (selected : Nat → Bool) :
    (initialStack cutoffs selected).Nodup := by
  rw [initialStack, List.nodup_reverse]
  exact List.nodup_range.filter _

/-- The invariant holds when the loop starts: nothing has moved yet. -/
theorem reassigning_initial
    {entrySize tableSize : Nat}
    {a : List Entry}
    (short : distribution.length ≤ tableSize)
    (memory : tableSize ≤ a.length)
    (normalized : distribution.sum = tableSize * entrySize) :
    Reassigning entrySize tableSize (countOf distribution)
      (initialCutoffs distribution tableSize) a
      (initialStack (initialCutoffs distribution tableSize)
        (decide <| · < entrySize))
      (initialStack (initialCutoffs distribution tableSize)
        (decide <| entrySize < ·)) := by
  have length :
      (initialCutoffs distribution tableSize).length = tableSize := by
    simp only [initialCutoffs, List.length_append, List.length_replicate]
    omega
  have cutoffEq := getD_initialCutoffs distribution tableSize
  have nothingFilled :
      ∀ bucket,
        bucket < tableSize →
        ¬ Filled entrySize (initialCutoffs distribution tableSize)
          (initialStack (initialCutoffs distribution tableSize)
            (decide <| · < entrySize))
          bucket := by
    intro bucket inTable filled
    refine filled.2 (mem_initialStack.2 ?_)
    simpa [length, inTable] using filled.1
  refine ⟨length, memory, nodup_initialStack _ _, nodup_initialStack _ _,
    ?_, ?_, ?_, ?_, ?_, ?_⟩
  · intro bucket member
    simpa [length] using mem_initialStack.1 member
  · intro bucket
    rw [mem_initialStack, length]
    simp
  · intro symbol
    rw [cutoffEq]
  · intro symbol offset _ fromCutoff beforeCount
    rw [cutoffEq] at fromCutoff
    omega
  · intro bucket inTable filled
    exact (nothingFilled bucket inTable filled).elim
  · rw [← normalized, ← sum_countOf short]
    refine Finset.sum_congr rfl ?_
    intro bucket inTable
    rw [share, if_neg (nothingFilled bucket (Finset.mem_range.1 inTable)),
      cutoffEq]

/-- The entry that the last loop makes of a bucket. -/
def finished
    (entrySize : Nat)
    (distribution cutoffs : List Nat)
    (i : Nat)
    (entry : Entry) :
    Entry :=
  if cutoffs.getD i 0 = entrySize then
    { cutoff := 0
      rightValue := i
      freq0 := countOf distribution i
      offsets1 := 0
      freq1XorFreq0 := countOf distribution i ^^^ countOf distribution i }
  else
    { cutoff := cutoffs.getD i 0
      rightValue := entry.rightValue
      freq0 := countOf distribution i
      offsets1 := entry.offsets1 - cutoffs.getD i 0
      freq1XorFreq0 :=
        countOf distribution entry.rightValue ^^^ countOf distribution i }

section Finish

variable {entrySize tableSize : Nat}
variable {distribution cutoffs : List Nat}
variable {a : List Entry}
variable (invariant :
  Reassigning entrySize tableSize (countOf distribution) cutoffs a [] [])

include invariant

/-- When the loop has ended no cutoff exceeds the size of a bucket. -/
theorem cutoff_le_of_done
    {bucket : Nat}
    (inTable : bucket < tableSize) :
    cutoffs.getD bucket 0 ≤ entrySize := by
  have notOverfull := (invariant.isOverfull bucket).2
  simp only [List.not_mem_nil, imp_false, not_and] at notOverfull
  have bound := notOverfull inTable
  omega

/-- The last loop meets no failing subtraction or cast. -/
theorem finishEntry_ok
    (smallTable : tableSize ≤ 256)
    (smallEntry : entrySize ≤ 256)
    {bucket : Nat}
    (inTable : bucket < tableSize) :
    finishEntry entrySize distribution cutoffs bucket
        (a.getD bucket default) =
      .ok
        (finished entrySize distribution cutoffs bucket
          (a.getD bucket default)) := by
  have length := invariant.cutoffsLength
  have read :
      index cutoffs bucket = .ok (cutoffs.getD bucket 0) :=
    index_getD (by omega) 0
  have bound := cutoff_le_of_done invariant inTable
  have bucketFits : bucket < 2 ^ 8 := by
    omega
  by_cases exact : cutoffs.getD bucket 0 = entrySize
  · simp only [finishEntry, finished, read, ok_bind, exact, if_true,
      castU_ok bucketFits, pure_eq_ok, countOf]
  · have isFilled : Filled entrySize cutoffs [] bucket :=
      ⟨by omega, by simp⟩
    have subtract :
        subU (a.getD bucket default).offsets1 (cutoffs.getD bucket 0) =
          .ok ((a.getD bucket default).offsets1 - cutoffs.getD bucket 0) :=
      subU_ok (invariant.filledEntry bucket inTable isFilled)
    have cutoffFits : cutoffs.getD bucket 0 < 2 ^ 8 := by
      omega
    simp only [finishEntry, finished, read, ok_bind, exact, if_false,
      subtract, castU_ok cutoffFits, pure_eq_ok, countOf]

/-- Every occurrence of a symbol is answered by some bucket. -/
theorem finished_answers
    {symbol offset : Nat}
    (inTable : symbol < tableSize)
    (occurs : offset < countOf distribution symbol) :
    ∃ bucket pos,
      bucket < tableSize ∧
        pos < entrySize ∧
        (finished entrySize distribution cutoffs bucket
            (a.getD bucket default)).answer bucket pos =
          { value := symbol
            offset
            freq := countOf distribution symbol } := by
  have bound := cutoff_le_of_done invariant inTable
  by_cases own : offset < cutoffs.getD symbol 0
  · -- The occurrence stayed in the lower part of its own bucket.
    refine ⟨symbol, offset, inTable, by omega, ?_⟩
    by_cases exact : cutoffs.getD symbol 0 = entrySize
    · simp [finished, Entry.answer, ← exact]
    · have below := Nat.not_le_of_gt own
      rw [List.getD_eq_getElem?_getD] at below exact
      simp [finished, Entry.answer, exact, below]
  · -- The occurrence was moved to the upper part of another bucket.
    obtain ⟨bucket, bucketInTable, filled, holds⟩ :=
      invariant.placed symbol offset inTable (Nat.le_of_not_lt own) occurs
    have notExact : cutoffs.getD bucket 0 ≠ entrySize :=
      Nat.ne_of_lt filled.1
    have start := invariant.filledEntry bucket bucketInTable filled
    have fromStart := holds.fromStart
    have beforeEnd := holds.beforeEnd
    have isShort := filled.1
    refine ⟨bucket,
      cutoffs.getD bucket 0 +
        (offset - (a.getD bucket default).offsets1),
      bucketInTable, by omega, ?_⟩
    have place :
        (a.getD bucket default).offsets1 - cutoffs.getD bucket 0 +
            (cutoffs.getD bucket 0 +
              (offset - (a.getD bucket default).offsets1)) =
          offset := by
      omega
    rw [finished, if_neg notExact, Entry.answer,
      if_pos (Nat.le_add_right _ _)]
    simp only [place, holds.owner]
    rw [← Nat.xor_assoc, Nat.xor_comm (countOf distribution bucket),
      Nat.xor_assoc, Nat.xor_self, Nat.xor_zero]

end Finish

/-- In a normalized distribution with a single symbol no other occurs. -/
theorem countOf_of_single
    {single : Nat}
    (normalized : distribution.sum = AnsParams.ansTabSize)
    (whole : distribution[single]? = some AnsParams.ansTabSize)
    (symbol : Nat) :
    countOf distribution symbol =
      if symbol = single then AnsParams.ansTabSize else 0 := by
  have countSingle : countOf distribution single = AnsParams.ansTabSize := by
    simp [countOf, List.getD_eq_getElem?_getD, whole]
  by_cases isSingle : symbol = single
  · rw [if_pos isSingle, isSingle, countSingle]
  · rw [if_neg isSingle]
    by_contra occurs
    have positive : 0 < countOf distribution symbol :=
      Nat.pos_of_ne_zero occurs
    have inside := countOf_pos_lt_length positive
    have singleInside : single < distribution.length := by
      by_contra outside
      rw [List.getElem?_eq_none (Nat.le_of_not_lt outside)] at whole
      contradiction
    have both :
        countOf distribution symbol + countOf distribution single ≤
          ∑ other ∈ Finset.range distribution.length,
            countOf distribution other :=
      Finset.add_le_sum (fun _ _ => Nat.zero_le _)
        (Finset.mem_range.2 inside) (Finset.mem_range.2 singleInside)
        isSingle
    rw [sum_countOf (Nat.le_refl _), normalized, countSingle] at both
    omega

/-- The buckets of a single symbol answer every slot with it. -/
theorem singleSymbolBuckets_correct
    {single logAlphaSize : Nat}
    (logSmall : logAlphaSize ≤ AnsParams.ansLogTabSize)
    (counts :
      ∀ symbol,
        countOf distribution symbol =
          if symbol = single then AnsParams.ansTabSize else 0) :
    IsAliasTable distribution logAlphaSize
      (singleSymbolBuckets single (2 ^ logAlphaSize)
        (2 ^ (AnsParams.ansLogTabSize - logAlphaSize))) := by
  -- Every slot answers with the occurrence of the same number.
  suffices inOrder :
      ∀ offset,
        offset < AnsParams.ansTabSize →
        Answers distribution logAlphaSize
          (singleSymbolBuckets single (2 ^ logAlphaSize)
            (2 ^ (AnsParams.ansLogTabSize - logAlphaSize)))
          offset single offset by
    have isSingle :
        ∀ symbol, 0 < countOf distribution symbol → symbol = single := by
      intro symbol occurs
      by_contra different
      rw [counts, if_neg different] at occurs
      contradiction
    constructor
    · intro symbol offset occurs
      obtain rfl := isSingle symbol (by omega)
      rw [counts, if_pos rfl] at occurs
      exact ⟨offset, occurs, inOrder offset occurs⟩
    · intro symbol offset whole inRange
      obtain rfl := isSingle symbol (by omega)
      exact inOrder offset inRange
  intro offset occurs
  have countSingle : countOf distribution single = AnsParams.ansTabSize := by
    rw [counts, if_pos rfl]
  rw [Answers, countSingle]
  have tableTimesEntry := tableSize_mul_entrySize logSmall
  generalize AnsParams.ansLogTabSize - logAlphaSize = logEntrySize at *
  have bucketLt : offset / 2 ^ logEntrySize < 2 ^ logAlphaSize := by
    rw [Nat.div_lt_iff_lt_mul (by positivity), tableTimesEntry]
    exact occurs
  have split :
      offset = offset / 2 ^ logEntrySize * 2 ^ logEntrySize +
        offset % 2 ^ logEntrySize := by
    rw [Nat.mul_comm, Nat.div_add_mod]
  have bucket :
      (singleSymbolBuckets single (2 ^ logAlphaSize)
          (2 ^ logEntrySize))[offset / 2 ^ logEntrySize]? =
        some
          { rightValue := single
            cutoff := 0
            offsets1 := 2 ^ logEntrySize * (offset / 2 ^ logEntrySize)
            freq0 := 0
            freq1XorFreq0 := AnsParams.ansTabSize } := by
    simp [singleSymbolBuckets, bucketLt]
  have inBucket : offset % 2 ^ logEntrySize < 2 ^ logEntrySize :=
    Nat.mod_lt offset (by positivity)
  have found := lookup_bucket bucket inBucket
  rw [← split] at found
  rw [found]
  simp [Entry.answer, Nat.div_add_mod]

section Build

variable {distribution : List Nat}
variable {logAlphaSize : Nat}

/-- The buckets that the last loop writes. -/
def finishedBuckets
    (entrySize tableSize : Nat)
    (distribution cutoffs : List Nat)
    (a : List Entry) :
    List Entry :=
  (a.take tableSize).zipIdx.map
    (fun item => finished entrySize distribution cutoffs item.2 item.1)

variable {cutoffs : List Nat}

theorem getElem?_finishedBuckets
    {entrySize tableSize bucket : Nat}
    {a : List Entry}
    (memory : tableSize ≤ a.length)
    (inTable : bucket < tableSize) :
    (finishedBuckets entrySize tableSize distribution cutoffs a)[bucket]? =
      some
        (finished entrySize distribution cutoffs bucket
          (a.getD bucket default)) := by
  have inList : bucket < a.length :=
    Nat.lt_of_lt_of_le inTable memory
  simp [finishedBuckets, List.getElem?_take_of_lt inTable, inList]

theorem length_finishedBuckets
    {entrySize tableSize : Nat}
    {a : List Entry}
    (memory : tableSize ≤ a.length) :
    (finishedBuckets entrySize tableSize distribution cutoffs a).length =
      tableSize := by
  simp [finishedBuckets, memory]

/-- The last loop writes the same buckets to memories that agree. -/
theorem finishedBuckets_agree
    {entrySize tableSize : Nat}
    {a memory : List Entry}
    (invariant :
      Reassigning entrySize tableSize (countOf distribution) cutoffs a [] [])
    (agree : AgreeOnFilled entrySize tableSize cutoffs [] a memory) :
    finishedBuckets entrySize tableSize distribution cutoffs a =
      finishedBuckets entrySize tableSize distribution cutoffs memory := by
  apply List.ext_getElem?
  intro bucket
  by_cases inTable : bucket < tableSize
  · rw [getElem?_finishedBuckets invariant.entriesLength inTable,
      getElem?_finishedBuckets agree.1 inTable]
    by_cases exact : cutoffs.getD bucket 0 = entrySize
    · rw [finished, if_pos exact, finished, if_pos exact]
    · have bound := cutoff_le_of_done invariant inTable
      have isFilled : Filled entrySize cutoffs [] bucket :=
        ⟨by omega, by simp⟩
      obtain ⟨sameOwner, sameOffset⟩ := agree.2 bucket inTable isFilled
      rw [finished, if_neg exact, finished, if_neg exact, sameOwner,
        sameOffset]
  · rw [List.getElem?_eq_none, List.getElem?_eq_none]
    · rw [length_finishedBuckets agree.1]
      omega
    · rw [length_finishedBuckets invariant.entriesLength]
      omega

/-- The buckets of the general path find every occurrence. -/
theorem finishedBuckets_correct
    {a : List Entry}
    (short : distribution.length ≤ 2 ^ logAlphaSize)
    (logSmall : logAlphaSize ≤ AnsParams.ansLogTabSize)
    (noSingle : ∀ count ∈ distribution, count ≠ AnsParams.ansTabSize)
    (invariant :
      Reassigning (2 ^ (AnsParams.ansLogTabSize - logAlphaSize))
        (2 ^ logAlphaSize) (countOf distribution) cutoffs a [] []) :
    IsAliasTable distribution logAlphaSize
      (finishedBuckets (2 ^ (AnsParams.ansLogTabSize - logAlphaSize))
        (2 ^ logAlphaSize) distribution cutoffs a) := by
  constructor
  rotate_left
  · intro symbol offset whole inRange
    have inside : symbol < distribution.length :=
      countOf_pos_lt_length (by omega)
    have isCount : distribution[symbol] = AnsParams.ansTabSize := by
      simpa [countOf, inside] using whole
    exact (noSingle _ (List.getElem_mem inside) isCount).elim
  intro symbol offset occurs
  have inTable : symbol < 2 ^ logAlphaSize :=
    Nat.lt_of_lt_of_le
      (countOf_pos_lt_length (Nat.lt_of_le_of_lt (Nat.zero_le _) occurs))
      short
  obtain ⟨bucket, pos, bucketInTable, inBucket, answered⟩ :=
    finished_answers invariant inTable occurs
  have atBucket :
      (finishedBuckets (2 ^ (AnsParams.ansLogTabSize - logAlphaSize))
          (2 ^ logAlphaSize) distribution cutoffs a)[bucket]? =
        some
          (finished (2 ^ (AnsParams.ansLogTabSize - logAlphaSize))
            distribution cutoffs bucket (a.getD bucket default)) :=
    getElem?_finishedBuckets invariant.entriesLength bucketInTable
  refine ⟨bucket * 2 ^ (AnsParams.ansLogTabSize - logAlphaSize) + pos, ?_, ?_⟩
  · rw [← tableSize_mul_entrySize logSmall]
    calc
      bucket * 2 ^ (AnsParams.ansLogTabSize - logAlphaSize) + pos
          < (bucket + 1) * 2 ^ (AnsParams.ansLogTabSize - logAlphaSize) := by
            rw [Nat.succ_mul]
            omega
      _ ≤ 2 ^ logAlphaSize *
            2 ^ (AnsParams.ansLogTabSize - logAlphaSize) :=
          Nat.mul_le_mul_right _ bucketInTable
  · rw [Answers, lookup_bucket atBucket inBucket, answered]

/-- The reassignment and the last loop on any memory. -/
private theorem build_general
    (normalized : distribution.sum = AnsParams.ansTabSize)
    (short : distribution.length ≤ 2 ^ logAlphaSize)
    (logLarge : 4 ≤ logAlphaSize)
    (logSmall : logAlphaSize ≤ 8)
    (search : singleSymbol distribution = .ok none)
    (noSingle : ∀ count ∈ distribution, count ≠ AnsParams.ansTabSize) :
    ∃ buckets,
      buckets.length = 2 ^ logAlphaSize ∧
        IsAliasTable distribution logAlphaSize buckets ∧
        ∀ a : List Entry,
          2 ^ logAlphaSize ≤ a.length →
          build distribution AnsParams.ansTabSize (2 ^ logAlphaSize)
              (2 ^ (AnsParams.ansLogTabSize - logAlphaSize)) a =
            .ok (buckets ++ a.drop (2 ^ logAlphaSize)) := by
  have logInTable : logAlphaSize ≤ AnsParams.ansLogTabSize :=
    Nat.le_trans logSmall (by decide)
  have smallTable : 2 ^ logAlphaSize ≤ 256 :=
    Nat.pow_le_pow_right (show 0 < 2 by decide) logSmall
  have smallEntry :
      2 ^ (AnsParams.ansLogTabSize - logAlphaSize) ≤ 256 :=
    Nat.pow_le_pow_right (show 0 < 2 by decide)
      (show AnsParams.ansLogTabSize - logAlphaSize ≤ 8 by
        simp only [AnsParams.ansLogTabSize]
        omega)
  have initially :=
    fun (a : List Entry) (memory : 2 ^ logAlphaSize ≤ a.length) =>
      reassigning_initial short memory
        (normalized.trans (tableSize_mul_entrySize logInTable).symm)
  have agreeInitially :
      ∀ a memory : List Entry,
        2 ^ logAlphaSize ≤ memory.length →
        AgreeOnFilled (2 ^ (AnsParams.ansLogTabSize - logAlphaSize))
          (2 ^ logAlphaSize)
          (initialCutoffs distribution (2 ^ logAlphaSize))
          (initialStack
            (initialCutoffs distribution (2 ^ logAlphaSize))
            (decide <| · < 2 ^ (AnsParams.ansLogTabSize - logAlphaSize)))
          a memory := by
    intro a memory enough
    refine ⟨enough, ?_⟩
    intro bucket inTable filled
    refine (filled.2 (mem_initialStack.2 ⟨?_, ?_⟩)).elim
    · simp only [initialCutoffs, List.length_append, List.length_replicate]
      omega
    · simpa using filled.1
  -- Any memory will do to name the buckets; take one of defaults.
  have blank :
      2 ^ logAlphaSize ≤
        (List.replicate (2 ^ logAlphaSize) (default : Entry)).length := by
    simp
  obtain ⟨cutoffs, reference, _, runReference, _, _, _, doneReference, _⟩ :=
    reassign_ok (initially _ blank) (agreeInitially _ _ blank)
  refine ⟨_, length_finishedBuckets doneReference.entriesLength,
    finishedBuckets_correct short logInTable noSingle doneReference, ?_⟩
  intro a memory
  obtain ⟨cutoffs', a', reference', run, runReference', length', drop', done,
      agree⟩ :=
    reassign_ok (initially a memory) (agreeInitially a _ blank)
  rw [runReference] at runReference'
  cases runReference'
  have finish :
      ∀ item ∈ (a'.take (2 ^ logAlphaSize)).zipIdx,
        finishEntry (2 ^ (AnsParams.ansLogTabSize - logAlphaSize))
            distribution cutoffs item.2 item.1 =
          .ok
            (finished (2 ^ (AnsParams.ansLogTabSize - logAlphaSize))
              distribution cutoffs item.2 item.1) := by
    rintro ⟨entry, i⟩ member
    have position := List.mem_zipIdx_iff_getElem?.1 member
    have inTable : i < 2 ^ logAlphaSize := by
      have inside := (List.getElem?_eq_some_iff.1 position).1
      simp only [List.length_take] at inside
      omega
    have entryEq : a'.getD i default = entry := by
      rw [List.getElem?_take_of_lt inTable] at position
      simp [List.getD_eq_getElem?_getD, position]
    have finishes := finishEntry_ok done smallTable smallEntry inTable
    rwa [entryEq] at finishes
  have sameBuckets := finishedBuckets_agree done agree
  simp only [build, search, normalized, ok_bind, ne_eq, not_true_eq_false,
    if_false, require_ok smallTable, run, mapM_ok finish, pure_eq_ok, drop']
  rw [← sameBuckets]
  rfl

/-- Building a table for a normalized distribution succeeds. -/
theorem build_ok
    (normalized : distribution.sum = AnsParams.ansTabSize)
    (short : distribution.length ≤ 2 ^ logAlphaSize)
    (logLarge : 4 ≤ logAlphaSize)
    (logSmall : logAlphaSize ≤ 8) :
    ∃ buckets,
      buckets.length = 2 ^ logAlphaSize ∧
        IsAliasTable distribution logAlphaSize buckets ∧
        ∀ a : List Entry,
          2 ^ logAlphaSize ≤ a.length →
          build distribution AnsParams.ansTabSize (2 ^ logAlphaSize)
              (2 ^ (AnsParams.ansLogTabSize - logAlphaSize)) a =
            .ok (buckets ++ a.drop (2 ^ logAlphaSize)) := by
  obtain ⟨single, search, found, complete⟩ :=
    singleSymbol_ok (Nat.le_of_eq normalized)
  cases single with
  | none =>
      exact build_general normalized short logLarge logSmall search
        (complete rfl)
  | some symbol =>
      have whole := found symbol rfl
      have logInTable : logAlphaSize ≤ AnsParams.ansLogTabSize :=
        Nat.le_trans logSmall (by decide)
      have smallTable : 2 ^ logAlphaSize ≤ 256 :=
        Nat.pow_le_pow_right (show 0 < 2 by decide) logSmall
      have symbolSmall : symbol < 2 ^ 8 := by
        have inside := (List.getElem?_eq_some_iff.1 whole).1
        omega
      have correct :=
        singleSymbolBuckets_correct logInTable
          (countOf_of_single normalized whole)
      refine ⟨_, ?_, correct, ?_⟩
      · simp [singleSymbolBuckets]
      · intro a _
        simp only [build, search, normalized, ok_bind, ne_eq,
          not_true_eq_false, if_false, castU_ok symbolSmall, pure_eq_ok]

end Build

end InitAliasTable

/--
A normalized distribution of an alphabet that fits the table gets the same
buckets whatever was in the memory before; the memory after them is kept.
-/
theorem initAliasTable_ok
    (normalized : distribution.sum = AnsParams.ansTabSize)
    (short : distribution.length ≤ 2 ^ logAlphaSize)
    (logLarge : 4 ≤ logAlphaSize)
    (logSmall : logAlphaSize ≤ 8) :
    ∃ buckets,
      buckets.length = 2 ^ logAlphaSize ∧
        IsAliasTable distribution logAlphaSize buckets ∧
        ∀ a : List Entry,
          2 ^ logAlphaSize ≤ a.length →
          initAliasTable distribution AnsParams.ansLogTabSize logAlphaSize
              a =
            .ok (buckets ++ a.drop (2 ^ logAlphaSize)) := by
  have logInTable : logAlphaSize ≤ AnsParams.ansLogTabSize :=
    Nat.le_trans logSmall (by decide)
  have rangeEq : 1 <<< AnsParams.ansLogTabSize = AnsParams.ansTabSize :=
    rfl
  have tableInRange : ¬ AnsParams.ansTabSize < 2 ^ logAlphaSize := by
    have grows : 2 ^ logAlphaSize ≤ 2 ^ AnsParams.ansLogTabSize :=
      Nat.pow_le_pow_right (by decide) logInTable
    rw [AnsParams.ansTabSize, Nat.one_shiftLeft]
    omega
  have trimmedSum := (sum_trim distribution).trans normalized
  have trimmedNonempty :
      distribution.rdropWhile (fun count : Nat => count = 0) ≠ [] := by
    intro empty
    rw [empty] at trimmedSum
    exact absurd trimmedSum (by decide)
  have trimmedShort :
      (distribution.rdropWhile (fun count : Nat => count = 0)).length ≤
        2 ^ logAlphaSize :=
    Nat.le_trans (List.rdropWhile_prefix _ distribution).length_le short
  obtain ⟨buckets, length, correct, builds⟩ :=
    InitAliasTable.build_ok trimmedSum trimmedShort logLarge logSmall
  refine ⟨buckets, length, ?_, ?_⟩
  · have sameAnswers :
        ∀ slot symbol offset,
          Answers (distribution.rdropWhile (· = 0)) logAlphaSize buckets slot
              symbol offset →
          Answers distribution logAlphaSize buckets slot symbol offset := by
      intro slot symbol offset answers
      rwa [Answers, countOf_trim] at answers
    constructor
    · intro symbol offset occurs
      obtain ⟨slot, inRange, answers⟩ :=
        correct.finds symbol offset (by rwa [countOf_trim])
      exact ⟨slot, inRange, sameAnswers _ _ _ answers⟩
    · intro symbol offset whole inRange
      exact sameAnswers _ _ _
        (correct.inOrder symbol offset (by rwa [countOf_trim]) inRange)
  · intro a memory
    simp only [initAliasTable, rangeEq, Nat.one_shiftLeft, tableInRange,
      trimmedNonempty, if_false, Nat.not_lt_of_le trimmedShort,
      entrySize_eq logInTable, builds a memory]

/-- A slot of a table does not depend on what follows the table. -/
theorem lookup_append
    {buckets : List Entry}
    {logAlphaSize slot : Nat}
    (rest : List Entry)
    (logSmall : logAlphaSize ≤ AnsParams.ansLogTabSize)
    (length : buckets.length = 2 ^ logAlphaSize)
    (inRange : slot < AnsParams.ansTabSize)
    (entrySizeMinus1 : Nat) :
    lookup (buckets ++ rest) slot (AnsParams.ansLogTabSize - logAlphaSize)
        entrySizeMinus1 =
      lookup buckets slot (AnsParams.ansLogTabSize - logAlphaSize)
        entrySizeMinus1 := by
  have inside :
      slot >>> (AnsParams.ansLogTabSize - logAlphaSize) < buckets.length := by
    rw [length, Nat.shiftRight_eq_div_pow,
      Nat.div_lt_iff_lt_mul (by positivity), tableSize_mul_entrySize logSmall]
    exact inRange
  simp only [lookup, index, List.getElem?_append_left inside]

/--
The slots and the occurrences of a table correspond one to one: `slotOf`
names the slot of an occurrence, and every slot has one.
-/
theorem IsAliasTable.slotOf
    (correct : IsAliasTable distribution logAlphaSize table)
    (normalized : distribution.sum = AnsParams.ansTabSize) :
    ∃ slotOf : Nat → Nat → Nat,
      (∀ symbol offset,
        offset < countOf distribution symbol →
        slotOf symbol offset < AnsParams.ansTabSize ∧
          Answers distribution logAlphaSize table (slotOf symbol offset)
            symbol offset) ∧
        ∀ slot,
          slot < AnsParams.ansTabSize →
          ∃ symbol offset,
            offset < countOf distribution symbol ∧
              slotOf symbol offset = slot := by
  classical
  have choice :
      ∀ symbol offset,
        ∃ slot,
          offset < countOf distribution symbol →
          slot < AnsParams.ansTabSize ∧
            Answers distribution logAlphaSize table slot symbol
              offset := by
    intro symbol offset
    by_cases occurs : offset < countOf distribution symbol
    · obtain ⟨slot, found⟩ := correct.finds symbol offset occurs
      exact ⟨slot, fun _ => found⟩
    · exact ⟨0, fun contradiction => (occurs contradiction).elim⟩
  choose slotOf found using choice
  refine ⟨slotOf, found, ?_⟩
  -- As many occurrences as slots, and no two of them share a slot.
  let occurrences : Finset ((_ : Nat) × Nat) :=
    (Finset.range distribution.length).sigma
      (fun symbol => Finset.range (countOf distribution symbol))
  have occurrencesCard : occurrences.card = AnsParams.ansTabSize := by
    rw [Finset.card_sigma]
    simp only [Finset.card_range]
    rw [sum_countOf (Nat.le_refl _), normalized]
  have memOccurrences :
      ∀ occurrence ∈ occurrences,
        occurrence.2 < countOf distribution occurrence.1 := by
    intro occurrence member
    exact Finset.mem_range.1 (Finset.mem_sigma.1 member).2
  have injective :
      Set.InjOn
        (fun occurrence : (_ : Nat) × Nat =>
          slotOf occurrence.1 occurrence.2)
        occurrences := by
    rintro ⟨symbol, offset⟩ member ⟨symbol', offset'⟩ member' sameSlot
    have answer := (found symbol offset (memOccurrences _ member)).2
    have answer' := (found symbol' offset' (memOccurrences _ member')).2
    simp only at sameSlot
    rw [Answers, sameSlot, answer'] at answer
    injection answer with sameAnswer
    injection sameAnswer with sameSymbol sameOffset
    subst sameSymbol
    subst sameOffset
    rfl
  have intoSlots :
      occurrences.image
          (fun occurrence => slotOf occurrence.1 occurrence.2) ⊆
        Finset.range AnsParams.ansTabSize := by
    intro slot member
    obtain ⟨occurrence, isOccurrence, rfl⟩ := Finset.mem_image.1 member
    exact Finset.mem_range.2
      (found _ _ (memOccurrences _ isOccurrence)).1
  have ontoSlots :=
    Finset.eq_of_subset_of_card_le intoSlots
      (by
        rw [Finset.card_image_of_injOn injective, occurrencesCard,
          Finset.card_range])
  intro slot inRange
  have member := Finset.mem_range.2 inRange
  rw [← ontoSlots] at member
  obtain ⟨occurrence, isOccurrence, isSlot⟩ := Finset.mem_image.1 member
  exact ⟨occurrence.1, occurrence.2, memOccurrences _ isOccurrence, isSlot⟩

/-- Every slot of an alias table answers with an occurrence of a symbol. -/
theorem IsAliasTable.answers_slot
    (correct : IsAliasTable distribution logAlphaSize table)
    (normalized : distribution.sum = AnsParams.ansTabSize) :
    ∃ answer : Nat → Symbol,
      ∀ slot,
        slot < AnsParams.ansTabSize →
        Answers distribution logAlphaSize table slot (answer slot).value
            (answer slot).offset ∧
          (answer slot).freq = countOf distribution (answer slot).value ∧
          (answer slot).offset <
            countOf distribution (answer slot).value := by
  obtain ⟨slotOf, found, onto⟩ := correct.slotOf normalized
  have choice :
      ∀ slot,
        ∃ answer : Symbol,
          slot < AnsParams.ansTabSize →
          Answers distribution logAlphaSize table slot answer.value
              answer.offset ∧
            answer.freq = countOf distribution answer.value ∧
            answer.offset < countOf distribution answer.value := by
    intro slot
    by_cases inRange : slot < AnsParams.ansTabSize
    · obtain ⟨symbol, offset, occurs, rfl⟩ := onto slot inRange
      exact
        ⟨⟨symbol, offset, countOf distribution symbol⟩,
          fun _ => ⟨(found symbol offset occurs).2, rfl, occurs⟩⟩
    · exact ⟨⟨0, 0, 0⟩, fun contradiction => (inRange contradiction).elim⟩
  choose answer answers using choice
  exact ⟨answer, answers⟩

/--
A normalized distribution of an alphabet that fits the table gets a table
whatever was in the memory before, and the lookups of its 4096 slots go one
to one onto the occurrences of the symbols.
-/
theorem initAliasTable_bijOn
    {distribution : List Nat}
    {logAlphaSize : Nat}
    {a : List Entry}
    (normalized : distribution.sum = AnsParams.ansTabSize)
    (short : distribution.length ≤ 2 ^ logAlphaSize)
    (logLarge : 5 ≤ logAlphaSize)
    (logSmall : logAlphaSize ≤ 8)
    (memory : 2 ^ logAlphaSize ≤ a.length) :
    ∃ table,
      initAliasTable distribution AnsParams.ansLogTabSize logAlphaSize a =
          .ok table ∧
        ∃ answer : Nat → Symbol,
          (∀ slot,
            slot < AnsParams.ansTabSize →
            lookup table slot (AnsParams.ansLogTabSize - logAlphaSize)
                  (1 <<< (AnsParams.ansLogTabSize - logAlphaSize) - 1) =
                .ok (answer slot) ∧
              (answer slot).freq =
                countOf distribution (answer slot).value) ∧
            Set.BijOn
              (fun slot => ((answer slot).value, (answer slot).offset))
              {slot | slot < AnsParams.ansTabSize}
              {occurrence |
                occurrence.2 < countOf distribution occurrence.1} := by
  have logInTable : logAlphaSize ≤ AnsParams.ansLogTabSize :=
    Nat.le_trans logSmall (by decide)
  obtain ⟨buckets, length, correct, builds⟩ :=
    initAliasTable_ok normalized short (Nat.le_of_succ_le logLarge) logSmall
  obtain ⟨answer, answers⟩ := correct.answers_slot normalized
  have looksUp :
      ∀ slot,
        slot < AnsParams.ansTabSize →
        lookup buckets slot (AnsParams.ansLogTabSize - logAlphaSize)
            (1 <<< (AnsParams.ansLogTabSize - logAlphaSize) - 1) =
          .ok (answer slot) := by
    intro slot inRange
    obtain ⟨found, freq, -⟩ := answers slot inRange
    rw [Answers, ← freq] at found
    exact found
  refine ⟨_, builds a memory, answer, ?_, ?_, ?_, ?_⟩
  · intro slot inRange
    refine ⟨?_, (answers slot inRange).2.1⟩
    rw [lookup_append _ logInTable length inRange]
    exact looksUp slot inRange
  · intro slot inRange
    exact (answers slot inRange).2.2
  · -- Two slots with one answer would leave an occurrence without a slot.
    obtain ⟨slotOf, found, onto⟩ := correct.slotOf normalized
    have back :
        ∀ slot,
          slot < AnsParams.ansTabSize →
          slotOf (answer slot).value (answer slot).offset = slot := by
      intro slot inRange
      obtain ⟨symbol, offset, occurs, rfl⟩ := onto slot inRange
      have answer' := (found symbol offset occurs).2
      rw [Answers, looksUp _ inRange] at answer'
      injection answer' with same
      rw [same]
    intro slot inRange slot' inRange' same
    rw [← back slot inRange, ← back slot' inRange']
    injection same with sameValue sameOffset
    rw [sameValue, sameOffset]
  · rintro ⟨symbol, offset⟩ occurs
    obtain ⟨slot, inRange, found⟩ := correct.finds symbol offset occurs
    refine ⟨slot, inRange, ?_⟩
    rw [Answers, looksUp slot inRange] at found
    injection found with same
    simp only [same]

/-- A skewed distribution of three symbols. -/
theorem initAliasTable_bijOn_skewed :
    ∃ table,
      initAliasTable [1, 4090, 0, 5] AnsParams.ansLogTabSize 5
            (List.replicate 32 default) =
          .ok table ∧
        ∃ answer : Nat → Symbol,
          (∀ slot,
            slot < AnsParams.ansTabSize →
            lookup table slot (AnsParams.ansLogTabSize - 5)
                  (1 <<< (AnsParams.ansLogTabSize - 5) - 1) =
                .ok (answer slot) ∧
              (answer slot).freq =
                countOf [1, 4090, 0, 5] (answer slot).value) ∧
            Set.BijOn
              (fun slot => ((answer slot).value, (answer slot).offset))
              {slot | slot < AnsParams.ansTabSize}
              {occurrence |
                occurrence.2 <
                  countOf [1, 4090, 0, 5] occurrence.1} :=
  initAliasTable_bijOn (by decide) (by decide) (by decide) (by decide)
    (by decide)

end Jxlz
