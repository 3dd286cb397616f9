import Jxlz.Entropy.HistogramGeneral

namespace Jxlz

/-!
# Histograms are read back

Normalized counts are written in one of three forms; whichever it is, the
decoder returns the counts up to the last one that is not zero.
-/

namespace ReadHistogram

/-! ## The symbols that occur -/

/-- The symbols below a position that have a count. -/
def occurring
    (counts : List Nat)
    (position : Nat) :
    List Nat :=
  (List.range position).filter (fun i => decide (0 < counts.getD i 0))

variable {counts : List Nat}

theorem mem_occurring
    {position i : Nat} :
    i ∈ occurring counts position ↔ i < position ∧ 0 < counts.getD i 0 := by
  simp [occurring]

/-- The loop counts the symbols that occur, and remembers the first two. -/
theorem noteSymbol_ok
    {position count : Nat}
    (few : counts.length ≤ AnsParams.ansMaxAlphabetSize)
    (isCount : counts[position]? = some count) :
    WriteHistogramBody.noteSymbol
        ((occurring counts position).length,
          (occurring counts position).take 2) (count, position) =
      .ok
        ((occurring counts (position + 1)).length,
          (occurring counts (position + 1)).take 2) := by
  have inside := (List.getElem?_eq_some_iff.1 isCount).1
  have fits : position < 2 ^ 8 := by
    simp only [AnsParams.ansMaxAlphabetSize] at few
    omega
  unfold WriteHistogramBody.noteSymbol
  dsimp only
  by_cases positive : 0 < count
  · have next : occurring counts (position + 1) =
        occurring counts position ++ [position] := by
      unfold occurring
      rw [List.range_succ, List.filter_append]
      simp [isCount, positive]
    rw [if_pos positive, next, List.length_append, List.take_append]
    simp only [kMaxNumSymbolsForSmallCode, castU_ok fits, ok_bind,
      List.length_singleton]
    by_cases room : (occurring counts position).length < 2
    · rw [if_pos room, List.take_of_length_le (Nat.le_of_lt room)]
      have one : List.take (2 - (occurring counts position).length) [position] =
          [position] :=
        List.take_of_length_le (by simp; omega)
      rw [one]
      rfl
    · have none : 2 - (occurring counts position).length = 0 := by
        omega
      rw [if_neg room, none, List.take_zero, List.append_nil]
      rfl
  · have next : occurring counts (position + 1) = occurring counts position := by
      unfold occurring
      rw [List.range_succ, List.filter_append]
      simp [isCount, Nat.le_zero.1 (Nat.le_of_not_lt positive)]
    rw [if_neg positive, next]
    rfl

theorem noteSymbols_ok
    (few : counts.length ≤ AnsParams.ansMaxAlphabetSize) :
    counts.zipIdx.foldlM WriteHistogramBody.noteSymbol (0, []) =
      .ok
        ((occurring counts counts.length).length,
          (occurring counts counts.length).take 2) := by
  obtain ⟨result, ran, isResult⟩ :=
    @foldlM_zipIdx_ok _ _ WriteHistogramBody.noteSymbol
      (fun position state =>
        state =
          ((occurring counts position).length,
            (occurring counts position).take 2))
      (0, []) counts rfl
      (by
        rintro position count _ isCount rfl
        exact ⟨_, noteSymbol_ok few isCount, rfl⟩)
  rw [ran, isResult]

/-! ## Flat histograms -/

/-- The counts of a flat histogram, of which the first ones are bigger. -/
def flatCounts
    (length base bigger : Nat) :
    List Nat :=
  (List.range length).map (fun i => base + (decide (i < bigger)).toNat)

theorem addOne_ok
    {length base position : Nat}
    (inside : position < length) :
    addOne (flatCounts length base position) position =
      .ok (flatCounts length base (position + 1)) := by
  have inList : position < (flatCounts length base position).length := by
    simp [flatCounts, inside]
  unfold addOne
  rw [index_ok inList, ok_bind]
  refine congrArg Except.ok ?_
  apply List.ext_getElem (by simp [flatCounts])
  intro i _ _
  rw [List.getElem_set]
  simp only [flatCounts, List.getElem_map, List.getElem_range]
  rcases Nat.lt_trichotomy i position with below | rfl | above
  · rw [if_neg (by omega), decide_eq_true below,
      decide_eq_true (Nat.lt_succ_of_lt below)]
  · rw [if_pos rfl, decide_eq_false (Nat.lt_irrefl i),
      decide_eq_true (Nat.lt_succ_self i)]
    rfl
  · rw [if_neg (by omega), decide_eq_false (by omega),
      decide_eq_false (by omega)]

theorem createFlatHistogram_ok
    {length totalCount : Nat}
    (positive : 0 < length)
    (enough : length ≤ totalCount) :
    createFlatHistogram length totalCount =
      .ok
        (flatCounts length (totalCount / length) (totalCount % length)) := by
  have small : totalCount % length < length := Nat.mod_lt _ positive
  have start :
      List.replicate length (totalCount / length) =
        flatCounts length (totalCount / length) 0 := by
    apply List.ext_getElem (by simp [flatCounts])
    intro i _ _
    simp [flatCounts]
  obtain ⟨result, ran, isResult⟩ :=
    foldlM_range_ok
      (fun position state =>
        state = flatCounts length (totalCount / length) position)
      (totalCount % length) start
      (by
        rintro position _ inside rfl
        exact ⟨_, addOne_ok (Nat.lt_trans inside small), rfl⟩)
  unfold createFlatHistogram
  rw [require_ok positive, ok_bind, require_ok enough, ok_bind, ran, isResult]

/-- Counts that end with one that is not zero are not shortened. -/
theorem trimmed_of_last
    (last : 0 < counts.getD (counts.length - 1) 0) :
    trimmedAlphabetSizeForCounts counts = counts.length := by
  unfold trimmedAlphabetSizeForCounts
  refine congrArg List.length (List.rdropWhile_eq_self_iff.2 ?_)
  intro nonempty
  rw [List.getLast_eq_getElem nonempty]
  rw [List.getD_eq_getElem _ _ (by
    have := List.length_pos_iff.2 nonempty
    omega)] at last
  simp only [decide_eq_true_eq]
  omega

theorem eq_flatCounts_of_isFlat
    (last : 0 < counts.getD (counts.length - 1) 0)
    (isFlat : isFlatHistogram counts = true) :
    counts =
      flatCounts counts.length (AnsParams.ansTabSize / counts.length)
        (AnsParams.ansTabSize % counts.length) := by
  unfold isFlatHistogram at isFlat
  simp only [trimmed_of_last last, List.take_length] at isFlat
  split at isFlat
  · cases isFlat
  · rw [List.all_eq_true] at isFlat
    apply List.ext_getElem (by simp [flatCounts])
    intro i inside _
    have member : (counts[i], i) ∈ counts.zipIdx := by
      rw [List.mem_zipIdx_iff_getElem?]
      exact List.getElem?_eq_getElem inside
    have sameCount := isFlat _ member
    simp only [beq_iff_eq] at sameCount
    simp only [flatCounts, List.getElem_map, List.getElem_range]
    exact sameCount

/-! ## Small codes -/

/-- The counts of symbols that do not occur are zero. -/
theorem getD_of_not_occurring
    {i : Nat}
    (absent : i ∉ occurring counts counts.length) :
    counts.getD i 0 = 0 := by
  by_contra notZero
  refine absent (mem_occurring.2 ⟨?_, Nat.pos_of_ne_zero notZero⟩)
  by_contra outside
  rw [List.getD_eq_default _ _ (Nat.le_of_not_lt outside)] at notZero
  exact notZero rfl

/-- The last symbol occurs. -/
theorem last_occurring
    (last : 0 < counts.getD (counts.length - 1) 0) :
    counts.length - 1 ∈ occurring counts counts.length := by
  refine mem_occurring.2 ⟨?_, last⟩
  by_contra outside
  rw [List.getD_eq_default _ _ (Nat.le_of_not_lt outside)] at last
  exact Nat.lt_irrefl 0 last

/-- One symbol takes the whole total. -/
theorem eq_of_occurring_one
    {symbol : Nat}
    (last : 0 < counts.getD (counts.length - 1) 0)
    (only : occurring counts counts.length = [symbol]) :
    counts =
      (List.replicate (symbol + 1) 0).set symbol counts.sum := by
  have isLast := last_occurring last
  rw [only, List.mem_singleton] at isLast
  have isSymbol : symbol ∈ occurring counts counts.length := by
    rw [only]
    exact List.mem_singleton_self symbol
  have inside := (mem_occurring.1 isSymbol).1
  have shape :
      counts = (List.replicate (symbol + 1) 0).set symbol (counts.getD symbol 0) := by
    apply List.ext_getElem (by simp; omega)
    intro i inList _
    rw [List.getElem_set]
    by_cases here : symbol = i
    · subst here
      rw [if_pos rfl, List.getD_eq_getElem _ _ inList]
    · have zero : counts.getD i 0 = 0 := by
        apply getD_of_not_occurring
        rw [only, List.mem_singleton]
        exact Ne.symm here
      rw [if_neg here, List.getElem_replicate, ← zero,
        List.getD_eq_getElem _ _ inList]
  have sum := congrArg List.sum shape
  have changed :=
    NormalizeHistogramCounts.sum_set_add (List.replicate (symbol + 1) 0)
      (show symbol < (List.replicate (symbol + 1) 0).length by simp)
      (counts.getD symbol 0)
  simp only [List.sum_replicate, smul_zero, Nat.zero_add] at changed
  rw [← sum] at changed
  have start : (List.replicate (symbol + 1) 0).getD symbol 0 = 0 := by
    simp [List.getD_eq_getElem?_getD]
  rw [start, Nat.add_zero] at changed
  rw [changed]
  exact shape

/-- Two symbols share the total. -/
theorem eq_of_occurring_two
    {first second : Nat}
    (last : 0 < counts.getD (counts.length - 1) 0)
    (both : occurring counts counts.length = [first, second]) :
    first < second ∧
      counts.getD first 0 + counts.getD second 0 = counts.sum ∧
      counts =
        ((List.replicate (second + 1) 0).set first (counts.getD first 0)).set
          second (counts.getD second 0) := by
  have increasing : (occurring counts counts.length).Pairwise (· < ·) :=
    List.Pairwise.filter _ List.pairwise_lt_range
  rw [both] at increasing
  have before : first < second := by
    simpa using increasing
  have isFirst : first ∈ occurring counts counts.length := by
    rw [both]
    exact List.mem_cons_self
  have isSecond : second ∈ occurring counts counts.length := by
    rw [both]
    exact List.mem_cons_of_mem _ (List.mem_singleton_self second)
  have firstInside := (mem_occurring.1 isFirst).1
  have secondInside := (mem_occurring.1 isSecond).1
  have isLast := last_occurring last
  rw [both, List.mem_cons, List.mem_singleton] at isLast
  have shape :
      counts =
        ((List.replicate (second + 1) 0).set first (counts.getD first 0)).set
          second (counts.getD second 0) := by
    apply List.ext_getElem (by simp; omega)
    intro i inList _
    rw [List.getElem_set, List.getElem_set]
    by_cases atSecond : second = i
    · subst atSecond
      rw [if_pos rfl, List.getD_eq_getElem _ _ inList]
    · rw [if_neg atSecond]
      by_cases atFirst : first = i
      · subst atFirst
        rw [if_pos rfl, List.getD_eq_getElem _ _ inList]
      · have zero : counts.getD i 0 = 0 := by
          apply getD_of_not_occurring
          rw [both, List.mem_cons, List.mem_singleton]
          rintro (rfl | rfl)
          · exact atFirst rfl
          · exact atSecond rfl
        rw [if_neg atFirst, List.getElem_replicate, ← zero,
          List.getD_eq_getElem _ _ inList]
  refine ⟨before, ?_, shape⟩
  have sum := congrArg List.sum shape
  have setSecond :=
    NormalizeHistogramCounts.sum_set_add
      ((List.replicate (second + 1) 0).set first (counts.getD first 0))
      (show second < _ by simp)
      (counts.getD second 0)
  have setFirst :=
    NormalizeHistogramCounts.sum_set_add (List.replicate (second + 1) 0)
      (show first < _ by simp; omega)
      (counts.getD first 0)
  have zeros :
      ∀ i, (List.replicate (second + 1) 0).getD i 0 = 0 := by
    intro i
    simp [List.getD_eq_getElem?_getD, List.getElem?_replicate]
    split <;> rfl
  have firstInList : first < (List.replicate (second + 1) 0).length := by
    simp
    omega
  rw [getD_set firstInList, if_neg (by omega), zeros] at setSecond
  rw [zeros] at setFirst
  simp only [List.sum_replicate, smul_zero, Nat.zero_add, Nat.add_zero]
    at setFirst setSecond
  rw [← sum, setFirst] at setSecond
  exact setSecond.symm

/-- With a third symbol no other count reaches half of the total. -/
theorem lt_half_of_occurring
    (normalized : counts.sum = AnsParams.ansTabSize)
    (several : 2 < (occurring counts counts.length).length) :
    ∀ i,
      i < counts.length →
      i ≠ chooseOmitPosition counts →
      counts.getD i 0 < 2 ^ 11 := by
  intro i inside notOmitted
  have positive : 0 < counts.sum := by
    rw [normalized]
    decide
  obtain ⟨omitInside, largest, _⟩ :=
    WriteHistogramBody.chooseOmitPosition_largest positive
  generalize chooseOmitPosition counts = omitPos at *
  have distinct : (occurring counts counts.length).Nodup :=
    List.Nodup.filter _ List.nodup_range
  obtain ⟨third, isThird, notPair⟩ :
      ∃ third ∈ occurring counts counts.length,
        third ∉ ({i, omitPos} : Finset Nat) := by
    by_contra within
    push Not at within
    have fewer :
        (occurring counts counts.length).toFinset.card ≤
          ({i, omitPos} : Finset Nat).card :=
      Finset.card_le_card (fun other member =>
        within other (List.mem_toFinset.1 member))
    rw [List.toFinset_card_of_nodup distinct] at fewer
    have two : ({i, omitPos} : Finset Nat).card ≤ 2 := Finset.card_le_two
    omega
  simp only [Finset.mem_insert, Finset.mem_singleton, not_or] at notPair
  obtain ⟨thirdInside, thirdPositive⟩ := mem_occurring.1 isThird
  have bounded := largest i inside
  have without := NormalizeHistogramCounts.sum_set_add counts inside 0
  have omitInside' : omitPos < (counts.set i 0).length := by
    rw [List.length_set]
    exact omitInside
  have thirdInside' : third < ((counts.set i 0).set omitPos 0).length := by
    rw [List.length_set, List.length_set]
    exact thirdInside
  have without' :=
    NormalizeHistogramCounts.sum_set_add (counts.set i 0) omitInside' 0
  have without'' :=
    NormalizeHistogramCounts.sum_set_add ((counts.set i 0).set omitPos 0)
      thirdInside' 0
  rw [getD_set inside, if_neg (Ne.symm notOmitted)] at without'
  rw [getD_set omitInside', if_neg notPair.2, getD_set inside,
    if_neg notPair.1] at without''
  rw [normalized] at without
  simp only [AnsParams.ansTabSize, AnsParams.ansLogTabSize] at without
  omega

/-- A single symbol is read back. -/
theorem writeSmallCode_one
    {symbol : Nat}
    (few : counts.length ≤ AnsParams.ansMaxAlphabetSize)
    (last : 0 < counts.getD (counts.length - 1) 0)
    (normalized : counts.sum = AnsParams.ansTabSize)
    (only : occurring counts counts.length = [symbol]) :
    RoundTrips (WriteHistogramBody.writeSmallCode counts 1 [symbol])
      (readHistogram AnsParams.ansLogTabSize) counts := by
  have isSymbol : symbol ∈ occurring counts counts.length := by
    rw [only]
    exact List.mem_singleton_self symbol
  have inside := (mem_occurring.1 isSymbol).1
  have fits : symbol < 2 ^ 8 := by
    simp only [AnsParams.ansMaxAlphabetSize] at few
    omega
  have flag :=
    RoundTrips.patch (show 1 ≤ BitReader.kMaxBitsPerCall by decide)
      (show 1 < 2 ^ 1 by decide)
  have noMore :=
    RoundTrips.patch (show 1 ≤ BitReader.kMaxBitsPerCall by decide)
      (show 0 < 2 ^ 1 by decide)
  have isFirst : index [symbol] 0 = .ok symbol := rfl
  unfold WriteHistogramBody.writeSmallCode readHistogram
  simp only [isFirst, ok_bind, if_true]
  refine flag.bind ?_
  unfold readSmallCode
  simp only [if_true]
  refine noMore.bind ((storeVarLenUint8_roundTrips fits).last ?_)
  intro br
  have shape := eq_of_occurring_one last only
  rw [normalized] at shape
  exact congrArg (fun counts => Except.ok (counts, br)) shape.symm

/-- Two symbols are read back. -/
theorem writeSmallCode_two
    {first second : Nat}
    (few : counts.length ≤ AnsParams.ansMaxAlphabetSize)
    (last : 0 < counts.getD (counts.length - 1) 0)
    (normalized : counts.sum = AnsParams.ansTabSize)
    (both : occurring counts counts.length = [first, second]) :
    RoundTrips (WriteHistogramBody.writeSmallCode counts 2 [first, second])
      (readHistogram AnsParams.ansLogTabSize) counts := by
  obtain ⟨before, total, shape⟩ := eq_of_occurring_two last both
  have isFirst : first ∈ occurring counts counts.length := by
    rw [both]
    exact List.mem_cons_self
  have isSecond : second ∈ occurring counts counts.length := by
    rw [both]
    exact List.mem_cons_of_mem _ (List.mem_singleton_self second)
  obtain ⟨secondInside, secondPositive⟩ := mem_occurring.1 isSecond
  have firstInside := (mem_occurring.1 isFirst).1
  simp only [AnsParams.ansMaxAlphabetSize] at few
  have firstFits : first < 2 ^ 8 := by
    omega
  have secondFits : second < 2 ^ 8 := by
    omega
  have countFits : counts.getD first 0 < 2 ^ AnsParams.ansLogTabSize := by
    rw [normalized] at total
    simp only [AnsParams.ansTabSize, AnsParams.ansLogTabSize] at total ⊢
    omega
  have flag :=
    RoundTrips.patch (show 1 ≤ BitReader.kMaxBitsPerCall by decide)
      (show 1 < 2 ^ 1 by decide)
  have atFirst : index [first, second] 0 = .ok first := rfl
  have atSecond : index [first, second] 1 = .ok second := rfl
  have inCounts : index counts first = .ok (counts.getD first 0) :=
    index_getD firstInside 0
  have notOne : ¬ (2 : Nat) = 1 := by
    decide
  unfold WriteHistogramBody.writeSmallCode readHistogram
  simp only [atFirst, atSecond, inCounts, ok_bind, if_neg notOne]
  refine flag.bind ?_
  unfold readSmallCode
  simp only [if_true]
  refine flag.bind ?_
  have more : ¬ (1 : Nat) + 1 = 1 := by
    decide
  simp only [if_neg more]
  refine (storeVarLenUint8_roundTrips firstFits).bind ?_
  simp only
  refine (storeVarLenUint8_roundTrips secondFits).bind ?_
  simp only [if_neg (Nat.ne_of_lt before)]
  refine (RoundTrips.patch (by decide) countFits).last ?_
  intro br
  have range : 1 <<< AnsParams.ansLogTabSize - counts.getD first 0 =
      counts.getD second 0 := by
    have isRange : 1 <<< AnsParams.ansLogTabSize = AnsParams.ansTabSize := rfl
    rw [isRange, ← normalized, ← total, Nat.add_sub_cancel_left]
  simp only [range, Nat.max_eq_right (Nat.le_of_lt before)]
  exact congrArg (fun counts => Except.ok (counts, br)) shape.symm

/-- A flat histogram is read back. -/
theorem writeFlat_roundTrips
    (few : counts.length ≤ AnsParams.ansMaxAlphabetSize)
    (last : 0 < counts.getD (counts.length - 1) 0)
    (isFlat : isFlatHistogram counts = true) :
    RoundTrips (WriteHistogramBody.writeFlat counts.length)
      (readHistogram AnsParams.ansLogTabSize) counts := by
  have nonempty : 0 < counts.length :=
    Nat.zero_lt_of_lt (mem_occurring.1 (last_occurring last)).1
  simp only [AnsParams.ansMaxAlphabetSize] at few
  have fits : counts.length - 1 < 2 ^ 8 := by
    omega
  have flag :
      ∀ bit, bit < 2 ^ 1 →
        RoundTrips (fun writer => writer.write 1 bit)
          (fun br => br.readBits 1) bit := by
    intro bit short
    exact RoundTrips.patch (by decide) short
  unfold WriteHistogramBody.writeFlat readHistogram
  simp only [castU_ok fits, ok_bind]
  refine (flag 0 (by decide)).bind ((flag 1 (by decide)).bind ?_)
  refine (storeVarLenUint8_roundTrips fits).last ?_
  intro br
  have size : counts.length - 1 + 1 = counts.length :=
    Nat.sub_add_cancel nonempty
  have isRange : 1 <<< AnsParams.ansLogTabSize = AnsParams.ansTabSize := rfl
  have enough : counts.length ≤ AnsParams.ansTabSize :=
    Nat.le_trans few (by decide)
  simp only [size, isRange, if_neg (Nat.not_lt.2 enough),
    createFlatHistogram_ok nonempty enough, ok_bind]
  exact
    congrArg (fun counts => Except.ok (counts, br))
      (eq_flatCounts_of_isFlat last isFlat).symm

/-! ## All forms -/

/-- The writer and the reader for counts that end with one that is not zero. -/
theorem roundTrips_of_last
    (few : counts.length ≤ AnsParams.ansMaxAlphabetSize)
    (last : 0 < counts.getD (counts.length - 1) 0)
    (normalized : counts.sum = AnsParams.ansTabSize) :
    RoundTrips
      (fun writer => do
        let (numSymbols, symbols) ←
          counts.zipIdx.foldlM WriteHistogramBody.noteSymbol (0, [])
        if numSymbols = 0 then
          fail .GenericError
        else if numSymbols ≤ kMaxNumSymbolsForSmallCode then
          WriteHistogramBody.writeSmallCode counts numSymbols symbols writer
        else if isFlatHistogram counts then
          WriteHistogramBody.writeFlat counts.length writer
        else
          WriteHistogramBody.writeGeneral counts writer)
      (readHistogram AnsParams.ansLogTabSize) counts := by
  simp only [noteSymbols_ok few, ok_bind]
  have isLast := last_occurring last
  cases symbols : occurring counts counts.length with
  | nil =>
      rw [symbols] at isLast
      cases isLast
  | cons first others =>
      cases others with
      | nil =>
          exact writeSmallCode_one few last normalized symbols
      | cons second others =>
          cases others with
          | nil =>
              exact writeSmallCode_two few last normalized symbols
          | cons third others =>
              have several : 2 < (first :: second :: third :: others).length := by
                simp
              have notNone :
                  ¬ (first :: second :: third :: others).length = 0 := by
                omega
              have notSmall :
                  ¬ (first :: second :: third :: others).length ≤
                    kMaxNumSymbolsForSmallCode :=
                Nat.not_le.2 several
              simp only [if_neg notNone, if_neg notSmall]
              by_cases isFlat : isFlatHistogram counts = true
              · simp only [if_pos isFlat]
                exact writeFlat_roundTrips few last isFlat
              · simp only [if_neg isFlat]
                rw [← symbols] at several
                have long : 3 ≤ counts.length := by
                  have bound :
                      (occurring counts counts.length).length ≤
                        (List.range counts.length).length :=
                    List.length_filter_le _ _
                  rw [List.length_range] at bound
                  omega
                exact
                  writeGeneral_roundTrips few long normalized
                    (lt_half_of_occurring normalized several)

end ReadHistogram

/-- The counts up to the last one that is not zero end with it. -/
theorem last_of_trimmed
    {counts : List Nat}
    (nonempty : trimmedAlphabetSizeForCounts counts ≠ 0) :
    0 <
      (counts.take (trimmedAlphabetSizeForCounts counts)).getD
        ((counts.take (trimmedAlphabetSizeForCounts counts)).length - 1) 0 := by
  rw [NormalizeHistogramCounts.take_trimmed]
  have notNil : counts.rdropWhile (· = 0) ≠ [] :=
    List.ne_nil_of_length_pos (Nat.pos_of_ne_zero nonempty)
  have last := List.rdropWhile_last_not (· = 0) counts notNil
  rw [List.getLast_eq_getElem notNil] at last
  have inside :
      (counts.rdropWhile (· = 0)).length - 1 <
        (counts.rdropWhile (· = 0)).length :=
    Nat.sub_lt (List.length_pos_iff.2 notNil) Nat.one_pos
  rw [List.getD_eq_getElem _ _ inside]
  simp only [decide_eq_true_eq] at last
  exact Nat.pos_of_ne_zero last

/-- Behind the last count that is not zero there are only zeros. -/
theorem exists_trailing_zeros
    (counts : List Nat) :
    ∃ zeros,
      counts =
        counts.take (trimmedAlphabetSizeForCounts counts) ++
          List.replicate zeros 0 := by
  rw [NormalizeHistogramCounts.take_trimmed]
  induction counts using List.reverseRecOn with
  | nil =>
      exact ⟨0, rfl⟩
  | append_singleton counts count inductionHypothesis =>
      rw [List.rdropWhile_concat]
      by_cases zero : count = 0
      · obtain ⟨zeros, trimmed⟩ := inductionHypothesis
        refine ⟨zeros + 1, ?_⟩
        rw [if_pos (decide_eq_true zero), List.replicate_succ', ← List.append_assoc,
          ← trimmed, zero]
      · refine ⟨0, ?_⟩
        rw [if_neg (by simpa using zero), List.replicate_zero, List.append_nil]

/--
The histogram body round trip.  Whatever counts of a total of 4096 there are for
up to 256 symbols, and whichever form they are written in, the bits are read
back as the same counts without the zeros at the end, and no other bit is read.
-/
theorem writeNormalizedHistogramBody_roundTrips
    {counts : List Nat}
    (normalized : counts.sum = AnsParams.ansTabSize)
    (few : trimmedAlphabetSizeForCounts counts ≤ 256) :
    ∃ read zeros,
      counts = read ++ List.replicate zeros 0 ∧
        RoundTrips (writeNormalizedHistogramBody counts)
          (readHistogram AnsParams.ansLogTabSize) read := by
  obtain ⟨zeros, trimmed⟩ := exists_trailing_zeros counts
  refine ⟨_, zeros, trimmed, ?_⟩
  have sum := congrArg List.sum trimmed
  rw [List.sum_append, List.sum_replicate, smul_zero, Nat.add_zero,
    normalized] at sum
  have size :
      (counts.take (trimmedAlphabetSizeForCounts counts)).length =
        trimmedAlphabetSizeForCounts counts := by
    rw [NormalizeHistogramCounts.take_trimmed]
    rfl
  have nonempty : trimmedAlphabetSizeForCounts counts ≠ 0 := by
    intro empty
    rw [empty, List.take_zero] at sum
    cases sum
  have accepted :
      ¬ (trimmedAlphabetSizeForCounts counts = 0 ∨
        AnsParams.ansMaxAlphabetSize < trimmedAlphabetSizeForCounts counts) := by
    rintro (empty | many)
    · exact nonempty empty
    · exact Nat.not_lt.2 few many
  have back :=
    ReadHistogram.roundTrips_of_last (size.le.trans few)
      (last_of_trimmed nonempty) sum.symm
  unfold writeNormalizedHistogramBody
  simp only [if_neg accepted]
  rw [size] at back
  exact back

/-- The general form, with a run of equal counts on either side of the omitted one. -/
theorem writeNormalizedHistogramBody_roundTrips_general :
    ∃ read zeros,
      [16, 16, 16, 16, 16, 16, 3900, 20, 20, 20, 20, 20] ++ [0] =
          read ++ List.replicate zeros 0 ∧
        RoundTrips
          (writeNormalizedHistogramBody
            ([16, 16, 16, 16, 16, 16, 3900, 20, 20, 20, 20, 20] ++ [0]))
          (readHistogram AnsParams.ansLogTabSize) read :=
  writeNormalizedHistogramBody_roundTrips (by decide) (by decide)

end Jxlz
