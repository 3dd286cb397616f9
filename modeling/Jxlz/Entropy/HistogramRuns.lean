import Jxlz.Entropy.HistogramBody

namespace Jxlz.WriteHistogramBody

/-!
# What the general form sends

`Sent` says what the loops of the encoder establish before any width is
written: the omitted count has the first of the largest widths, every other
width is that of its count, and a run that gets folded holds equal counts and
not the omitted one.
-/

/-- The omitted position, and the arrays that the general form is written from. -/
structure Sent
    (counts : List Nat)
    (omitPos : Nat)
    (bitWidth same : List Nat) :
    Prop where
  omitInside :
    omitPos < counts.length
  widthsSized :
    counts.length ≤ bitWidth.length
  samesSized :
    counts.length ≤ same.length
  width :
    ∀ i,
      i < counts.length →
      i ≠ omitPos →
      bitWidth.getD i 0 =
        if counts.getD i 0 = 0 then 0 else (counts.getD i 0).log2 + 1
  widthBefore :
    ∀ i, i < omitPos → bitWidth.getD i 0 < bitWidth.getD omitPos 0
  widthAfter :
    ∀ i,
      i < counts.length →
      bitWidth.getD i 0 ≤ bitWidth.getD omitPos 0
  widthPositive :
    0 < bitWidth.getD omitPos 0
  widthSmall :
    bitWidth.getD omitPos 0 ≤ AnsParams.ansLogTabSize
  runInside :
    ∀ i,
      kMinReps ≤ same.getD i 0 →
      i < counts.length →
      i + same.getD i 0 ≤ counts.length ∧ same.getD i 0 < 2 ^ 8
  runEqual :
    ∀ i,
      kMinReps ≤ same.getD i 0 →
      i < counts.length →
      ∀ j,
        i ≤ j →
        j < i + same.getD i 0 →
        j ≠ omitPos ∧ counts.getD j 0 = counts.getD i 0

/-! ## The omitted position -/

/-- The search has seen the counts up to a position. -/
structure Searched
    (counts : List Nat)
    (position : Nat)
    (best : Nat × Nat) :
    Prop where
  bounded :
    ∀ i, i < position → counts.getD i 0 ≤ best.2
  found :
    0 < best.2 → best.1 < position ∧ counts.getD best.1 0 = best.2
  before :
    ∀ i, i < best.1 → counts.getD i 0 < best.2

variable {counts : List Nat}

theorem getD_of_getElem?
    {position count : Nat}
    (isCount : counts[position]? = some count) :
    position < counts.length ∧ counts.getD position 0 = count := by
  refine ⟨(List.getElem?_eq_some_iff.1 isCount).1, ?_⟩
  rw [List.getD_eq_getElem?_getD, isCount]
  rfl

/-- The omitted count is the first of the largest ones. -/
theorem chooseOmitPosition_largest
    (positive : 0 < counts.sum) :
    chooseOmitPosition counts < counts.length ∧
      (∀ i,
        i < counts.length →
        counts.getD i 0 ≤ counts.getD (chooseOmitPosition counts) 0) ∧
      ∀ i,
        i < chooseOmitPosition counts →
        counts.getD i 0 < counts.getD (chooseOmitPosition counts) 0 := by
  have searched :
      Searched counts counts.length
        (counts.zipIdx.foldl
          (fun best entry => if best.2 < entry.1 then (entry.2, entry.1) else best)
          (0, 0)) := by
    apply foldl_zipIdx (Searched counts)
    · exact
        ⟨fun i below => absurd below (Nat.not_lt_zero i),
          fun positive => absurd positive (Nat.lt_irrefl 0),
          fun i below => absurd below (Nat.not_lt_zero i)⟩
    · intro position count best isCount searched
      obtain ⟨_, value⟩ := getD_of_getElem? isCount
      dsimp only
      split
      next larger =>
        refine ⟨?_, ?_, ?_⟩
        · intro i below
          rcases Nat.lt_succ_iff_lt_or_eq.1 below with earlier | rfl
          · exact Nat.le_of_lt
              (Nat.lt_of_le_of_lt (searched.bounded i earlier) larger)
          · exact Nat.le_of_eq value
        · intro _
          exact ⟨Nat.lt_succ_self position, value⟩
        · intro i below
          exact Nat.lt_of_le_of_lt (searched.bounded i below) larger
      next notLarger =>
        refine ⟨?_, ?_, searched.before⟩
        · intro i below
          rcases Nat.lt_succ_iff_lt_or_eq.1 below with earlier | rfl
          · exact searched.bounded i earlier
          · exact Nat.le_trans (Nat.le_of_eq value) (Nat.le_of_not_lt notLarger)
        · intro positive
          obtain ⟨inside, isMax⟩ := searched.found positive
          exact ⟨Nat.lt_succ_of_lt inside, isMax⟩
  change Searched counts counts.length (chooseOmitPosition counts, _) at searched
  have someCount : ∃ i, i < counts.length ∧ 0 < counts.getD i 0 := by
    by_contra allZero
    push Not at allZero
    have zeros : ∀ count ∈ counts, count = 0 := by
      intro count member
      obtain ⟨i, inside, rfl⟩ := List.getElem_of_mem member
      have zero := allZero i inside
      rw [List.getD_eq_getElem _ _ inside] at zero
      exact Nat.le_zero.1 zero
    rw [List.sum_eq_zero zeros] at positive
    exact absurd positive (Nat.lt_irrefl 0)
  obtain ⟨i, inside, isPositive⟩ := someCount
  obtain ⟨omitInside, isMax⟩ :=
    searched.found (Nat.lt_of_lt_of_le isPositive (searched.bounded i inside))
  rw [isMax]
  exact ⟨omitInside, searched.bounded, searched.before⟩

/-! ## The runs -/

/-- The runs are marked up to a position, and the last one is open there. -/
structure Marked
    (counts : List Nat)
    (omitPos position : Nat)
    (state : List Nat × Nat) :
    Prop where
  sized :
    state.1.length = AnsParams.ansMaxAlphabetSize
  lastInside :
    state.2 ≤ position
  equal :
    ∀ j,
      state.2 ≤ j →
      j ≤ position →
      counts.getD j 0 = counts.getD state.2 0
  alone :
    state.2 ≤ omitPos →
      omitPos ≤ position →
      state.2 = omitPos ∧ position = omitPos
  runInside :
    ∀ i,
      kMinReps ≤ state.1.getD i 0 →
      i + state.1.getD i 0 ≤ counts.length ∧ state.1.getD i 0 < 2 ^ 8
  runEqual :
    ∀ i,
      kMinReps ≤ state.1.getD i 0 →
      ∀ j,
        i ≤ j →
        j < i + state.1.getD i 0 →
        j ≠ omitPos ∧ counts.getD j 0 = counts.getD i 0

theorem marked_initial
    (counts : List Nat)
    (omitPos : Nat) :
    Marked counts omitPos 0
      (List.replicate AnsParams.ansMaxAlphabetSize 0, 0) where
  sized := List.length_replicate
  lastInside := Nat.le_refl 0
  equal := by
    intro j _ below
    rw [Nat.le_zero.1 below]
  alone := by
    intro _ below
    exact ⟨(Nat.le_zero.1 below).symm, (Nat.le_zero.1 below).symm⟩
  runInside := by
    intro i long
    simp [kMinReps, List.getD_eq_getElem?_getD, List.getElem?_replicate] at long
    split at long <;> simp at long
  runEqual := by
    intro i long
    simp [kMinReps, List.getD_eq_getElem?_getD, List.getElem?_replicate] at long
    split at long <;> simp at long

/-- One round keeps the marks. -/
theorem markRun_ok
    {omitPos position : Nat}
    {state : List Nat × Nat}
    (few : counts.length ≤ AnsParams.ansMaxAlphabetSize)
    (omitInside : omitPos < counts.length)
    (inside : position < counts.length)
    (marked : Marked counts omitPos position state) :
    ∃ next,
      markRun counts omitPos state position = .ok next ∧
        Marked counts omitPos (position + 1) next := by
  obtain ⟨same, last⟩ := state
  have sized := marked.sized
  have lastInside := marked.lastInside
  have alone := marked.alone
  dsimp only at sized lastInside alone
  simp only [AnsParams.ansMaxAlphabetSize] at few sized
  unfold markRun
  dsimp only
  by_cases ends : endsRun counts omitPos (position + 1) last
  · have short : position + 1 - last < 2 ^ 8 := by
      by_cases hasOmitted : last ≤ omitPos ∧ omitPos ≤ position
      · obtain ⟨atOmitted, atOmitted'⟩ := alone hasOmitted.1 hasOmitted.2
        omega
      · omega
    have lastInSame : last < same.length := by
      omega
    refine ⟨(same.set last (position + 1 - last), position + 1), ?_, ?_⟩
    · rw [if_pos ends, castU_ok short, ok_bind, require_ok lastInSame]
      rfl
    · refine ⟨?_, Nat.le_refl _, ?_, ?_, ?_, ?_⟩
      · rw [List.length_set]
        exact marked.sized
      · intro j above below
        rw [Nat.le_antisymm below above]
      · intro above below
        exact ⟨Nat.le_antisymm above below, Nat.le_antisymm above below⟩
      · intro i long
        dsimp only at long ⊢
        rw [getD_set lastInSame] at long ⊢
        by_cases isLast : i = last
        · rw [if_pos isLast]
          omega
        · rw [if_neg isLast] at long ⊢
          exact marked.runInside i long
      · intro i long j above below
        dsimp only at long below ⊢
        rw [getD_set lastInSame] at long below
        by_cases isLast : i = last
        · rw [if_pos isLast] at long below
          subst isLast
          refine ⟨?_, marked.equal j above (by omega)⟩
          rintro rfl
          have atOmitted := alone above (by omega)
          simp only [kMinReps] at long
          omega
        · rw [if_neg isLast] at long below
          exact marked.runEqual i long j above below
  · refine ⟨(same, last), ?_, ?_⟩
    · rw [if_neg ends]
      rfl
    · unfold endsRun at ends
      push Not at ends
      obtain ⟨notEnd, notOmitted, notAfter, sameCount⟩ := ends
      refine ⟨marked.sized, Nat.le_succ_of_le lastInside, ?_, ?_,
        marked.runInside, marked.runEqual⟩
      · intro j above below
        rcases Nat.le_succ_iff.1 below with earlier | rfl
        · exact marked.equal j above earlier
        · exact sameCount
      · intro above below
        have atOmitted := alone above (by omega)
        omega

/-! ## The widths -/

/-- The widths are set up to a position. -/
structure Widened
    (counts : List Nat)
    (omitPos position : Nat)
    (state : List Nat × Nat) :
    Prop where
  sized :
    state.1.length = AnsParams.ansMaxAlphabetSize
  width :
    ∀ i,
      i < position →
      i ≠ omitPos →
      state.1.getD i 0 =
        if counts.getD i 0 = 0 then 0 else (counts.getD i 0).log2 + 1
  bounded :
    ∀ i,
      i < position →
      i ≠ omitPos →
      state.1.getD i 0 + (decide (i < omitPos)).toNat ≤ state.2
  rest :
    ∀ i, position ≤ i → state.1.getD i 0 = 0
  positive :
    10 ≤ state.2
  small :
    state.2 ≤ AnsParams.ansLogTabSize

/-- Counts below half of the total have at most eleven digits. -/
theorem width_le_of_small
    {count : Nat}
    (notZero : count ≠ 0)
    (small : count < 2 ^ 11) :
    count.log2 + 1 ≤ 11 :=
  (Nat.log2_lt notZero).2 small

/-- One round keeps the widths. -/
theorem setWidth_widened
    {omitPos position count : Nat}
    {state : List Nat × Nat}
    (few : counts.length ≤ AnsParams.ansMaxAlphabetSize)
    (small : position ≠ omitPos → count < 2 ^ 11)
    (isCount : counts[position]? = some count)
    (widened : Widened counts omitPos position state) :
    Widened counts omitPos (position + 1)
      (setWidth omitPos state (count, position)) := by
  obtain ⟨inside, value⟩ := getD_of_getElem? isCount
  obtain ⟨bitWidth, omitWidth⟩ := state
  have sized := widened.sized
  have positive := widened.positive
  have omitSmall := widened.small
  dsimp only at sized positive omitSmall
  have inWidths : position < bitWidth.length := by
    omega
  unfold setWidth
  dsimp only
  by_cases skipped : position = omitPos ∨ count = 0
  · rw [if_pos skipped]
    refine ⟨widened.sized, ?_, ?_, ?_, positive, omitSmall⟩
    · intro i below notOmitted
      rcases Nat.lt_succ_iff_lt_or_eq.1 below with earlier | rfl
      · exact widened.width i earlier notOmitted
      · have zero := skipped.resolve_left notOmitted
        rw [value, if_pos zero]
        exact widened.rest i (Nat.le_refl i)
    · intro i below notOmitted
      rcases Nat.lt_succ_iff_lt_or_eq.1 below with earlier | rfl
      · exact widened.bounded i earlier notOmitted
      · have unset := widened.rest i (Nat.le_refl i)
        have atMostOne : (decide (i < omitPos)).toNat ≤ 1 := Bool.toNat_le _
        dsimp only at unset ⊢
        omega
    · intro i above
      exact widened.rest i (Nat.le_of_succ_le above)
  · rw [if_neg skipped]
    push Not at skipped
    obtain ⟨notOmitted, notZero⟩ := skipped
    have short := width_le_of_small notZero (small notOmitted)
    have atMostOne : (decide (position < omitPos)).toNat ≤ 1 :=
      Bool.toNat_le _
    refine ⟨?_, ?_, ?_, ?_, ?_, ?_⟩
    · rw [List.length_set]
      exact widened.sized
    · intro i below notOmitted'
      dsimp only
      rw [getD_set inWidths]
      by_cases here : i = position
      · rw [if_pos here, here, value, if_neg notZero]
      · rw [if_neg here]
        exact widened.width i (by omega) notOmitted'
    · intro i below notOmitted'
      dsimp only
      rw [getD_set inWidths]
      by_cases here : i = position
      · rw [if_pos here, here]
        exact Nat.le_max_right _ _
      · rw [if_neg here]
        exact
          Nat.le_trans (widened.bounded i (by omega) notOmitted')
            (Nat.le_max_left _ _)
    · intro i above
      dsimp only
      rw [getD_set inWidths, if_neg (by omega)]
      exact widened.rest i (Nat.le_of_succ_le above)
    · exact Nat.le_trans positive (Nat.le_max_left _ _)
    · dsimp only
      simp only [AnsParams.ansLogTabSize] at omitSmall ⊢
      exact Nat.max_le.2 ⟨omitSmall, by omega⟩

/-! ## Everything that is sent -/

/-- The arrays that the loops of the general form fill in. -/
theorem exists_sent
    (few : counts.length ≤ AnsParams.ansMaxAlphabetSize)
    (positive : 0 < counts.sum)
    (small :
      ∀ i,
        i < counts.length →
        i ≠ chooseOmitPosition counts →
        counts.getD i 0 < 2 ^ 11) :
    ∃ same last,
      (List.range counts.length).foldlM
          (markRun counts (chooseOmitPosition counts))
          (List.replicate AnsParams.ansMaxAlphabetSize 0, 0) =
        .ok (same, last) ∧
      ∃ bitWidth omitWidth,
        counts.zipIdx.foldl (setWidth (chooseOmitPosition counts))
            (List.replicate AnsParams.ansMaxAlphabetSize 0, 10) =
          (bitWidth, omitWidth) ∧
      Sent counts (chooseOmitPosition counts)
        (bitWidth.set (chooseOmitPosition counts) omitWidth) same := by
  obtain ⟨omitInside, largest, _⟩ := chooseOmitPosition_largest positive
  generalize chooseOmitPosition counts = omitPos at *
  obtain ⟨⟨same, last⟩, marks, marked⟩ :=
    foldlM_range_ok (Marked counts omitPos) counts.length
      (marked_initial counts omitPos)
      (fun position state inside marked =>
        markRun_ok few omitInside inside marked)
  have widened :
      Widened counts omitPos counts.length
        (counts.zipIdx.foldl (setWidth omitPos)
          (List.replicate AnsParams.ansMaxAlphabetSize 0, 10)) := by
    apply foldl_zipIdx (Widened counts omitPos)
    · refine
        ⟨List.length_replicate, fun i below => absurd below (Nat.not_lt_zero i),
          fun i below => absurd below (Nat.not_lt_zero i), ?_,
          Nat.le_refl 10, by decide⟩
      intro i _
      simp [List.getD_eq_getElem?_getD, List.getElem?_replicate]
      split <;> rfl
    · intro position count state isCount widened
      obtain ⟨inside, value⟩ := getD_of_getElem? isCount
      refine setWidth_widened few ?_ isCount widened
      intro notOmitted
      rw [← value]
      exact small position inside notOmitted
  refine ⟨same, last, marks, ?_⟩
  generalize counts.zipIdx.foldl (setWidth omitPos)
      (List.replicate AnsParams.ansMaxAlphabetSize 0, 10) = state at widened ⊢
  obtain ⟨bitWidth, omitWidth⟩ := state
  refine ⟨bitWidth, omitWidth, rfl, ?_⟩
  have sized := widened.sized
  have atLeastTen := widened.positive
  dsimp only at sized atLeastTen
  have inWidths : omitPos < bitWidth.length := by
    omega
  have omitted : (bitWidth.set omitPos omitWidth).getD omitPos 0 = omitWidth := by
    rw [getD_set inWidths, if_pos rfl]
  have other :
      ∀ i,
        i ≠ omitPos →
        (bitWidth.set omitPos omitWidth).getD i 0 = bitWidth.getD i 0 := by
    intro i notOmitted
    rw [getD_set inWidths, if_neg notOmitted]
  refine
    { omitInside := omitInside
      widthsSized := by
        rw [List.length_set, sized]
        exact few
      samesSized := by
        rw [marked.sized]
        exact few
      width := ?_
      widthBefore := ?_
      widthAfter := ?_
      widthPositive := ?_
      widthSmall := ?_
      runInside := fun i long _ => marked.runInside i long
      runEqual := fun i long _ => marked.runEqual i long }
  · intro i inside notOmitted
    rw [other i notOmitted]
    exact widened.width i inside notOmitted
  · intro i before
    have bounded :=
      widened.bounded i (Nat.lt_trans before omitInside) (Nat.ne_of_lt before)
    rw [omitted, other i (Nat.ne_of_lt before)]
    rw [decide_eq_true before] at bounded
    exact bounded
  · intro i inside
    rw [omitted]
    by_cases isOmitted : i = omitPos
    · rw [isOmitted, omitted]
    · rw [other i isOmitted]
      exact
        Nat.le_trans (Nat.le_add_right _ _)
          (widened.bounded i inside isOmitted)
  · rw [omitted]
    exact Nat.lt_of_lt_of_le (by decide) atLeastTen
  · rw [omitted]
    exact widened.small

end Jxlz.WriteHistogramBody
