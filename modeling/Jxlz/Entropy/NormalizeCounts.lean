import Jxlz.Entropy.AliasTableCorrect

namespace Jxlz

/-!
# Normalized counts

The encoder scales the frequencies of the symbols to counts that sum to 4096.
Every symbol that occurs keeps a count; the most frequent one takes what the
others leave.
-/

namespace AnsParams

/-- `ans_max_alphabet_size`. -/
def ansMaxAlphabetSize : Nat := 256

end AnsParams

/-- The number of counts up to the last one that is not zero. -/
def trimmedAlphabetSizeForCounts
    (counts : List Nat) :
    Nat :=
  (counts.rdropWhile (· = 0)).length

namespace NormalizeHistogramCounts

/-- What the first loop finds out about the raw counts. -/
structure Totals where
  total : Nat := 0
  remainderPos : Nat := 0
  maxFreq : Nat := 0
  numSymbols : Nat := 0
  deriving Repr, DecidableEq

/-- One round of the first loop. -/
def addCount
    (totals : Totals)
    (item : Nat × Nat) :
    Checked Totals := do
  let (count, i) := item
  let total ← addU 64 totals.total count
  if 0 < count then
    let numSymbols := totals.numSymbols + 1
    if totals.maxFreq < count then
      return { total, remainderPos := i, maxFreq := count, numSymbols }
    else
      return { totals with total, numSymbols }
  else
    return { totals with total }

/-- The count of a symbol that is not the most frequent one. -/
def scaledCount
    (total count : Nat) :
    Checked Nat := do
  let product ← mulU 64 count AnsParams.ansTabSize
  let rounded ← addU 64 product (total / 2)
  let normalizedCount := max 1 (rounded / total)
  return min (AnsParams.ansTabSize - 1) normalizedCount

/-- One round of the loop that scales the counts. -/
def scale
    (total remainderPos : Nat)
    (state : List Nat × Nat)
    (item : Nat × Nat) :
    Checked (List Nat × Nat) := do
  let (normalized, sumOthers) := state
  let (count, i) := item
  if count = 0 ∨ i = remainderPos then
    return (normalized, sumOthers)
  else
    let normalizedCount ← scaledCount total count
    require (i < normalized.length)
    return (normalized.set i normalizedCount, sumOthers + normalizedCount)

/-- The first of the largest counts that can be made smaller. -/
structure Best where
  index : Option Nat := none
  count : Nat := 0
  deriving Repr, DecidableEq

/-- One round of the search for it. -/
def better
    (remainderPos : Nat)
    (best : Best)
    (item : Nat × Nat) :
    Best :=
  if item.2 = remainderPos ∨ item.1 ≤ 1 then
    best
  else if best.count < item.1 then
    { index := some item.2, count := item.1 }
  else
    best

def findBest
    (remainderPos : Nat)
    (normalized : List Nat) :
    Best :=
  normalized.zipIdx.foldl (better remainderPos) {}

/--
The correction loop: while the other counts leave nothing for the most frequent
symbol, the largest of them gets smaller.  Every round takes one off the sum.
-/
def correct
    (remainderPos : Nat)
    (normalized : List Nat)
    (sumOthers : Nat) :
    Checked (List Nat × Nat) :=
  if AnsParams.ansTabSize ≤ sumOthers then
    match (findBest remainderPos normalized).index with
    | none => fail .GenericError
    | some best => do
        let count ← index normalized best
        let less ← subU count 1
        correct remainderPos (normalized.set best less) (sumOthers - 1)
  else
    return (normalized, sumOthers)
termination_by sumOthers
decreasing_by
  simp only [AnsParams.ansTabSize, AnsParams.ansLogTabSize] at *
  omega

end NormalizeHistogramCounts

open NormalizeHistogramCounts in
/-- Counts that sum to 4096 for raw counts of 32 bits. -/
def normalizeHistogramCounts
    (rawCounts : List UInt32) :
    Checked (List Nat) := do
  let counts := rawCounts.map UInt32.toNat
  let alphabetSize := trimmedAlphabetSizeForCounts counts
  if alphabetSize = 0 ∨ AnsParams.ansMaxAlphabetSize < alphabetSize then
    fail .GenericError
  else
    let trimmed := counts.take alphabetSize
    let totals ← trimmed.zipIdx.foldlM addCount {}
    if totals.total = 0 then
      fail .GenericError
    else
      let normalized := List.replicate alphabetSize 0
      if totals.numSymbols = 1 then
        return normalized.set totals.remainderPos AnsParams.ansTabSize
      else
        let (normalized, sumOthers) ←
          trimmed.zipIdx.foldlM (scale totals.total totals.remainderPos)
            (normalized, 0)
        let (normalized, sumOthers) ←
          correct totals.remainderPos normalized sumOthers
        let remainder ← subU AnsParams.ansTabSize sumOthers
        if remainder = 0 then
          fail .GenericError
        else
          return normalized.set totals.remainderPos remainder

namespace NormalizeHistogramCounts

/-- A normalized count leaves the others something. -/
theorem scaledCount_ok
    {total count : Nat}
    (countFits : count < 2 ^ 32)
    (totalFits : total < 2 ^ 48) :
    ∃ normalizedCount,
      scaledCount total count = .ok normalizedCount ∧
        0 < normalizedCount ∧ normalizedCount < AnsParams.ansTabSize := by
  have product : count * AnsParams.ansTabSize < 2 ^ 44 := by
    have wide : AnsParams.ansTabSize = 2 ^ 12 := rfl
    rw [wide]
    omega
  refine
    ⟨min (AnsParams.ansTabSize - 1)
        (max 1
          ((count * AnsParams.ansTabSize + total / 2) / total)), ?_, ?_, ?_⟩
  · rw [scaledCount, mulU_ok (by omega), ok_bind, addU_ok (by omega), ok_bind]
    rfl
  · rw [lt_min_iff]
    exact ⟨by decide, Nat.lt_of_lt_of_le Nat.one_pos (Nat.le_max_left _ _)⟩
  · exact
      Nat.lt_of_le_of_lt (Nat.min_le_left _ _)
        (show AnsParams.ansTabSize - 1 < AnsParams.ansTabSize by decide)

/-- What the first loop knows of the counts that it has seen. -/
structure Surveyed
    (counts : List Nat)
    (position : Nat)
    (totals : Totals) :
    Prop where
  total :
    totals.total = (counts.take position).sum
  none :
    totals.numSymbols = 0 →
      totals.maxFreq = 0 ∧ ∀ i, i < position → counts.getD i 0 = 0
  one :
    totals.numSymbols = 1 →
      ∀ i, i < position → 0 < counts.getD i 0 → i = totals.remainderPos
  found :
    0 < totals.numSymbols →
      totals.remainderPos < position ∧ 0 < counts.getD totals.remainderPos 0

theorem addCount_ok
    {counts : List Nat}
    {position count : Nat}
    {totals : Totals}
    (small : counts.sum < 2 ^ 64)
    (isCount : counts[position]? = some count)
    (surveyed : Surveyed counts position totals) :
    ∃ next,
      addCount totals (count, position) = .ok next ∧
        Surveyed counts (position + 1) next := by
  obtain ⟨inside, isCount'⟩ := List.getElem?_eq_some_iff.1 isCount
  have value : counts.getD position 0 = count := by
    rw [List.getD_eq_getElem?_getD, isCount]
    rfl
  have sum :
      (counts.take (position + 1)).sum = (counts.take position).sum + count := by
    rw [List.take_succ_eq_append_getElem inside, List.sum_append, isCount']
    simp
  have whole : (counts.take (position + 1)).sum ≤ counts.sum :=
    (List.take_sublist _ _).sum_le_sum (by simp)
  have fits : totals.total + count < 2 ^ 64 := by
    rw [surveyed.total, ← sum]
    omega
  rw [addCount, addU_ok fits, ok_bind]
  by_cases positive : 0 < count
  · rw [if_pos positive]
    by_cases larger : totals.maxFreq < count
    · rw [if_pos larger]
      refine ⟨_, rfl, ?_, ?_, ?_, ?_⟩
      · dsimp only
        rw [surveyed.total, sum]
      · intro isNone
        dsimp only at isNone
        omega
      · intro isOne i before occurs
        dsimp only at isOne ⊢
        rcases Nat.lt_succ_iff_lt_or_eq.1 before with earlier | same
        · have zero := (surveyed.none (by omega)).2 i earlier
          omega
        · exact same
      · intro _
        dsimp only
        rw [value]
        exact ⟨Nat.lt_succ_self position, positive⟩
    · rw [if_neg larger]
      have some : 0 < totals.numSymbols := by
        by_contra isNone
        have zero := (surveyed.none (by omega)).1
        omega
      obtain ⟨before, occurs⟩ := surveyed.found some
      refine ⟨_, rfl, ?_, ?_, ?_, ?_⟩
      · dsimp only
        rw [surveyed.total, sum]
      · intro isNone
        dsimp only at isNone
        omega
      · intro isOne
        dsimp only at isOne
        omega
      · intro _
        exact ⟨Nat.lt_succ_of_lt before, occurs⟩
  · rw [if_neg positive]
    have extended :
        ∀ i, i < position + 1 → 0 < counts.getD i 0 → i < position := by
      intro i before occurs
      rcases Nat.lt_succ_iff_lt_or_eq.1 before with earlier | rfl
      · exact earlier
      · rw [value] at occurs
        exact absurd occurs positive
    refine ⟨_, rfl, ?_, ?_, ?_, ?_⟩
    · dsimp only
      rw [surveyed.total, sum]
    · intro isNone
      obtain ⟨noMax, zero⟩ := surveyed.none isNone
      refine ⟨noMax, ?_⟩
      intro i before
      by_contra occurs
      have earlier := extended i before (Nat.pos_of_ne_zero occurs)
      exact occurs (zero i earlier)
    · intro isOne i before occurs
      exact surveyed.one isOne i (extended i before occurs) occurs
    · intro some
      obtain ⟨before, occurs⟩ := surveyed.found some
      exact ⟨Nat.lt_succ_of_lt before, occurs⟩

theorem surveyed_initial
    (counts : List Nat) :
    Surveyed counts 0 {} where
  total := rfl
  none := by simp
  one := by simp
  found := by simp

/-- Normalized counts of the symbols up to a position, the most frequent one apart. -/
structure Spread
    (counts : List Nat)
    (remainderPos position : Nat)
    (normalized : List Nat)
    (sumOthers : Nat) :
    Prop where
  length :
    normalized.length = counts.length
  remainder :
    normalized.getD remainderPos 0 = 0
  positive :
    ∀ i,
      i ≠ remainderPos →
      (0 < normalized.getD i 0 ↔ i < position ∧ 0 < counts.getD i 0)
  sum :
    normalized.sum = sumOthers

/-- Writing a count changes the sum by what it changes. -/
theorem sum_set_add
    (counts : List Nat)
    {position : Nat}
    (inside : position < counts.length)
    (count : Nat) :
    (counts.set position count).sum + counts.getD position 0 =
      counts.sum + count := by
  induction counts generalizing position with
  | nil =>
      simp at inside
  | cons first rest inductionHypothesis =>
      cases position with
      | zero =>
          simp only [List.set_cons_zero, List.sum_cons, List.getD_cons_zero]
          omega
      | succ position =>
          have others :=
            inductionHypothesis (Nat.lt_of_succ_lt_succ inside)
          simp only [List.set_cons_succ, List.sum_cons, List.getD_cons_succ]
          omega

theorem scale_ok
    {counts : List Nat}
    {total remainderPos position count : Nat}
    {state : List Nat × Nat}
    (fits : ∀ count ∈ counts, count < 2 ^ 32)
    (totalFits : total < 2 ^ 48)
    (isCount : counts[position]? = some count)
    (spread : Spread counts remainderPos position state.1 state.2) :
    ∃ next,
      scale total remainderPos state (count, position) = .ok next ∧
        Spread counts remainderPos (position + 1) next.1 next.2 := by
  obtain ⟨normalized, sumOthers⟩ := state
  dsimp only at spread
  have inside := (List.getElem?_eq_some_iff.1 isCount).1
  have value : counts.getD position 0 = count := by
    rw [List.getD_eq_getElem?_getD, isCount]
    rfl
  rw [scale]
  by_cases skips : count = 0 ∨ position = remainderPos
  · rw [if_pos skips]
    refine ⟨_, rfl, spread.length, spread.remainder, ?_, spread.sum⟩
    intro i other
    rw [spread.positive i other]
    constructor
    · rintro ⟨before, occurs⟩
      exact ⟨Nat.lt_succ_of_lt before, occurs⟩
    · rintro ⟨before, occurs⟩
      refine ⟨?_, occurs⟩
      rcases Nat.lt_succ_iff_lt_or_eq.1 before with earlier | rfl
      · exact earlier
      · rcases skips with zero | isRemainder
        · omega
        · exact absurd isRemainder other
  · rw [if_neg skips]
    rw [not_or] at skips
    obtain ⟨normalizedCount, scaled, positive, _⟩ :=
      scaledCount_ok (fits count (List.mem_of_getElem? isCount)) totalFits
    have inNormalized : position < normalized.length := by
      rwa [spread.length]
    rw [scaled, ok_bind, require_ok inNormalized, ok_bind]
    refine ⟨_, rfl, ?_, ?_, ?_, ?_⟩
    · dsimp only
      rw [List.length_set, spread.length]
    · dsimp only
      rw [getD_set inNormalized, if_neg (Ne.symm skips.2), spread.remainder]
    · intro i other
      dsimp only
      rw [getD_set inNormalized]
      by_cases same : i = position
      · subst same
        rw [if_pos rfl, value]
        have occurs := Nat.pos_of_ne_zero skips.1
        exact iff_of_true positive ⟨Nat.lt_succ_self i, occurs⟩
      · rw [if_neg same, spread.positive i other]
        constructor
        · rintro ⟨before, occurs⟩
          exact ⟨Nat.lt_succ_of_lt before, occurs⟩
        · rintro ⟨before, occurs⟩
          exact ⟨by omega, occurs⟩
    · dsimp only
      have zero : normalized.getD position 0 = 0 := by
        by_contra notZero
        have earlier :=
          ((spread.positive position skips.2).1
            (Nat.pos_of_ne_zero notZero)).1
        exact Nat.lt_irrefl _ earlier
      have sum := sum_set_add normalized inNormalized normalizedCount
      rw [zero, spread.sum] at sum
      exact sum

/-- A count that can be made smaller. -/
def Reducible
    (remainderPos : Nat)
    (normalized : List Nat)
    (position : Nat) :
    Prop :=
  position ≠ remainderPos ∧ 1 < normalized.getD position 0

/-- What the search knows of the counts that it has seen. -/
structure Searched
    (remainderPos : Nat)
    (normalized : List Nat)
    (position : Nat)
    (best : Best) :
    Prop where
  reducible :
    ∀ found,
      best.index = some found → Reducible remainderPos normalized found
  missed :
    best.index = none →
      best.count = 0 ∧
        ∀ i, i < position → ¬ Reducible remainderPos normalized i

/-- The search finds a count to reduce if there is one. -/
theorem findBest_searched
    (remainderPos : Nat)
    (normalized : List Nat) :
    Searched remainderPos normalized normalized.length
      (findBest remainderPos normalized) := by
  apply foldl_zipIdx (Searched remainderPos normalized) normalized
  · exact ⟨by simp, by simp⟩
  · intro position count best isCount searched
    have value : normalized.getD position 0 = count := by
      rw [List.getD_eq_getElem?_getD, isCount]
      rfl
    rw [better]
    dsimp only
    by_cases skips : position = remainderPos ∨ count ≤ 1
    · rw [if_pos skips]
      refine ⟨searched.reducible, ?_⟩
      intro isNone
      obtain ⟨zero, missed⟩ := searched.missed isNone
      refine ⟨zero, ?_⟩
      intro i before
      rcases Nat.lt_succ_iff_lt_or_eq.1 before with earlier | rfl
      · exact missed i earlier
      · rintro ⟨other, large⟩
        rcases skips with isRemainder | small
        · exact other isRemainder
        · omega
    · rw [if_neg skips]
      rw [not_or, Nat.not_le] at skips
      by_cases larger : best.count < count
      · rw [if_pos larger]
        refine ⟨?_, by simp⟩
        intro found isFound
        cases isFound
        exact ⟨skips.1, by omega⟩
      · rw [if_neg larger]
        refine ⟨searched.reducible, ?_⟩
        intro isNone
        obtain ⟨zero, _⟩ := searched.missed isNone
        omega

/-- Counts none of which can be made smaller do not sum to the whole range. -/
theorem sum_le_of_irreducible
    {remainderPos : Nat}
    {normalized : List Nat}
    (remainder : normalized.getD remainderPos 0 = 0)
    (irreducible :
      ∀ i, i < normalized.length → ¬ Reducible remainderPos normalized i) :
    normalized.sum ≤ normalized.length := by
  have small : ∀ count ∈ normalized, count ≤ 1 := by
    intro count member
    obtain ⟨i, inside, isCount⟩ := List.getElem_of_mem member
    have value : normalized.getD i 0 = count := by
      rw [List.getD_eq_getElem?_getD, List.getElem?_eq_getElem inside, isCount]
      rfl
    by_contra large
    apply irreducible i inside
    refine ⟨?_, by omega⟩
    rintro rfl
    omega
  simpa using List.sum_le_card_nsmul normalized 1 small

/-- The correction loop returns counts that leave the remainder something. -/
theorem correct_ok
    {counts : List Nat}
    {remainderPos position : Nat}
    (few : counts.length ≤ AnsParams.ansMaxAlphabetSize)
    (sumOthers : Nat)
    (normalized : List Nat)
    (spread : Spread counts remainderPos position normalized sumOthers) :
    ∃ normalized' sumOthers',
      correct remainderPos normalized sumOthers =
          .ok (normalized', sumOthers') ∧
        Spread counts remainderPos position normalized' sumOthers' ∧
        sumOthers' < AnsParams.ansTabSize := by
  induction sumOthers using Nat.strong_induction_on generalizing normalized with
  | _ sumOthers inductionHypothesis =>
      rw [correct]
      by_cases full : AnsParams.ansTabSize ≤ sumOthers
      · rw [if_pos full]
        have searched := findBest_searched remainderPos normalized
        cases isBest : (findBest remainderPos normalized).index with
        | none =>
            have small :=
              sum_le_of_irreducible spread.remainder
                (searched.missed isBest).2
            rw [spread.sum, spread.length] at small
            have limits : AnsParams.ansMaxAlphabetSize < AnsParams.ansTabSize :=
              by decide
            omega
        | some best =>
            obtain ⟨other, large⟩ := searched.reducible best isBest
            have inside : best < normalized.length := by
              by_contra outside
              rw [List.getD_eq_default _ _ (Nat.le_of_not_lt outside)] at large
              omega
            have tabPositive : 0 < AnsParams.ansTabSize := by
              decide
            dsimp only
            rw [index_getD inside 0, ok_bind, subU_ok (by omega), ok_bind]
            apply inductionHypothesis (sumOthers - 1) (by omega)
            refine ⟨?_, ?_, ?_, ?_⟩
            · rw [List.length_set, spread.length]
            · rw [getD_set inside, if_neg (Ne.symm other), spread.remainder]
            · intro i notRemainder
              rw [getD_set inside, ← spread.positive i notRemainder]
              by_cases same : i = best
              · subst same
                rw [if_pos rfl]
                omega
              · rw [if_neg same]
            · have sum :=
                sum_set_add normalized inside (normalized.getD best 0 - 1)
              have whole := spread.sum
              omega
      · rw [if_neg full]
        exact ⟨normalized, sumOthers, rfl, spread, Nat.lt_of_not_le full⟩

end NormalizeHistogramCounts

namespace NormalizeHistogramCounts

/-- The counts up to the last one that is not zero. -/
theorem take_trimmed
    (counts : List Nat) :
    counts.take (trimmedAlphabetSizeForCounts counts) =
      counts.rdropWhile (· = 0) :=
  (List.prefix_iff_eq_take.1 (List.rdropWhile_prefix _ counts)).symm

/-- The sum of at most 256 counts of 32 bits. -/
theorem sum_lt_of_few
    {counts : List Nat}
    (fits : ∀ count ∈ counts, count < 2 ^ 32)
    (few : counts.length ≤ 256) :
    counts.sum < 2 ^ 48 := by
  have sum :=
    List.sum_le_card_nsmul counts (2 ^ 32)
      (fun count member => Nat.le_of_lt (fits count member))
  rw [smul_eq_mul] at sum
  omega

/-- A single symbol gets the whole range. -/
theorem single_ok
    {counts : List Nat}
    {totals : Totals}
    (surveyed : Surveyed counts counts.length totals)
    (isOne : totals.numSymbols = 1) :
    let normalized :=
      (List.replicate counts.length 0).set totals.remainderPos
        AnsParams.ansTabSize
    normalized.length = counts.length ∧
      normalized.sum = AnsParams.ansTabSize ∧
      ∀ symbol, 0 < normalized.getD symbol 0 ↔ 0 < counts.getD symbol 0 := by
  intro normalized
  obtain ⟨before, occurs⟩ := surveyed.found (by omega)
  have inside :
      totals.remainderPos < (List.replicate counts.length 0).length := by
    rwa [List.length_replicate]
  have zeros :
      ∀ symbol, (List.replicate counts.length 0).getD symbol 0 = 0 := by
    intro symbol
    rw [List.getD_eq_getElem?_getD, List.getElem?_replicate]
    split <;> rfl
  refine ⟨?_, ?_, ?_⟩
  · rw [List.length_set, List.length_replicate]
  · have sum :=
      sum_set_add (List.replicate counts.length 0) inside AnsParams.ansTabSize
    rw [zeros, List.sum_replicate, smul_zero, Nat.add_zero,
      Nat.zero_add] at sum
    exact sum
  · intro symbol
    rw [getD_set inside, zeros]
    by_cases same : symbol = totals.remainderPos
    · rw [if_pos same, same]
      exact iff_of_true (by decide) occurs
    · rw [if_neg same]
      refine iff_of_false (Nat.lt_irrefl 0) ?_
      intro occurs'
      have inCounts : symbol < counts.length := by
        by_contra outside
        rw [List.getD_eq_default _ _ (Nat.le_of_not_lt outside)] at occurs'
        omega
      exact same (surveyed.one isOne symbol inCounts occurs')

/-- The most frequent symbol takes what the others leave. -/
theorem remainder_ok
    {counts normalized : List Nat}
    {remainderPos sumOthers : Nat}
    (spread :
      Spread counts remainderPos counts.length normalized sumOthers)
    (room : sumOthers < AnsParams.ansTabSize)
    (inside : remainderPos < counts.length)
    (occurs : 0 < counts.getD remainderPos 0) :
    let result :=
      normalized.set remainderPos (AnsParams.ansTabSize - sumOthers)
    result.length = counts.length ∧
      result.sum = AnsParams.ansTabSize ∧
      ∀ symbol, 0 < result.getD symbol 0 ↔ 0 < counts.getD symbol 0 := by
  intro result
  have inNormalized : remainderPos < normalized.length := by
    rwa [spread.length]
  refine ⟨?_, ?_, ?_⟩
  · rw [List.length_set, spread.length]
  · have sum :=
      sum_set_add normalized inNormalized (AnsParams.ansTabSize - sumOthers)
    rw [spread.remainder, spread.sum, Nat.add_zero,
      Nat.add_sub_cancel' (Nat.le_of_lt room)] at sum
    exact sum
  · intro symbol
    rw [getD_set inNormalized]
    by_cases same : symbol = remainderPos
    · rw [if_pos same, same]
      exact iff_of_true (by omega) occurs
    · rw [if_neg same, spread.positive symbol same]
      refine ⟨And.right, fun occurs' => ⟨?_, occurs'⟩⟩
      by_contra outside
      rw [List.getD_eq_default _ _ (Nat.le_of_not_lt outside)] at occurs'
      omega

theorem spread_initial
    (counts : List Nat)
    (remainderPos : Nat) :
    Spread counts remainderPos 0 (List.replicate counts.length 0) 0 where
  length := List.length_replicate
  remainder := by
    rw [List.getD_eq_getElem?_getD, List.getElem?_replicate]
    split <;> rfl
  positive := by
    intro i _
    rw [List.getD_eq_getElem?_getD, List.getElem?_replicate]
    split <;> simp
  sum := by
    rw [List.sum_replicate, smul_zero]

end NormalizeHistogramCounts

open NormalizeHistogramCounts in
/--
Normalization is total: whatever the raw counts of up to 256 symbols are, if one
of them is positive then counts are returned that sum to 4096 and are positive
for exactly the symbols that occur.
-/
theorem normalizeHistogramCounts_total
    {rawCounts : List UInt32}
    (occurs : ∃ count ∈ rawCounts, 0 < count)
    (few :
      trimmedAlphabetSizeForCounts (rawCounts.map UInt32.toNat) ≤ 256) :
    ∃ normalized,
      normalizeHistogramCounts rawCounts = .ok normalized ∧
        normalized.length =
          trimmedAlphabetSizeForCounts (rawCounts.map UInt32.toNat) ∧
        normalized.sum = 4096 ∧
        ∀ symbol,
          0 < normalized.getD symbol 0 ↔ 0 < rawCounts.getD symbol 0 := by
  -- The support of the trimmed counts is that of the raw ones.
  have support :
      ∀ symbol,
        0 < ((rawCounts.map UInt32.toNat).rdropWhile (· = 0)).getD symbol 0 ↔
          0 < rawCounts.getD symbol 0 := by
    intro symbol
    have sameCount := countOf_trim (rawCounts.map UInt32.toNat) symbol
    rw [countOf, countOf] at sameCount
    rw [sameCount, List.getD_eq_getElem?_getD, List.getD_eq_getElem?_getD,
      List.getElem?_map]
    cases rawCounts[symbol]? with
    | none =>
        simp
    | some count =>
        simp [UInt32.lt_iff_toNat_lt]
  have fits :
      ∀ count ∈ (rawCounts.map UInt32.toNat).rdropWhile (· = 0),
        count < 2 ^ 32 := by
    intro count member
    have inRaw := (List.rdropWhile_prefix _ _).sublist.subset member
    obtain ⟨raw, _, rfl⟩ := List.mem_map.1 inRaw
    exact raw.toNat_lt
  have taken := take_trimmed (rawCounts.map UInt32.toNat)
  rw [normalizeHistogramCounts]
  dsimp only
  rw [taken]
  rw [trimmedAlphabetSizeForCounts] at few ⊢
  simp only [← support]
  have someOccurs :
      ∃ symbol,
        0 < ((rawCounts.map UInt32.toNat).rdropWhile (· = 0)).getD symbol
          0 := by
    obtain ⟨count, member, positive⟩ := occurs
    obtain ⟨symbol, isCount⟩ := List.getElem?_of_mem member
    refine ⟨symbol, (support symbol).2 ?_⟩
    rw [List.getD_eq_getElem?_getD, isCount]
    exact positive
  generalize (rawCounts.map UInt32.toNat).rdropWhile (· = 0) = counts at *
  obtain ⟨symbol, positive⟩ := someOccurs
  have inside : symbol < counts.length := by
    by_contra outside
    rw [List.getD_eq_default _ _ (Nat.le_of_not_lt outside)] at positive
    omega
  have small := sum_lt_of_few fits few
  obtain ⟨totals, surveying, surveyed⟩ :=
    foldlM_zipIdx_ok (Surveyed counts) counts (surveyed_initial counts)
      (fun position count totals isCount surveyed =>
        addCount_ok (by omega) isCount surveyed)
  have someSymbols : 0 < totals.numSymbols := by
    by_contra isNone
    have zero := (surveyed.none (by omega)).2 symbol inside
    omega
  obtain ⟨before, mostFrequent⟩ := surveyed.found someSymbols
  have total := surveyed.total
  rw [List.take_length] at total
  have totalPositive : totals.total ≠ 0 := by
    rw [total]
    intro zero
    have member : counts.getD symbol 0 ∈ counts := by
      rw [List.getD_eq_getElem _ _ inside]
      exact List.getElem_mem inside
    have isZero := List.sum_eq_zero_iff.1 zero _ member
    omega
  have sizeAllowed :
      ¬ (counts.length = 0 ∨
        AnsParams.ansMaxAlphabetSize < counts.length) := by
    rw [AnsParams.ansMaxAlphabetSize]
    omega
  rw [if_neg sizeAllowed, surveying, ok_bind, if_neg totalPositive]
  by_cases isOne : totals.numSymbols = 1
  · rw [if_pos isOne]
    exact ⟨_, rfl, single_ok surveyed isOne⟩
  · rw [if_neg isOne]
    have scaling :
        ∃ scaled,
          counts.zipIdx.foldlM (scale totals.total totals.remainderPos)
              (List.replicate counts.length 0, 0) =
            .ok scaled ∧
            Spread counts totals.remainderPos counts.length scaled.1
              scaled.2 :=
      foldlM_zipIdx_ok
        (fun position (state : List Nat × Nat) =>
          Spread counts totals.remainderPos position state.1 state.2)
        counts (spread_initial counts totals.remainderPos)
        (fun position count state isCount spread =>
          scale_ok fits (by omega) isCount spread)
    obtain ⟨scaled, scales, spread⟩ := scaling
    obtain ⟨normalized, sumOthers, corrects, spread', room⟩ :=
      correct_ok few scaled.2 scaled.1 spread
    rw [scales, ok_bind]
    rw [corrects, ok_bind]
    dsimp only
    rw [subU_ok (Nat.le_of_lt room), ok_bind, if_neg (by omega)]
    exact ⟨_, rfl, remainder_ok spread' room before mostFrequent⟩

/-- Frequencies that round up to more than the whole range. -/
theorem normalizeHistogramCounts_total_skewed :
    ∃ normalized,
      normalizeHistogramCounts [4294967295, 0, 1, 1, 0] = .ok normalized ∧
        normalized.length = 4 ∧
        normalized.sum = 4096 ∧
        ∀ symbol,
          0 < normalized.getD symbol 0 ↔
            0 < ([4294967295, 0, 1, 1, 0] : List UInt32).getD symbol 0 :=
  normalizeHistogramCounts_total
    ⟨4294967295, List.mem_cons_self, by decide⟩ (by decide)

end Jxlz
