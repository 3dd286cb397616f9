import Jxlz.Entropy.AliasTable

namespace Jxlz

open AliasTable

namespace InitAliasTable

/-!
# What the reassignment loop of an alias table preserves

Every slot of a bucket below its cutoff stays with the symbol of the bucket.
`Reassigning` records where the other occurrences of a symbol went and that
the capacity handed out equals the capacity there is; the latter keeps the
underfull stack from running empty too early.
-/

variable {entrySize tableSize : Nat}
variable {count : Nat → Nat}
variable {cutoffs : List Nat}
variable {a : List Entry}
variable {underfull overfull : List Nat}

/-- A bucket whose upper part has been given to another symbol. -/
def Filled
    (entrySize : Nat)
    (cutoffs underfull : List Nat)
    (bucket : Nat) :
    Prop :=
  cutoffs.getD bucket 0 < entrySize ∧ bucket ∉ underfull

instance
    (entrySize : Nat)
    (cutoffs underfull : List Nat)
    (bucket : Nat) :
    Decidable (Filled entrySize cutoffs underfull bucket) :=
  inferInstanceAs (Decidable (_ ∧ _))

/-- Bucket `bucket` holds occurrence `offset` of `symbol` in its upper part. -/
structure Holds
    (entrySize : Nat)
    (cutoffs : List Nat)
    (entry : Entry)
    (bucket symbol offset : Nat) :
    Prop where
  owner :
    entry.rightValue = symbol
  fromStart :
    entry.offsets1 ≤ offset
  beforeEnd :
    offset < entry.offsets1 + (entrySize - cutoffs.getD bucket 0)

/-- The share of the total capacity that a bucket accounts for. -/
def share
    (entrySize : Nat)
    (cutoffs underfull : List Nat)
    (bucket : Nat) :
    Nat :=
  if Filled entrySize cutoffs underfull bucket then
    entrySize
  else
    cutoffs.getD bucket 0

/-- The invariant of the reassignment loop. -/
structure Reassigning
    (entrySize tableSize : Nat)
    (count : Nat → Nat)
    (cutoffs : List Nat)
    (a : List Entry)
    (underfull overfull : List Nat) :
    Prop where
  cutoffsLength :
    cutoffs.length = tableSize
  entriesLength :
    tableSize ≤ a.length
  underfullNodup :
    underfull.Nodup
  overfullNodup :
    overfull.Nodup
  isUnderfull :
    ∀ bucket ∈ underfull,
      bucket < tableSize ∧ cutoffs.getD bucket 0 < entrySize
  isOverfull :
    ∀ bucket,
      bucket ∈ overfull ↔
        bucket < tableSize ∧ entrySize < cutoffs.getD bucket 0
  cutoffLe :
    ∀ symbol, cutoffs.getD symbol 0 ≤ count symbol
  placed :
    ∀ symbol offset,
      symbol < tableSize →
      cutoffs.getD symbol 0 ≤ offset →
      offset < count symbol →
      ∃ bucket,
        bucket < tableSize ∧
          Filled entrySize cutoffs underfull bucket ∧
          Holds entrySize cutoffs (a.getD bucket default)
            bucket symbol offset
  filledEntry :
    ∀ bucket,
      bucket < tableSize →
      Filled entrySize cutoffs underfull bucket →
      cutoffs.getD bucket 0 ≤ (a.getD bucket default).offsets1
  capacity :
    ∑ bucket ∈ Finset.range tableSize,
        share entrySize cutoffs underfull bucket =
      tableSize * entrySize

namespace Reassigning

/-- While a symbol is overfull some bucket is underfull. -/
theorem underfull_ne_nil
    {overfullI : Nat}
    (invariant :
      Reassigning entrySize tableSize count cutoffs a underfull
        (overfullI :: overfull)) :
    underfull ≠ [] := by
  rintro rfl
  have shareLarge :
      ∀ bucket ∈ Finset.range tableSize,
        entrySize ≤ share entrySize cutoffs [] bucket := by
    intro bucket _
    by_cases filled : Filled entrySize cutoffs [] bucket
    · rw [share, if_pos filled]
    · rw [share, if_neg filled]
      simpa [Filled] using filled
  obtain ⟨inTable, excess⟩ :=
    (invariant.isOverfull overfullI).1 List.mem_cons_self
  have strict :
      entrySize < share entrySize cutoffs [] overfullI := by
    have notFilled : ¬ Filled entrySize cutoffs [] overfullI := by
      unfold Filled
      omega
    rwa [share, if_neg notFilled]
  have tooMuch :
      ∑ _bucket ∈ Finset.range tableSize, entrySize <
        ∑ bucket ∈ Finset.range tableSize,
          share entrySize cutoffs [] bucket :=
    Finset.sum_lt_sum shareLarge
      ⟨overfullI, Finset.mem_range.2 inTable, strict⟩
  rw [invariant.capacity] at tooMuch
  simp at tooMuch

/-- When no symbol is overfull any more, no bucket is underfull either. -/
theorem underfull_eq_nil
    (invariant :
      Reassigning entrySize tableSize count cutoffs a underfull []) :
    underfull = [] := by
  have noExcess :
      ∀ bucket,
        bucket < tableSize → cutoffs.getD bucket 0 ≤ entrySize := by
    intro bucket inTable
    have notOverfull := (invariant.isOverfull bucket).2
    simp only [List.not_mem_nil, imp_false, not_and] at notOverfull
    have bound := notOverfull inTable
    omega
  have shareSmall :
      ∀ bucket ∈ Finset.range tableSize,
        share entrySize cutoffs underfull bucket ≤ entrySize := by
    intro bucket inTable
    by_cases filled : Filled entrySize cutoffs underfull bucket
    · rw [share, if_pos filled]
    · rw [share, if_neg filled]
      exact noExcess bucket (Finset.mem_range.1 inTable)
  cases underfull with
  | nil =>
      rfl
  | cons bucket rest =>
      exfalso
      obtain ⟨inTable, isShort⟩ :=
        invariant.isUnderfull bucket List.mem_cons_self
      have strict :
          share entrySize cutoffs (bucket :: rest) bucket < entrySize := by
        have notFilled :
            ¬ Filled entrySize cutoffs (bucket :: rest) bucket := by
          simp [Filled]
        rwa [share, if_neg notFilled]
      have tooLittle :
          ∑ bucket' ∈ Finset.range tableSize,
              share entrySize cutoffs (bucket :: rest) bucket' <
            ∑ _bucket' ∈ Finset.range tableSize, entrySize :=
        Finset.sum_lt_sum shareSmall
          ⟨bucket, Finset.mem_range.2 inTable, strict⟩
      rw [invariant.capacity] at tooLittle
      simp at tooLittle

/-- The round that gives the upper part of `underfullI` to `overfullI`. -/
def remaining
    (entrySize : Nat)
    (cutoffs : List Nat)
    (underfullI overfullI : Nat) :
    Nat :=
  cutoffs.getD overfullI 0 - (entrySize - cutoffs.getD underfullI 0)

/-- The entry list after the round. -/
def reassigned
    (a : List Entry)
    (underfullI overfullI offsets1 : Nat) :
    List Entry :=
  a.modify underfullI
    (fun entry => { entry with rightValue := overfullI, offsets1 })

theorem getD_reassigned
    {a : List Entry}
    {underfullI : Nat}
    (overfullI offsets1 other : Nat)
    (inside : underfullI < a.length) :
    (reassigned a underfullI overfullI offsets1).getD other default =
      if other = underfullI then
        { a.getD other default with rightValue := overfullI, offsets1 }
      else
        a.getD other default := by
  by_cases same : other = underfullI
  · subst same
    simp [reassigned, inside]
  · have different : underfullI ≠ other :=
      fun equal => same equal.symm
    simp [reassigned, List.getD_eq_getElem?_getD, different, same]

section Round

variable {underfullI overfullI : Nat}
variable (invariant :
  Reassigning entrySize tableSize count cutoffs a (underfullI :: underfull)
    (overfullI :: overfull))
-- The stacks after the round.
variable {underfull' overfull' : List Nat}

include invariant

/-- Facts about the two symbols of a round. -/
theorem round_facts :
    underfullI < tableSize ∧
      cutoffs.getD underfullI 0 < entrySize ∧
      overfullI < tableSize ∧
      entrySize < cutoffs.getD overfullI 0 ∧
      underfullI ∉ underfull ∧
      overfullI ∉ overfull ∧
      overfullI ∉ underfull ∧
      underfullI ≠ overfullI := by
  obtain ⟨underInTable, isShort⟩ :=
    invariant.isUnderfull underfullI List.mem_cons_self
  obtain ⟨overInTable, hasExcess⟩ :=
    (invariant.isOverfull overfullI).1 List.mem_cons_self
  refine ⟨underInTable, isShort, overInTable, hasExcess,
    (List.nodup_cons.1 invariant.underfullNodup).1,
    (List.nodup_cons.1 invariant.overfullNodup).1, ?_, ?_⟩
  · intro member
    have shortToo :=
      (invariant.isUnderfull overfullI (List.mem_cons_of_mem _ member)).2
    omega
  · rintro rfl
    omega

/-- The cutoffs after the round. -/
theorem getD_round
    (bucket : Nat) :
    (cutoffs.set overfullI
        (remaining entrySize cutoffs underfullI overfullI)).getD bucket 0 =
      if bucket = overfullI then
        remaining entrySize cutoffs underfullI overfullI
      else
        cutoffs.getD bucket 0 := by
  refine getD_set ?_ _ _
  rw [invariant.cutoffsLength]
  exact ((invariant.isOverfull overfullI).1 List.mem_cons_self).1

/-- The round fills exactly the bucket it took from the underfull stack. -/
theorem filled_round
    (underfullMem :
      ∀ bucket,
        bucket ∈ underfull' ↔
          bucket ∈ underfull ∨
            (bucket = overfullI ∧
              remaining entrySize cutoffs underfullI overfullI < entrySize))
    (bucket : Nat) :
    Filled entrySize
        (cutoffs.set overfullI
          (remaining entrySize cutoffs underfullI overfullI))
        underfull' bucket ↔
      Filled entrySize cutoffs (underfullI :: underfull) bucket ∨
        bucket = underfullI := by
  obtain ⟨_, isShort, _, hasExcess, underFresh, _, overFresh, different⟩ :=
    invariant.round_facts
  unfold Filled
  rw [invariant.getD_round, underfullMem]
  by_cases isOver : bucket = overfullI
  · subst isOver
    simp only [if_true, List.mem_cons, not_or, true_and]
    constructor
    · rintro ⟨isShortNow, _, notShortNow⟩
      exact (notShortNow isShortNow).elim
    · rintro (⟨isShortBefore, _⟩ | isUnder)
      · omega
      · exact (different isUnder.symm).elim
  · simp only [isOver, if_false, false_and, or_false, List.mem_cons, not_or]
    constructor
    · rintro ⟨isShortBucket, notStacked⟩
      by_cases isUnder : bucket = underfullI
      · exact Or.inr isUnder
      · exact Or.inl ⟨isShortBucket, isUnder, notStacked⟩
    · rintro (⟨isShortBucket, _, notStacked⟩ | isUnder)
      · exact ⟨isShortBucket, notStacked⟩
      · subst isUnder
        exact ⟨isShort, underFresh⟩

/-- The round moves capacity from the overfull to the underfull symbol. -/
theorem share_round
    (underfullMem :
      ∀ bucket,
        bucket ∈ underfull' ↔
          bucket ∈ underfull ∨
            (bucket = overfullI ∧
              remaining entrySize cutoffs underfullI overfullI < entrySize))
    (bucket : Nat) :
    share entrySize
          (cutoffs.set overfullI
            (remaining entrySize cutoffs underfullI overfullI))
          underfull' bucket +
        (if bucket = overfullI then
          entrySize - cutoffs.getD underfullI 0 else 0) =
      share entrySize cutoffs (underfullI :: underfull) bucket +
        (if bucket = underfullI then
          entrySize - cutoffs.getD underfullI 0 else 0) := by
  obtain ⟨_, isShort, _, hasExcess, underFresh, _, overFresh, different⟩ :=
    invariant.round_facts
  unfold share
  rw [if_congr (invariant.filled_round underfullMem bucket) rfl rfl,
    invariant.getD_round]
  by_cases isOver : bucket = overfullI
  · subst isOver
    have notFilled :
        ¬ Filled entrySize cutoffs (underfullI :: underfull) bucket := by
      unfold Filled
      omega
    have notUnder : bucket ≠ underfullI :=
      fun same => different same.symm
    simp only [notFilled, notUnder, or_self, if_false, if_true, remaining]
    omega
  · by_cases isUnder : bucket = underfullI
    · subst isUnder
      have notFilled :
          ¬ Filled entrySize cutoffs (bucket :: underfull) bucket := by
        simp [Filled]
      simp only [notFilled, isOver, or_true, if_false, if_true]
      omega
    · simp only [isOver, isUnder, or_false, if_false]

/-- One round of the loop preserves the invariant. -/
theorem round
    (underfullNodup : underfull'.Nodup)
    (overfullNodup : overfull'.Nodup)
    (underfullMem :
      ∀ bucket,
        bucket ∈ underfull' ↔
          bucket ∈ underfull ∨
            (bucket = overfullI ∧
              remaining entrySize cutoffs underfullI overfullI < entrySize))
    (overfullMem :
      ∀ bucket,
        bucket ∈ overfull' ↔
          bucket ∈ overfull ∨
            (bucket = overfullI ∧
              entrySize < remaining entrySize cutoffs underfullI overfullI)) :
    Reassigning entrySize tableSize count
      (cutoffs.set overfullI
        (remaining entrySize cutoffs underfullI overfullI))
      (reassigned a underfullI overfullI
        (remaining entrySize cutoffs underfullI overfullI))
      underfull' overfull' := by
  obtain ⟨underInTable, isShort, overInTable, hasExcess, underFresh,
    overFresh, overNotShort, different⟩ := invariant.round_facts
  have inList : underfullI < a.length :=
    Nat.lt_of_lt_of_le underInTable invariant.entriesLength
  have filledIff := invariant.filled_round underfullMem
  have entryEq :=
    fun bucket =>
      getD_reassigned overfullI
        (remaining entrySize cutoffs underfullI overfullI) bucket inList
  have remainingEq :
      remaining entrySize cutoffs underfullI overfullI =
        cutoffs.getD overfullI 0 -
          (entrySize - cutoffs.getD underfullI 0) :=
    rfl
  refine ⟨?_, ?_, underfullNodup, overfullNodup, ?_, ?_, ?_, ?_, ?_, ?_⟩
  · simpa using invariant.cutoffsLength
  · simpa [reassigned] using invariant.entriesLength
  · intro bucket member
    rw [invariant.getD_round]
    rcases (underfullMem bucket).1 member with old | ⟨isOver, isShortNow⟩
    · have notOver : bucket ≠ overfullI := by
        rintro rfl
        exact overNotShort old
      rw [if_neg notOver]
      exact invariant.isUnderfull bucket (List.mem_cons_of_mem _ old)
    · subst isOver
      rw [if_pos rfl]
      exact ⟨overInTable, isShortNow⟩
  · intro bucket
    rw [overfullMem, invariant.getD_round]
    have before := invariant.isOverfull bucket
    rw [List.mem_cons] at before
    by_cases isOver : bucket = overfullI
    · subst isOver
      simp [overFresh, overInTable]
    · simpa [isOver] using before
  · intro symbol
    have bound := invariant.cutoffLe symbol
    rw [invariant.getD_round]
    by_cases isOver : symbol = overfullI
    · subst isOver
      rw [if_pos rfl, remainingEq]
      omega
    · rwa [if_neg isOver]
  · intro symbol offset inTable fromCutoff beforeCount
    rw [invariant.getD_round] at fromCutoff
    by_cases moved : symbol = overfullI ∧ offset < cutoffs.getD overfullI 0
    · -- The occurrences that this round moves are in the bucket it fills.
      obtain ⟨rfl, wasCounted⟩ := moved
      rw [if_pos rfl] at fromCutoff
      refine ⟨underfullI, underInTable, (filledIff _).2 (Or.inr rfl), ?_⟩
      rw [entryEq, if_pos rfl]
      refine ⟨rfl, fromCutoff, ?_⟩
      rw [invariant.getD_round, if_neg different]
      simp only
      omega
    · -- The others are where they were.
      have wasMoved : cutoffs.getD symbol 0 ≤ offset := by
        by_cases isOver : symbol = overfullI
        · subst isOver
          simp only [true_and, Nat.not_lt] at moved
          exact moved
        · rwa [if_neg isOver] at fromCutoff
      obtain ⟨bucket, bucketInTable, filled, holds⟩ :=
        invariant.placed symbol offset inTable wasMoved beforeCount
      have notUnder : bucket ≠ underfullI := by
        rintro rfl
        exact filled.2 List.mem_cons_self
      have notOver : bucket ≠ overfullI := by
        rintro rfl
        have isShortBucket := filled.1
        omega
      refine ⟨bucket, bucketInTable, (filledIff _).2 (Or.inl filled), ?_⟩
      rw [entryEq, if_neg notUnder]
      refine ⟨holds.owner, holds.fromStart, ?_⟩
      rw [invariant.getD_round, if_neg notOver]
      exact holds.beforeEnd
  · intro bucket inTable filled
    rw [invariant.getD_round, entryEq]
    rcases (filledIff bucket).1 filled with old | isUnder
    · have notUnder : bucket ≠ underfullI := by
        rintro rfl
        exact old.2 List.mem_cons_self
      have notOver : bucket ≠ overfullI := by
        rintro rfl
        have isShortBucket := old.1
        omega
      rw [if_neg notUnder, if_neg notOver]
      exact invariant.filledEntry bucket inTable old
    · subst isUnder
      rw [if_pos rfl, if_neg different]
      simp only
      omega
  · have total :=
      Finset.sum_congr rfl
        (fun bucket (_ : bucket ∈ Finset.range tableSize) =>
          invariant.share_round underfullMem bucket)
    rw [Finset.sum_add_distrib, Finset.sum_add_distrib,
      Finset.sum_ite_eq', Finset.sum_ite_eq',
      if_pos (Finset.mem_range.2 overInTable),
      if_pos (Finset.mem_range.2 underInTable), invariant.capacity] at total
    omega

end Round

end Reassigning

/-- One round of the loop, with its reads and subtractions carried out. -/
theorem reassign_round
    {underfullI overfullI : Nat}
    (invariant :
      Reassigning entrySize tableSize count cutoffs a
        (underfullI :: underfull) (overfullI :: overfull))
    (memory : List Entry) :
    reassign entrySize cutoffs memory (underfullI :: underfull)
        (overfullI :: overfull) =
      (let remaining :=
        Reassigning.remaining entrySize cutoffs underfullI overfullI
      let cutoffs := cutoffs.set overfullI remaining
      let memory :=
        Reassigning.reassigned memory underfullI overfullI remaining
      if remaining < entrySize then
        reassign entrySize cutoffs memory (overfullI :: underfull) overfull
      else if entrySize < remaining then
        reassign entrySize cutoffs memory underfull (overfullI :: overfull)
      else
        reassign entrySize cutoffs memory underfull overfull) := by
  obtain ⟨underInTable, isShort, overInTable, hasExcess, _⟩ :=
    invariant.round_facts
  have cutoffsLength := invariant.cutoffsLength
  have underRead :
      index cutoffs underfullI = .ok (cutoffs.getD underfullI 0) :=
    index_getD (by omega) 0
  have overRead :
      index cutoffs overfullI = .ok (cutoffs.getD overfullI 0) :=
    index_getD (by omega) 0
  have underfullBy :
      subU entrySize (cutoffs.getD underfullI 0) =
        .ok (entrySize - cutoffs.getD underfullI 0) :=
    subU_ok (by omega)
  have remains :
      subU (cutoffs.getD overfullI 0)
          (entrySize - cutoffs.getD underfullI 0) =
        .ok (Reassigning.remaining entrySize cutoffs underfullI overfullI) :=
    subU_ok (by omega)
  rw [reassign]
  simp only [underRead, overRead, underfullBy, remains, ok_bind]
  rfl

/-- Two memories agree on the buckets that have been filled. -/
def AgreeOnFilled
    (entrySize tableSize : Nat)
    (cutoffs underfull : List Nat)
    (a memory : List Entry) :
    Prop :=
  tableSize ≤ memory.length ∧
    ∀ bucket,
      bucket < tableSize →
      Filled entrySize cutoffs underfull bucket →
      (a.getD bucket default).rightValue =
          (memory.getD bucket default).rightValue ∧
        (a.getD bucket default).offsets1 =
          (memory.getD bucket default).offsets1

/-- A round writes the same to both memories. -/
theorem AgreeOnFilled.round
    {underfullI overfullI : Nat}
    {underfull' memory : List _}
    (agree :
      AgreeOnFilled entrySize tableSize cutoffs (underfullI :: underfull)
        a memory)
    (invariant :
      Reassigning entrySize tableSize count cutoffs a
        (underfullI :: underfull) (overfullI :: overfull))
    (underfullMem :
      ∀ bucket,
        bucket ∈ underfull' ↔
          bucket ∈ underfull ∨
            (bucket = overfullI ∧
              Reassigning.remaining entrySize cutoffs underfullI overfullI <
                entrySize)) :
    AgreeOnFilled entrySize tableSize
      (cutoffs.set overfullI
        (Reassigning.remaining entrySize cutoffs underfullI overfullI))
      underfull'
      (Reassigning.reassigned a underfullI overfullI
        (Reassigning.remaining entrySize cutoffs underfullI overfullI))
      (Reassigning.reassigned memory underfullI overfullI
        (Reassigning.remaining entrySize cutoffs underfullI overfullI)) := by
  obtain ⟨underInTable, _⟩ := invariant.round_facts
  refine ⟨by simpa [Reassigning.reassigned] using agree.1, ?_⟩
  intro bucket inTable filled
  rw [Reassigning.getD_reassigned _ _ _
      (Nat.lt_of_lt_of_le underInTable invariant.entriesLength),
    Reassigning.getD_reassigned _ _ _
      (Nat.lt_of_lt_of_le underInTable agree.1)]
  by_cases isUnder : bucket = underfullI
  · simp only [isUnder, if_true, and_self]
  · rw [if_neg isUnder, if_neg isUnder]
    rcases (invariant.filled_round underfullMem bucket).1 filled with
      old | isUnder'
    · exact agree.2 bucket inTable old
    · exact (isUnder isUnder').elim

/--
The loop ends with every symbol's occurrences handed out to buckets.  It does
the same on any other memory that agrees on what has been filled so far.
-/
theorem reassign_ok
    {memory : List Entry}
    (invariant :
      Reassigning entrySize tableSize count cutoffs a underfull overfull)
    (agree : AgreeOnFilled entrySize tableSize cutoffs underfull a memory) :
    ∃ cutoffs' a' memory',
      reassign entrySize cutoffs a underfull overfull =
          .ok (cutoffs', a') ∧
        reassign entrySize cutoffs memory underfull overfull =
          .ok (cutoffs', memory') ∧
        a'.length = a.length ∧
        a'.drop tableSize = a.drop tableSize ∧
        Reassigning entrySize tableSize count cutoffs' a' [] [] ∧
        AgreeOnFilled entrySize tableSize cutoffs' [] a' memory' := by
  fun_induction reassign entrySize cutoffs a underfull overfull
    generalizing memory with
  | case1 cutoffs a underfull =>
      have noUnderfull := invariant.underfull_eq_nil
      subst noUnderfull
      exact ⟨cutoffs, a, memory, rfl, by rw [reassign]; rfl, rfl, rfl,
        invariant, agree⟩
  | case2 cutoffs a overfullI overfull =>
      exact (invariant.underfull_ne_nil rfl).elim
  | case3 cutoffs a underfullI underfull overfullI overfull
      shortHypothesis excessHypothesis evenHypothesis =>
      obtain ⟨underInTable, isShort, overInTable, hasExcess, underFresh,
        overFresh, overNotShort, different⟩ := invariant.round_facts
      have underfullNodup := (List.nodup_cons.1 invariant.underfullNodup).2
      have overfullNodup := (List.nodup_cons.1 invariant.overfullNodup).2
      have unchanged :
          (Reassigning.reassigned a underfullI overfullI
              (Reassigning.remaining entrySize cutoffs underfullI
                overfullI)).drop tableSize =
            a.drop tableSize :=
        List.drop_modify_of_lt _ _ _ _ underInTable
      have sameLength :
          (Reassigning.reassigned a underfullI overfullI
              (Reassigning.remaining entrySize cutoffs underfullI
                overfullI)).length =
            a.length := by
        simp [Reassigning.reassigned]
      have ownRound := reassign_round invariant a
      rw [reassign] at ownRound
      rw [ownRound, reassign_round invariant memory]
      -- The overfull symbol goes to one of the stacks, or is settled.
      by_cases shortNow :
          Reassigning.remaining entrySize cutoffs underfullI overfullI <
            entrySize
      · have underfullMem :
            ∀ bucket,
              bucket ∈ overfullI :: underfull ↔
                bucket ∈ underfull ∨
                  (bucket = overfullI ∧
                    Reassigning.remaining entrySize cutoffs underfullI
                        overfullI <
                      entrySize) := by
          intro bucket
          simp only [List.mem_cons, shortNow, and_true]
          exact or_comm
        obtain ⟨cutoffs', a', memory', run, run', length', drop', done,
            agree'⟩ :=
          shortHypothesis _
            (invariant.round
              (List.nodup_cons.2 ⟨overNotShort, underfullNodup⟩)
              overfullNodup underfullMem
              (by
                intro bucket
                have notExcess := Nat.not_lt_of_gt shortNow
                simp [notExcess]))
            (agree.round invariant underfullMem)
        simp only [if_pos shortNow]
        exact ⟨cutoffs', a', memory', run, run', length'.trans sameLength,
          drop'.trans unchanged, done, agree'⟩
      · have underfullMem :
            ∀ bucket,
              bucket ∈ underfull ↔
                bucket ∈ underfull ∨
                  (bucket = overfullI ∧
                    Reassigning.remaining entrySize cutoffs underfullI
                        overfullI <
                      entrySize) := by
          intro bucket
          simp [shortNow]
        by_cases excessNow :
            entrySize <
              Reassigning.remaining entrySize cutoffs underfullI overfullI
        · obtain ⟨cutoffs', a', memory', run, run', length', drop', done,
              agree'⟩ :=
            excessHypothesis _
              (invariant.round underfullNodup
                (List.nodup_cons.2 ⟨overFresh, overfullNodup⟩) underfullMem
                (by
                  intro bucket
                  simp only [List.mem_cons, excessNow, and_true]
                  exact or_comm))
              (agree.round invariant underfullMem)
          simp only [if_neg shortNow, if_pos excessNow]
          exact ⟨cutoffs', a', memory', run, run',
            length'.trans sameLength, drop'.trans unchanged, done, agree'⟩
        · obtain ⟨cutoffs', a', memory', run, run', length', drop', done,
              agree'⟩ :=
            evenHypothesis _
              (invariant.round underfullNodup overfullNodup underfullMem
                (by
                  intro bucket
                  simp [excessNow]))
              (agree.round invariant underfullMem)
          simp only [if_neg shortNow, if_neg excessNow]
          exact ⟨cutoffs', a', memory', run, run',
            length'.trans sameLength, drop'.trans unchanged, done, agree'⟩

end InitAliasTable

end Jxlz
