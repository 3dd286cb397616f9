import Jxlz.Entropy.HistogramRuns

namespace Jxlz

open BitString

/-!
# The general form is read back

The loops of the encoder and of the decoder are matched position by position, a
folded run being one step of both.  The decoder finds the omitted position again
as that of the first of the largest widths.
-/

namespace ReadHistogram

/-! ## Codes of the widths -/

/-- A table lookup only depends on the bits of the code. -/
theorem huff_of_code :
    ∀ width, width < 14 →
      ∀ idx, idx < 128 →
      idx % 2 ^ kBitWidthLengths.getD width 0 =
          kBitWidthSymbols.getD width 0 →
      huff[idx]? = some (kBitWidthLengths.getD width 0, width) := by
  decide +kernel

theorem codes_short :
    ∀ width, width < 14 →
      kBitWidthLengths.getD width 0 ≤ 7 ∧
        kBitWidthSymbols.getD width 0 <
          2 ^ kBitWidthLengths.getD width 0 := by
  decide

/-- The low bits of a number that is read ahead are those of the next field. -/
theorem valueAt_mod
    {source : Nat → Bool}
    {width length value : Nat}
    (short : length ≤ width)
    (fits : value < 2 ^ length)
    (served : Serves source (bitsOf length value)) :
    valueAt source width % 2 ^ length = value := by
  rw [← valueAt_of_serves fits served]
  refine
    eq_of_low_bits (Nat.mod_lt _ (Nat.two_pow_pos length)) (valueAt_lt _ _) ?_
  intro index inside
  rw [Nat.testBit_mod_two_pow, testBit_valueAt _ inside,
    testBit_valueAt _ (Nat.lt_of_lt_of_le inside short), decide_eq_true inside,
    Bool.true_and]

/-- The code of a width is read back. -/
theorem writeWidth_roundTrips
    {width : Nat}
    (small : width < 14) :
    RoundTrips (WriteHistogramBody.writeWidth width) readWidth width := by
  obtain ⟨short, fits⟩ := codes_short width small
  refine
    ⟨bitsOf (kBitWidthLengths.getD width 0) (kBitWidthSymbols.getD width 0),
      ?_, ?_⟩
  · intro writer
    have inLengths : width < kBitWidthLengths.length := small
    have inSymbols : width < kBitWidthSymbols.length := small
    unfold WriteHistogramBody.writeWidth
    rw [index_getD inLengths 0, ok_bind, index_getD inSymbols 0, ok_bind]
    exact writer.write_ok _ (Nat.le_trans short (by decide))
  · intro reader stands
    have refilled := stands.refill
    have full := reader.refill_full
    have enough : 7 ≤ reader.refill.bitsInBuf :=
      Nat.le_trans (by decide) full
    have peeked :=
      BitReader.peekBits_ok refilled.isOpen (show 7 ≤ _ by decide) enough
    have low := valueAt_mod short fits refilled.served
    have found := huff_of_code width small _ (valueAt_lt _ _) low
    obtain ⟨after, consumed, advanced, _⟩ :=
      BitReader.consume_ok refilled.isOpen (Nat.le_trans short enough)
    refine ⟨after, ?_, ?_⟩
    · unfold readWidth
      dsimp only
      rw [peeked, ok_bind, index_eq_ok.2 found, ok_bind]
      dsimp only
      rw [consumed, ok_bind]
      rfl
    · rw [length_bitsOf]
      have whole := reader.refill_advanced.trans advanced
      rwa [Nat.zero_add] at whole

/-! ## How many digits are kept -/

/-- The number of kept digits is read back. -/
theorem writeHistogramMethod_roundTrips :
    RoundTrips (writeHistogramMethod kExactHistogramMethod) readShift
      kExactHistogramShift := by
  have unary :
      RoundTrips (fun writer => writer.write 3 7) (readLog 3 0) 3 := by
    refine ⟨bitsOf 3 7, Writes.patch (by decide) 7, ?_⟩
    have bitByBit : bitsOf 3 7 = bitsOf 1 1 ++ (bitsOf 1 1 ++ bitsOf 1 1) := by
      decide
    have one :=
      Reads.readBits (show 1 ≤ BitReader.kMaxBitsPerCall by decide)
        (show 1 < 2 ^ 1 by decide)
    rw [bitByBit]
    exact one.bind (one.bind (one.last (fun _ => rfl)))
  have below :
      RoundTrips (fun writer => writer.write 3 4) (fun br => br.readBits 3) 4 :=
    RoundTrips.patch (by decide) (by decide)
  have written :
      writeHistogramMethod kExactHistogramMethod =
        fun writer => writer.write 3 7 >>= fun writer => writer.write 3 4 :=
    rfl
  rw [written]
  exact unary.bind (below.last (fun _ => rfl))

/-- The exact form keeps every digit. -/
theorem getPopulationCountPrecision_exact :
    ∀ code, 0 < code → code < 12 →
      getPopulationCountPrecision code kExactHistogramShift = code := by
  intro code positive small
  interval_cases code <;> rfl

/-! ## The loop over the widths -/

section Widths

variable {counts bitWidth same : List Nat}
variable {omitPos : Nat}

/-- What the decoder holds for the positions from one on. -/
inductive Recorded
    (bitWidth same : List Nat)
    (length : Nat)
    (widths : Logcounts) :
    Nat → Prop
  | done
      {i : Nat}
      (atEnd : length ≤ i) :
      Recorded bitWidth same length widths i
  | single
      {i : Nat}
      (inside : i < length)
      (short : same.getD i 0 < kMinReps)
      (logcount : widths.logcounts.getD i 0 = (bitWidth.getD i 0 : Int) - 1)
      (unmarked : widths.same.getD i 0 = 0)
      (rest : Recorded bitWidth same length widths (i + 1)) :
      Recorded bitWidth same length widths i
  | run
      {i : Nat}
      (inside : i < length)
      (long : kMinReps ≤ same.getD i 0)
      (logcount : widths.logcounts.getD i 0 = (bitWidth.getD i 0 : Int) - 1)
      (unmarked : widths.same.getD i 0 = 0)
      (marked : widths.same.getD (i + 1) 0 = same.getD i 0)
      (skipped :
        ∀ j,
          i + 2 ≤ j →
          j < i + same.getD i 0 →
          widths.same.getD j 0 = 0)
      (rest : Recorded bitWidth same length widths (i + same.getD i 0)) :
      Recorded bitWidth same length widths i

/-- The state of the decoder in front of a position. -/
structure Reading
    (counts bitWidth : List Nat)
    (omitPos i : Nat)
    (state : Logcounts) :
    Prop where
  logcountsSized :
    state.logcounts.length = counts.length
  samesSized :
    state.same.length = counts.length
  samesRest :
    ∀ j, i ≤ j → state.same.getD j 0 = 0
  before :
    i ≤ omitPos → state.omitLog < (bitWidth.getD omitPos 0 : Int) - 1
  after :
    omitPos < i →
      state.omitLog = (bitWidth.getD omitPos 0 : Int) - 1 ∧
        state.omitPos = some omitPos

/-- The positions below one are not touched any more. -/
structure Keeps
    (i : Nat)
    (state final : Logcounts) :
    Prop where
  logcountsSized :
    final.logcounts.length = state.logcounts.length
  samesSized :
    final.same.length = state.same.length
  logcounts :
    ∀ j, j < i → final.logcounts.getD j 0 = state.logcounts.getD j 0
  sames :
    ∀ j, j < i → final.same.getD j 0 = state.same.getD j 0

variable {i : Nat}

theorem writeWidths_done
    (atEnd : counts.length ≤ i) :
    WriteHistogramBody.writeWidths bitWidth same counts.length i =
      fun writer => .ok writer := by
  funext writer
  rw [WriteHistogramBody.writeWidths, if_neg (Nat.not_lt.2 atEnd)]
  rfl

theorem writeWidths_step
    (sent : WriteHistogramBody.Sent counts omitPos bitWidth same)
    (inside : i < counts.length) :
    WriteHistogramBody.writeWidths bitWidth same counts.length i =
      fun writer =>
        WriteHistogramBody.writeWidth (bitWidth.getD i 0) writer >>=
          fun writer =>
            if kMinReps ≤ same.getD i 0 then
              WriteHistogramBody.writeWidth kRepCode writer >>= fun writer =>
                storeVarLenUint8 (same.getD i 0 - kMinReps) writer >>=
                  WriteHistogramBody.writeWidths bitWidth same counts.length
                    (i + same.getD i 0)
            else
              WriteHistogramBody.writeWidths bitWidth same counts.length (i + 1)
                writer := by
  have inWidths := Nat.lt_of_lt_of_le inside sent.widthsSized
  have inSames := Nat.lt_of_lt_of_le inside sent.samesSized
  funext writer
  rw [WriteHistogramBody.writeWidths, if_pos inside, index_getD inWidths 0,
    ok_bind]
  simp only [index_getD inSames 0, ok_bind, dite_eq_ite]

variable {state : Logcounts}

theorem readLogcounts_step
    {length i : Nat}
    (inside : i < length) :
    readLogcounts length i state =
      fun br =>
        readWidth br >>= fun (width, br) =>
          if (width : Int) - 1 = AnsParams.ansLogTabSize then
            decodeVarLenUint8 br >>= fun (rleLength, br) =>
              readLogcounts length (i + rleLength + 3 + 1)
                { state with
                  logcounts := state.logcounts.set i ((width : Int) - 1)
                  same := state.same.set i (rleLength + 5) }
                br
          else
            readLogcounts length (i + 1) (state.note i ((width : Int) - 1))
              br := by
  funext br
  rw [readLogcounts, if_pos inside]

theorem note_logcounts
    (state : Logcounts)
    (i : Nat)
    (logcount : Int) :
    (state.note i logcount).logcounts = state.logcounts.set i logcount := by
  unfold Logcounts.note
  dsimp only
  split <;> rfl

theorem note_same
    (state : Logcounts)
    (i : Nat)
    (logcount : Int) :
    (state.note i logcount).same = state.same := by
  unfold Logcounts.note
  dsimp only
  split <;> rfl

/-- A width is noted. -/
theorem Reading.note
    (sent : WriteHistogramBody.Sent counts omitPos bitWidth same)
    (inside : i < counts.length)
    (reading : Reading counts bitWidth omitPos i state) :
    Reading counts bitWidth omitPos (i + 1)
      (state.note i ((bitWidth.getD i 0 : Int) - 1)) := by
  have logcountsSized := reading.logcountsSized
  have widthAfter := sent.widthAfter i inside
  refine ⟨?_, ?_, ?_, ?_, ?_⟩
  · rw [note_logcounts, List.length_set, logcountsSized]
  · rw [note_same, reading.samesSized]
  · intro j above
    rw [note_same]
    exact reading.samesRest j (Nat.le_of_succ_le above)
  · intro below
    have widthBefore := sent.widthBefore i below
    have logBefore := reading.before (Nat.le_of_succ_le below)
    unfold Logcounts.note
    dsimp only
    split
    · dsimp only
      omega
    · exact logBefore
  · intro above
    unfold Logcounts.note
    dsimp only
    rcases Nat.lt_succ_iff_lt_or_eq.1 above with later | rfl
    · obtain ⟨sameLog, found⟩ := reading.after later
      rw [if_neg (by omega)]
      exact ⟨sameLog, found⟩
    · have logBefore := reading.before (Nat.le_refl omitPos)
      rw [if_pos logBefore]
      exact ⟨rfl, rfl⟩

/-- The state after the width of a run and its repetition. -/
def Logcounts.noteRun
    (state : Logcounts)
    (first repetition : Int)
    (i length : Nat) :
    Logcounts :=
  { state.note i first with
    logcounts := (state.note i first).logcounts.set (i + 1) repetition
    same := (state.note i first).same.set (i + 1) length }

/-- A run is noted. -/
theorem Reading.noteRun
    (sent : WriteHistogramBody.Sent counts omitPos bitWidth same)
    (inside : i < counts.length)
    (long : kMinReps ≤ same.getD i 0)
    (reading : Reading counts bitWidth omitPos i state) :
    Reading counts bitWidth omitPos (i + same.getD i 0)
      (state.noteRun ((bitWidth.getD i 0 : Int) - 1) AnsParams.ansLogTabSize i
        (same.getD i 0)) := by
  have noted := reading.note sent inside
  obtain ⟨runInside, _⟩ := sent.runInside i long inside
  have notOmitted :
      ∀ j, i ≤ j → j < i + same.getD i 0 → j ≠ omitPos := by
    intro j above below
    exact (sent.runEqual i long inside j above below).1
  have atLeastFive : 5 ≤ same.getD i 0 := long
  have inSames :
      i + 1 < (state.note i ((bitWidth.getD i 0 : Int) - 1)).same.length := by
    rw [noted.samesSized]
    omega
  refine ⟨?_, ?_, ?_, ?_, ?_⟩
  · unfold Logcounts.noteRun
    rw [List.length_set, noted.logcountsSized]
  · unfold Logcounts.noteRun
    rw [List.length_set, noted.samesSized]
  · intro j above
    unfold Logcounts.noteRun
    rw [getD_set inSames, if_neg (by omega)]
    exact noted.samesRest j (by omega)
  · intro below
    exact noted.before (by omega)
  · intro above
    have later : omitPos < i := by
      by_contra notLater
      exact notOmitted omitPos (by omega) above rfl
    exact noted.after (Nat.lt_succ_of_lt later)

/-- The loop over the widths is read back. -/
theorem writeWidths_roundTrips
    (sent : WriteHistogramBody.Sent counts omitPos bitWidth same)
    (i : Nat)
    (state : Logcounts)
    (reading : Reading counts bitWidth omitPos i state) :
    ∃ final,
      RoundTrips
          (WriteHistogramBody.writeWidths bitWidth same counts.length i)
          (readLogcounts counts.length i state) final ∧
        Keeps i state final ∧
        Recorded bitWidth same counts.length final i ∧
        final.omitPos = some omitPos := by
  have omitInside := sent.omitInside
  induction distance : counts.length - i using Nat.strong_induction_on
    generalizing i state with
  | _ distance inductionHypothesis =>
      by_cases inside : i < counts.length
      · have widthSmall :=
          Nat.le_trans (sent.widthAfter i inside) sent.widthSmall
        simp only [AnsParams.ansLogTabSize] at widthSmall
        have widthBack :=
          writeWidth_roundTrips (show bitWidth.getD i 0 < 14 by omega)
        have notRepetition :
            ¬ (bitWidth.getD i 0 : Int) - 1 = AnsParams.ansLogTabSize := by
          simp only [AnsParams.ansLogTabSize]
          omega
        have noted := reading.note sent inside
        have inLogcounts : i < state.logcounts.length := by
          rw [reading.logcountsSized]
          exact inside
        rw [writeWidths_step sent inside, readLogcounts_step inside]
        by_cases long : kMinReps ≤ same.getD i 0
        · obtain ⟨runInside, runSmall⟩ := sent.runInside i long inside
          have atLeastFive : 5 ≤ same.getD i 0 := long
          obtain ⟨final, back, keeps, recorded, found⟩ :=
            inductionHypothesis _ (by omega) (i + same.getD i 0) _
              (reading.noteRun sent inside long) rfl
          have repeatBack := writeWidth_roundTrips (show kRepCode < 14 by decide)
          have lengthBack :=
            storeVarLenUint8_roundTrips
              (show same.getD i 0 - kMinReps < 2 ^ 8 by omega)
          have nextInside : i + 1 < counts.length := by
            omega
          have isRepetition :
              (kRepCode : Int) - 1 = AnsParams.ansLogTabSize := by
            decide
          have next : i + 1 + (same.getD i 0 - kMinReps) + 3 + 1 =
              i + same.getD i 0 := by
            simp only [kMinReps]
            omega
          have whole : same.getD i 0 - kMinReps + 5 = same.getD i 0 :=
            Nat.sub_add_cancel long
          have nextInLogcounts :
              i + 1 <
                (state.note i ((bitWidth.getD i 0 : Int) - 1)).logcounts.length := by
            rw [noted.logcountsSized]
            exact nextInside
          have nextInSames :
              i + 1 <
                (state.note i ((bitWidth.getD i 0 : Int) - 1)).same.length := by
            rw [noted.samesSized]
            exact nextInside
          refine ⟨final, widthBack.bind ?_, ?_, ?_, found⟩
          · simp only [if_pos long, if_neg notRepetition]
            rw [readLogcounts_step nextInside]
            refine repeatBack.bind ?_
            simp only [if_pos isRepetition]
            refine lengthBack.bind ?_
            dsimp only
            rw [next, whole, isRepetition]
            exact back
          · have logcountsSized := keeps.logcountsSized
            have samesSized := keeps.samesSized
            unfold Logcounts.noteRun at logcountsSized samesSized
            rw [List.length_set, note_logcounts, List.length_set]
              at logcountsSized
            rw [List.length_set, note_same] at samesSized
            refine ⟨logcountsSized, samesSized, ?_, ?_⟩
            · intro j below
              rw [keeps.logcounts j (by omega)]
              unfold Logcounts.noteRun
              rw [getD_set nextInLogcounts, if_neg (by omega), note_logcounts,
                getD_set inLogcounts, if_neg (Nat.ne_of_lt below)]
            · intro j below
              rw [keeps.sames j (by omega)]
              unfold Logcounts.noteRun
              rw [getD_set nextInSames, if_neg (by omega), note_same]
          · refine Recorded.run inside long ?_ ?_ ?_ ?_ recorded
            · rw [keeps.logcounts i (by omega)]
              unfold Logcounts.noteRun
              rw [getD_set nextInLogcounts, if_neg (by omega), note_logcounts,
                getD_set inLogcounts, if_pos rfl]
            · rw [keeps.sames i (by omega)]
              unfold Logcounts.noteRun
              rw [getD_set nextInSames, if_neg (by omega), note_same]
              exact reading.samesRest i (Nat.le_refl i)
            · rw [keeps.sames (i + 1) (by omega)]
              unfold Logcounts.noteRun
              rw [getD_set nextInSames, if_pos rfl]
            · intro j above below
              rw [keeps.sames j below]
              unfold Logcounts.noteRun
              rw [getD_set nextInSames, if_neg (by omega), note_same]
              exact reading.samesRest j (by omega)
        · obtain ⟨final, back, keeps, recorded, found⟩ :=
            inductionHypothesis _ (by omega) (i + 1) _ noted rfl
          refine ⟨final, widthBack.bind ?_, ?_, ?_, found⟩
          · simp only [if_neg long, if_neg notRepetition]
            exact back
          · have logcountsSized := keeps.logcountsSized
            have samesSized := keeps.samesSized
            rw [note_logcounts, List.length_set] at logcountsSized
            rw [note_same] at samesSized
            refine ⟨logcountsSized, samesSized, ?_, ?_⟩
            · intro j below
              rw [keeps.logcounts j (Nat.lt_succ_of_lt below), note_logcounts,
                getD_set inLogcounts, if_neg (Nat.ne_of_lt below)]
            · intro j below
              rw [keeps.sames j (Nat.lt_succ_of_lt below), note_same]
          · refine
              Recorded.single inside (Nat.lt_of_not_le long) ?_ ?_ recorded
            · rw [keeps.logcounts i (Nat.lt_succ_self i), note_logcounts,
                getD_set inLogcounts, if_pos rfl]
            · rw [keeps.sames i (Nat.lt_succ_self i), note_same]
              exact reading.samesRest i (Nat.le_refl i)
      · rw [writeWidths_done (Nat.le_of_not_lt inside)]
        refine
          ⟨state, ?_, ⟨rfl, rfl, fun _ _ => rfl, fun _ _ => rfl⟩,
            Recorded.done (Nat.le_of_not_lt inside),
            (reading.after (by omega)).2⟩
        have ends :
            readLogcounts counts.length i state = fun br => .ok (state, br) := by
          funext br
          rw [readLogcounts, if_neg inside]
          rfl
        rw [ends]
        exact RoundTrips.nothing state

/-! ## The loop over the counts -/

/-- What the loop gives a symbol; the omitted count comes last. -/
def counted
    (counts : List Nat)
    (omitPos i : Nat) :
    Nat :=
  if i = omitPos then 0 else counts.getD i 0

/-- The counts below a position are filled in. -/
def filled
    (counts : List Nat)
    (omitPos i : Nat) :
    List Nat :=
  (List.range counts.length).map
    (fun j => if j < i then counted counts omitPos j else 0)

theorem getD_filled
    (counts : List Nat)
    (omitPos i : Nat)
    {j : Nat}
    (inside : j < counts.length) :
    (filled counts omitPos i).getD j 0 =
      if j < i then counted counts omitPos j else 0 := by
  simp [filled, List.getD_eq_getElem?_getD, List.getElem?_map,
    List.getElem?_range inside]

theorem filled_set
    (counts : List Nat)
    (omitPos i : Nat) :
    (filled counts omitPos i).set i (counted counts omitPos i) =
      filled counts omitPos (i + 1) := by
  apply List.ext_getElem (by simp [filled])
  intro j _ _
  simp only [filled, List.getElem_set, List.getElem_map, List.getElem_range]
  rcases Nat.lt_trichotomy j i with below | rfl | above
  · rw [if_neg (by omega), if_pos below, if_pos (Nat.lt_succ_of_lt below)]
  · rw [if_pos rfl, if_pos (Nat.lt_succ_self j)]
  · rw [if_neg (by omega), if_neg (by omega), if_neg (by omega)]

/-- A symbol that gets no count. -/
theorem filled_succ
    {counts : List Nat}
    {omitPos i : Nat}
    (zero : counted counts omitPos i = 0) :
    filled counts omitPos (i + 1) = filled counts omitPos i := by
  unfold filled
  refine List.map_congr_left ?_
  intro j _
  rcases Nat.lt_trichotomy j i with below | rfl | above
  · rw [if_pos (Nat.lt_succ_of_lt below), if_pos below]
  · rw [if_pos (Nat.lt_succ_self j), if_neg (Nat.lt_irrefl j), zero]
  · rw [if_neg (by omega), if_neg (by omega)]

/-- The loop has reached a position, with so many repetitions still to come. -/
structure Filled
    (counts : List Nat)
    (omitPos i numsame : Nat)
    (state : Counts) :
    Prop where
  isFilled :
    state.counts = filled counts omitPos i
  numsame :
    state.numsame = numsame
  totalCount :
    state.totalCount =
      ((List.range i).map (counted counts omitPos)).sum

theorem sum_range_succ
    (f : Nat → Nat)
    (count : Nat) :
    ((List.range (count + 1)).map f).sum =
      ((List.range count).map f).sum + f count := by
  rw [List.range_succ, List.map_append, List.sum_append]
  simp

theorem Filled.add
    {i numsame : Nat}
    {state : Counts}
    (isFilled : Filled counts omitPos i numsame state) :
    Filled counts omitPos (i + 1) numsame
      (state.add i (counted counts omitPos i)) where
  isFilled := by
    unfold Counts.add
    rw [isFilled.isFilled, filled_set]
  numsame := isFilled.numsame
  totalCount := by
    unfold Counts.add
    rw [isFilled.totalCount, sum_range_succ]

theorem Filled.skip
    {i numsame : Nat}
    {state : Counts}
    (isFilled : Filled counts omitPos i numsame state)
    (zero : counted counts omitPos i = 0) :
    Filled counts omitPos (i + 1) numsame state where
  isFilled := by
    rw [isFilled.isFilled, filled_succ zero]
  numsame := isFilled.numsame
  totalCount := by
    rw [isFilled.totalCount, sum_range_succ, zero, Nat.add_zero]

/-- A position that no run covers, in front of which no repetition is open. -/
theorem countRound_single
    {shift i : Nat}
    {logcounts : List Int}
    {sames : List Nat}
    {state : Counts}
    {code : Int}
    (unmarked : index sames i = .ok 0)
    (isCode : index logcounts i = .ok code)
    (noRun : state.numsame = 0) :
    (fun br => countRound shift omitPos logcounts sames (state, br) i) =
      fun br =>
        if i = omitPos ∨ code < 0 then
          .ok (state, br)
        else
          readCount shift code.toNat br >>= fun (count, br) =>
            .ok (state.add i count, br) := by
  funext br
  unfold countRound
  dsimp only
  rw [unmarked, ok_bind]
  have unchanged : state.startRun 0 i = state := by
    simp [Counts.startRun]
  rw [unchanged, if_neg (by omega), isCode, ok_bind]
  rfl

/-- The digits of one count are read back. -/
theorem writeDigits_roundTrips
    {logcounts : List Int}
    {sames : List Nat}
    {state : Counts}
    (sent : WriteHistogramBody.Sent counts omitPos bitWidth same)
    (inside : i < counts.length)
    (isCode : index logcounts i = .ok ((bitWidth.getD i 0 : Int) - 1))
    (unmarked : index sames i = .ok 0)
    (isFilled : Filled counts omitPos i 0 state) :
    ∃ next,
      RoundTrips
          (WriteHistogramBody.writeDigits counts omitPos i (bitWidth.getD i 0))
          (fun br =>
            countRound kExactHistogramShift omitPos logcounts sames (state, br)
              i)
          next ∧
        Filled counts omitPos (i + 1) 0 next := by
  rw [countRound_single unmarked isCode isFilled.numsame]
  unfold WriteHistogramBody.writeDigits
  by_cases isOmitted : i = omitPos
  · -- The omitted count is neither written nor read here.
    refine ⟨state, ?_, isFilled.skip (if_pos isOmitted)⟩
    simp only [isOmitted, ne_eq, not_true_eq_false, and_false, if_false,
      true_or, if_true]
    exact RoundTrips.nothing state
  · have isCount : counted counts omitPos i = counts.getD i 0 :=
      if_neg isOmitted
    have isWidth := sent.width i inside isOmitted
    by_cases zero : counts.getD i 0 = 0
    · refine ⟨state, ?_, isFilled.skip (isCount.trans zero)⟩
      rw [if_pos zero] at isWidth
      rw [isWidth]
      have negative : (-1 : Int) < 0 := by
        decide
      simp only [Nat.not_lt_zero, false_and, if_false, Nat.cast_zero, zero_sub,
        negative, or_true, if_true]
      exact RoundTrips.nothing state
    · rw [if_neg zero] at isWidth
      have widthSmall := Nat.le_trans (sent.widthAfter i inside) sent.widthSmall
      have added := isFilled.add
      rw [isCount] at added
      refine ⟨_, ?_, added⟩
      have code :
          ((bitWidth.getD i 0 : Int) - 1) = ((counts.getD i 0).log2 : Int) := by
        rw [isWidth]
        omega
      have isRead :
          ¬ (i = omitPos ∨ ((counts.getD i 0).log2 : Int) < 0) := by
        omega
      rw [code]
      simp only [if_neg isRead, Int.toNat_natCast]
      have lower : 2 ^ (counts.getD i 0).log2 ≤ counts.getD i 0 :=
        Nat.log2_self_le zero
      have upper : counts.getD i 0 < 2 ^ ((counts.getD i 0).log2 + 1) :=
        Nat.lt_log2_self
      have inCounts : index counts i = .ok (counts.getD i 0) :=
        index_getD inside 0
      rw [isWidth] at widthSmall ⊢
      generalize counts.getD i 0 = count at *
      unfold readCount
      by_cases one : count.log2 = 0
      · have isOne : count = 1 := by
          rw [one] at upper
          omega
        simp only [one, Nat.zero_add, Nat.lt_irrefl, false_and, if_false,
          or_true, if_true]
        rw [isOne]
        exact RoundTrips.nothing (state.add i 1)
      · have kept : getPopulationCountPrecision count.log2 kExactHistogramShift =
            count.log2 :=
          getPopulationCountPrecision_exact _ (by omega)
            (Nat.lt_of_succ_le widthSmall)
        have isWritten : 1 < count.log2 + 1 ∧ i ≠ omitPos :=
          ⟨by omega, isOmitted⟩
        have notExact : ¬ (kExactHistogramShift = 0 ∨ count.log2 = 0) := by
          simp only [one, or_false]
          decide
        have below : count - 2 ^ count.log2 < 2 ^ count.log2 := by
          rw [Nat.pow_succ] at upper
          omega
        have whole :
            2 ^ count.log2 + (count - 2 ^ count.log2) <<< 0 = count := by
          rw [Nat.shiftLeft_zero]
          omega
        have short : count.log2 ≤ BitReader.kMaxBitsPerCall := by
          simp only [BitReader.kMaxBitsPerCall, AnsParams.ansLogTabSize] at *
          omega
        simp only [if_pos isWritten, if_neg notExact, Nat.add_sub_cancel, kept,
          Nat.sub_self, subU_ok (Nat.le_refl _), ok_bind, inCounts,
          Nat.shiftRight_zero, Nat.one_shiftLeft, subU_ok lower]
        have countBack :
            RoundTrips
              (fun writer =>
                writer.write count.log2 (count - 2 ^ count.log2))
              (fun br => br.readBits count.log2 >>= fun (digits, br) =>
                .ok (2 ^ count.log2 + digits <<< 0, br))
              count := by
          refine (RoundTrips.patch short below).last ?_
          intro br
          dsimp only
          rw [whole]
        exact countBack.last (fun _ => rfl)

/-! ## Folded runs -/

/-- A position that repeats the count in front of the run. -/
theorem countRound_repeated
    {shift i same : Nat}
    {logcounts : List Int}
    {sames : List Nat}
    {state : Counts}
    (marked : index sames i = .ok same)
    (running : 0 < (state.startRun same i).numsame)
    (br : BitReader) :
    countRound shift omitPos logcounts sames (state, br) i =
      .ok ((state.startRun same i).repeatPrev i, br) := by
  unfold countRound
  dsimp only
  rw [marked, ok_bind, if_pos running]
  rfl

/-- The positions of a run after its second one. -/
theorem run_filled
    {shift numsame i : Nat}
    {logcounts : List Int}
    {sames : List Nat}
    {state : Counts}
    (unmarked : ∀ j, i ≤ j → j < i + numsame → index sames j = .ok 0)
    (equal :
      ∀ j, i ≤ j → j < i + numsame → counted counts omitPos j = state.prev)
    (isFilled : Filled counts omitPos i numsame state) :
    ∃ next,
      (∀ br,
        (List.range' i numsame).foldlM
            (countRound shift omitPos logcounts sames) (state, br) =
          .ok (next, br)) ∧
        Filled counts omitPos (i + numsame) 0 next := by
  induction numsame generalizing i state with
  | zero =>
      exact ⟨state, fun br => rfl, isFilled⟩
  | succ numsame inductionHypothesis =>
      have unchanged : state.startRun 0 i = state := by
        simp [Counts.startRun]
      have running : 0 < (state.startRun 0 i).numsame := by
        rw [unchanged, isFilled.numsame]
        exact Nat.succ_pos numsame
      have here := unmarked i (Nat.le_refl i) (by omega)
      have sameCount := equal i (Nat.le_refl i) (by omega)
      have added := isFilled.add
      rw [sameCount] at added
      have next :
          Filled counts omitPos (i + 1) numsame (state.repeatPrev i) := by
        refine ⟨added.isFilled, ?_, added.totalCount⟩
        unfold Counts.repeatPrev
        dsimp only
        rw [isFilled.numsame]
        rfl
      have restUnmarked :
          ∀ j, i + 1 ≤ j → j < i + 1 + numsame → index sames j = .ok 0 := by
        intro j above below
        exact unmarked j (by omega) (by omega)
      have restEqual :
          ∀ j, i + 1 ≤ j → j < i + 1 + numsame →
            counted counts omitPos j = (state.repeatPrev i).prev := by
        intro j above below
        exact equal j (by omega) (by omega)
      obtain ⟨final, runs, finalFilled⟩ :=
        inductionHypothesis restUnmarked restEqual next
      refine ⟨final, ?_, ?_⟩
      · intro br
        rw [List.range'_succ, List.foldlM_cons,
          countRound_repeated here running, ok_bind, unchanged]
        exact runs br
      · have place : i + 1 + numsame = i + (numsame + 1) := by
          omega
        rw [← place]
        exact finalFilled

/-- The whole rest of a run, from its second position on. -/
theorem run_repeated
    {shift i length : Nat}
    {logcounts : List Int}
    {sames : List Nat}
    {state : Counts}
    (long : kMinReps ≤ length)
    (inside : i + length ≤ counts.length)
    (marked : index sames (i + 1) = .ok length)
    (unmarked :
      ∀ j, i + 2 ≤ j → j < i + length → index sames j = .ok 0)
    (equal :
      ∀ j,
        i ≤ j →
        j < i + length →
        j ≠ omitPos ∧ counts.getD j 0 = counts.getD i 0)
    (isFilled : Filled counts omitPos (i + 1) 0 state) :
    ∃ next,
      (∀ br,
        (List.range' (i + 1) (length - 1)).foldlM
            (countRound shift omitPos logcounts sames) (state, br) =
          .ok (next, br)) ∧
        Filled counts omitPos (i + length) 0 next := by
  have atLeastFive : 5 ≤ length := long
  have isCounted :
      ∀ j, i ≤ j → j < i + length →
        counted counts omitPos j = counts.getD i 0 := by
    intro j above below
    obtain ⟨notOmitted, sameCount⟩ := equal j above below
    unfold counted
    rw [if_neg notOmitted, sameCount]
  have previous : state.counts.getD i 0 = counts.getD i 0 := by
    rw [isFilled.isFilled, getD_filled _ _ _ (by omega),
      if_pos (Nat.lt_succ_self i), isCounted i (Nat.le_refl i) (by omega)]
  have started :
      state.startRun length (i + 1) =
        { state with numsame := length - 1, prev := counts.getD i 0 } := by
    unfold Counts.startRun
    rw [if_pos (by omega), if_pos (Nat.succ_pos i), Nat.add_sub_cancel,
      previous]
  have running : 0 < (state.startRun length (i + 1)).numsame := by
    rw [started]
    dsimp only
    omega
  have restarted :
      Filled counts omitPos (i + 1) (length - 1)
        (state.startRun length (i + 1)) := by
    rw [started]
    exact ⟨isFilled.isFilled, rfl, isFilled.totalCount⟩
  have added := restarted.add
  rw [isCounted (i + 1) (by omega) (by omega)] at added
  have samePrev :
      (state.startRun length (i + 1)).prev = counts.getD i 0 := by
    rw [started]
  have second :
      Filled counts omitPos (i + 1 + 1) (length - 2)
        ((state.startRun length (i + 1)).repeatPrev (i + 1)) := by
    unfold Counts.repeatPrev
    rw [samePrev]
    refine ⟨added.isFilled, ?_, added.totalCount⟩
    dsimp only
    rw [restarted.numsame]
    omega
  have restUnmarked :
      ∀ j, i + 1 + 1 ≤ j → j < i + 1 + 1 + (length - 2) →
        index sames j = .ok 0 := by
    intro j above below
    exact unmarked j above (by omega)
  have restEqual :
      ∀ j, i + 1 + 1 ≤ j → j < i + 1 + 1 + (length - 2) →
        counted counts omitPos j =
          ((state.startRun length (i + 1)).repeatPrev (i + 1)).prev := by
    intro j above below
    rw [isCounted j (by omega) (by omega)]
    exact samePrev.symm
  obtain ⟨final, runs, finalFilled⟩ :=
    @run_filled counts omitPos shift _ _ logcounts _ _ restUnmarked restEqual
      second
  refine ⟨final, ?_, ?_⟩
  · intro br
    have positions :
        List.range' (i + 1) (length - 1) =
          (i + 1) :: List.range' (i + 1 + 1) (length - 2) := by
      have count : length - 1 = length - 2 + 1 := by
        omega
      rw [count, List.range'_succ]
    rw [positions, List.foldlM_cons, countRound_repeated marked running, ok_bind]
    exact runs br
  · have place : i + 1 + 1 + (length - 2) = i + length := by
      omega
    rw [← place]
    exact finalFilled

/-! ## The whole loop -/

theorem writeAllDigits_done
    (atEnd : counts.length ≤ i) :
    WriteHistogramBody.writeAllDigits counts bitWidth same omitPos i =
      fun writer => .ok writer := by
  funext writer
  rw [WriteHistogramBody.writeAllDigits, if_neg (Nat.not_lt.2 atEnd)]
  rfl

theorem writeAllDigits_step
    (sent : WriteHistogramBody.Sent counts omitPos bitWidth same)
    (inside : i < counts.length) :
    WriteHistogramBody.writeAllDigits counts bitWidth same omitPos i =
      fun writer =>
        WriteHistogramBody.writeDigits counts omitPos i (bitWidth.getD i 0)
            writer >>=
          WriteHistogramBody.writeAllDigits counts bitWidth same omitPos
            (if kMinReps ≤ same.getD i 0 then
              i + same.getD i 0
            else
              i + 1) := by
  have inWidths := Nat.lt_of_lt_of_le inside sent.widthsSized
  have inSames := Nat.lt_of_lt_of_le inside sent.samesSized
  funext writer
  rw [WriteHistogramBody.writeAllDigits, if_pos inside, index_getD inWidths 0,
    ok_bind]
  simp only [index_getD inSames 0, ok_bind]
  congr 1
  funext written
  by_cases long : kMinReps ≤ same.getD i 0
  · rw [dif_pos long, if_pos long]
  · rw [dif_neg long, if_neg long]

/-- The loop over the counts is read back. -/
theorem writeAllDigits_roundTrips
    {widths : Logcounts}
    {state : Counts}
    (sent : WriteHistogramBody.Sent counts omitPos bitWidth same)
    (logcountsSized : widths.logcounts.length = counts.length)
    (samesSized : widths.same.length = counts.length)
    (recorded : Recorded bitWidth same counts.length widths i)
    (inside : i ≤ counts.length)
    (isFilled : Filled counts omitPos i 0 state) :
    ∃ final,
      RoundTrips
          (WriteHistogramBody.writeAllDigits counts bitWidth same omitPos i)
          (fun br =>
            (List.range' i (counts.length - i)).foldlM
              (countRound kExactHistogramShift omitPos widths.logcounts
                widths.same)
              (state, br))
          final ∧
        Filled counts omitPos counts.length 0 final := by
  have isLogcount :
      ∀ j, j < counts.length →
        index widths.logcounts j = .ok (widths.logcounts.getD j 0) := by
    intro j inList
    exact index_getD (by rw [logcountsSized]; exact inList) 0
  have isSame :
      ∀ j, j < counts.length →
        index widths.same j = .ok (widths.same.getD j 0) := by
    intro j inList
    exact index_getD (by rw [samesSized]; exact inList) 0
  induction recorded generalizing state with
  | done atEnd =>
      have isEnd := Nat.le_antisymm inside atEnd
      subst isEnd
      refine ⟨state, ?_, isFilled⟩
      rw [writeAllDigits_done (Nat.le_refl _), Nat.sub_self]
      exact RoundTrips.nothing state
  | @single i inList short logcount unmarked rest inductionHypothesis =>
      have code := isLogcount i inList
      have mark := isSame i inList
      rw [logcount] at code
      rw [unmarked] at mark
      obtain ⟨next, back, nextFilled⟩ :=
        writeDigits_roundTrips sent inList code mark isFilled
      obtain ⟨final, restBack, finalFilled⟩ :=
        inductionHypothesis inList nextFilled
      refine ⟨final, ?_, finalFilled⟩
      have positions :
          List.range' i (counts.length - i) =
            i :: List.range' (i + 1) (counts.length - (i + 1)) := by
        have count : counts.length - i = counts.length - (i + 1) + 1 := by
          omega
        rw [count, List.range'_succ]
      rw [writeAllDigits_step sent inList, positions,
        if_neg (Nat.not_le.2 short)]
      simp only [List.foldlM_cons]
      exact back.bind restBack
  | @run i inList long logcount unmarked marked skipped rest
      inductionHypothesis =>
      obtain ⟨runInside, _⟩ := sent.runInside i long inList
      have atLeastFive : 5 ≤ same.getD i 0 := long
      have code := isLogcount i inList
      have mark := isSame i inList
      have nextMark := isSame (i + 1) (by omega)
      rw [logcount] at code
      rw [unmarked] at mark
      rw [marked] at nextMark
      have restMarks :
          ∀ j, i + 2 ≤ j → j < i + same.getD i 0 →
            index widths.same j = .ok 0 := by
        intro j above below
        rw [isSame j (by omega), skipped j above below]
      obtain ⟨next, back, nextFilled⟩ :=
        writeDigits_roundTrips sent inList code mark isFilled
      obtain ⟨repeated, repeats, repeatedFilled⟩ :=
        @run_repeated counts omitPos kExactHistogramShift i (same.getD i 0)
          widths.logcounts widths.same next long runInside nextMark restMarks
          (sent.runEqual i long inList) nextFilled
      obtain ⟨final, restBack, finalFilled⟩ :=
        inductionHypothesis runInside repeatedFilled
      refine ⟨final, ?_, finalFilled⟩
      have positions :
          List.range' i (counts.length - i) =
            i ::
              (List.range' (i + 1) (same.getD i 0 - 1) ++
                List.range' (i + same.getD i 0)
                  (counts.length - (i + same.getD i 0))) := by
        have place : i + same.getD i 0 = i + 1 + (same.getD i 0 - 1) := by
          omega
        have count : counts.length - i =
            same.getD i 0 - 1 + (counts.length - (i + same.getD i 0)) + 1 := by
          omega
        rw [place, List.range'_append_1, ← place, count, List.range'_succ]
      rw [writeAllDigits_step sent inList, positions, if_pos long]
      simp only [List.foldlM_cons, List.foldlM_append]
      refine back.bind ?_
      simp only [repeats, ok_bind]
      exact restBack

/-! ## The general form -/

/-- Filling in the omitted count restores all of them. -/
theorem filled_set_omitted
    (counts : List Nat)
    (omitPos : Nat) :
    (filled counts omitPos counts.length).set omitPos
        (counts.getD omitPos 0) =
      counts := by
  apply List.ext_getElem (by simp [filled])
  intro i inside inside'
  rw [List.getElem_set]
  by_cases isOmitted : omitPos = i
  · subst isOmitted
    rw [if_pos rfl, List.getD_eq_getElem _ _ inside']
  · simp only [if_neg isOmitted, filled, List.getElem_map, List.getElem_range,
      if_pos inside', counted, if_neg (Ne.symm isOmitted),
      List.getD_eq_getElem _ _ inside']

/-- The other counts leave the omitted one of the total. -/
theorem sum_counted
    {counts : List Nat}
    {omitPos : Nat}
    (inside : omitPos < counts.length) :
    ((List.range counts.length).map (counted counts omitPos)).sum +
        counts.getD omitPos 0 =
      counts.sum := by
  have whole : (List.range counts.length).map (counted counts omitPos) =
      counts.set omitPos 0 := by
    apply List.ext_getElem (by simp)
    intro i _ inside'
    rw [List.length_set] at inside'
    rw [List.getElem_set, List.getElem_map, List.getElem_range]
    unfold counted
    by_cases isOmitted : omitPos = i
    · rw [if_pos isOmitted, if_pos isOmitted.symm]
    · rw [if_neg isOmitted, if_neg (Ne.symm isOmitted),
        List.getD_eq_getElem _ _ inside']
  rw [whole, NormalizeHistogramCounts.sum_set_add counts inside 0, Nat.add_zero]

/-- The position after the omitted one starts no repetition. -/
theorem Recorded.notRepetition
    {widths : Logcounts}
    (sent : WriteHistogramBody.Sent counts omitPos bitWidth same)
    (recorded : Recorded bitWidth same counts.length widths i)
    (reached : i ≤ omitPos + 1)
    (inside : omitPos + 1 < counts.length) :
    widths.logcounts.getD (omitPos + 1) 0 ≠ AnsParams.ansLogTabSize := by
  have small :
      ∀ j, j < counts.length →
        (bitWidth.getD j 0 : Int) - 1 ≠ AnsParams.ansLogTabSize := by
    intro j inList
    have widthSmall :=
      Nat.le_trans (sent.widthAfter j inList) sent.widthSmall
    simp only [AnsParams.ansLogTabSize] at widthSmall ⊢
    omega
  induction recorded with
  | done atEnd =>
      omega
  | @single i inList short logcount unmarked rest inductionHypothesis =>
      by_cases here : i = omitPos + 1
      · rw [← here, logcount]
        exact small i inList
      · exact inductionHypothesis (by omega)
  | @run i inList long logcount unmarked marked skipped rest
      inductionHypothesis =>
      by_cases here : i = omitPos + 1
      · rw [← here, logcount]
        exact small i inList
      · -- A run does not hold the omitted count, so it ends in front of it.
        refine inductionHypothesis ?_
        by_contra beyond
        exact
          (sent.runEqual i long inList omitPos (by omega) (by omega)).1 rfl

end Widths

/-- The general form is read back, whatever is omitted. -/
theorem writeGeneral_roundTrips
    {counts : List Nat}
    (few : counts.length ≤ AnsParams.ansMaxAlphabetSize)
    (long : 3 ≤ counts.length)
    (normalized : counts.sum = AnsParams.ansTabSize)
    (small :
      ∀ i,
        i < counts.length →
        i ≠ chooseOmitPosition counts →
        counts.getD i 0 < 2 ^ 11) :
    RoundTrips (WriteHistogramBody.writeGeneral counts)
      (readHistogram AnsParams.ansLogTabSize) counts := by
  have positive : 0 < counts.sum := by
    rw [normalized]
    decide
  obtain ⟨omitInside, largest, _⟩ :=
    WriteHistogramBody.chooseOmitPosition_largest positive
  obtain ⟨same, last, marks, bitWidth, omitWidth, widths, sent⟩ :=
    WriteHistogramBody.exists_sent few positive small
  have omittedPositive : 0 < counts.getD (chooseOmitPosition counts) 0 := by
    by_contra zero
    have zeros : ∀ count ∈ counts, count = 0 := by
      intro count member
      obtain ⟨i, inside, rfl⟩ := List.getElem_of_mem member
      have bounded := largest i inside
      rw [List.getD_eq_getElem _ _ inside] at bounded
      omega
    rw [List.sum_eq_zero zeros] at positive
    exact Nat.lt_irrefl 0 positive
  unfold WriteHistogramBody.writeGeneral
  simp only [marks, widths, ok_bind]
  generalize chooseOmitPosition counts = omitPos at *
  have sizeFits : counts.length - 3 < 2 ^ 8 := by
    simp only [AnsParams.ansMaxAlphabetSize] at few
    omega
  simp only [castU_ok sizeFits, ok_bind]
  have flag :=
    RoundTrips.patch (show 1 ≤ BitReader.kMaxBitsPerCall by decide)
      (show 0 < 2 ^ 1 by decide)
  unfold readHistogram
  refine flag.bind (flag.bind (writeHistogramMethod_roundTrips.bind ?_))
  have shiftInRange :
      ¬ AnsParams.ansLogTabSize + 1 < kExactHistogramShift := by
    decide
  simp only [if_neg shiftInRange]
  refine (storeVarLenUint8_roundTrips sizeFits).bind ?_
  have size : counts.length - 3 + 3 = counts.length :=
    Nat.sub_add_cancel long
  simp only [size]
  have reading :
      Reading counts (bitWidth.set omitPos omitWidth) omitPos 0
        { logcounts := List.replicate counts.length 0
          same := List.replicate counts.length 0 } := by
    have widthPositive := sent.widthPositive
    refine
      ⟨List.length_replicate, List.length_replicate, ?_, ?_,
        fun above => absurd above (Nat.not_lt_zero _)⟩
    · intro j _
      simp [List.getD_eq_getElem?_getD, List.getElem?_replicate]
      split <;> rfl
    · intro _
      dsimp only
      omega
  obtain ⟨read, widthsBack, keeps, recorded, found⟩ :=
    writeWidths_roundTrips sent 0 _ reading
  refine widthsBack.bind ?_
  have logcountsSized := keeps.logcountsSized.trans List.length_replicate
  have samesSized := keeps.samesSized.trans List.length_replicate
  have initial :
      Filled counts omitPos 0 0
        { counts := List.replicate counts.length 0 } := by
    refine ⟨?_, rfl, rfl⟩
    apply List.ext_getElem (by simp [filled])
    intro i _ _
    simp [filled]
  obtain ⟨final, countsBack, isFilled⟩ :=
    writeAllDigits_roundTrips sent logcountsSized samesSized recorded
      (Nat.zero_le _) initial
  rw [Nat.sub_zero] at countsBack
  have notRepetition :
      ¬ (omitPos + 1 < counts.length ∧
        read.logcounts.getD (omitPos + 1) 0 = AnsParams.ansLogTabSize) := by
    rintro ⟨inside, repetition⟩
    exact recorded.notRepetition sent (Nat.zero_le _) inside repetition
  unfold readCounts
  simp only [found, if_neg notRepetition, List.range_eq_range']
  refine countsBack.last ?_
  intro br
  have total := sum_counted omitInside
  rw [← isFilled.totalCount, normalized] at total
  have range : (1 <<< AnsParams.ansLogTabSize : Nat) = AnsParams.ansTabSize :=
    rfl
  have omitted :
      ((1 <<< AnsParams.ansLogTabSize : Nat) : Int) - final.totalCount =
        (counts.getD omitPos 0 : Int) := by
    rw [range]
    omega
  have isPositive : ¬ (counts.getD omitPos 0 : Int) ≤ 0 := by
    omega
  simp only [omitted, if_neg isPositive, Int.toNat_natCast, isFilled.isFilled,
    filled_set_omitted]
  rfl

end ReadHistogram

end Jxlz
