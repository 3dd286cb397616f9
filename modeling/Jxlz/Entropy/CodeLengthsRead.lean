import Jxlz.Entropy.CodeLengthTable

namespace Jxlz

open AnsParams FuelLoop

/-!
# The loop over the code lengths

The lengths read so far and the space that is left always make up a whole, and
a repetition never counts more symbols than there are before it.  So nothing in
the loop is out of range, and what it accepts is a complete code.
-/

section Kraft

theorem kraftSum_append
    (first second : List Nat) :
    kraftSum (first ++ second) = kraftSum first + kraftSum second := by
  unfold kraftSum
  rw [List.map_append, List.sum_append]

theorem kraftSum_replicate
    (count codeLength : Nat) :
    kraftSum (List.replicate count codeLength) =
      count *
        if codeLength = 0 then 0 else 2 ^ (prefixMaxBits - codeLength) := by
  unfold kraftSum
  rw [List.map_replicate, List.sum_replicate, smul_eq_mul]

end Kraft

/-- What every round of the loop preserves. -/
structure CodeLengths.Sound
    (numSymbols : Nat)
    (state : CodeLengths) :
    Prop where
  length : state.codeLengths.length = numSymbols
  inside : state.symbol ≤ numSymbols
  bounded :
    ∀ codeLength ∈ state.codeLengths.take state.symbol,
      codeLength ≤ prefixMaxBits
  prevPositive : 1 ≤ state.prevCodeLen
  prevBounded : state.prevCodeLen ≤ prefixMaxBits
  repeats : state.repeatCount = 0 ∨ 3 ≤ state.repeatCount
  behind : state.repeatCount ≤ state.symbol
  space :
    (kraftSum (state.codeLengths.take state.symbol) : Int) + state.space = 32768
  isOpen : state.br.closeCalled = false

section Rounds

variable {numSymbols : Nat}
variable {state : CodeLengths}

/-- A code length of its own is stored behind the ones before it. -/
theorem literal_ok
    (sound : state.Sound numSymbols)
    (more : state.symbol < numSymbols)
    {codeLen : Nat}
    (small : codeLen ≤ prefixMaxBits) :
    ∃ next,
      state.literal codeLen = .ok next ∧
        next.Sound numSymbols ∧ state.symbol < next.symbol := by
  have sameLength := sound.length
  have takes :
      (state.codeLengths.set state.symbol codeLen).take (state.symbol + 1) =
        state.codeLengths.take state.symbol ++ [codeLen] := by
    rw [List.take_add_one, List.take_set_of_le (Nat.le_refl _),
      List.getElem?_set_self (by omega)]
    rfl
  have bounded :
      ∀ codeLength ∈ state.codeLengths.take state.symbol ++ [codeLen],
        codeLength ≤ prefixMaxBits := by
    intro codeLength member
    rcases List.mem_append.1 member with old | new
    · exact sound.bounded codeLength old
    · rwa [List.mem_singleton.1 new]
  have space := sound.space
  unfold CodeLengths.literal
  rw [require_ok (by omega : state.symbol < state.codeLengths.length), ok_bind]
  dsimp only
  by_cases coded : codeLen ≠ 0
  · have share : 32768 >>> codeLen = 2 ^ (prefixMaxBits - codeLen) := by
      rw [Nat.shiftRight_eq_div_pow]
      exact Nat.pow_div small Nat.two_pos
    rw [if_pos coded]
    refine ⟨_, rfl, ⟨?_, more, ?_, ?_, small, .inl rfl, ?_, ?_, sound.isOpen⟩,
      Nat.lt_succ_self _⟩
    · dsimp only
      rw [List.length_set, sameLength]
    · dsimp only
      rw [takes]
      exact bounded
    · dsimp only
      omega
    · dsimp only
      omega
    · dsimp only
      rw [takes, kraftSum_append, ← List.replicate_one, kraftSum_replicate,
        if_neg coded, Nat.one_mul, share]
      push_cast
      linarith
  · rw [if_neg coded]
    rw [ne_eq, not_not] at coded
    subst coded
    refine ⟨_, rfl, ⟨?_, more, ?_, sound.prevPositive, sound.prevBounded, .inl rfl,
      ?_, ?_, sound.isOpen⟩, Nat.lt_succ_self _⟩
    · dsimp only
      rw [List.length_set, sameLength]
    · dsimp only
      rw [takes]
      exact bounded
    · dsimp only
      omega
    · dsimp only
      rw [takes, kraftSum_append, ← List.replicate_one, kraftSum_replicate,
        if_pos rfl, Nat.mul_zero, Nat.add_zero]
      exact space

/-- The count of a repetition grows, by a few bits at a time. -/
theorem repeated_ok
    {repeatCount : Int}
    {extraBits bits : Nat}
    (repeats : repeatCount = 0 ∨ 3 ≤ repeatCount)
    (bounded : repeatCount ≤ 2 ^ 15)
    (positive : 2 ≤ extraBits)
    (few : extraBits ≤ 3)
    (small : bits < 2 ^ extraBits) :
    ∃ count,
      repeated repeatCount extraBits bits = .ok count ∧
        3 ≤ count ∧ repeatCount < count ∧ count < 2 ^ 20 := by
  unfold repeated
  rcases repeats with none | several
  · have isCount := @addI32_ok repeatCount (bits + 3) (by
      interval_cases extraBits <;> omega) (by interval_cases extraBits <;> omega)
    rw [if_neg (by omega), isCount]
    refine ⟨_, rfl, ?_, ?_, ?_⟩ <;> interval_cases extraBits <;> omega
  · have shifted :
        Int.bmod ((repeatCount - 2) * 2 ^ extraBits) (2 ^ 32) =
          (repeatCount - 2) * 2 ^ extraBits := by
      refine Int.bmod_eq_of_le ?_ ?_ <;> interval_cases extraBits <;> omega
    rw [if_pos (by omega), shifted]
    dsimp only
    have isCount :=
      @addI32_ok ((repeatCount - 2) * 2 ^ extraBits) (bits + 3) (by
        interval_cases extraBits <;> omega) (by interval_cases extraBits <;> omega)
    rw [isCount]
    refine ⟨_, rfl, ?_, ?_, ?_⟩ <;> interval_cases extraBits <;> omega

/-- A repetition fills as many lengths as it counts, or is too long. -/
theorem repetition_ok
    (sound : state.Sound numSymbols)
    (few : numSymbols ≤ 2 ^ 15)
    (room : 0 < state.space)
    {codeLen : Nat}
    (isRepeat : codeLengthRepeatCode ≤ codeLen)
    (small : codeLen < codeLengthCodes) :
    state.repetition codeLen numSymbols = .ok none ∨
      ∃ next,
        state.repetition codeLen numSymbols = .ok (some next) ∧
          next.Sound numSymbols ∧ state.symbol < next.symbol := by
  unfold codeLengthRepeatCode at isRepeat
  unfold codeLengthCodes at small
  have sameLength := sound.length
  have inside := sound.inside
  have behind := sound.behind
  have space := sound.space
  unfold CodeLengths.repetition
  rw [subU_ok (by omega : 14 ≤ codeLen), ok_bind]
  dsimp only
  have newSmall :
      (if codeLen = codeLengthRepeatCode then state.prevCodeLen else 0) ≤
        prefixMaxBits := by
    split
    · exact sound.prevBounded
    · exact Nat.zero_le _
  generalize
    (if codeLen = codeLengthRepeatCode then state.prevCodeLen else 0) = newLen
    at newSmall
  have oldRepeats :
      ((if state.repeatCodeLen ≠ newLen then 0 else state.repeatCount) = 0 ∨
          3 ≤ (if state.repeatCodeLen ≠ newLen then 0 else state.repeatCount)) ∧
        (if state.repeatCodeLen ≠ newLen then 0 else state.repeatCount) ≤
          state.symbol := by
    split
    · exact ⟨.inl rfl, by omega⟩
    · exact ⟨sound.repeats, behind⟩
  generalize
    (if state.repeatCodeLen ≠ newLen then 0 else state.repeatCount) = oldRepeat
    at oldRepeats
  obtain ⟨repeats, counted⟩ := oldRepeats
  obtain ⟨bits, br, read, fits, isOpen⟩ :=
    @readBits_open state.br (codeLen - 14) sound.isOpen
      (Nat.le_trans (by omega : codeLen - 14 ≤ 3) (by decide))
  obtain ⟨repeatCount, isCount, several, grows, bounded⟩ :=
    @repeated_ok oldRepeat (codeLen - 14) bits repeats (by omega) (by omega)
      (by omega) fits
  rw [read, ok_bind]
  dsimp only
  rw [isCount, ok_bind, addI32_ok (by omega) (by omega), ok_bind,
    addI32_ok (by omega) (by omega), ok_bind]
  by_cases tooLong : (numSymbols : Int) < state.symbol + (repeatCount + -oldRepeat)
  · left
    rw [if_pos tooLong]
    rfl
  · right
    rw [if_neg tooLong]
    obtain ⟨delta, isDelta⟩ :
        ∃ delta : Nat, repeatCount + -oldRepeat = delta + 1 :=
      ⟨(repeatCount + -oldRepeat - 1).toNat, by omega⟩
    rw [isDelta] at tooLong ⊢
    have last :
        ((state.symbol : Int) + (delta + 1)).toNat = state.symbol + delta + 1 := by
      omega
    rw [last, require_ok ⟨by omega, by omega, by omega⟩, ok_bind]
    rw [Nat.add_assoc state.symbol, Nat.add_sub_cancel_left]
    have takes :
        (state.codeLengths.take state.symbol ++
              List.replicate (delta + 1) newLen ++
            state.codeLengths.drop (state.symbol + (delta + 1))).take
            (state.symbol + (delta + 1)) =
          state.codeLengths.take state.symbol ++
            List.replicate (delta + 1) newLen := by
      refine List.take_left' ?_
      rw [List.length_append, List.length_take, List.length_replicate]
      omega
    have filledLength :
        (state.codeLengths.take state.symbol ++
              List.replicate (delta + 1) newLen ++
            state.codeLengths.drop (state.symbol + (delta + 1))).length =
          numSymbols := by
      rw [List.length_append, List.length_append, List.length_take,
        List.length_replicate, List.length_drop]
      omega
    have filledBounded :
        ∀ codeLength ∈
            state.codeLengths.take state.symbol ++
              List.replicate (delta + 1) newLen,
          codeLength ≤ prefixMaxBits := by
      intro codeLength member
      rcases List.mem_append.1 member with old | new
      · exact sound.bounded codeLength old
      · rwa [List.eq_of_mem_replicate new]
    by_cases coded : newLen ≠ 0
    · have share : 2 ^ (15 - newLen) ≤ 2 ^ 14 :=
        Nat.pow_le_pow_right Nat.two_pos (by omega)
      have positive := Nat.two_pow_pos (15 - newLen)
      have product : (delta + 1) * 2 ^ (15 - newLen) ≤ 2 ^ 15 * 2 ^ 14 :=
        Nat.mul_le_mul (by omega) share
      have cast :
          ((delta : Int) + 1) * 2 ^ (15 - newLen) =
            ((delta + 1) * 2 ^ (15 - newLen) : Nat) := by
        push_cast
        rfl
      unfold prefixMaxBits at newSmall
      have used :
          toI32 (((delta : Int) + 1) * 2 ^ (15 - newLen)) =
            .ok (Int32.ofInt (((delta : Int) + 1) * 2 ^ (15 - newLen))) := by
        rw [cast]
        exact toI32_ok (by omega) (by omega)
      have isUsed := toI32_eq_ok used
      have spaceBound : state.space ≤ 32768 := by
        omega
      rw [if_pos coded, subU_ok newSmall, ok_bind, used, ok_bind, isUsed, cast,
        addI32_ok (by omega) (by omega), ok_bind]
      refine ⟨_, rfl, ⟨filledLength, by dsimp only; omega, ?_, sound.prevPositive,
        sound.prevBounded, .inr several, by dsimp only; omega, ?_, isOpen⟩,
        by dsimp only; omega⟩
      · dsimp only
        rw [takes]
        exact filledBounded
      · dsimp only
        rw [takes, kraftSum_append, kraftSum_replicate, if_neg coded]
        unfold prefixMaxBits
        push_cast
        linarith
    · rw [if_neg coded]
      rw [ne_eq, not_not] at coded
      subst coded
      refine ⟨_, rfl, ⟨filledLength, by dsimp only; omega, ?_, sound.prevPositive,
        sound.prevBounded, .inr several, by dsimp only; omega, ?_, isOpen⟩,
        by dsimp only; omega⟩
      · dsimp only
        rw [takes]
        exact filledBounded
      · dsimp only
        rw [takes, kraftSum_append, kraftSum_replicate, if_pos rfl, Nat.mul_zero,
          Nat.add_zero]
        exact space

/-- A round gets on, or ends the loop. -/
theorem codeLengthRound_ok
    {table : List HuffmanCode}
    (isTable : LengthTable table)
    (few : numSymbols ≤ 2 ^ 15)
    (sound : state.Sound numSymbols) :
    (∃ next,
        codeLengthRound table numSymbols state = .ok (.inl next) ∧
          next.Sound numSymbols ∧ state.symbol < next.symbol) ∨
      codeLengthRound table numSymbols state = .ok (.inr none) ∨
        codeLengthRound table numSymbols state = .ok (.inr (some state)) := by
  unfold codeLengthRound
  by_cases more : state.symbol < numSymbols ∧ 0 < state.space
  · obtain ⟨peeked, isPeeked, inTable⟩ :=
      @peekBits_open state.br 5 sound.isOpen (by decide)
    obtain ⟨code, isEntry, short, small⟩ := isTable peeked inTable
    obtain ⟨br, consumed, isOpen⟩ :=
      @consume_open state.br code.bits sound.isOpen
        (Nat.le_trans short (by decide))
    have isCode : index table peeked = .ok code := index_eq_ok.2 isEntry
    have moved : CodeLengths.Sound numSymbols { state with br } :=
      ⟨sound.length, sound.inside, sound.bounded, sound.prevPositive,
        sound.prevBounded, sound.repeats, sound.behind, sound.space, isOpen⟩
    unfold codeLengthCodes at small
    rw [if_pos more]
    dsimp only
    rw [isPeeked, ok_bind, isCode, ok_bind, consumed, ok_bind,
      castU_ok (by omega), ok_bind]
    by_cases own : code.value < codeLengthRepeatCode
    · obtain ⟨next, stored, kept, later⟩ :=
        literal_ok moved more.1 (Nat.le_of_lt_succ own)
      rw [if_pos own, stored, ok_bind]
      exact .inl ⟨next, rfl, kept, later⟩
    · rw [if_neg own]
      rcases repetition_ok moved few more.2 (Nat.le_of_not_lt own) small with
        tooLong | ⟨next, stored, kept, later⟩
      · rw [tooLong, ok_bind]
        exact .inr (.inl rfl)
      · rw [stored, ok_bind]
        exact .inl ⟨next, rfl, kept, later⟩
  · rw [if_neg more]
    exact .inr (.inr rfl)

/-- The loop ends, with lengths that are accounted for. -/
theorem run_codeLengths
    {table : List HuffmanCode}
    (isTable : LengthTable table)
    (few : numSymbols ≤ 2 ^ 15)
    {fuel : Nat}
    (sound : state.Sound numSymbols)
    (enough : numSymbols - state.symbol < fuel) :
    ∃ ended,
      run (codeLengthRound table numSymbols) .running fuel state = .ok ended ∧
        ∀ last, ended = some last → last.Sound numSymbols := by
  induction fuel generalizing state with
  | zero =>
      exact absurd enough (Nat.not_lt_zero _)
  | succ fuel inductionHypothesis =>
      rw [run]
      rcases codeLengthRound_ok isTable few sound with
        ⟨next, stepped, kept, later⟩ | tooLong | ends
      · have inside := kept.inside
        rw [stepped]
        exact inductionHypothesis kept (by omega)
      · rw [tooLong]
        refine ⟨none, rfl, ?_⟩
        rintro _ ⟨⟩
      · rw [ends]
        refine ⟨some state, rfl, ?_⟩
        rintro _ ⟨⟩
        exact sound

end Rounds

/-- What is known of code lengths that were accepted. -/
structure Accepted
    (alphabetSize : Nat)
    (codeLengths : List Nat)
    (br : BitReader) :
    Prop where
  length : codeLengths.length = alphabetSize
  bounded : ∀ codeLength ∈ codeLengths, codeLength ≤ prefixMaxBits
  kraft : kraftSum codeLengths = 2 ^ prefixMaxBits
  isOpen : br.closeCalled = false

section Reading

variable {alphabetSize : Nat}
variable {br : BitReader}

/-- Code lengths are read from any bits, and accepted if their code is complete. -/
theorem readHuffmanCodeLengths_ok
    {code : CodeLengthCode}
    (sound : code.Sound)
    (accepted : code.numCodes = 1 ∨ code.space = 0)
    (few : alphabetSize ≤ 2 ^ 15)
    (isOpen : br.closeCalled = false) :
    ∃ result,
      readHuffmanCodeLengths code.lengths alphabetSize br = .ok result ∧
        ∀ codeLengths after,
          result = some (codeLengths, after) →
          Accepted alphabetSize codeLengths after := by
  obtain ⟨counts, size, table, isCounts, built, some, isTable⟩ :=
    lengthTable_ok sound accepted
  have start :
      CodeLengths.Sound alphabetSize
        { codeLengths := List.replicate alphabetSize 0, br } := by
    refine ⟨List.length_replicate, Nat.zero_le _, ?_,
      (by decide : 1 ≤ defaultCodeLength),
      (by decide : defaultCodeLength ≤ prefixMaxBits), .inl rfl, Int.le_refl 0, ?_,
      isOpen⟩
    · intro codeLength member
      rw [List.take_zero] at member
      cases member
    · rw [List.take_zero]
      rfl
  obtain ⟨ended, ran, isSound⟩ :=
    @run_codeLengths alphabetSize _ table isTable few (alphabetSize + 1) start
      (by omega)
  unfold readHuffmanCodeLengths
  rw [isCounts, ok_bind, built, ok_bind]
  dsimp only
  rw [if_neg some, ran, ok_bind]
  cases ended with
  | none =>
      refine ⟨none, rfl, ?_⟩
      rintro _ _ ⟨⟩
  | some last =>
      dsimp only
      obtain ⟨sameLength, inside, bounded, _, _, _, _, space, lastOpen⟩ :=
        isSound last rfl
      by_cases left : last.space ≠ 0
      · rw [if_pos left]
        refine ⟨none, rfl, ?_⟩
        rintro _ _ ⟨⟩
      · rw [if_neg left]
        refine ⟨_, rfl, ?_⟩
        rintro _ _ ⟨⟩
        rw [ne_eq, not_not] at left
        refine ⟨?_, ?_, ?_, lastOpen⟩
        · rw [List.length_append, List.length_take, List.length_replicate]
          omega
        · intro codeLength member
          rcases List.mem_append.1 member with read | rest
          · exact bounded codeLength read
          · rw [List.eq_of_mem_replicate rest]
            exact Nat.zero_le _
        · have whole : 2 ^ prefixMaxBits = 32768 := rfl
          rw [kraftSum_append, kraftSum_replicate, if_pos rfl, Nat.mul_zero, whole]
          omega

/-- Stored code lengths are read from any bits, behind any number of skipped ones. -/
theorem readCodeLengths_ok
    (few : alphabetSize ≤ 2 ^ 15)
    (skip : Nat)
    (isOpen : br.closeCalled = false) :
    ∃ result,
      readCodeLengths alphabetSize skip br = .ok result ∧
        ∀ codeLengths after,
          result = some (codeLengths, after) →
          Accepted alphabetSize codeLengths after := by
  obtain ⟨once, free⟩ := codeLengthCodeOrder_drop skip
  obtain ⟨code, after, read, sound, afterOpen⟩ :=
    readCodeLengthCode_ok once free codeLengthCode_start isOpen
  unfold readCodeLengths
  rw [read, ok_bind]
  dsimp only
  by_cases accepted : code.numCodes = 1 ∨ code.space = 0
  · rw [if_pos accepted]
    exact readHuffmanCodeLengths_ok sound accepted few afterOpen
  · rw [if_neg accepted]
    refine ⟨none, rfl, ?_⟩
    rintro _ _ ⟨⟩

end Reading

end Jxlz
