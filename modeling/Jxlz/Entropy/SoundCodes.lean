import Jxlz.Entropy.PrefixCodesTotal

namespace Jxlz

open AliasTable AnsParams DecodeHistograms

/-!
# What the decoder knows of a code

A code that was decoded, from whatever bits, has a table for each histogram
that its context map names.  The tables of prefix codes read symbols from any
bits, and those of ANS codes answer every slot with a count of the whole range.
-/

/-- The alias table of a histogram answers every slot. -/
def AnswersSlots
    (aliasTables : List Entry)
    (logAlphaSize c : Nat) :
    Prop :=
  ∀ slot < ansTabSize,
    ∃ symbol,
      lookup (aliasTables.drop (c <<< logAlphaSize)) slot
            (ansLogTabSize - logAlphaSize)
            (1 <<< (ansLogTabSize - logAlphaSize) - 1) =
          .ok symbol ∧
        symbol.value < 2 ^ 16 ∧
        symbol.offset < symbol.freq ∧ symbol.freq ≤ ansTabSize

/-- What is known of a code with so many histograms. -/
structure CodeSound
    (numHistograms : Nat)
    (code : ANSCode) :
    Prop where
  configs : code.uintConfig.length = numHistograms
  degenerate : ∀ symbol ∈ code.degenerateSymbols, symbol < 2 ^ 16
  prefixCodes : ∀ table ∈ code.huffmanData, table = [] ∨ ReadsSymbols table
  ansCodes :
    code.usePrefixCode = false →
      code.logAlphaSize ≤ ansLogTabSize ∧
        ∀ c < numHistograms, AnswersSlots code.aliasTables code.logAlphaSize c
  distances : code.lz77.nonserializedDistanceContext < numHistograms
  minLength : 3 ≤ code.lz77.minLength

theorem catchGeneric_eq_ok
    {α : Type}
    {computation : Checked α}
    {value : α}
    (returned : catchGeneric computation = .ok value) :
    computation = .ok value := by
  cases computation with
  | ok other =>
      exact returned
  | error fault =>
      cases fault <;> cases returned

section Readers

variable {br after : BitReader}

/-- Only an open reader gives bits. -/
theorem readBits_isOpen
    {nbits bits : Nat}
    (read : br.readBits nbits = .ok (bits, after)) :
    after.closeCalled = false := by
  unfold BitReader.readBits at read
  obtain ⟨_, checked, read⟩ := bind_eq_ok.1 read
  obtain ⟨_, _, read⟩ := bind_eq_ok.1 read
  obtain ⟨consumed, isConsumed, read⟩ := bind_eq_ok.1 read
  cases read
  have refilledOpen : br.refill.closeCalled = false :=
    refill_open (require_eq_ok.1 checked)
  unfold BitReader.consume at isConsumed
  obtain ⟨_, _, isConsumed⟩ := bind_eq_ok.1 isConsumed
  split at isConsumed
  · cases isConsumed
    exact refilledOpen
  · cases isConsumed

theorem decodeUintConfig_isOpen
    {logAlphaSize : Nat}
    {config : HybridUintConfig}
    (decoded : decodeUintConfig logAlphaSize br = .ok (config, after)) :
    after.closeCalled = false := by
  unfold decodeUintConfig at decoded
  obtain ⟨⟨splitExponent, br₁⟩, read, decoded⟩ := bind_eq_ok.1 decoded
  obtain ⟨⟨digits, br₂⟩, isDigits, decoded⟩ := bind_eq_ok.1 decoded
  have digitsOpen : br₂.closeCalled = false := by
    unfold decodeTokenDigits at isDigits
    split at isDigits
    · obtain ⟨⟨msbInToken, br₃⟩, _, isDigits⟩ := bind_eq_ok.1 isDigits
      dsimp only at isDigits
      split at isDigits
      · cases isDigits
      · obtain ⟨⟨lsbInToken, br₄⟩, last, isDigits⟩ := bind_eq_ok.1 isDigits
        cases isDigits
        exact readBits_isOpen last
    · cases isDigits
      exact readBits_isOpen read
  dsimp only at decoded
  split at decoded
  · cases decoded
  · obtain ⟨_, _, decoded⟩ := bind_eq_ok.1 decoded
    cases decoded
    exact digitsOpen

/-- As many configurations as were asked for. -/
theorem decodeUintConfigs_length
    {logAlphaSize count : Nat}
    {configs : List HybridUintConfig}
    (isOpen : br.closeCalled = false)
    (decoded : decodeUintConfigs logAlphaSize count br = .ok (configs, after)) :
    configs.length = count ∧ after.closeCalled = false := by
  induction count generalizing br configs with
  | zero =>
      cases decoded
      exact ⟨rfl, isOpen⟩
  | succ count inductionHypothesis =>
      obtain ⟨⟨config, br₁⟩, first, decoded⟩ := bind_eq_ok.1 decoded
      obtain ⟨⟨others, br₂⟩, rest, decoded⟩ := bind_eq_ok.1 decoded
      cases decoded
      obtain ⟨sameLength, lastOpen⟩ :=
        inductionHypothesis (decodeUintConfig_isOpen first) rest
      exact ⟨by rw [List.length_cons, sameLength], lastOpen⟩

end Readers

section Prefix

variable {br after : BitReader}

/-- The tables that were read, and the symbols of alphabets with one symbol. -/
theorem readHuffmanTables_sound
    {sizes : List Nat}
    {tables : List (List HuffmanCode × Int)}
    (isOpen : br.closeCalled = false)
    (read : readHuffmanTables sizes br = .ok (tables, after)) :
    ∀ entry ∈ tables,
      (entry.1 = [] ∨ ReadsSymbols entry.1) ∧ entry.2 < 2 ^ 16 := by
  induction sizes generalizing br tables with
  | nil =>
      cases read
      intro entry member
      cases member
  | cons alphabetSize sizes inductionHypothesis =>
      rw [readHuffmanTables] at read
      split at read
      · obtain ⟨⟨others, br₁⟩, rest, read⟩ := bind_eq_ok.1 read
        cases read
        intro entry member
        rcases List.mem_cons.1 member with rfl | later
        · exact ⟨.inl rfl, (by decide : (0 : Int) < 2 ^ 16)⟩
        · exact inductionHypothesis isOpen rest entry later
      · obtain ⟨result, first, read⟩ := bind_eq_ok.1 read
        cases result with
        | none =>
            cases read
        | some pair =>
            obtain ⟨table, br₁⟩ := pair
            obtain ⟨reads, tableOpen⟩ :=
              (readFromBitStream_iff isOpen).2 table br₁ first
            obtain ⟨⟨others, br₂⟩, rest, read⟩ := bind_eq_ok.1 read
            cases read
            intro entry member
            rcases List.mem_cons.1 member with rfl | later
            · exact ⟨.inr reads, (by decide : (-1 : Int) < 2 ^ 16)⟩
            · exact inductionHypothesis tableOpen rest entry later

theorem readPrefixCodes_sound
    {numHistograms : Nat}
    {tables : List (List HuffmanCode × Int)}
    (isOpen : br.closeCalled = false)
    (read : readPrefixCodes numHistograms br = .ok (tables, after)) :
    ∀ entry ∈ tables,
      (entry.1 = [] ∨ ReadsSymbols entry.1) ∧ entry.2 < 2 ^ 16 := by
  obtain ⟨⟨sizes, br₁⟩, isSizes, read⟩ := bind_eq_ok.1 read
  exact readHuffmanTables_sound
    ((readAlphabetSizes_iff isOpen).2 sizes br₁ isSizes) read

end Prefix

section Ans

variable {logAlphaSize : Nat}

/-- A table that was built is that of a normalized distribution. -/
theorem initAliasTable_normalized
    {counts : List Nat}
    {memory table : List Entry}
    (built : initAliasTable counts ansLogTabSize logAlphaSize memory = .ok table) :
    ∃ distribution : List Nat,
      distribution.sum = ansTabSize ∧
        distribution.length ≤ 2 ^ logAlphaSize ∧
        initAliasTable distribution ansLogTabSize logAlphaSize memory =
          .ok table := by
  generalize isDistribution :
    (if counts.rdropWhile (fun count : Nat => decide (count = 0)) = [] then
        [1 <<< ansLogTabSize]
      else
        counts.rdropWhile (fun count : Nat => decide (count = 0))) =
      distribution
  have trims :
      (if distribution.rdropWhile (fun count : Nat => decide (count = 0)) = [] then
          [1 <<< ansLogTabSize]
        else
          distribution.rdropWhile (fun count : Nat => decide (count = 0))) =
        distribution := by
    by_cases empty :
        counts.rdropWhile (fun count : Nat => decide (count = 0)) = []
    · rw [if_pos empty] at isDistribution
      subst isDistribution
      rfl
    · rw [if_neg empty] at isDistribution
      subst isDistribution
      rw [List.rdropWhile_idempotent, if_neg empty]
  have same :
      initAliasTable distribution ansLogTabSize logAlphaSize memory =
        initAliasTable counts ansLogTabSize logAlphaSize memory := by
    unfold initAliasTable
    dsimp only
    rw [trims, isDistribution]
  refine ⟨distribution, ?_, ?_, by rw [same, built]⟩
  · unfold initAliasTable at built
    dsimp only at built
    rw [isDistribution] at built
    split at built
    · cases built
    · split at built
      · cases built
      · unfold InitAliasTable.build at built
        obtain ⟨_, _, built⟩ := bind_eq_ok.1 built
        split at built
        · cases built
        next isSum =>
          rw [ne_eq, not_not] at isSum
          exact isSum
  · unfold initAliasTable at built
    dsimp only at built
    rw [isDistribution] at built
    split at built
    · cases built
    · split at built
      · cases built
      next notLonger =>
        rw [Nat.one_shiftLeft] at notLonger
        exact Nat.le_of_not_lt notLonger

/-- Tables that agree on the entries of a histogram answer alike. -/
theorem AnswersSlots.congr
    {first second : List Entry}
    {c : Nat}
    (small : logAlphaSize ≤ ansLogTabSize)
    (answers : AnswersSlots first logAlphaSize c)
    (same :
      ∀ i < 2 ^ logAlphaSize,
        second[c <<< logAlphaSize + i]? = first[c <<< logAlphaSize + i]?) :
    AnswersSlots second logAlphaSize c := by
  intro slot inside
  obtain ⟨symbol, isSymbol, known⟩ := answers slot inside
  refine ⟨symbol, ?_, known⟩
  rw [← isSymbol]
  have place :
      slot >>> (ansLogTabSize - logAlphaSize) < 2 ^ logAlphaSize := by
    rw [Nat.shiftRight_eq_div_pow, Nat.div_lt_iff_lt_mul (by positivity),
      ← Nat.pow_add, Nat.add_sub_cancel' small]
    exact inside
  unfold lookup index
  dsimp only
  rw [List.getElem?_drop, List.getElem?_drop, same _ place]

/-- The buckets of a normalized distribution answer every slot. -/
theorem answersSlots_built
    {distribution : List Nat}
    {buckets before rest : List Entry}
    {c : Nat}
    (small : logAlphaSize ≤ 8)
    (normalized : distribution.sum = ansTabSize)
    (short : distribution.length ≤ 2 ^ logAlphaSize)
    (isLength : buckets.length = 2 ^ logAlphaSize)
    (correct : IsAliasTable distribution logAlphaSize buckets)
    (isBefore : before.length = c <<< logAlphaSize) :
    AnswersSlots (before ++ (buckets ++ rest)) logAlphaSize c := by
  obtain ⟨answer, answers⟩ := correct.answers_slot normalized
  intro slot inside
  obtain ⟨isAnswer, isFreq, counted⟩ := answers slot inside
  have atMost := countOf_le_ansTabSize normalized (answer slot).value
  have inDistribution : (answer slot).value < distribution.length :=
    countOf_pos_lt_length (Nat.lt_of_le_of_lt (Nat.zero_le _) counted)
  have few : 2 ^ logAlphaSize ≤ 2 ^ 8 :=
    Nat.pow_le_pow_right Nat.two_pos small
  refine
    ⟨{ value := (answer slot).value
       offset := (answer slot).offset
       freq := countOf distribution (answer slot).value },
      ?_, by dsimp only; omega, counted, atMost⟩
  rw [← isBefore, List.drop_left,
    lookup_append rest (Nat.le_trans small (by decide)) isLength inside]
  exact isAnswer

/-- One histogram adds its own table and keeps those before it. -/
theorem addAnsHistogram_sound
    {code next : ANSCode}
    {c : Nat}
    {counts : List Nat}
    (large : 4 ≤ code.logAlphaSize)
    (small : code.logAlphaSize ≤ 8)
    (room : (c + 1) * 2 ^ code.logAlphaSize ≤ code.aliasTables.length)
    (added : addAnsHistogram code c counts = .ok next) :
    ∃ degenerate aliasTables,
      next =
          { code with
            degenerateSymbols := code.degenerateSymbols.set c degenerate
            aliasTables } ∧
        degenerate < 2 ^ 16 ∧
        aliasTables.length = code.aliasTables.length ∧
        AnswersSlots aliasTables code.logAlphaSize c ∧
        ∀ i < c <<< code.logAlphaSize,
          aliasTables[i]? = code.aliasTables[i]? := by
  unfold addAnsHistogram at added
  dsimp only at added
  split at added
  · cases added
  next notLonger =>
    obtain ⟨table, built, added⟩ := bind_eq_ok.1 added
    cases added
    obtain ⟨distribution, normalized, short, built⟩ :=
      initAliasTable_normalized (catchGeneric_eq_ok built)
    obtain ⟨buckets, isLength, correct, builds⟩ :=
      initAliasTable_ok normalized short large small
    have isOffset : c * 1 <<< code.logAlphaSize = c <<< code.logAlphaSize := by
      rw [Nat.one_shiftLeft, Nat.shiftLeft_eq]
    rw [isOffset] at built ⊢
    have offset : c <<< code.logAlphaSize = c * 2 ^ code.logAlphaSize :=
      Nat.shiftLeft_eq _ _
    rw [Nat.succ_mul] at room
    have isTable := builds (code.aliasTables.drop (c <<< code.logAlphaSize)) (by
      rw [List.length_drop]
      omega)
    rw [built] at isTable
    cases isTable
    have isBefore :
        (code.aliasTables.take (c <<< code.logAlphaSize)).length =
          c <<< code.logAlphaSize := by
      rw [List.length_take]
      omega
    refine ⟨_, _, rfl, ?_, ?_, ?_, ?_⟩
    · have few : 2 ^ code.logAlphaSize ≤ 2 ^ 8 :=
        Nat.pow_le_pow_right Nat.two_pos small
      have trimmed :
          (counts.rdropWhile (fun count : Nat => decide (count = 0))).length ≤
            counts.length :=
        (List.rdropWhile_prefix _ counts).length_le
      rw [Nat.one_shiftLeft] at notLonger
      unfold degenerateSymbol
      dsimp only
      split
      · omega
      · decide
    · rw [List.length_append, isBefore, List.length_append, isLength,
        List.length_drop, List.length_drop]
      omega
    · exact answersSlots_built small normalized short isLength correct isBefore
    · intro i before
      rw [List.getElem?_append_left (by rw [isBefore]; exact before),
        List.getElem?_take_of_lt before]

/-- What holds of the code when the first histograms are added. -/
structure AnsLoaded
    (numHistograms : Nat)
    (start : ANSCode)
    (c : Nat)
    (code : ANSCode) :
    Prop where
  same :
    ∃ degenerateSymbols aliasTables,
      code = { start with degenerateSymbols, aliasTables }
  room : code.aliasTables.length = numHistograms * 2 ^ start.logAlphaSize
  degenerate : ∀ symbol ∈ code.degenerateSymbols, symbol < 2 ^ 16
  answers :
    ∀ earlier < c, AnswersSlots code.aliasTables start.logAlphaSize earlier

theorem readAnsHistogram_loaded
    {numHistograms c : Nat}
    {start : ANSCode}
    {state next : ANSCode × BitReader}
    (large : 4 ≤ start.logAlphaSize)
    (small : start.logAlphaSize ≤ 8)
    (inside : c < numHistograms)
    (read : readAnsHistogram state c = .ok next)
    (loaded : AnsLoaded numHistograms start c state.1) :
    AnsLoaded numHistograms start (c + 1) next.1 := by
  obtain ⟨code, br⟩ := state
  obtain ⟨⟨before, tables, isCode⟩, room, degenerate, answers⟩ := loaded
  dsimp only at isCode room degenerate answers
  obtain ⟨⟨counts, br'⟩, _, read⟩ := bind_eq_ok.1 read
  obtain ⟨added, isAdded, read⟩ := bind_eq_ok.1 read
  cases read
  have sameLog : code.logAlphaSize = start.logAlphaSize := by
    rw [isCode]
  have enough :
      (c + 1) * 2 ^ code.logAlphaSize ≤ code.aliasTables.length := by
    rw [room, sameLog]
    exact Nat.mul_le_mul_right _ inside
  obtain ⟨symbol, aliasTables, isNext, few, sameRoom, own, kept⟩ :=
    addAnsHistogram_sound (by omega) (by omega) enough isAdded
  rw [sameLog] at own kept
  dsimp only
  subst isNext
  refine ⟨⟨_, aliasTables, by rw [isCode]⟩, sameRoom.trans room, ?_, ?_⟩
  · intro other member
    dsimp only at member
    rcases List.mem_or_eq_of_mem_set member with old | rfl
    · exact degenerate other old
    · exact few
  · intro earlier isEarlier
    dsimp only
    rcases Nat.lt_succ_iff_lt_or_eq.1 isEarlier with lower | rfl
    · refine (answers earlier lower).congr (Nat.le_trans small (by decide)) ?_
      intro i inTable
      refine kept _ ?_
      rw [Nat.shiftLeft_eq, Nat.shiftLeft_eq]
      have width := Nat.mul_le_mul_right (2 ^ start.logAlphaSize) lower
      rw [Nat.succ_mul] at width
      omega
    · exact own

end Ans

section Codes

variable {br after : BitReader}
variable {lz77 : LZ77Params}
variable {numHistograms : Nat}
variable {code : ANSCode}

theorem readCodes_sound
    (isDistance : lz77.nonserializedDistanceContext < numHistograms)
    (isLength : 3 ≤ lz77.minLength)
    (read : readCodes lz77 numHistograms br = .ok (code, after)) :
    CodeSound numHistograms code := by
  unfold readCodes at read
  obtain ⟨⟨usePrefixCode, br₁⟩, isKind, read⟩ := bind_eq_ok.1 read
  dsimp only at read
  split at read
  · obtain ⟨⟨uintConfig, br₂⟩, isConfig, read⟩ := bind_eq_ok.1 read
    obtain ⟨⟨tables, br₃⟩, isTables, read⟩ := bind_eq_ok.1 read
    cases read
    obtain ⟨configs, open₂⟩ :=
      decodeUintConfigs_length (readBits_isOpen isKind)
        (catchGeneric_eq_ok isConfig)
    have sound := readPrefixCodes_sound open₂ isTables
    refine ⟨configs, ?_, ?_, ?_, isDistance, isLength⟩
    · intro symbol member
      obtain ⟨entry, isEntry, rfl⟩ := List.mem_map.1 member
      exact (sound entry isEntry).2
    · intro table member
      obtain ⟨entry, isEntry, rfl⟩ := List.mem_map.1 member
      exact (sound entry isEntry).1
    · rintro ⟨⟩
  · obtain ⟨⟨bits, br₂⟩, isBits, read⟩ := bind_eq_ok.1 read
    obtain ⟨⟨uintConfig, br₃⟩, isConfig, read⟩ := bind_eq_ok.1 read
    obtain ⟨⟨loadedCode, br₄⟩, ran, read⟩ := bind_eq_ok.1 read
    cases read
    have few := BitReader.readBits_lt isBits
    obtain ⟨configs, _⟩ :=
      decodeUintConfigs_length (readBits_isOpen isBits)
        (catchGeneric_eq_ok isConfig)
    have loaded :
        AnsLoaded numHistograms
          (ansCodeStart numHistograms uintConfig (bits + 5)
            (List.replicate (numHistograms * 1 <<< (bits + 5)) {}))
          numHistograms loadedCode := by
      refine
        foldlM_range_of_ok
          (fun c (state : ANSCode × BitReader) =>
            AnsLoaded numHistograms _ c state.1)
          ran ⟨⟨_, _, rfl⟩, ?_, ?_, ?_⟩ ?_
      · unfold ansCodeStart
        dsimp only
        rw [List.length_replicate, Nat.one_shiftLeft]
      · intro symbol member
        unfold ansCodeStart at member
        dsimp only at member
        rw [List.eq_of_mem_replicate member]
        decide
      · intro earlier none
        exact absurd none (Nat.not_lt_zero _)
      · intro c state next inside isNext holds
        exact
          readAnsHistogram_loaded (by unfold ansCodeStart; dsimp only; omega)
            (by unfold ansCodeStart; dsimp only; omega) inside isNext holds
    obtain ⟨⟨degenerateSymbols, aliasTables, isCode⟩, _, degenerate, answers⟩ :=
      loaded
    subst isCode
    unfold ansCodeStart at degenerate answers ⊢
    dsimp only at degenerate answers
    refine ⟨configs, degenerate, ?_, ?_, isDistance, isLength⟩
    · intro table member
      cases member
    · intro _
      exact ⟨Nat.le_trans (by dsimp only; omega : _ ≤ 8) (by decide), answers⟩

theorem readMinLength_le
    {selector minLength : Nat}
    (read : readMinLength selector br = .ok (minLength, after)) :
    3 ≤ minLength := by
  unfold readMinLength at read
  split at read
  · cases read
    exact Nat.le_refl 3
  · cases read
    decide
  · obtain ⟨⟨bits, br'⟩, _, read⟩ := bind_eq_ok.1 read
    cases read
    omega
  · obtain ⟨⟨bits, br'⟩, _, read⟩ := bind_eq_ok.1 read
    cases read
    omega

theorem lz77Params_minLength
    (read : LZ77Params.readFromBitStream br = .ok (lz77, after)) :
    3 ≤ lz77.minLength := by
  unfold LZ77Params.readFromBitStream at read
  obtain ⟨⟨enabled, br₁⟩, _, read⟩ := bind_eq_ok.1 read
  dsimp only at read
  split at read
  · cases read
    exact Nat.le_refl 3
  · obtain ⟨⟨sel0, br₂⟩, _, read⟩ := bind_eq_ok.1 read
    obtain ⟨⟨minSymbol, br₃⟩, _, read⟩ := bind_eq_ok.1 read
    obtain ⟨⟨sel1, br₄⟩, _, read⟩ := bind_eq_ok.1 read
    obtain ⟨⟨minLength, br₅⟩, isLength, read⟩ := bind_eq_ok.1 read
    cases read
    exact readMinLength_le isLength

theorem readLengthConfig_minLength
    {numContexts numContexts' : Nat}
    {lz77' : LZ77Params}
    (read :
      readLengthConfig lz77 numContexts br = .ok (lz77', numContexts', after)) :
    lz77'.minLength = lz77.minLength := by
  unfold readLengthConfig at read
  split at read
  · obtain ⟨⟨config, br'⟩, _, read⟩ := bind_eq_ok.1 read
    cases read
    rfl
  · cases read
    rfl

/-- The entries of a context map name histograms. -/
theorem decodeContextMapAlloc_lt
    {decodeInner : BitReader → Bool → Checked (List Nat × ANSCode × BitReader)}
    {size : Nat}
    {contextMap : List Nat}
    (decoded :
      decodeContextMapAlloc decodeInner size br =
        .ok ((contextMap, numHistograms), after)) :
    ∀ htree ∈ contextMap, htree < numHistograms := by
  unfold decodeContextMapAlloc at decoded
  obtain ⟨⟨entries, br₁⟩, _, decoded⟩ := bind_eq_ok.1 decoded
  dsimp only at decoded
  split at decoded
  · cases decoded
  · obtain ⟨_, verified, decoded⟩ := bind_eq_ok.1 decoded
    cases decoded
    unfold verifyContextMap at verified
    split at verified
    · cases verified
    next inRange =>
      intro htree member
      by_contra outside
      exact inRange ⟨htree, member, Nat.le_of_not_lt outside⟩

end Codes

/-- Whatever code is decoded is sound, and its context map names its tables. -/
theorem decodeHistograms_sound
    {depth numContextsIn : Nat}
    {br after : BitReader}
    {disallowLz77 : Bool}
    {contextMap : List Nat}
    {code : ANSCode}
    (decoded :
      decodeHistogramsWithLz77Policy depth numContextsIn br disallowLz77 =
        .ok (contextMap, code, after)) :
    ∃ numHistograms,
      (∀ htree ∈ contextMap, htree < numHistograms) ∧
        CodeSound numHistograms code := by
  cases depth with
  | zero =>
      cases decoded
  | succ depth =>
      obtain ⟨⟨lz77, br₁⟩, isLz77, decoded⟩ := bind_eq_ok.1 decoded
      dsimp only at decoded
      split at decoded
      · cases decoded
      · split at decoded
        · cases decoded
        · obtain ⟨⟨lz77', numContexts, br₂⟩, isConfig, decoded⟩ :=
            bind_eq_ok.1 decoded
          obtain ⟨⟨⟨map, numHistograms⟩, br₃⟩, isMap, decoded⟩ :=
            bind_eq_ok.1 decoded
          obtain ⟨last, _, decoded⟩ := bind_eq_ok.1 decoded
          obtain ⟨distanceContext, isDistance, decoded⟩ := bind_eq_ok.1 decoded
          obtain ⟨⟨readCode, br₄⟩, isCode, decoded⟩ := bind_eq_ok.1 decoded
          cases decoded
          have named : ∀ htree ∈ map, htree < numHistograms := by
            split at isMap
            · exact decodeContextMapAlloc_lt isMap
            · cases isMap
              intro htree member
              rw [List.eq_of_mem_replicate member]
              exact Nat.one_pos
          have long := lz77Params_minLength isLz77
          rw [← readLengthConfig_minLength isConfig] at long
          have inMap := List.mem_of_getElem? (index_eq_ok.1 isDistance)
          exact ⟨numHistograms, named,
            @readCodes_sound br₃ br₄
              { lz77' with nonserializedDistanceContext := distanceContext }
              numHistograms readCode (named distanceContext inMap) long isCode⟩

end Jxlz
