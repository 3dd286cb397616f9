import Jxlz.Entropy.Lz77Expansion
import Jxlz.Entropy.SoundCodes

namespace Jxlz

open AliasTable AnsParams Except

/-!
# When values are read

Between two calls a symbol reader keeps the tables of its code, a state of 32
bits and a window of its full size.  A symbol and the extra bits of its value
then fit the bits of one refill.  Only one sum is unchecked: the length that a
copy was given is added to the shortest length in 32 bits.
-/

/-- A reader that copies has its window, and a table for the distances. -/
structure MayCopy
    (numHistograms : Nat)
    (reader : ANSSymbolReader) :
    Prop where
  window :
    ∃ window, reader.lz77Window = some window ∧ window.length = windowSize
  distances : reader.lz77Ctx < numHistograms
  minLength : 3 ≤ reader.lz77MinLength
  cached :
    reader.numSpecialDistancesCached ≤ reader.specialDistancesCache.length

/-- A reader without LZ77 never gets to a copy. -/
structure NeverCopies
    (reader : ANSSymbolReader) :
    Prop where
  idle : reader.numToCopy = 0
  threshold : reader.lz77Threshold = 1 <<< 20

/-- What holds of the reader of a code between two calls. -/
structure ReaderSound
    (numHistograms : Nat)
    (code : ANSCode)
    (reader : ANSSymbolReader) :
    Prop where
  aliasTables : reader.aliasTables = code.aliasTables
  huffmanData : reader.huffmanData = code.huffmanData
  degenerate : reader.degenerateSymbols = code.degenerateSymbols
  isPrefix : reader.usePrefixCode = code.usePrefixCode
  configs : reader.configs = code.uintConfig
  ansCodes :
    code.usePrefixCode = false →
      reader.logAlphaSize = code.logAlphaSize ∧
        reader.logEntrySize = ansLogTabSize - code.logAlphaSize ∧
        reader.entrySizeMinus1 =
          1 <<< (ansLogTabSize - code.logAlphaSize) - 1
  state : reader.state < 2 ^ 32
  copies : MayCopy numHistograms reader ∨ NeverCopies reader

section Symbols

variable {numHistograms : Nat}
variable {code : ANSCode}
variable {reader : ANSSymbolReader}
variable {br : BitReader}

theorem ReaderSound.withState
    (readerSound : ReaderSound numHistograms code reader)
    {state : Nat}
    (fits : state < 2 ^ 32) :
    ReaderSound numHistograms code { reader with state } := by
  obtain ⟨aliasTables, huffmanData, degenerate, isPrefix, configs, ansCodes, _,
    copies⟩ := readerSound
  refine ⟨aliasTables, huffmanData, degenerate, isPrefix, configs, ansCodes, fits,
    ?_⟩
  rcases copies with ⟨window, distances, minLength, cached⟩ | ⟨idle, threshold⟩
  · exact .inl ⟨window, distances, minLength, cached⟩
  · exact .inr ⟨idle, threshold⟩

/-- An ANS symbol is found by any state, and leaves a state of 32 bits. -/
theorem readSymbolANS_open
    (sound : CodeSound numHistograms code)
    (readerSound : ReaderSound numHistograms code reader)
    (isAns : code.usePrefixCode = false)
    {histoIdx : Nat}
    (inside : histoIdx < numHistograms)
    (isOpen : br.closeCalled = false) :
    ∃ symbol state after amount,
      reader.readSymbolANSWithoutRefill histoIdx br.refill =
          .ok (symbol, { reader with state }, after) ∧
        symbol < 2 ^ 16 ∧ state < 2 ^ 32 ∧
        Consumed br.refill after amount ∧ amount ≤ 16 := by
  obtain ⟨_, answers⟩ := sound.ansCodes isAns
  obtain ⟨logAlphaSize, logEntrySize, entrySizeMinus1⟩ :=
    readerSound.ansCodes isAns
  have slot : reader.state &&& ansTabMask < ansTabSize :=
    Nat.lt_of_le_of_lt Nat.and_le_right (by decide)
  obtain ⟨symbol, found, isSymbol, counted, atMost⟩ :=
    answers histoIdx inside _ slot
  rw [← readerSound.aliasTables, ← entrySizeMinus1, ← logEntrySize,
    ← logAlphaSize] at found
  have high : reader.state >>> ansLogTabSize < 2 ^ 20 := by
    rw [Nat.shiftRight_eq_div_pow]
    exact Nat.div_lt_of_lt_mul readerSound.state
  have popped :
      symbol.freq * (reader.state >>> ansLogTabSize) + symbol.offset < 2 ^ 32 := by
    have product :
        symbol.freq * (reader.state >>> ansLogTabSize) ≤ ansTabSize * (2 ^ 20 - 1) :=
      Nat.mul_le_mul atMost (by omega)
    have size : ansTabSize = 4096 := rfl
    omega
  have refilledOpen := refill_open isOpen
  have full := br.refill_full
  unfold BitReader.kMaxBitsPerCall at full
  obtain ⟨peeked, isPeeked, small⟩ := @peekBits_open br 16 isOpen (by decide)
  unfold ANSSymbolReader.readSymbolANSWithoutRefill
  dsimp only
  rw [found, ok_bind, castU_ok popped, ok_bind, isPeeked, ok_bind]
  generalize
    symbol.freq * (reader.state >>> ansLogTabSize) + symbol.offset = state at popped
  by_cases low : state < 1 <<< 16
  · obtain ⟨after, consumed, advanced, counted'⟩ :=
      @BitReader.consume_ok br.refill 16 refilledOpen (by omega)
    refine ⟨symbol.value, shlU 32 state 16 ||| peeked, after, 16, ?_, isSymbol,
      Nat.or_lt_two_pow (shlU_lt _ _ _) (Nat.lt_trans small (by decide)),
      ⟨advanced, counted'⟩, Nat.le_refl 16⟩
    simp only [low, decide_true, if_true, consumed, ok_bind, pure_eq_ok]
  · obtain ⟨after, consumed, advanced, counted'⟩ :=
      @BitReader.consume_ok br.refill 0 refilledOpen (Nat.zero_le _)
    refine ⟨symbol.value, state, after, 0, ?_, isSymbol, popped,
      ⟨advanced, counted'⟩, Nat.zero_le 16⟩
    simp only [low, decide_false, Bool.false_eq_true, if_false, consumed, ok_bind,
      pure_eq_ok]

/-- A symbol is read from any bits, at most sixteen of them. -/
theorem readSymbol_open
    (sound : CodeSound numHistograms code)
    (readerSound : ReaderSound numHistograms code reader)
    {histoIdx : Nat}
    (inside : histoIdx < numHistograms)
    (isOpen : br.closeCalled = false) :
    ∃ symbol state after amount,
      reader.readSymbolWithoutRefill histoIdx br.refill =
          .ok (symbol, { reader with state }, after) ∧
        symbol < 2 ^ 16 ∧ state < 2 ^ 32 ∧
        Consumed br.refill after amount ∧ amount ≤ 16 := by
  have noBits : Consumed br.refill br.refill 0 :=
    ⟨⟨rfl, rfl, rfl⟩, rfl⟩
  unfold ANSSymbolReader.readSymbolWithoutRefill
  cases isDegenerate : reader.degenerateSymbol? histoIdx with
  | some symbol =>
      have small : symbol < 2 ^ 16 := by
        unfold ANSSymbolReader.degenerateSymbol? at isDegenerate
        split at isDegenerate
        · cases isDegenerate
        next stored isStored =>
          rw [readerSound.degenerate] at isStored
          have bounded := sound.degenerate stored (List.mem_of_getElem? isStored)
          split at isDegenerate
          · cases isDegenerate
            omega
          · cases isDegenerate
      exact ⟨symbol, reader.state, br.refill, 0, rfl, small, readerSound.state,
        noBits, Nat.zero_le 16⟩
  | none =>
      dsimp only
      by_cases isPrefix : reader.usePrefixCode = true
      · rw [if_pos isPrefix]
        unfold ANSSymbolReader.readSymbolHuffWithoutRefill
        split
        · exact ⟨0, reader.state, br.refill, 0, rfl, by decide, readerSound.state,
            noBits, Nat.zero_le 16⟩
        · exact ⟨0, reader.state, br.refill, 0, rfl, by decide, readerSound.state,
            noBits, Nat.zero_le 16⟩
        next table some isTable =>
          rw [readerSound.huffmanData] at isTable
          rcases sound.prefixCodes table (List.mem_of_getElem? isTable) with
            empty | reads
          · exact (some empty).elim
          · obtain ⟨symbol, after, amount, read, consumed, few, small⟩ :=
              reads br isOpen
            rw [read, ok_bind]
            exact ⟨symbol, reader.state, after, amount, rfl, small,
              readerSound.state, consumed, Nat.le_succ_of_le few⟩
      · rw [if_neg isPrefix]
        rw [readerSound.isPrefix, Bool.not_eq_true] at isPrefix
        exact readSymbolANS_open sound readerSound isPrefix inside isOpen

/-- Behind a symbol there are bits enough for its value. -/
theorem readValue_open
    {before : BitReader}
    {amount : Nat}
    (isOpen : before.closeCalled = false)
    (consumed : Consumed before.refill br amount)
    (few : amount ≤ 16)
    (config : HybridUintConfig)
    (token : Nat) :
    ∃ value after,
      readHybridUintConfigValue config token br = .ok (value, after) ∧
        after.closeCalled = false := by
  have symbolOpen : br.closeCalled = false :=
    consumed.advanced.sameClose.trans (refill_open isOpen)
  have full := before.refill_full
  have left := consumed.stillCounted
  unfold BitReader.kMaxBitsPerCall at full
  unfold readHybridUintConfigValue
  by_cases direct : token < config.splitToken
  · rw [if_pos direct]
    exact ⟨token, br, rfl, symbolOpen⟩
  · have atMost : config.extraBits token ≤ 31 := by
      unfold HybridUintConfig.extraBits
      rw [if_neg direct]
      exact Nat.and_le_right
    have enough : config.extraBits token ≤ br.bitsInBuf := by
      omega
    obtain ⟨after, consumes, advanced, _⟩ :=
      BitReader.consume_ok symbolOpen enough
    have peeked :=
      BitReader.peekBits_ok symbolOpen (Nat.le_trans atMost (by decide)) enough
    rw [if_neg direct]
    dsimp only
    rw [peeked, ok_bind, consumes, ok_bind]
    exact ⟨_, after, rfl, advanced.sameClose.trans symbolOpen⟩

end Symbols

section Copies

variable {numHistograms : Nat}
variable {code : ANSCode}
variable {reader : ANSSymbolReader}

/-- The next value of a copy comes from the window, which keeps its size. -/
theorem copyValue_ok
    (readerSound : ReaderSound numHistograms code reader)
    (mayCopy : MayCopy numHistograms reader)
    (pending : 0 < reader.numToCopy) :
    ∃ value next,
      reader.copyValue = .ok (value, next) ∧
        ReaderSound numHistograms code next := by
  obtain ⟨⟨window, isWindow, isLength⟩, distances, minLength, cached⟩ := mayCopy
  have inside : reader.copyPos &&& windowMask < window.length := by
    rw [isLength, and_windowMask]
    exact Nat.mod_lt _ windowSize_pos
  unfold ANSSymbolReader.copyValue
  rw [isWindow]
  dsimp only
  rw [index_ok inside, ok_bind, subU_ok pending, ok_bind]
  refine ⟨_, _, rfl, ⟨readerSound.aliasTables, readerSound.huffmanData,
    readerSound.degenerate, readerSound.isPrefix, readerSound.configs,
    readerSound.ansCodes, readerSound.state, .inl ⟨⟨_, rfl, ?_⟩, distances, minLength,
    cached⟩⟩⟩
  rw [List.length_set, isLength]

/-- A value is appended to the window, if there is one. -/
theorem recordValue_sound
    (readerSound : ReaderSound numHistograms code reader)
    (value : Nat) :
    ReaderSound numHistograms code (reader.recordValue value) := by
  unfold ANSSymbolReader.recordValue
  split
  · exact readerSound
  next window isWindow =>
    refine ⟨readerSound.aliasTables, readerSound.huffmanData,
      readerSound.degenerate, readerSound.isPrefix, readerSound.configs,
      readerSound.ansCodes, readerSound.state, ?_⟩
    rcases readerSound.copies with
      ⟨⟨window', isWindow', isLength⟩, distances, minLength, cached⟩ |
        ⟨idle, threshold⟩
    · rw [isWindow] at isWindow'
      cases isWindow'
      refine .inl ⟨⟨_, rfl, ?_⟩, distances, minLength, cached⟩
      rw [List.length_set, isLength]
    · exact .inr ⟨idle, threshold⟩

theorem copyDistance_ok
    (cached :
      reader.numSpecialDistancesCached ≤ reader.specialDistancesCache.length)
    (distanceCode : Nat) :
    ∃ distance, reader.copyDistance distanceCode = .ok distance := by
  unfold ANSSymbolReader.copyDistance
  by_cases special : distanceCode < reader.numSpecialDistancesCached
  · rw [if_pos special, index_ok (by omega), ok_bind]
    exact ⟨_, rfl⟩
  · rw [if_neg special, subU_ok (by omega), ok_bind]
    exact ⟨_, rfl⟩

/-- The length that a token starts a copy with fits 32 bits. -/
def LengthFits
    (reader : ANSSymbolReader)
    (token : Nat)
    (br : BitReader) :
    Prop :=
  ∀ length after,
    readHybridUintConfigValue reader.lz77LengthUint (token - reader.lz77Threshold)
        br =
        .ok (length, after) →
    length + reader.lz77MinLength < 2 ^ 32

/-- A copy is started exactly if its length fits. -/
theorem startCopy_iff
    (sound : CodeSound numHistograms code)
    (readerSound : ReaderSound numHistograms code reader)
    (mayCopy : MayCopy numHistograms reader)
    {before br : BitReader}
    {amount : Nat}
    (isOpen : before.closeCalled = false)
    (consumed : Consumed before.refill br amount)
    (few : amount ≤ 16)
    (token : Nat) :
    (Completes (reader.startCopy token br) ↔ LengthFits reader token br) ∧
      ∀ value next after,
        reader.startCopy token br = .ok (value, next, after) →
        ReaderSound numHistograms code next ∧ after.closeCalled = false := by
  obtain ⟨length, br₁, isLength, open₁⟩ :=
    readValue_open isOpen consumed few reader.lz77LengthUint
      (token - reader.lz77Threshold)
  have onlyLength :
      LengthFits reader token br ↔ length + reader.lz77MinLength < 2 ^ 32 := by
    unfold LengthFits
    rw [isLength]
    constructor
    · intro fits
      exact fits length br₁ rfl
    · rintro fits _ _ ⟨⟩
      exact fits
  rw [onlyLength]
  unfold ANSSymbolReader.startCopy
  rw [isLength, ok_bind]
  dsimp only
  by_cases fits : length + reader.lz77MinLength < 2 ^ 32
  · rw [addU_ok fits, ok_bind]
    generalize isNumber : length + reader.lz77MinLength = numToCopy at fits ⊢
    have long : 3 ≤ numToCopy := by
      have least := mayCopy.minLength
      omega
    have notShort : ¬numToCopy < reader.lz77MinLength := by
      omega
    have counting : ReaderSound numHistograms code { reader with numToCopy } :=
      ⟨readerSound.aliasTables, readerSound.huffmanData, readerSound.degenerate,
        readerSound.isPrefix, readerSound.configs, readerSound.ansCodes,
        readerSound.state, .inl ⟨mayCopy.window, mayCopy.distances,
          mayCopy.minLength, mayCopy.cached⟩⟩
    obtain ⟨dToken, state, br₂, amount', isToken, _, stateFits, consumed', few'⟩ :=
      readSymbol_open sound counting mayCopy.distances open₁
    have inConfigs : reader.lz77Ctx < reader.configs.length := by
      rw [readerSound.configs, sound.configs]
      exact mayCopy.distances
    obtain ⟨distanceCode, br₃, isCode, open₃⟩ :=
      readValue_open open₁ consumed' few' reader.configs[reader.lz77Ctx] dToken
    obtain ⟨distance, isDistance⟩ :=
      @copyDistance_ok { reader with numToCopy, state } mayCopy.cached distanceCode
    have isToken' :
        ({ reader with numToCopy } : ANSSymbolReader).readSymbolWithoutRefill
            reader.lz77Ctx br₁.refill =
          .ok (dToken, { reader with numToCopy, state }, br₂) :=
      isToken
    rw [isToken', ok_bind]
    dsimp only
    rw [index_ok inConfigs, ok_bind, isCode, ok_bind, isDistance, ok_bind]
    obtain ⟨⟨window, isWindow, windowLength⟩, distances, minLength, cached⟩ :=
      mayCopy
    generalize
      (reader.numDecoded + 2 ^ 32 - distance) % 2 ^ 32 = copyPos
    -- The copy starts in the window, of which a part may be cleared.
    have started :
        ∀ cleared : List Nat,
          cleared.length = windowSize →
          ∃ value next,
            ANSSymbolReader.copyValue
                  { reader with
                    numToCopy
                    state
                    copyPos
                    lz77Window := some cleared } =
                .ok (value, next) ∧
              ReaderSound numHistograms code next := by
      intro cleared isCleared
      have mayStart :
          MayCopy numHistograms
            { reader with
              numToCopy
              state
              copyPos
              lz77Window := some cleared } :=
        ⟨⟨cleared, rfl, isCleared⟩, distances, minLength, cached⟩
      refine copyValue_ok ?_ mayStart (Nat.lt_of_lt_of_le (by decide) long)
      exact ⟨readerSound.aliasTables, readerSound.huffmanData,
        readerSound.degenerate, readerSound.isPrefix, readerSound.configs,
        readerSound.ansCodes, stateFits, .inl mayStart⟩
    by_cases none : distance = 0
    · have clearedLength :
          (List.replicate (min numToCopy windowSize) 0 ++
              window.drop (min numToCopy windowSize)).length =
            windowSize := by
        rw [List.length_append, List.length_replicate, List.length_drop]
        omega
      obtain ⟨value, next, copied, nextSound⟩ := started _ clearedLength
      rw [if_pos none, isWindow]
      dsimp only
      rw [pure_eq_ok, ok_bind]
      dsimp only
      rw [if_neg notShort, copied, ok_bind]
      refine ⟨⟨fun _ => fits, fun _ => within_ok _⟩, ?_⟩
      rintro _ _ _ ⟨⟩
      exact ⟨nextSound, open₃⟩
    · obtain ⟨value, next, copied, nextSound⟩ := started window windowLength
      rw [if_neg none, pure_eq_ok, ok_bind]
      dsimp only
      rw [← isWindow] at copied
      rw [if_neg notShort, copied, ok_bind]
      refine ⟨⟨fun _ => fits, fun _ => within_ok _⟩, ?_⟩
      rintro _ _ _ ⟨⟩
      exact ⟨nextSound, open₃⟩
  · unfold addU
    rw [if_neg fits, error_bind]
    refine ⟨⟨fun completes => completes.elim, fun fits' => (fits fits').elim⟩, ?_⟩
    rintro _ _ _ ⟨⟩

end Copies

/-- A call reads the next value of a histogram. -/
def readClustered
    (state : ANSSymbolReader × BitReader)
    (read : Nat × Bool) :
    Checked (ANSSymbolReader × BitReader) := do
  let (_, reader, br) ← state.1.readHybridUintClustered read.1 state.2 read.2
  return (reader, br)

/-- If a call starts a copy, its length fits 32 bits. -/
def CopyFits
    (state : ANSSymbolReader × BitReader)
    (read : Nat × Bool) :
    Prop :=
  read.2 = true →
    state.1.numToCopy = 0 →
    ∀ token reader br,
      state.1.readSymbolWithoutRefill read.1 state.2.refill =
          .ok (token, reader, br) →
      reader.lz77Threshold ≤ token → LengthFits reader token br

section Calls

variable {numHistograms : Nat}
variable {code : ANSCode}
variable {reader : ANSSymbolReader}
variable {br : BitReader}

/-- A call succeeds exactly if the copy that it may start fits. -/
theorem readHybridUintClustered_iff
    (sound : CodeSound numHistograms code)
    (readerSound : ReaderSound numHistograms code reader)
    {histoIdx : Nat}
    (inside : histoIdx < numHistograms)
    (isOpen : br.closeCalled = false)
    (usesLz77 : Bool) :
    (Completes (reader.readHybridUintClustered histoIdx br usesLz77) ↔
        CopyFits (reader, br) (histoIdx, usesLz77)) ∧
      ∀ value next after,
        reader.readHybridUintClustered histoIdx br usesLz77 =
            .ok (value, next, after) →
        ReaderSound numHistograms code next ∧ after.closeCalled = false := by
  unfold ANSSymbolReader.readHybridUintClustered CopyFits
  dsimp only
  by_cases copying : usesLz77 = true ∧ 0 < reader.numToCopy
  · have mayCopy : MayCopy numHistograms reader := by
      rcases readerSound.copies with mayCopy | never
      · exact mayCopy
      · have idle := never.idle
        omega
    obtain ⟨value, next, copied, nextSound⟩ :=
      copyValue_ok readerSound mayCopy copying.2
    rw [if_pos copying, copied, ok_bind]
    refine ⟨⟨fun _ _ idle => ?_, fun _ => within_ok _⟩, ?_⟩
    · omega
    · rintro _ _ _ ⟨⟩
      exact ⟨nextSound, isOpen⟩
  · obtain ⟨token, state, br₁, amount, isToken, small, fits, consumed, few⟩ :=
      readSymbol_open sound readerSound inside isOpen
    have tokenSound := readerSound.withState fits
    rw [if_neg copying, isToken, ok_bind]
    dsimp only
    by_cases starts : usesLz77 = true ∧ reader.lz77Threshold ≤ token
    · have mayCopy : MayCopy numHistograms { reader with state } := by
        rcases tokenSound.copies with mayCopy | never
        · exact mayCopy
        · have threshold : reader.lz77Threshold = 2 ^ 20 := never.threshold
          omega
      obtain ⟨completes, keeps⟩ :=
        startCopy_iff sound tokenSound mayCopy isOpen consumed few token
      have idle : reader.numToCopy = 0 := by
        have notCopying : ¬0 < reader.numToCopy :=
          fun pending => copying ⟨starts.1, pending⟩
        omega
      rw [if_pos starts, completes]
      refine ⟨⟨fun length _ _ _ _ _ isRead _ => ?_, fun call => ?_⟩, keeps⟩
      · cases isRead
        exact length
      · exact call starts.1 idle token _ br₁ rfl starts.2
    · have inConfigs : histoIdx < reader.configs.length := by
        rw [readerSound.configs, sound.configs]
        exact inside
      obtain ⟨value, br₂, isValue, open₂⟩ :=
        readValue_open isOpen consumed few reader.configs[histoIdx] token
      rw [if_neg starts, index_ok inConfigs, ok_bind, isValue, ok_bind]
      refine ⟨⟨fun _ asked _ other _ _ isRead above => ?_, fun _ => within_ok _⟩, ?_⟩
      · cases isRead
        exact (starts ⟨asked, above⟩).elim
      · rintro _ _ _ ⟨⟩
        refine ⟨?_, open₂⟩
        split
        · exact recordValue_sound tokenSound value
        · exact tokenSound

/-- A reader that was created for a code. -/
theorem create_sound
    {multiplier : Nat}
    {after : BitReader}
    (sound : CodeSound numHistograms code)
    (isOpen : br.closeCalled = false)
    (created : ANSSymbolReader.create code br multiplier = .ok (reader, after)) :
    ReaderSound numHistograms code reader ∧ after.closeCalled = false := by
  obtain ⟨started, br₁, isStarted, created⟩ :=
    ANSSymbolReader.create_starts created
  have startSound :
      ReaderSound numHistograms code started ∧ br₁.closeCalled = false := by
    rcases isStarted with ⟨isPrefix, rfl, rfl⟩ | ⟨_, _, _, isState, isSize, rfl⟩
    · refine ⟨⟨rfl, rfl, rfl, rfl, rfl, fun isAns => ?_,
        (by decide : ansSignature <<< 16 < 2 ^ 32), .inr ⟨rfl, rfl⟩⟩, isOpen⟩
      rw [isPrefix] at isAns
      cases isAns
    · obtain ⟨rfl, _⟩ := subU_eq_ok isSize
      exact ⟨⟨rfl, rfl, rfl, rfl, rfl, fun _ => ⟨rfl, rfl, rfl⟩,
        BitReader.readBits_lt isState, .inr ⟨rfl, rfl⟩⟩, readBits_isOpen isState⟩
  obtain ⟨startedSound, startOpen⟩ := startSound
  obtain ⟨aliasTables, huffmanData, degenerate, isPrefix, configs, ansCodes, state,
    copies⟩ := startedSound
  split at created
  · obtain ⟨multiplier', _, created⟩ := bind_eq_ok.1 created
    obtain ⟨cached, isCached, created⟩ := bind_eq_ok.1 created
    cases created
    refine ⟨⟨aliasTables, huffmanData, degenerate, isPrefix, configs, ansCodes, state,
      .inl ⟨⟨_, rfl, List.length_replicate⟩, sound.distances, sound.minLength, ?_⟩⟩,
      startOpen⟩
    have sameLength := (forall₂_of_mapM_eq_ok isCached).length_eq
    rw [List.length_range] at sameLength
    dsimp only
    rw [List.length_append, List.length_map, ← sameLength]
    exact Nat.le_add_right _ _
  · cases created
    exact ⟨⟨aliasTables, huffmanData, degenerate, isPrefix, configs, ansCodes, state,
      copies⟩, startOpen⟩

end Calls

/--
On a reader of any code that was decoded, and from any bits, a run of calls
goes through without a stop exactly if every copy that a call starts has a
length that fits 32 bits.
-/
theorem readClustered_completes_iff
    {numContexts : Nat}
    {coded decoded : BitReader}
    {contextMap : List Nat}
    {code : ANSCode}
    (isCode : decodeHistograms numContexts coded = .ok (contextMap, code, decoded))
    {br start : BitReader}
    (isOpen : br.closeCalled = false)
    {multiplier : Nat}
    {reader : ANSSymbolReader}
    (created : ANSSymbolReader.create code br multiplier = .ok (reader, start))
    (reads : List (Nat × Bool))
    (named : ∀ read ∈ reads, read.1 ∈ contextMap) :
    Completes (reads.foldlM readClustered (reader, start)) ↔
      Along readClustered CopyFits (reader, start) reads := by
  obtain ⟨numHistograms, inMap, sound⟩ := decodeHistograms_sound isCode
  obtain ⟨readerSound, startOpen⟩ := create_sound sound isOpen created
  rw [Completes, within_foldlM]
  refine
    along_iff
      (fun state =>
        ReaderSound numHistograms code state.1 ∧ state.2.closeCalled = false)
      ⟨readerSound, startOpen⟩ ?_ ?_
  · rintro ⟨reached, bits⟩ ⟨histoIdx, usesLz77⟩ member ⟨reachedSound, bitsOpen⟩
    obtain ⟨completes, _⟩ :=
      readHybridUintClustered_iff sound reachedSound (inMap _ (named _ member))
        bitsOpen usesLz77
    rw [← completes, readClustered, within_bind]
    exact ⟨fun parts => parts.1, fun first => ⟨first, fun _ _ => within_ok _⟩⟩
  · rintro ⟨reached, bits⟩ ⟨histoIdx, usesLz77⟩ next member ⟨reachedSound, bitsOpen⟩
      isNext
    obtain ⟨_, keeps⟩ :=
      readHybridUintClustered_iff sound reachedSound (inMap _ (named _ member))
        bitsOpen usesLz77
    obtain ⟨⟨value, after, br'⟩, isRead, isNext⟩ := bind_eq_ok.1 isNext
    cases isNext
    exact keeps value after br' isRead

section Overlong

/--
A prefix code with LZ77, whose one symbol starts a copy with 31 extra bits, and
behind it bits that are all set.
-/
def overlongCopy : List UInt8 :=
  [7, 0, 0, 249, 235, 7, 250, 255, 255, 255, 7, 0, 0, 0, 0, 0, 0, 0, 0, 0, 0, 0,
    0, 0]

/-- A safety check stops the computation. -/
def stops
    {α : Type} :
    Checked α → Bool
  | .error .trap => true
  | _ => false

theorem eq_trap_of_stops
    {α : Type}
    {run : Checked α}
    (stopped : stops run = true) :
    run = .error .trap := by
  cases run with
  | ok value => exact nomatch stopped
  | error fault =>
      cases fault with
      | error code => exact nomatch stopped
      | trap => rfl
      | running => exact nomatch stopped

/-- The code is decoded, and its reader stops at the first value. -/
theorem overlongCopy_decoded :
    ∃ contextMap code decoded reader start,
      decodeHistograms 1 (BitReader.init overlongCopy) =
          .ok (contextMap, code, decoded) ∧
        decoded.closeCalled = false ∧
        ANSSymbolReader.create code decoded 0 = .ok (reader, start) ∧
        contextMap = [0, 0] ∧
        reader.readHybridUintClustered 0 start true = .error .trap := by
  have ran :
      (do
          let read ← decodeHistograms 1 (BitReader.init overlongCopy)
          let created ← ANSSymbolReader.create read.2.1 read.2.2 0
          return (read.1, read.2.2.closeCalled,
            stops (created.1.readHybridUintClustered 0 created.2 true))) =
        (.ok ([0, 0], false, true) : Checked (List Nat × Bool × Bool)) := by
    decide +kernel
  obtain ⟨⟨contextMap, code, decoded⟩, isCode, ran⟩ := bind_eq_ok.1 ran
  obtain ⟨⟨reader, start⟩, created, ran⟩ := bind_eq_ok.1 ran
  simp only [pure_eq_ok, Except.ok.injEq, Prod.mk.injEq] at ran
  obtain ⟨isMap, isOpen, stopped⟩ := ran
  exact ⟨contextMap, code, decoded, reader, start, isCode, isOpen, created, isMap,
    eq_trap_of_stops stopped⟩

/-- One call on the reader of that code. -/
theorem readClustered_completes_iff_overlong :
    ∃ contextMap code decoded reader start,
      decodeHistograms 1 (BitReader.init overlongCopy) =
          .ok (contextMap, code, decoded) ∧
        ANSSymbolReader.create code decoded 0 = .ok (reader, start) ∧
        (Completes ([(0, true)].foldlM readClustered (reader, start)) ↔
          Along readClustered CopyFits (reader, start) [(0, true)]) := by
  obtain ⟨contextMap, code, decoded, reader, start, isCode, isOpen, created, isMap,
    _⟩ := overlongCopy_decoded
  refine ⟨contextMap, code, decoded, reader, start, isCode, created,
    readClustered_completes_iff isCode isOpen created [(0, true)] ?_⟩
  rw [isMap]
  decide

/-- The length is not rejected: the sum with the shortest length stops the call. -/
theorem readClustered_traps :
    ∃ contextMap code decoded reader start,
      decodeHistograms 1 (BitReader.init overlongCopy) =
          .ok (contextMap, code, decoded) ∧
        ANSSymbolReader.create code decoded 0 = .ok (reader, start) ∧
        0 ∈ contextMap ∧
        reader.readHybridUintClustered 0 start true = .error .trap ∧
        ¬Completes ([(0, true)].foldlM readClustered (reader, start)) := by
  obtain ⟨contextMap, code, decoded, reader, start, isCode, _, created, isMap,
    stops⟩ := overlongCopy_decoded
  refine ⟨contextMap, code, decoded, reader, start, isCode, created, ?_, stops, ?_⟩
  · rw [isMap]
    decide
  · intro completes
    rw [List.foldlM_cons, readClustered, stops, error_bind, error_bind] at completes
    exact completes

end Overlong

end Jxlz
