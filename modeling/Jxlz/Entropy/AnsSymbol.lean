import Jxlz.Entropy.AnsTable

namespace Jxlz

open BitString

/-!
# Coding one symbol

The encoder's state stays in `[2 ^ 16, 2 ^ 32)`.  `putSymbol` is the abstract
push after shrinking, and reading a symbol is the pop that undoes it together
with the digit that the encoder moved out.
-/

/-- The base of the digits that move in and out of the state. -/
def digitBase : Nat := 2 ^ 16

/-- The state interval is this many times the number of slots. -/
def stateScale : Nat := 16

/-- The state of coder and reader between two symbols. -/
def StateInRange
    (state : Nat) :
    Prop :=
  2 ^ 16 ≤ state ∧ state < 2 ^ 32

/-- The checksum state is in range. -/
theorem stateInRange_initial :
    StateInRange (AnsParams.ansSignature <<< 16) := by
  constructor <;> decide

/-- Multiplying by the rounded-up reciprocal divides exactly and fits 64 bits. -/
theorem reciprocal_div
    {freq state : Nat}
    (positive : 0 < freq)
    (freqLe : freq ≤ 4096)
    (below : state < freq * 2 ^ 20) :
    state * ((2 ^ 44 + freq - 1) / freq) < 2 ^ 64 ∧
      state * ((2 ^ 44 + freq - 1) / freq) / 2 ^ 44 = state / freq := by
  -- The reciprocal exceeds `2 ^ 44 / freq` by less than one.
  have product := Nat.div_add_mod (2 ^ 44 + freq - 1) freq
  have remainderLt := Nat.mod_lt (2 ^ 44 + freq - 1) positive
  generalize (2 ^ 44 + freq - 1) / freq = reciprocal at product ⊢
  generalize (2 ^ 44 + freq - 1) % freq = remainder at product remainderLt
  obtain ⟨excess, excessLt, scaled⟩ :
      ∃ excess,
        excess < freq ∧ freq * reciprocal = 2 ^ 44 + excess :=
    ⟨freq - 1 - remainder, by omega, by omega⟩
  have quotientLt : state / freq < 2 ^ 20 :=
    Nat.div_lt_of_lt_mul below
  have offsetLt := Nat.mod_lt state positive
  have split := Nat.div_add_mod state freq
  generalize state / freq = quotient at quotientLt split ⊢
  generalize state % freq = offset at offsetLt split
  have expanded :
      state * reciprocal =
        quotient * 2 ^ 44 + (quotient * excess + offset * reciprocal) := by
    calc
      state * reciprocal
          = quotient * (freq * reciprocal) + offset * reciprocal := by
            rw [← split]
            ring
      _ = quotient * 2 ^ 44 +
            (quotient * excess + offset * reciprocal) := by
            rw [scaled]
            ring
  -- The error of the reciprocal is too small to reach the next quotient.
  have errorSmall : quotient * excess + excess < reciprocal := by
    have excessLe : (quotient + 1) * excess ≤ 2 ^ 20 * (freq - 1) :=
      Nat.mul_le_mul quotientLt (by omega)
    have freqSquare : freq * (2 ^ 20 * (freq - 1)) < 2 ^ 44 := by
      have bound : freq * (freq - 1) ≤ 4096 * 4095 :=
        Nat.mul_le_mul freqLe (by omega)
      calc
        freq * (2 ^ 20 * (freq - 1))
            = 2 ^ 20 * (freq * (freq - 1)) := by ring
        _ ≤ 2 ^ 20 * (4096 * 4095) := Nat.mul_le_mul_left _ bound
        _ < 2 ^ 44 := by norm_num
    have reciprocalLarge : 2 ^ 20 * (freq - 1) < reciprocal := by
      refine Nat.lt_of_mul_lt_mul_left (a := freq) ?_
      omega
    have succ : (quotient + 1) * excess = quotient * excess + excess := by
      ring
    omega
  have restLt :
      quotient * excess + offset * reciprocal < 2 ^ 44 := by
    have offsetLe : (offset + 1) * reciprocal ≤ freq * reciprocal :=
      Nat.mul_le_mul_right _ offsetLt
    have succ : (offset + 1) * reciprocal =
        offset * reciprocal + reciprocal := by
      ring
    omega
  constructor
  · have quotientLe : (quotient + 1) * 2 ^ 44 ≤ 2 ^ 20 * 2 ^ 44 :=
      Nat.mul_le_mul_right _ quotientLt
    have succ : (quotient + 1) * 2 ^ 44 = quotient * 2 ^ 44 + 2 ^ 44 := by
      ring
    omega
  · rw [expanded, Nat.mul_comm quotient, Nat.mul_add_div (by norm_num),
      Nat.div_eq_of_lt restLt, Nat.add_zero]

section Symbol

variable {table : RangeAns Nat}
variable {distribution : List Nat}
variable {logAlphaSize : Nat}
variable {buckets : List AliasTable.Entry}
variable (presents : Presents table distribution logAlphaSize buckets)

include presents

theorem freq_le_range
    (symbol : Nat) :
    table.freq symbol ≤ 4096 := by
  have bound := table.freq_le symbol
  rw [presents.total_eq] at bound
  exact bound

/-- The coder's interval is the abstract one. -/
theorem inRange_iff
    (state : Nat) :
    table.InRange digitBase stateScale state ↔ StateInRange state := by
  rw [RangeAns.InRange, presents.total_eq]
  exact Iff.rfl

omit presents in
theorem limit_eq
    (symbol : Nat) :
    table.limit digitBase stateScale symbol = table.freq symbol * 2 ^ 20 :=
  rfl

/-- What a put does: shrink, then push. -/
theorem putSymbol_ok
    {symbol state : Nat}
    {info : ANSEncSymbolInfo}
    (possible : 0 < table.freq symbol)
    (infoOf : InfoOf table symbol info)
    (inRange : StateInRange state) :
    ANSCoder.putSymbol { state } info =
      .ok
        ({ state :=
            table.push symbol
              (table.shrink digitBase stateScale symbol state) },
          if table.limit digitBase stateScale symbol ≤ state then
            { bits := state % digitBase, nbits := 16 }
          else
            { bits := 0, nbits := 0 }) := by
  have abstractInRange := (inRange_iff presents state).2 inRange
  have enoughBase : table.total ≤ digitBase := by
    rw [presents.total_eq]
    decide
  have shrunkLt :=
    table.shrink_lt_limit possible enoughBase abstractInRange
  have pushed :=
    (inRange_iff presents _).1
      (table.push_inRange possible enoughBase (by decide) abstractInRange)
  have emitsIff :
      info.freq ≤ state >>> (32 - AnsParams.ansLogTabSize) ↔
        table.limit digitBase stateScale symbol ≤ state := by
    rw [infoOf.freq_eq, limit_eq, Nat.shiftRight_eq_div_pow,
      Nat.le_div_iff_mul_le (by positivity)]
    rfl
  have shrinkEq :
      (if info.freq ≤ state >>> (32 - AnsParams.ansLogTabSize) then
          state >>> 16
        else
          state) =
        table.shrink digitBase stateScale symbol state := by
    rw [if_congr emitsIff rfl rfl, RangeAns.shrink,
      Nat.shiftRight_eq_div_pow]
    rfl
  have emitted :
      ({ bits :=
          if info.freq ≤ state >>> (32 - AnsParams.ansLogTabSize) then
            state &&& 0xffff
          else
            0
         nbits :=
          if info.freq ≤ state >>> (32 - AnsParams.ansLogTabSize) then
            16
          else
            0 } : ANSCoder.PutResult) =
        if table.limit digitBase stateScale symbol ≤ state then
          { bits := state % digitBase, nbits := 16 }
        else
          { bits := 0, nbits := 0 } := by
    simp only [emitsIff]
    have low : state &&& 0xffff = state % digitBase :=
      Nat.and_two_pow_sub_one_eq_mod state 16
    split
    · rw [low]
    · rfl
  rw [limit_eq] at shrunkLt
  have freqLe := freq_le_range presents symbol
  have shrunkSmall :
      table.shrink digitBase stateScale symbol state < 2 ^ 32 := by
    have bound : table.freq symbol * 2 ^ 20 ≤ 4096 * 2 ^ 20 :=
      Nat.mul_le_mul_right _ freqLe
    omega
  rw [RangeAns.push, presents.total_eq] at pushed ⊢
  generalize
    table.shrink digitBase stateScale symbol state = shrunk
    at shrinkEq shrunkLt shrunkSmall pushed ⊢
  obtain ⟨fits, quotientEq⟩ := reciprocal_div possible freqLe shrunkLt
  have quotientLt : shrunk / table.freq symbol < 2 ^ 20 :=
    Nat.div_lt_of_lt_mul shrunkLt
  have multiply :
      mulU 64 shrunk info.ifreq =
        .ok (shrunk *
          ((2 ^ 44 + table.freq symbol - 1) / table.freq symbol)) := by
    rw [infoOf.ifreq_eq]
    exact mulU_ok fits
  have divide :
      (shrunk *
            ((2 ^ 44 + table.freq symbol - 1) / table.freq symbol)) >>>
          reciprocalPrecision =
        shrunk / table.freq symbol := by
    rw [Nat.shiftRight_eq_div_pow]
    exact quotientEq
  have narrow :
      castU 32 (shrunk / table.freq symbol) =
        .ok (shrunk / table.freq symbol) :=
    castU_ok (Nat.lt_trans quotientLt (by norm_num))
  have wholeLe :
      shrunk / table.freq symbol * table.freq symbol ≤ shrunk :=
    Nat.div_mul_le_self _ _
  have whole :
      mulU 32 (shrunk / table.freq symbol) info.freq =
        .ok (shrunk / table.freq symbol * table.freq symbol) := by
    rw [infoOf.freq_eq]
    exact mulU_ok (Nat.lt_of_le_of_lt wholeLe shrunkSmall)
  have position :
      subU shrunk (shrunk / table.freq symbol * table.freq symbol) =
        .ok (shrunk % table.freq symbol) := by
    rw [subU_ok wholeLe]
    congr 1
    have split := Nat.div_add_mod' shrunk (table.freq symbol)
    omega
  have slot :
      index info.reverseMap (shrunk % table.freq symbol) =
        .ok (table.slot symbol (shrunk % table.freq symbol)) :=
    index_eq_ok.2 (infoOf.slots _ (Nat.mod_lt _ possible))
  have scaled :
      shlU 32 (shrunk / table.freq symbol) AnsParams.ansLogTabSize =
        shrunk / table.freq symbol * AnsParams.ansTabSize := by
    refine shlU_eq ?_
    have bound :
        shrunk / table.freq symbol * 2 ^ AnsParams.ansLogTabSize <
          2 ^ 20 * 2 ^ AnsParams.ansLogTabSize :=
      Nat.mul_lt_mul_of_pos_right quotientLt (by positivity)
    exact bound
  have next :
      addU 32 (shrunk / table.freq symbol * AnsParams.ansTabSize)
          (table.slot symbol (shrunk % table.freq symbol)) =
        .ok
          (shrunk / table.freq symbol * AnsParams.ansTabSize +
            table.slot symbol (shrunk % table.freq symbol)) :=
    addU_ok pushed.2
  simp only [ANSCoder.putSymbol, decide_eq_true_eq, shrinkEq, multiply, divide, narrow, whole,
    position, slot, scaled, next, ok_bind, pure_eq_ok, emitted]

end Symbol

/-- The bits that a put of a symbol moves out of the state. -/
def digitBits
    (table : RangeAns Nat)
    (symbol state : Nat) :
    List Bool :=
  if table.limit digitBase stateScale symbol ≤ state then
    bitsOf 16 (state % digitBase)
  else
    []

/-- The symbol reader works on the tables of an ANS code without LZ77. -/
structure ReadsCode
    (symbolReader : ANSSymbolReader)
    (code : ANSCode) :
    Prop where
  tables :
    symbolReader.aliasTables = code.aliasTables
  degenerate :
    symbolReader.degenerateSymbols = code.degenerateSymbols
  configs :
    symbolReader.configs = code.uintConfig
  isAns :
    symbolReader.usePrefixCode = false
  logAlphaSize :
    symbolReader.logAlphaSize = code.logAlphaSize
  logEntrySize :
    symbolReader.logEntrySize =
      AnsParams.ansLogTabSize - code.logAlphaSize
  entrySizeMinus1 :
    symbolReader.entrySizeMinus1 =
      1 <<< (AnsParams.ansLogTabSize - code.logAlphaSize) - 1
  noWindow :
    symbolReader.lz77Window = none
  noCopy :
    symbolReader.numToCopy = 0
  threshold :
    symbolReader.lz77Threshold = 1 <<< 20

/-- A change of the state keeps the tables. -/
theorem ReadsCode.withState
    {symbolReader : ANSSymbolReader}
    {code : ANSCode}
    (reads : ReadsCode symbolReader code)
    (state : Nat) :
    ReadsCode { symbolReader with state } code :=
  ⟨reads.tables, reads.degenerate, reads.configs, reads.isAns,
    reads.logAlphaSize, reads.logEntrySize, reads.entrySizeMinus1,
    reads.noWindow, reads.noCopy, reads.threshold⟩

/-- `after` is `before` with `amount` counted bits consumed. -/
structure Consumed
    (before after : BitReader)
    (amount : Nat) :
    Prop where
  advanced :
    BitReader.Advanced before after amount
  stillCounted :
    after.bitsInBuf = before.bitsInBuf - amount

section Read

variable {table : RangeAns Nat}
variable {distribution : List Nat}
variable {buckets : List AliasTable.Entry}
variable {code : ANSCode}
variable {symbolReader : ANSSymbolReader}
variable {reader : BitReader}

/-- Reading a symbol pops it and takes the digit back in. -/
theorem readSymbolANS_ok
    {logAlphaSize histoIdx symbol state : Nat}
    {rest : List AliasTable.Entry}
    (presents : Presents table distribution logAlphaSize buckets)
    (reads : ReadsCode symbolReader code)
    (logEq : code.logAlphaSize = logAlphaSize)
    (logSmall : logAlphaSize ≤ AnsParams.ansLogTabSize)
    (bucketLength : buckets.length = 2 ^ logAlphaSize)
    (located :
      code.aliasTables.drop (histoIdx <<< code.logAlphaSize) =
        buckets ++ rest)
    (possible : 0 < table.freq symbol)
    (inRange : StateInRange state)
    (pushed :
      symbolReader.state =
        table.push symbol (table.shrink digitBase stateScale symbol state))
    (isOpen : reader.closeCalled = false)
    (counted : 16 ≤ reader.bitsInBuf)
    (served : Serves reader.source (digitBits table symbol state)) :
    ∃ after,
      symbolReader.readSymbolANSWithoutRefill histoIdx reader =
          .ok (symbol, { symbolReader with state }, after) ∧
        Consumed reader after (digitBits table symbol state).length := by
  subst logEq
  have abstractInRange := (inRange_iff presents state).2 inRange
  have fallsIff :=
    table.shrink_lt_iff symbol abstractInRange
  have restored :=
    table.shrink_restore symbol abstractInRange
  have enoughBase : table.total ≤ digitBase := by
    rw [presents.total_eq]
    decide
  have shrunkLt :=
    table.shrink_lt_limit possible enoughBase abstractInRange
  rw [limit_eq] at shrunkLt
  have lowerEq : table.total * stateScale = 2 ^ 16 := by
    rw [presents.total_eq]
    rfl
  rw [lowerEq] at fallsIff restored
  have shown := table.push_mod possible
    (table.shrink digitBase stateScale symbol state)
  have below := table.push_div possible
    (table.shrink digitBase stateScale symbol state)
  rw [presents.total_eq] at shown below
  rw [← pushed] at shown below
  generalize
    table.shrink digitBase stateScale symbol state = shrunk at *
  have offsetLt := Nat.mod_lt shrunk possible
  have freqLe := freq_le_range presents symbol
  have shrunkSmall : shrunk < 2 ^ 32 := by
    have bound : table.freq symbol * 2 ^ 20 ≤ 4096 * 2 ^ 20 :=
      Nat.mul_le_mul_right _ freqLe
    omega
  -- The slot that the state shows belongs to the symbol.
  have slotLt := table.slot_lt symbol _ offsetLt
  rw [presents.total_eq] at slotLt
  have answer :=
    presents.answers symbol (shrunk % table.freq symbol)
      (by rwa [← presents.freq_eq])
  have found :
      AliasTable.lookup
          (symbolReader.aliasTables.drop
            (histoIdx <<< symbolReader.logAlphaSize))
          (symbolReader.state &&& AnsParams.ansTabMask)
          symbolReader.logEntrySize symbolReader.entrySizeMinus1 =
        .ok
          { value := symbol
            offset := shrunk % table.freq symbol
            freq := table.freq symbol } := by
    have masked :
        symbolReader.state &&& AnsParams.ansTabMask =
          table.slot symbol (shrunk % table.freq symbol) := by
      rw [← shown]
      exact Nat.and_two_pow_sub_one_eq_mod symbolReader.state 12
    rw [masked, reads.tables, reads.logAlphaSize, reads.logEntrySize,
      reads.entrySizeMinus1, located,
      lookup_append rest logSmall bucketLength slotLt, presents.freq_eq]
    rw [presents.freq_eq] at answer
    exact answer
  have popped :
      table.freq symbol * (symbolReader.state >>> AnsParams.ansLogTabSize) +
          shrunk % table.freq symbol =
        shrunk := by
    rw [Nat.shiftRight_eq_div_pow,
      show 2 ^ AnsParams.ansLogTabSize = AnsParams.ansTabSize from rfl,
      below, Nat.div_add_mod]
  have peeked :=
    BitReader.peekBits_ok isOpen (show 16 ≤ BitReader.kMaxBitsPerCall by decide)
      counted
  by_cases emits : table.limit digitBase stateScale symbol ≤ state
  · have falls := fallsIff.2 emits
    have bitsEq : digitBits table symbol state =
        bitsOf 16 (state % digitBase) := by
      rw [digitBits, if_pos emits]
    rw [bitsEq] at served ⊢
    have digitLt : state % digitBase < 2 ^ 16 :=
      Nat.mod_lt _ (by decide)
    rw [valueAt_of_serves digitLt served] at peeked
    rw [if_pos falls] at restored
    have shifted : shlU 32 shrunk 16 ||| state % digitBase = state := by
      rw [shlU_eq (by omega), ← Nat.shiftLeft_eq,
        ← Nat.shiftLeft_add_eq_or_of_lt digitLt, Nat.shiftLeft_eq]
      exact restored
    obtain ⟨after, consumed, advanced, stillCounted⟩ :=
      BitReader.consume_ok isOpen counted
    refine ⟨after, ?_, by simpa using advanced, by simpa using stillCounted⟩
    have isLow : shrunk < 1 <<< 16 := falls
    simp only [ANSSymbolReader.readSymbolANSWithoutRefill, found, popped,
      castU_ok shrunkSmall, peeked, isLow, decide_true, if_true, consumed,
      ok_bind, pure_eq_ok, shifted]
  · have stays : ¬ shrunk < 2 ^ 16 :=
      fun falls => emits (fallsIff.1 falls)
    have bitsEq : digitBits table symbol state = [] := by
      rw [digitBits, if_neg emits]
    rw [bitsEq]
    rw [if_neg stays] at restored
    obtain ⟨after, consumed, advanced, stillCounted⟩ :=
      BitReader.consume_ok isOpen (Nat.zero_le reader.bitsInBuf)
    refine ⟨after, ?_, advanced, stillCounted⟩
    have notLow : ¬ shrunk < 1 <<< 16 := stays
    simp only [ANSSymbolReader.readSymbolANSWithoutRefill, found, popped,
      castU_ok shrunkSmall, peeked, notLow, decide_false, Bool.false_eq_true,
      if_false, consumed, ok_bind, pure_eq_ok]
    rw [restored]

/-- A symbol with the whole range leaves the coder state as it is. -/
theorem push_of_whole
    {logAlphaSize symbol state : Nat}
    (presents : Presents table distribution logAlphaSize buckets)
    (whole : countOf distribution symbol = AnsParams.ansTabSize)
    (inRange : StateInRange state) :
    digitBits table symbol state = [] ∧
      table.push symbol (table.shrink digitBase stateScale symbol state) =
        state := by
  have freqEq : table.freq symbol = 4096 := by
    rw [presents.freq_eq, whole]
    rfl
  have noDigit : ¬ table.limit digitBase stateScale symbol ≤ state := by
    rw [limit_eq, freqEq]
    have below := inRange.2
    omega
  constructor
  · rw [digitBits, if_neg noDigit]
  · have offsetLt : state % 4096 < AnsParams.ansTabSize :=
      Nat.mod_lt _ (by decide)
    rw [RangeAns.shrink, if_neg noDigit, RangeAns.push, freqEq,
      presents.inOrder symbol _ whole offsetLt, presents.total_eq]
    exact Nat.div_add_mod' state 4096

/-- Reading the extra bits of a token completes its value. -/
theorem readHybridUintConfigValue_ok
    {config : HybridUintConfig}
    {value : Nat}
    (fits : value < 2 ^ 32)
    (isOpen : reader.closeCalled = false)
    (counted : (config.encode value).nbits ≤ reader.bitsInBuf)
    (served :
      Serves reader.source
        (bitsOf (config.encode value).nbits (config.encode value).bits)) :
    ∃ after,
      readHybridUintConfigValue config (config.encode value).token reader =
          .ok (value, after) ∧
        BitReader.Advanced reader after (config.encode value).nbits := by
  have assembled := config.assemble_encode fits
  have extra := config.extraBits_encode fits
  by_cases direct : (config.encode value).token < config.splitToken
  · have noBits : (config.encode value).nbits = 0 := by
      rw [← extra, HybridUintConfig.extraBits, if_pos direct]
    rw [HybridUintConfig.assemble, if_pos direct] at assembled
    refine ⟨reader, ?_, ?_⟩
    · rw [readHybridUintConfigValue, if_pos direct, assembled]
      rfl
    · rw [noBits]
      exact ⟨rfl, rfl, rfl⟩
  · have short :
        (config.encode value).nbits ≤ BitReader.kMaxBitsPerCall :=
      Nat.le_trans (Nat.le_of_lt (config.encode_nbits_lt fits)) (by decide)
    have peeked := BitReader.peekBits_ok isOpen short counted
    rw [valueAt_of_serves (config.encode_bits_lt value) served] at peeked
    obtain ⟨after, consumed, advanced, _⟩ :=
      BitReader.consume_ok isOpen counted
    refine ⟨after, ?_, advanced⟩
    simp only [readHybridUintConfigValue, direct, if_false, extra, peeked,
      consumed, ok_bind, pure_eq_ok, assembled]

end Read

/-! A value survives its token and its extra bits. -/

/-- What is promised of the token and of the extra bits of a value. -/
structure HybridUintConfig.Preserves
    (config : HybridUintConfig)
    (value : Nat) :
    Prop where
  token : (config.encode value).token < 2 ^ 32
  nbits : (config.encode value).nbits ≤ 31
  bits : (config.encode value).bits < 2 ^ (config.encode value).nbits
  ordered :
    ∀ other : Nat,
      value.size < other.size →
      (config.encode value).token < (config.encode other).token
  decoded :
    ∀ peekBits,
      peekBits % 2 ^ (config.encode value).nbits = (config.encode value).bits →
      config.decode (config.encode value).token peekBits =
        (value, (config.encode value).nbits)
  read :
    ∀ reader : BitReader,
      reader.closeCalled = false →
      (config.encode value).nbits ≤ reader.bitsInBuf →
      Serves reader.source
          (bitsOf (config.encode value).nbits (config.encode value).bits) →
      ∃ after,
        readHybridUintConfigValue config (config.encode value).token reader =
            .ok (value, after) ∧
          BitReader.Advanced reader after (config.encode value).nbits

/-- Decoding with any bits behind the extra ones returns the value. -/
theorem HybridUintConfig.decode_encode
    (config : HybridUintConfig)
    {value peekBits : Nat}
    (fits : value < 2 ^ 32)
    (peeked :
      peekBits % 2 ^ (config.encode value).nbits = (config.encode value).bits) :
    config.decode (config.encode value).token peekBits =
      (value, (config.encode value).nbits) := by
  unfold HybridUintConfig.decode
  rw [config.extraBits_encode fits, Nat.one_shiftLeft, Nat.and_two_pow_sub_one_eq_mod,
    peeked, config.assemble_encode fits]

theorem HybridUintConfig.preserves_value
    (config : HybridUintConfig)
    {value : Nat}
    (fits : value < 2 ^ 32) :
    config.Preserves value := by
  refine ⟨config.encode_token_lt fits, Nat.le_of_lt_succ (config.encode_nbits_lt fits),
    config.encode_bits_lt value, ?_, ?_, ?_⟩
  · intro other longer
    exact config.encode_token_lt_of_size longer
  · intro peekBits peeked
    exact config.decode_encode fits peeked
  · intro reader isOpen counted served
    exact readHybridUintConfigValue_ok fits isOpen counted served

theorem HybridUintConfig.preserves_largest :
    2 ^ 32 - 1 < 2 ^ 32 ∧ HybridUintConfig.initDefault.Preserves (2 ^ 32 - 1) :=
  ⟨by decide, HybridUintConfig.initDefault.preserves_value (by decide)⟩

end Jxlz
