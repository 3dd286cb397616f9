import Jxlz.Entropy.AnsSymbol

namespace Jxlz

open BitString

/-!
# The ANS token stream round trip

The writer's loop runs over the tokens backwards.  Its invariant `Decodes` is
about the reader: whatever reader starts at the bits and the state collected so
far returns the tokens visited so far and ends with the checksum state.
-/

namespace ReversedBits

/-- The packed bits, in the order in which they are written. -/
def bits
    (self : ReversedBits) :
    List Bool :=
  bitsOf self.numallbits self.allbits ++
    (self.out.map (fun chunk => bitsOf chunk.nbits chunk.bits)).flatten

/-- No chunk is too long for one write, and the open chunk has no stray bits. -/
structure Packed
    (buffer : ReversedBits) :
    Prop where
  short :
    buffer.numallbits ≤ BitWriter.kMaxBitsPerCall
  fits :
    buffer.allbits < 2 ^ buffer.numallbits
  chunks :
    ∀ chunk ∈ buffer.out, chunk.nbits ≤ BitWriter.kMaxBitsPerCall

/-- Shifting bits in below the open chunk puts them in front. -/
private theorem append_open
    {self : ReversedBits}
    {bits nbits : Nat}
    (packed : self.Packed)
    (room : self.numallbits + nbits ≤ BitWriter.kMaxBitsPerCall)
    (fits : bits < 2 ^ nbits) :
    Packed
        { self with
          allbits := shlU 64 self.allbits nbits ||| bits
          numallbits := self.numallbits + nbits } ∧
      ReversedBits.bits
          { self with
            allbits := shlU 64 self.allbits nbits ||| bits
            numallbits := self.numallbits + nbits } =
        bitsOf nbits bits ++ self.bits := by
  have grown : self.allbits * 2 ^ nbits < 2 ^ (self.numallbits + nbits) := by
    rw [Nat.pow_add]
    exact Nat.mul_lt_mul_of_pos_right packed.fits (by positivity)
  have inWord : 2 ^ (self.numallbits + nbits) ≤ 2 ^ 64 := by
    refine Nat.pow_le_pow_right (by decide) ?_
    exact Nat.le_trans room (by decide)
  have shifted : shlU 64 self.allbits nbits = self.allbits <<< nbits := by
    rw [shlU_eq (by omega), Nat.shiftLeft_eq]
  constructor
  · refine ⟨room, ?_, packed.chunks⟩
    simp only [shifted]
    rw [← Nat.shiftLeft_add_eq_or_of_lt fits, Nat.shiftLeft_eq]
    have whole : (self.allbits + 1) * 2 ^ nbits ≤
        2 ^ self.numallbits * 2 ^ nbits :=
      Nat.mul_le_mul_right _ packed.fits
    rw [Nat.pow_add]
    rw [Nat.succ_mul] at whole
    omega
  · simp only [ReversedBits.bits, shifted]
    rw [Nat.add_comm, bitsOf_append fits, List.append_assoc]

/-- Packing bits puts them in front of the ones packed before. -/
theorem addReversedBits_ok
    {self : ReversedBits}
    {bits nbits : Nat}
    (packed : self.Packed)
    (short : nbits ≤ BitWriter.kMaxBitsPerCall)
    (fits : bits < 2 ^ nbits)
    (room : self.out.length < self.capacity) :
    ∃ after,
      addReversedBits self bits nbits = .ok after ∧
        after.Packed ∧
        after.bits = bitsOf nbits bits ++ self.bits ∧
        after.capacity = self.capacity ∧
        after.out.length ≤ self.out.length + 1 := by
  by_cases empty : nbits = 0
  · subst empty
    exact ⟨self, rfl, packed, by simp, rfl, Nat.le_succ _⟩
  · have noStray : bits >>> nbits = 0 := by
      rw [Nat.shiftRight_eq_div_pow, Nat.div_eq_of_lt fits]
    by_cases full : BitWriter.kMaxBitsPerCall < self.numallbits + nbits
    · -- The open chunk is closed and a new one started.
      let closed : ReversedBits :=
        { self with
          out := { bits := self.allbits, nbits := self.numallbits } :: self.out
          allbits := 0
          numallbits := 0 }
      have closedPacked : closed.Packed := by
        refine ⟨Nat.zero_le _, Nat.one_pos, ?_⟩
        intro chunk member
        rcases List.mem_cons.1 member with isNew | old
        · rw [isNew]
          exact packed.short
        · exact packed.chunks chunk old
      have closedBits : closed.bits = self.bits := by
        simp [closed, ReversedBits.bits]
      obtain ⟨packed', bits'⟩ :=
        append_open closedPacked (by simpa [closed] using short) fits
      refine ⟨_, ?_, packed', by rw [bits', closedBits], rfl, Nat.le_refl _⟩
      simp only [addReversedBits, empty, if_false, require_ok noStray, full,
        if_true, require_ok room, ok_bind, pure_eq_ok]
      rfl
    · obtain ⟨packed', bits'⟩ :=
        append_open packed (Nat.le_of_not_lt full) fits
      refine ⟨_, ?_, packed', bits', rfl, Nat.le_succ _⟩
      simp only [addReversedBits, empty, if_false, require_ok noStray, full,
        ok_bind, pure_eq_ok]

end ReversedBits

/-- Writing chunks in order appends their bits. -/
theorem writeChunks_ok
    (chunks : List ReversedChunk)
    (writer : BitWriter)
    (short :
      ∀ chunk ∈ chunks, chunk.nbits ≤ BitWriter.kMaxBitsPerCall) :
    ∃ after,
      chunks.foldlM
          (fun writer chunk => writer.write chunk.nbits chunk.bits) writer =
          .ok after ∧
        after.bits =
          writer.bits ++
            (chunks.map (fun chunk => bitsOf chunk.nbits chunk.bits)).flatten
        := by
  induction chunks generalizing writer with
  | nil =>
      exact ⟨writer, rfl, by simp⟩
  | cons chunk others inductionHypothesis =>
      obtain ⟨next, wrote, appended⟩ :=
        writer.write_ok chunk.bits (short chunk List.mem_cons_self)
      obtain ⟨after, run, appended'⟩ :=
        inductionHypothesis next
          (fun other member => short other (List.mem_cons_of_mem _ member))
      refine ⟨after, ?_, ?_⟩
      · simp only [List.foldlM_cons, wrote, ok_bind]
        exact run
      · simp [appended', appended]

section RoundTrip

variable {logAlphaSize : Nat}

/-- A token can be coded: its symbol occurs in the histogram of its context. -/
def Supported
    (histograms : List (NormalizedCounts logAlphaSize))
    (contextMap : List Nat)
    (uintConfigs : List HybridUintConfig)
    (token : Token) :
    Prop :=
  token.isLz77Length = false ∧
    ∃ cluster histogram config,
      contextMap[token.context.toNat]? = some cluster ∧
        histograms[cluster]? = some histogram ∧
        uintConfigs[cluster]? = some config ∧
        0 < countOf histogram.counts
          (config.encode token.value.toNat).token

/-- The encoder's tables of all histograms. -/
def EncoderTables
    (histograms : List (NormalizedCounts logAlphaSize))
    (infos : List (List ANSEncSymbolInfo)) :
    Prop :=
  infos.length = histograms.length ∧
    ∀ (cluster : Nat) (histogram : NormalizedCounts logAlphaSize),
      histograms[cluster]? = some histogram →
      ∃ info,
        infos[cluster]? = some info ∧
          buildANSEncSymbolInfoTable histogram.counts logAlphaSize =
            .ok info

/-- Building the encoder's tables of normalized histograms succeeds. -/
theorem encoderTables_ok
    (logLarge : 4 ≤ logAlphaSize)
    (logSmall : logAlphaSize ≤ 8)
    (histograms : List (NormalizedCounts logAlphaSize)) :
    ∃ infos,
      (histograms.map NormalizedCounts.counts).mapM
          (fun counts => buildANSEncSymbolInfoTable counts logAlphaSize) =
          .ok infos ∧
        EncoderTables histograms infos := by
  have built :
      ∀ histogram : NormalizedCounts logAlphaSize,
        ∃ info,
          buildANSEncSymbolInfoTable histogram.counts logAlphaSize =
            .ok info := by
    intro histogram
    obtain ⟨_, info, _, run, _⟩ := histogram.tables_ok logLarge logSmall
    exact ⟨info, run⟩
  choose infoOf infoBuilt using built
  refine ⟨histograms.map infoOf, ?_, by simp, ?_⟩
  · induction histograms with
    | nil =>
        rfl
    | cons histogram others inductionHypothesis =>
        simp only [List.map_cons, List.mapM_cons, infoBuilt, ok_bind,
          inductionHypothesis, pure_eq_ok]
  · intro cluster histogram isHistogram
    exact ⟨infoOf histogram, by simp [isHistogram], infoBuilt histogram⟩

/-- Where the decoder finds the table of a cluster. -/
structure DecoderTables
    (histograms : List (NormalizedCounts logAlphaSize))
    (uintConfigs : List HybridUintConfig)
    (code : ANSCode) :
    Prop where
  located :
    ∀ (cluster : Nat) (histogram : NormalizedCounts logAlphaSize),
      histograms[cluster]? = some histogram →
      ∃ rest,
        code.aliasTables.drop (cluster <<< code.logAlphaSize) =
          histogram.buckets ++ rest
  degenerate :
    ∀ (cluster : Nat) (histogram : NormalizedCounts logAlphaSize),
      histograms[cluster]? = some histogram →
      code.degenerateSymbols[cluster]? =
        some (DecodeHistograms.degenerateSymbol histogram.counts)
  configs :
    code.uintConfig = uintConfigs
  logAlphaSize_eq :
    code.logAlphaSize = logAlphaSize
  isAns :
    code.usePrefixCode = false
  noLz77 :
    code.lz77 = {}

/-- The loaded tables of all histograms are found where the reader looks. -/
theorem decoderTables_of_loaded
    {histograms : List (NormalizedCounts logAlphaSize)}
    {uintConfigs : List HybridUintConfig}
    {code : ANSCode}
    {rest : List AliasTable.Entry}
    (loaded :
      DecodeHistograms.Loaded (histograms.map NormalizedCounts.buckets)
        logAlphaSize code (histograms.map NormalizedCounts.counts) uintConfigs
        rest 0) :
    DecoderTables histograms uintConfigs code where
  located := by
    intro cluster histogram isHistogram
    have isBuckets :
        (histograms.map NormalizedCounts.buckets)[cluster]? =
          some histogram.buckets := by
      simp [isHistogram]
    obtain ⟨rest', dropped⟩ :=
      DecodeHistograms.flatten_drop loaded.bucketLengths rest isBuckets
    refine ⟨rest', ?_⟩
    rw [loaded.tables, loaded.logAlphaSize_eq, Nat.shiftLeft_eq]
    exact dropped
  degenerate := by
    intro cluster histogram isHistogram
    rw [loaded.degenerate]
    simp [isHistogram]
  configs := loaded.config_eq
  logAlphaSize_eq := loaded.logAlphaSize_eq
  isAns := loaded.isAns
  noLz77 := loaded.noLz77

section Token

variable {histograms : List (NormalizedCounts logAlphaSize)}
variable {uintConfigs : List HybridUintConfig}
variable {contextMap : List Nat}
variable {code : ANSCode}
variable {table : RangeAns Nat}
variable {cluster symbol state : Nat}
variable {histogram : NormalizedCounts logAlphaSize}
variable {symbolReader : ANSSymbolReader}
variable {reader : BitReader}

/-- The symbol on top of the state is read, by the shortcut where there is one. -/
theorem readSymbol_ok
    (logLarge : 4 ≤ logAlphaSize)
    (logSmall : logAlphaSize ≤ 8)
    (decoder : DecoderTables histograms uintConfigs code)
    (isHistogram : histograms[cluster]? = some histogram)
    (presents : Presents table histogram.counts logAlphaSize histogram.buckets)
    (reads : ReadsCode symbolReader code)
    (occurs : 0 < countOf histogram.counts symbol)
    (inRange : StateInRange state)
    (pushed :
      symbolReader.state =
        table.push symbol (table.shrink digitBase stateScale symbol state))
    (isOpen : reader.closeCalled = false)
    (counted : 16 ≤ reader.bitsInBuf)
    (served : Serves reader.source (digitBits table symbol state)) :
    ∃ after,
      symbolReader.readSymbolWithoutRefill cluster reader =
          .ok (symbol, { symbolReader with state }, after) ∧
        Consumed reader after (digitBits table symbol state).length := by
  have atCluster := decoder.degenerate cluster histogram isHistogram
  rw [← reads.degenerate] at atCluster
  by_cases isDegenerate :
      0 ≤ DecodeHistograms.degenerateSymbol histogram.counts
  · -- The symbol has the whole range: the state does not change.
    obtain ⟨whole, onlyOne⟩ :=
      DecodeHistograms.countOf_degenerateSymbol histogram.normalized
        isDegenerate
    have isSymbol := onlyOne symbol occurs
    rw [← isSymbol] at whole
    obtain ⟨noDigit, unchanged⟩ := push_of_whole presents whole inRange
    have sameState : { symbolReader with state } = symbolReader := by
      rw [unchanged] at pushed
      rw [← pushed]
    refine ⟨reader, ?_, ?_⟩
    · rw [sameState]
      simp only [ANSSymbolReader.readSymbolWithoutRefill,
        ANSSymbolReader.degenerateSymbol?, atCluster, isDegenerate, if_true,
        isSymbol, pure_eq_ok]
    · rw [noDigit]
      exact ⟨⟨rfl, rfl, rfl⟩, rfl⟩
  · obtain ⟨rest, located⟩ := decoder.located cluster histogram isHistogram
    have possible : 0 < table.freq symbol := by
      rwa [presents.freq_eq]
    have logInTable : logAlphaSize ≤ AnsParams.ansLogTabSize :=
      Nat.le_trans logSmall (by decide)
    obtain ⟨after, read, consumed⟩ :=
      readSymbolANS_ok presents reads decoder.logAlphaSize_eq logInTable
        (histogram.buckets_ok logLarge logSmall).1 located possible inRange
        pushed isOpen counted served
    refine ⟨after, ?_, consumed⟩
    simpa only [ANSSymbolReader.readSymbolWithoutRefill,
      ANSSymbolReader.degenerateSymbol?, atCluster, isDegenerate, if_false,
      reads.isAns, Bool.false_eq_true] using read

/-- A supported token is read back from the bits that coding it put in front. -/
theorem readHybridUint_ok
    {context value : Nat}
    {config : HybridUintConfig}
    (logLarge : 4 ≤ logAlphaSize)
    (logSmall : logAlphaSize ≤ 8)
    (decoder : DecoderTables histograms uintConfigs code)
    (isHistogram : histograms[cluster]? = some histogram)
    (isCluster : contextMap[context]? = some cluster)
    (isConfig : uintConfigs[cluster]? = some config)
    (presents : Presents table histogram.counts logAlphaSize histogram.buckets)
    (reads : ReadsCode symbolReader code)
    (fits : value < 2 ^ 32)
    (occurs : 0 < countOf histogram.counts (config.encode value).token)
    (inRange : StateInRange state)
    (pushed :
      symbolReader.state =
        table.push (config.encode value).token
          (table.shrink digitBase stateScale (config.encode value).token
            state))
    (isOpen : reader.closeCalled = false)
    (served :
      Serves reader.source
        (digitBits table (config.encode value).token state ++
          bitsOf (config.encode value).nbits (config.encode value).bits)) :
    ∃ after,
      symbolReader.readHybridUint context reader contextMap =
          .ok (value, { symbolReader with state }, after) ∧
        BitReader.Advanced reader after
          ((digitBits table (config.encode value).token state).length +
            (config.encode value).nbits) := by
  have refilled := reader.refill_advanced
  have full := reader.refill_full
  have refilledOpen : reader.refill.closeCalled = false :=
    refilled.sameClose.trans isOpen
  have sameSource : reader.refill.source = reader.source := by
    rw [refilled.source_eq, advance_zero]
  obtain ⟨digitServed, extraServed⟩ := serves_append.1 served
  rw [← sameSource] at digitServed
  have counted : 16 ≤ reader.refill.bitsInBuf :=
    Nat.le_trans (by decide) full
  obtain ⟨middle, readSymbol, consumed⟩ :=
    readSymbol_ok logLarge logSmall decoder isHistogram presents reads occurs
      inRange pushed refilledOpen counted digitServed
  have digitShort :
      (digitBits table (config.encode value).token state).length ≤ 16 := by
    rw [digitBits]
    split
    · simp
    · simp
  have middleOpen : middle.closeCalled = false :=
    consumed.advanced.sameClose.trans refilledOpen
  -- At least 40 counted bits are left for at most 31 extra bits.
  have extraCounted : (config.encode value).nbits ≤ middle.bitsInBuf := by
    have enough : 56 ≤ reader.refill.bitsInBuf := full
    have short := config.encode_nbits_lt fits
    rw [consumed.stillCounted]
    omega
  have middleServed :
      Serves middle.source
        (bitsOf (config.encode value).nbits (config.encode value).bits) := by
    rw [consumed.advanced.source_eq, sameSource]
    exact extraServed
  obtain ⟨after, readValue, advanced⟩ :=
    readHybridUintConfigValue_ok fits middleOpen extraCounted middleServed
  have symbolSmall : (config.encode value).token < 1 <<< 20 := by
    have inside := countOf_pos_lt_length occurs
    have alphabet : 2 ^ logAlphaSize ≤ 2 ^ 8 :=
      Nat.pow_le_pow_right (by decide) logSmall
    have short := histogram.short
    have threshold : 2 ^ 8 ≤ 1 <<< 20 := by
      decide
    omega
  have notLength :
      ¬ (True ∧ 1 <<< 20 ≤ (config.encode value).token) := by
    omega
  refine ⟨after, ?_, ?_⟩
  · have readConfig : index symbolReader.configs cluster = .ok config := by
      rw [reads.configs, decoder.configs]
      exact index_eq_ok.2 isConfig
    simp only [ANSSymbolReader.readHybridUint, index_eq_ok.2 isCluster,
      ANSSymbolReader.readHybridUintClustered, reads.noCopy, readSymbol,
      reads.threshold, notLength, readConfig, readValue, ok_bind, pure_eq_ok,
      Nat.lt_irrefl, and_false, if_false, if_true,
      ANSSymbolReader.recordValue, reads.noWindow]
  · simpa using refilled.trans (consumed.advanced.trans advanced)

end Token

/--
The invariant of the writer's loop: every reader that starts with the state
and the bits collected so far returns the values of the tokens visited so far.
-/
structure Decodes
    (code : ANSCode)
    (contextMap : List Nat)
    (tokens : List Token)
    (loop : TokenLoop) :
    Prop where
  packed :
    loop.buffer.Packed
  inRange :
    StateInRange loop.ans.state
  readBack :
    ∀ (symbolReader : ANSSymbolReader) (reader : BitReader),
      ReadsCode symbolReader code →
      symbolReader.state = loop.ans.state →
      reader.closeCalled = false →
      Serves reader.source loop.buffer.bits →
      ∃ after,
        symbolReader.readHybridUints reader contextMap
            (tokens.map (fun token => token.context.toNat)) =
            .ok
              (tokens.map (fun token => token.value.toNat),
                { symbolReader with
                  state := AnsParams.ansSignature <<< 16 },
                after) ∧
          BitReader.Advanced reader after loop.buffer.bits.length

/-- Before the first round nothing has been coded. -/
theorem decodes_initial
    (code : ANSCode)
    (contextMap : List Nat)
    (capacity : Nat) :
    Decodes code contextMap [] { buffer := { capacity } } where
  packed := ⟨Nat.zero_le _, Nat.one_pos, by simp⟩
  inRange := stateInRange_initial
  readBack := by
    intro symbolReader reader _ sameState _ _
    refine ⟨reader, ?_, ?_⟩
    · simp only [ANSSymbolReader.readHybridUints, List.map_nil, pure_eq_ok]
      rw [show AnsParams.ansSignature <<< 16 = symbolReader.state from
        sameState.symm]
    · simpa [ReversedBits.bits] using
        (⟨rfl, rfl, rfl⟩ : BitReader.Advanced reader reader 0)

section Loop

variable {histograms : List (NormalizedCounts logAlphaSize)}
variable {uintConfigs : List HybridUintConfig}
variable {contextMap : List Nat}
variable {infos : List (List ANSEncSymbolInfo)}
variable {code : ANSCode}

/-- One round of the writer's loop keeps the invariant. -/
theorem step_ok
    {token : Token}
    {tokens : List Token}
    {loop : TokenLoop}
    (logLarge : 4 ≤ logAlphaSize)
    (logSmall : logAlphaSize ≤ 8)
    (encoder : EncoderTables histograms infos)
    (decoder : DecoderTables histograms uintConfigs code)
    (supported : Supported histograms contextMap uintConfigs token)
    (room : loop.buffer.out.length + 2 ≤ loop.buffer.capacity)
    (decodes : Decodes code contextMap tokens loop) :
    ∃ next,
      TokenLoop.step infos contextMap uintConfigs token loop = .ok next ∧
        next.buffer.capacity = loop.buffer.capacity ∧
        next.buffer.out.length ≤ loop.buffer.out.length + 2 ∧
        Decodes code contextMap (token :: tokens) next := by
  obtain ⟨notLength, cluster, histogram, config, isCluster, isHistogram,
    isConfig, occurs⟩ := supported
  obtain ⟨info, isInfo, built⟩ := encoder.2 cluster histogram isHistogram
  obtain ⟨table, info', presents, built', infoLength, entries⟩ :=
    histogram.tables_ok logLarge logSmall
  rw [built] at built'
  obtain rfl : info = info' := by
    injection built'
  obtain ⟨symbolInfo, isSymbolInfo, infoOf⟩ := entries _ occurs
  have fits : token.value.toNat < 2 ^ 32 :=
    token.value.toNat_lt
  have possible :
      0 < table.freq (config.encode token.value.toNat).token := by
    rwa [presents.freq_eq]
  -- The extra bits, then the digit that makes room for the symbol.
  obtain ⟨middle, packedExtra, middlePacked, middleBits, middleCapacity,
      middleLength⟩ :=
    ReversedBits.addReversedBits_ok decodes.packed
      (Nat.le_trans (Nat.le_of_lt (config.encode_nbits_lt fits)) (by decide))
      (config.encode_bits_lt token.value.toNat)
      (show loop.buffer.out.length < loop.buffer.capacity by omega)
  have put := putSymbol_ok presents possible infoOf decodes.inRange
  obtain ⟨final, packedDigit, finalPacked, finalBits, finalCapacity,
      finalLength⟩ :
      ∃ final,
        addReversedBits middle
            (if table.limit digitBase stateScale
                  (config.encode token.value.toNat).token ≤
                loop.ans.state then
              ({ bits := loop.ans.state % digitBase, nbits := 16 } :
                ANSCoder.PutResult)
            else
              { bits := 0, nbits := 0 }).bits
            (if table.limit digitBase stateScale
                  (config.encode token.value.toNat).token ≤
                loop.ans.state then
              ({ bits := loop.ans.state % digitBase, nbits := 16 } :
                ANSCoder.PutResult)
            else
              { bits := 0, nbits := 0 }).nbits =
            .ok final ∧
          final.Packed ∧
          final.bits =
            digitBits table (config.encode token.value.toNat).token
                loop.ans.state ++
              middle.bits ∧
          final.capacity = middle.capacity ∧
          final.out.length ≤ middle.out.length + 1 := by
    unfold digitBits
    split
    · exact ReversedBits.addReversedBits_ok middlePacked
        (show 16 ≤ BitWriter.kMaxBitsPerCall by decide)
        (Nat.mod_lt _ (by decide)) (by omega)
    · exact ⟨middle, rfl, middlePacked, rfl, rfl, Nat.le_succ _⟩
  have infoInside : ¬ info.length ≤ (config.encode token.value.toNat).token :=
    by
      have inside := (List.getElem?_eq_some_iff.1 isSymbolInfo).1
      omega
  have mapInside : ¬ contextMap.length ≤ token.context.toNat := by
    have inside := (List.getElem?_eq_some_iff.1 isCluster).1
    omega
  have clusterInside : ¬ infos.length ≤ cluster := by
    have inside := (List.getElem?_eq_some_iff.1 isInfo).1
    omega
  refine
    ⟨{ buffer := final
       numExtraBits :=
        loop.numExtraBits + (config.encode token.value.toNat).nbits
       ans :=
        { state :=
            table.push (config.encode token.value.toNat).token
              (table.shrink digitBase stateScale
                (config.encode token.value.toNat).token loop.ans.state) } },
      ?_, by rw [finalCapacity, middleCapacity], by simp only; omega, ?_⟩
  · simp only [TokenLoop.step, notLength, Bool.false_eq_true, mapInside,
      or_self, if_false, index_eq_ok.2 isCluster, clusterInside,
      index_eq_ok.2 isConfig, index_eq_ok.2 isInfo, infoInside, packedExtra,
      index_eq_ok.2 isSymbolInfo, put, packedDigit, ok_bind, pure_eq_ok]
  · refine ⟨finalPacked, ?_, ?_⟩
    · have enoughBase : table.total ≤ digitBase := by
        rw [presents.total_eq]
        decide
      exact (inRange_iff presents _).1
        (table.push_inRange possible enoughBase (by decide)
          ((inRange_iff presents _).2 decodes.inRange))
    · intro symbolReader reader reads sameState isOpen served
      rw [finalBits, middleBits, ← List.append_assoc] at served
      obtain ⟨tokenServed, restServed⟩ := serves_append.1 served
      obtain ⟨between, readToken, advanced⟩ :=
        readHybridUint_ok logLarge logSmall decoder isHistogram isCluster
          isConfig presents reads fits occurs decodes.inRange sameState isOpen
          tokenServed
      have tokenLength :
          (digitBits table (config.encode token.value.toNat).token
                  loop.ans.state ++
                bitsOf (config.encode token.value.toNat).nbits
                  (config.encode token.value.toNat).bits).length =
            (digitBits table (config.encode token.value.toNat).token
                loop.ans.state).length +
              (config.encode token.value.toNat).nbits := by
        simp
      rw [tokenLength, ← advanced.source_eq] at restServed
      obtain ⟨after, readRest, advanced'⟩ :=
        decodes.readBack { symbolReader with state := loop.ans.state } between
          (reads.withState _) rfl (advanced.sameClose.trans isOpen) restServed
      refine ⟨after, ?_, ?_⟩
      · simp only [List.map_cons, ANSSymbolReader.readHybridUints, readToken,
          readRest, ok_bind, pure_eq_ok]
      · have whole := advanced.trans advanced'
        rw [finalBits, middleBits, ← List.append_assoc, List.length_append,
          tokenLength]
        exact whole

/-- The whole loop keeps the invariant and never outgrows its buffer. -/
theorem loop_ok
    {tokens : List Token}
    {capacity : Nat}
    (logLarge : 4 ≤ logAlphaSize)
    (logSmall : logAlphaSize ≤ 8)
    (encoder : EncoderTables histograms infos)
    (decoder : DecoderTables histograms uintConfigs code)
    (supported :
      ∀ token ∈ tokens, Supported histograms contextMap uintConfigs token)
    (enough : tokens.length * 2 ≤ capacity) :
    ∃ coded,
      tokens.foldrM (TokenLoop.step infos contextMap uintConfigs)
          { buffer := { capacity } } =
          .ok coded ∧
        coded.buffer.capacity = capacity ∧
        coded.buffer.out.length ≤ tokens.length * 2 ∧
        Decodes code contextMap tokens coded := by
  induction tokens with
  | nil =>
      exact ⟨_, rfl, rfl, Nat.le_refl _, decodes_initial code contextMap _⟩
  | cons token rest inductionHypothesis =>
      simp only [List.length_cons, Nat.succ_mul] at enough
      obtain ⟨loop, run, sameCapacity, length, decodes⟩ :=
        inductionHypothesis
          (fun other member =>
            supported other (List.mem_cons_of_mem _ member))
          (by omega)
      obtain ⟨next, step, nextCapacity, nextLength, decodes'⟩ :=
        step_ok logLarge logSmall encoder decoder
          (supported token List.mem_cons_self) (by omega) decodes
      refine ⟨next, ?_, nextCapacity.trans sameCapacity, ?_, decodes'⟩
      · rw [List.foldrM_cons, run, ok_bind, step]
      · rw [List.length_cons, Nat.succ_mul]
        omega

end Loop

/-- The reader of a code without LZ77, once the state has been read. -/
theorem create_ok
    {code : ANSCode}
    {reader : BitReader}
    {state : Nat}
    (isAns : code.usePrefixCode = false)
    (noLz77 : code.lz77 = {})
    (logSmall : code.logAlphaSize ≤ AnsParams.ansLogTabSize)
    (stateFits : state < 2 ^ 32)
    (isOpen : reader.closeCalled = false)
    (served : Serves reader.source (bitsOf 32 state))
    (distanceMultiplier : Nat) :
    ∃ symbolReader after,
      ANSSymbolReader.create code reader distanceMultiplier =
          .ok (symbolReader, after) ∧
        ReadsCode symbolReader code ∧
        symbolReader.state = state ∧
        BitReader.Advanced reader after 32 := by
  obtain ⟨after, read, advanced⟩ :=
    BitReader.readBits_of_serves isOpen (by decide) stateFits served
  refine ⟨_, after, by
    simp only [ANSSymbolReader.create, isAns, Bool.false_eq_true, if_false,
      read, subU_ok logSmall, ok_bind, pure_eq_ok, noLz77]
    rfl, ?_, rfl, advanced⟩
  exact ⟨rfl, rfl, rfl, rfl, rfl, rfl, rfl, rfl, rfl, rfl⟩

/-- What a writer that has coded the tokens of a loop has appended. -/
theorem write_ok_of_coded
    (writer : BitWriter)
    {coded : TokenLoop}
    (packed : coded.buffer.Packed)
    (pendingBits : Nat) :
    ∃ written : BitWriter,
      (do
          let writer : BitWriter ←
            (writer.ensureUnusedCapacityBits pendingBits).write 32
              coded.ans.state
          let writer : BitWriter ←
            writer.write coded.buffer.numallbits coded.buffer.allbits
          coded.buffer.out.foldlM
            (fun (writer : BitWriter) (chunk : ReversedChunk) =>
              writer.write chunk.nbits chunk.bits)
            writer) =
          .ok written ∧
        written.bits =
          writer.bits ++ (bitsOf 32 coded.ans.state ++ coded.buffer.bits) := by
  obtain ⟨first, wroteState, stateBits⟩ :=
    (writer.ensureUnusedCapacityBits pendingBits).write_ok coded.ans.state
      (show 32 ≤ BitWriter.kMaxBitsPerCall by decide)
  obtain ⟨second, wroteOpen, openBits⟩ :=
    first.write_ok coded.buffer.allbits packed.short
  obtain ⟨written, wroteChunks, chunkBits⟩ :=
    writeChunks_ok coded.buffer.out second packed.chunks
  refine ⟨written, ?_, ?_⟩
  · simp only [wroteState, wroteOpen, ok_bind]
    exact wroteChunks
  · simp only [chunkBits, openBits, stateBits,
      BitWriter.bits_ensureUnusedCapacityBits, ReversedBits.bits,
      List.append_assoc]

/-- A reader positioned at written bits serves them. -/
theorem serves_of_written
    {writer written : BitWriter}
    {reader : BitReader}
    {appended : List Bool}
    (writtenBits : written.bits = writer.bits ++ appended)
    (position : reader.totalBitsConsumed = writer.bitsWritten)
    (sameBits :
      ∀ place,
        writer.bitsWritten ≤ place →
        place < written.bitsWritten →
        bitAt reader.data place = bitAt written.storage place) :
    Serves reader.source appended := by
  intro offset inside
  have total : written.bitsWritten = writer.bitsWritten + appended.length := by
    rw [← written.length_bits, writtenBits, List.length_append,
      writer.length_bits]
  have atPlace :
      written.bits[writer.bitsWritten + offset]? = some appended[offset] := by
    rw [writtenBits, List.getElem?_append_right (by simp)]
    simp [inside]
  rw [BitReader.source, advance, position,
    sameBits _ (Nat.le_add_right _ _) (by omega)]
  have spelled :
      written.bits[writer.bitsWritten + offset]? =
        some (bitAt written.storage (writer.bitsWritten + offset)) := by
    have inWritten : writer.bitsWritten + offset < written.bitsWritten := by
      omega
    simp [BitWriter.bits, inWritten]
  rw [spelled] at atPlace
  exact Option.some.inj atPlace

/--
The ANS token stream round trip.  The encoder's tables and the decoder's code
are built from the same normalized histograms; a reader positioned at the bits
that the writer appended returns every token value in order, ends in the
checksum state and has consumed exactly those bits, whatever else its data
holds before and after them.
-/
theorem writeContextualHistogramTokens_roundTrip
    (logLarge : 5 ≤ logAlphaSize)
    (logSmall : logAlphaSize ≤ 8)
    (tokens : List Token)
    (contextMap : List Nat)
    (histograms : List (NormalizedCounts logAlphaSize))
    (uintConfigs : List HybridUintConfig)
    (oneConfigEach : uintConfigs.length = histograms.length)
    (supported :
      ∀ token ∈ tokens, Supported histograms contextMap uintConfigs token)
    (writer : BitWriter)
    (memory : List AliasTable.Entry)
    (enoughMemory : memory.length = histograms.length * 2 ^ logAlphaSize)
    (distanceMultiplier : Nat) :
    ∃ infos code,
      (histograms.map NormalizedCounts.counts).mapM
          (fun counts => buildANSEncSymbolInfoTable counts logAlphaSize) =
          .ok infos ∧
        DecodeHistograms.ansCodeOfCounts
            (histograms.map NormalizedCounts.counts) uintConfigs logAlphaSize
            memory =
          .ok code ∧
        (histograms ≠ [] →
          ∃ written numExtraBits,
            writeContextualHistogramTokens tokens infos contextMap uintConfigs
                writer =
              .ok (written, numExtraBits)) ∧
        ∀ written numExtraBits,
          writeContextualHistogramTokens tokens infos contextMap uintConfigs
              writer =
              .ok (written, numExtraBits) →
          ∀ reader : BitReader,
            reader.closeCalled = false →
            reader.totalBitsConsumed = writer.bitsWritten →
            (∀ place,
              writer.bitsWritten ≤ place →
              place < written.bitsWritten →
              bitAt reader.data place =
                bitAt written.storage place) →
            ∃ symbolReader start finalReader after,
              ANSSymbolReader.create code reader distanceMultiplier =
                  .ok (symbolReader, start) ∧
                symbolReader.readHybridUints start contextMap
                    (tokens.map (fun token => token.context.toNat)) =
                  .ok
                    (tokens.map (fun token => token.value.toNat),
                      finalReader, after) ∧
                finalReader.state = AnsParams.ansSignature <<< 16 ∧
                finalReader.checkANSFinalState = true ∧
                after.totalBitsConsumed = written.bitsWritten := by
  have logLarge' : 4 ≤ logAlphaSize :=
    Nat.le_trans (by decide) logLarge
  obtain ⟨infos, built, encoder⟩ :=
    encoderTables_ok logLarge' logSmall histograms
  obtain ⟨code, rest, loadedCode, loaded⟩ :=
    DecodeHistograms.ansCodeOfCounts_ok logLarge' logSmall histograms
      uintConfigs (Nat.le_of_eq enoughMemory.symm)
  have decoder := decoderTables_of_loaded loaded
  obtain ⟨coded, run, _, _, decodes⟩ :=
    loop_ok logLarge' logSmall encoder decoder supported
      (Nat.le_refl (tokens.length * 2))
  obtain ⟨written, wrote, writtenBits⟩ :=
    write_ok_of_coded writer decodes.packed
      (32 + coded.buffer.numallbits +
        (coded.buffer.out.map ReversedChunk.nbits).sum)
  have sameLength : infos.length = uintConfigs.length := by
    rw [encoder.1, oneConfigEach]
  have writes :
      histograms ≠ [] →
        writeContextualHistogramTokens tokens infos contextMap uintConfigs
            writer =
          .ok (written, coded.numExtraBits) := by
    intro nonempty
    have infosNonempty : infos.length ≠ 0 := by
      rw [encoder.1]
      exact fun empty => nonempty (List.length_eq_zero_iff.1 empty)
    obtain ⟨first, wroteState, wrote⟩ := bind_eq_ok.1 wrote
    obtain ⟨second, wroteOpen, wroteChunks⟩ := bind_eq_ok.1 wrote
    have configsNonempty : uintConfigs.length ≠ 0 := by
      rwa [← sameLength]
    simp only [writeContextualHistogramTokens, sameLength, configsNonempty,
      ne_eq, not_true_eq_false, or_false, if_false, run, wroteState,
      wroteOpen, wroteChunks, ok_bind, pure_eq_ok]
  refine ⟨infos, code, built, loadedCode,
    fun nonempty => ⟨written, coded.numExtraBits, writes nonempty⟩, ?_⟩
  intro written' numExtraBits wrote' reader isOpen position sameBits
  have nonempty : histograms ≠ [] := by
    rintro rfl
    have noInfos : infos.length = 0 := by
      rw [encoder.1]
      rfl
    simp [writeContextualHistogramTokens, noInfos, fail] at wrote'
  rw [writes nonempty] at wrote'
  obtain ⟨rfl, rfl⟩ : written = written' ∧ coded.numExtraBits = numExtraBits := by
    simpa using wrote'
  have served := serves_of_written writtenBits position sameBits
  obtain ⟨stateServed, tokensServed⟩ := serves_append.1 served
  have logInTable : code.logAlphaSize ≤ AnsParams.ansLogTabSize := by
    rw [decoder.logAlphaSize_eq]
    exact Nat.le_trans logSmall (by decide)
  obtain ⟨symbolReader, start, created, reads, sameState, advanced⟩ :=
    create_ok decoder.isAns decoder.noLz77 logInTable decodes.inRange.2 isOpen
      stateServed distanceMultiplier
  rw [length_bitsOf, ← advanced.source_eq] at tokensServed
  obtain ⟨after, read, advanced'⟩ :=
    decodes.readBack symbolReader start reads sameState
      (advanced.sameClose.trans isOpen) tokensServed
  refine ⟨symbolReader, start, _, after, created, read, rfl, rfl, ?_⟩
  rw [(advanced.trans advanced').consumedBits, position,
    ← written.length_bits, writtenBits, List.length_append,
    writer.length_bits, List.length_append, length_bitsOf]

/-- Two contexts over one histogram of three symbols: the tokens are written. -/
theorem writeContextualHistogramTokens_roundTrip_threeSymbols :
    ∃ infos written numExtraBits,
      [[2048, 1024, 1024]].mapM
          (fun counts => buildANSEncSymbolInfoTable counts 5) =
          .ok infos ∧
        writeContextualHistogramTokens
            [{ context := 0, value := 2 }, { context := 1, value := 0 }]
            infos [0, 0] [HybridUintConfig.initDefault] BitWriter.init =
          .ok (written, numExtraBits) := by
  obtain ⟨infos, _, built, _, writes, _⟩ :=
    writeContextualHistogramTokens_roundTrip
      (show 5 ≤ 5 by decide) (by decide)
      [{ context := 0, value := 2 }, { context := 1, value := 0 }]
      [0, 0]
      [{ counts := [2048, 1024, 1024]
         normalized := by decide
         short := by decide }]
      [HybridUintConfig.initDefault] rfl
      (by
        intro token member
        rcases List.mem_cons.1 member with rfl | member
        · exact ⟨rfl, 0, _, _, rfl, rfl, rfl, by decide⟩
        · rcases List.mem_singleton.1 member with rfl
          exact ⟨rfl, 0, _, _, rfl, rfl, rfl, by decide⟩)
      BitWriter.init (List.replicate 32 default) (by decide) 0
  obtain ⟨written, numExtraBits, wrote⟩ := writes (by simp)
  exact ⟨infos, written, numExtraBits, built, wrote⟩

end RoundTrip

end Jxlz
