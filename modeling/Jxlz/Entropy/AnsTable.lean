import Jxlz.Entropy.AliasTableCorrect
import Jxlz.Entropy.DecAns
import Jxlz.Entropy.EncAns
import Jxlz.Lib.RangeAns

namespace Jxlz

open AliasTable

/-!
# The two sides of an ANS table

`Presents` connects an alias table with the abstract table of a range coder.
The encoder's symbol infos and the decoder's alias tables are both shown to
present the same one.
-/

/-- An alias table presents the table of a range coder. -/
structure Presents
    (table : RangeAns Nat)
    (distribution : List Nat)
    (logAlphaSize : Nat)
    (buckets : List Entry) :
    Prop where
  total_eq :
    table.total = AnsParams.ansTabSize
  freq_eq :
    ∀ symbol, table.freq symbol = countOf distribution symbol
  answers :
    ∀ symbol offset,
      offset < countOf distribution symbol →
      Answers distribution logAlphaSize buckets (table.slot symbol offset)
        symbol offset
  onto :
    ∀ slot,
      slot < AnsParams.ansTabSize →
      ∃ symbol offset,
        offset < countOf distribution symbol ∧
          table.slot symbol offset = slot
  inOrder :
    ∀ symbol offset,
      countOf distribution symbol = AnsParams.ansTabSize →
      offset < AnsParams.ansTabSize →
      table.slot symbol offset = offset

variable {distribution : List Nat}

theorem Answers.unique
    {logAlphaSize : Nat}
    {table : List Entry}
    {slot symbol offset symbol' offset' : Nat}
    (first : Answers distribution logAlphaSize table slot symbol offset)
    (second : Answers distribution logAlphaSize table slot symbol' offset') :
    symbol = symbol' ∧ offset = offset' := by
  rw [Answers] at first
  rw [Answers, first] at second
  injection second with sameAnswer
  injection sameAnswer with sameSymbol sameOffset
  exact ⟨sameSymbol, sameOffset⟩

theorem countOf_le_ansTabSize
    (normalized : distribution.sum = AnsParams.ansTabSize)
    (symbol : Nat) :
    countOf distribution symbol ≤ AnsParams.ansTabSize := by
  by_cases inside : symbol < distribution.length
  · have member : countOf distribution symbol ∈ distribution := by
      simp [countOf, inside]
    rw [← normalized]
    exact List.single_le_sum (by simp) _ member
  · simp [countOf, List.getD_eq_getElem?_getD,
      List.getElem?_eq_none (Nat.le_of_not_lt inside)]

/-- Every alias table presents a range coder's table. -/
theorem IsAliasTable.presents
    {logAlphaSize : Nat}
    {buckets : List Entry}
    (correct : IsAliasTable distribution logAlphaSize buckets)
    (normalized : distribution.sum = AnsParams.ansTabSize) :
    ∃ table, Presents table distribution logAlphaSize buckets := by
  obtain ⟨slotOf, found, onto⟩ := correct.slotOf normalized
  let table : RangeAns Nat :=
    { total := AnsParams.ansTabSize
      freq := countOf distribution
      slot := slotOf
      lookup := fun slot =>
        match lookup buckets slot (AnsParams.ansLogTabSize - logAlphaSize)
            (1 <<< (AnsParams.ansLogTabSize - logAlphaSize) - 1) with
        | .ok symbol => (symbol.value, symbol.offset)
        | .error _ => (0, 0)
      freq_le := countOf_le_ansTabSize normalized
      slot_lt := fun symbol offset occurs => (found symbol offset occurs).1
      lookup_slot := by
        intro symbol offset occurs
        have answer := (found symbol offset occurs).2
        rw [Answers] at answer
        simp only [answer] }
  refine ⟨table, rfl, fun _ => rfl, ?_, onto, ?_⟩
  · intro symbol offset occurs
    exact (found symbol offset occurs).2
  · intro symbol offset whole inRange
    have ordered := correct.inOrder symbol offset whole inRange
    obtain ⟨symbol', offset', occurs, isSlot⟩ := onto offset inRange
    have answer := (found symbol' offset' occurs).2
    rw [isSlot] at answer
    obtain ⟨rfl, rfl⟩ := ordered.unique answer
    exact isSlot

/-- The encoder's entry of a symbol agrees with the range coder's table. -/
structure InfoOf
    (table : RangeAns Nat)
    (symbol : Nat)
    (info : ANSEncSymbolInfo) :
    Prop where
  freq_eq :
    info.freq = table.freq symbol
  ifreq_eq :
    info.ifreq =
      (2 ^ reciprocalPrecision + table.freq symbol - 1) / table.freq symbol
  slots :
    ∀ offset,
      offset < table.freq symbol →
      info.reverseMap[offset]? = some (table.slot symbol offset)

namespace BuildANSEncSymbolInfoTable

/-- What the loop over the slots has filled in before slot `filled`. -/
structure FilledBefore
    (table : RangeAns Nat)
    (counts : List Nat)
    (filled : Nat)
    (infos : List ANSEncSymbolInfo) :
    Prop where
  length_eq :
    infos.length = counts.length
  entry :
    ∀ symbol info,
      infos[symbol]? = some info →
      info.freq = countOf counts symbol ∧
        info.ifreq = (initialInfo counts symbol).ifreq ∧
        info.reverseMap.length = countOf counts symbol ∧
        ∀ offset,
          offset < countOf counts symbol →
          table.slot symbol offset < filled →
          info.reverseMap[offset]? = some (table.slot symbol offset)

variable {table : RangeAns Nat}
variable {counts : List Nat}
variable {logAlphaSize : Nat}
variable {buckets : List Entry}

theorem filledBefore_initial
    (nonempty : counts ≠ []) :
    FilledBefore table counts 0
      ((List.range counts.length).map (initialInfo counts)) := by
  constructor
  · simp
  · intro symbol info isEntry
    obtain ⟨inside, isInfo⟩ := List.getElem?_eq_some_iff.1 isEntry
    simp only [List.getElem_map, List.getElem_range] at isInfo
    subst isInfo
    refine ⟨?_, rfl, ?_, ?_⟩
    · simp [initialInfo, symbolFreq, nonempty, countOf]
    · simp [initialInfo, symbolFreq, nonempty, countOf]
    · intro offset _ contradiction
      omega

/-- One round of the loop: the slot goes to the symbol it answers with. -/
theorem filledBefore_step
    {slot : Nat}
    {infos : List ANSEncSymbolInfo}
    (presents : Presents table counts logAlphaSize buckets)
    (inRange : slot < AnsParams.ansTabSize)
    (before : FilledBefore table counts slot infos) :
    ∃ next,
      (do
          let symbol ←
            lookup buckets slot (AnsParams.ansLogTabSize - logAlphaSize)
              (1 <<< (AnsParams.ansLogTabSize - logAlphaSize) - 1)
          setSlot infos symbol slot) =
          .ok next ∧
        FilledBefore table counts (slot + 1) next := by
  obtain ⟨symbol, offset, occurs, isSlot⟩ := presents.onto slot inRange
  have answer := presents.answers symbol offset occurs
  rw [isSlot, Answers] at answer
  have inside : symbol < infos.length := by
    rw [before.length_eq]
    exact countOf_pos_lt_length (by omega)
  obtain ⟨freqEq, ifreqEq, lengthEq, slots⟩ :=
    before.entry symbol infos[symbol] (List.getElem?_eq_getElem inside)
  have room : offset < infos[symbol].reverseMap.length := by
    omega
  refine ⟨_, by
    rw [answer]
    simp only [setSlot, index_ok inside, require_ok room, ok_bind, pure_eq_ok]
    rfl, ?_⟩
  constructor
  · simpa using before.length_eq
  · intro other info isEntry
    rw [List.getElem?_set] at isEntry
    by_cases isSymbol : symbol = other
    · subst isSymbol
      simp only [inside, if_true, Option.some.injEq] at isEntry
      subst isEntry
      refine ⟨freqEq, ifreqEq, by simpa using lengthEq, ?_⟩
      intro place placeOccurs isFilled
      rw [List.getElem?_set]
      by_cases isPlace : offset = place
      · subst isPlace
        simp [room, isSlot]
      · rw [if_neg isPlace]
        refine slots place placeOccurs ?_
        rcases Nat.lt_succ_iff_lt_or_eq.1 isFilled with earlier | isNow
        · exact earlier
        · have answer' := presents.answers symbol place placeOccurs
          rw [isNow] at answer'
          have sameOccurrence := Answers.unique answer answer'
          exact (isPlace sameOccurrence.2).elim
    · rw [if_neg isSymbol] at isEntry
      obtain ⟨freqEq', ifreqEq', lengthEq', slots'⟩ :=
        before.entry other info isEntry
      refine ⟨freqEq', ifreqEq', lengthEq', ?_⟩
      intro place placeOccurs isFilled
      refine slots' place placeOccurs ?_
      rcases Nat.lt_succ_iff_lt_or_eq.1 isFilled with earlier | isNow
      · exact earlier
      · have answer' := presents.answers other place placeOccurs
        rw [isNow] at answer'
        have sameOccurrence := Answers.unique answer answer'
        exact (isSymbol sameOccurrence.1).elim

end BuildANSEncSymbolInfoTable

open BuildANSEncSymbolInfoTable in
/-- The encoder's table agrees with what its alias table presents. -/
theorem buildANSEncSymbolInfoTable_ok
    {table : RangeAns Nat}
    {counts : List Nat}
    {logAlphaSize : Nat}
    {buckets : List Entry}
    (normalized : counts.sum = AnsParams.ansTabSize)
    (builds :
      initAliasTable counts AnsParams.ansLogTabSize logAlphaSize
          (List.replicate (2 ^ logAlphaSize) default) =
        .ok buckets)
    (presents : Presents table counts logAlphaSize buckets) :
    ∃ infos,
      buildANSEncSymbolInfoTable counts logAlphaSize = .ok infos ∧
        infos.length = counts.length ∧
        ∀ symbol,
          0 < countOf counts symbol →
          ∃ info, infos[symbol]? = some info ∧ InfoOf table symbol info := by
  have nonempty : counts ≠ [] := by
    rintro rfl
    exact absurd normalized (by decide)
  have infoLen : max 1 counts.length = counts.length :=
    Nat.max_eq_right (List.length_pos_of_ne_nil nonempty)
  obtain ⟨infos, run, filled⟩ :=
    foldlM_range_ok
      (FilledBefore table counts) AnsParams.ansTabSize
      (filledBefore_initial nonempty)
      (fun _ _ inRange before => filledBefore_step presents inRange before)
  refine ⟨infos, ?_, filled.length_eq, ?_⟩
  · simp only [buildANSEncSymbolInfoTable, Nat.one_shiftLeft, builds, ok_bind,
      infoLen]
    simpa only [Nat.one_shiftLeft] using run
  · intro symbol occurs
    have inside : symbol < infos.length := by
      rw [filled.length_eq]
      exact countOf_pos_lt_length occurs
    obtain ⟨freqEq, ifreqEq, _, slots⟩ :=
      filled.entry symbol infos[symbol] (List.getElem?_eq_getElem inside)
    refine ⟨infos[symbol], List.getElem?_eq_getElem inside, ?_, ?_, ?_⟩
    · rw [freqEq, presents.freq_eq]
    · have freqNe : counts.getD symbol 0 ≠ 0 :=
        Nat.ne_of_gt occurs
      rw [ifreqEq, presents.freq_eq]
      simp only [initialInfo, symbolFreq, nonempty, if_false, freqNe, ne_eq,
        not_false_eq_true, if_true, Nat.one_shiftLeft, countOf]
    · intro offset inFreq
      rw [presents.freq_eq] at inFreq
      refine slots offset inFreq ?_
      rw [← presents.total_eq]
      exact table.slot_lt symbol offset (by rwa [presents.freq_eq])

namespace DecodeHistograms

/-- Where the tables of the first histograms lie in the memory. -/
structure Loaded
    (allBuckets : List (List Entry))
    (logAlphaSize : Nat)
    (code : ANSCode)
    (histograms : List (List Nat))
    (uintConfig : List HybridUintConfig)
    (rest : List Entry)
    (remaining : Nat) :
    Prop where
  tables :
    code.aliasTables = allBuckets.flatten ++ rest
  bucketLengths :
    ∀ buckets ∈ allBuckets, buckets.length = 2 ^ logAlphaSize
  count_eq :
    allBuckets.length = histograms.length
  degenerate :
    code.degenerateSymbols =
      histograms.map degenerateSymbol ++ List.replicate remaining (-1)
  room :
    remaining * 2 ^ logAlphaSize ≤ rest.length
  config_eq :
    code.uintConfig = uintConfig
  logAlphaSize_eq :
    code.logAlphaSize = logAlphaSize
  isAns :
    code.usePrefixCode = false
  noLz77 :
    code.lz77 = {}

theorem flatten_length
    {allBuckets : List (List Entry)}
    {size : Nat}
    (bucketLengths : ∀ buckets ∈ allBuckets, buckets.length = size) :
    allBuckets.flatten.length = allBuckets.length * size := by
  induction allBuckets with
  | nil =>
      simp
  | cons head tail inductionHypothesis =>
      have headLength := bucketLengths head List.mem_cons_self
      have tailLength :=
        inductionHypothesis
          (fun buckets member =>
            bucketLengths buckets (List.mem_cons_of_mem _ member))
      simp only [List.flatten_cons, List.length_append, headLength,
        tailLength, List.length_cons, Nat.succ_mul]
      omega

/-- The part of the tables that starts at a histogram. -/
theorem flatten_drop
    {allBuckets : List (List Entry)}
    {size : Nat}
    (bucketLengths : ∀ buckets ∈ allBuckets, buckets.length = size)
    (rest : List Entry)
    {c : Nat}
    {buckets : List Entry}
    (isBuckets : allBuckets[c]? = some buckets) :
    ∃ rest',
      (allBuckets.flatten ++ rest).drop (c * size) = buckets ++ rest' := by
  induction allBuckets generalizing c with
  | nil =>
      simp at isBuckets
  | cons head tail inductionHypothesis =>
      cases c with
      | zero =>
          simp only [List.getElem?_cons_zero, Option.some.injEq] at isBuckets
          subst isBuckets
          exact ⟨tail.flatten ++ rest, by simp⟩
      | succ c =>
          have headLength := bucketLengths head List.mem_cons_self
          obtain ⟨rest', dropped⟩ :=
            inductionHypothesis
              (fun buckets member =>
                bucketLengths buckets (List.mem_cons_of_mem _ member))
              (by simpa using isBuckets)
          refine ⟨rest', ?_⟩
          rw [Nat.succ_mul, Nat.add_comm, ← List.drop_drop,
            List.flatten_cons, List.append_assoc, ← headLength,
            List.drop_left, headLength]
          exact dropped

end DecodeHistograms

/-- A normalized histogram of an alphabet of at most `2 ^ logAlphaSize` symbols. -/
structure NormalizedCounts (logAlphaSize : Nat) where
  counts : List Nat
  normalized : counts.sum = AnsParams.ansTabSize
  short : counts.length ≤ 2 ^ logAlphaSize

namespace NormalizedCounts

variable {logAlphaSize : Nat}

/-- The buckets of the alias table of a histogram. -/
def buckets
    (self : NormalizedCounts logAlphaSize) :
    List Entry :=
  match initAliasTable self.counts AnsParams.ansLogTabSize logAlphaSize
      (List.replicate (2 ^ logAlphaSize) default) with
  | .ok table => table
  | .error _ => []

variable (self : NormalizedCounts logAlphaSize)
variable (logLarge : 4 ≤ logAlphaSize)
variable (logSmall : logAlphaSize ≤ 8)

include logLarge logSmall

/-- Building the alias table gives the same buckets on every memory. -/
theorem buckets_ok :
    self.buckets.length = 2 ^ logAlphaSize ∧
      IsAliasTable self.counts logAlphaSize self.buckets ∧
      ∀ a : List Entry,
        2 ^ logAlphaSize ≤ a.length →
        initAliasTable self.counts AnsParams.ansLogTabSize logAlphaSize a =
          .ok (self.buckets ++ a.drop (2 ^ logAlphaSize)) := by
  obtain ⟨table, length, correct, builds⟩ :=
    initAliasTable_ok self.normalized self.short logLarge logSmall
  have blank := builds (List.replicate (2 ^ logAlphaSize) default) (by simp)
  have isTable : self.buckets = table := by
    simp [buckets, blank]
  rw [isTable]
  exact ⟨length, correct, builds⟩

/-- The encoder's and the decoder's table of a histogram present one table. -/
theorem tables_ok :
    ∃ (table : RangeAns Nat) (infos : List ANSEncSymbolInfo),
      Presents table self.counts logAlphaSize self.buckets ∧
        buildANSEncSymbolInfoTable self.counts logAlphaSize = .ok infos ∧
        infos.length = self.counts.length ∧
        ∀ symbol,
          0 < countOf self.counts symbol →
          ∃ info,
            infos[symbol]? = some info ∧ InfoOf table symbol info := by
  obtain ⟨length, correct, builds⟩ := self.buckets_ok logLarge logSmall
  obtain ⟨table, presents⟩ := correct.presents self.normalized
  have blank := builds (List.replicate (2 ^ logAlphaSize) default) (by simp)
  simp only [List.drop_replicate, Nat.sub_self, List.replicate_zero,
    List.append_nil] at blank
  obtain ⟨infos, built, infoLength, entries⟩ :=
    buildANSEncSymbolInfoTable_ok self.normalized blank presents
  exact ⟨table, infos, presents, built, infoLength, entries⟩

end NormalizedCounts

namespace DecodeHistograms

/-- A degenerate symbol has the whole range. -/
theorem countOf_degenerateSymbol
    {counts : List Nat}
    (normalized : counts.sum = AnsParams.ansTabSize)
    (isDegenerate : 0 ≤ degenerateSymbol counts) :
    countOf counts (degenerateSymbol counts).toNat = AnsParams.ansTabSize ∧
      ∀ symbol,
        0 < countOf counts symbol →
        symbol = (degenerateSymbol counts).toNat := by
  unfold degenerateSymbol at isDegenerate ⊢
  by_cases noneBefore :
      (counts.take
        ((counts.rdropWhile (fun count : Nat => count = 0)).length - 1)).all
          (fun count : Nat => count = 0) = true
  · simp only [noneBefore, if_true, Int.toNat_natCast]
    have onlyOne :
        ∀ symbol,
          0 < countOf counts symbol →
          symbol =
            (counts.rdropWhile (fun count : Nat => count = 0)).length -
              1 := by
      intro symbol occurs
      have inTrimmed :
          symbol <
            (counts.rdropWhile (fun count : Nat => count = 0)).length := by
        rw [← countOf_trim] at occurs
        exact countOf_pos_lt_length occurs
      by_contra other
      have earlier :
          symbol <
            (counts.rdropWhile (fun count : Nat => count = 0)).length - 1 := by
        omega
      have inside := countOf_pos_lt_length occurs
      have isZero :=
        List.all_eq_true.1 noneBefore (countOf counts symbol)
          (by
            rw [List.mem_take_iff_getElem]
            exact ⟨symbol, by omega, by simp [countOf, inside]⟩)
      simp only [decide_eq_true_eq] at isZero
      omega
    refine ⟨?_, onlyOne⟩
    have total := sum_countOf (Nat.le_refl counts.length)
    rw [normalized] at total
    rw [← total]
    refine
      (Finset.sum_eq_single
        ((counts.rdropWhile (fun count : Nat => count = 0)).length - 1)
        ?_ ?_).symm
    · intro symbol _ other
      by_contra occurs
      exact other (onlyOne symbol (Nat.pos_of_ne_zero occurs))
    · intro outside
      by_contra occurs
      exact outside
        (Finset.mem_range.2
          (countOf_pos_lt_length (Nat.pos_of_ne_zero occurs)))
  · rw [if_neg noneBefore] at isDegenerate
    exact absurd isDegenerate (by decide)

theorem initAliasTable_trim
    (counts : List Nat)
    (logRange logAlphaSize : Nat)
    (a : List Entry) :
    initAliasTable (counts.rdropWhile (· = 0)) logRange logAlphaSize a =
      initAliasTable counts logRange logAlphaSize a := by
  simp only [initAliasTable, List.rdropWhile_idempotent]

section Loop

variable {logAlphaSize : Nat}
variable {uintConfig : List HybridUintConfig}
variable {code : ANSCode}
variable {finishedHistograms : List (NormalizedCounts logAlphaSize)}
variable {rest : List Entry}

/-- One round of the loop adds the tables of one histogram. -/
theorem addAnsHistogram_ok
    {remaining : Nat}
    (logLarge : 4 ≤ logAlphaSize)
    (logSmall : logAlphaSize ≤ 8)
    (histogram : NormalizedCounts logAlphaSize)
    (loaded :
      Loaded (finishedHistograms.map NormalizedCounts.buckets) logAlphaSize
        code (finishedHistograms.map NormalizedCounts.counts) uintConfig rest
        (remaining + 1)) :
    ∃ next,
      addAnsHistogram code finishedHistograms.length histogram.counts =
          .ok next ∧
        Loaded
          ((finishedHistograms ++ [histogram]).map NormalizedCounts.buckets)
          logAlphaSize next
          ((finishedHistograms ++ [histogram]).map NormalizedCounts.counts)
          uintConfig (rest.drop (2 ^ logAlphaSize)) remaining := by
  obtain ⟨bucketLength, _, builds⟩ := histogram.buckets_ok logLarge logSmall
  have enough : 2 ^ logAlphaSize ≤ rest.length := by
    have room := loaded.room
    rw [Nat.succ_mul] at room
    omega
  have prefixLength :=
    flatten_length loaded.bucketLengths
  rw [List.length_map] at prefixLength
  have notLonger := Nat.not_lt_of_le histogram.short
  refine ⟨_, by
    simp only [addAnsHistogram, loaded.logAlphaSize_eq, Nat.one_shiftLeft,
      notLonger, if_false, initAliasTable_trim, loaded.tables,
      ← prefixLength, List.drop_left, List.take_left, builds rest enough,
      catchGeneric, ok_bind, pure_eq_ok]
    rfl, ?_⟩
  refine ⟨?_, ?_, ?_, ?_, ?_, loaded.config_eq, rfl,
    loaded.isAns, loaded.noLz77⟩
  · simp
  · intro buckets member
    rw [List.map_append, List.mem_append] at member
    rcases member with old | new
    · exact loaded.bucketLengths buckets old
    · simp only [List.map_cons, List.map_nil, List.mem_singleton] at new
      rwa [new]
  · simp
  · have setNext :
        (finishedHistograms.map
              (degenerateSymbol ∘ NormalizedCounts.counts) ++
            List.replicate (remaining + 1) (-1)).set
            finishedHistograms.length (degenerateSymbol histogram.counts) =
          finishedHistograms.map
              (degenerateSymbol ∘ NormalizedCounts.counts) ++
            degenerateSymbol histogram.counts ::
              List.replicate remaining (-1) := by
      rw [List.set_append_right _ _ (by simp)]
      simp [List.replicate_succ]
    simp only [loaded.degenerate, List.map_map, setNext]
    simp
  · have room := loaded.room
    rw [Nat.succ_mul] at room
    rw [List.length_drop]
    omega

/-- The loop over the histograms loads all their tables. -/
theorem addAnsHistograms_ok
    (logLarge : 4 ≤ logAlphaSize)
    (logSmall : logAlphaSize ≤ 8)
    (histograms : List (NormalizedCounts logAlphaSize))
    (loaded :
      Loaded (finishedHistograms.map NormalizedCounts.buckets) logAlphaSize
        code (finishedHistograms.map NormalizedCounts.counts) uintConfig rest
        histograms.length) :
    ∃ result rest',
      ((histograms.map NormalizedCounts.counts).zipIdx
          finishedHistograms.length).foldlM
          (fun code (counts, c) => addAnsHistogram code c counts) code =
          .ok result ∧
        Loaded
          ((finishedHistograms ++ histograms).map NormalizedCounts.buckets)
          logAlphaSize result
          ((finishedHistograms ++ histograms).map NormalizedCounts.counts)
          uintConfig rest' 0 := by
  induction histograms generalizing code finishedHistograms rest with
  | nil =>
      refine ⟨code, rest, rfl, ?_⟩
      simpa using loaded
  | cons histogram others inductionHypothesis =>
      obtain ⟨next, added, loaded'⟩ :=
        addAnsHistogram_ok logLarge logSmall histogram loaded
      obtain ⟨result, rest', run, done⟩ := inductionHypothesis loaded'
      refine ⟨result, rest', ?_, by simpa using done⟩
      simp only [List.map_cons, List.zipIdx_cons, List.foldlM_cons, added,
        ok_bind]
      simpa using run

/-- The code of a family of normalized histograms. -/
theorem ansCodeOfCounts_ok
    {memory : List Entry}
    (logLarge : 4 ≤ logAlphaSize)
    (logSmall : logAlphaSize ≤ 8)
    (histograms : List (NormalizedCounts logAlphaSize))
    (uintConfig : List HybridUintConfig)
    (enough : histograms.length * 2 ^ logAlphaSize ≤ memory.length) :
    ∃ code rest,
      ansCodeOfCounts (histograms.map NormalizedCounts.counts) uintConfig
          logAlphaSize memory =
          .ok code ∧
        Loaded (histograms.map NormalizedCounts.buckets) logAlphaSize code
          (histograms.map NormalizedCounts.counts) uintConfig rest 0 := by
  have start :
      Loaded
        (([] : List (NormalizedCounts logAlphaSize)).map
          NormalizedCounts.buckets)
        logAlphaSize
        (ansCodeStart histograms.length uintConfig logAlphaSize memory)
        (([] : List (NormalizedCounts logAlphaSize)).map
          NormalizedCounts.counts)
        uintConfig memory histograms.length := by
    constructor <;> simp [ansCodeStart, enough]
  obtain ⟨code, rest, run, loaded⟩ :=
    addAnsHistograms_ok logLarge logSmall histograms start
  refine ⟨code, rest, ?_, loaded⟩
  simpa [ansCodeOfCounts] using run

end Loop

end DecodeHistograms

end Jxlz
