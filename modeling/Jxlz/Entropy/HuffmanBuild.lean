import Jxlz.Entropy.HuffmanSort

namespace Jxlz

open AnsParams BitReversal CanonicalCode FuelLoop

/-!
# The tables of a complete code

The root table and the second tables are put together: whatever the memory held
before, every codeword is found in the tables that are built in it.
-/

/-- The sum of the shares of all codewords, in units of the smallest one. -/
def kraftSum
    (codeLengths : List Nat) :
    Nat :=
  (codeLengths.map
    (fun len => if len = 0 then 0 else 2 ^ (prefixMaxBits - len))).sum

section Build

variable {codeLengths : List Nat}

theorem base_eq_kraftSum
    (bounded : ∀ codeLength ∈ codeLengths, codeLength ≤ prefixMaxBits) :
    base prefixMaxBits (lengthCount codeLengths) (prefixMaxBits + 1) =
      kraftSum codeLengths := by
  unfold base lengthCount kraftSum
  induction codeLengths with
  | nil =>
      simp
  | cons codeLength codeLengths inductionHypothesis =>
      have small := bounded codeLength List.mem_cons_self
      have rest :=
        inductionHypothesis fun other member =>
          bounded other (List.mem_cons_of_mem _ member)
      have own :
          ∑ shorter ∈ Finset.Ico 1 (prefixMaxBits + 1),
              (if codeLength = shorter then 1 else 0) *
                2 ^ (prefixMaxBits - shorter) =
            if codeLength = 0 then 0 else 2 ^ (prefixMaxBits - codeLength) := by
        simp only [ite_mul, Nat.one_mul, Nat.zero_mul, Finset.sum_ite_eq,
          Finset.mem_Ico]
        by_cases coded : codeLength = 0
        · rw [if_pos coded, if_neg (by omega)]
        · rw [if_neg coded, if_pos (by omega)]
      simp only [List.count_cons, beq_iff_eq, Nat.add_mul,
        Finset.sum_add_distrib, List.map_cons, List.sum_cons, own, rest]
      omega

theorem complete_of_kraftSum
    (bounded : ∀ codeLength ∈ codeLengths, codeLength ≤ prefixMaxBits)
    (kraft : kraftSum codeLengths = 2 ^ prefixMaxBits) :
    Complete prefixMaxBits (lengthCount codeLengths) :=
  (base_eq_kraftSum bounded).trans kraft

/-- A complete code has more than one codeword. -/
theorem rank_ne_one
    (complete : Complete prefixMaxBits (lengthCount codeLengths)) :
    rank (lengthCount codeLengths) (prefixMaxBits + 1) 0 ≠ 1 := by
  intro one
  obtain ⟨len, i, isCode, holds⟩ :=
    @exists_holds prefixMaxBits (lengthCount codeLengths) complete 0 (by decide)
  obtain ⟨len', i', isCode', holds'⟩ :=
    @exists_holds prefixMaxBits (lengthCount codeLengths) complete
      (2 ^ prefixMaxBits - 1) (by decide)
  have first := isCode.rank_lt
  have second := isCode'.rank_lt
  obtain ⟨rfl, rfl⟩ := rank_inj isCode isCode' (by omega)
  have positive := isCode.positive
  have width : 2 ^ (prefixMaxBits - len) ≤ 2 ^ (prefixMaxBits - 1) :=
    Nat.pow_le_pow_right Nat.two_pos (by omega)
  have half : 2 ^ (prefixMaxBits - 1) < 2 ^ prefixMaxBits - 1 := by
    decide
  obtain ⟨lower, _⟩ := holds
  obtain ⟨_, upper⟩ := holds'
  omega

theorem reverse_zero
    (len : Nat) :
    reverse len 0 = 0 := by
  induction len with
  | zero =>
      rfl
  | succ len inductionHypothesis =>
      rw [reverse, Nat.zero_div, inductionHypothesis, Nat.zero_mod, Nat.zero_mul]

/-- Before the first codeword nothing is done. -/
theorem standsAt_first
    {counts : List Nat}
    {count : Nat → Nat}
    {fill : HuffmanFill}
    (isCount : fill.count = counts)
    (lengths : counts.length = prefixMaxBits + 1)
    (counted : ∀ len, counts.getD len 0 = count len)
    (isSymbol : fill.symbol = 0)
    (isKey : fill.key = 0) :
    StandsAt count 1 0 fill where
  lengths := by
    rw [isCount, lengths]
  left := by
    intro other positive _
    rw [isCount, counted]
    unfold remaining
    rw [if_neg (Nat.not_lt_of_le positive)]
    split
    next same =>
      rw [same, Nat.sub_zero]
    next longer =>
      rfl
  symbol := by
    rw [isSymbol]
    simp [rank]
  key := by
    intro _
    have atStart : place prefixMaxBits count 1 0 = 0 := by
      simp [place, base]
    unfold CanonicalCode.key
    rw [atStart, reverse_zero, isKey]

/-- Lengths without codewords are skipped. -/
theorem RootFilled.skip
    {count : Nat → Nat}
    {sorted : List Nat}
    {begun fill : HuffmanFill}
    {len more : Nat}
    (filled : RootFilled count sorted begun len 0 fill)
    (positive : 1 ≤ len)
    (none : ∀ other, len ≤ other → other < len + more → count other = 0) :
    RootFilled count sorted begun (len + more) 0 fill := by
  induction more with
  | zero =>
      exact filled
  | succ more inductionHypothesis =>
      have before :=
        inductionHypothesis fun other above below =>
          none other above (by omega)
      have empty := none (len + more) (by omega) (by omega)
      have whole :
          RootFilled count sorted begun (len + more) (count (len + more)) fill := by
        rw [empty]
        exact before
      exact whole.next (by omega)

/-- What is built of a code that is complete. -/
structure Built
    (codeLengths : List Nat)
    (rootBits : Nat)
    (sorted : List Nat)
    (size : Nat)
    (table : List HuffmanCode) :
    Prop where
  root : 2 ^ rootBits ≤ size
  inside : size ≤ table.length
  placed :
    ∀ (symbol len : Nat),
      codeLengths[symbol]? = some len →
      0 < len →
      sorted.getD
          (rank (lengthCount codeLengths) len
            ((codeLengths.take symbol).count len)) 0 =
        symbol
  found :
    ∀ len i,
      IsCode prefixMaxBits (lengthCount codeLengths) len i →
      Found (lengthCount codeLengths) sorted rootBits table size len i

/-- The second tables are complete when the last length is done. -/
theorem SecondFilled.built
    {count : Nat → Nat}
    {sorted : List Nat}
    {rootBits size len : Nat}
    {fill : HuffmanFill}
    (filled : SecondFilled count sorted rootBits size len 0 fill)
    (complete : Complete prefixMaxBits count)
    (room : Room count rootBits size)
    (longer : rootBits < len)
    (small : len ≤ prefixMaxBits + 1)
    (none : ∀ other, len ≤ other → other ≤ prefixMaxBits → count other = 0) :
    2 ^ rootBits ≤ fill.totalSize ∧ fill.totalSize ≤ size ∧
      ∀ len' i',
        IsCode prefixMaxBits count len' i' →
        Found count sorted rootBits fill.table fill.totalSize len' i' := by
  have atEnd : place prefixMaxBits count len 0 = 2 ^ prefixMaxBits := by
    rw [place_zero, ← complete]
    have same :
        ∀ more,
          len + more ≤ prefixMaxBits + 1 →
          base prefixMaxBits count (len + more) = base prefixMaxBits count len := by
      intro more
      induction more with
      | zero =>
          intro _
          rfl
      | succ more inductionHypothesis =>
          intro inRange
          have empty := none (len + more) (by omega) (by omega)
          rw [← Nat.add_assoc, base_succ (by omega), empty, place_zero]
          exact inductionHypothesis (by omega)
    obtain ⟨more, isMore⟩ := Nat.exists_eq_add_of_le small
    rw [isMore]
    exact (same more (by omega)).symm
  have before :
      ∀ len' i',
        IsCode prefixMaxBits count len' i' →
        place prefixMaxBits count len' i' < place prefixMaxBits count len 0 := by
    intro len' i' isCode'
    have inside := isCode'.inside complete
    have width := Nat.two_pow_pos (prefixMaxBits - len')
    omega
  rcases filled.branches with empty | ⟨branch, last, j, above, below, inBranch⟩
  · have total := empty.total
    refine ⟨Nat.le_of_eq total.symm, ?_, ?_⟩
    · rw [total]
      exact room.root
    · intro len' i' isCode'
      have short : len' ≤ rootBits := by
        by_contra long
        have ordered :=
          @base_mono prefixMaxBits count (rootBits + 1) len' (by omega)
        have earlier := before len' i' isCode'
        rw [empty.atStart] at earlier
        unfold place at earlier
        omega
      exact ⟨fun _ => empty.filled len' i' isCode' short, fun long => by omega⟩
  · have total := inBranch.total
    have behind := inBranch.behind
    have started : fill.start ≤ fill.totalSize :=
      Nat.le_trans (Nat.le_add_right _ _) (Nat.le_of_eq total)
    have bits := inBranch.bits
    have positive := room.positive
    have isLast : IsCode prefixMaxBits count last (j - 1) := by
      have counted := inBranch.counted
      have jPositive := inBranch.positive
      exact ⟨by omega, inBranch.bounded, by omega⟩
    have long : rootBits < last := by
      by_contra short
      have ordered :=
        @place_le_base prefixMaxBits count last j (rootBits + 1) (by omega)
          inBranch.counted (by omega)
      have branchAbove := inBranch.long
      have width := Nat.two_pow_pos (prefixMaxBits - rootBits)
      rw [inBranch.ends, Nat.succ_mul] at ordered
      omega
    refine ⟨Nat.le_trans behind started, inBranch.size_le room isLast long, ?_⟩
    intro len' i' isCode'
    exact inBranch.found room isCode' (before len' i' isCode') below

/-- A complete code is built in memory with room for it. -/
theorem buildHuffmanTable_ok
    {counts : List Nat}
    {rootBits : Nat}
    (bounded : ∀ codeLength ∈ codeLengths, codeLength ≤ prefixMaxBits)
    (short : codeLengths.length ≤ prefixMaxAlphabetSize)
    (kraft : kraftSum codeLengths = 2 ^ prefixMaxBits)
    (lengths : counts.length = prefixMaxBits + 1)
    (counted : ∀ len, counts.getD len 0 = lengthCount codeLengths len)
    (memory : List HuffmanCode)
    (room : Room (lengthCount codeLengths) rootBits memory.length) :
    ∃ sorted size table,
      buildHuffmanTable memory rootBits codeLengths counts = .ok (size, table) ∧
        table.length = memory.length ∧
        Built codeLengths rootBits sorted size table := by
  have complete := complete_of_kraftSum bounded kraft
  have small : codeLengths.length < 2 ^ 16 :=
    Nat.lt_of_le_of_lt short (by decide)
  obtain ⟨offsets, isOffsets, upTo⟩ := symbolOffsets_ok lengths counted small
  obtain ⟨⟨sorted, offset⟩, isSorted, inOrder⟩ :=
    sortSymbols_ok bounded short upTo
  have sameLength := inOrder.length
  have inOffsets := inOrder.offsets
  dsimp only at sameLength inOffsets
  have all := rank_le_length codeLengths (prefixMaxBits + 1)
  have fillable : Fillable (lengthCount codeLengths) sorted :=
    ⟨complete, by omega⟩
  have isLast :
      index offset prefixMaxBits =
        .ok (rank (lengthCount codeLengths) (prefixMaxBits + 1) 0) := by
    rw [index_getD (by omega) 0, inOrder.offset prefixMaxBits (by decide)
      (Nat.le_refl _), rank_succ (by decide)]
    rfl
  have several := rank_ne_one complete
  have maxPositive := upTo.positive
  have maxBounded := upTo.bounded
  have rootPositive := room.positive
  have rootSmall := room.small
  have tableSmall : 2 ^ min rootBits offsets.maxLength ≤ memory.length :=
    Nat.le_trans (Nat.pow_le_pow_right Nat.two_pos (Nat.min_le_left _ _)) room.root
  obtain ⟨rootFilled, isRoot, root⟩ :=
    @fillRoot_ok (lengthCount codeLengths) sorted
      { table := memory
        count := counts
        tableBits := min rootBits offsets.maxLength
        tableSize := 1 <<< min rootBits offsets.maxLength
        totalSize := 1 <<< rootBits } (min rootBits offsets.maxLength) fillable rfl
      (Nat.one_shiftLeft _) (by omega) tableSmall
      (standsAt_first rfl lengths counted rfl rfl)
  have frame := root.frame
  have rootLength := root.length
  dsimp only at rootLength
  obtain ⟨table, doubled, isLength, found⟩ :=
    @replicateRoot_ok (min rootBits offsets.maxLength) rootBits rootFilled.table
      (Nat.min_le_left _ _) (by rw [rootLength]; exact room.root)
  have empty :
      ∀ other,
        offsets.maxLength < other →
        other ≤ prefixMaxBits → lengthCount codeLengths other = 0 := by
    intro other above inRange
    exact upTo.last other above (by omega)
  obtain ⟨more, isMore⟩ :=
    Nat.exists_eq_add_of_le (Nat.min_le_left rootBits offsets.maxLength)
  have atSecond :=
    @RootFilled.skip _ _ _ _ _ more root (by omega) (by
      intro other above below
      exact empty other (by omega) (by omega))
  rw [show min rootBits offsets.maxLength + 1 + more = rootBits + 1 by omega]
    at atSecond
  have second :
      SecondFilled (lengthCount codeLengths) sorted rootBits memory.length
        (rootBits + 1) 0 { rootFilled with table } := by
    refine ⟨⟨atSecond.stands.lengths, atSecond.stands.left,
      atSecond.stands.symbol, atSecond.stands.key⟩, by rw [isLength, rootLength],
      .inl ⟨?_, ?_, place_zero _, ?_⟩⟩
    · rw [frame]
    · rw [frame]
      exact Nat.one_shiftLeft _
    · intro len i isCode inRoot entry inside starts
      have positive := isCode.positive
      have bounded := isCode.bounded
      have counted := isCode.counted
      have notLonger : len ≤ offsets.maxLength := by
        by_contra longer
        have none := empty len (by omega) bounded
        omega
      have again :
          entry % 2 ^ min rootBits offsets.maxLength % 2 ^ len =
            entry % 2 ^ len :=
        Nat.mod_mod_of_dvd _ (pow_dvd_pow 2 (by omega))
      dsimp only
      rw [found entry inside]
      refine atSecond.filled len i isCode ?_ _ ?_ (again.trans starts)
      · rw [place_zero]
        have ends := isCode.ends
        have ordered :=
          @base_mono prefixMaxBits (lengthCount codeLengths) (len + 1) (rootBits + 1)
            (by omega)
        have width := Nat.two_pow_pos (prefixMaxBits - len)
        omega
      · dsimp only
        rw [Nat.one_shiftLeft]
        exact Nat.mod_lt _ (by positivity)
  have isTotal : { rootFilled with table }.totalSize = 2 ^ rootBits := by
    rw [frame]
    exact Nat.one_shiftLeft _
  obtain ⟨last, isFilled, filled⟩ :=
    fillSecond_ok fillable room maxBounded isTotal second
  obtain ⟨above, below, every⟩ :=
    filled.built complete room (by omega) (by omega) (by
      intro other behind inRange
      exact empty other (by omega) inRange)
  refine ⟨sorted, last.totalSize, last.table, ?_, filled.length, above, ?_,
    inOrder.placed, every⟩
  · unfold buildHuffmanTable
    rw [if_neg, isOffsets, ok_bind, isSorted, ok_bind]
    · dsimp only
      rw [isLast, ok_bind, if_neg several, isRoot, ok_bind, Nat.one_shiftLeft,
        Nat.one_shiftLeft, doubled, ok_bind, isFilled, ok_bind]
      rfl
    · have large : prefixMaxAlphabetSize ≤ 1 <<< prefixMaxBits := by
        decide
      omega
  · rw [filled.length]
    exact below

end Build

end Jxlz
