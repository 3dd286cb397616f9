import Jxlz.Entropy.HuffmanTable
import Jxlz.Lib.CanonicalCode

namespace Jxlz

open AnsParams BitReversal CanonicalCode FuelLoop

/-!
# The root table of a complete code

The codes of a length are filled in one after the other, and those of the next
length behind them.  What is known at a codeword is what the ones before it
have left: their entries of the table, the counts that remain, and its own key.
-/

section Keys

theorem and_bit_ne_zero
    (key len : Nat) :
    key &&& 1 <<< len ≠ 0 ↔ key.testBit len = true := by
  rw [Nat.one_shiftLeft, Nat.and_two_pow]
  cases key.testBit len <;> simp

theorem clearStep_congr
    {first second len : Nat}
    (same : ∀ i < len, first.testBit i = second.testBit i) :
    clearStep first len = clearStep second len := by
  induction len with
  | zero =>
      rfl
  | succ len inductionHypothesis =>
      have bit := same len (Nat.lt_succ_self len)
      have below := inductionHypothesis fun i small => same i (Nat.lt_succ_of_lt small)
      simp only [clearStep, and_bit_ne_zero, bit, below]

/-- A key has a highest bit that is not set, unless it is the last one. -/
theorem clearStep_reverse
    {len word : Nat}
    (next : word + 1 < 2 ^ len) :
    ∃ i < len,
      clearStep (reverse len word) len = 2 ^ i ∧
        reverse len word % 2 ^ i + 2 ^ i = reverse len (word + 1) := by
  induction len generalizing word with
  | zero =>
      rw [Nat.pow_zero] at next
      omega
  | succ len inductionHypothesis =>
      rw [Nat.pow_succ] at next
      have low := reverse_lt len (word / 2)
      rcases Nat.mod_two_eq_zero_or_one word with even | odd
      · have nextHalf : (word + 1) / 2 = word / 2 := by
          omega
        have nextBit : (word + 1) % 2 = 1 := by
          omega
        have whole : reverse (len + 1) word = reverse len (word / 2) := by
          rw [reverse, even, Nat.zero_mul, Nat.add_zero]
        refine ⟨len, Nat.lt_succ_self len, ?_, ?_⟩
        · rw [whole, clearStep, if_neg, Nat.one_shiftLeft]
          rw [and_bit_ne_zero, Nat.testBit_lt_two_pow low]
          exact Bool.false_ne_true
        · rw [whole, Nat.mod_eq_of_lt low, reverse, nextHalf, nextBit,
            Nat.one_mul]
      · have nextHalf : (word + 1) / 2 = word / 2 + 1 := by
          omega
        have nextBit : (word + 1) % 2 = 0 := by
          omega
        have whole :
            reverse (len + 1) word = 2 ^ len + reverse len (word / 2) := by
          rw [reverse, odd, Nat.one_mul, Nat.add_comm]
        obtain ⟨i, small, isStep, isNext⟩ :=
          @inductionHypothesis (word / 2) (by omega)
        have later :
            reverse (len + 1) (word + 1) = reverse len (word / 2 + 1) := by
          rw [reverse, nextHalf, nextBit, Nat.zero_mul, Nat.add_zero]
        refine ⟨i, Nat.lt_succ_of_lt small, ?_, ?_⟩
        · rw [whole, clearStep, if_pos, ← isStep]
          · refine clearStep_congr fun j inside => ?_
            exact Nat.testBit_two_pow_add_gt inside _
          · rw [and_bit_ne_zero, Nat.testBit_two_pow_add_eq,
              Nat.testBit_lt_two_pow low]
            rfl
        · have apart : 2 ^ len = 2 ^ i * 2 ^ (len - i) := by
            rw [← Nat.pow_add]
            congr 1
            omega
          rw [whole, apart, Nat.mul_add_mod, isNext, later]

/-- The next key is the key of the next codeword. -/
theorem getNextKey_reverse
    {len word : Nat}
    (short : len ≤ 32)
    (next : word + 1 < 2 ^ len) :
    getNextKey (reverse len word) len = reverse len (word + 1) := by
  obtain ⟨i, small, isStep, isNext⟩ := clearStep_reverse next
  have fits : 2 ^ i < 2 ^ 32 :=
    Nat.pow_lt_pow_right (by decide) (Nat.lt_of_lt_of_le small short)
  have positive := Nat.two_pow_pos i
  have mask : (2 ^ i + 2 ^ 32 - 1) % 2 ^ 32 = 2 ^ i - 1 := by
    rw [show 2 ^ i + 2 ^ 32 - 1 = 2 ^ i - 1 + 2 ^ 32 by omega,
      Nat.add_mod_right, Nat.mod_eq_of_lt (by omega)]
  unfold getNextKey
  dsimp only
  rw [isStep, mask, Nat.and_two_pow_sub_one_eq_mod, isNext]

end Keys

section Stores

variable {table : List HuffmanCode}
variable {code : HuffmanCode}

theorem getElem?_set_eq
    {position : Nat}
    (inside : position < table.length)
    (index : Nat) :
    (table.set position code)[index]? =
      if index = position then some code else table[index]? := by
  rw [List.getElem?_set]
  by_cases same : position = index
  · subst same
    rw [if_pos rfl, if_pos inside, if_pos rfl]
  · rw [if_neg same, if_neg (Ne.symm same)]

theorem storeCode_ok
    {position : Nat}
    (inside : position < table.length) :
    storeCode table position code = .ok (table.set position code) := by
  unfold storeCode
  rw [require_ok inside]
  rfl

/-- The rounds of the replication store at every step from the start on. -/
theorem run_replicate
    {start step : Nat}
    (positive : 0 < step)
    (rounds : Nat)
    {fuel : Nat}
    (enough : rounds < fuel)
    (room : start + rounds * step ≤ table.length + (step - 1)) :
    ∃ filled,
      run (replicateRound start step code) .running fuel (rounds * step, table) =
          .ok filled ∧
        filled.length = table.length ∧
        ∀ index,
          filled[index]? =
            if start ≤ index ∧ index < start + rounds * step ∧
                (index - start) % step = 0 then
              some code
            else
              table[index]? := by
  induction rounds generalizing fuel table with
  | zero =>
      obtain ⟨fuel, rfl⟩ := Nat.exists_eq_add_of_lt enough
      refine ⟨table, ?_, rfl, ?_⟩
      · rw [Nat.zero_mul]
        rfl
      · intro index
        rw [if_neg]
        omega
  | succ rounds inductionHypothesis =>
      obtain ⟨fuel, rfl⟩ := Nat.exists_eq_add_of_lt enough
      have before : (rounds + 1) * step = rounds * step + step :=
        Nat.succ_mul rounds step
      have inside : start + rounds * step < table.length := by
        omega
      obtain ⟨filled, ran, sameLength, found⟩ :=
        @inductionHypothesis (table.set (start + rounds * step) code)
          (rounds + 1 + fuel) (by omega)
          (by rw [List.length_set]; omega)
      refine ⟨filled, ?_, by rw [sameLength, List.length_set], ?_⟩
      · rw [run, replicateRound, if_pos (by omega), subU_ok (by omega), ok_bind,
          before, Nat.add_sub_cancel, storeCode_ok inside, ok_bind]
        exact ran
      · intro index
        rw [found, getElem?_set_eq inside]
        by_cases last : index = start + rounds * step
        · subst last
          have multiple : (start + rounds * step - start) % step = 0 := by
            rw [Nat.add_sub_cancel_left, Nat.mul_mod_left]
          rw [if_pos rfl, ite_self, if_pos ⟨by omega, by omega, multiple⟩]
        · rw [if_neg last]
          congr 1
          rw [eq_iff_iff]
          constructor
          · rintro ⟨above, below, multiple⟩
            exact ⟨above, by omega, multiple⟩
          · rintro ⟨above, below, multiple⟩
            refine ⟨above, ?_, multiple⟩
            obtain ⟨place, isPlace⟩ := Nat.dvd_of_mod_eq_zero multiple
            have few : place < rounds + 1 := by
              refine @Nat.lt_of_mul_lt_mul_left step _ _ ?_
              rw [← isPlace, Nat.mul_comm step]
              omega
            have different : place ≠ rounds := by
              rintro rfl
              rw [Nat.mul_comm] at isPlace
              omega
            have product : step * place < step * rounds :=
              Nat.mul_lt_mul_of_pos_left (by omega) positive
            rw [Nat.mul_comm rounds]
            omega

/-- A code stands at every index of a table that has its residue. -/
theorem replicateValue_ok
    {first residue step size : Nat}
    (below : residue < step)
    (divides : step ∣ size)
    (room : first + size ≤ table.length) :
    ∃ filled,
      replicateValue table (first + residue) step size code = .ok filled ∧
        filled.length = table.length ∧
        ∀ index,
          filled[index]? =
            if first ≤ index ∧ index < first + size ∧
                (index - first) % step = residue then
              some code
            else
              table[index]? := by
  obtain ⟨rounds, rfl⟩ := divides
  have positive : 0 < step := by
    omega
  have few : rounds ≤ step * rounds :=
    Nat.le_mul_of_pos_left rounds positive
  obtain ⟨filled, ran, sameLength, found⟩ :=
    @run_replicate table code (first + residue) step positive rounds
      (step * rounds + 1) (by omega) (by rw [Nat.mul_comm]; omega)
  rw [Nat.mul_comm rounds step] at ran found
  refine ⟨filled, ran, sameLength, ?_⟩
  intro index
  rw [found]
  congr 1
  rw [eq_iff_iff]
  constructor
  · rintro ⟨above, _, multiple⟩
    obtain ⟨place, isPlace⟩ := Nat.dvd_of_mod_eq_zero multiple
    have few : place < rounds := by
      refine @Nat.lt_of_mul_lt_mul_left step _ _ ?_
      rw [← isPlace]
      omega
    have product : step * place + step ≤ step * rounds := by
      rw [← Nat.mul_succ]
      exact Nat.mul_le_mul_left step few
    refine ⟨by omega, by omega, ?_⟩
    rw [show index - first = residue + step * place by omega,
      Nat.add_mul_mod_self_left, Nat.mod_eq_of_lt below]
  · rintro ⟨above, inside, isResidue⟩
    have split := Nat.div_add_mod (index - first) step
    have few : (index - first) / step < rounds := by
      rw [Nat.div_lt_iff_lt_mul positive, Nat.mul_comm]
      omega
    refine ⟨by omega, by omega, ?_⟩
    rw [show index - (first + residue) = step * ((index - first) / step) by omega,
      Nat.mul_mod_right]

end Stores

section Doubling

/-- The filled part is doubled until it is the whole root table. -/
theorem run_double
    (more : Nat)
    {filled fuel : Nat}
    {table : List HuffmanCode}
    (enough : more < fuel)
    (room : 2 ^ (filled + more) ≤ table.length) :
    ∃ doubled,
      run doubleRound .running fuel (2 ^ (filled + more), 2 ^ filled, table) =
          .ok doubled ∧
        doubled.length = table.length ∧
        ∀ index < 2 ^ (filled + more),
          doubled[index]? = table[index % 2 ^ filled]? := by
  induction more generalizing filled fuel table with
  | zero =>
      obtain ⟨fuel, rfl⟩ := Nat.exists_eq_add_of_lt enough
      refine ⟨table, ?_, rfl, ?_⟩
      · rw [run, doubleRound, if_neg (fun different => different rfl)]
        rfl
      · intro index inside
        rw [Nat.add_zero] at inside
        rw [Nat.mod_eq_of_lt inside]
  | succ more inductionHypothesis =>
      obtain ⟨fuel, rfl⟩ := Nat.exists_eq_add_of_lt enough
      have twice : 2 ^ filled + 2 ^ filled = 2 ^ (filled + 1) := by
        rw [Nat.pow_succ, Nat.mul_two]
      have grows : 2 ^ (filled + 1) ≤ 2 ^ (filled + (more + 1)) :=
        Nat.pow_le_pow_right Nat.two_pos (by omega)
      have positive := Nat.two_pow_pos filled
      have total : filled + (more + 1) = filled + 1 + more := by
        omega
      have takes : (table.take (2 ^ filled)).length = 2 ^ filled := by
        rw [List.length_take]
        omega
      have sameLength :
          (table.take (2 ^ filled) ++ table.take (2 ^ filled) ++
              table.drop (2 ^ filled + 2 ^ filled)).length =
            table.length := by
        rw [List.length_append, List.length_append, takes, List.length_drop]
        omega
      obtain ⟨doubled, ran, isLength, found⟩ :=
        @inductionHypothesis (filled + 1) (more + 1 + fuel)
          (table.take (2 ^ filled) ++ table.take (2 ^ filled) ++
            table.drop (2 ^ filled + 2 ^ filled))
          (by omega) (by rw [sameLength, ← total]; exact room)
      refine ⟨doubled, ?_, by rw [isLength, sameLength], ?_⟩
      · rw [run, doubleRound, if_pos (by omega),
          require_ok (by omega : 2 ^ filled + 2 ^ filled ≤ table.length),
          ok_bind, Nat.shiftLeft_eq, Nat.pow_one, ← Nat.pow_succ, total]
        exact ran
      · intro index inside
        rw [total] at inside
        rw [found index inside]
        have small : index % 2 ^ (filled + 1) < 2 ^ filled + 2 ^ filled := by
          rw [twice]
          exact Nat.mod_lt _ (by positivity)
        have again : index % 2 ^ (filled + 1) % 2 ^ filled = index % 2 ^ filled :=
          Nat.mod_mod_of_dvd _ (pow_dvd_pow 2 (Nat.le_succ filled))
        rw [← again]
        generalize index % 2 ^ (filled + 1) = place at small
        rw [List.getElem?_append_left
          (by rw [List.length_append, takes]; exact small)]
        by_cases lower : place < 2 ^ filled
        · rw [List.getElem?_append_left (by rw [takes]; exact lower),
            List.getElem?_take_of_lt lower, Nat.mod_eq_of_lt lower]
        · rw [List.getElem?_append_right (by rw [takes]; omega), takes,
            List.getElem?_take_of_lt (by omega),
            Nat.mod_eq_sub_mod (by omega), Nat.mod_eq_of_lt (by omega)]

theorem replicateRoot_ok
    {filled total : Nat}
    {table : List HuffmanCode}
    (ordered : filled ≤ total)
    (room : 2 ^ total ≤ table.length) :
    ∃ doubled,
      replicateRoot table (2 ^ filled) (2 ^ total) = .ok doubled ∧
        doubled.length = table.length ∧
        ∀ index < 2 ^ total, doubled[index]? = table[index % 2 ^ filled]? := by
  obtain ⟨more, rfl⟩ := Nat.exists_eq_add_of_le ordered
  have few : more < 2 ^ (filled + more) :=
    Nat.lt_of_le_of_lt (Nat.le_add_left more filled) Nat.lt_two_pow_self
  exact run_double more (by omega) room

end Doubling

section Folds

/-- All codes of a length, if each round takes the invariant to the next one. -/
theorem codesOfLength_ok
    {invariant : Nat → HuffmanFill → Prop}
    {round : HuffmanFill → Checked HuffmanFill}
    {fill : HuffmanFill}
    {len codes : Nat}
    (counted : index fill.count len = .ok codes)
    (initially : invariant 0 fill)
    (advances :
      ∀ i fill,
        i < codes →
        invariant i fill →
        ∃ next, round fill = .ok next ∧ invariant (i + 1) next) :
    ∃ last,
      codesOfLength round fill len = .ok last ∧ invariant codes last := by
  unfold codesOfLength
  rw [counted, ok_bind]
  exact foldlM_range_ok invariant codes initially advances

/-- The lengths one after the other. -/
theorem foldlM_lengths_ok
    {σ : Type}
    {invariant : Nat → σ → Prop}
    {step : σ → Nat → Checked σ}
    (first lengths : Nat)
    {fill : σ}
    (initially : invariant first fill)
    (advances :
      ∀ len fill,
        first ≤ len →
        len < first + lengths →
        invariant len fill →
        ∃ next, step fill len = .ok next ∧ invariant (len + 1) next) :
    ∃ last,
      (List.range' first lengths).foldlM step fill = .ok last ∧
        invariant (first + lengths) last := by
  induction lengths generalizing first fill with
  | zero =>
      exact ⟨fill, rfl, initially⟩
  | succ lengths inductionHypothesis =>
      obtain ⟨next, stepped, holds⟩ :=
        advances first fill (Nat.le_refl first) (by omega) initially
      obtain ⟨last, ran, ends⟩ :=
        inductionHypothesis (first + 1) holds fun len fill above below =>
          advances len fill (by omega) (by omega)
      refine ⟨last, ?_, ?_⟩
      · rw [List.range'_succ, List.foldlM_cons, stepped]
        exact ran
      · rwa [show first + (lengths + 1) = first + 1 + lengths by omega]

end Folds

/-- The codes that are left of a length at a codeword. -/
def remaining
    (count : Nat → Nat)
    (len i other : Nat) :
    Nat :=
  if other < len then 0 else if other = len then count len - i else count other

/-- The counters stand at a codeword. -/
structure StandsAt
    (count : Nat → Nat)
    (len i : Nat)
    (fill : HuffmanFill) :
    Prop where
  lengths : fill.count.length = prefixMaxBits + 1
  left :
    ∀ other,
      1 ≤ other →
      other ≤ prefixMaxBits →
      fill.count.getD other 0 = remaining count len i other
  symbol : fill.symbol = rank count len i
  key :
    place prefixMaxBits count len i < 2 ^ prefixMaxBits →
      fill.key = key prefixMaxBits count len i

section Stands

variable {count : Nat → Nat}
variable {len i : Nat}
variable {fill : HuffmanFill}

theorem StandsAt.count_eq
    (stands : StandsAt count len i fill)
    (positive : 1 ≤ len)
    (bounded : len ≤ prefixMaxBits) :
    index fill.count len = .ok (count len - i) := by
  have lengths := stands.lengths
  have left := stands.left len positive bounded
  rw [index_getD (by omega) 0, left]
  unfold remaining
  rw [if_neg (Nat.lt_irrefl len), if_pos rfl]

/-- Behind the last codeword of a length stands the first of the next one. -/
theorem StandsAt.next
    (stands : StandsAt count len (count len) fill)
    (positive : 1 ≤ len) :
    StandsAt count (len + 1) 0 fill where
  lengths := stands.lengths
  left := by
    intro other isLength small
    rw [stands.left other isLength small]
    unfold remaining
    by_cases later : other = len + 1
    · subst later
      split_ifs <;> omega
    · split_ifs <;> omega
  symbol := by
    rw [stands.symbol, rank_succ positive]
  key := by
    have same :
        place prefixMaxBits count (len + 1) 0 =
          place prefixMaxBits count len (count len) := by
      rw [place_zero, base_succ positive]
    intro inside
    rw [same] at inside
    rw [stands.key inside]
    unfold CanonicalCode.key
    rw [same]

/-- One codeword is done. -/
theorem StandsAt.succ
    {table : List HuffmanCode}
    (stands : StandsAt count len i fill)
    (isCode : IsCode prefixMaxBits count len i) :
    StandsAt count len (i + 1)
      { fill with
        table
        count := fill.count.set len (count len - i - 1)
        symbol := fill.symbol + 1
        key := getNextKey fill.key len } where
  lengths := by
    rw [List.length_set]
    exact stands.lengths
  left := by
    intro other positive small
    have lengths := stands.lengths
    have bounded := isCode.bounded
    rw [getD_set (by omega), stands.left other positive small]
    unfold remaining
    split_ifs <;> omega
  symbol := by
    dsimp only
    rw [stands.symbol]
    unfold rank
    omega
  key := by
    intro inside
    have bounded := isCode.bounded
    have small : len ≤ 32 :=
      Nat.le_trans bounded (by decide)
    rw [place_succ] at inside
    dsimp only
    rw [stands.key (Nat.lt_of_le_of_lt (Nat.le_add_right _ _) inside),
      key_eq bounded, key_eq bounded]
    have words : word count len (i + 1) = word count len i + 1 := by
      unfold word
      omega
    rw [words]
    refine getNextKey_reverse small ?_
    have apart : 2 ^ prefixMaxBits = 2 ^ len * 2 ^ (prefixMaxBits - len) := by
      rw [← Nat.pow_add]
      congr 1
      omega
    rw [place_eq bounded, apart, ← Nat.succ_mul] at inside
    exact Nat.lt_of_mul_lt_mul_right inside

end Stands

/-- What both kinds of tables are filled from. -/
structure Fillable
    (count : Nat → Nat)
    (sorted : List Nat) :
    Prop where
  complete : Complete prefixMaxBits count
  symbols : rank count (prefixMaxBits + 1) 0 ≤ sorted.length

/-- The symbol of a codeword. -/
def symbolOf
    (count : Nat → Nat)
    (sorted : List Nat)
    (len i : Nat) :
    Nat :=
  sorted.getD (rank count len i) 0

/-- The entries of a root table that a codeword is found at. -/
def InRoot
    (count : Nat → Nat)
    (sorted : List Nat)
    (size : Nat)
    (table : List HuffmanCode)
    (len i : Nat) :
    Prop :=
  ∀ entry < size,
    entry % 2 ^ len = key prefixMaxBits count len i →
    table[entry]? = some ⟨len, symbolOf count sorted len i⟩

/-- The root table is filled up to a codeword. -/
structure RootFilled
    (count : Nat → Nat)
    (sorted : List Nat)
    (begun : HuffmanFill)
    (len i : Nat)
    (fill : HuffmanFill) :
    Prop where
  stands : StandsAt count len i fill
  frame :
    fill = { begun with
      table := fill.table
      count := fill.count
      key := fill.key
      symbol := fill.symbol }
  length : fill.table.length = begun.table.length
  filled :
    ∀ len' i',
      IsCode prefixMaxBits count len' i' →
      place prefixMaxBits count len' i' < place prefixMaxBits count len i →
      InRoot count sorted begun.tableSize fill.table len' i'

section Root

variable {count : Nat → Nat}
variable {sorted : List Nat}

theorem Fillable.symbol_ok
    {fill : HuffmanFill}
    {len i : Nat}
    (fillable : Fillable count sorted)
    (stands : StandsAt count len i fill)
    (isCode : IsCode prefixMaxBits count len i) :
    index sorted fill.symbol = .ok (symbolOf count sorted len i) := by
  have inside := Nat.lt_of_lt_of_le isCode.rank_lt fillable.symbols
  rw [stands.symbol, index_getD inside 0]
  rfl

variable {begun fill : HuffmanFill}
variable {tableBits len i : Nat}

/-- The codewords before the next one are this one and those before it. -/
theorem before_succ
    {len' i' : Nat}
    (isCode : IsCode prefixMaxBits count len i)
    (isCode' : IsCode prefixMaxBits count len' i')
    (before :
      place prefixMaxBits count len' i' <
        place prefixMaxBits count len (i + 1)) :
    (len' = len ∧ i' = i) ∨
      place prefixMaxBits count len' i' + 2 ^ (prefixMaxBits - len') ≤
        place prefixMaxBits count len i := by
  have order :=
    earlier_of_place isCode.positive (Nat.succ_le_of_lt isCode.counted) before
  by_cases same : len' = len ∧ i' = i
  · exact .inl same
  · exact .inr (isCode'.before (by omega))

/-- No entry starts with two codewords. -/
theorem keys_apart
    {len' i' entry : Nat}
    (complete : Complete prefixMaxBits count)
    (isCode : IsCode prefixMaxBits count len i)
    (isCode' : IsCode prefixMaxBits count len' i')
    (starts : entry % 2 ^ len = key prefixMaxBits count len i)
    (starts' : entry % 2 ^ len' = key prefixMaxBits count len' i') :
    len = len' ∧ i = i' :=
  holds_unique isCode isCode' ((isCode.holds_iff complete entry).2 starts)
    ((isCode'.holds_iff complete entry).2 starts')

/-- A code of the root table takes the next entries of it. -/
theorem rootRound_ok
    (fillable : Fillable count sorted)
    (isCode : IsCode prefixMaxBits count len i)
    (inTable : len ≤ tableBits)
    (isSize : begun.tableSize = 2 ^ tableBits)
    (room : 2 ^ tableBits ≤ begun.table.length)
    (filled : RootFilled count sorted begun len i fill) :
    ∃ next,
      rootRound sorted len fill = .ok next ∧
        RootFilled count sorted begun len (i + 1) next := by
  have positive := isCode.positive
  have bounded := isCode.bounded
  have counted := isCode.counted
  have inside : place prefixMaxBits count len i < 2 ^ prefixMaxBits := by
    have whole := isCode.inside fillable.complete
    have width := Nat.two_pow_pos (prefixMaxBits - len)
    omega
  have isKey := filled.stands.key inside
  have sameSize : fill.tableSize = 2 ^ tableBits := by
    rw [filled.frame]
    exact isSize
  obtain ⟨table, stored, sameLength, found⟩ :=
    @replicateValue_ok fill.table ⟨len, symbolOf count sorted len i⟩ 0
      (key prefixMaxBits count len i) (2 ^ len) (2 ^ tableBits)
      (key_lt bounded i) (pow_dvd_pow 2 inTable)
      (by rw [filled.length, Nat.zero_add]; exact room)
  rw [Nat.zero_add] at stored
  refine ⟨{
    fill with
    table
    count := fill.count.set len (count len - i - 1)
    symbol := fill.symbol + 1
    key := getNextKey fill.key len }, ?_, ?_⟩
  · unfold rootRound
    rw [filled.stands.count_eq positive bounded, ok_bind, subU_ok (by omega),
      ok_bind, fillable.symbol_ok filled.stands isCode, ok_bind, isKey, sameSize,
      Nat.one_shiftLeft, stored, ok_bind]
    rfl
  · constructor
    · exact filled.stands.succ isCode
    · rw [filled.frame]
    · rw [sameLength, filled.length]
    · intro len' i' isCode' before entry small starts'
      rw [found entry]
      rw [isSize] at small
      rcases before_succ isCode isCode' before with ⟨rfl, rfl⟩ | earlier
      · rw [if_pos ⟨Nat.zero_le entry, by omega, starts'⟩]
      · rw [if_neg]
        · refine filled.filled len' i' isCode' ?_ entry (by rwa [isSize]) starts'
          have width := Nat.two_pow_pos (prefixMaxBits - len')
          omega
        · rintro ⟨_, _, starts⟩
          obtain ⟨rfl, rfl⟩ :=
            keys_apart fillable.complete isCode isCode' starts starts'
          have width := Nat.two_pow_pos (prefixMaxBits - len)
          omega

/-- The codes of a length are followed by those of the next one. -/
theorem RootFilled.next
    (filled : RootFilled count sorted begun len (count len) fill)
    (positive : 1 ≤ len) :
    RootFilled count sorted begun (len + 1) 0 fill where
  stands := filled.stands.next positive
  frame := filled.frame
  length := filled.length
  filled := by
    intro len' i' isCode' before
    rw [place_zero, base_succ positive] at before
    exact filled.filled len' i' isCode' before

/-- The root table holds every codeword that fits into it. -/
theorem fillRoot_ok
    (fillable : Fillable count sorted)
    (isBits : begun.tableBits = tableBits)
    (isSize : begun.tableSize = 2 ^ tableBits)
    (small : tableBits ≤ prefixMaxBits)
    (room : 2 ^ tableBits ≤ begun.table.length)
    (stands : StandsAt count 1 0 begun) :
    ∃ last,
      fillRoot sorted begun = .ok last ∧
        RootFilled count sorted begun (tableBits + 1) 0 last := by
  have initially : RootFilled count sorted begun 1 0 begun := by
    refine ⟨stands, rfl, rfl, ?_⟩
    intro len' i' isCode' before
    rw [place_zero] at before
    simp [base] at before
  obtain ⟨last, ran, ends⟩ :=
    @foldlM_lengths_ok HuffmanFill
      (fun len fill => RootFilled count sorted begun len 0 fill)
      (fun self codeBits =>
        codesOfLength (rootRound sorted codeBits) self codeBits)
      1 tableBits begun initially (by
        intro len fill positive below filled
        have bounded : len ≤ prefixMaxBits := by
          omega
        obtain ⟨next, ran, whole⟩ :=
          @codesOfLength_ok
            (fun i fill => RootFilled count sorted begun len i fill)
            (rootRound sorted len) fill len (count len)
            (filled.stands.count_eq positive bounded) filled (by
              intro i fill counted filled
              exact rootRound_ok fillable ⟨positive, bounded, counted⟩ (by omega)
                isSize room filled)
        exact ⟨next, ran, whole.next positive⟩)
  refine ⟨last, ?_, ?_⟩
  · unfold fillRoot
    rw [isBits]
    exact ran
  · rwa [Nat.add_comm] at ends

end Root

end Jxlz
