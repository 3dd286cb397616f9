import Jxlz.Entropy.HistogramFields
import Jxlz.Lib.Fenwick
import Jxlz.Lib.FuelLoop

namespace Jxlz

open Fenwick

/-!
# Lehmer codes

Mirrors `decodeLehmerCode` of `toc.zig`.  Digit `i` of the code is the rank of
entry `i` among the values that no earlier entry has used; an implicit binary
tree over a power of two of values counts the unused ones, finds the value of a
rank and takes it out.
-/

/-- `ValueOfLowest1Bit`: the bits shared with the two's complement. -/
def valueOfLowest1Bit
    (width value : Nat) :
    Nat :=
  value &&& ((2 ^ width - 1 - value + 1) % 2 ^ width)

/-- The place that the search for a rank has reached. -/
structure Descent where
  bit : Nat
  next : Nat
  rank : Nat

/-- One level of the search: the rank is left of the candidate or behind it. -/
def Descent.step
    (temp : List Nat)
    (self : Descent) :
    Checked Descent :=
  let cand := self.next + self.bit
  if cand < 1 then
    fail .GenericError
  else
    match temp[cand - 1]? with
    | none => return { self with bit := self.bit >>> 1 }
    | some count =>
        if count < self.rank then
          return {
            bit := self.bit >>> 1
            next := cand
            rank := self.rank - count }
        else
          return { self with bit := self.bit >>> 1 }

/-- The unused value of a rank: all levels, from the root down. -/
def findRank
    (log2n : Nat)
    (temp : List Nat)
    (rank : Nat) :
    Checked Descent :=
  (List.range (log2n + 1)).foldlM (fun descent _ => Descent.step temp descent)
    { bit := 1 <<< log2n, next := 0, rank }

/-- One round of marking a value as used: the node at `next` loses one. -/
def markRound
    (paddedN : Nat) :
    Nat × List Nat → Checked ((Nat × List Nat) ⊕ List Nat)
  | (next, temp) =>
      if next ≤ paddedN then
        match temp[next - 1]? with
        | none => return .inl (next + valueOfLowest1Bit 64 next, temp)
        | some count => do
            let fewer ← subU count 1
            return .inl
              (next + valueOfLowest1Bit 64 next, temp.set (next - 1) fewer)
      else
        return .inr temp

/-- Marks a value as used; every round leads to a higher node. -/
def markUsed
    (paddedN value : Nat)
    (temp : List Nat) :
    Checked (List Nat) :=
  FuelLoop.run (markRound paddedN) .running (paddedN + 2) (value + 1, temp)

/-- The next entry of the permutation, which is no longer unused then. -/
def lehmerRound
    (code : List Nat)
    (n log2n : Nat)
    (state : List Nat × List Nat)
    (i : Nat) :
    Checked (List Nat × List Nat) := do
  let (temp, permutation) := state
  let digit ← index code i
  let place ← castU 32 i
  let sum ← addU 32 digit place
  if n ≤ sum then
    fail .GenericError
  else
    let rank ← addU 32 digit 1
    let descent ← findRank log2n temp rank
    let value ← castU 32 descent.next
    let temp ← markUsed (1 <<< log2n) descent.next temp
    return (temp, permutation ++ [value])

/--
Decode a Lehmer code into a permutation.  `temp` is scratch memory for the
tree; the destination has `n` entries, which are written in order.
-/
def decodeLehmerCode
    (code temp : List Nat)
    (n : Nat) :
    Checked (List Nat) := do
  if n = 0 then
    fail .GenericError
  else
    let log2n := ceilLog2Nonzero n
    let paddedN := 1 <<< log2n
    require (paddedN ≤ temp.length)
    require (paddedN < 2 ^ 32)
    let tree :=
      (List.range paddedN).map fun i => valueOfLowest1Bit 32 (i + 1)
    let (_, permutation) ←
      (List.range n).foldlM (lehmerRound code n log2n)
        (tree ++ temp.drop paddedN, [])
    return permutation

/-- The bits shared with the two's complement are the lowest one. -/
theorem valueOfLowest1Bit_eq
    {width value : Nat}
    (positive : 0 < value)
    (fits : value < 2 ^ width) :
    valueOfLowest1Bit width value = lowBit value := by
  have complement :
      (2 ^ width - 1 - value + 1) % 2 ^ width = 2 ^ width - value := by
    rw [show 2 ^ width - 1 - value + 1 = 2 ^ width - value by omega]
    exact Nat.mod_eq_of_lt (by omega)
  rw [valueOfLowest1Bit, complement, and_complement positive fits]

/-- The padded size holds every value. -/
theorem le_two_pow_ceilLog2
    {value : Nat}
    (positive : 0 < value) :
    value ≤ 2 ^ ceilLog2Nonzero value := by
  have nonzero : value ≠ 0 :=
    Nat.pos_iff_ne_zero.1 positive
  have lower := Nat.log2_self_le nonzero
  have upper : value < 2 ^ (value.log2 + 1) :=
    Nat.lt_log2_self
  unfold ceilLog2Nonzero
  split
  next sharesNone =>
    by_contra above
    -- Otherwise the number before has the same highest bit.
    have sameLog : (value - 1).log2 = value.log2 :=
      (Nat.log2_eq_iff (by omega)).2 (by omega)
    have both : (value &&& (value - 1)).testBit value.log2 = true := by
      have lowerBit := Nat.testBit_log2 (show value - 1 ≠ 0 by omega)
      rw [sameLog] at lowerBit
      rw [Nat.testBit_and, Nat.testBit_log2 nonzero, lowerBit]
      rfl
    rw [sharesNone] at both
    simp at both
  next sharesSome =>
    omega

/-- The padded size of at most 2^16 values. -/
theorem ceilLog2_le_sixteen
    {value : Nat}
    (small : value ≤ 2 ^ 16) :
    ceilLog2Nonzero value ≤ 16 := by
  by_cases zero : value = 0
  · subst zero
    decide
  by_cases isLast : value = 2 ^ 16
  · subst isLast
    decide
  have short : value.log2 < 16 :=
    (Nat.log2_lt zero).2 (by omega)
  unfold ceilLog2Nonzero
  split <;> omega

/-- Every node of the fresh tree counts all values below it. -/
theorem counts_fresh
    {log2n : Nat}
    (short : log2n < 32)
    (rest : List Nat) :
    Counts (2 ^ log2n) (Finset.range (2 ^ log2n))
      ((List.range (2 ^ log2n)).map (fun i => valueOfLowest1Bit 32 (i + 1)) ++
        rest) := by
  have fits : 2 ^ log2n < 2 ^ 32 :=
    Nat.pow_lt_pow_right (by decide) short
  apply counts_range
  intro node positive inTree
  have inside : node - 1 < 2 ^ log2n := by
    omega
  rw [List.getElem?_append_left (by simpa using inside), List.getElem?_map,
    List.getElem?_range inside, Option.map_some, Nat.sub_add_cancel positive,
    valueOfLowest1Bit_eq positive (by omega)]

section

variable {log2n rank : Nat}
variable {items : Finset Nat}
variable {temp : List Nat}

/-- One level of the search halves its width. -/
theorem descent_step
    {exponent next left : Nat}
    (counts : Counts (2 ^ log2n) items temp)
    (searching : Searching items rank (2 ^ (exponent + 1)) next left)
    (inTree : next + 2 ^ exponent ≤ 2 ^ log2n) :
    ∃ nextAfter leftAfter,
      Descent.step temp { bit := 2 ^ exponent, next, rank := left } =
          .ok
            { bit := 2 ^ exponent >>> 1
              next := nextAfter
              rank := leftAfter } ∧
        Searching items rank (2 ^ exponent) nextAfter leftAfter ∧
        (nextAfter = next ∨ nextAfter = next + 2 ^ exponent) ∧
        (left ≤ (items ∩ span (next + 2 ^ exponent)).card →
          nextAfter = next) := by
  have positive : 0 < 2 ^ exponent :=
    Nat.two_pow_pos exponent
  have found := counts (next + 2 ^ exponent) (by omega) inTree
  unfold Descent.step
  dsimp only
  rw [if_neg (by omega), found]
  dsimp only
  by_cases tooFew : (items ∩ span (next + 2 ^ exponent)).card < left
  · rw [if_pos tooFew]
    refine ⟨_, _, rfl, searching.skip tooFew, Or.inr rfl, ?_⟩
    intro enough
    omega
  · rw [if_neg tooFew]
    exact ⟨_, _, rfl, searching.stay (by omega), Or.inl rfl, fun _ => rfl⟩

/-- The search below a node finds the value of the rank. -/
theorem descent_run
    {exponent next left : Nat}
    (counts : Counts (2 ^ log2n) items temp)
    (searching : Searching items rank (2 ^ exponent) next left)
    (inTree : next + 2 ^ exponent ≤ 2 ^ log2n)
    (steps : List Nat)
    (allLevels : steps.length = exponent) :
    ∃ descent,
      steps.foldlM (fun descent _ => Descent.step temp descent)
          { bit := 2 ^ exponent >>> 1, next, rank := left } =
          .ok descent ∧
        descent.next ∈ items ∧ below items descent.next + 1 = rank := by
  induction exponent generalizing next left steps with
  | zero =>
      rw [List.length_eq_zero_iff] at allLevels
      subst allLevels
      exact ⟨_, rfl, searching.found⟩
  | succ exponent inductionHypothesis =>
      cases steps with
      | nil =>
          cases allLevels
      | cons step steps =>
          have half : 2 ^ (exponent + 1) >>> 1 = 2 ^ exponent := by
            rw [Nat.shiftRight_eq_div_pow, pow_succ]
            omega
          have double : 2 ^ (exponent + 1) = 2 ^ exponent * 2 :=
            pow_succ 2 exponent
          obtain ⟨nextAfter, leftAfter, stepped, searchingAfter, moved, _⟩ :=
            descent_step counts searching (by omega)
          obtain ⟨descent, ran, isFound⟩ :=
            inductionHypothesis searchingAfter
              (by
                rcases moved with same | further
                · omega
                · omega)
              steps (Nat.succ.inj allLevels)
          refine ⟨descent, ?_, isFound⟩
          rw [List.foldlM_cons, half, stepped]
          exact ran

/-- The search from the root finds the value of every rank. -/
theorem findRank_ok
    (counts : Counts (2 ^ log2n) items temp)
    (inRange : items ⊆ Finset.range (2 ^ log2n))
    (positive : 0 < rank)
    (enough : rank ≤ items.card) :
    ∃ descent,
      findRank log2n temp rank = .ok descent ∧
        descent.next ∈ items ∧ below items descent.next + 1 = rank := by
  have allBelow : below items (2 ^ log2n) = items.card :=
    below_of_subset inRange
  have everything : items ∩ span (2 ^ log2n) = items := by
    rw [Finset.inter_eq_left]
    intro item isItem
    have isBelow := Finset.mem_range.1 (inRange isItem)
    have lowest : lowBit (2 ^ log2n) = 2 ^ log2n := by
      simpa using lowBit_odd_multiple log2n 0
    rw [mem_span, lowest]
    omega
  have start : Searching items rank (2 ^ (log2n + 1)) 0 rank := by
    refine ⟨Nat.dvd_zero _, by simp, positive, ?_⟩
    have wider : items ⊆ Finset.range (0 + 2 ^ (log2n + 1)) :=
      inRange.trans
        (Finset.range_subset_range.2 (by
          rw [Nat.zero_add]
          exact Nat.pow_le_pow_right (by decide) (by omega)))
    rw [below_of_subset wider]
    exact enough
  obtain ⟨next, left, stepped, searching, _, stays⟩ :=
    descent_step counts start (by omega)
  have atRoot : next = 0 :=
    stays (by rwa [Nat.zero_add, everything])
  subst atRoot
  obtain ⟨descent, ran, isFound⟩ :=
    descent_run counts searching (by omega) ((List.range log2n).map Nat.succ)
      (by simp)
  refine ⟨descent, ?_, isFound⟩
  rw [findRank, Nat.one_shiftLeft, List.range_succ_eq_map, List.foldlM_cons,
    stepped]
  exact ran

/-- Marking takes the value out of every node that counts it. -/
theorem markRun_ok
    {item node fuel : Nat}
    (erased : PartlyErased (2 ^ log2n) items item node temp)
    (isItem : item ∈ items)
    (isCounted : item ∈ span node)
    (small : 2 ^ log2n < 2 ^ 64)
    (enough : 2 ^ log2n < node + fuel) :
    ∃ after,
      FuelLoop.run (markRound (2 ^ log2n)) .running (fuel + 1) (node, temp) =
          .ok after ∧
        Counts (2 ^ log2n) (items.erase item) after := by
  induction fuel generalizing node temp with
  | zero =>
      have outside : ¬ node ≤ 2 ^ log2n := by
        omega
      refine ⟨temp, ?_, erased.done (by omega)⟩
      rw [FuelLoop.run]
      simp only [markRound, if_neg outside, pure_eq_ok]
  | succ fuel inductionHypothesis =>
      by_cases inTree : node ≤ 2 ^ log2n
      · have step := lowBit_pos node
        have inside := (mem_span.1 isCounted).2
        have found := erased.get isItem isCounted inTree
        obtain ⟨after, ran, counts⟩ :=
          inductionHypothesis (erased.step isItem isCounted inTree)
            (mem_span_add_lowBit isCounted) (by omega)
        refine ⟨after, ?_, counts⟩
        rw [FuelLoop.run]
        simp only [markRound, if_pos inTree, found, subU_ok (Nat.le_add_left 1 _),
          Nat.add_sub_cancel, ok_bind, pure_eq_ok,
          valueOfLowest1Bit_eq (show 0 < node by omega)
            (show node < 2 ^ 64 by omega)]
        exact ran
      · refine ⟨temp, ?_, erased.done (by omega)⟩
        rw [FuelLoop.run]
        simp only [markRound, if_neg inTree, pure_eq_ok]

/-- A used value is taken out of the tree. -/
theorem markUsed_ok
    {item : Nat}
    (counts : Counts (2 ^ log2n) items temp)
    (isItem : item ∈ items)
    (small : 2 ^ log2n < 2 ^ 64) :
    ∃ after,
      markUsed (2 ^ log2n) item temp = .ok after ∧
        Counts (2 ^ log2n) (items.erase item) after :=
  markRun_ok counts.partlyErased isItem (mem_span_succ item) small (by omega)

end

/-- The values that no entry has used, in ascending order. -/
def unused
    (n : Nat)
    (permutation : List Nat) :
    List Nat :=
  (List.range n).filter fun value => decide (value ∉ permutation)

/-- Each entry is the unused value whose rank is the digit. -/
def Selects
    (n : Nat)
    (code permutation : List Nat) :
    Prop :=
  ∀ (place : Nat) (inside : place < permutation.length),
    ∃ digit,
      code[place]? = some digit ∧
        (unused n (permutation.take place))[digit]? = some permutation[place]

/-- The place of a value among the unused ones is their number below it. -/
theorem getElem?_unused
    {n value : Nat}
    {permutation : List Nat}
    (inRange : value < n)
    (isUnused : value ∉ permutation) :
    (unused n permutation)[(unused value permutation).length]? = some value := by
  obtain ⟨rest, rfl⟩ := Nat.exists_eq_add_of_lt inRange
  unfold unused
  rw [show value + rest + 1 = value + (rest + 1) by omega, List.range_add,
    List.filter_append, List.getElem?_append_right (Nat.le_refl _),
    Nat.sub_self, List.range_succ_eq_map, List.map_cons, List.filter_cons,
    if_pos (by simpa using isUnused)]
  rfl

/-- The unused values below a bound, counted as a set. -/
theorem length_unused
    {bound size : Nat}
    (permutation : List Nat)
    (inside : bound ≤ size) :
    (unused bound permutation).length =
      below (Finset.range size \ permutation.toFinset) bound := by
  have asSet :
      (Finset.range size \ permutation.toFinset).filter (· < bound) =
        (unused bound permutation).toFinset := by
    ext value
    simp only [unused, Finset.mem_filter, Finset.mem_sdiff, Finset.mem_range,
      List.mem_toFinset, List.mem_filter, List.mem_range, decide_eq_true_eq]
    constructor
    · rintro ⟨⟨_, isUnused⟩, isBelow⟩
      exact ⟨isBelow, isUnused⟩
    · rintro ⟨isBelow, isUnused⟩
      exact ⟨⟨by omega, isUnused⟩, isBelow⟩
  rw [below, asSet, List.toFinset_card_of_nodup]
  exact List.nodup_range.filter _

/-- What the first rounds have left: their entries and the tree of the rest. -/
structure LehmerState
    (n log2n : Nat)
    (code : List Nat)
    (i : Nat)
    (state : List Nat × List Nat) :
    Prop where
  entries :
    state.2.length = i
  inRange :
    ∀ value ∈ state.2, value < n
  distinct :
    state.2.Nodup
  selects :
    Selects n code state.2
  counts :
    Counts (2 ^ log2n) (Finset.range (2 ^ log2n) \ state.2.toFinset) state.1

namespace LehmerState

variable {n log2n i : Nat}
variable {code : List Nat}
variable {state : List Nat × List Nat}

/-- All but the used values are left. -/
theorem card_left
    (lehmer : LehmerState n log2n code i state)
    {size : Nat}
    (inSize : n ≤ size) :
    (Finset.range size \ state.2.toFinset).card = size - i := by
  have used : state.2.toFinset ⊆ Finset.range size := by
    intro value isUsed
    have small := lehmer.inRange value (List.mem_toFinset.1 isUsed)
    exact Finset.mem_range.2 (by omega)
  rw [Finset.card_sdiff_of_subset used, Finset.card_range,
    List.toFinset_card_of_nodup lehmer.distinct, lehmer.entries]

/-- As many values below `n` are left as entries are missing. -/
theorem below_left
    (lehmer : LehmerState n log2n code i state)
    (inTree : n ≤ 2 ^ log2n) :
    below (Finset.range (2 ^ log2n) \ state.2.toFinset) n = n - i := by
  rw [← length_unused state.2 inTree, length_unused state.2 (Nat.le_refl n),
    below_of_subset Finset.sdiff_subset, lehmer.card_left (Nat.le_refl n)]

/-- One more round appends the unused value of the next digit. -/
theorem round
    (lehmer : LehmerState n log2n code i state)
    (inTree : n ≤ 2 ^ log2n)
    (small : 2 ^ log2n < 2 ^ 32)
    {digit : Nat}
    (isDigit : code[i]? = some digit)
    (valid : digit + i < n) :
    ∃ after,
      lehmerRound code n log2n state i = .ok after ∧
        LehmerState n log2n code (i + 1) after := by
  obtain ⟨temp, permutation⟩ := state
  have entries := lehmer.entries
  have left := lehmer.card_left inTree
  obtain ⟨descent, searched, isLeft, isRank⟩ :=
    findRank_ok lehmer.counts Finset.sdiff_subset (Nat.succ_pos digit)
      (by omega)
  obtain ⟨after, marked, counts⟩ :=
    markUsed_ok lehmer.counts isLeft (by omega)
  dsimp only at entries isLeft isRank searched marked counts
  obtain ⟨inPadded, isUnused⟩ := Finset.mem_sdiff.1 isLeft
  rw [Finset.mem_range] at inPadded
  rw [List.mem_toFinset] at isUnused
  -- A value from `n` on has at least as many unused values below it.
  have inRange : descent.next < n := by
    by_contra beyond
    have fewer :
        below (Finset.range (2 ^ log2n) \ permutation.toFinset) n ≤
          below (Finset.range (2 ^ log2n) \ permutation.toFinset)
            descent.next :=
      Finset.card_le_card
        (Finset.monotone_filter_right _ (by
          intro value isBelow
          omega))
    have allLeft := lehmer.below_left inTree
    dsimp only at allLeft
    omega
  have atDigit :
      (unused n permutation)[digit]? = some descent.next := by
    have place := getElem?_unused inRange isUnused
    rw [length_unused permutation (by omega : descent.next ≤ 2 ^ log2n),
      show below (Finset.range (2 ^ log2n) \ permutation.toFinset)
        descent.next = digit by omega] at place
    exact place
  refine ⟨(after, permutation ++ [descent.next]), ?_, ?_⟩
  · have isIndex : index code i = .ok digit :=
      index_eq_ok.2 isDigit
    simp only [lehmerRound, isIndex, castU_ok (show i < 2 ^ 32 by omega),
      addU_ok (show digit + i < 2 ^ 32 by omega), if_neg (Nat.not_le.2 valid),
      addU_ok (show digit + 1 < 2 ^ 32 by omega), searched,
      castU_ok (show descent.next < 2 ^ 32 by omega), Nat.one_shiftLeft, marked,
      ok_bind, pure_eq_ok]
  · refine ⟨by simp [entries], ?_, ?_, ?_, ?_⟩
    · intro value isEntry
      rcases List.mem_append.1 isEntry with old | new
      · exact lehmer.inRange value old
      · rw [List.mem_singleton.1 new]
        exact inRange
    · exact lehmer.distinct.append (List.nodup_singleton _)
        (List.disjoint_singleton.2 isUnused)
    · intro place inside
      dsimp only at inside ⊢
      rw [List.length_append, List.length_singleton] at inside
      by_cases isNew : place = permutation.length
      · subst isNew
        refine ⟨digit, by rwa [entries], ?_⟩
        rw [List.take_left, List.getElem_concat_length rfl]
        exact atDigit
      · have old : place < permutation.length := by
          omega
        obtain ⟨oldDigit, isOld, selected⟩ := lehmer.selects place old
        refine ⟨oldDigit, isOld, ?_⟩
        rw [List.take_append_of_le_length (by omega),
          List.getElem_append_left old]
        exact selected
    · have remaining :
          Finset.range (2 ^ log2n) \ (permutation ++ [descent.next]).toFinset =
            (Finset.range (2 ^ log2n) \ permutation.toFinset).erase
              descent.next := by
        ext value
        simp only [Finset.mem_sdiff, List.mem_toFinset, List.mem_append,
          List.mem_singleton, Finset.mem_erase, not_or]
        tauto
      dsimp only
      rw [remaining]
      exact counts

end LehmerState

/-- Entries behind leading zero digits stay where they are. -/
theorem Selects.fixes
    {n skip : Nat}
    {code permutation : List Nat}
    (selects : Selects n code permutation)
    (inside : skip ≤ permutation.length)
    (zeros : ∀ i, i < skip → code[i]? = some 0) :
    permutation.take skip = List.range skip := by
  induction skip with
  | zero =>
      rfl
  | succ skip inductionHypothesis =>
      have before :=
        inductionHypothesis (by omega) (fun i early => zeros i (by omega))
      obtain ⟨digit, isDigit, selected⟩ := selects skip (by omega)
      rw [zeros skip (Nat.lt_succ_self skip)] at isDigit
      cases isDigit
      rw [before] at selected
      have inRange : permutation[skip] < n := by
        have isUnused := List.mem_of_getElem? selected
        exact List.mem_range.1 (List.mem_of_mem_filter isUnused)
      have notBefore : permutation[skip] ∉ List.range skip := by
        have isUnused := List.mem_of_getElem? selected
        simpa [unused] using (List.mem_filter.1 isUnused).2
      rw [List.mem_range] at notBefore
      have first : (unused n (List.range skip))[0]? = some skip := by
        have place :=
          @getElem?_unused n skip (List.range skip) (by omega) (by simp)
        have noneBelow : unused skip (List.range skip) = [] := by
          simp [unused]
        rwa [noneBelow] at place
      rw [first] at selected
      rw [List.take_add_one, before, List.range_succ,
        List.getElem?_eq_getElem (by omega), ← Option.some.inj selected]
      rfl

/--
The permutation of a Lehmer code: entry `i` is the unused value of rank
`code[i]`, and all values below `n` are used in the end.
-/
theorem decodeLehmerCode_ok
    {n : Nat}
    (positive : 0 < n)
    (small : n ≤ 65536)
    {code temp : List Nat}
    (valid : ∀ i, i < n → ∃ digit, code[i]? = some digit ∧ digit + i < n)
    (scratch : 2 ^ ceilLog2Nonzero n ≤ temp.length) :
    ∃ permutation,
      decodeLehmerCode code temp n = .ok permutation ∧
        Selects n code permutation ∧ permutation.Perm (List.range n) := by
  have inTree := le_two_pow_ceilLog2 positive
  have short : ceilLog2Nonzero n ≤ 16 :=
    ceilLog2_le_sixteen small
  have fits : 2 ^ ceilLog2Nonzero n < 2 ^ 32 :=
    Nat.pow_lt_pow_right (by decide) (by omega)
  unfold decodeLehmerCode
  rw [if_neg (by omega)]
  dsimp only
  simp only [Nat.one_shiftLeft]
  rw [require_ok scratch, ok_bind, require_ok fits, ok_bind]
  generalize ceilLog2Nonzero n = log2n at *
  have start :
      LehmerState n log2n code 0
        ((List.range (2 ^ log2n)).map
            (fun i => valueOfLowest1Bit 32 (i + 1)) ++
          temp.drop (2 ^ log2n), []) := by
    refine ⟨rfl, by simp, List.nodup_nil, ?_, ?_⟩
    · intro place inside
      cases inside
    · simpa using counts_fresh (by omega) (temp.drop (2 ^ log2n))
  obtain ⟨⟨after, permutation⟩, ran, lehmer⟩ :=
    foldlM_range_ok (LehmerState n log2n code) n start
      (fun i state inRange lehmer => by
        obtain ⟨digit, isDigit, isValid⟩ := valid i inRange
        exact lehmer.round inTree fits isDigit isValid)
  refine ⟨permutation, by rw [ran]; rfl, lehmer.selects, ?_⟩
  have distinct := lehmer.distinct
  have entries := lehmer.entries
  dsimp only at distinct entries
  have allUsed : permutation.toFinset = Finset.range n := by
    apply Finset.eq_of_subset_of_card_le
    · intro value isEntry
      exact Finset.mem_range.2
        (lehmer.inRange value (List.mem_toFinset.1 isEntry))
    · rw [List.toFinset_card_of_nodup distinct, entries, Finset.card_range]
  rw [List.perm_ext_iff_of_nodup distinct List.nodup_range]
  intro value
  rw [← List.mem_toFinset, allUsed, Finset.mem_range, List.mem_range]

end Jxlz
