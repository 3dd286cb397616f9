import Mathlib

namespace Fenwick

/-!
# Counting trees over the numbers below a power of two

Node `node` of a binary indexed tree counts the items in the `lowBit node`
numbers in front of it.  A search that halves its width at every node finds the
item of a rank; removing an item takes one off each node that counts it, and
these are the nodes that adding the lowest set bit leads to.
-/

/-- The largest power of two that divides a positive number. -/
def lowBit
    (value : Nat) :
    Nat :=
  2 ^ padicValNat 2 value

/-- Every positive number is an odd multiple of a power of two. -/
theorem exists_odd_multiple
    {value : Nat}
    (positive : 0 < value) :
    ∃ exponent half, value = 2 ^ exponent * (2 * half + 1) := by
  obtain ⟨exponent, odd, isOdd, isValue⟩ :=
    Nat.exists_eq_two_pow_mul_odd (Nat.pos_iff_ne_zero.1 positive)
  obtain ⟨half, rfl⟩ := isOdd
  exact ⟨exponent, half, isValue⟩

@[simp]
theorem lowBit_odd_multiple
    (exponent half : Nat) :
    lowBit (2 ^ exponent * (2 * half + 1)) = 2 ^ exponent := by
  have odd : padicValNat 2 (2 * half + 1) = 0 :=
    padicValNat.eq_zero_of_not_dvd (by omega)
  rw [lowBit, padicValNat.mul (by positivity) (by omega),
    padicValNat.prime_pow, odd, Nat.add_zero]

theorem lowBit_pos
    (value : Nat) :
    0 < lowBit value :=
  Nat.two_pow_pos _

theorem lowBit_dvd
    (value : Nat) :
    lowBit value ∣ value :=
  pow_padicValNat_dvd

theorem lowBit_le
    {value : Nat}
    (positive : 0 < value) :
    lowBit value ≤ value :=
  Nat.le_of_dvd positive (lowBit_dvd value)

/-- A power of two that divides a number divides its lowest bit. -/
theorem le_lowBit_of_dvd
    {value exponent : Nat}
    (positive : 0 < value)
    (divides : 2 ^ exponent ∣ value) :
    2 ^ exponent ≤ lowBit value :=
  Nat.pow_le_pow_right (by decide)
    ((padicValNat_dvd_iff_le (Nat.pos_iff_ne_zero.1 positive)).1 divides)

/-- The bits that a number shares with its two's complement. -/
theorem and_complement
    {width value : Nat}
    (positive : 0 < value)
    (fits : value < 2 ^ width) :
    value &&& (2 ^ width - value) = lowBit value := by
  obtain ⟨exponent, half, rfl⟩ := exists_odd_multiple positive
  have inWidth : exponent < width := by
    by_contra tooHigh
    have grows : 2 ^ width ≤ 2 ^ exponent :=
      Nat.pow_le_pow_right (by decide) (by omega)
    nlinarith
  obtain ⟨rest, rfl⟩ := Nat.exists_eq_add_of_lt inWidth
  have split : 2 ^ (exponent + rest + 1) = 2 ^ exponent * (2 * 2 ^ rest) := by
    ring
  have halfFits : half < 2 ^ rest := by
    have inside : 2 * half + 1 < 2 * 2 ^ rest := by
      rw [split] at fits
      exact Nat.lt_of_mul_lt_mul_left fits
    omega
  have complement :
      2 ^ (exponent + rest + 1) - 2 ^ exponent * (2 * half + 1) =
        2 ^ exponent * (2 * (2 ^ rest - (half + 1)) + 1) := by
    rw [split, ← Nat.mul_sub]
    congr 1
    generalize 2 ^ rest = power at halfFits
    omega
  rw [lowBit_odd_multiple, complement]
  apply Nat.eq_of_testBit_eq
  intro place
  rw [Nat.testBit_and, Nat.testBit_two_pow_mul, Nat.testBit_two_pow_mul,
    Nat.testBit_two_pow]
  rcases Nat.lt_trichotomy place exponent with below | rfl | above
  · simp [Nat.not_le.2 below, Nat.ne_of_gt below]
  · simp
  · obtain ⟨offset, rfl⟩ := Nat.exists_eq_add_of_lt above
    have place : exponent + offset + 1 - exponent = offset + 1 := by
      omega
    rw [place, Nat.testBit_succ, Nat.testBit_succ,
      show (2 * half + 1) / 2 = half by omega,
      show (2 * (2 ^ rest - (half + 1)) + 1) / 2 = 2 ^ rest - (half + 1) by
        omega,
      Nat.testBit_two_pow_sub_succ halfFits,
      decide_eq_false (show exponent ≠ exponent + offset + 1 by omega)]
    cases half.testBit offset <;> simp

/-- The numbers that a node counts. -/
def span
    (node : Nat) :
    Finset Nat :=
  Finset.Ico (node - lowBit node) node

theorem mem_span
    {node item : Nat} :
    item ∈ span node ↔ node - lowBit node ≤ item ∧ item < node :=
  Finset.mem_Ico

/-- The first node that counts an item. -/
theorem mem_span_succ
    (item : Nat) :
    item ∈ span (item + 1) := by
  have positive := lowBit_pos (item + 1)
  exact mem_span.2 (by omega)

/-- Adding the lowest bit leads to another node that counts the item. -/
theorem mem_span_add_lowBit
    {node item : Nat}
    (isCounted : item ∈ span node) :
    item ∈ span (node + lowBit node) := by
  obtain ⟨atLeast, below⟩ := mem_span.1 isCounted
  have positive : 0 < node := by
    omega
  obtain ⟨exponent, half, rfl⟩ := exists_odd_multiple positive
  rw [lowBit_odd_multiple] at atLeast ⊢
  have sum :
      2 ^ exponent * (2 * half + 1) + 2 ^ exponent =
        2 ^ (exponent + 1) * (half + 1) := by
    ring
  have wider : 2 ^ (exponent + 1) ≤ lowBit (2 ^ (exponent + 1) * (half + 1)) :=
    le_lowBit_of_dvd (by positivity) (Dvd.intro _ rfl)
  rw [← sum] at wider
  rw [mem_span]
  have double : 2 ^ (exponent + 1) = 2 ^ exponent * 2 :=
    pow_succ 2 exponent
  omega

/-- No node between these two counts the item. -/
theorem notMem_span_between
    {node other item : Nat}
    (isCounted : item ∈ span node)
    (above : node < other)
    (below : other < node + lowBit node) :
    item ∉ span other := by
  obtain ⟨_, inside⟩ := mem_span.1 isCounted
  obtain ⟨offset, rfl⟩ := Nat.exists_eq_add_of_lt above
  -- The lowest bit of the other node divides its distance from this one.
  have divides : lowBit (node + offset + 1) ∣ offset + 1 := by
    rcases Nat.le_total (padicValNat 2 node)
        (padicValNat 2 (node + offset + 1)) with wider | narrower
    · have dividesBoth : lowBit node ∣ node + offset + 1 :=
        (Nat.pow_dvd_pow 2 wider).trans (lowBit_dvd _)
      have dividesOffset : lowBit node ∣ offset + 1 := by
        rw [Nat.add_assoc] at dividesBoth
        exact (Nat.dvd_add_right (lowBit_dvd node)).1 dividesBoth
      have tooSmall := Nat.le_of_dvd (by omega) dividesOffset
      omega
    · have dividesNode : lowBit (node + offset + 1) ∣ node :=
        (Nat.pow_dvd_pow 2 narrower).trans (lowBit_dvd node)
      have dividesOther := lowBit_dvd (node + offset + 1)
      rw [Nat.add_assoc] at dividesOther ⊢
      exact (Nat.dvd_add_right dividesNode).1 dividesOther
  have small := Nat.le_of_dvd (by omega) divides
  rw [mem_span]
  omega

/-- The number of items below a bound. -/
def below
    (items : Finset Nat)
    (bound : Nat) :
    Nat :=
  (items.filter (· < bound)).card

@[simp]
theorem below_zero
    (items : Finset Nat) :
    below items 0 = 0 := by
  simp [below]

theorem below_of_subset
    {items : Finset Nat}
    {bound : Nat}
    (inside : items ⊆ Finset.range bound) :
    below items bound = items.card := by
  rw [below, Finset.filter_true_of_mem]
  intro item isItem
  exact Finset.mem_range.1 (inside isItem)

/-- One more number below the bound. -/
theorem below_succ
    (items : Finset Nat)
    (bound : Nat) :
    below items (bound + 1) =
      below items bound + if bound ∈ items then 1 else 0 := by
  have split :
      items.filter (· < bound + 1) =
        items.filter (· < bound) ∪ items.filter (· = bound) := by
    ext item
    simp only [Finset.mem_filter, Finset.mem_union, ← and_or_left]
    rw [Nat.lt_succ_iff_lt_or_eq]
  rw [below, split, Finset.card_union_of_disjoint, ← below,
    Finset.filter_eq']
  · split <;> simp
  · rw [Finset.disjoint_filter]
    omega

/-- The items of a node stand between the numbers below it. -/
theorem below_span
    (items : Finset Nat)
    (node : Nat) :
    below items (node - lowBit node) + (items ∩ span node).card =
      below items node := by
  have split :
      items.filter (· < node) =
        items.filter (· < node - lowBit node) ∪ items ∩ span node := by
    ext item
    simp only [Finset.mem_filter, Finset.mem_union, Finset.mem_inter, mem_span]
    have small := Nat.sub_le node (lowBit node)
    constructor
    · rintro ⟨isItem, below⟩
      by_cases before : item < node - lowBit node
      · exact .inl ⟨isItem, before⟩
      · exact .inr ⟨isItem, by omega, below⟩
    · rintro (⟨isItem, before⟩ | ⟨isItem, _, below⟩)
      · exact ⟨isItem, by omega⟩
      · exact ⟨isItem, below⟩
  rw [below, below, split, Finset.card_union_of_disjoint]
  rw [Finset.disjoint_left]
  intro item before inSpan
  rw [Finset.mem_filter] at before
  rw [Finset.mem_inter, mem_span] at inSpan
  omega

/-- The tree counts the items at every node up to the size. -/
def Counts
    (size : Nat)
    (items : Finset Nat)
    (tree : List Nat) :
    Prop :=
  ∀ node,
    0 < node →
    node ≤ size →
    tree[node - 1]? = some (items ∩ span node).card

/-- With every number present a node holds its lowest bit. -/
theorem counts_range
    {size : Nat}
    {tree : List Nat}
    (full :
      ∀ node,
        0 < node →
        node ≤ size →
        tree[node - 1]? = some (lowBit node)) :
    Counts size (Finset.range size) tree := by
  intro node positive inTree
  have counted : Finset.range size ∩ span node = span node := by
    rw [Finset.inter_eq_right]
    intro item inSpan
    have below := (mem_span.1 inSpan).2
    exact Finset.mem_range.2 (by omega)
  have small := lowBit_le positive
  rw [full node positive inTree, counted, span, Nat.card_Ico,
    Nat.sub_sub_self small]

/-- The tree counts the remaining items below a node and still all from it on. -/
def PartlyErased
    (size : Nat)
    (items : Finset Nat)
    (item node : Nat)
    (tree : List Nat) :
    Prop :=
  ∀ other,
    0 < other →
    other ≤ size →
    tree[other - 1]? =
      some
        (if other < node then
          (items.erase item ∩ span other).card
        else
          (items ∩ span other).card)

section

variable {size item : Nat}
variable {items : Finset Nat}
variable {tree : List Nat}

/-- A node that does not count the item does not change. -/
theorem card_erase_of_notMem
    {node : Nat}
    (isOther : item ∉ span node) :
    (items.erase item ∩ span node).card = (items ∩ span node).card := by
  rw [Finset.erase_inter, Finset.erase_eq_of_notMem]
  simp [isOther]

/-- A node that counts the item loses one. -/
theorem card_erase_of_mem
    {node : Nat}
    (isItem : item ∈ items)
    (isCounted : item ∈ span node) :
    (items ∩ span node).card = (items.erase item ∩ span node).card + 1 := by
  rw [Finset.erase_inter,
    Finset.card_erase_add_one (Finset.mem_inter.2 ⟨isItem, isCounted⟩)]

/-- No node in front of the first one counts the item. -/
theorem Counts.partlyErased
    (counts : Counts size items tree) :
    PartlyErased size items item (item + 1) tree := by
  intro other positive inTree
  rw [counts other positive inTree]
  split
  next early =>
    have isOther : item ∉ span other := by
      rw [mem_span]
      omega
    rw [card_erase_of_notMem isOther]
  next late =>
    rfl

/-- The count at a node that still has the item. -/
theorem PartlyErased.get
    {node : Nat}
    (erased : PartlyErased size items item node tree)
    (isItem : item ∈ items)
    (isCounted : item ∈ span node)
    (inTree : node ≤ size) :
    tree[node - 1]? = some ((items.erase item ∩ span node).card + 1) := by
  have inside := (mem_span.1 isCounted).2
  rw [erased node (by omega) inTree, if_neg (Nat.lt_irrefl node),
    card_erase_of_mem isItem isCounted]

/-- Taking one off a node leads to the next one that counts the item. -/
theorem PartlyErased.step
    {node : Nat}
    (erased : PartlyErased size items item node tree)
    (isItem : item ∈ items)
    (isCounted : item ∈ span node)
    (inTree : node ≤ size) :
    PartlyErased size items item (node + lowBit node)
      (tree.set (node - 1) (items.erase item ∩ span node).card) := by
  intro other positive otherInTree
  have found := erased.get isItem isCounted inTree
  have inside : node - 1 < tree.length :=
    (List.getElem?_eq_some_iff.1 found).1
  have nodePositive : 0 < node := by
    have isBelow := (mem_span.1 isCounted).2
    omega
  have step := lowBit_pos node
  by_cases isNode : other = node
  · subst isNode
    rw [List.getElem?_set_self inside, if_pos (by omega)]
  · rw [List.getElem?_set_ne (by omega), erased other positive otherInTree]
    by_cases isEarly : other < node
    · rw [if_pos isEarly, if_pos (by omega)]
    · rw [if_neg isEarly]
      by_cases isBetween : other < node + lowBit node
      · rw [if_pos isBetween,
          card_erase_of_notMem
            (notMem_span_between isCounted (by omega) isBetween)]
      · rw [if_neg isBetween]

/-- Behind the last node the item is gone everywhere. -/
theorem PartlyErased.done
    {node : Nat}
    (erased : PartlyErased size items item node tree)
    (outside : size < node) :
    Counts size (items.erase item) tree := by
  intro other positive inTree
  rw [erased other positive inTree, if_pos (by omega)]

end

/--
The search for the item of a rank has reached `next`: `left` items are missing
up to the rank, and the item lies within `width` numbers.
-/
structure Searching
    (items : Finset Nat)
    (rank width next left : Nat) :
    Prop where
  aligned :
    width ∣ next
  passed :
    below items next + left = rank
  missing :
    0 < left
  within :
    rank ≤ below items (next + width)

namespace Searching

variable {items : Finset Nat}
variable {rank next left exponent : Nat}

/-- The node in the middle of the search counts its first half. -/
theorem below_middle
    (searching : Searching items rank (2 ^ (exponent + 1)) next left) :
    below items (next + 2 ^ exponent) =
      below items next + (items ∩ span (next + 2 ^ exponent)).card := by
  obtain ⟨factor, isNext⟩ := searching.aligned
  have middle :
      next + 2 ^ exponent = 2 ^ exponent * (2 * factor + 1) := by
    rw [isNext]
    ring
  have first :
      next + 2 ^ exponent - lowBit (next + 2 ^ exponent) = next := by
    rw [middle, lowBit_odd_multiple, ← middle, Nat.add_sub_cancel]
  rw [← below_span items (next + 2 ^ exponent), first]

/-- Enough items in the first half: the search stays there. -/
theorem stay
    (searching : Searching items rank (2 ^ (exponent + 1)) next left)
    (enough : left ≤ (items ∩ span (next + 2 ^ exponent)).card) :
    Searching items rank (2 ^ exponent) next left where
  aligned := (Nat.pow_dvd_pow 2 (Nat.le_succ exponent)).trans searching.aligned
  passed := searching.passed
  missing := searching.missing
  within := by
    have passed := searching.passed
    rw [searching.below_middle]
    omega

/-- Too few items in the first half: the search goes on behind it. -/
theorem skip
    (searching : Searching items rank (2 ^ (exponent + 1)) next left)
    (tooFew : (items ∩ span (next + 2 ^ exponent)).card < left) :
    Searching items rank (2 ^ exponent) (next + 2 ^ exponent)
      (left - (items ∩ span (next + 2 ^ exponent)).card) where
  aligned :=
    Nat.dvd_add
      ((Nat.pow_dvd_pow 2 (Nat.le_succ exponent)).trans searching.aligned)
      (Nat.dvd_refl _)
  passed := by
    have passed := searching.passed
    rw [searching.below_middle]
    omega
  missing := by
    omega
  within := by
    have within := searching.within
    rwa [Nat.add_assoc, ← Nat.two_mul, ← Nat.pow_succ']

/-- A search of width one has found the item. -/
theorem found
    (searching : Searching items rank 1 next left) :
    next ∈ items ∧ below items next + 1 = rank := by
  have passed := searching.passed
  have missing := searching.missing
  have within := searching.within
  rw [below_succ] at within
  split at within
  next isItem =>
    exact ⟨isItem, by omega⟩
  next noItem =>
    omega

end Searching

end Fenwick
