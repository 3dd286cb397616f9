import Jxlz.Entropy.HuffmanRoot

namespace Jxlz

open AnsParams BitReversal CanonicalCode FuelLoop

/-!
# The second tables of a complete code

The codewords longer than the root bits fall into branches: those of a branch
share the bits that the root table is indexed by.  A branch is a run of places,
its table is as wide as its longest codeword needs, and the tables of all
branches together are not much larger than their codewords are many.
-/

section Sizes

variable {count : Nat → Nat}

/--
The search for the width of a table stops at the longest codeword of its
branch, behind which the branch ends.
-/
theorem nextTableLength_ok
    {counts : List Nat}
    (complete : Complete prefixMaxBits count)
    (lengths : counts.length = prefixMaxBits + 1)
    (more : Nat)
    {left len i : Nat}
    (depth : len + more = prefixMaxBits)
    (positive : 1 ≤ len)
    (counted : i ≤ count len)
    (here : counts.getD len 0 = count len - i)
    (later :
      ∀ other,
        len < other → other ≤ prefixMaxBits → counts.getD other 0 = count other)
    (some : 0 < left)
    (inside :
      place prefixMaxBits count len i + left * 2 ^ (prefixMaxBits - len) ≤
        2 ^ prefixMaxBits) :
    ∃ last j,
      nextTableLength counts more left len = .ok last ∧
        len ≤ last ∧ last ≤ prefixMaxBits ∧ 0 < j ∧ j ≤ count last ∧
        place prefixMaxBits count last j =
          place prefixMaxBits count len i + left * 2 ^ (prefixMaxBits - len) ∧
        rank count len i + left + (last - len) ≤ rank count last j := by
  induction more generalizing left len i with
  | zero =>
      obtain rfl : len = prefixMaxBits := by
        omega
      have whole := complete
      unfold Complete at whole
      rw [base_succ positive] at whole
      have ends :
          place prefixMaxBits count prefixMaxBits (i + left) =
            place prefixMaxBits count prefixMaxBits i +
              left * 2 ^ (prefixMaxBits - prefixMaxBits) := by
        unfold place
        ring
      refine ⟨prefixMaxBits, i + left, rfl, Nat.le_refl _, Nat.le_refl _,
        by omega, ?_, ends, ?_⟩
      · rw [← ends, ← whole] at inside
        unfold place at inside
        rw [Nat.sub_self, Nat.pow_zero, Nat.mul_one, Nat.mul_one] at inside
        omega
      · unfold rank
        omega
  | succ more inductionHypothesis =>
      unfold nextTableLength
      rw [index_getD (by omega) 0, ok_bind, here]
      by_cases ends : left ≤ count len - i
      · rw [if_pos ends]
        refine ⟨len, i + left, rfl, Nat.le_refl _, by omega, by omega, by omega,
          ?_, ?_⟩
        · unfold place
          ring
        · unfold rank
          omega
      · rw [if_neg ends, Nat.shiftLeft_eq, Nat.pow_one]
        have width :
            2 ^ (prefixMaxBits - len) = 2 ^ (prefixMaxBits - (len + 1)) * 2 := by
          rw [← Nat.pow_succ]
          congr 1
          omega
        have same :
            place prefixMaxBits count (len + 1) 0 +
                (left - (count len - i)) * 2 * 2 ^ (prefixMaxBits - (len + 1)) =
              place prefixMaxBits count len i +
                left * 2 ^ (prefixMaxBits - len) := by
          obtain ⟨rest, isRest⟩ := Nat.exists_eq_add_of_le counted
          obtain ⟨surplus, isSurplus⟩ :=
            Nat.exists_eq_add_of_le (Nat.le_of_not_le ends)
          rw [place_zero, base_succ positive]
          unfold place
          rw [width, isSurplus, isRest, Nat.add_sub_cancel_left,
            Nat.add_sub_cancel_left]
          ring
        obtain ⟨last, j, ran, above, bounded, positive', counted', isPlace,
            leaves⟩ :=
          @inductionHypothesis ((left - (count len - i)) * 2) (len + 1) 0
            (by omega) (by omega) (Nat.zero_le _)
            (by rw [later (len + 1) (by omega) (by omega), Nat.sub_zero])
            (fun other behind small => later other (by omega) small)
            (by omega) (by rw [same]; exact inside)
        refine ⟨last, j, ran, by omega, bounded, positive', counted', ?_, ?_⟩
        · rw [isPlace, same]
        · rw [rank_succ positive] at leaves
          unfold rank at leaves ⊢
          omega

end Sizes

section Branches

variable {count : Nat → Nat}
variable {rootBits len i : Nat}

theorem two_pow_grows
    {first second : Nat}
    (ordered : first ≤ second) :
    2 ^ first + second ≤ 2 ^ second + first := by
  induction second, ordered using Nat.le_induction with
  | base =>
      exact Nat.le_refl _
  | succ second ordered inductionHypothesis =>
      have positive := Nat.two_pow_pos second
      rw [Nat.pow_succ]
      omega

/-- The branch of a codeword gives its index in the root table. -/
theorem key_mod
    (small : rootBits ≤ prefixMaxBits)
    (len i : Nat) :
    key prefixMaxBits count len i % 2 ^ rootBits =
      reverse rootBits
        (place prefixMaxBits count len i / 2 ^ (prefixMaxBits - rootBits)) := by
  unfold key
  obtain ⟨more, isMore⟩ := Nat.exists_eq_add_of_le small
  rw [isMore, Nat.add_sub_cancel_left, reverse_split, Nat.add_comm,
    Nat.add_mul_mod_self_right, Nat.mod_eq_of_lt (reverse_lt _ _)]

/-- An input that starts with both parts of a key starts with it. -/
theorem split_starts
    {low entry : Nat}
    (longer : rootBits ≤ len)
    (isLow : low = key prefixMaxBits count len i % 2 ^ rootBits)
    (starts :
      entry % 2 ^ (len - rootBits) =
        key prefixMaxBits count len i / 2 ^ rootBits) :
    (low + 2 ^ rootBits * entry) % 2 ^ len = key prefixMaxBits count len i := by
  have apart : 2 ^ len = 2 ^ rootBits * 2 ^ (len - rootBits) := by
    rw [← Nat.pow_add]
    congr 1
    omega
  have small : low < 2 ^ rootBits := by
    rw [isLow]
    exact Nat.mod_lt _ (by positivity)
  rw [apart, Nat.mod_mul, Nat.add_mul_mod_self_left, Nat.mod_eq_of_lt small,
    Nat.add_mul_div_left _ _ (by positivity), Nat.div_eq_of_lt small,
    Nat.zero_add, starts, isLow, Nat.mod_add_div]

/-- A codeword does not reach over the end of its branch. -/
theorem ends_in_branch
    (longer : rootBits ≤ len)
    (bounded : len ≤ prefixMaxBits)
    (i : Nat) :
    place prefixMaxBits count len i + 2 ^ (prefixMaxBits - len) ≤
      (place prefixMaxBits count len i / 2 ^ (prefixMaxBits - rootBits) + 1) *
        2 ^ (prefixMaxBits - rootBits) := by
  have width :
      2 ^ (prefixMaxBits - rootBits) =
        2 ^ (len - rootBits) * 2 ^ (prefixMaxBits - len) := by
    rw [← Nat.pow_add]
    congr 1
    omega
  have inner := Nat.lt_div_mul_add (Nat.two_pow_pos (len - rootBits))
    (a := word count len i)
  rw [place_eq bounded, width, Nat.mul_div_mul_right _ _ (by positivity),
    ← Nat.mul_assoc, ← Nat.succ_mul]
  refine Nat.mul_le_mul_right _ ?_
  rw [Nat.succ_mul]
  exact inner

end Branches

/-- The entries of a second table that a codeword is found at. -/
def InTable
    (count : Nat → Nat)
    (sorted : List Nat)
    (rootBits bits start : Nat)
    (table : List HuffmanCode)
    (len i : Nat) :
    Prop :=
  ∀ entry < 2 ^ bits,
    entry % 2 ^ (len - rootBits) = key prefixMaxBits count len i / 2 ^ rootBits →
    table[start + entry]? =
      some ⟨len - rootBits, symbolOf count sorted len i⟩

/-- A long codeword is found through its entry in the root table. -/
structure InSecond
    (count : Nat → Nat)
    (sorted : List Nat)
    (rootBits : Nat)
    (table : List HuffmanCode)
    (stop len i bits start : Nat) :
    Prop where
  behind : 2 ^ rootBits ≤ start
  inside : start + 2 ^ bits ≤ stop
  wide : len ≤ bits + rootBits
  bounded : bits + rootBits ≤ prefixMaxBits
  entry :
    table[key prefixMaxBits count len i % 2 ^ rootBits]? =
      some ⟨bits + rootBits,
        start - key prefixMaxBits count len i % 2 ^ rootBits⟩
  filled : InTable count sorted rootBits bits start table len i

/-- A codeword is found in the tables before `stop`. -/
structure Found
    (count : Nat → Nat)
    (sorted : List Nat)
    (rootBits : Nat)
    (table : List HuffmanCode)
    (stop len i : Nat) :
    Prop where
  short : len ≤ rootBits → InRoot count sorted (2 ^ rootBits) table len i
  long :
    rootBits < len →
      ∃ bits start, InSecond count sorted rootBits table stop len i bits start

section Stores

variable {count : Nat → Nat}
variable {sorted : List Nat}
variable {rootBits stop len i : Nat}
variable {table changed : List HuffmanCode}

/-- A codeword is found after stores that none of its entries is hit by. -/
theorem Found.of_same
    (found : Found count sorted rootBits table stop len i)
    (root :
      ∀ entry < 2 ^ rootBits,
        (len ≤ rootBits →
            entry % 2 ^ len = key prefixMaxBits count len i) →
        (rootBits < len →
            entry = key prefixMaxBits count len i % 2 ^ rootBits) →
        changed[entry]? = table[entry]?)
    (second :
      ∀ index,
        2 ^ rootBits ≤ index → index < stop → changed[index]? = table[index]?) :
    Found count sorted rootBits changed stop len i where
  short := by
    intro isShort entry small starts
    rw [root entry small (fun _ => starts) (fun longer => by omega)]
    exact found.short isShort entry small starts
  long := by
    intro isLong
    obtain ⟨bits, start, behind, inside, wide, bounded, isEntry, filled⟩ :=
      found.long isLong
    refine ⟨bits, start, behind, inside, wide, bounded, ?_, ?_⟩
    · rw [root _ (Nat.mod_lt _ (by positivity)) (fun isShort => by omega)
        (fun _ => rfl)]
      exact isEntry
    · intro entry small starts
      rw [second (start + entry) (by omega) (by omega)]
      exact filled entry small starts

theorem Found.mono
    {later : Nat}
    (found : Found count sorted rootBits table stop len i)
    (ordered : stop ≤ later) :
    Found count sorted rootBits table later len i where
  short := found.short
  long := by
    intro isLong
    obtain ⟨bits, start, second⟩ := found.long isLong
    exact ⟨bits, start, second.behind, Nat.le_trans second.inside ordered,
      second.wide, second.bounded, second.entry, second.filled⟩

end Stores

/-- The table of a branch is begun, and filled up to a codeword. -/
structure InBranch
    (count : Nat → Nat)
    (sorted : List Nat)
    (rootBits : Nat)
    (branch last j : Nat)
    (len i : Nat)
    (fill : HuffmanFill) :
    Prop where
  low : fill.low = (reverse rootBits branch : Nat)
  bits : fill.tableBits + rootBits = last
  size : fill.tableSize = 2 ^ fill.tableBits
  behind : 2 ^ rootBits ≤ fill.start
  total : fill.start + 2 ^ fill.tableBits = fill.totalSize
  bounded : last ≤ prefixMaxBits
  positive : 0 < j
  counted : j ≤ count last
  long :
    base prefixMaxBits count (rootBits + 1) ≤
      branch * 2 ^ (prefixMaxBits - rootBits)
  ends :
    place prefixMaxBits count last j =
      (branch + 1) * 2 ^ (prefixMaxBits - rootBits)
  entry :
    fill.table[reverse rootBits branch]? =
      some ⟨last, fill.start - reverse rootBits branch⟩
  few :
    fill.totalSize + 1 + fill.tableBits + rank count (rootBits + 1) 0 ≤
      2 ^ rootBits + rank count last j + 2 ^ fill.tableBits
  before :
    ∀ len' i',
      IsCode prefixMaxBits count len' i' →
      place prefixMaxBits count len' i' <
          branch * 2 ^ (prefixMaxBits - rootBits) →
      Found count sorted rootBits fill.table fill.start len' i'
  filled :
    ∀ len' i',
      IsCode prefixMaxBits count len' i' →
      branch * 2 ^ (prefixMaxBits - rootBits) ≤
          place prefixMaxBits count len' i' →
      place prefixMaxBits count len' i' < place prefixMaxBits count len i →
      InTable count sorted rootBits fill.tableBits fill.start fill.table
        len' i'

/-- No second table is begun yet. -/
structure InNoBranch
    (count : Nat → Nat)
    (sorted : List Nat)
    (rootBits : Nat)
    (len i : Nat)
    (fill : HuffmanFill) :
    Prop where
  low : fill.low = -1
  total : fill.totalSize = 2 ^ rootBits
  atStart :
    place prefixMaxBits count len i = base prefixMaxBits count (rootBits + 1)
  filled :
    ∀ len' i',
      IsCode prefixMaxBits count len' i' →
      len' ≤ rootBits → InRoot count sorted (2 ^ rootBits) fill.table len' i'

/-- The second tables are filled up to a codeword. -/
structure SecondFilled
    (count : Nat → Nat)
    (sorted : List Nat)
    (rootBits size : Nat)
    (len i : Nat)
    (fill : HuffmanFill) :
    Prop where
  stands : StandsAt count len i fill
  length : fill.table.length = size
  branches :
    InNoBranch count sorted rootBits len i fill ∨
      ∃ branch last j,
        branch * 2 ^ (prefixMaxBits - rootBits) <
            place prefixMaxBits count len i ∧
          place prefixMaxBits count len i ≤
              (branch + 1) * 2 ^ (prefixMaxBits - rootBits) ∧
          InBranch count sorted rootBits branch last j len i fill

/-- The memory has room for all tables that a complete code may need. -/
structure Room
    (count : Nat → Nat)
    (rootBits size : Nat) :
    Prop where
  positive : 1 ≤ rootBits
  small : rootBits ≤ prefixMaxBits
  root : 2 ^ rootBits ≤ size
  second :
    ∀ len i,
      IsCode prefixMaxBits count len i →
      rootBits < len →
      2 ^ rootBits + rank count (prefixMaxBits + 1) 0 +
          2 ^ (prefixMaxBits - rootBits) ≤
        size + 1 + (prefixMaxBits - rootBits) + rank count (rootBits + 1) 0
  short : size < 2 ^ 16

section Second

variable {count : Nat → Nat}
variable {sorted : List Nat}
variable {rootBits size len i : Nat}
variable {fill : HuffmanFill}

/-- Before a codeword, the place of its branch decides whether a table is begun. -/
theorem key_and_mask
    (room : Room count rootBits size)
    (stands : StandsAt count len i fill)
    (inside : place prefixMaxBits count len i < 2 ^ prefixMaxBits) :
    fill.key &&& (2 ^ rootBits - 1) =
      reverse rootBits
        (place prefixMaxBits count len i / 2 ^ (prefixMaxBits - rootBits)) := by
  rw [Nat.and_two_pow_sub_one_eq_mod, stands.key inside, key_mod room.small]

/-- The codes that a branch ends with count those of all branches before it. -/
theorem InBranch.size_le
    {branch last j len' i' : Nat}
    (inBranch : InBranch count sorted rootBits branch last j len i fill)
    (room : Room count rootBits size)
    (isCode' : IsCode prefixMaxBits count len' i')
    (longer : rootBits < len') :
    fill.totalSize ≤ size := by
  have bounded := inBranch.bounded
  have bits := inBranch.bits
  have few := inBranch.few
  have enough := room.second len' i' isCode' longer
  have grows :=
    @two_pow_grows fill.tableBits (prefixMaxBits - rootBits) (by omega)
  have ranks : rank count last j ≤ rank count (prefixMaxBits + 1) 0 := by
    have counted := inBranch.counted
    have positive := room.positive
    have all := @rank_mono count (last + 1) (prefixMaxBits + 1) (by omega)
    rw [rank_succ (by omega)] at all
    refine Nat.le_trans ?_ all
    unfold rank
    omega
  omega

theorem branch_lt
    {branch : Nat}
    (small : rootBits ≤ prefixMaxBits)
    (inside :
      branch * 2 ^ (prefixMaxBits - rootBits) < 2 ^ prefixMaxBits) :
    branch < 2 ^ rootBits := by
  have apart :
      2 ^ prefixMaxBits = 2 ^ rootBits * 2 ^ (prefixMaxBits - rootBits) := by
    rw [← Nat.pow_add]
    congr 1
    omega
  rw [apart] at inside
  exact Nat.lt_of_mul_lt_mul_right inside

/-- The index of a branch is the key of the place where it starts. -/
theorem reverse_branch
    (small : rootBits ≤ prefixMaxBits)
    (branch : Nat) :
    reverse prefixMaxBits (branch * 2 ^ (prefixMaxBits - rootBits)) =
      reverse rootBits branch := by
  obtain ⟨more, isMore⟩ := Nat.exists_eq_add_of_le small
  rw [isMore, Nat.add_sub_cancel_left, reverse_shift]

/-- The codewords before a branch are found after its entry was stored. -/
theorem Found.of_entry
    {branch stop len' i' : Nat}
    {table : List HuffmanCode}
    {code : HuffmanCode}
    (found : Found count sorted rootBits table stop len' i')
    (complete : Complete prefixMaxBits count)
    (small : rootBits ≤ prefixMaxBits)
    (isCode : IsCode prefixMaxBits count len i)
    (isCode' : IsCode prefixMaxBits count len' i')
    (longer : rootBits < len)
    (atStart :
      place prefixMaxBits count len i =
        branch * 2 ^ (prefixMaxBits - rootBits))
    (before :
      place prefixMaxBits count len' i' <
        branch * 2 ^ (prefixMaxBits - rootBits))
    (room : 2 ^ rootBits ≤ table.length) :
    Found count sorted rootBits (table.set (reverse rootBits branch) code) stop
      len' i' := by
  have width := Nat.two_pow_pos (prefixMaxBits - len)
  have whole := isCode.inside complete
  have isBranch : branch < 2 ^ rootBits :=
    branch_lt small (by omega)
  have isLow := reverse_lt rootBits branch
  have inTable : reverse rootBits branch < table.length := by
    omega
  refine found.of_same ?_ ?_
  · intro entry _ short long
    rw [getElem?_set_eq inTable, if_neg]
    rintro rfl
    rcases Nat.lt_or_ge rootBits len' with isLong | isShort
    · have same := long isLong
      have apart : branch * 2 ^ (prefixMaxBits - rootBits) < 2 ^ prefixMaxBits := by
        omega
      have below : place prefixMaxBits count len' i' / 2 ^ (prefixMaxBits - rootBits) <
          branch := by
        rw [Nat.div_lt_iff_lt_mul (by positivity)]
        exact before
      rw [key_mod small, reverse_inj isBranch (by omega)] at same
      omega
    · -- The entry would start with a codeword inside of another one.
      have starts := short isShort
      rw [← reverse_branch small, ← atStart] at starts
      have holds := (isCode'.holds_iff complete _).2 starts
      rw [reverse_reverse, Nat.mod_eq_of_lt (by omega)] at holds
      have same :=
        holds_unique isCode isCode' ⟨Nat.le_refl _, by omega⟩ holds
      omega
  · intro index behind _
    rw [getElem?_set_eq inTable, if_neg (by omega)]

/-- Where a branch starts, a table is begun for it. -/
theorem secondTable_begins
    {branch : Nat}
    (fillable : Fillable count sorted)
    (room : Room count rootBits size)
    (isCode : IsCode prefixMaxBits count len i)
    (longer : rootBits < len)
    (stands : StandsAt count len i fill)
    (isSize : fill.table.length = size)
    (atStart :
      place prefixMaxBits count len i =
        branch * 2 ^ (prefixMaxBits - rootBits))
    (different : (reverse rootBits branch : Nat) ≠ fill.low)
    (behind : 2 ^ rootBits ≤ fill.totalSize)
    (few :
      fill.totalSize + 1 + (len - rootBits) + rank count (rootBits + 1) 0 ≤
        2 ^ rootBits + rank count len i + 2 ^ (len - rootBits))
    (before :
      ∀ len' i',
        IsCode prefixMaxBits count len' i' →
        place prefixMaxBits count len' i' <
            branch * 2 ^ (prefixMaxBits - rootBits) →
        Found count sorted rootBits fill.table fill.totalSize len' i') :
    ∃ next last j,
      secondTable rootBits (2 ^ rootBits - 1) len fill = .ok next ∧
        next.table.length = size ∧ StandsAt count len i next ∧
        InBranch count sorted rootBits branch last j len i next := by
  have complete := fillable.complete
  have small := room.small
  have bounded := isCode.bounded
  have width := Nat.two_pow_pos (prefixMaxBits - len)
  have whole := isCode.inside complete
  have inside : place prefixMaxBits count len i < 2 ^ prefixMaxBits := by
    omega
  have isBranch : branch < 2 ^ rootBits :=
    branch_lt small (by omega)
  have isLow := reverse_lt rootBits branch
  have isKey : fill.key &&& (2 ^ rootBits - 1) = reverse rootBits branch := by
    rw [key_and_mask room stands inside, atStart,
      Nat.mul_div_cancel _ (by positivity)]
  have spread :
      2 ^ (len - rootBits) * 2 ^ (prefixMaxBits - len) =
        2 ^ (prefixMaxBits - rootBits) := by
    rw [← Nat.pow_add]
    congr 1
    omega
  have apart :
      2 ^ prefixMaxBits = 2 ^ rootBits * 2 ^ (prefixMaxBits - rootBits) := by
    rw [← Nat.pow_add]
    congr 1
    omega
  have ending :
      place prefixMaxBits count len i +
          2 ^ (len - rootBits) * 2 ^ (prefixMaxBits - len) =
        (branch + 1) * 2 ^ (prefixMaxBits - rootBits) := by
    rw [spread, atStart, Nat.succ_mul]
  obtain ⟨last, j, isLength, longest, lastBounded, jPositive, jCounted, ends,
      leaves⟩ :=
    @nextTableLength_ok count fill.count complete stands.lengths
      (prefixMaxBits - len) (2 ^ (len - rootBits)) len i (by omega)
      isCode.positive (Nat.le_of_lt isCode.counted)
      (by
        rw [stands.left len isCode.positive bounded, remaining,
          if_neg (Nat.lt_irrefl len), if_pos rfl])
      (by
        intro other above inRange
        rw [stands.left other (by omega) inRange, remaining, if_neg (by omega),
          if_neg (by omega)])
      (by positivity)
      (by
        rw [ending, apart]
        exact Nat.mul_le_mul_right _ isBranch)
  rw [ending] at ends
  have isBits :
      nextTableBitSize fill.count len rootBits = .ok (last - rootBits) := by
    unfold nextTableBitSize
    rw [subU_ok (by omega), ok_bind, Nat.one_shiftLeft, isLength, ok_bind,
      subU_ok (by omega)]
  have entryRoom : reverse rootBits branch < fill.table.length := by
    have root := room.root
    omega
  have begun :
      InBranch count sorted rootBits branch last j len i
        { fill with
          table :=
            fill.table.set (reverse rootBits branch)
              ⟨last, fill.totalSize - reverse rootBits branch⟩
          start := fill.totalSize
          tableBits := last - rootBits
          tableSize := 2 ^ (last - rootBits)
          totalSize := fill.totalSize + 2 ^ (last - rootBits)
          low := (reverse rootBits branch : Nat) } := by
    constructor
    · rfl
    · dsimp only
      omega
    · rfl
    · exact behind
    · rfl
    · exact lastBounded
    · exact jPositive
    · exact jCounted
    · have ordered := @base_mono prefixMaxBits count (rootBits + 1) len longer
      rw [← atStart]
      exact Nat.le_trans ordered (Nat.le_add_right _ _)
    · exact ends
    · dsimp only
      rw [getElem?_set_eq entryRoom, if_pos rfl]
    · dsimp only
      omega
    · intro len' i' isCode' earlier
      exact (before len' i' isCode' earlier).of_entry complete small isCode
        isCode' longer atStart earlier (by rw [isSize]; exact room.root)
    · intro len' i' _ above below
      omega
  have fits := begun.size_le room isCode longer
  have short := room.short
  have started : fill.totalSize ≤ size :=
    Nat.le_trans (Nat.le_add_right _ _) fits
  have offset : fill.totalSize - reverse rootBits branch < 2 ^ 16 :=
    Nat.lt_of_le_of_lt (Nat.le_trans (Nat.sub_le _ _) started) short
  refine ⟨_, last, j, ?_, ?_, ?_, begun⟩
  · unfold secondTable
    dsimp only
    rw [isKey, if_pos different, isBits, ok_bind, Nat.sub_add_cancel (by omega),
      castU_ok (Nat.lt_of_le_of_lt lastBounded (by decide)), ok_bind,
      subU_ok (by omega), ok_bind, castU_ok offset, ok_bind,
      storeCode_ok entryRoom, ok_bind, Nat.one_shiftLeft]
    rfl
  · dsimp only
    rw [List.length_set, isSize]
  · exact ⟨stands.lengths, stands.left, stands.symbol, stands.key⟩

/-- A codeword of a branch is not longer than the last one of it. -/
theorem InBranch.wide
    {branch last j len' i' : Nat}
    (inBranch : InBranch count sorted rootBits branch last j len i fill)
    (room : Room count rootBits size)
    (below :
      place prefixMaxBits count len' i' <
        (branch + 1) * 2 ^ (prefixMaxBits - rootBits)) :
    len' ≤ last := by
  have positive := room.positive
  have bits := inBranch.bits
  by_contra longer
  have ordered :=
    @place_le_base prefixMaxBits count last j len' (by omega) inBranch.counted
      (by omega)
  rw [inBranch.ends] at ordered
  unfold place at below
  omega

/-- The codewords of a branch that are filled in are found. -/
theorem InBranch.found
    {branch last j len' i' : Nat}
    (inBranch : InBranch count sorted rootBits branch last j len i fill)
    (room : Room count rootBits size)
    (isCode' : IsCode prefixMaxBits count len' i')
    (done :
      place prefixMaxBits count len' i' < place prefixMaxBits count len i)
    (inside :
      place prefixMaxBits count len i ≤
        (branch + 1) * 2 ^ (prefixMaxBits - rootBits)) :
    Found count sorted rootBits fill.table fill.totalSize len' i' := by
  have bits := inBranch.bits
  have total := inBranch.total
  have started : fill.start ≤ fill.totalSize :=
    Nat.le_trans (Nat.le_add_right _ _) (Nat.le_of_eq total)
  have below :
      place prefixMaxBits count len' i' <
        (branch + 1) * 2 ^ (prefixMaxBits - rootBits) :=
    Nat.lt_of_lt_of_le done inside
  by_cases earlier :
      place prefixMaxBits count len' i' <
        branch * 2 ^ (prefixMaxBits - rootBits)
  · exact (inBranch.before len' i' isCode' earlier).mono started
  · have longer : rootBits < len' := by
      by_contra short
      have ends := isCode'.ends
      have ordered :=
        @base_mono prefixMaxBits count (len' + 1) (rootBits + 1) (by omega)
      have long := inBranch.long
      have width := Nat.two_pow_pos (prefixMaxBits - len')
      omega
    have sameBranch :
        place prefixMaxBits count len' i' / 2 ^ (prefixMaxBits - rootBits) =
          branch := by
      rw [Nat.div_eq_iff (by positivity)]
      rw [Nat.succ_mul] at below
      omega
    refine ⟨fun short => by omega, fun _ => ?_⟩
    refine ⟨fill.tableBits, fill.start, inBranch.behind, Nat.le_of_eq total,
      ?_, ?_, ?_, ?_⟩
    · rw [bits]
      exact inBranch.wide room below
    · rw [bits]
      exact inBranch.bounded
    · rw [key_mod room.small, sameBranch, bits]
      exact inBranch.entry
    · exact inBranch.filled len' i' isCode' (by omega) done

/-- The last codeword of a branch is not behind what starts at its end. -/
theorem InBranch.last_le
    {branch last j : Nat}
    (inBranch : InBranch count sorted rootBits branch last j len i fill)
    (isCode : IsCode prefixMaxBits count len i)
    (room : Room count rootBits size)
    (atEnd :
      place prefixMaxBits count len i =
        (branch + 1) * 2 ^ (prefixMaxBits - rootBits)) :
    last ≤ len ∧ rank count last j ≤ rank count len i := by
  have ends := inBranch.ends
  have positive := room.positive
  have bits := inBranch.bits
  have jPositive := inBranch.positive
  have width := Nat.two_pow_pos (prefixMaxBits - last)
  rw [← atEnd] at ends
  have ordered : last ≤ len := by
    by_contra longer
    have before :=
      @place_le_base prefixMaxBits count len i last isCode.positive
        (Nat.le_of_lt isCode.counted) (by omega)
    have some : 0 < j * 2 ^ (prefixMaxBits - last) :=
      Nat.mul_pos jPositive width
    unfold place at ends before
    omega
  refine ⟨ordered, ?_⟩
  rcases Nat.lt_or_eq_of_le ordered with shorter | rfl
  · have ranks := @rank_mono count (last + 1) len shorter
    have counted := inBranch.counted
    rw [rank_succ (by omega)] at ranks
    unfold rank at ranks ⊢
    omega
  · have same : j = i := by
      unfold place at ends
      exact Nat.eq_of_mul_eq_mul_right width (by omega)
    rw [same]

/-- Before each codeword there is a table for its branch. -/
theorem secondTable_ok
    (fillable : Fillable count sorted)
    (room : Room count rootBits size)
    (isCode : IsCode prefixMaxBits count len i)
    (longer : rootBits < len)
    (filled : SecondFilled count sorted rootBits size len i fill) :
    ∃ next branch last j,
      secondTable rootBits (2 ^ rootBits - 1) len fill = .ok next ∧
        next.table.length = size ∧ StandsAt count len i next ∧
        branch * 2 ^ (prefixMaxBits - rootBits) ≤
            place prefixMaxBits count len i ∧
        place prefixMaxBits count len i <
            (branch + 1) * 2 ^ (prefixMaxBits - rootBits) ∧
        InBranch count sorted rootBits branch last j len i next := by
  have small := room.small
  have width := Nat.two_pow_pos (prefixMaxBits - len)
  have branchWidth := Nat.two_pow_pos (prefixMaxBits - rootBits)
  have whole := isCode.inside fillable.complete
  rcases filled.branches with none | ⟨branch, last, j, above, below, inBranch⟩
  · have positive := room.positive
    have atStart := none.atStart
    rw [base_succ positive, place_eq small] at atStart
    have leaves := @Nat.lt_two_pow_self (len - rootBits)
    have ranks := @rank_mono count (rootBits + 1) len longer
    have total := none.total
    obtain ⟨next, last, j, begun, sameSize, stands, inBranch⟩ :=
      secondTable_begins fillable room isCode longer filled.stands filled.length
        atStart
        (by
          rw [none.low]
          omega)
        (Nat.le_of_eq total.symm)
        (by
          unfold rank at ranks ⊢
          omega)
        (by
          intro len' i' isCode' earlier
          have short : len' ≤ rootBits := by
            by_contra long
            have ordered :=
              @base_mono prefixMaxBits count (rootBits + 1) len' (by omega)
            rw [← atStart, none.atStart] at earlier
            unfold place at earlier
            omega
          exact ⟨fun _ => none.filled len' i' isCode' short,
            fun long => by omega⟩)
    refine ⟨next, _, last, j, begun, sameSize, stands, Nat.le_of_eq atStart.symm,
      ?_, inBranch⟩
    rw [atStart, Nat.succ_mul]
    omega
  · by_cases atEnd :
        place prefixMaxBits count len i =
          (branch + 1) * 2 ^ (prefixMaxBits - rootBits)
    · obtain ⟨ordered, ranks⟩ := inBranch.last_le isCode room atEnd
      have bits := inBranch.bits
      have total := inBranch.total
      have behind := inBranch.behind
      have few := inBranch.few
      have grows := @two_pow_grows fill.tableBits (len - rootBits) (by omega)
      have tablePositive := Nat.two_pow_pos fill.tableBits
      have longerPositive := Nat.two_pow_pos (len - rootBits)
      have isBranch : branch + 1 < 2 ^ rootBits :=
        branch_lt small (by omega)
      obtain ⟨next, last', j', begun, sameSize, stands, inNext⟩ :=
        secondTable_begins fillable room isCode longer filled.stands
          filled.length atEnd
          (by
            rw [inBranch.low]
            intro same
            have equal := (reverse_inj isBranch (by omega)).1 (Int.ofNat_inj.1 same)
            omega)
          (by omega) (by omega)
          (by
            intro len' i' isCode' earlier
            rw [← atEnd] at earlier
            exact inBranch.found room isCode' earlier (Nat.le_of_eq atEnd))
      refine ⟨next, _, last', j', begun, sameSize, stands,
        Nat.le_of_eq atEnd.symm, ?_, inNext⟩
      rw [atEnd, Nat.succ_mul (branch + 1)]
      omega
    · have inside :
          place prefixMaxBits count len i <
            (branch + 1) * 2 ^ (prefixMaxBits - rootBits) := by
        omega
      have sameBranch :
          place prefixMaxBits count len i / 2 ^ (prefixMaxBits - rootBits) =
            branch := by
        rw [Nat.div_eq_iff branchWidth]
        rw [Nat.succ_mul] at inside
        omega
      have same : fill.key &&& (2 ^ rootBits - 1) = reverse rootBits branch := by
        rw [key_and_mask room filled.stands (by omega), sameBranch]
      refine ⟨fill, branch, last, j, ?_, filled.length, filled.stands,
        Nat.le_of_lt above, inside, inBranch⟩
      unfold secondTable
      dsimp only
      rw [same, if_neg (fun different => different inBranch.low.symm)]
      rfl

/-- A code is stored in the table of its branch. -/
theorem InBranch.store
    {branch last j : Nat}
    {table : List HuffmanCode}
    (inBranch : InBranch count sorted rootBits branch last j len i fill)
    (complete : Complete prefixMaxBits count)
    (room : Room count rootBits size)
    (isCode : IsCode prefixMaxBits count len i)
    (longer : rootBits < len)
    (above :
      branch * 2 ^ (prefixMaxBits - rootBits) ≤ place prefixMaxBits count len i)
    (below :
      place prefixMaxBits count len i <
        (branch + 1) * 2 ^ (prefixMaxBits - rootBits))
    (found :
      ∀ index,
        table[index]? =
          if fill.start ≤ index ∧ index < fill.start + 2 ^ fill.tableBits ∧
              (index - fill.start) % 2 ^ (len - rootBits) =
                key prefixMaxBits count len i / 2 ^ rootBits then
            some ⟨len - rootBits, symbolOf count sorted len i⟩
          else
            fill.table[index]?) :
    InBranch count sorted rootBits branch last j len (i + 1)
      { fill with
        table
        count := fill.count.set len (count len - i - 1)
        symbol := fill.symbol + 1
        key := getNextKey fill.key len } where
  low := inBranch.low
  bits := inBranch.bits
  size := inBranch.size
  behind := inBranch.behind
  total := inBranch.total
  bounded := inBranch.bounded
  positive := inBranch.positive
  counted := inBranch.counted
  long := inBranch.long
  ends := inBranch.ends
  few := inBranch.few
  entry := by
    have behind := inBranch.behind
    have isLow := reverse_lt rootBits branch
    dsimp only
    rw [found, if_neg (by omega)]
    exact inBranch.entry
  before := by
    intro len' i' isCode' earlier
    have behind := inBranch.behind
    refine (inBranch.before len' i' isCode' earlier).of_same ?_ ?_
    · intro entry small _ _
      dsimp only
      rw [found, if_neg (by omega)]
    · intro index _ lower
      dsimp only
      rw [found, if_neg (by omega)]
  filled := by
    intro len' i' isCode' inside before entry small starts'
    dsimp only at small ⊢
    rw [found]
    rcases before_succ isCode isCode' before with ⟨rfl, rfl⟩ | earlier
    · rw [if_pos]
      refine ⟨Nat.le_add_right _ _, Nat.add_lt_add_left small _, ?_⟩
      rw [Nat.add_sub_cancel_left]
      exact starts'
    · have width := Nat.two_pow_pos (prefixMaxBits - len')
      have done :
          place prefixMaxBits count len' i' < place prefixMaxBits count len i := by
        omega
      rw [if_neg]
      · exact inBranch.filled len' i' isCode' inside done entry small starts'
      · rintro ⟨_, _, starts⟩
        rw [Nat.add_sub_cancel_left] at starts
        -- One input would start with both codewords.
        have branchOf :
            ∀ len'' i'',
              branch * 2 ^ (prefixMaxBits - rootBits) ≤
                  place prefixMaxBits count len'' i'' →
              place prefixMaxBits count len'' i'' <
                  (branch + 1) * 2 ^ (prefixMaxBits - rootBits) →
              reverse rootBits branch =
                key prefixMaxBits count len'' i'' % 2 ^ rootBits := by
          intro len'' i'' lower upper
          rw [key_mod room.small]
          congr 1
          symm
          rw [Nat.div_eq_iff (by positivity)]
          rw [Nat.succ_mul] at upper
          omega
        have longer' : rootBits ≤ len' := by
          by_contra short
          have ends := isCode'.ends
          have ordered :=
            @base_mono prefixMaxBits count (len' + 1) (rootBits + 1) (by omega)
          have long := inBranch.long
          omega
        obtain ⟨rfl, rfl⟩ :=
          keys_apart complete isCode isCode'
            (split_starts (Nat.le_of_lt longer) (branchOf len i above below) starts)
            (split_starts longer' (branchOf len' i' inside (by omega)) starts')
        omega

/-- A long code takes the next entries of the table of its branch. -/
theorem secondRound_ok
    (fillable : Fillable count sorted)
    (room : Room count rootBits size)
    (isCode : IsCode prefixMaxBits count len i)
    (longer : rootBits < len)
    (filled : SecondFilled count sorted rootBits size len i fill) :
    ∃ next,
      secondRound sorted rootBits (2 ^ rootBits - 1) len fill = .ok next ∧
        SecondFilled count sorted rootBits size len (i + 1) next := by
  have bounded := isCode.bounded
  have counted := isCode.counted
  have whole := isCode.inside fillable.complete
  have width := Nat.two_pow_pos (prefixMaxBits - len)
  obtain ⟨begun, branch, last, j, isBegun, sameSize, stands, above, below,
      inBranch⟩ :=
    secondTable_ok fillable room isCode longer filled
  have wide := inBranch.wide room below
  have bits := inBranch.bits
  have fits := inBranch.size_le room isCode longer
  have residue :
      key prefixMaxBits count len i / 2 ^ rootBits < 2 ^ (len - rootBits) := by
    have small := @key_lt prefixMaxBits count len bounded i
    rw [Nat.div_lt_iff_lt_mul (by positivity), ← Nat.pow_add]
    rwa [Nat.sub_add_cancel (Nat.le_of_lt longer)]
  obtain ⟨table, stored, sameLength, found⟩ :=
    @replicateValue_ok begun.table ⟨len - rootBits, symbolOf count sorted len i⟩
      begun.start (key prefixMaxBits count len i / 2 ^ rootBits)
      (2 ^ (len - rootBits)) (2 ^ begun.tableBits) residue
      (pow_dvd_pow 2 (by omega))
      (by rw [inBranch.total, sameSize]; exact fits)
  refine ⟨{
    begun with
    table
    count := begun.count.set len (count len - i - 1)
    symbol := begun.symbol + 1
    key := getNextKey begun.key len }, ?_, ?_⟩
  · unfold secondRound
    rw [isBegun, ok_bind, fillable.symbol_ok stands isCode, ok_bind,
      stands.count_eq isCode.positive bounded, ok_bind, subU_ok (by omega),
      ok_bind, stands.key (by omega), Nat.shiftRight_eq_div_pow,
      Nat.one_shiftLeft, inBranch.size, stored, ok_bind]
    rfl
  · refine ⟨stands.succ isCode, by rw [← sameSize, ← sameLength], .inr ?_⟩
    refine ⟨branch, last, j, ?_, ?_,
      inBranch.store fillable.complete room isCode longer above below found⟩
    · rw [place_succ]
      omega
    · have sameBranch :
          place prefixMaxBits count len i / 2 ^ (prefixMaxBits - rootBits) =
            branch := by
        rw [Nat.div_eq_iff (by positivity)]
        rw [Nat.succ_mul] at below
        omega
      have ends := @ends_in_branch count rootBits len (Nat.le_of_lt longer) bounded i
      rwa [sameBranch, ← place_succ] at ends

/-- The codes of a length are followed by those of the next one. -/
theorem SecondFilled.next
    (filled : SecondFilled count sorted rootBits size len (count len) fill)
    (positive : 1 ≤ len) :
    SecondFilled count sorted rootBits size (len + 1) 0 fill := by
  have same :
      place prefixMaxBits count (len + 1) 0 =
        place prefixMaxBits count len (count len) := by
    rw [place_zero, base_succ positive]
  refine ⟨filled.stands.next positive, filled.length, ?_⟩
  rcases filled.branches with none | ⟨branch, last, j, above, below, inBranch⟩
  · refine .inl ⟨none.low, none.total, ?_, none.filled⟩
    rw [same]
    exact none.atStart
  · rw [same]
    refine .inr ⟨branch, last, j, above, below, inBranch.low, inBranch.bits,
      inBranch.size, inBranch.behind, inBranch.total, inBranch.bounded,
      inBranch.positive, inBranch.counted, inBranch.long, inBranch.ends,
      inBranch.entry, inBranch.few, inBranch.before, ?_⟩
    rw [same]
    exact inBranch.filled

/-- All codes behind the root table are filled in. -/
theorem fillSecond_ok
    {maxLength : Nat}
    (fillable : Fillable count sorted)
    (room : Room count rootBits size)
    (small : maxLength ≤ prefixMaxBits)
    (isTotal : fill.totalSize = 2 ^ rootBits)
    (filled : SecondFilled count sorted rootBits size (rootBits + 1) 0 fill) :
    ∃ last,
      fillSecond sorted rootBits maxLength fill = .ok last ∧
        SecondFilled count sorted rootBits size
          (rootBits + 1 + (maxLength - rootBits)) 0 last := by
  unfold fillSecond
  dsimp only
  rw [isTotal]
  refine
    @foldlM_lengths_ok HuffmanFill
      (fun len fill => SecondFilled count sorted rootBits size len 0 fill)
      (fun self len =>
        codesOfLength (secondRound sorted rootBits (2 ^ rootBits - 1) len) self len)
      (rootBits + 1) (maxLength - rootBits) fill filled ?_
  intro len fill above below filled
  have bounded : len ≤ prefixMaxBits := by
    omega
  obtain ⟨next, ran, whole⟩ :=
    @codesOfLength_ok
      (fun i fill => SecondFilled count sorted rootBits size len i fill)
      (secondRound sorted rootBits (2 ^ rootBits - 1) len) fill len (count len)
      (filled.stands.count_eq (by omega) bounded) filled (by
        intro i fill counted filled
        exact secondRound_ok fillable room ⟨by omega, bounded, counted⟩ (by omega)
          filled)
  exact ⟨next, ran, whole.next (by omega)⟩

end Second

end Jxlz
