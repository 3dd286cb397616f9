import Jxlz.Lib.BitString

namespace CanonicalCode

open BitReversal

/-!
# Canonical prefix codes

A canonical code is given by the number of its codewords of each length alone:
shorter ones come before longer ones, and each is the one before it plus one.
With all codewords filled up by zeros to the largest length, a codeword stands
for an interval of places, and a complete code tiles them all.  A codeword is
named by its length and its index among the codewords of that length.
-/

variable (depth : Nat) (count : Nat → Nat)

/-- The place where the codewords of a length start. -/
def base
    (len : Nat) :
    Nat :=
  ∑ shorter ∈ Finset.Ico 1 len, count shorter * 2 ^ (depth - shorter)

/-- The place where a codeword starts. -/
def place
    (len i : Nat) :
    Nat :=
  base depth count len + i * 2 ^ (depth - len)

/-- The number of codewords before one. -/
def rank
    (len i : Nat) :
    Nat :=
  ∑ shorter ∈ Finset.Ico 1 len, count shorter + i

/-- A codeword as a number of its length. -/
def word
    (len i : Nat) :
    Nat :=
  ∑ shorter ∈ Finset.Ico 1 len, count shorter * 2 ^ (len - shorter) + i

/-- A codeword as it stands in the input, its first bit lowest. -/
def key
    (len i : Nat) :
    Nat :=
  reverse depth (place depth count len i)

/-- A codeword of the code. -/
structure IsCode
    (len i : Nat) :
    Prop where
  positive : 1 ≤ len
  bounded : len ≤ depth
  counted : i < count len

/-- The interval of a codeword holds a place. -/
def Holds
    (len i at_place : Nat) :
    Prop :=
  place depth count len i ≤ at_place ∧
    at_place < place depth count len i + 2 ^ (depth - len)

/-- The codewords tile all places. -/
def Complete : Prop :=
  base depth count (depth + 1) = 2 ^ depth

variable {depth : Nat} {count : Nat → Nat}

variable {len : Nat}

theorem base_succ
    (positive : 1 ≤ len) :
    base depth count (len + 1) = place depth count len (count len) := by
  unfold base place base
  rw [Finset.sum_Ico_succ_top positive]

theorem rank_succ
    (positive : 1 ≤ len) :
    rank count (len + 1) 0 = rank count len (count len) := by
  unfold rank
  rw [Finset.sum_Ico_succ_top positive, Nat.add_zero]

theorem base_mono
    {first second : Nat}
    (ordered : first ≤ second) :
    base depth count first ≤ base depth count second :=
  Finset.sum_le_sum_of_subset (Finset.Ico_subset_Ico_right ordered)

theorem place_succ
    (len i : Nat) :
    place depth count len (i + 1) = place depth count len i + 2 ^ (depth - len) := by
  unfold place
  ring

theorem place_zero
    (len : Nat) :
    place depth count len 0 = base depth count len := by
  unfold place
  rw [Nat.zero_mul, Nat.add_zero]

/-- A codeword starts at a multiple of the size of its interval. -/
theorem place_eq
    (bounded : len ≤ depth)
    (i : Nat) :
    place depth count len i = word count len i * 2 ^ (depth - len) := by
  unfold place base word
  rw [Nat.add_mul, Finset.sum_mul]
  congr 1
  refine Finset.sum_congr rfl fun shorter member => ?_
  have below := (Finset.mem_Ico.1 member).2
  rw [Nat.mul_assoc, ← Nat.pow_add]
  congr 2
  omega

variable {len i : Nat}

/-- The codewords of a length end where those of the next one start. -/
theorem place_le
    (positive : 1 ≤ len)
    (counted : i ≤ count len) :
    place depth count len i ≤ base depth count (len + 1) := by
  rw [base_succ positive]
  unfold place
  exact Nat.add_le_add_left (Nat.mul_le_mul_right _ counted) _

theorem IsCode.ends
    (isCode : IsCode depth count len i) :
    place depth count len i + 2 ^ (depth - len) ≤ base depth count (len + 1) := by
  rw [← place_succ]
  exact place_le isCode.positive isCode.counted

theorem IsCode.inside
    (isCode : IsCode depth count len i)
    (complete : Complete depth count) :
    place depth count len i + 2 ^ (depth - len) ≤ 2 ^ depth := by
  have bounded := isCode.bounded
  have all := @base_mono depth count (len + 1) (depth + 1) (by omega)
  rw [complete] at all
  exact Nat.le_trans isCode.ends all

theorem IsCode.word_lt
    (isCode : IsCode depth count len i)
    (complete : Complete depth count) :
    word count len i < 2 ^ len := by
  have inside := isCode.inside complete
  have bounded := isCode.bounded
  have apart : 2 ^ depth = 2 ^ len * 2 ^ (depth - len) := by
    rw [← Nat.pow_add]
    congr 1
    omega
  rw [place_eq bounded, apart, ← Nat.succ_mul] at inside
  exact Nat.le_of_mul_le_mul_right inside (by positivity)

/-- Every place is in the interval of a codeword. -/
theorem exists_holds
    (complete : Complete depth count)
    {at_place : Nat}
    (inside : at_place < 2 ^ depth) :
    ∃ len i, IsCode depth count len i ∧ Holds depth count len i at_place := by
  have some : ∃ len, at_place < base depth count (len + 1) := by
    refine ⟨depth, ?_⟩
    rw [complete]
    exact inside
  obtain ⟨len, below, least⟩ :
      ∃ len,
        at_place < base depth count (len + 1) ∧
          ∀ shorter < len, ¬at_place < base depth count (shorter + 1) :=
    ⟨Nat.find some, Nat.find_spec some, fun _ => Nat.find_min some⟩
  have positive : 1 ≤ len := by
    rcases Nat.eq_zero_or_pos len with rfl | positive
    · simp [base] at below
    · exact positive
  have above : base depth count len ≤ at_place := by
    have before := least (len - 1) (by omega)
    rwa [Nat.sub_add_cancel positive, Nat.not_lt] at before
  have bounded : len ≤ depth := by
    by_contra longer
    have all := @base_mono depth count (depth + 1) len (by omega)
    rw [complete] at all
    omega
  have width : 0 < 2 ^ (depth - len) := by
    positivity
  rw [base_succ positive] at below
  unfold place at below
  refine ⟨len, (at_place - base depth count len) / 2 ^ (depth - len),
    ⟨positive, bounded, ?_⟩, ?_⟩
  · rw [Nat.div_lt_iff_lt_mul width]
    omega
  · have lower := Nat.div_mul_le_self (at_place - base depth count len)
      (2 ^ (depth - len))
    have upper :=
      @Nat.lt_div_mul_add (at_place - base depth count len) _ width
    unfold Holds place
    constructor <;> omega

variable {len i len' i' : Nat}

/-- A codeword of a smaller length, or before one of its length, ends first. -/
theorem IsCode.before
    (isCode : IsCode depth count len i)
    (earlier : len < len' ∨ len = len' ∧ i < i') :
    place depth count len i + 2 ^ (depth - len) ≤ place depth count len' i' := by
  rcases earlier with shorter | ⟨rfl, lower⟩
  · refine Nat.le_trans isCode.ends ?_
    have ordered := @base_mono depth count (len + 1) len' shorter
    unfold place
    omega
  · rw [← place_succ]
    unfold place
    exact Nat.add_le_add_left (Nat.mul_le_mul_right _ lower) _

/-- The intervals of two codewords do not meet. -/
theorem holds_unique
    {len i len' i' at_place : Nat}
    (isCode : IsCode depth count len i)
    (isCode' : IsCode depth count len' i')
    (holds : Holds depth count len i at_place)
    (holds' : Holds depth count len' i' at_place) :
    len = len' ∧ i = i' := by
  obtain ⟨lower, upper⟩ := holds
  obtain ⟨lower', upper'⟩ := holds'
  by_contra different
  have apart :
      (len < len' ∨ len = len' ∧ i < i') ∨ (len' < len ∨ len' = len ∧ i' < i) := by
    omega
  rcases apart with earlier | later
  · have ends := isCode.before earlier
    omega
  · have ends := isCode'.before later
    omega

/-- A key is the reversal of its word. -/
theorem key_eq
    (bounded : len ≤ depth)
    (i : Nat) :
    key depth count len i = reverse len (word count len i) := by
  unfold key
  rw [place_eq bounded]
  obtain ⟨more, rfl⟩ := Nat.exists_eq_add_of_le bounded
  rw [Nat.add_sub_cancel_left, reverse_shift]

theorem key_lt
    (bounded : len ≤ depth)
    (i : Nat) :
    key depth count len i < 2 ^ len := by
  rw [key_eq bounded]
  exact reverse_lt len _

theorem rank_mono
    {first second : Nat}
    (ordered : first ≤ second) :
    rank count first 0 ≤ rank count second 0 := by
  unfold rank
  rw [Nat.add_zero, Nat.add_zero]
  exact Finset.sum_le_sum_of_subset (Finset.Ico_subset_Ico_right ordered)

theorem IsCode.rank_lt
    (isCode : IsCode depth count len i) :
    rank count len i < rank count (depth + 1) 0 := by
  have counted := isCode.counted
  have bounded := isCode.bounded
  have all := @rank_mono count (len + 1) (depth + 1) (by omega)
  rw [rank_succ isCode.positive] at all
  refine Nat.lt_of_lt_of_le ?_ all
  unfold rank
  omega

theorem place_le_base
    {len i len' : Nat}
    (positive : 1 ≤ len)
    (counted : i ≤ count len)
    (shorter : len < len') :
    place depth count len i ≤ base depth count len' :=
  Nat.le_trans (place_le positive counted) (base_mono shorter)

/-- The codewords before a place come before the codeword that starts there. -/
theorem earlier_of_place
    (positive : 1 ≤ len')
    (counted : i' ≤ count len')
    (before : place depth count len i < place depth count len' i') :
    len < len' ∨ len = len' ∧ i < i' := by
  by_contra later
  have order : len' < len ∨ len = len' ∧ i' ≤ i := by
    omega
  rcases order with longer | ⟨rfl, behind⟩
  · have ordered := @place_le_base depth count len' i' len positive counted longer
    unfold place at before ordered
    omega
  · have ordered := Nat.mul_le_mul_right (2 ^ (depth - len)) behind
    unfold place at before
    omega

/-- A codeword holds the place of an input exactly if the input starts with it. -/
theorem IsCode.holds_iff
    (isCode : IsCode depth count len i)
    (complete : Complete depth count)
    (input : Nat) :
    Holds depth count len i (reverse depth input) ↔
      input % 2 ^ len = key depth count len i := by
  have bounded := isCode.bounded
  have small := isCode.word_lt complete
  rw [key_eq bounded, mod_eq_reverse_iff small]
  unfold Holds
  rw [place_eq bounded]
  obtain ⟨more, rfl⟩ := Nat.exists_eq_add_of_le bounded
  rw [Nat.add_sub_cancel_left, Nat.add_comm len more, ← reverse_div more len input,
    Nat.div_eq_iff (by positivity)]
  have positive : 0 < 2 ^ more := by
    positivity
  constructor
  · rintro ⟨lower, upper⟩
    exact ⟨lower, by omega⟩
  · rintro ⟨lower, upper⟩
    exact ⟨lower, by omega⟩

/-! The codewords one after another. -/

theorem word_one :
    word count 1 0 = 0 := by
  unfold word
  rw [Finset.Ico_self, Finset.sum_empty]

theorem rank_one :
    rank count 1 0 = 0 := by
  unfold rank
  rw [Finset.Ico_self, Finset.sum_empty]

/-- The first word of a length is twice what follows the last one before it. -/
theorem word_succ
    (positive : 1 ≤ len) :
    word count (len + 1) 0 = word count len (count len) * 2 := by
  unfold word
  rw [Finset.sum_Ico_succ_top positive, Nat.add_sub_cancel_left, pow_one, Nat.add_zero,
    Nat.add_mul, Finset.sum_mul]
  congr 1
  refine Finset.sum_congr rfl fun shorter member => ?_
  have below := (Finset.mem_Ico.1 member).2
  rw [Nat.mul_assoc, ← Nat.pow_succ]
  congr 2
  omega

/-- An earlier codeword has a smaller rank. -/
theorem rank_lt_rank
    (positive : 1 ≤ len)
    (counted : i < count len)
    (earlier : len < len' ∨ len = len' ∧ i < i') :
    rank count len i < rank count len' i' := by
  rcases earlier with shorter | ⟨rfl, lower⟩
  · have ordered := @rank_mono count (len + 1) len' shorter
    rw [rank_succ positive] at ordered
    unfold rank at ordered ⊢
    omega
  · unfold rank
    omega

/-- Every number below that of all codewords is the rank of one. -/
theorem exists_rank
    {position : Nat}
    (inside : position < rank count (depth + 1) 0) :
    ∃ len i, IsCode depth count len i ∧ rank count len i = position := by
  induction depth with
  | zero =>
      rw [Nat.zero_add, rank_one] at inside
      cases inside
  | succ depth inductionHypothesis =>
      by_cases before : position < rank count (depth + 1) 0
      · obtain ⟨len, i, ⟨positive, bounded, counted⟩, isRank⟩ :=
          inductionHypothesis before
        exact ⟨len, i, ⟨positive, Nat.le_succ_of_le bounded, counted⟩, isRank⟩
      · rw [rank_succ (Nat.le_add_left 1 depth)] at inside
        unfold rank at before inside
        refine ⟨depth + 1, position - rank count (depth + 1) 0,
          ⟨Nat.le_add_left 1 depth, Nat.le_refl _, ?_⟩, ?_⟩ <;>
        · unfold rank
          omega

/-- No codeword starts with another one. -/
theorem prefixFree
    (isCode : IsCode depth count len i)
    (isCode' : IsCode depth count len' i')
    (starts : len ≤ len' ∧ word count len' i' / 2 ^ (len' - len) = word count len i) :
    len = len' ∧ i = i' := by
  obtain ⟨ordered, isPrefix⟩ := starts
  have positive : 0 < 2 ^ (len' - len) := by
    positivity
  have width : 2 ^ (depth - len) = 2 ^ (len' - len) * 2 ^ (depth - len') := by
    have bounded := isCode'.bounded
    rw [← Nat.pow_add]
    congr 1
    omega
  rw [Nat.div_eq_iff positive] at isPrefix
  have lower :
      word count len i * 2 ^ (len' - len) * 2 ^ (depth - len') ≤
        word count len' i' * 2 ^ (depth - len') :=
    Nat.mul_le_mul_right _ isPrefix.1
  have upper :
      (word count len' i' + 1) * 2 ^ (depth - len') ≤
        (word count len i + 1) * 2 ^ (len' - len) * 2 ^ (depth - len') :=
    Nat.mul_le_mul_right _ (by rw [Nat.add_mul, Nat.one_mul]; omega)
  have one : 0 < 2 ^ (depth - len') := by
    positivity
  refine @holds_unique depth count len i len' i' (place depth count len' i') isCode isCode'
    ?_ ?_
  · unfold Holds
    rw [place_eq isCode.bounded, place_eq isCode'.bounded, width, ← Nat.mul_assoc]
    refine ⟨lower, ?_⟩
    rw [Nat.add_mul, Nat.add_mul, Nat.add_mul, Nat.one_mul, Nat.one_mul] at upper
    omega
  · exact ⟨Nat.le_refl _, Nat.lt_add_of_pos_right one⟩

end CanonicalCode
