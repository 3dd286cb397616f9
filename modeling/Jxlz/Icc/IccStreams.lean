import Jxlz.Base.Checked

namespace Jxlz.Icc

/-!
# Numbers and shuffled bytes in the streams of the ICC codec

A number is spelled in groups of seven bits, the lowest group first, with the
top bit set on all groups but the last.  `unshuffle` lists the bytes of a block
column by column and `shuffle` puts them back: both walk the same places.
-/

/-- The groups of a number. -/
def varInt
    (value : Nat) :
    List UInt8 :=
  if 127 < value then
    (UInt8.ofNat (value &&& 127) ||| 128) :: varInt (value >>> 7)
  else
    [UInt8.ofNat (value &&& 127)]
termination_by value
decreasing_by
  rw [Nat.shiftRight_eq_div_pow]
  omega

def encodeVarInt
    (bytes : List UInt8)
    (value : Nat) :
    List UInt8 :=
  bytes ++ varInt value

/-- The rounds of the loop that are left from round `i` on. -/
def decodeGroups
    (input : List UInt8)
    (pos : Nat) :
    Nat → Nat → Nat → Nat × Nat
  | 0, i, ret => (ret, pos + i + 1)
  | rounds + 1, i, ret =>
      match input[pos + i]? with
      | none => (ret, pos + i + 1)
      | some byte =>
          let ret := ret ||| shlU 64 (byte &&& 127).toNat (7 * i)
          if byte &&& 128 = 0 then
            (ret, pos + i + 1)
          else
            decodeGroups input pos rounds (i + 1) ret

/-- The number at a position, and the position behind it. -/
def decodeVarInt
    (input : List UInt8)
    (pos : Nat) :
    Nat × Nat :=
  decodeGroups input pos 10 0 0

theorem varInt_pos
    (value : Nat) :
    0 < (varInt value).length := by
  unfold varInt
  split <;> exact Nat.succ_pos _

/-- A group and the bit above it. -/
theorem group_bits
    {group : Nat}
    (small : group < 128) :
    ((UInt8.ofNat group ||| 128) &&& 127).toNat = group ∧
      (UInt8.ofNat group ||| 128) &&& 128 ≠ 0 ∧
      (UInt8.ofNat group &&& 127).toNat = group ∧
      UInt8.ofNat group &&& 128 = 0 := by
  have all :
      ∀ place : Fin 128,
        ((UInt8.ofNat place ||| 128) &&& 127).toNat = place ∧
          (UInt8.ofNat place ||| 128) &&& 128 ≠ 0 ∧
          (UInt8.ofNat place &&& 127).toNat = place ∧
          UInt8.ofNat place &&& 128 = 0 := by
    decide +kernel
  exact all ⟨group, small⟩

/-- A group is put in above the groups before it. -/
theorem or_group
    {ret group i : Nat}
    (below : ret < 2 ^ (7 * i))
    (fits : group * 2 ^ (7 * i) < 2 ^ 64) :
    ret ||| shlU 64 group (7 * i) = ret + group * 2 ^ (7 * i) := by
  rw [shlU_eq fits, Nat.or_comm, Nat.mul_comm,
    ← Nat.two_pow_add_eq_or_of_lt below, Nat.add_comm]

theorem decodeGroups_varInt
    {input rest : List UInt8}
    {pos rounds i ret value : Nat}
    (spelled : input.drop (pos + i) = varInt value ++ rest)
    (below : ret < 2 ^ (7 * i))
    (fits : value * 2 ^ (7 * i) < 2 ^ 64)
    (enough : value < 2 ^ (7 * rounds))
    (positive : 0 < rounds) :
    decodeGroups input pos rounds i ret =
      (ret + value * 2 ^ (7 * i), pos + i + (varInt value).length) := by
  induction rounds generalizing i ret value with
  | zero =>
      exact absurd positive (Nat.lt_irrefl 0)
  | succ rounds inductionHypothesis =>
      have masked : value &&& 127 = value % 128 :=
        Nat.and_two_pow_sub_one_eq_mod value 7
      obtain ⟨low, high, lowLast, highLast⟩ :=
        group_bits (Nat.mod_lt value (by decide : 128 > 0))
      have power : 2 ^ (7 * (i + 1)) = 128 * 2 ^ (7 * i) := by
        rw [Nat.mul_succ, Nat.pow_add, Nat.mul_comm]
      unfold varInt at spelled ⊢
      rw [masked] at spelled ⊢
      by_cases more : 127 < value
      · rw [if_pos more] at spelled ⊢
        have isByte :
            input[pos + i]? = some (UInt8.ofNat (value % 128) ||| 128) := by
          rw [← List.head?_drop, spelled]
          rfl
        have others :
            input.drop (pos + (i + 1)) = varInt (value >>> 7) ++ rest := by
          rw [← Nat.add_assoc, ← List.drop_drop, spelled]
          rfl
        have quotient : value >>> 7 = value / 128 :=
          Nat.shiftRight_eq_div_pow value 7
        have whole := Nat.div_add_mod value 128
        have split :
            value * 2 ^ (7 * i) =
              value % 128 * 2 ^ (7 * i) + value / 128 * 2 ^ (7 * (i + 1)) := by
          conv_lhs => rw [← whole]
          rw [power]
          ring
        have groupFits : value % 128 * 2 ^ (7 * i) < 2 ^ 64 := by
          omega
        have groupBelow : value % 128 * 2 ^ (7 * i) ≤ 127 * 2 ^ (7 * i) :=
          Nat.mul_le_mul_right _ (by omega)
        unfold decodeGroups
        rw [isByte]
        dsimp only
        rw [if_neg high, low, or_group below groupFits]
        have next :=
          @inductionHypothesis (i + 1) (ret + value % 128 * 2 ^ (7 * i))
            (value >>> 7) others (by omega) (by rw [quotient]; omega)
            (by
              rw [quotient]
              refine Nat.div_lt_of_lt_mul ?_
              rwa [Nat.mul_succ, Nat.add_comm, Nat.pow_add] at enough)
            (by
              by_contra none
              have isZero : rounds = 0 := by omega
              rw [isZero] at enough
              omega)
        rw [next, quotient, List.length_cons]
        refine Prod.ext ?_ ?_
        · dsimp only
          omega
        · dsimp only
          omega
      · rw [if_neg more] at spelled ⊢
        have isByte : input[pos + i]? = some (UInt8.ofNat (value % 128)) := by
          rw [← List.head?_drop, spelled]
          rfl
        have small : value % 128 = value := Nat.mod_eq_of_lt (by omega)
        unfold decodeGroups
        rw [isByte]
        dsimp only
        rw [if_pos highLast, lowLast, small, or_group below fits]
        rfl

/-- A number that was written is read back. -/
theorem decodeVarInt_varInt
    {input rest : List UInt8}
    {pos value : Nat}
    (spelled : input.drop pos = varInt value ++ rest)
    (fits : value < 2 ^ 64) :
    decodeVarInt input pos = (value, pos + (varInt value).length) := by
  have read :=
    @decodeGroups_varInt input rest pos 10 0 0 value spelled (by decide)
      (by simpa using fits) (Nat.lt_trans fits (by decide)) (by decide)
  unfold decodeVarInt
  simpa using read

/--
The places that both shuffles walk: down a column in steps of `height`, and
then from the top of the next one.
-/
def places
    (height len : Nat) :
    Nat → Nat → Nat → List Nat
  | 0, _, _ => []
  | left + 1, s, j =>
      j ::
        if len ≤ j + height then
          places height len left (s + 1) (s + 1)
        else
          places height len left s (j + height)

/-- The number of rows of a block of `len` bytes. -/
def rows
    (len width : Nat) :
    Nat :=
  (len + width - 1) / width

/-- The places of a whole block. -/
def blockPlaces
    (len width : Nat) :
    List Nat :=
  places (rows len width) len len 0 0

/-- Every byte is stored at the next place; no place is outside the block. -/
def unshuffle
    (data : List UInt8)
    (width : Nat) :
    List UInt8 :=
  ((blockPlaces data.length width).zip data).foldl
    (fun tmp (j, b) => tmp.set j b) (List.replicate data.length 0)

/-- Every byte is loaded from the next place. -/
def shuffle
    (data : List UInt8)
    (width : Nat) :
    List UInt8 :=
  (blockPlaces data.length width).map (fun j => data.getD j 0)

section Places

variable {height len : Nat}

theorem length_places
    (left s j : Nat) :
    (places height len left s j).length = left := by
  induction left generalizing s j with
  | zero =>
      rfl
  | succ left inductionHypothesis =>
      unfold places
      split <;> rw [List.length_cons, inductionHypothesis]

/-- The places that the walk has passed at place `j` of column `s`. -/
def passed
    (height len s j : Nat) :
    Finset Nat :=
  (Finset.range len).filter
    (fun place => place % height < s ∨ place % height = s ∧ place < j)

/-- While places are left, the walk stands at one of its column. -/
structure Stands
    (height len left s j : Nat) :
    Prop where
  column : 0 < left → s < height ∧ j % height = s
  inside : 0 < left → j < len
  count : (passed height len s j).card + left = len

theorem notMem_passed
    {s j : Nat}
    (column : j % height = s) :
    j ∉ passed height len s j := by
  intro member
  rcases (Finset.mem_filter.1 member).2 with before | ⟨_, below⟩
  · omega
  · exact Nat.lt_irrefl j below

/-- A step down the column passes its place and no other one. -/
theorem passed_down
    {s j : Nat}
    (column : j % height = s)
    (positive : 0 < height)
    (inside : j < len) :
    passed height len s (j + height) = insert j (passed height len s j) := by
  ext place
  simp only [passed, Finset.mem_filter, Finset.mem_range, Finset.mem_insert]
  constructor
  · rintro ⟨within, before | ⟨same, below⟩⟩
    · exact .inr ⟨within, .inl before⟩
    · by_cases lower : place < j
      · exact .inr ⟨within, .inr ⟨same, lower⟩⟩
      · have apart : height ∣ place - j :=
          (Nat.modEq_iff_dvd' (Nat.not_lt.1 lower)).1
            (column.trans same.symm)
        have none := Nat.eq_zero_of_dvd_of_lt apart (by omega)
        exact .inl (by omega)
  · rintro (rfl | ⟨within, before | ⟨same, below⟩⟩)
    · exact ⟨inside, .inr ⟨column, by omega⟩⟩
    · exact ⟨within, .inl before⟩
    · exact ⟨within, .inr ⟨same, by omega⟩⟩

/-- So does the step from the foot of a column to the next one. -/
theorem passed_next
    {s j : Nat}
    (column : j % height = s)
    (inside : j < len)
    (foot : len ≤ j + height) :
    passed height len (s + 1) (s + 1) = insert j (passed height len s j) := by
  ext place
  have small := Nat.mod_le place height
  simp only [passed, Finset.mem_filter, Finset.mem_range, Finset.mem_insert]
  constructor
  · rintro ⟨within, before | ⟨same, below⟩⟩
    · by_cases earlier : place % height < s
      · exact .inr ⟨within, .inl earlier⟩
      · have same : place % height = s := by
          omega
        by_cases lower : place < j
        · exact .inr ⟨within, .inr ⟨same, lower⟩⟩
        · have apart : height ∣ place - j :=
            (Nat.modEq_iff_dvd' (Nat.not_lt.1 lower)).1
              (column.trans same.symm)
          have none := Nat.eq_zero_of_dvd_of_lt apart (by omega)
          exact .inl (by omega)
    · omega
  · rintro (rfl | ⟨within, before | ⟨same, below⟩⟩)
    · exact ⟨inside, .inl (by omega)⟩
    · exact ⟨within, .inl (by omega)⟩
    · exact ⟨within, .inl (by omega)⟩

/-- The places that are left are different, inside and not yet passed. -/
theorem places_nodup
    {left s j : Nat}
    (stands : Stands height len left s j) :
    (places height len left s j).Nodup ∧
      ∀ place ∈ places height len left s j,
        place < len ∧ place ∉ passed height len s j := by
  induction left generalizing s j with
  | zero =>
      exact ⟨List.nodup_nil, fun place member => absurd member List.not_mem_nil⟩
  | succ left inductionHypothesis =>
      obtain ⟨inColumn, column⟩ := stands.column (Nat.succ_pos left)
      have inside := stands.inside (Nat.succ_pos left)
      have fresh := @notMem_passed height len s j column
      have count := stands.count
      unfold places
      by_cases foot : len ≤ j + height
      · rw [if_pos foot]
        have moved := passed_next column inside foot
        have next : Stands height len left (s + 1) (s + 1) := by
          have counted : (passed height len (s + 1) (s + 1)).card + left = len := by
            rw [moved, Finset.card_insert_of_notMem fresh]
            omega
          -- A place that is left is in a later column.
          have later :
              0 < left →
                ∃ place, place < len ∧ s + 1 ≤ place % height := by
            intro positive
            by_contra none
            have all : Finset.range len ⊆ passed height len (s + 1) (s + 1) := by
              intro place member
              refine Finset.mem_filter.2 ⟨member, .inl (Nat.not_le.1 ?_)⟩
              exact fun above =>
                none ⟨place, Finset.mem_range.1 member, above⟩
            have large := Finset.card_le_card all
            rw [Finset.card_range] at large
            omega
          constructor
          · intro positive
            obtain ⟨place, _, above⟩ := later positive
            have below := Nat.mod_lt place (show height > 0 by omega)
            exact ⟨by omega, Nat.mod_eq_of_lt (by omega)⟩
          · intro positive
            obtain ⟨place, within, above⟩ := later positive
            have small := Nat.mod_le place height
            omega
          · exact counted
        obtain ⟨nodup, others⟩ := inductionHypothesis next
        rw [moved] at others
        refine ⟨List.nodup_cons.2 ⟨fun member => ?_, nodup⟩, ?_⟩
        · exact (others j member).2 (Finset.mem_insert_self _ _)
        · intro place member
          rcases List.mem_cons.1 member with rfl | member
          · exact ⟨inside, fresh⟩
          · obtain ⟨within, left⟩ := others place member
            exact ⟨within, fun inPassed =>
              left (Finset.mem_insert_of_mem inPassed)⟩
      · rw [if_neg foot]
        have moved := passed_down column (Nat.zero_lt_of_lt inColumn) inside
        have next : Stands height len left s (j + height) := by
          constructor
          · intro _
            exact ⟨inColumn, by rw [Nat.add_mod_right, column]⟩
          · intro _
            exact Nat.not_le.1 foot
          · rw [moved, Finset.card_insert_of_notMem fresh]
            omega
        obtain ⟨nodup, others⟩ := inductionHypothesis next
        rw [moved] at others
        refine ⟨List.nodup_cons.2 ⟨fun member => ?_, nodup⟩, ?_⟩
        · exact (others j member).2 (Finset.mem_insert_self _ _)
        · intro place member
          rcases List.mem_cons.1 member with rfl | member
          · exact ⟨inside, fresh⟩
          · obtain ⟨within, left⟩ := others place member
            exact ⟨within, fun inPassed =>
              left (Finset.mem_insert_of_mem inPassed)⟩

end Places

/-- The places of a block are all its places, each one once. -/
theorem blockPlaces_nodup
    {len width : Nat}
    (positive : 0 < width) :
    (blockPlaces len width).Nodup ∧
      ∀ place ∈ blockPlaces len width, place < len := by
  have stands : Stands (rows len width) len len 0 0 := by
    constructor
    · intro nonempty
      have oneRow : 1 ≤ rows len width := by
        unfold rows
        rw [Nat.le_div_iff_mul_le positive]
        omega
      exact ⟨oneRow, Nat.zero_mod _⟩
    · exact id
    · have none : passed (rows len width) len 0 0 = ∅ := by
        refine Finset.filter_eq_empty_iff.2 ?_
        intro place _
        omega
      rw [none, Finset.card_empty, Nat.zero_add]
  obtain ⟨nodup, inside⟩ := places_nodup stands
  exact ⟨nodup, fun place member => (inside place member).1⟩

/-- What is stored at different places is found there. -/
theorem getD_foldl_set
    {stores : List (Nat × UInt8)}
    {tmp : List UInt8}
    (nodup : (stores.map Prod.fst).Nodup)
    (inside : ∀ store ∈ stores, store.1 < tmp.length) :
    (stores.foldl (fun tmp (j, b) => tmp.set j b) tmp).length = tmp.length ∧
      (∀ store ∈ stores,
        (stores.foldl (fun tmp (j, b) => tmp.set j b) tmp).getD store.1 0 =
          store.2) ∧
      ∀ place,
        place ∉ stores.map Prod.fst →
        (stores.foldl (fun tmp (j, b) => tmp.set j b) tmp).getD place 0 =
          tmp.getD place 0 := by
  induction stores generalizing tmp with
  | nil =>
      exact ⟨rfl, fun store member => absurd member List.not_mem_nil,
        fun _ _ => rfl⟩
  | cons first others inductionHypothesis =>
      obtain ⟨j, b⟩ := first
      rw [List.map_cons, List.nodup_cons] at nodup
      obtain ⟨fresh, nodup⟩ := nodup
      have within := inside (j, b) List.mem_cons_self
      obtain ⟨sameLength, found, untouched⟩ :=
        @inductionHypothesis (tmp.set j b) nodup
          (fun store member => by
            rw [List.length_set]
            exact inside store (List.mem_cons_of_mem _ member))
      rw [List.foldl_cons]
      refine ⟨by rw [sameLength, List.length_set], ?_, ?_⟩
      · intro store member
        rcases List.mem_cons.1 member with rfl | member
        · rw [untouched j fresh]
          simp [List.getD_eq_getElem?_getD, within]
        · exact found store member
      · intro place outside
        rw [List.map_cons, List.mem_cons, not_or] at outside
        rw [untouched place outside.2]
        simp [List.getD_eq_getElem?_getD,
          List.getElem?_set_ne (Ne.symm outside.1)]

theorem length_unshuffle
    (data : List UInt8)
    {width : Nat}
    (positive : 0 < width) :
    (unshuffle data width).length = data.length := by
  obtain ⟨nodup, inside⟩ := @blockPlaces_nodup data.length width positive
  have count : (blockPlaces data.length width).length = data.length :=
    length_places _ _ _
  have firsts :
      ((blockPlaces data.length width).zip data).map Prod.fst =
        blockPlaces data.length width :=
    List.map_fst_zip (Nat.le_of_eq count)
  unfold unshuffle
  rw [(getD_foldl_set (by rwa [firsts]) ?_).1, List.length_replicate]
  intro store member
  rw [List.length_replicate]
  exact inside store.1 (List.of_mem_zip member).1

/-- A block that was listed by columns is put back. -/
theorem shuffle_unshuffle
    (data : List UInt8)
    {width : Nat}
    (positive : 0 < width) :
    shuffle (unshuffle data width) width = data := by
  obtain ⟨nodup, inside⟩ := @blockPlaces_nodup data.length width positive
  have count : (blockPlaces data.length width).length = data.length :=
    length_places _ _ _
  have firsts :
      ((blockPlaces data.length width).zip data).map Prod.fst =
        blockPlaces data.length width :=
    List.map_fst_zip (Nat.le_of_eq count)
  obtain ⟨_, found, _⟩ :=
    @getD_foldl_set ((blockPlaces data.length width).zip data)
      (List.replicate data.length 0) (by rwa [firsts])
      (fun store member => by
        rw [List.length_replicate]
        exact inside store.1 (List.of_mem_zip member).1)
  unfold shuffle
  rw [length_unshuffle data positive]
  apply List.ext_getElem
  · rw [List.length_map, count]
  · intro place within within'
    have atPlace : place < (blockPlaces data.length width).length := by
      rwa [count]
    rw [List.getElem_map]
    have member :
        ((blockPlaces data.length width)[place], data[place]) ∈
          (blockPlaces data.length width).zip data := by
      refine List.mem_iff_getElem.2 ⟨place, ?_, List.getElem_zip⟩
      rw [List.length_zip, count]
      simpa using within'
    exact found _ member

end Jxlz.Icc
