import Jxlz.Lib.Delivery

namespace Delivery

/-!
# Items at many places of one buffer

A loop writes items at places of a buffer that do not overlap.  In the end every
place holds its items, and nothing between the places has changed.
-/

variable {α ι : Type}

/-- What a buffer holds once the items of some places are written. -/
structure Placed
    (position : ι → Nat)
    (items : ι → List α)
    (written : ι → Prop)
    (start buffer : List α) :
    Prop where
  length : buffer.length = start.length
  placed :
    ∀ place,
      written place →
      part buffer (position place) (items place).length = items place
  kept :
    ∀ index,
      (∀ place,
        written place →
        index < position place ∨ position place + (items place).length ≤ index) →
      buffer[index]? = start[index]?

/-- An item of a buffer that was written over. -/
theorem getElem?_overwrite
    {buffer items : List α}
    {position : Nat}
    (room : position + items.length ≤ buffer.length)
    (index : Nat) :
    (overwrite buffer position items)[index]? =
      if position ≤ index ∧ index < position + items.length then
        items[index - position]?
      else
        buffer[index]? := by
  have before : (buffer.take position).length = position := by
    rw [List.length_take]
    omega
  unfold overwrite
  rw [List.append_assoc]
  by_cases front : index < position
  · rw [List.getElem?_append_left (by omega), List.getElem?_take, if_pos front,
      if_neg (by omega)]
  · rw [List.getElem?_append_right (by omega), before]
    by_cases inside : index < position + items.length
    · rw [List.getElem?_append_left (by omega), if_pos ⟨by omega, inside⟩]
    · rw [List.getElem?_append_right (by omega), List.getElem?_drop,
        if_neg (by omega)]
      congr 1
      omega

theorem getElem?_part
    (source : List α)
    (offset count index : Nat) :
    (part source offset count)[index]? =
      if index < count then source[offset + index]? else none := by
  unfold part
  rw [List.getElem?_take, List.getElem?_drop]

theorem part_overwrite
    {buffer items : List α}
    {position : Nat}
    (room : position + items.length ≤ buffer.length) :
    part (overwrite buffer position items) position items.length = items := by
  refine List.ext_getElem? fun index => ?_
  rw [getElem?_part]
  by_cases inside : index < items.length
  · rw [if_pos inside, getElem?_overwrite room, if_pos ⟨by omega, by omega⟩]
    congr 1
    omega
  · rw [if_neg inside, List.getElem?_eq_none (by omega)]

/-- A part that does not overlap the items stays as it was. -/
theorem part_overwrite_of_disjoint
    {buffer items : List α}
    {position offset count : Nat}
    (room : position + items.length ≤ buffer.length)
    (disjoint : offset + count ≤ position ∨ position + items.length ≤ offset) :
    part (overwrite buffer position items) offset count =
      part buffer offset count := by
  refine List.ext_getElem? fun index => ?_
  rw [getElem?_part, getElem?_part]
  by_cases inside : index < count
  · rw [if_pos inside, if_pos inside, getElem?_overwrite room, if_neg (by omega)]
  · rw [if_neg inside, if_neg inside]

/-- A part of a part. -/
theorem part_part
    {source : List α}
    {offset count inner size : Nat}
    (inside : inner + size ≤ count) :
    part (part source offset count) inner size =
      part source (offset + inner) size := by
  refine List.ext_getElem? fun index => ?_
  rw [getElem?_part, getElem?_part, getElem?_part]
  by_cases small : index < size
  · rw [if_pos small, if_pos small, if_pos (by omega), Nat.add_assoc]
  · rw [if_neg small, if_neg small]

/-- What follows a part in a longer source does not matter. -/
theorem part_take
    {source : List α}
    {offset count length : Nat}
    (inside : offset + count ≤ length) :
    part (source.take length) offset count = part source offset count := by
  refine List.ext_getElem? fun index => ?_
  rw [getElem?_part, getElem?_part]
  by_cases small : index < count
  · rw [if_pos small, if_pos small, List.getElem?_take, if_pos (by omega)]
  · rw [if_neg small, if_neg small]

theorem part_all
    (source : List α) :
    part source 0 source.length = source := by
  unfold part
  rw [List.drop_zero, List.take_length]

theorem part_append_left
    {front rest : List α}
    {offset count : Nat}
    (inside : offset + count ≤ front.length) :
    part (front ++ rest) offset count = part front offset count := by
  unfold part
  rw [List.drop_append_of_le_length (by omega), List.take_append_of_le_length]
  rw [List.length_drop]
  omega

theorem part_append_right
    {front rest : List α}
    {offset count : Nat}
    (behind : front.length ≤ offset) :
    part (front ++ rest) offset count = part rest (offset - front.length) count := by
  unfold part
  rw [List.drop_append, List.drop_eq_nil_of_le behind, List.nil_append]

theorem length_flatMap_range
    {size : Nat}
    {items : Nat → List α}
    {count : Nat}
    (sizes : ∀ i, i < count → (items i).length = size) :
    ((List.range count).flatMap items).length = count * size := by
  induction count with
  | zero =>
      rw [List.range_zero, List.flatMap_nil, List.length_nil, Nat.zero_mul]
  | succ count inductionHypothesis =>
      rw [List.range_succ, List.flatMap_append, List.length_append,
        inductionHypothesis fun i inside => sizes i (Nat.lt_succ_of_lt inside),
        List.flatMap_singleton, sizes count (Nat.lt_succ_self count), Nat.succ_mul]

/-- Pieces of one size, put in a row, are found at multiples of the size. -/
theorem part_flatMap_range
    {size : Nat}
    {items : Nat → List α}
    {count i : Nat}
    (sizes : ∀ i, i < count → (items i).length = size)
    (inside : i < count) :
    part ((List.range count).flatMap items) (i * size) size = items i := by
  induction count with
  | zero =>
      exact absurd inside (Nat.not_lt_zero i)
  | succ count inductionHypothesis =>
      have earlier := fun i inside => sizes i (Nat.lt_succ_of_lt inside)
      have length := length_flatMap_range earlier
      rw [List.range_succ, List.flatMap_append, List.flatMap_singleton]
      rcases Nat.lt_succ_iff_lt_or_eq.1 inside with before | rfl
      · have room := Nat.mul_le_mul_right size (Nat.succ_le_of_lt before)
        rw [Nat.succ_mul] at room
        rw [part_append_left (by omega)]
        exact inductionHypothesis earlier before
      · rw [part_append_right (Nat.le_of_eq length), length, Nat.sub_self,
          ← sizes i (Nat.lt_succ_self i)]
        exact part_all (items i)

/-- The pieces of a source, put in a row again. -/
theorem flatMap_part
    (source : List α)
    (size count : Nat) :
    (List.range count).flatMap (fun i => part source (i * size) size) =
      source.take (count * size) := by
  induction count with
  | zero =>
      rw [Nat.zero_mul, List.take_zero, List.range_zero, List.flatMap_nil]
  | succ count inductionHypothesis =>
      rw [List.range_succ, List.flatMap_append, inductionHypothesis,
        List.flatMap_singleton, take_append_part, Nat.succ_mul]

namespace Placed

variable {position : ι → Nat}
variable {items : ι → List α}
variable {written next : ι → Prop}
variable {start buffer : List α}

theorem nothing
    (start : List α)
    (none : ∀ place, ¬ written place) :
    Placed position items written start start :=
  { length := rfl
    placed := fun place isWritten => absurd isWritten (none place)
    kept := fun _ _ => rfl }

theorem congr
    (before : Placed position items written start buffer)
    (same : ∀ place, next place ↔ written place) :
    Placed position items next start buffer :=
  { length := before.length
    placed := fun place isNext => before.placed place ((same place).1 isNext)
    kept := fun index outside =>
      before.kept index fun place isWritten => outside place ((same place).2 isWritten) }

/-- One more place is written; the places written before keep their items. -/
theorem write
    (before : Placed position items written start buffer)
    (place : ι)
    (room : position place + (items place).length ≤ buffer.length)
    (disjoint :
      ∀ other,
        written other →
        position other + (items other).length ≤ position place ∨
          position place + (items place).length ≤ position other)
    (same : ∀ other, next other ↔ written other ∨ other = place) :
    Placed position items next start
      (overwrite buffer (position place) (items place)) := by
  refine ⟨?_, ?_, ?_⟩
  · rw [length_overwrite room, before.length]
  · intro other isNext
    rcases (same other).1 isNext with isWritten | isPlace
    · rw [part_overwrite_of_disjoint room (disjoint other isWritten)]
      exact before.placed other isWritten
    · rw [isPlace]
      exact part_overwrite room
  · intro index outside
    have here := outside place ((same place).2 (.inr rfl))
    rw [getElem?_overwrite room, if_neg (by omega)]
    exact before.kept index fun other isWritten =>
      outside other ((same other).2 (.inl isWritten))

end Placed

end Delivery
