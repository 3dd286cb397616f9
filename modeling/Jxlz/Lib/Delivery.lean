import Mathlib

namespace Delivery

/-!
# Delivering a list through buffers

A source is copied part by part: each part goes behind what a buffer holds
already, and continues where the part before it ended.  Nothing here depends on
what is delivered.
-/

variable {α : Type}

/-- The next `count` items of a source. -/
def part
    (source : List α)
    (offset count : Nat) :
    List α :=
  (source.drop offset).take count

/-- A buffer with some items written over it from a position on. -/
def overwrite
    (buffer : List α)
    (position : Nat)
    (items : List α) :
    List α :=
  buffer.take position ++ items ++ buffer.drop (position + items.length)

theorem length_part
    {source : List α}
    {offset count : Nat}
    (inside : offset + count ≤ source.length) :
    (part source offset count).length = count := by
  unfold part
  rw [List.length_take, List.length_drop]
  omega

/-- Parts that follow each other make up the beginning of the source. -/
theorem take_append_part
    (source : List α)
    (offset count : Nat) :
    source.take offset ++ part source offset count = source.take (offset + count) := by
  unfold part
  exact (List.take_add).symm

variable {buffer items : List α} {position : Nat}

theorem length_overwrite
    (room : position + items.length ≤ buffer.length) :
    (overwrite buffer position items).length = buffer.length := by
  unfold overwrite
  rw [List.length_append, List.length_append, List.length_take, List.length_drop]
  omega

/-- What stood in front of the position stays, and the items follow it. -/
theorem take_overwrite
    (room : position + items.length ≤ buffer.length) :
    (overwrite buffer position items).take (position + items.length) =
      buffer.take position ++ items := by
  have before : (buffer.take position ++ items).length = position + items.length := by
    rw [List.length_append, List.length_take]
    omega
  unfold overwrite
  rw [← before, List.take_left]

/-- Nothing behind the items is touched. -/
theorem drop_overwrite
    (room : position + items.length ≤ buffer.length) :
    (overwrite buffer position items).drop (position + items.length) =
      buffer.drop (position + items.length) := by
  have before : (buffer.take position ++ items).length = position + items.length := by
    rw [List.length_append, List.length_take]
    omega
  unfold overwrite
  rw [← before, List.drop_left]

end Delivery
