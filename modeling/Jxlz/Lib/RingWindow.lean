import Mathlib

namespace RingWindow

/-!
# A ring buffer over an unbounded list

A window of a fixed size keeps the last elements of a growing list: element
`place` of the list stands in cell `place % size`.  The cells that no element
has reached yet hold a filler.
-/

variable {α : Type}

/-- What a window of the given size holds of the list so far. -/
structure Holds
    (size : Nat)
    (filler : α)
    (history : List α)
    (window : List α) :
    Prop where
  cells :
    window.length = size
  recent :
    ∀ (place : Nat) (inside : place < history.length),
      history.length ≤ place + size →
      window[place % size]? = some history[place]
  untouched :
    ∀ cell,
      history.length ≤ cell →
      cell < size →
      window[cell]? = some filler

/-- An empty list in front of a window of fillers. -/
theorem holds_replicate
    (size : Nat)
    (filler : α) :
    Holds size filler [] (List.replicate size filler) where
  cells := List.length_replicate
  recent := by
    intro place inside
    cases inside
  untouched := by
    intro cell _ inside
    rw [List.getElem?_replicate_of_lt inside]

/-- Writing fillers over the cells of an empty list changes nothing. -/
theorem Holds.refill
    {size : Nat}
    {filler : α}
    {window : List α}
    (holds : Holds size filler [] window)
    {amount : Nat}
    (fits : amount ≤ size) :
    Holds size filler []
      (List.replicate amount filler ++ window.drop amount) where
  cells := by
    rw [List.length_append, List.length_replicate, List.length_drop,
      holds.cells]
    omega
  recent := by
    intro place inside
    cases inside
  untouched := by
    intro cell atLeast inside
    by_cases filled : cell < amount
    · rw [List.getElem?_append_left (by simpa using filled),
        List.getElem?_replicate_of_lt filled]
    · rw [List.getElem?_append_right (by simp; omega), List.length_replicate,
        List.getElem?_drop, Nat.add_sub_cancel' (by omega)]
      exact holds.untouched cell atLeast inside

/-- Appending an element writes one cell. -/
theorem Holds.push
    {size : Nat}
    {filler : α}
    {history window : List α}
    (holds : Holds size filler history window)
    (positive : 0 < size)
    (item : α) :
    Holds size filler (history ++ [item])
      (window.set (history.length % size) item) where
  cells := by
    rw [List.length_set, holds.cells]
  recent := by
    intro place inside isRecent
    rw [List.length_append, List.length_singleton] at inside isRecent
    by_cases isNew : place = history.length
    · subst isNew
      have inWindow : history.length % size < window.length := by
        rw [holds.cells]
        exact Nat.mod_lt _ positive
      rw [List.getElem?_set_self inWindow, List.getElem_concat_length rfl]
    · have old : place < history.length := by
        omega
      -- Two places less than a whole round apart have different cells.
      have otherCell : history.length % size ≠ place % size := by
        intro sameCell
        have apart : (history.length - place) % size = 0 :=
          Nat.sub_mod_eq_zero_of_mod_eq sameCell
        rw [Nat.mod_eq_of_lt (by omega)] at apart
        omega
      rw [List.getElem?_set_ne otherCell, List.getElem_append_left old]
      exact holds.recent place old (by omega)
  untouched := by
    intro cell above inside
    rw [List.length_append, List.length_singleton] at above
    have otherCell : history.length % size ≠ cell := by
      rw [Nat.mod_eq_of_lt (by omega)]
      omega
    rw [List.getElem?_set_ne otherCell]
    exact holds.untouched cell (by omega) inside

/-- The cell that the next element of a list of fillers is written to. -/
theorem Holds.next_of_fillers
    {size : Nat}
    {filler : α}
    {history window : List α}
    (holds : Holds size filler history window)
    (positive : 0 < size)
    (allFillers : ∀ item ∈ history, item = filler) :
    window[history.length % size]? = some filler := by
  by_cases fresh : history.length < size
  · rw [Nat.mod_eq_of_lt fresh]
    exact holds.untouched _ (Nat.le_refl _) fresh
  · have inside : history.length - size < history.length := by
      omega
    have sameCell :
        history.length % size = (history.length - size) % size :=
      Nat.mod_eq_sub_mod (by omega)
    rw [sameCell, holds.recent _ inside (by omega)]
    exact congrArg some (allFillers _ (List.getElem_mem inside))

end RingWindow
