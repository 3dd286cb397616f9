import Mathlib

/-!
# Filling a table behind a reserved prefix

A walk over some items fills a table.  Items with a place of their own, in the
first entries of the table, are put there; the others follow behind those
entries in the order of the walk.
-/

namespace ReservedPrefix

variable {α β : Type}

/-- The table, and where the next item without a place of its own goes. -/
structure Filling (β : Type) where
  entries : List β
  next : Nat

namespace Filling

variable (place : α → Option Nat)
variable (value : α → β)

/-- One item of the walk. -/
def put
    (self : Filling β)
    (item : α) :
    Filling β :=
  match place item with
  | some reserved => { self with entries := self.entries.set reserved (value item) }
  | none =>
      { entries := self.entries.set self.next (value item)
        next := self.next + 1 }

/-- What a walk over these items leaves behind a prefix of `front` entries. -/
structure Filled
    (front : Nat)
    (seen : List α)
    (filling : Filling β) :
    Prop where
  next :
    filling.next = front + (seen.filter fun item => (place item).isNone).length
  reserved :
    ∀ item ∈ seen,
      ∀ position,
        place item = some position →
        position < front ∧ filling.entries[position]? = some (value item)
  appended :
    ∀ item ∈ seen,
      place item = none →
      ∃ position,
        front ≤ position ∧ position < filling.next ∧
          filling.entries[position]? = some (value item)

variable {place value}

/-- Before the walk nothing is filled. -/
theorem Filled.start
    {front : Nat}
    (entries : List β) :
    Filled place value front [] { entries, next := front } where
  next := rfl
  reserved := by
    intro item member
    cases member
  appended := by
    intro item member
    cases member

/-- One more item is put, and none of the earlier ones is overwritten. -/
theorem Filled.put
    {front : Nat}
    {seen : List α}
    {filling : Filling β}
    (filled : Filled place value front seen filling)
    {item : α}
    (inFront :
      ∀ position,
        place item = some position →
        position < front ∧ position < filling.entries.length)
    (ownPlace :
      ∀ other ∈ seen, place other = place item → place item ≠ none →
        value other = value item)
    (room : place item = none → filling.next < filling.entries.length) :
    Filled place value front (seen ++ [item]) (filling.put place value item) := by
  have enough : front ≤ filling.next := by
    rw [filled.next]
    exact Nat.le_add_right _ _
  cases isPlace : place item with
  | some position =>
      obtain ⟨early, inside⟩ := inFront position isPlace
      have isPut :
          filling.put place value item =
            { filling with entries := filling.entries.set position (value item) } := by
        rw [Filling.put, isPlace]
      rw [isPut]
      refine ⟨?_, ?_, ?_⟩
      · rw [List.filter_append, List.length_append, List.filter_singleton, isPlace]
        simpa using filled.next
      · intro other member otherPosition isOther
        by_cases same : otherPosition = position
        · subst same
          refine ⟨early, ?_⟩
          rw [List.getElem?_set_self inside]
          rcases List.mem_append.1 member with inSeen | isItem
          · rw [ownPlace other inSeen (isOther.trans isPlace.symm)
              (by rw [isPlace]; exact Option.some_ne_none _)]
          · rw [List.mem_singleton.1 isItem]
        · rw [List.getElem?_set_ne (Ne.symm same)]
          rcases List.mem_append.1 member with inSeen | isItem
          · exact filled.reserved other inSeen otherPosition isOther
          · rw [List.mem_singleton.1 isItem, isPlace] at isOther
            exact (same (Option.some.inj isOther).symm).elim
      · intro other member isOther
        rcases List.mem_append.1 member with inSeen | isItem
        · obtain ⟨place', late, before, isValue⟩ :=
            filled.appended other inSeen isOther
          refine ⟨place', late, before, ?_⟩
          rw [List.getElem?_set_ne (by omega)]
          exact isValue
        · rw [List.mem_singleton.1 isItem, isPlace] at isOther
          cases isOther
  | none =>
      have inside := room isPlace
      have isPut :
          filling.put place value item =
            { entries := filling.entries.set filling.next (value item)
              next := filling.next + 1 } := by
        rw [Filling.put, isPlace]
      rw [isPut]
      refine ⟨?_, ?_, ?_⟩
      · rw [List.filter_append, List.length_append, List.filter_singleton, isPlace]
        have before := filled.next
        simp only [Option.isNone_none, cond_true, List.length_singleton]
        omega
      · intro other member otherPosition isOther
        rcases List.mem_append.1 member with inSeen | isItem
        · obtain ⟨early, isValue⟩ :=
            filled.reserved other inSeen otherPosition isOther
          refine ⟨early, ?_⟩
          rw [List.getElem?_set_ne (by omega)]
          exact isValue
        · rw [List.mem_singleton.1 isItem, isPlace] at isOther
          cases isOther
      · intro other member isOther
        rcases List.mem_append.1 member with inSeen | isItem
        · obtain ⟨place', late, before, isValue⟩ :=
            filled.appended other inSeen isOther
          refine ⟨place', late, Nat.lt_succ_of_lt before, ?_⟩
          rw [List.getElem?_set_ne (by omega)]
          exact isValue
        · rw [List.mem_singleton.1 isItem]
          exact ⟨filling.next, enough, Nat.lt_succ_self _,
            List.getElem?_set_self inside⟩

end Filling

end ReservedPrefix
