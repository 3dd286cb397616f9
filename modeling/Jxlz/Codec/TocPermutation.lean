import Jxlz.Codec.Toc

namespace Jxlz

/-!
# What the table of contents describes

The digits that `readPermutation` accepts are a Lehmer code, so its permutation
uses every value once and keeps the skipped entries in place.  Each round of
`readToc` sets the size of one entry and the id of another one; as the places
of the ids are distinct, no id is overwritten.
-/

namespace Toc

/-- A Lehmer code whose skipped digits are zero. -/
structure ValidDigits
    (skip size : Nat)
    (lehmer : List Nat) :
    Prop where
  entries :
    lehmer.length = size
  small :
    ∀ i,
      i < size →
      ∃ digit, lehmer[i]? = some digit ∧ digit + i < size
  skipped :
    ∀ i, i < skip → lehmer[i]? = some 0

/-- Before the loop all digits are zero. -/
theorem ValidDigits.start
    {skip size : Nat}
    (inside : skip ≤ size) :
    ValidDigits skip size (List.replicate size 0) where
  entries := List.length_replicate
  small := by
    intro i inRange
    exact ⟨0, by simp [inRange], by omega⟩
  skipped := by
    intro i early
    rw [List.getElem?_replicate_of_lt (by omega)]

/-- A digit that is accepted behind the skipped ones fits its place. -/
theorem ValidDigits.readDigit
    {skip size i : Nat}
    {contextMap : List Nat}
    {before after : Digits}
    (valid : ValidDigits skip size before.lehmer)
    (later : skip ≤ i)
    (read : readDigit size contextMap before i = .ok after) :
    ValidDigits skip size after.lehmer := by
  obtain ⟨⟨rank, reader, br⟩, _, read⟩ := bind_eq_ok.1 read
  dsimp only at read
  split at read
  · cases read
  obtain ⟨left, isLeft, read⟩ := bind_eq_ok.1 read
  obtain ⟨leftEq, inSize⟩ := subU_eq_ok isLeft
  split at read
  · cases read
  next notTooLarge =>
    obtain ⟨last, isLast, read⟩ := bind_eq_ok.1 read
    have sameLast := (castU_eq_ok isLast).1
    obtain ⟨_, isInside, read⟩ := bind_eq_ok.1 read
    have inside := require_eq_ok.1 isInside
    cases read
    subst sameLast
    refine ⟨by simp [valid.entries], ?_, ?_⟩
    · intro other inRange
      by_cases isPlace : other = i
      · subst isPlace
        exact ⟨_, List.getElem?_set_self inside, by omega⟩
      · rw [List.getElem?_set_ne (Ne.symm isPlace)]
        exact valid.small other inRange
    · intro other early
      rw [List.getElem?_set_ne (by omega)]
      exact valid.skipped other early

/-- All digits that are accepted make up a valid code. -/
theorem ValidDigits.readDigits
    {skip size : Nat}
    {contextMap places : List Nat}
    {before after : Digits}
    (valid : ValidDigits skip size before.lehmer)
    (later : ∀ i ∈ places, skip ≤ i)
    (read : places.foldlM (Toc.readDigit size contextMap) before = .ok after) :
    ValidDigits skip size after.lehmer := by
  induction places generalizing before with
  | nil =>
      cases read
      exact valid
  | cons i places inductionHypothesis =>
      rw [List.foldlM_cons] at read
      obtain ⟨next, first, rest⟩ := bind_eq_ok.1 read
      exact
        inductionHypothesis
          (valid.readDigit (later i List.mem_cons_self) first)
          (fun other isLater => later other (List.mem_cons_of_mem i isLater))
          rest

variable {br after : BitReader}

/-- An accepted permutation uses every value and keeps the skipped entries. -/
theorem readPermutation_perm
    {skip size : Nat}
    {reader readerAfter : ANSSymbolReader}
    {contextMap permutation : List Nat}
    {output : Option Nat}
    (read :
      readPermutation skip size output br reader contextMap =
        .ok (some permutation, readerAfter, after)) :
    permutation.Perm (List.range size) ∧
      permutation.take skip = List.range skip := by
  unfold readPermutation at read
  split at read
  · cases read
  next accepted =>
    simp only [not_or, Nat.not_lt, ne_eq, not_not] at accepted
    obtain ⟨nonempty, small, inside, _⟩ := accepted
    split at read
    · cases read
    obtain ⟨⟨count, reader, br⟩, _, read⟩ := bind_eq_ok.1 read
    dsimp only at read
    split at read
    · cases read
    split at read
    · cases read
    obtain ⟨digits, areDigits, read⟩ := bind_eq_ok.1 read
    split at read
    next hasOutput =>
      obtain ⟨decoded, isDecoded, read⟩ := bind_eq_ok.1 read
      cases read
      have valid : ValidDigits skip size digits.lehmer :=
        (ValidDigits.start inside).readDigits
          (fun i isPlace => (List.mem_range'_1.1 isPlace).1) areDigits
      obtain ⟨permutation, isPermutation, selects, perm⟩ :=
        decodeLehmerCode_ok (Nat.pos_of_ne_zero nonempty) small valid.small
          (by
            show 2 ^ ceilLog2Nonzero size ≤
              (List.replicate (1 <<< ceilLog2Nonzero size) 0).length
            rw [List.length_replicate, Nat.one_shiftLeft])
      rw [isPermutation] at isDecoded
      cases isDecoded
      refine ⟨perm, selects.fixes ?_ valid.skipped⟩
      rw [perm.length_eq, List.length_range]
      exact inside
    next noOutput =>
      cases read

variable {tocEntries : Nat}

/-- The permutation of a table of contents is one of its sections. -/
theorem readOrder_perm
    {permutation : List Nat}
    (read : readOrder tocEntries br = .ok (some permutation, after)) :
    permutation.Perm (List.range tocEntries) := by
  obtain ⟨⟨permuted, afterFlag⟩, _, read⟩ := bind_eq_ok.1 read
  obtain ⟨⟨order, afterOrder⟩, isOrder, read⟩ := bind_eq_ok.1 read
  obtain ⟨aligned, _, read⟩ := bind_eq_ok.1 read
  cases read
  split at isOrder
  · unfold decodePermutation at isOrder
    split at isOrder
    · cases isOrder
    obtain ⟨⟨contexts, code, afterCode⟩, _, isOrder⟩ := bind_eq_ok.1 isOrder
    obtain ⟨⟨reader, start⟩, _, isOrder⟩ := bind_eq_ok.1 isOrder
    obtain ⟨⟨decoded, readerAfter, last⟩, isDecoded, isOrder⟩ :=
      bind_eq_ok.1 isOrder
    dsimp only at isOrder
    split at isOrder
    · cases isOrder
    · cases isOrder
      exact (readPermutation_perm isDecoded).1
  · cases isOrder

/-- As many sizes are read as there are sections. -/
theorem length_readSizes
    {sizes : List Nat}
    (read : readSizes tocEntries br = .ok (sizes, after)) :
    sizes.length = tocEntries := by
  induction tocEntries generalizing br sizes with
  | zero =>
      cases read
      rfl
  | succ more inductionHypothesis =>
      obtain ⟨⟨size, afterSize⟩, _, read⟩ := bind_eq_ok.1 read
      obtain ⟨⟨rest, afterRest⟩, isRest, read⟩ := bind_eq_ok.1 read
      cases read
      rw [List.length_cons, inductionHypothesis isRest]

/-- What the first rounds have set: sizes in order, ids at their places. -/
structure Attached
    (sizes places : List Nat)
    (i : Nat)
    (toc : List TocEntry) :
    Prop where
  entries :
    toc.length = sizes.length
  sized :
    ∀ place,
      place < i →
      toc[place]?.map TocEntry.size = sizes[place]?
  identified :
    ∀ place,
      place < i →
      ∃ target : Nat,
        places[place]? = some target ∧
          toc[target]?.map TocEntry.id = some place

/-- One round sets the size of its entry and its id at its place. -/
theorem Attached.round
    {sizes places : List Nat}
    {permutation : Option (List Nat)}
    {i : Nat}
    {toc after : List TocEntry}
    (attached : Attached sizes places i toc)
    (isPlace : placeOf permutation i = index places i)
    (distinct : places.Nodup)
    (attach : attachEntry permutation sizes toc i = .ok after) :
    Attached sizes places (i + 1) after := by
  obtain ⟨size, isSize, attach⟩ := bind_eq_ok.1 attach
  obtain ⟨entry, isEntry, attach⟩ := bind_eq_ok.1 attach
  obtain ⟨place, isTarget, attach⟩ := bind_eq_ok.1 attach
  have sizeHere := index_eq_ok.1 isSize
  have entryHere := index_eq_ok.1 isEntry
  have targetHere : places[i]? = some place :=
    index_eq_ok.1 (isPlace.symm.trans isTarget)
  have inToc : i < toc.length :=
    (List.getElem?_eq_some_iff.1 entryHere).1
  split at attach
  · cases attach
  next inside =>
    obtain ⟨target, isFound, attach⟩ := bind_eq_ok.1 attach
    have found := index_eq_ok.1 isFound
    cases attach
    have placeInToc : place < (toc.set i { entry with size }).length := by
      omega
    -- Setting an id changes no size, and setting a size changes no id.
    have sizeOf :
        ∀ other : Nat,
          ((toc.set i { entry with size }).set place
              { target with id := i })[other]?.map TocEntry.size =
            (toc.set i { entry with size })[other]?.map TocEntry.size := by
      intro other
      by_cases isPlace : other = place
      · subst isPlace
        rw [List.getElem?_set_self placeInToc, found]
        rfl
      · rw [List.getElem?_set_ne (Ne.symm isPlace)]
    have idOf :
        ∀ other : Nat,
          (toc.set i { entry with size })[other]?.map TocEntry.id =
            toc[other]?.map TocEntry.id := by
      intro other
      by_cases isHere : other = i
      · subst isHere
        rw [List.getElem?_set_self inToc, entryHere]
        rfl
      · rw [List.getElem?_set_ne (Ne.symm isHere)]
    refine ⟨by simpa using attached.entries, ?_, ?_⟩
    · intro other early
      rw [sizeOf]
      by_cases isHere : other = i
      · subst isHere
        rw [List.getElem?_set_self inToc, sizeHere]
        rfl
      · rw [List.getElem?_set_ne (Ne.symm isHere)]
        exact attached.sized other (by omega)
    · intro other early
      by_cases isHere : other = i
      · subst isHere
        exact ⟨place, targetHere, by rw [List.getElem?_set_self placeInToc]; rfl⟩
      · obtain ⟨otherTarget, isOther, hasId⟩ :=
          attached.identified other (by omega)
        have otherPlace : place ≠ otherTarget := by
          rintro rfl
          obtain ⟨otherIn, atOther⟩ := List.getElem?_eq_some_iff.1 isOther
          obtain ⟨hereIn, atHere⟩ := List.getElem?_eq_some_iff.1 targetHere
          exact isHere
            ((distinct.getElem_inj_iff).1 (atOther.trans atHere.symm))
        refine ⟨otherTarget, isOther, ?_⟩
        rw [List.getElem?_set_ne otherPlace, idOf, hasId]

/-- When all are set, the sizes are in order and every id stands once. -/
theorem Attached.complete
    {sizes places : List Nat}
    {toc : List TocEntry}
    (attached : Attached sizes places sizes.length toc) :
    toc.map TocEntry.size = sizes ∧
      (toc.map TocEntry.id).Perm (List.range sizes.length) := by
  refine ⟨?_, ?_⟩
  · apply List.ext_getElem?
    intro place
    rw [List.getElem?_map]
    by_cases inside : place < sizes.length
    · exact attached.sized place inside
    · have sameLength := attached.entries
      rw [List.getElem?_eq_none (show sizes.length ≤ place by omega),
        List.getElem?_eq_none (show toc.length ≤ place by omega)]
      rfl
  · have allThere : List.range sizes.length ⊆ toc.map TocEntry.id := by
      intro id inRange
      obtain ⟨target, _, hasId⟩ :=
        attached.identified id (List.mem_range.1 inRange)
      rw [← List.getElem?_map] at hasId
      exact List.mem_of_getElem? hasId
    have sub := List.subperm_of_subset List.nodup_range allThere
    refine (sub.perm_of_length_le ?_).symm
    rw [List.length_map, attached.entries, List.length_range]

/-- A table of contents has its sizes in file order and every section once. -/
theorem readToc_sections
    {toc : List TocEntry}
    (read : readToc tocEntries br = .ok (toc, after)) :
    ∃ permutation sizes start last,
      readOrder tocEntries br = .ok (permutation, start) ∧
        readSizes tocEntries start = .ok (sizes, last) ∧
        toc.map TocEntry.size = sizes ∧
        (toc.map TocEntry.id).Perm (List.range tocEntries) := by
  unfold readToc at read
  split at read
  · cases read
  split at read
  · cases read
  obtain ⟨⟨permutation, start⟩, isOrder, read⟩ := bind_eq_ok.1 read
  obtain ⟨⟨sizes, last⟩, areSizes, read⟩ := bind_eq_ok.1 read
  obtain ⟨aligned, _, read⟩ := bind_eq_ok.1 read
  obtain ⟨attachedToc, ran, read⟩ := bind_eq_ok.1 read
  have isToc : attachedToc = toc := by
    cases read
    rfl
  subst isToc
  have sameLength := length_readSizes areSizes
  obtain ⟨places, distinct, isPlace⟩ :
      ∃ places : List Nat,
        places.Nodup ∧
          ∀ i, i < tocEntries →
            placeOf permutation i = index places i := by
    cases permutation with
    | none =>
        refine ⟨List.range tocEntries, List.nodup_range, ?_⟩
        intro i inRange
        exact (index_eq_ok.2 (List.getElem?_range inRange)).symm
    | some permutation =>
        have perm := readOrder_perm isOrder
        exact ⟨permutation, perm.nodup_iff.2 List.nodup_range, fun _ _ => rfl⟩
  have attached : Attached sizes places tocEntries attachedToc := by
    refine foldlM_range_of_ok (Attached sizes places) ran ?_ ?_
    · refine ⟨by simp [sameLength], ?_, ?_⟩
      · intro place early
        cases early
      · intro place early
        cases early
    · intro i before next inRange attach attached
      exact attached.round (isPlace i inRange) distinct attach
  rw [← sameLength] at attached
  obtain ⟨sized, identified⟩ := attached.complete
  rw [sameLength] at identified
  exact ⟨permutation, sizes, start, last, isOrder, areSizes, sized, identified⟩

/--
A nonempty Lehmer code gives the permutation of the unused values of its ranks;
an accepted permutation uses every value once and keeps the skipped entries; a
table of contents has every section once and its sizes in file order.
-/
theorem permutations_decode :
    (∀ (n : Nat) (code temp : List Nat),
      0 < n →
      n ≤ 65536 →
      (∀ i, i < n → ∃ digit, code[i]? = some digit ∧ digit < n - i) →
      2 ^ ceilLog2Nonzero n ≤ temp.length →
      ∃ permutation,
        decodeLehmerCode code temp n = .ok permutation ∧
          Selects n code permutation ∧
          permutation.Perm (List.range n)) ∧
      (∀ (skip size : Nat) (output : Option Nat) (br after : BitReader)
          (reader readerAfter : ANSSymbolReader)
          (contextMap permutation : List Nat),
        readPermutation skip size output br reader contextMap =
            .ok (some permutation, readerAfter, after) →
          permutation.Perm (List.range size) ∧
            permutation.take skip = List.range skip) ∧
      (∀ (tocEntries : Nat) (br after : BitReader) (toc : List TocEntry),
        readToc tocEntries br = .ok (toc, after) →
        ∃ permutation sizes start last,
          readOrder tocEntries br = .ok (permutation, start) ∧
            readSizes tocEntries start = .ok (sizes, last) ∧
            toc.map TocEntry.size = sizes ∧
            (toc.map TocEntry.id).Perm (List.range tocEntries)) := by
  refine ⟨?_, ?_, ?_⟩
  · intro n code temp positive small digits scratch
    refine decodeLehmerCode_ok positive small ?_ scratch
    intro i inRange
    obtain ⟨digit, isDigit, isSmall⟩ := digits i inRange
    exact ⟨digit, isDigit, by omega⟩
  · intro skip size output br after reader readerAfter contextMap permutation
      read
    exact readPermutation_perm read
  · intro tocEntries br after toc read
    exact readToc_sections read

/-- A code of four digits, and a table of two sections. -/
theorem permutations_decode_small :
    (∃ permutation,
      decodeLehmerCode [2, 0, 1, 0] [0, 0, 0, 0] 4 = .ok permutation ∧
        Selects 4 [2, 0, 1, 0] permutation ∧
        permutation.Perm (List.range 4)) ∧
      ∃ toc after,
        readToc 2 (BitReader.init (List.replicate 40 0)) = .ok (toc, after) ∧
          (toc.map TocEntry.id).Perm (List.range 2) := by
  refine ⟨permutations_decode.1 4 _ _ (by decide) (by decide) ?_ (by decide), ?_⟩
  · intro i inRange
    interval_cases i
    · exact ⟨2, rfl, by decide⟩
    · exact ⟨0, rfl, by decide⟩
    · exact ⟨1, rfl, by decide⟩
    · exact ⟨0, rfl, by decide⟩
  · have evaluated :
        (readToc 2 (BitReader.init (List.replicate 40 0))).toOption.isSome =
          true := by
      decide +kernel
    cases read : readToc 2 (BitReader.init (List.replicate 40 0)) with
    | error fault =>
        rw [read] at evaluated
        cases evaluated
    | ok result =>
        obtain ⟨toc, after⟩ := result
        obtain ⟨_, _, _, _, _, _, _, perm⟩ :=
          permutations_decode.2.2 2 _ after toc read
        exact ⟨toc, after, rfl, perm⟩

/-- The guard of an empty code: it is refused. -/
theorem decodeLehmerCode_empty :
    ¬ ∀ (n : Nat) (code temp : List Nat),
        n ≤ 65536 →
        (∀ i, i < n → ∃ digit, code[i]? = some digit ∧ digit < n - i) →
        2 ^ ceilLog2Nonzero n ≤ temp.length →
        ∃ permutation,
          decodeLehmerCode code temp n = .ok permutation ∧
            Selects n code permutation ∧
            permutation.Perm (List.range n) := by
  intro always
  obtain ⟨permutation, decoded, _⟩ :=
    always 0 [] [0] (by decide) (by intro i inRange; cases inRange) (by decide)
  cases decoded

end Toc

end Jxlz
