import Jxlz.Codec.JpegTables

namespace Jxlz.JpegWriter

open JpegReconstruction (Data Huffman)
open CanonicalCode (rank IsCode)

/-!
# Segments of tables

A segment says what the tables are exactly when none of its codes has words of length
zero: each of them adds a byte that no count accounts for.
-/

/-! ## Reading a segment -/

variable {definitions : List Definition}

theorem readTables_bytes
    (wellFormed : ∀ definition ∈ definitions, definition.WellFormed)
    {left : Nat}
    (enough : definitions.length ≤ left) :
    readTables left (definitions.flatMap Definition.bytes) = some definitions := by
  induction definitions generalizing left with
  | nil =>
      cases left <;> rfl
  | cons definition definitions inductionHypothesis =>
      obtain ⟨isFirst, areOthers⟩ := List.forall_mem_cons.1 wellFormed
      cases left with
      | zero =>
          cases enough
      | succ left =>
          have later := inductionHypothesis areOthers (Nat.le_of_succ_le_succ enough)
          obtain ⟨lengths, symbols⟩ := isFirst
          rw [List.flatMap_cons]
          change
            readTables (left + 1)
                (definition.slot ::
                  ((definition.counts ++ definition.symbols) ++
                    definitions.flatMap Definition.bytes)) =
              _
          unfold readTables
          dsimp only
          rw [List.append_assoc, ← lengths, List.take_left, List.drop_left, ← symbols,
            List.take_left, List.drop_left, if_pos ⟨rfl, rfl⟩, later]
          rfl

theorem length_le_bytes
    (definitions : List Definition) :
    definitions.length ≤ (definitions.flatMap Definition.bytes).length := by
  rw [List.length_flatMap,
    ← @List.length_map _ _ definitions fun definition => definition.bytes.length]
  refine List.length_le_sum_of_one_le _ fun length member => ?_
  obtain ⟨definition, -, rfl⟩ := List.mem_map.1 member
  exact Nat.le_add_left 1 _

theorem readTables_eq_some
    {left : Nat}
    {bytes : List UInt8}
    (read : readTables left bytes = some definitions) :
    bytes = definitions.flatMap Definition.bytes ∧
      ∀ definition ∈ definitions, definition.WellFormed := by
  induction left generalizing bytes definitions with
  | zero =>
      cases bytes with
      | nil =>
          cases read
          exact ⟨rfl, fun _ member => absurd member List.not_mem_nil⟩
      | cons slot bytes =>
          cases read
  | succ left inductionHypothesis =>
      cases bytes with
      | nil =>
          cases read
          exact ⟨rfl, fun _ member => absurd member List.not_mem_nil⟩
      | cons slot bytes =>
          unfold readTables at read
          dsimp only at read
          split at read
          next complete =>
            obtain ⟨later, isLater, isRead⟩ := Option.map_eq_some_iff.1 read
            obtain ⟨rest, areOthers⟩ := inductionHypothesis isLater
            subst isRead
            refine ⟨?_, List.forall_mem_cons.2 ⟨⟨complete.1, complete.2⟩, areOthers⟩⟩
            rw [List.flatMap_cons, ← rest]
            unfold Definition.bytes
            dsimp only
            rw [List.cons_append, List.cons_append, List.append_assoc, List.take_append_drop,
              List.take_append_drop]
          next =>
            cases read

/-! ## The codes of a segment -/

/-- The codes up to the first one that is the last of its segment. -/
def codesOf : List Huffman → List Huffman
  | [] => []
  | code :: codes => if code.is_last then [code] else code :: codesOf codes

/-- The tables that codes leave in their slots, one after another. -/
def stored : List Huffman → State → Checked (List (Nat × Table))
  | [], _ => return []
  | code :: codes, self => do
      let next ← huffman self code
      let later ← stored codes next
      if code.counts.sum = 0 then
        return later
      else
        let table ← index next.tables (tableSlot code.slot_id)
        return (tableSlot code.slot_id, table) :: later

/-- The state behind the head of a segment. -/
def opened
    (self : State) :
    State :=
  { self with out := self.out ++ [255, 0xc4, 0, 0] }

/--
The segment that was written says what the tables are: it has the length that it says,
and it reads as one table for each one that was stored, in its slot and with its code.
The tables that are kept are the ones that were stored.
-/
def Described
    (data : Data)
    (number : Nat)
    (before after : State) :
    Prop :=
  ∃ high low payload definitions tables,
    after.out = before.out ++ [255, 0xc4, high, low] ++ payload ∧
      high.toNat * 256 + low.toNat = payload.length + 2 ∧
      readTables payload.length payload = some definitions ∧
      stored (codesOf (data.huffman.drop number)) (opened before) = .ok tables ∧
      after.tables =
        tables.foldl (fun held kept => held.set kept.1 kept.2) before.tables ∧
      List.Forall₂
        (fun (definition : Definition) kept =>
          tableSlot definition.slot.toNat = kept.1 ∧ definition.Describes kept.2)
        definitions tables

/-- No code of a segment has words of length zero, unless it is left out. -/
def WithoutZeroLength
    (codes : List Huffman) :
    Prop :=
  ∀ code ∈ codes, code.counts.sum ≠ 0 → code.counts.getD 0 0 = 0

variable {data : Data}

theorem huffmans_eq_ok
    {left number number' : Nat}
    {self next : State}
    (isLeft : left = data.huffman.length - number)
    (ran : huffmans data left number self = .ok (number', next)) :
    (codesOf (data.huffman.drop number)).foldlM huffman self = .ok next := by
  induction left generalizing number self with
  | zero =>
      cases ran
  | succ left inductionHypothesis =>
      unfold huffmans at ran
      obtain ⟨entry, isEntry, ran⟩ := bind_eq_ok.1 ran
      obtain ⟨between, first, ran⟩ := bind_eq_ok.1 ran
      rw [index_eq_ok] at isEntry
      obtain ⟨inside, isThis⟩ := List.getElem?_eq_some_iff.1 isEntry
      rw [List.drop_eq_getElem_cons inside, isThis]
      unfold codesOf
      split at ran
      next isLast =>
        cases ran
        rw [if_pos isLast, List.foldlM_cons, first]
        rfl
      next more =>
        rw [if_neg more, List.foldlM_cons, first, ok_bind]
        exact inductionHypothesis (by omega) ran

theorem codesOf_subset
    (codes : List Huffman) :
    ∀ code ∈ codesOf codes, code ∈ codes := by
  induction codes with
  | nil =>
      exact fun code member => member
  | cons first codes inductionHypothesis =>
      unfold codesOf
      split
      · intro code member
        rw [List.mem_singleton.1 member]
        exact List.mem_cons_self
      · exact List.forall_mem_cons.2
          ⟨List.mem_cons_self, fun code member =>
            List.mem_cons_of_mem first (inductionHypothesis code member)⟩

/--
What the codes of a segment leave behind.  Each part is a table and the bytes behind it
that no count accounts for.
-/
structure Parts
    (codes : List Huffman)
    (before after : State)
    (parts : List (Definition × List UInt8))
    (tables : List (Nat × Table)) :
    Prop where
  isStored : stored codes before = .ok tables
  out :
    after.out = before.out ++ parts.flatMap fun part => part.1.bytes ++ part.2
  kept :
    after.tables = tables.foldl (fun held kept => held.set kept.1 kept.2) before.tables
  described :
    List.Forall₂
      (fun (part : Definition × List UInt8) (kept : Nat × Table) =>
        part.1.WellFormed ∧
          tableSlot part.1.slot.toNat = kept.1 ∧ part.1.Describes kept.2)
      parts tables
  whole :
    (∀ part ∈ parts, part.2 = []) ↔ WithoutZeroLength codes

/-- The run over the codes of a segment. -/
theorem exists_parts
    {codes : List Huffman}
    {self next : State}
    (sound : ∀ code ∈ codes, code.Sound)
    (ran : codes.foldlM huffman self = .ok next) :
    ∃ parts tables, Parts codes self next parts tables := by
  induction codes generalizing self with
  | nil =>
      cases ran
      refine ⟨[], [], ⟨rfl, (List.append_nil _).symm, rfl, .nil, ?_⟩⟩
      unfold WithoutZeroLength
      simp
  | cons code codes inductionHypothesis =>
      obtain ⟨isSound, areSound⟩ := List.forall_mem_cons.1 sound
      rw [List.foldlM_cons] at ran
      obtain ⟨between, first, ran⟩ := bind_eq_ok.1 ran
      obtain ⟨parts, tables, later⟩ := inductionHypothesis areSound ran
      by_cases none : code.counts.sum = 0
      · obtain rfl := huffman_empty none first
        refine ⟨parts, tables, {
          isStored := ?_
          out := later.out
          kept := later.kept
          described := later.described
          whole := ?_ }⟩
        · unfold stored
          rw [first, ok_bind, later.isStored, ok_bind, if_pos none]
          rfl
        · rw [later.whole]
          unfold WithoutZeroLength
          rw [List.forall_mem_cons]
          exact ⟨fun others => ⟨fun some => absurd none some, others⟩, fun all => all.2⟩
      · obtain ⟨definition, extra, table, left⟩ := huffman_left isSound none first
        have slotByte := left.slot
        refine ⟨(definition, extra) :: parts, (tableSlot code.slot_id, table) :: tables, {
          isStored := ?_
          out := ?_
          kept := ?_
          described := .cons ⟨left.wellFormed, by rw [slotByte], left.describes⟩
            later.described
          whole := ?_ }⟩
        · have isTable : between.tables[tableSlot code.slot_id]? = some table := by
            rw [left.tables]
            exact List.getElem?_set_self left.inside
          unfold stored
          rw [first, ok_bind, later.isStored, ok_bind, if_neg none,
            index_eq_ok.2 isTable]
          rfl
        · rw [later.out, left.out, List.flatMap_cons, List.append_assoc]
        · rw [later.kept, left.tables]
          rfl
        · have surplus := left.surplus
          rw [List.forall_mem_cons, later.whole]
          unfold WithoutZeroLength
          rw [List.forall_mem_cons, ← surplus, List.length_eq_zero_iff]
          exact ⟨fun all => ⟨fun _ => all.1, all.2⟩, fun all => ⟨all.1 none, all.2⟩⟩

/-! ## Tables and their symbols -/

theorem mem_symbols_iff
    {definition : Definition}
    {table : Table}
    (wellFormed : definition.WellFormed)
    (describes : definition.Describes table)
    (symbol : UInt8) :
    symbol ∈ definition.symbols ↔ table.depths[symbol.toNat]? ≠ some 0 := by
  constructor
  · intro member
    obtain ⟨position, isSymbol⟩ := List.mem_iff_getElem?.1 member
    have inside := (List.getElem?_eq_some_iff.1 isSymbol).1
    rw [wellFormed.symbols, ← Definition.rank_all wellFormed.lengths] at inside
    obtain ⟨len, i, isCode, isRank⟩ := CanonicalCode.exists_rank inside
    obtain ⟨same, isSame, isDepth, -⟩ := describes.coded len i isCode
    rw [isRank, isSymbol] at isSame
    cases isSame
    rw [isDepth]
    intro none
    cases none
    exact absurd isCode.positive (Nat.not_succ_le_zero 0)
  · intro some
    by_contra absent
    exact some (describes.others symbol absent)

/-- Definitions of one table have equally many symbols. -/
theorem length_symbols_eq
    {first second : Definition}
    {table : Table}
    (isFirst : first.WellFormed ∧ first.Describes table)
    (isSecond : second.WellFormed ∧ second.Describes table) :
    first.symbols.length = second.symbols.length := by
  apply List.Perm.length_eq
  rw [List.perm_ext_iff_of_nodup isFirst.2.distinct isSecond.2.distinct]
  intro symbol
  rw [mem_symbols_iff isFirst.1 isFirst.2, mem_symbols_iff isSecond.1 isSecond.2]

/-- Two readings of the tables of a segment differ by what is behind the tables. -/
theorem length_parts
    {parts : List (Definition × List UInt8)}
    {tables : List (Nat × Table)}
    (described :
      List.Forall₂
        (fun (part : Definition × List UInt8) (kept : Nat × Table) =>
          part.1.WellFormed ∧
            tableSlot part.1.slot.toNat = kept.1 ∧ part.1.Describes kept.2)
        parts tables)
    (matched :
      List.Forall₂
        (fun (definition : Definition) kept =>
          tableSlot definition.slot.toNat = kept.1 ∧ definition.Describes kept.2)
        definitions tables)
    (wellFormed : ∀ definition ∈ definitions, definition.WellFormed) :
    (parts.flatMap fun part => part.1.bytes ++ part.2).length =
      (definitions.flatMap Definition.bytes).length +
        (parts.map fun part => part.2.length).sum := by
  induction described generalizing definitions with
  | nil =>
      cases matched
      rfl
  | @cons part kept parts tables isFirst _ inductionHypothesis =>
      cases matched with
      | @cons definition _ definitions _ isThis areOthers =>
          obtain ⟨formed, areFormed⟩ := List.forall_mem_cons.1 wellFormed
          have others := inductionHypothesis areOthers areFormed
          have symbols :=
            length_symbols_eq ⟨isFirst.1, isFirst.2.2⟩ ⟨formed, isThis.2⟩
          rw [List.flatMap_cons, List.flatMap_cons, List.map_cons, List.sum_cons,
            List.length_append, List.length_append, List.length_append, others,
            Definition.length_bytes isFirst.1, Definition.length_bytes formed, symbols]
          omega

/-- The length of a segment covers the length itself and what is behind it. -/
theorem endSegment_eq_ok
    {out payload result : List UInt8}
    (ran :
      endSegment (out ++ [255, 0xc4, 0, 0] ++ payload) (out.length + 2) = .ok result) :
    ∃ high low,
      result = out ++ [255, 0xc4, high, low] ++ payload ∧
        high.toNat * 256 + low.toNat = payload.length + 2 := by
  have length :
      (out ++ [255, 0xc4, 0, 0] ++ payload).length = out.length + 4 + payload.length := by
    rw [List.length_append, List.length_append]
    rfl
  unfold endSegment at ran
  obtain ⟨size, isSize, ran⟩ := bind_eq_ok.1 ran
  have size' : size = payload.length + 2 := by
    rw [(subU_eq_ok isSize).1, length]
    omega
  split at ran
  next =>
    cases ran
  next fits =>
    obtain ⟨high, isHigh, ran⟩ := bind_eq_ok.1 ran
    obtain ⟨rfl, small⟩ := castU_eq_ok isHigh
    rw [store_ok (by rw [length]; omega), ok_bind,
      store_ok (by rw [List.length_set, length]; omega)] at ran
    cases ran
    refine ⟨UInt8.ofNat (size >>> 8), UInt8.ofNat size, ?_, ?_⟩
    · rw [List.append_assoc, List.set_append_right _ _ (by omega),
        List.set_append_right _ _ (by omega), List.append_assoc, Nat.add_assoc,
        Nat.add_sub_cancel_left, Nat.add_sub_cancel_left]
      rfl
    · rw [UInt8.toNat_ofNat', UInt8.toNat_ofNat', Nat.mod_eq_of_lt small,
        Nat.shiftRight_eq_div_pow, ← size']
      exact Nat.div_add_mod' size 256

theorem writeDht_eq_ok
    {number number' : Nat}
    {before after : State}
    (written : writeDht data number before = .ok (number', after)) :
    ∃ last out,
      (codesOf (data.huffman.drop number)).foldlM huffman (opened before) = .ok last ∧
        endSegment last.out (before.out.length + 2) = .ok out ∧
        after = { last with out } := by
  unfold writeDht at written
  obtain ⟨⟨head, start⟩, isHead, written⟩ := bind_eq_ok.1 written
  obtain ⟨⟨end', last⟩, ran, written⟩ := bind_eq_ok.1 written
  obtain ⟨out, ended, written⟩ := bind_eq_ok.1 written
  cases written
  cases isHead
  have codes := huffmans_eq_ok rfl ran
  rw [List.append_assoc] at codes
  rw [List.length_append] at ended
  exact ⟨last, out, codes, ended, rfl⟩

/-- Exactly the segments without words of length zero say what the tables are. -/
theorem described_iff
    {number number' : Nat}
    {before after : State}
    (sound : ∀ code ∈ data.huffman, code.Sound)
    (written : writeDht data number before = .ok (number', after)) :
    Described data number before after ↔
      WithoutZeroLength (codesOf (data.huffman.drop number)) := by
  obtain ⟨last, out, ran, ended, rfl⟩ := writeDht_eq_ok written
  have areSound : ∀ code ∈ codesOf (data.huffman.drop number), code.Sound :=
    fun code member =>
      sound code (List.mem_of_mem_drop (codesOf_subset _ code member))
  obtain ⟨parts, tables, all⟩ := exists_parts areSound ran
  rw [all.out] at ended
  obtain ⟨high, low, isOut, isLength⟩ := endSegment_eq_ok ended
  rw [← all.whole]
  constructor
  · rintro ⟨high', low', payload, definitions, tables', isOut', -, isRead, isStored, -,
      matched⟩
    rw [all.isStored] at isStored
    cases isStored
    have same : parts.flatMap (fun part => part.1.bytes ++ part.2) = payload := by
      rw [isOut, List.append_assoc, List.append_assoc] at isOut'
      have behind := List.append_cancel_left isOut'
      simp only [List.cons_append, List.nil_append, List.cons.injEq] at behind
      exact behind.2.2.2.2
    obtain ⟨isPayload, wellFormed⟩ := readTables_eq_some isRead
    have lengths := length_parts all.described matched wellFormed
    rw [same, isPayload] at lengths
    have none : (parts.map fun part => part.2.length).sum = 0 := by
      omega
    intro part member
    rw [List.sum_eq_zero_iff] at none
    exact List.length_eq_zero_iff.1 (none _ (List.mem_map.2 ⟨part, member, rfl⟩))
  · intro exact'
    have payload :
        (parts.flatMap fun part => part.1.bytes ++ part.2) =
          (parts.map Prod.fst).flatMap Definition.bytes := by
      rw [List.flatMap_map]
      refine List.flatMap_congr fun part member => ?_
      rw [exact' part member, List.append_nil]
    obtain ⟨formed, matched⟩ := (List.forall₂_and_left _ _).1 all.described
    have wellFormed : ∀ definition ∈ parts.map Prod.fst, definition.WellFormed :=
      List.forall_mem_map.2 formed
    rw [payload] at isOut isLength
    refine ⟨high, low, _, parts.map Prod.fst, tables, isOut, isLength, ?_, all.isStored,
      all.kept, ?_⟩
    · exact readTables_bytes wellFormed (length_le_bytes _)
    · rw [List.forall₂_map_left_iff]
      exact matched

/-! ## Two files -/

/-- The decompressor, on the one stream that stands for no data. -/
def decompressNothing
    (stream : List UInt8)
    (_ : Nat) :
    Checked (List UInt8) :=
  if stream = [6] then return [] else fail .BrotliDecoderFailure

/-- A grey image with one DHT marker and no scans. -/
def smallData
    (huffman : List Huffman) :
    Data where
  markers := [0xc4, 0xd9]
  components := [{ id := 1, quant_index := 0 }]
  quant := [{ precision := 0, index := 0, is_last := true }]
  huffman := huffman

def smallCode
    (slot_id : Nat)
    (is_last : Bool)
    (counts values : List Nat) :
    Huffman where
  slot_id := slot_id
  is_last := is_last
  counts := counts ++ List.replicate (17 - counts.length) 0
  values := values ++ List.replicate (257 - values.length) 0

/-- The output behind the start of an image. -/
def startOfImage : State where
  out := [255, 216]

/--
A table segment says what the tables are exactly when no code of it has words of length
zero.
-/
theorem written_tables_iff
    {decompressBounded : List UInt8 → Nat → Checked (List UInt8)}
    {bytes : List UInt8}
    {data : Data}
    {number number' : Nat}
    {before after : State}
    (parsed : JpegReconstruction.parse decompressBounded bytes = .ok data)
    (written : writeDht data number before = .ok (number', after)) :
    Described data number before after ↔
      WithoutZeroLength (codesOf (data.huffman.drop number)) :=
  described_iff (JpegReconstruction.parse_sound parsed) written

/-- Two codes without words of length zero. -/
def plainData : Data :=
  smallData [smallCode 0 false [0, 2] [0, 256], smallCode 16 true [0, 1, 2] [0, 1, 256]]

def plainBytes : List UInt8 :=
  [136, 12, 132, 0, 8, 0, 0, 0, 0, 254, 79, 18, 0, 0, 0, 0, 244, 63, 0, 6]

def plainTables : State where
  out := [255, 216, 255, 196, 0, 39] ++
    ([0, 1] ++ List.replicate 15 0 ++ [0]) ++ ([16, 1, 1] ++ List.replicate 14 0 ++ [0, 1])
  tables := [
    { depths := 1 :: List.replicate 255 0 }, {}, {}, {},
    { depths := [1, 2] ++ List.replicate 254 0, codes := [0, 2] ++ List.replicate 254 0 },
    {}, {}, {}]

theorem written_tables_iff_plain :
    Described plainData 0 startOfImage plainTables := by
  have parsed : JpegReconstruction.parse decompressNothing plainBytes = .ok plainData := by
    decide +kernel
  have written : writeDht plainData 0 startOfImage = .ok (2, plainTables) := by
    decide +kernel
  refine (written_tables_iff parsed written).2 ?_
  unfold WithoutZeroLength
  decide +kernel

/-- One of two codes has a word of length zero. -/
def surplusData : Data :=
  smallData [smallCode 0 false [1, 2] [0, 1, 256], smallCode 16 true [0, 2] [0, 256]]

def surplusBytes : List UInt8 :=
  [136, 12, 132, 0, 9, 0, 0, 0, 0, 232, 255, 68, 0, 0, 0, 0, 240, 63, 0, 6]

def surplusTables : State where
  out := [255, 216, 255, 196, 0, 39] ++
    ([0, 1] ++ List.replicate 15 0 ++ [0, 1]) ++ ([16, 1] ++ List.replicate 15 0 ++ [0])
  tables := [
    { depths := 1 :: List.replicate 255 0 }, {}, {}, {},
    { depths := 1 :: List.replicate 255 0 }, {}, {}, {}]

/-- A file is accepted, and its segment does not say what the tables are. -/
theorem surplus_not_described :
    JpegReconstruction.parse decompressNothing surplusBytes = .ok surplusData ∧
      writeDht surplusData 0 startOfImage = .ok (2, surplusTables) ∧
      ¬Described surplusData 0 startOfImage surplusTables := by
  have parsed :
      JpegReconstruction.parse decompressNothing surplusBytes = .ok surplusData := by
    decide +kernel
  have written : writeDht surplusData 0 startOfImage = .ok (2, surplusTables) := by
    decide +kernel
  refine ⟨parsed, written, ?_⟩
  rw [described_iff (JpegReconstruction.parse_sound parsed) written]
  unfold WithoutZeroLength
  decide +kernel

end Jxlz.JpegWriter
