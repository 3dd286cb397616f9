import Jxlz.Icc.IccCommands

namespace Jxlz.Icc

open BigEndian FuelLoop

/-!
# The tag list of a profile

One command stands for an entry of the tag list, or for the three entries of a
group.  A decoder that reads the commands keeps the place and the size of the
last tag as the encoder does, so it expects the same next tag.
-/

theorem checkIs32Bit_ok
    {v : Nat}
    (fits : v < 2 ^ 32) :
    checkIs32Bit v = .ok () :=
  if_pos fits

variable {icc : List UInt8}

/-- An entry that is there is twelve bytes of the profile. -/
theorem take_append_entry
    {pos : Nat}
    (inside : pos + 12 ≤ icc.length) :
    icc.take pos ++
        entry (decodeKeyword icc pos) (decodeUint32 icc (pos + 4))
          (decodeUint32 icc (pos + 8)) =
      icc.take (pos + 12) := by
  rw [entry, appendKeyword, appendUint32, appendUint32, List.nil_append,
    decodeKeyword_bytes (by omega), decodeUint32_bytes (by omega),
    decodeUint32_bytes (by omega), ← List.append_assoc, ← List.append_assoc,
    take_append_piece, take_append_piece, take_append_piece]

/-- Equal pieces of eight bytes hold equal numbers. -/
theorem decodeUint32_of_piece
    {first second offset : Nat}
    (same : (icc.drop first).take 8 = (icc.drop second).take 8)
    (inPiece : offset = 0 ∨ offset = 4)
    (firstInside : first + 8 ≤ icc.length)
    (secondInside : second + 8 ≤ icc.length) :
    decodeUint32 icc (first + offset) = decodeUint32 icc (second + offset) := by
  have ofPiece :
      ∀ pos,
        (icc.drop (pos + offset)).take 4 =
          (((icc.drop pos).take 8).drop offset).take 4 := by
    intro pos
    rw [List.drop_take, List.take_take, List.drop_drop]
    congr 1
    omega
  unfold decodeUint32
  rw [if_neg (by omega), if_neg (by omega), ofPiece, ofPiece, same]

/-- The code of a tag says that it is unknown, or names it. -/
theorem tagCode_cases
    (tag : Tag) :
    tagCode tag = kCommandTagUnknown ∨
      ∃ i,
        i < 17 ∧ kTagStrings[i]? = some tag ∧
          tagCode tag = UInt8.ofNat i + kCommandTagStringFirst := by
  unfold tagCode
  split
  next i isKnown =>
    obtain ⟨within, same, _⟩ := List.idxOf?_eq_some_iff.1 isKnown
    exact .inr ⟨i, within, by rw [List.getElem?_eq_getElem within, same], rfl⟩
  next unknown =>
    exact .inl rfl

/-- What a decoder makes of the code of a command. -/
structure NamesTag
    (code : UInt8)
    (tag : Tag) :
    Prop where
  small : code < 64
  notEnd : code ≠ 0
  read :
    ∀ enc commands_end cpos pos commands data,
      Streams enc commands_end cpos pos commands
          ((if code = kCommandTagUnknown then tag.bytes else []) ++ data) →
      ∃ next,
        commandTag enc code pos = .ok (tag, next) ∧
          Streams enc commands_end cpos next commands data

theorem namesTag_known
    {code : UInt8}
    {tag : Tag}
    (isCode :
      code = kCommandTagTRC ∧ tag = kRtrcTag ∨
        code = kCommandTagXYZ ∧ tag = kRxyzTag) :
    NamesTag code tag := by
  refine ⟨?_, ?_, ?_⟩
  · rcases isCode with ⟨rfl, _⟩ | ⟨rfl, _⟩ <;> decide
  · rcases isCode with ⟨rfl, _⟩ | ⟨rfl, _⟩ <;> decide
  · intro enc commands_end cpos pos commands data streams
    rcases isCode with ⟨rfl, rfl⟩ | ⟨rfl, rfl⟩
    · exact ⟨pos, rfl, streams⟩
    · exact ⟨pos, rfl, streams⟩

theorem namesTag_tagCode
    (tag : Tag) :
    NamesTag (tagCode tag) tag := by
  rcases tagCode_cases tag with isUnknown | ⟨i, few, isTag, isCode⟩
  · rw [isUnknown]
    refine ⟨by decide, by decide, ?_⟩
    intro enc commands_end cpos pos commands data streams
    rw [if_pos rfl] at streams
    have check := streams.check_ok
    obtain ⟨_, isBytes, streams⟩ := streams.bytes
    rw [Tag.length_bytes] at check isBytes streams
    refine ⟨pos + 4, ?_, streams⟩
    have isTag : decodeKeyword enc pos = tag := by
      unfold decodeKeyword
      rw [isBytes]
      rfl
    show (do
      checkOutOfBounds pos 4 enc.length
      return (decodeKeyword enc pos, pos + 4)) = _
    rw [check, ok_bind, isTag]
    rfl
  · have all :
        ∀ place : Fin 17,
          (UInt8.ofNat place + kCommandTagStringFirst < 64 ∧
            UInt8.ofNat place + kCommandTagStringFirst ≠ 0) ∧
            ∀ enc pos,
              commandTag enc (UInt8.ofNat place + kCommandTagStringFirst) pos =
                  (do
                    let tag ← index kTagStrings place
                    return (tag, pos)) ∧
                UInt8.ofNat place + kCommandTagStringFirst ≠
                  kCommandTagUnknown := by
      intro place
      fin_cases place <;>
        exact ⟨by decide, fun enc pos => ⟨rfl, by decide⟩⟩
    obtain ⟨⟨small, notEnd⟩, named⟩ := all ⟨i, few⟩
    rw [isCode]
    refine ⟨small, notEnd, ?_⟩
    intro enc commands_end cpos pos commands data streams
    obtain ⟨isNamed, known⟩ := named enc pos
    rw [if_neg known] at streams
    refine ⟨pos, ?_, streams⟩
    rw [isNamed, index_eq_ok.2 isTag]
    rfl

/-- A command is taken apart again. -/
theorem tagCommand_read
    {code : UInt8}
    (small : code < 64)
    (hasOffset hasSize : Bool) :
    tagCommand code hasOffset hasSize &&& 63 = code ∧
      (tagCommand code hasOffset hasSize &&& kFlagBitOffset ≠ 0 ↔
        hasOffset = true) ∧
      (tagCommand code hasOffset hasSize &&& kFlagBitSize ≠ 0 ↔
        hasSize = true) := by
  have all :
      ∀ place : Fin 64, ∀ hasOffset hasSize : Bool,
        tagCommand (UInt8.ofNat place) hasOffset hasSize &&& 63 =
            UInt8.ofNat place ∧
          (tagCommand (UInt8.ofNat place) hasOffset hasSize &&&
              kFlagBitOffset ≠ 0 ↔ hasOffset = true) ∧
          (tagCommand (UInt8.ofNat place) hasOffset hasSize &&&
            kFlagBitSize ≠ 0 ↔ hasSize = true) := by
    decide +kernel
  have read := all ⟨code.toNat, UInt8.lt_iff_toNat_lt.1 small⟩ hasOffset hasSize
  rwa [UInt8.ofNat_toNat] at read

/-- The code of an entry, and where the entries end that it stands for. -/
structure Grouped
    (icc : List UInt8)
    (code : UInt8)
    (tail_pos later : Nat) :
    Prop where
  names : NamesTag code (decodeKeyword icc tail_pos)
  entries :
    ∃ bytes,
      groupEntries code (decodeUint32 icc (tail_pos + 4))
          (decodeUint32 icc (tail_pos + 8)) =
        .ok bytes ∧
      icc.take (tail_pos + 12) ++ bytes = icc.take later
  inside : later ≤ icc.length
  forward : tail_pos + 12 ≤ later

variable {tail_pos : Nat}

theorem grouped_tagCode
    (inside : tail_pos + 12 ≤ icc.length) :
    Grouped icc (tagCode (decodeKeyword icc tail_pos)) tail_pos
      (tail_pos + 12) := by
  refine ⟨namesTag_tagCode _, ⟨[], ?_, List.append_nil _⟩, inside,
    Nat.le_refl _⟩
  have single :
      tagCode (decodeKeyword icc tail_pos) ≠ kCommandTagTRC ∧
        tagCode (decodeKeyword icc tail_pos) ≠ kCommandTagXYZ := by
    rcases tagCode_cases (decodeKeyword icc tail_pos) with
      isUnknown | ⟨i, few, _, isCode⟩
    · rw [isUnknown]
      decide
    · have all :
          ∀ place : Fin 17,
            UInt8.ofNat place + kCommandTagStringFirst ≠ kCommandTagTRC ∧
              UInt8.ofNat place + kCommandTagStringFirst ≠ kCommandTagXYZ := by
        decide
      rw [isCode]
      exact all ⟨i, few⟩
  unfold groupEntries
  rw [if_neg single.1, if_neg single.2]

theorem grouped_trc
    (isTrc :
      isTagTRC icc (decodeKeyword icc tail_pos) (tail_pos + 12) = true) :
    Grouped icc kCommandTagTRC tail_pos (tail_pos + 12 + 24) := by
  unfold isTagTRC at isTrc
  obtain ⟨isRed, room, isGreen, isBlue, green, blue⟩ := of_decide_eq_true isTrc
  have places :
      ∀ offset,
        offset = 0 ∨ offset = 4 →
        decodeUint32 icc (tail_pos + 4 + offset) =
            decodeUint32 icc (tail_pos + 16 + offset) ∧
          decodeUint32 icc (tail_pos + 4 + offset) =
            decodeUint32 icc (tail_pos + 28 + offset) := by
    intro offset inPiece
    have first : tail_pos + 12 - 8 = tail_pos + 4 := by
      omega
    rw [first] at green blue
    exact ⟨decodeUint32_of_piece green inPiece (by omega) (by omega),
      decodeUint32_of_piece blue inPiece (by omega) (by omega)⟩
  have starts := places 0 (.inl rfl)
  have counts := places 4 (.inr rfl)
  have greenEntry := @take_append_entry icc (tail_pos + 12) (by omega)
  have blueEntry := @take_append_entry icc (tail_pos + 12 + 12) (by omega)
  rw [isGreen] at greenEntry
  rw [isBlue] at blueEntry
  refine ⟨namesTag_known (.inl ⟨rfl, isRed⟩), ⟨_, rfl, ?_⟩, by omega, by omega⟩
  rw [show decodeUint32 icc (tail_pos + 4) = decodeUint32 icc (tail_pos + 16)
      from starts.1,
    show decodeUint32 icc (tail_pos + 8) = decodeUint32 icc (tail_pos + 20)
      from counts.1,
    ← List.append_assoc, greenEntry,
    show decodeUint32 icc (tail_pos + 16) = decodeUint32 icc (tail_pos + 28)
      from starts.1.symm.trans starts.2,
    show decodeUint32 icc (tail_pos + 20) = decodeUint32 icc (tail_pos + 32)
      from counts.1.symm.trans counts.2, blueEntry]

theorem grouped_xyz
    (isXyz :
      isTagXYZ icc (decodeKeyword icc tail_pos)
          (decodeUint32 icc (tail_pos + 4)) (decodeUint32 icc (tail_pos + 8))
          (tail_pos + 12) =
        .ok true) :
    Grouped icc kCommandTagXYZ tail_pos (tail_pos + 12 + 24) := by
  unfold isTagXYZ at isXyz
  split at isXyz
  next shape =>
    obtain ⟨isRed, room, isGreen, isBlue, red, green, blue⟩ := shape
    obtain ⟨greenStart, isGreenStart, isXyz⟩ := bind_eq_ok.1 isXyz
    obtain ⟨sumGreen, _⟩ := addU_eq_ok isGreenStart
    split at isXyz
    next greenPlace =>
      obtain ⟨blueStart, isBlueStart, isXyz⟩ := bind_eq_ok.1 isXyz
      obtain ⟨sumBlue, fits⟩ := addU_eq_ok isBlueStart
      have bluePlace := of_decide_eq_true (Except.ok.inj isXyz)
      have greenEntry := @take_append_entry icc (tail_pos + 12) (by omega)
      have blueEntry := @take_append_entry icc (tail_pos + 12 + 12) (by omega)
      rw [isGreen, greenPlace, green, sumGreen] at greenEntry
      rw [isBlue] at blueEntry
      refine ⟨namesTag_known (.inr ⟨rfl, isRed⟩),
        ⟨entry kGxyzTag (decodeUint32 icc (tail_pos + 4) + 20) 20 ++
            entry kBxyzTag (decodeUint32 icc (tail_pos + 4) + 40) 20,
          ?_, ?_⟩, by omega, by omega⟩
      · show (do
          checkIs32Bit
            (decodeUint32 icc (tail_pos + 4) +
              decodeUint32 icc (tail_pos + 8) * 2)
          return entry kGxyzTag (decodeUint32 icc (tail_pos + 4) +
              decodeUint32 icc (tail_pos + 8)) (decodeUint32 icc (tail_pos + 8)) ++
            entry kBxyzTag (decodeUint32 icc (tail_pos + 4) +
              decodeUint32 icc (tail_pos + 8) * 2)
              (decodeUint32 icc (tail_pos + 8))) = _
        rw [red, checkIs32Bit_ok fits]
        rfl
      · rw [← List.append_assoc, greenEntry]
        rw [show decodeUint32 icc (tail_pos + 12 + 12 + 4) =
            decodeUint32 icc (tail_pos + 4) + 40 from bluePlace.trans sumBlue,
          show decodeUint32 icc (tail_pos + 12 + 12 + 8) = 20 from blue]
          at blueEntry
        exact blueEntry
    next elsewhere =>
      cases isXyz
  next other =>
    cases isXyz

/-- The code that the encoder picks stands for entries that are there. -/
theorem grouped_of_predictTag
    {xyz : Bool}
    (inside : tail_pos + 12 ≤ icc.length)
    (isXyz :
      isTagXYZ icc (decodeKeyword icc tail_pos)
          (decodeUint32 icc (tail_pos + 4)) (decodeUint32 icc (tail_pos + 8))
          (tail_pos + 12) =
        .ok xyz) :
    Grouped icc
      (if xyz then kCommandTagXYZ
        else if isTagTRC icc (decodeKeyword icc tail_pos) (tail_pos + 12) then
          kCommandTagTRC
        else
          tagCode (decodeKeyword icc tail_pos))
      tail_pos
      (if isTagTRC icc (decodeKeyword icc tail_pos) (tail_pos + 12) || xyz then
        tail_pos + 12 + 24
      else
        tail_pos + 12) := by
  cases xyz with
  | true =>
      rw [Bool.or_true]
      exact grouped_xyz isXyz
  | false =>
      rw [Bool.or_false]
      cases isTrc :
          isTagTRC icc (decodeKeyword icc tail_pos) (tail_pos + 12) with
      | true =>
          exact grouped_trc isTrc
      | false =>
          exact grouped_tagCode inside

/-- A decoder stands where the encoder does, and expects the same next tag. -/
structure Keeps
    (icc : List UInt8)
    (tags : TagList)
    (state : TagState) :
    Prop where
  result : state.result = icc.take tags.tail_pos
  prevtagstart : state.prevtagstart = tags.prevtagstart
  prevtagsize : state.prevtagsize = tags.prevtagsize

/-- The place of a tag is read, announced or expected. -/
theorem commandTagStart_ok
    {enc commands data : List UInt8}
    {commands_end cpos pos tagstart : Nat}
    {command : UInt8}
    {state : TagState}
    (flag :
      command &&& kFlagBitOffset ≠ 0 ↔
        state.prevtagstart + state.prevtagsize ≠ tagstart)
    (small : tagstart < 2 ^ 32)
    (streams :
      Streams enc commands_end cpos pos
        ((if state.prevtagstart + state.prevtagsize ≠ tagstart then
          varInt tagstart else []) ++ commands) data) :
    ∃ next,
      commandTagStart enc command commands_end cpos state =
          .ok (tagstart, next) ∧
        Streams enc commands_end next pos commands data := by
  unfold commandTagStart
  by_cases same : state.prevtagstart + state.prevtagsize = tagstart
  · rw [if_neg (fun set => flag.1 set same), checkIs32Bit_ok (by omega),
      ok_bind, addU_ok (by omega), same]
    rw [if_neg (not_not.2 same)] at streams
    exact ⟨cpos, rfl, streams⟩
  · rw [if_pos (flag.2 same)]
    rw [if_pos same] at streams
    obtain ⟨read, streams⟩ := streams.varInt (by omega)
    exact ⟨_, read, streams⟩

/-- So is its size. -/
theorem commandTagSize_ok
    {enc commands data : List UInt8}
    {commands_end cpos pos tagsize : Nat}
    {command : UInt8}
    {tag : Tag}
    {state : TagState}
    (flag :
      command &&& kFlagBitSize ≠ 0 ↔
        (if isPredictedTagSize20 tag then 20 else state.prevtagsize) ≠ tagsize)
    (small : tagsize < 2 ^ 32)
    (streams :
      Streams enc commands_end cpos pos
        ((if (if isPredictedTagSize20 tag then 20 else state.prevtagsize) ≠
            tagsize then varInt tagsize else []) ++ commands) data) :
    ∃ next,
      commandTagSize enc command commands_end cpos tag state =
          .ok (tagsize, next) ∧
        Streams enc commands_end next pos commands data := by
  unfold commandTagSize
  by_cases same :
      (if isPredictedTagSize20 tag then 20 else state.prevtagsize) = tagsize
  · rw [if_neg (fun set => flag.1 set same), same]
    rw [if_neg (not_not.2 same)] at streams
    exact ⟨cpos, rfl, streams⟩
  · rw [if_pos (flag.2 same)]
    rw [if_pos same] at streams
    obtain ⟨read, streams⟩ := streams.varInt (by omega)
    exact ⟨_, read, streams⟩

/-- What an entry adds to the two streams, and what a decoder makes of it. -/
theorem unpredictTag_ok
    {tags next : TagList}
    (inside : tags.tail_pos + 12 ≤ icc.length)
    (emitted : predictTag icc tags = .ok next) :
    tags.tail_pos ≤ next.tail_pos ∧ next.tail_pos ≤ icc.length ∧
      ∃ command arguments bytes,
        next.commands = tags.commands ++ command :: arguments ∧
          next.data = tags.data ++ bytes ∧
          ∀ enc commands_end (state : TagState) commands data,
            Keeps icc tags state →
            Streams enc commands_end state.cpos state.pos
                (command :: (arguments ++ commands)) (bytes ++ data) →
            ∃ later,
              unpredictTagRound enc icc.length commands_end state =
                  .ok (.inl later) ∧
                Keeps icc next later ∧
                Streams enc commands_end later.cpos later.pos commands
                  data := by
  unfold predictTag at emitted
  dsimp only at emitted
  obtain ⟨xyz, isXyz, emitted⟩ := bind_eq_ok.1 emitted
  obtain ⟨i, _, emitted⟩ := bind_eq_ok.1 emitted
  have grouped := grouped_of_predictTag inside isXyz
  generalize isCode :
    (if xyz then kCommandTagXYZ
      else if isTagTRC icc (decodeKeyword icc tags.tail_pos)
          (tags.tail_pos + 12) then
        kCommandTagTRC
      else
        tagCode (decodeKeyword icc tags.tail_pos)) = code
    at grouped emitted
  generalize isLater :
    (if isTagTRC icc (decodeKeyword icc tags.tail_pos) (tags.tail_pos + 12) ||
        xyz then
      tags.tail_pos + 12 + 24
    else
      tags.tail_pos + 12) = tailPos
    at grouped emitted
  cases emitted
  obtain ⟨names, ⟨entries, areEntries, joined⟩, within, forward⟩ := grouped
  have startSmall := decodeUint32_lt icc (tags.tail_pos + 4)
  have sizeSmall := decodeUint32_lt icc (tags.tail_pos + 8)
  refine ⟨Nat.le_trans (Nat.le_add_right _ 12) forward, within,
    tagCommand code
      (decide (tags.prevtagstart + tags.prevtagsize ≠
        decodeUint32 icc (tags.tail_pos + 4)))
      (decide ((if isPredictedTagSize20 (decodeKeyword icc tags.tail_pos) then 20
          else tags.prevtagsize) ≠
        decodeUint32 icc (tags.tail_pos + 8))),
    (if tags.prevtagstart + tags.prevtagsize ≠
        decodeUint32 icc (tags.tail_pos + 4) then
      varInt (decodeUint32 icc (tags.tail_pos + 4)) else []) ++
      (if (if isPredictedTagSize20 (decodeKeyword icc tags.tail_pos) then 20
          else tags.prevtagsize) ≠
          decodeUint32 icc (tags.tail_pos + 8) then
        varInt (decodeUint32 icc (tags.tail_pos + 8)) else []),
    if code = kCommandTagUnknown then (decodeKeyword icc tags.tail_pos).bytes
      else [],
    ?_, rfl, ?_⟩
  · simp only [List.append_assoc, List.cons_append, List.nil_append,
      decide_eq_true_eq]
  intro enc commands_end state commands data keeps streams
  obtain ⟨isResult, sameStart, sameSize⟩ := keeps
  rw [← sameStart, ← sameSize] at streams
  obtain ⟨isCommand, before, streams⟩ := streams.command
  obtain ⟨readCode, readOffset, readSize⟩ :=
    tagCommand_read names.small
      (decide (state.prevtagstart + state.prevtagsize ≠
        decodeUint32 icc (tags.tail_pos + 4)))
      (decide ((if isPredictedTagSize20 (decodeKeyword icc tags.tail_pos) then 20
          else state.prevtagsize) ≠
        decodeUint32 icc (tags.tail_pos + 8)))
  rw [decide_eq_true_eq] at readOffset readSize
  generalize tagCommand code
    (decide (state.prevtagstart + state.prevtagsize ≠
      decodeUint32 icc (tags.tail_pos + 4)))
    (decide ((if isPredictedTagSize20 (decodeKeyword icc tags.tail_pos) then 20
        else state.prevtagsize) ≠
      decodeUint32 icc (tags.tail_pos + 8))) = command
    at isCommand readCode readOffset readSize
  obtain ⟨pos, named, streams⟩ := names.read _ _ _ _ _ _ streams
  rw [List.append_assoc] at streams
  obtain ⟨cpos, started, streams⟩ :=
    commandTagStart_ok readOffset startSmall streams
  obtain ⟨cpos', sized, streams⟩ :=
    commandTagSize_ok readSize sizeSmall streams
  refine ⟨{
      cpos := cpos'
      pos
      prevtagstart := decodeUint32 icc (tags.tail_pos + 4)
      prevtagsize := decodeUint32 icc (tags.tail_pos + 8)
      result := icc.take tailPos }, ?_, ⟨rfl, rfl, rfl⟩, streams⟩
  have short : state.result.length ≤ icc.length := by
    rw [isResult]
    exact List.length_take_le' _ _
  unfold unpredictTagRound
  rw [if_neg (Nat.not_lt.2 short), if_neg (Nat.not_lt.2 (Nat.le_of_lt before)),
    if_neg (Nat.ne_of_lt before), isCommand, ok_bind, readCode,
    if_neg names.notEnd]
  unfold unpredictTag
  rw [readCode]
  dsimp only
  rw [named, ok_bind]
  dsimp only
  rw [started, ok_bind]
  dsimp only
  rw [checkIs32Bit_ok startSmall, ok_bind, sized, ok_bind]
  dsimp only
  rw [checkIs32Bit_ok sizeSmall, ok_bind, areEntries, ok_bind, isResult,
    take_append_entry inside, joined]
  rfl

/-- A decoder keeps up with what the tag list has added to the streams. -/
def TagsFollow
    (icc commands data : List UInt8)
    (first : TagList)
    (tags : TagList) :
    Prop :=
  ∃ more moreData,
    tags.commands = commands ++ more ∧ tags.data = data ++ moreData ∧
      ∀ enc commands_end (state : TagState) restCommands restData,
        Keeps icc first state →
        Streams enc commands_end state.cpos state.pos (more ++ restCommands)
            (moreData ++ restData) →
        ∃ count last,
          count ≤ more.length ∧
            Rounds (unpredictTagRound enc icc.length commands_end) count
                state last ∧
            Keeps icc tags last ∧
            Streams enc commands_end last.cpos last.pos restCommands
              restData

/-- One round more. -/
theorem TagsFollow.snoc
    {icc commands data : List UInt8}
    {first tags next : TagList}
    (follows : TagsFollow icc commands data first tags)
    (inside : tags.tail_pos + 12 ≤ icc.length)
    (emitted : predictTag icc tags = .ok next) :
    TagsFollow icc commands data first next := by
  obtain ⟨more, moreData, ofCommands, ofData, reads⟩ := follows
  obtain ⟨_, _, command, arguments, bytes, isCommands, isData, stepped⟩ :=
    unpredictTag_ok inside emitted
  refine ⟨more ++ command :: arguments, moreData ++ bytes, ?_, ?_, ?_⟩
  · rw [isCommands, ofCommands, List.append_assoc]
  · rw [isData, ofData, List.append_assoc]
  intro enc commands_end state restCommands restData keeps streams
  rw [List.append_assoc, List.append_assoc, List.cons_append] at streams
  obtain ⟨count, last, few, rounds, keeps, streams⟩ :=
    reads enc commands_end state _ _ keeps streams
  obtain ⟨later, round, keeps, streams⟩ :=
    stepped enc commands_end last _ _ keeps streams
  refine ⟨count + 1, later, ?_, rounds.trans (.one round), keeps, streams⟩
  rw [List.length_append, List.length_cons]
  omega

/-- The whole tag list is read back. -/
theorem unpredictTagList_ok
    {icc data : List UInt8}
    {fuel : Nat}
    {options : PredictOptions}
    {tags : TagList}
    (longer : kICCHeaderSize < icc.length)
    (ran : predictTagList fuel icc options data = .ok tags) :
    kICCHeaderSize ≤ tags.tail_pos ∧ tags.tail_pos ≤ icc.length ∧
      ∃ moreData,
        tags.data = data ++ moreData ∧
          ∀ enc commands_end cpos pos commands rest,
            Streams enc commands_end cpos pos (tags.commands ++ commands)
                (moreData ++ rest) →
            ∃ state,
              unpredictTagList enc icc.length commands_end cpos pos
                  (icc.take kICCHeaderSize) =
                .ok state ∧
              state.result = icc.take tags.tail_pos ∧
              Streams enc commands_end state.cpos state.pos commands rest
    := by
  unfold predictTagList at ran
  split at ran
  next list =>
    obtain ⟨_, room⟩ := list
    dsimp only at ran
    obtain ⟨final, isFinal, ran⟩ := bind_eq_ok.1 ran
    cases ran
    have small := decodeUint32_lt icc kICCHeaderSize
    generalize isCount : decodeUint32 icc kICCHeaderSize = numtags at isFinal small
    generalize isFirst :
      ({ tail_pos := kICCHeaderSize + 4
         prevtagstart := kICCHeaderSize + numtags * 12
         commands := varInt (numtags + 1)
         data } : TagList) = first at isFinal
    have start :
        first.tail_pos = kICCHeaderSize + 4 ∧
          first.prevtagstart = kICCHeaderSize + numtags * 12 ∧
          first.prevtagsize = 0 ∧
          first.commands = varInt (numtags + 1) ∧ first.data = data := by
      subst isFirst
      exact ⟨rfl, rfl, rfl, rfl, rfl⟩
    obtain ⟨atTail, isStart, isSize, areCommands, areData⟩ := start
    obtain ⟨last, ⟨follows, after, within⟩, ends⟩ :=
      run_invariant
        (fun tags : TagList =>
          TagsFollow icc first.commands first.data first tags ∧
            kICCHeaderSize ≤ tags.tail_pos ∧ tags.tail_pos ≤ icc.length)
        isFinal
        (by
          refine ⟨⟨[], [], (List.append_nil _).symm, (List.append_nil _).symm,
            ?_⟩, by omega, by omega⟩
          intro enc commands_end state commands rest keeps streams
          exact ⟨0, state, Nat.le_refl 0, .refl state, keeps, streams⟩)
        (by
          rintro before next ⟨follows, after, within⟩ stepped
          unfold tagRound at stepped
          split at stepped
          next more =>
            obtain ⟨_, inside⟩ := more
            obtain ⟨tag, emitted, stepped⟩ := bind_eq_ok.1 stepped
            cases stepped
            obtain ⟨forward, within, _⟩ := unpredictTag_ok inside emitted
            exact ⟨follows.snoc inside emitted, Nat.le_trans after forward,
              within⟩
          next done =>
            cases stepped)
    have same : last = final := by
      unfold tagRound at ends
      split at ends
      next more =>
        obtain ⟨tag, _, ends⟩ := bind_eq_ok.1 ends
        cases ends
      next done =>
        cases ends
        rfl
    subst same
    obtain ⟨more, moreData, ofCommands, ofData, reads⟩ := follows
    refine ⟨after, within, moreData, by rw [ofData, areData], ?_⟩
    intro enc commands_end cpos pos commands rest streams
    dsimp only at streams
    rw [ofCommands, areCommands, List.append_assoc, List.append_assoc] at streams
    have bound := streams.ends
    rw [List.length_append, List.length_append] at bound
    have read := streams.varInt (by omega)
    have announced : announcedVarInt enc cpos commands_end =
        .ok (decodeVarInt enc cpos) := by
      have ends := streams.ends
      have positive := varInt_pos (numtags + 1)
      rw [List.length_append] at ends
      exact if_neg (by omega)
    rw [announced] at read
    obtain ⟨isNumber, streams⟩ := read
    have header :
        appendUint32 (icc.take kICCHeaderSize) numtags =
          icc.take (kICCHeaderSize + 4) := by
      rw [appendUint32, ← isCount, decodeUint32_bytes (by omega),
        take_append_piece]
    obtain ⟨count, state, few, rounds, keeps, streams⟩ :=
      reads enc commands_end
        { cpos := cpos + (varInt (numtags + 1)).length
          pos
          prevtagstart := kICCHeaderSize + numtags * 12
          prevtagsize := 0
          result := icc.take (kICCHeaderSize + 4) }
        _ _ ⟨by rw [atTail], isStart.symm, isSize.symm⟩ streams
    obtain ⟨isEnd, before, streams⟩ := streams.command
    refine ⟨{ state with cpos := state.cpos + 1 }, ?_, keeps.result, streams⟩
    have short : state.result.length ≤ icc.length := by
      rw [keeps.result]
      exact List.length_take_le' _ _
    have ends :
        unpredictTagRound enc icc.length commands_end state =
          .ok (.inr { state with cpos := state.cpos + 1 }) := by
      unfold unpredictTagRound
      rw [if_neg (Nat.not_lt.2 short),
        if_neg (Nat.not_lt.2 (Nat.le_of_lt before)),
        if_neg (Nat.ne_of_lt before), isEnd, ok_bind, if_pos (by decide)]
      rfl
    unfold unpredictTagList
    rw [Except.ok.inj isNumber]
    dsimp only
    rw [if_pos (Nat.succ_ne_zero numtags), Nat.add_sub_cancel,
      checkIs32Bit_ok small, ok_bind, header]
    refine rounds.run_ok ends ?_
    omega
  next noList =>
    cases ran
    refine ⟨Nat.le_refl _, Nat.le_of_lt longer, [], (List.append_nil _).symm, ?_⟩
    intro enc commands_end cpos pos commands rest streams
    dsimp only at streams
    have read := streams.varInt (by decide)
    have announced : announcedVarInt enc cpos commands_end =
        .ok (decodeVarInt enc cpos) := by
      have ends := streams.ends
      have positive := varInt_pos 0
      rw [List.length_append] at ends
      exact if_neg (by omega)
    rw [announced] at read
    obtain ⟨isNumber, streams⟩ := read
    refine ⟨{
        cpos := cpos + (varInt 0).length
        pos
        prevtagstart := 0
        prevtagsize := 0
        result := icc.take kICCHeaderSize }, ?_, rfl, streams⟩
    unfold unpredictTagList
    rw [Except.ok.inj isNumber]
    rfl

end Jxlz.Icc
