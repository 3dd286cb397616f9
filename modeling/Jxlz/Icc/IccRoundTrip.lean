import Jxlz.Icc.IccBody
import Jxlz.Icc.IccTagList

namespace Jxlz.Icc

open FuelLoop

/-!
# A profile is put together as it was taken apart

The decoder follows the header byte by byte, the tag list entry by entry and
the body command by command, and ends where the streams end.
-/

/-- The rounds of both loops over the header, from byte `i` on. -/
theorem unpredictHeader_ok
    {icc header header' data data' : List UInt8}
    {i count : Nat}
    (short : i + count ≤ min icc.length kICCHeaderSize)
    (ran :
      (List.range' i count).foldlM (predictHeaderByte icc) (header, data) =
        .ok (header', data')) :
    ∃ bytes,
      data' = data ++ bytes ∧ bytes.length = count ∧
        ∀ enc cpos commands_end pos rest,
          enc.drop pos = bytes ++ rest →
          unpredictHeader enc icc.length cpos commands_end
              (kICCHeaderSize - i) pos header (icc.take i) =
            unpredictHeader enc icc.length cpos commands_end
              (kICCHeaderSize - (i + count)) (pos + count) header'
              (icc.take (i + count)) := by
  induction count generalizing i header data with
  | zero =>
      cases ran
      exact ⟨[], (List.append_nil _).symm, rfl,
        fun enc cpos commands_end pos rest _ => rfl⟩
  | succ count inductionHypothesis =>
      have inside : i < icc.length ∧ i < kICCHeaderSize := by
        omega
      rw [List.range'_succ, List.foldlM_cons] at ran
      obtain ⟨⟨nextHeader, nextData⟩, stepped, ran⟩ := bind_eq_ok.1 ran
      unfold predictHeaderByte at stepped
      obtain ⟨byte, isByte, stepped⟩ := bind_eq_ok.1 stepped
      obtain ⟨value, isValue, stepped⟩ := bind_eq_ok.1 stepped
      cases stepped
      obtain ⟨bytes, isData, isCount, follows⟩ :=
        inductionHypothesis (by omega) ran
      refine ⟨(byte - value) :: bytes, ?_, ?_, ?_⟩
      · rw [isData, List.append_assoc]
        rfl
      · rw [List.length_cons, isCount]
      intro enc cpos commands_end pos rest spelled
      have next :
          enc.drop (pos + 1) = bytes ++ rest := by
        rw [← List.drop_drop, spelled]
        rfl
      have isNext : index enc pos = .ok (byte - value) := by
        rw [index_eq_ok, ← List.head?_drop, spelled]
        rfl
      have within : pos < enc.length :=
        (List.getElem?_eq_some_iff.1 (index_eq_ok.1 isNext)).1
      have taken : (icc.take i).length = i := by
        rw [List.length_take, Nat.min_eq_left (Nat.le_of_lt inside.1)]
      have left : kICCHeaderSize - i = kICCHeaderSize - (i + 1) + 1 := by
        omega
      have place : kICCHeaderSize - (kICCHeaderSize - (i + 1) + 1) = i := by
        omega
      have whole : byte - value + value = byte := UInt8.sub_add_cancel byte value
      have longer : icc.take i ++ [byte] = icc.take (i + 1) := by
        rw [List.take_add_one, index_eq_ok.1 isByte]
        rfl
      have rest' := follows enc cpos commands_end (pos + 1) rest next
      rw [Nat.add_assoc pos, Nat.add_comm 1 count, Nat.add_assoc i,
        Nat.add_comm 1 count] at rest'
      rw [← rest', left]
      conv_lhs => unfold unpredictHeader
      rw [if_neg (by omega)]
      dsimp only
      rw [place, predictHeader_take icc header (Nat.le_of_lt inside.1),
        if_neg (Nat.not_le.2 within), isNext, ok_bind, isValue, ok_bind, whole,
        longer]

/-- The part of a profile behind its header is put together again. -/
theorem unpredictTail_ok
    {icc enc commands data headerData : List UInt8}
    {fuel cpos pos commands_end : Nat}
    {options : PredictOptions}
    (longer : kICCHeaderSize < icc.length)
    (ran : predictTail fuel icc options headerData = .ok (commands, data))
    (fits : icc.length < 2 ^ 64)
    (streams :
      ∀ moreData,
        data = headerData ++ moreData →
        Streams enc commands_end cpos pos commands moreData) :
    unpredictTail enc icc.length commands_end cpos pos
        (icc.take kICCHeaderSize) =
      .ok icc := by
  unfold predictTail at ran
  rw [if_pos longer] at ran
  obtain ⟨tags, isTags, ran⟩ := bind_eq_ok.1 ran
  obtain ⟨body, isBody, ran⟩ := bind_eq_ok.1 ran
  cases ran
  obtain ⟨header, inside, tagData, ofTagData, readTags⟩ :=
    unpredictTagList_ok longer isTags
  obtain ⟨more, bodyData, ofCommands, ofData, written⟩ :=
    predictBody_follows header inside fits isBody
  have streams := streams (tagData ++ bodyData)
    (by rw [ofData, ofTagData, List.append_assoc])
  rw [ofCommands] at streams
  have nonempty : 0 < tags.commands.length := by
    unfold predictTagList at isTags
    split at isTags
    · dsimp only at isTags
      obtain ⟨last, _, isTags⟩ := bind_eq_ok.1 isTags
      cases isTags
      simp
    · cases isTags
      exact varInt_pos 0
  have ends := streams.ends
  rw [List.length_append] at ends
  obtain ⟨state, readList, stateResult, streams⟩ :=
    readTags enc commands_end cpos pos more bodyData streams
  have bodyEnds := streams.ends
  rw [← List.append_nil more, ← List.append_nil bodyData] at streams
  obtain ⟨count, last, few, rounds, lastResult, streams⟩ :=
    written enc commands_end
      { cpos := state.cpos, pos := state.pos, result := state.result }
      [] [] stateResult streams
  have atEnd : last.cpos = commands_end := by
    simpa using streams.ends
  have allData : last.pos = enc.length := by
    have empty := congrArg List.length streams.supplied
    rw [List.length_drop, List.length_nil] at empty
    have within := streams.inside
    omega
  rw [List.take_length] at lastResult
  have stops :
      BodyState.round enc icc.length commands_end last = .ok (.inr last) := by
    unfold BodyState.round
    rw [lastResult, if_neg (Nat.lt_irrefl _), atEnd,
      if_neg (Nat.lt_irrefl _), if_pos rfl]
  unfold unpredictTail
  rw [if_neg (by omega), readList, ok_bind,
    rounds.run_ok stops (by omega), ok_bind, allData, lastResult]
  rw [if_neg (not_not.2 rfl), if_neg (not_not.2 rfl)]
  rfl

/-- The two streams of a profile are put together again. -/
theorem unpredictStreams_ok
    {icc enc commands data : List UInt8}
    {fuel pos : Nat}
    {options : PredictOptions}
    {header headerData : List UInt8}
    (isHeader :
      (List.range (min icc.length kICCHeaderSize)).foldlM
          (predictHeaderByte icc) (initialHeaderPrediction icc.length, []) =
        .ok (header, headerData))
    (ran : predictTail fuel icc options headerData = .ok (commands, data))
    (spelled : enc.drop pos = commands ++ data)
    (inside : pos + commands.length + data.length = enc.length)
    (fits : enc.length < 2 ^ 64)
    (small : icc.length < 2 ^ 64) :
    unpredictStreams enc icc.length commands.length pos = .ok icc := by
  rw [List.range_eq_range'] at isHeader
  obtain ⟨bytes, isBytes, count, follows⟩ :=
    unpredictHeader_ok (by rw [Nat.zero_add]) isHeader
  rw [List.nil_append] at isBytes
  subst isBytes
  -- The data of the header comes first.
  have tailData :
      ∃ moreData,
        data = headerData ++ moreData ∧
          (icc.length ≤ kICCHeaderSize → commands = [] ∧ moreData = []) := by
    by_cases longer : kICCHeaderSize < icc.length
    · have ran' := ran
      unfold predictTail at ran'
      rw [if_pos longer] at ran'
      obtain ⟨tags, isTags, ran'⟩ := bind_eq_ok.1 ran'
      obtain ⟨body, isBody, ran'⟩ := bind_eq_ok.1 ran'
      cases ran'
      obtain ⟨behind, within, tagData, ofTagData, _⟩ :=
        unpredictTagList_ok longer isTags
      obtain ⟨_, bodyData, _, ofData, _⟩ :=
        predictBody_follows behind within small isBody
      exact ⟨tagData ++ bodyData,
        by rw [ofData, ofTagData, List.append_assoc],
        fun short => absurd longer (Nat.not_lt.2 short)⟩
    · unfold predictTail at ran
      rw [if_neg longer] at ran
      cases ran
      exact ⟨[], (List.append_nil _).symm, fun _ => ⟨rfl, rfl⟩⟩
  obtain ⟨moreData, isData, short⟩ := tailData
  have dataAt : enc.drop (pos + commands.length) = headerData ++ moreData := by
    rw [← List.drop_drop, spelled, List.drop_left, isData]
  have read := follows enc pos (pos + commands.length) (pos + commands.length)
    moreData dataAt
  rw [Nat.sub_zero, List.take_zero, Nat.zero_add] at read
  unfold unpredictStreams
  rw [checkOutOfBounds_ok (by omega) fits, ok_bind]
  dsimp only
  rw [read]
  by_cases longer : kICCHeaderSize < icc.length
  · have isMin : min icc.length kICCHeaderSize = kICCHeaderSize :=
      Nat.min_eq_right (Nat.le_of_lt longer)
    rw [isMin] at count ⊢
    have taken : (icc.take kICCHeaderSize).length ≠ icc.length := by
      rw [List.length_take]
      omega
    rw [Nat.sub_self, unpredictHeader, if_neg taken, ok_bind]
    refine unpredictTail_ok longer ran small ?_
    intro more isMore
    rw [isData] at isMore
    have same := List.append_cancel_left isMore
    subst same
    refine ⟨?_, rfl, ?_, by omega, ?_, fits⟩
    · rw [spelled, dataAt, isData]
    · rw [← count, ← List.drop_drop, dataAt, List.drop_left]
    · have whole := congrArg List.length isData
      rw [List.length_append] at whole
      omega
  · obtain ⟨noCommands, noMore⟩ := short (Nat.not_lt.1 longer)
    have isMin : min icc.length kICCHeaderSize = icc.length :=
      Nat.min_eq_left (Nat.not_lt.1 longer)
    have whole := congrArg List.length isData
    rw [List.length_append, noMore, List.length_nil, Nat.add_zero, count]
      at whole
    rw [isMin] at whole ⊢
    rw [noCommands, List.length_nil, Nat.add_zero] at inside
    rw [List.take_length, noCommands, List.length_nil, Nat.add_zero]
    unfold unpredictHeader
    rw [if_pos rfl, if_neg (not_not.2 rfl), if_neg (by omega), ok_bind]
    rfl

/--
The intermediate form of a profile, whatever shapes were looked for, is put
together to the profile.
-/
theorem unpredictICC_predictICCImpl
    {icc enc : List UInt8}
    {fuel : Nat}
    {options : PredictOptions}
    (ran : predictICCImpl fuel icc options = .ok enc)
    (short : icc.length < kOutputLimit)
    (fits : enc.length < 2 ^ 32) :
    unpredictICC enc = .ok icc := by
  have small : icc.length < 2 ^ 28 := short
  unfold predictICCImpl at ran
  split at ran
  next large =>
    cases ran
  next limited =>
    obtain ⟨⟨header, headerData⟩, isHeader, ran⟩ := bind_eq_ok.1 ran
    dsimp only at ran
    obtain ⟨⟨commands, data⟩, isTail, ran⟩ := bind_eq_ok.1 ran
    dsimp only at ran
    have isEnc := Except.ok.inj ran
    unfold encodeVarInt at isEnc
    rw [List.nil_append, List.append_assoc, List.append_assoc] at isEnc
    have total := congrArg List.length isEnc
    rw [List.length_append, List.length_append, List.length_append] at total
    have first : enc.drop 0 = varInt icc.length ++
        (varInt commands.length ++ (commands ++ data)) := isEnc.symm
    have readSize := decodeVarInt_varInt first (by omega)
    rw [Nat.zero_add] at readSize
    have second : enc.drop (varInt icc.length).length =
        varInt commands.length ++ (commands ++ data) := by
      rw [← isEnc, List.drop_left]
    have readCount := decodeVarInt_varInt second (by omega)
    have third :
        enc.drop ((varInt icc.length).length + (varInt commands.length).length) =
          commands ++ data := by
      rw [← List.drop_drop, second, List.drop_left]
    have positive := varInt_pos icc.length
    have positive' := varInt_pos commands.length
    unfold unpredictICC
    rw [if_neg (by omega), readSize]
    dsimp only
    rw [checkIs32Bit_ok (by omega), ok_bind, if_neg (Nat.not_le.2 short),
      if_neg (by omega), readCount]
    dsimp only
    rw [checkIs32Bit_ok (by omega), ok_bind]
    exact unpredictStreams_ok isHeader isTail third (by omega) (by omega)
      (by omega)

/-- A profile whose only tag is a curve of one byte. -/
def curveProfile : List UInt8 :=
  List.replicate 128 0 ++ [0, 0, 0, 1] ++ kDescTag.bytes ++
    [0, 0, 0, 144, 0, 0, 0, 9] ++ kCurvTag.bytes ++ [0, 0, 0, 0, 7]

/-- The profile is taken apart by its shapes and put together. -/
theorem unpredictICC_predictICCImpl_curve :
    ∃ enc,
      predictICC 160 curveProfile = .ok enc ∧ unpredictICC enc = .ok curveProfile := by
  have ran : (predictICC 160 curveProfile).toOption.any (·.length < 2 ^ 32) := by
    decide +kernel
  cases isEncoding : predictICC 160 curveProfile with
  | ok enc =>
      rw [isEncoding] at ran
      exact
        ⟨enc, rfl,
          unpredictICC_predictICCImpl isEncoding (by decide +kernel) (of_decide_eq_true ran)⟩
  | error fault =>
      rw [isEncoding] at ran
      cases ran

end Jxlz.Icc
