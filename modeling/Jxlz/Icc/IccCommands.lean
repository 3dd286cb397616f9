import Jxlz.Icc.UnpredictICC

namespace Jxlz.Icc

open BigEndian FuelLoop
open Container (slice)

/-!
# What a command of the body stands for

`Streams` is what is left of the two streams where a decoder stands.  A command
`Executes` if the decoder, having put together a profile up to a place, gets
from it to a later place; commands in a row are `Written`.
-/

/-- What is left of the commands and of the data at two positions. -/
structure Streams
    (enc : List UInt8)
    (commands_end cpos pos : Nat)
    (commands data : List UInt8) :
    Prop where
  spelled : enc.drop cpos = commands ++ enc.drop commands_end
  ends : cpos + commands.length = commands_end
  supplied : enc.drop pos = data
  within : commands_end ≤ enc.length
  inside : pos ≤ enc.length
  fits : enc.length < 2 ^ 64

theorem checkOutOfBounds_ok
    {a b size : Nat}
    (inside : a + b ≤ size)
    (fits : size < 2 ^ 64) :
    checkOutOfBounds a b size = .ok () := by
  have small : (a + b) % 2 ^ 64 = a + b :=
    Nat.mod_eq_of_lt (Nat.lt_of_le_of_lt inside fits)
  unfold checkOutOfBounds
  rw [small]
  exact if_neg (by omega)

namespace Streams

variable {enc commands data : List UInt8}
variable {commands_end cpos pos : Nat}

/-- The next command is read. -/
theorem command
    {byte : UInt8}
    (streams : Streams enc commands_end cpos pos (byte :: commands) data) :
    index enc cpos = .ok byte ∧ cpos < commands_end ∧
      Streams enc commands_end (cpos + 1) pos commands data := by
  have ends := streams.ends
  rw [List.length_cons] at ends
  refine ⟨?_, by omega, ?_, by omega, streams.supplied, streams.within,
    streams.inside, streams.fits⟩
  · rw [index_eq_ok, ← List.head?_drop, streams.spelled]
    rfl
  · rw [← List.drop_drop, streams.spelled]
    rfl

/-- So is a number among the commands. -/
theorem varInt
    {value : Nat}
    (streams :
      Streams enc commands_end cpos pos (varInt value ++ commands) data)
    (fits : value < 2 ^ 64) :
    announcedVarInt enc cpos commands_end =
        .ok (value, cpos + (Icc.varInt value).length) ∧
      Streams enc commands_end (cpos + (Icc.varInt value).length) pos commands
        data := by
  have ends := streams.ends
  have positive := varInt_pos value
  rw [List.length_append] at ends
  refine ⟨?_, ?_, by omega, streams.supplied, streams.within, streams.inside,
    streams.fits⟩
  · have spelled := streams.spelled
    rw [List.append_assoc] at spelled
    rw [announcedVarInt, if_neg (by omega), decodeVarInt_varInt spelled fits]
  · rw [← List.drop_drop, streams.spelled, List.append_assoc,
      List.drop_left]

variable {front : List UInt8}

/-- The next bytes of the data are there. -/
theorem bytes
    (streams : Streams enc commands_end cpos pos commands (front ++ data)) :
    pos + front.length ≤ enc.length ∧
      (enc.drop pos).take front.length = front ∧
      Streams enc commands_end cpos (pos + front.length) commands data := by
  have inside := streams.inside
  have count := congrArg List.length streams.supplied
  rw [List.length_drop, List.length_append] at count
  refine ⟨by omega, ?_, streams.spelled, streams.ends, ?_, streams.within,
    by omega, streams.fits⟩
  · rw [streams.supplied, List.take_left]
  · rw [← List.drop_drop, streams.supplied, List.drop_left]

theorem check_ok
    (streams : Streams enc commands_end cpos pos commands (front ++ data)) :
    checkOutOfBounds pos front.length enc.length = .ok () :=
  checkOutOfBounds_ok streams.bytes.1 streams.fits

theorem slice_ok
    (streams : Streams enc commands_end cpos pos commands (front ++ data)) :
    slice enc pos (pos + front.length) = .ok front := by
  unfold slice
  rw [if_pos ⟨Nat.le_add_right _ _, streams.bytes.1⟩, Nat.add_sub_cancel_left,
    streams.bytes.2.1]

end Streams

/-- A number of the commands and the bytes that it counts are taken. -/
theorem takeData_ok
    {enc commands data front : List UInt8}
    {commands_end : Nat}
    {state : BodyState}
    (streams :
      Streams enc commands_end state.cpos state.pos
        (varInt front.length ++ commands) (front ++ data)) :
    ∃ next,
      state.takeData enc commands_end = .ok (front, next) ∧
        next.result = state.result ∧
        Streams enc commands_end next.cpos next.pos commands data := by
  have inside := streams.bytes.1
  have fits := streams.fits
  obtain ⟨read, rest⟩ := streams.varInt (by omega)
  refine ⟨{ state with
      cpos := state.cpos + (varInt front.length).length
      pos := state.pos + front.length }, ?_, rfl, rest.bytes.2.2⟩
  unfold BodyState.takeData
  rw [read, ok_bind]
  dsimp only
  rw [rest.check_ok, ok_bind, rest.slice_ok, ok_bind]
  rfl

/-- A piece of a profile comes behind the profile up to the piece. -/
theorem take_append_piece
    (icc : List UInt8)
    (start count : Nat) :
    icc.take start ++ (icc.drop start).take count = icc.take (start + count) :=
  (List.take_add).symm

variable {icc bytes : List UInt8}

theorem slice_joins
    {start stop : Nat}
    (sliced : slice icc start stop = .ok bytes) :
    icc.take start ++ bytes = icc.take stop ∧ bytes.length = stop - start ∧
      start ≤ stop ∧ stop ≤ icc.length := by
  unfold slice at sliced
  split at sliced
  next inside =>
    obtain ⟨ordered, within⟩ := inside
    cases sliced
    refine ⟨?_, ?_, ordered, within⟩
    · rw [take_append_piece, Nat.add_sub_cancel' ordered]
    · rw [List.length_take, List.length_drop]
      omega
  next outside =>
    cases sliced

/--
A command and its arguments make a decoder that has put together a profile up
to a place go on to a later place.
-/
def Executes
    (icc : List UInt8)
    (before : Nat)
    (command : UInt8)
    (arguments bytes : List UInt8)
    (later : Nat) :
    Prop :=
  ∀ enc commands_end (state : BodyState) commands data,
    state.result = icc.take before →
    Streams enc commands_end state.cpos state.pos (arguments ++ commands)
        (bytes ++ data) →
    ∃ next,
      state.execute enc commands_end command = .ok next ∧
        next.result = icc.take later ∧
        Streams enc commands_end next.cpos next.pos commands data

/-- Commands in a row take the decoder from one place to another. -/
def Written
    (icc : List UInt8)
    (start : Nat)
    (commands data : List UInt8)
    (produced : Nat) :
    Prop :=
  ∀ enc commands_end (state : BodyState) restCommands restData,
    state.result = icc.take start →
    Streams enc commands_end state.cpos state.pos (commands ++ restCommands)
        (data ++ restData) →
    ∃ count last,
      count ≤ commands.length ∧
        Rounds (BodyState.round enc icc.length commands_end) count state
            last ∧
        last.result = icc.take produced ∧
        Streams enc commands_end last.cpos last.pos restCommands
          restData

theorem Written.nil
    (icc : List UInt8)
    (start : Nat) :
    Written icc start [] [] start := by
  intro enc commands_end state restCommands restData isResult streams
  exact ⟨0, state, Nat.le_refl 0, .refl state, isResult, streams⟩

/-- A command more. -/
theorem Written.snoc
    {icc commands data arguments bytes : List UInt8}
    {start middle later : Nat}
    {command : UInt8}
    (written : Written icc start commands data middle)
    (executes : Executes icc middle command arguments bytes later) :
    Written icc start (commands ++ command :: arguments) (data ++ bytes)
      later := by
  intro enc commands_end state restCommands restData isResult streams
  rw [List.append_assoc, List.append_assoc, List.cons_append] at streams
  obtain ⟨count, last, few, rounds, lastResult, streams⟩ :=
    written enc commands_end state _ _ isResult streams
  obtain ⟨isCommand, before, streams⟩ := streams.command
  obtain ⟨next, executed, nextResult, streams⟩ :=
    executes enc commands_end { last with cpos := last.cpos + 1 } restCommands
      restData lastResult streams
  have round :
      BodyState.round enc icc.length commands_end last = .ok (.inl next) := by
    have short : last.result.length ≤ icc.length := by
      rw [lastResult]
      exact List.length_take_le' _ _
    unfold BodyState.round
    rw [if_neg (Nat.not_lt.2 short), if_neg (Nat.not_lt.2 (Nat.le_of_lt before)),
      if_neg (Nat.ne_of_lt before), isCommand, ok_bind, executed]
    rfl
  refine ⟨count + 1, next, ?_, rounds.trans (.one round), nextResult, streams⟩
  rw [List.length_append, List.length_cons]
  omega

theorem executes_insert
    {start stop : Nat}
    (sliced : slice icc start stop = .ok bytes) :
    Executes icc start kCommandInsert (varInt (stop - start)) bytes stop := by
  obtain ⟨joined, count, _⟩ := slice_joins sliced
  intro enc commands_end state commands data isResult streams
  rw [← count] at streams
  obtain ⟨next, taken, sameResult, streams⟩ := takeData_ok streams
  refine ⟨next.append bytes, ?_, ?_, streams⟩
  · show state.insert enc commands_end = _
    unfold BodyState.insert
    rw [taken, ok_bind]
    rfl
  · show next.result ++ bytes = _
    rw [sameResult, isResult, joined]

theorem executes_shuffled
    {start stop width : Nat}
    {command : UInt8}
    (isCommand :
      command = kCommandShuffle2 ∧ width = 2 ∨
        command = kCommandShuffle4 ∧ width = 4)
    (sliced : slice icc start stop = .ok bytes) :
    Executes icc start command (varInt (stop - start)) (unshuffle bytes width)
      stop := by
  obtain ⟨joined, count, _⟩ := slice_joins sliced
  have positive : 0 < width := by
    omega
  intro enc commands_end state commands data isResult streams
  rw [← count, ← length_unshuffle bytes positive] at streams
  obtain ⟨next, taken, sameResult, streams⟩ := takeData_ok streams
  have executed :
      state.execute enc commands_end command =
        state.shuffled enc commands_end width := by
    rcases isCommand with ⟨rfl, rfl⟩ | ⟨rfl, rfl⟩ <;> rfl
  refine ⟨next.append bytes, ?_, ?_, streams⟩
  · rw [executed, BodyState.shuffled, taken, ok_bind]
    dsimp only
    rw [shuffle_unshuffle bytes positive]
    rfl
  · show next.result ++ bytes = _
    rw [sameResult, isResult, joined]

variable {icc : List UInt8} {pos : Nat}

/-- A keyword that is there is four bytes of the profile. -/
theorem decodeKeyword_bytes
    (inside : pos + 4 ≤ icc.length) :
    (decodeKeyword icc pos).bytes = (icc.drop pos).take 4 := by
  have count : ((icc.drop pos).take 4).length = 4 := by
    rw [List.length_take, List.length_drop]
    omega
  unfold decodeKeyword
  match isBytes : (icc.drop pos).take 4, count with
  | [c0, c1, c2, c3], _ => rfl

/-- A number that is there is four bytes of the profile. -/
theorem decodeUint32_bytes
    (inside : pos + 4 ≤ icc.length) :
    bytesOf 4 (decodeUint32 icc pos) = (icc.drop pos).take 4 := by
  have count : ((icc.drop pos).take 4).length = 4 := by
    rw [List.length_take, List.length_drop]
    omega
  unfold decodeUint32
  rw [if_neg (Nat.not_lt.2 inside)]
  have back := bytesOf_valueOf ((icc.drop pos).take 4)
  rwa [count] at back

/-- A keyword and a zero behind it. -/
theorem take_append_keyword
    (inside : pos + 8 ≤ icc.length)
    (zero : decodeUint32 icc (pos + 4) = 0) :
    appendUint32 (appendKeyword (icc.take pos) (decodeKeyword icc pos)) 0 =
      icc.take (pos + 8) := by
  rw [appendKeyword, appendUint32, decodeKeyword_bytes (by omega),
    take_append_piece, ← zero, decodeUint32_bytes (by omega),
    take_append_piece]

theorem executes_typeStart
    {pos i : Nat}
    (inside : pos + 8 ≤ icc.length)
    (zero : decodeUint32 icc (pos + 4) = 0)
    (known : kTypeStrings[i]? = some (decodeKeyword icc pos)) :
    Executes icc pos (kCommandTypeStartFirst + UInt8.ofNat i) [] []
      (pos + 8) := by
  have few : i < 8 := by
    obtain ⟨within, _⟩ := List.getElem?_eq_some_iff.1 known
    exact within
  intro enc commands_end state commands data isResult streams
  refine ⟨{ state with result := icc.take (pos + 8) }, ?_, rfl, streams⟩
  have executed :
      ∀ place : Fin 8,
        state.execute enc commands_end
            (kCommandTypeStartFirst + UInt8.ofNat place) =
          (do
            let tag ← index kTypeStrings place
            return {
              state with
              result := appendUint32 (appendKeyword state.result tag) 0 }) := by
    intro place
    fin_cases place <;> rfl
  rw [executed ⟨i, few⟩, index_eq_ok.2 known, ok_bind, isResult,
    take_append_keyword inside zero]
  rfl

theorem executes_xyz
    (isKeyword : decodeKeyword icc pos = kXyz_Tag)
    (zero : decodeUint32 icc (pos + 4) = 0)
    (sliced : slice icc (pos + 8) (pos + 20) = .ok bytes) :
    Executes icc pos kCommandXYZ [] bytes (pos + 20) := by
  obtain ⟨joined, count, _, within⟩ := slice_joins sliced
  have twelve : bytes.length = 12 := by
    omega
  intro enc commands_end state commands data isResult streams
  have check := streams.check_ok
  have sliceOk := streams.slice_ok
  have streams := streams.bytes.2.2
  rw [twelve] at check sliceOk streams
  refine ⟨{ state with
      pos := state.pos + 12
      result := icc.take (pos + 20) }, ?_, rfl, streams⟩
  show state.xyz enc = _
  unfold BodyState.xyz
  rw [check, ok_bind, sliceOk, ok_bind, isResult, ← isKeyword,
    take_append_keyword (by omega) zero, joined]
  rfl

/-- The residuals of a block, byte by byte. -/
def Residuals
    (icc : List UInt8)
    (start stride width order : Nat)
    (residuals : List UInt8) :
    Prop :=
  ∀ i residual,
    residuals[i]? = some residual →
    ∃ value byte,
      linearPredictValue icc start i stride width order = .ok value ∧
        index icc (start + i) = .ok byte ∧ residual = byte - value

variable {icc residuals : List UInt8}

theorem residuals_of_mapM
    {start num stride width order : Nat}
    (mapped :
      (List.range num).mapM
          (fun i => do
            let value ← linearPredictValue icc start i stride width order
            let byte ← index icc (start + i)
            return byte - value) =
        .ok residuals) :
    residuals.length = num ∧ Residuals icc start stride width order residuals := by
  have pairs := forall₂_of_mapM_eq_ok mapped
  have count : residuals.length = num := by
    rw [← pairs.length_eq, List.length_range]
  refine ⟨count, ?_⟩
  intro i residual isResidual
  obtain ⟨within, isResidual⟩ := List.getElem?_eq_some_iff.1 isResidual
  have inRange : i < (List.range num).length := by
    rwa [List.length_range, ← count]
  have step := pairs.get inRange within
  rw [List.get_eq_getElem, List.getElem_range] at step
  obtain ⟨value, isValue, step⟩ := bind_eq_ok.1 step
  obtain ⟨byte, isByte, step⟩ := bind_eq_ok.1 step
  have same : byte - value = residuals[i] := Except.ok.inj step
  exact ⟨value, byte, isValue, isByte, by rw [same, isResidual]⟩

/-- The flags of a predicted block are read back. -/
theorem predictFlags_read
    {stride width order : Nat}
    (lane : width = 1 ∨ width = 2 ∨ width = 4)
    (low : order ≤ 1) :
    (Body.predictFlags stride width order &&& 3).toNat + 1 = width ∧
      ((Body.predictFlags stride width order &&& 12) >>> 2).toNat = order ∧
      (Body.predictFlags stride width order &&& 16 ≠ 0 ↔ stride ≠ width) := by
  unfold Body.predictFlags
  by_cases apart : stride ≠ width
  · rw [if_pos apart]
    refine ⟨?_, ?_, iff_of_true ?_ apart⟩
    all_goals
      rcases lane with rfl | rfl | rfl <;> interval_cases order <;> decide
  · rw [if_neg apart]
    refine ⟨?_, ?_, iff_of_false ?_ apart⟩
    all_goals
      rcases lane with rfl | rfl | rfl <;> interval_cases order <;> decide

/-- The bytes of a block come back from their residuals. -/
theorem predictBytes_ok
    {start stride width order : Nat}
    (areResiduals : Residuals icc start stride width order residuals)
    (apart : width ≤ stride) :
    (List.range residuals.length).foldlM
        (BodyState.predictByte start stride width order residuals)
        (icc.take start) =
      .ok (icc.take (start + residuals.length)) := by
  obtain ⟨result, ran, isResult⟩ :=
    @foldlM_range_ok (List UInt8)
      (BodyState.predictByte start stride width order residuals)
      (fun i result => result = icc.take (start + i)) (icc.take start)
      residuals.length rfl
      (by
        intro i result inside isResult
        subst isResult
        obtain ⟨value, byte, isValue, isByte, isResidual⟩ :=
          areResiduals i residuals[i] (List.getElem?_eq_getElem inside)
        refine ⟨_, ?_, rfl⟩
        unfold BodyState.predictByte
        rw [linearPredictValue_take isValue apart, ok_bind, index_ok inside,
          ok_bind, isResidual]
        have whole : value + (byte - value) = byte := by
          rw [UInt8.add_comm, UInt8.sub_add_cancel]
        have next :
            icc.take (start + (i + 1)) = icc.take (start + i) ++ [byte] := by
          rw [← Nat.add_assoc, List.take_add_one, index_eq_ok.1 isByte]
          rfl
        rw [whole, next]
        rfl)
  rw [ran, isResult]

theorem executes_predict
    {start stride width order : Nat}
    (areResiduals : Residuals icc start stride width order residuals)
    (lane : width = 1 ∨ width = 2 ∨ width = 4)
    (low : order ≤ 1)
    (apart : width ≤ stride)
    (far : stride * 4 < start)
    (inside : start + residuals.length ≤ icc.length)
    (fits : icc.length < 2 ^ 64) :
    Executes icc start kCommandPredict
      (Body.predictFlags stride width order ::
        ((if stride ≠ width then varInt stride else []) ++
          varInt residuals.length))
      (if 1 < width then unshuffle residuals width else residuals)
      (start + residuals.length) := by
  obtain ⟨isWidth, isOrder, announced⟩ :=
    @predictFlags_read stride width order lane low
  have positive : 0 < width := by
    omega
  intro enc commands_end state commands data isResult streams
  rw [List.cons_append, List.append_assoc] at streams
  have ends := streams.ends
  have numbers := varInt_pos residuals.length
  rw [List.length_cons, List.length_append, List.length_append] at ends
  have room :
      checkOutOfBounds state.cpos 2 commands_end = .ok () :=
    checkOutOfBounds_ok (by omega)
      (Nat.lt_of_le_of_lt streams.within streams.fits)
  obtain ⟨isFlags, _, streams⟩ := streams.command
  -- The stride is the width, or it is announced.
  have strideOk :
      ∃ next,
        BodyState.predictStride enc commands_end
            (Body.predictFlags stride width order) width
            { state with cpos := state.cpos + 1 } =
          .ok (stride, next) ∧
        next.result = state.result ∧
        Streams enc commands_end next.cpos next.pos
          (varInt residuals.length ++ commands)
          ((if 1 < width then unshuffle residuals width else residuals) ++
            data) := by
    unfold BodyState.predictStride
    by_cases same : stride = width
    · rw [if_neg (fun flag => announced.1 flag same), same]
      rw [if_neg (not_not.2 same), List.nil_append] at streams
      exact ⟨_, rfl, rfl, streams⟩
    · rw [if_pos (announced.2 same)]
      rw [if_pos same] at streams
      obtain ⟨read, streams⟩ := streams.varInt (by omega)
      refine ⟨{ state with
          cpos := state.cpos + 1 + (varInt stride).length }, ?_, rfl, streams⟩
      rw [read, ok_bind]
      dsimp only
      rw [if_neg (Nat.not_lt.2 apart)]
      rfl
  obtain ⟨next, strided, sameResult, streams⟩ := strideOk
  have count :
      (if 1 < width then unshuffle residuals width else residuals).length =
        residuals.length := by
    split
    · exact length_unshuffle residuals positive
    · rfl
  rw [← count] at streams
  obtain ⟨last, taken, sameResult', streams⟩ := takeData_ok streams
  have restored :
      (if 1 < width then
          shuffle
            (if 1 < width then unshuffle residuals width else residuals) width
        else
          if 1 < width then unshuffle residuals width else residuals) =
        residuals := by
    split
    · exact shuffle_unshuffle residuals positive
    · rfl
  have startCount : next.result.length = start := by
    rw [sameResult, isResult, List.length_take]
    omega
  refine ⟨{ last with result := icc.take (start + residuals.length) }, ?_, rfl,
    streams⟩
  show state.predict enc commands_end = _
  unfold BodyState.predict
  rw [room, ok_bind, isFlags, ok_bind]
  dsimp only
  rw [isWidth, isOrder, if_neg (by omega), if_neg (by omega), strided, ok_bind]
  dsimp only
  rw [startCount, Nat.shiftRight_eq_div_pow, if_neg (by omega), taken, ok_bind]
  dsimp only
  rw [restored, count, sameResult', startCount, sameResult, isResult,
    predictBytes_ok areResiduals apart, ok_bind]
  rfl

end Jxlz.Icc
