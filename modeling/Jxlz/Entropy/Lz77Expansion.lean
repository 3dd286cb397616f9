import Jxlz.Entropy.Lz77Window

namespace Jxlz

open RingWindow ANSSymbolReader

/-!
# The symbol reader expands LZ77 codes

The invariant is `Mirrors`: the ring buffer holds the end of the list, the
counters are its length and the place of the copy, and the entropy decoders are
the same.  A literal and the next value of a copy both write one cell; a copy
from an empty list finds fillers everywhere.
-/

/-- Where a copy that is going on reads its next value. -/
structure CopyPlace
    (expansion : Expansion)
    (copyPos : Nat) :
    Prop where
  produced :
    expansion.distance ≤ expansion.output.length
  inWindow :
    expansion.distance ≤ windowSize
  place :
    copyPos = expansion.output.length - expansion.distance
  zeros :
    expansion.distance = 0 → ∀ item ∈ expansion.output, item = 0

/-- The reader with its ring buffer stands for the expansion. -/
structure Mirrors
    (multiplier : Nat)
    (expansion : Expansion)
    (state : ANSSymbolReader × BitReader)
    (window : List Nat)
    (copyPos : Nat) :
    Prop where
  sameBits :
    state.2 = expansion.br
  sameReader :
    state.1 =
      expansion.reader.withWindow window expansion.output.length
        expansion.pending copyPos
  holds :
    Holds windowSize 0 expansion.output window
  copying :
    0 < expansion.pending → CopyPlace expansion copyPos
  resolves :
    Resolves multiplier expansion.reader

/-- The window has room for the values of one round. -/
theorem windowSize_pos :
    0 < windowSize := by
  decide

/-- The mask picks the cell of a place. -/
theorem and_windowMask
    (place : Nat) :
    place &&& windowMask = place % windowSize := by
  have size : windowSize = 2 ^ 20 := by
    decide
  rw [windowMask, size, Nat.and_two_pow_sub_one_eq_mod]

variable {multiplier : Nat}
variable {expansion : Expansion} {copyPos : Nat} {window : List Nat}
  {reader : ANSSymbolReader} {state : ANSSymbolReader × BitReader}

/-- A decoder that differs in its state only resolves the same distances. -/
theorem ANSSymbolReader.Resolves.withState
    {before after : ANSSymbolReader}
    (resolves : Resolves multiplier before)
    (onlyState : after = { before with state := after.state }) :
    Resolves multiplier after := by
  rw [onlyState]
  exact ⟨resolves.cachedCount, resolves.cached⟩

/-- The cell that a copy reads holds the value that it repeats. -/
theorem CopyPlace.repeated_eq
    (copying : CopyPlace expansion copyPos)
    (holds : Holds windowSize 0 expansion.output window) :
    index window (copyPos % windowSize) = .ok expansion.repeated := by
  have produced := copying.produced
  have inWindow := copying.inWindow
  rw [index_eq_ok, copying.place]
  unfold Expansion.repeated
  by_cases noDistance : expansion.distance = 0
  · rw [if_pos noDistance, noDistance, Nat.sub_zero]
    exact holds.next_of_fillers windowSize_pos (copying.zeros noDistance)
  · have inside :
        expansion.output.length - expansion.distance <
          expansion.output.length := by
      omega
    rw [if_neg noDistance, holds.recent _ inside (by omega),
      List.getD_eq_getElem _ _ inside]

/-- Appending the repeated value keeps the copy at its distance. -/
theorem CopyPlace.repeatValue
    (copying : CopyPlace expansion copyPos) :
    CopyPlace expansion.repeatValue.2 (copyPos + 1) where
  produced := by
    have produced := copying.produced
    simp only [Expansion.repeatValue, List.length_append, List.length_singleton]
    omega
  inWindow := copying.inWindow
  place := by
    have produced := copying.produced
    simp only [Expansion.repeatValue, List.length_append, List.length_singleton,
      copying.place]
    omega
  zeros := by
    intro noDistance item isItem
    have nothing : expansion.distance = 0 :=
      noDistance
    simp only [Expansion.repeatValue, Expansion.repeated, if_pos nothing,
      List.mem_append, List.mem_singleton] at isItem
    rcases isItem with old | rfl
    · exact copying.zeros nothing item old
    · rfl

/-- A pending copy gives the same value on both sides. -/
theorem Mirrors.copyValue
    (mirrors : Mirrors multiplier expansion state window copyPos)
    (pending : 0 < expansion.pending)
    (few : expansion.output.length + 1 < 2 ^ 32) :
    ∃ after windowAfter,
      state.1.copyValue = .ok (expansion.repeated, after) ∧
        Mirrors multiplier expansion.repeatValue.2 (after, state.2) windowAfter
          (copyPos + 1) := by
  have copying := mirrors.copying pending
  have place := copying.place
  have nextPos : (copyPos + 1) % 2 ^ 32 = copyPos + 1 :=
    Nat.mod_eq_of_lt (by omega)
  have nextCount :
      (expansion.output.length + 1) % 2 ^ 32 = expansion.output.length + 1 :=
    Nat.mod_eq_of_lt few
  refine ⟨expansion.reader.withWindow
      (window.set (expansion.output.length % windowSize) expansion.repeated)
      (expansion.output.length + 1) (expansion.pending - 1) (copyPos + 1),
    _, ?_, mirrors.sameBits, ?_, mirrors.holds.push windowSize_pos _,
    fun _ => copying.repeatValue, mirrors.resolves⟩
  · rw [mirrors.sameReader]
    simp only [ANSSymbolReader.copyValue, withWindow,
      copying.repeated_eq mirrors.holds, subU_ok pending, ok_bind, pure_eq_ok,
      nextPos, nextCount, and_windowMask]
  · simp only [Expansion.repeatValue, List.length_append,
      List.length_singleton]

/-- A literal is appended on both sides. -/
theorem Mirrors.recordValue
    (holds : Holds windowSize 0 expansion.output window)
    (resolves : Resolves multiplier reader)
    (idle : expansion.pending = 0)
    (few : expansion.output.length + 1 < 2 ^ 32)
    (br : BitReader)
    (value : Nat) :
    ∃ windowAfter,
      Mirrors multiplier
        { expansion with reader, br, output := expansion.output ++ [value] }
        ((reader.withWindow window expansion.output.length expansion.pending
            copyPos).recordValue value,
          br)
        windowAfter copyPos := by
  refine ⟨_, rfl, ?_, holds.push windowSize_pos value, ?_, resolves⟩
  · simp only [ANSSymbolReader.recordValue, withWindow, and_windowMask,
      Nat.mod_eq_of_lt few, List.length_append, List.length_singleton]
  · intro pending
    exact absurd pending (by simp [idle])

/-- The reader and the expansion, with a number of calls that may still come. -/
def Mirroring
    (multiplier left : Nat)
    (state : ANSSymbolReader × BitReader)
    (expansion : Expansion) :
    Prop :=
  expansion.output.length + left < 2 ^ 32 ∧
    ∃ window copyPos, Mirrors multiplier expansion state window copyPos

/-- Both sides answer alike and stay related. -/
def SameAnswer
    (multiplier left : Nat)
    (first : Nat × ANSSymbolReader × BitReader)
    (second : Nat × Expansion) :
    Prop :=
  first.1 = second.1 ∧ Mirroring multiplier left first.2 second.2

variable {multiplier left : Nat}

/-- A pending copy answers alike. -/
theorem Mirrors.repeatValue
    (mirrors : Mirrors multiplier expansion state window copyPos)
    (pending : 0 < expansion.pending)
    (few : expansion.output.length + (left + 1) < 2 ^ 32) :
    Agree (SameAnswer multiplier left)
      (do
        let (ret, self) ← state.1.copyValue
        return (ret, self, state.2))
      (.ok expansion.repeatValue) := by
  obtain ⟨after, windowAfter, copied, mirrorsAfter⟩ :=
    mirrors.copyValue pending (by omega)
  rw [copied]
  refine .ok ⟨rfl, ?_, windowAfter, copyPos + 1, mirrorsAfter⟩
  simp only [Expansion.repeatValue, List.length_append, List.length_singleton]
  omega

/-- The first value of a copy whose parts were read. -/
theorem startValue_agree
    {br : BitReader}
    {length distance : Nat}
    (holds : Holds windowSize 0 expansion.output window)
    (resolves : Resolves multiplier reader)
    (positive : 0 < distance)
    (few : expansion.output.length + (left + 1) < 2 ^ 32) :
    Agree (SameAnswer multiplier left)
      (do
        let (ret, self) ←
          (reader.withWindow
            (if min (min distance expansion.output.length) windowSize = 0 then
              List.replicate (min length windowSize) 0 ++
                window.drop (min length windowSize)
            else
              window)
            expansion.output.length length
            ((expansion.output.length + 2 ^ 32 -
              min (min distance expansion.output.length) windowSize) %
                2 ^ 32)).copyValue
        return (ret, self, br))
      (do
        require (0 < length)
        return Expansion.repeatValue
          { expansion with
            reader
            br
            pending := length
            distance :=
              min (min distance expansion.output.length) windowSize }) := by
  have size := windowSize_pos
  generalize isLimited :
    min (min distance expansion.output.length) windowSize = limited
  have place :
      (expansion.output.length + 2 ^ 32 - limited) % 2 ^ 32 =
        expansion.output.length - limited := by
    omega
  have empty : limited = 0 → expansion.output = [] := by
    intro noDistance
    exact List.eq_nil_of_length_eq_zero (by omega)
  have holdsFilled :
      Holds windowSize 0 expansion.output
        (if limited = 0 then
          List.replicate (min length windowSize) 0 ++
            window.drop (min length windowSize)
        else
          window) := by
    by_cases noDistance : limited = 0
    · rw [if_pos noDistance]
      rw [empty noDistance] at holds ⊢
      exact holds.refill (Nat.min_le_right _ _)
    · rw [if_neg noDistance]
      exact holds
  have copying :
      CopyPlace
        { expansion with reader, br, pending := length, distance := limited }
        (expansion.output.length - limited) := by
    refine ⟨?_, ?_, rfl, ?_⟩
    · show limited ≤ expansion.output.length
      omega
    · show limited ≤ windowSize
      omega
    · intro noDistance item isItem
      rw [show expansion.output = [] from empty noDistance] at isItem
      cases isItem
  have mirrors :
      Mirrors multiplier
        { expansion with reader, br, pending := length, distance := limited }
        (reader.withWindow _ expansion.output.length length
            (expansion.output.length - limited),
          br)
        _ (expansion.output.length - limited) :=
    ⟨rfl, rfl, holdsFilled, fun _ => copying, resolves⟩
  rw [place]
  by_cases some : 0 < length
  · rw [require_ok some]
    exact mirrors.repeatValue some few
  · -- A copy of no values stops both sides.
    have none : length = 0 := by
      omega
    have read := copying.repeated_eq holdsFilled
    subst none
    simp only [ANSSymbolReader.copyValue, withWindow, and_windowMask, read,
      ok_bind]
    exact .error Fault.trap

/-- Starting a copy reads the same parts and gives the same first value. -/
theorem startCopy_agree
    (holds : Holds windowSize 0 expansion.output window)
    (resolves : Resolves multiplier reader)
    (few : expansion.output.length + (left + 1) < 2 ^ 32)
    (numToCopy token : Nat)
    (br : BitReader) :
    Agree (SameAnswer multiplier left)
      ((reader.withWindow window expansion.output.length numToCopy
          copyPos).startCopy token br)
      (reader.readCopy token br >>= expansion.perform multiplier) := by
  unfold ANSSymbolReader.startCopy ANSSymbolReader.readCopy
  rw [bind_assoc]
  apply Agree.bind_same
  rintro ⟨lengthBits, afterLength⟩ _
  dsimp only
  rw [bind_assoc]
  apply Agree.bind_same
  intro length isLength
  have enough : reader.lz77MinLength ≤ length := by
    have added := (addU_eq_ok isLength).1
    have minLength :
        (reader.withWindow window expansion.output.length numToCopy
          copyPos).lz77MinLength = reader.lz77MinLength :=
      rfl
    omega
  rw [bind_assoc]
  refine (readSymbolWithoutRefill_withWindow reader window
    expansion.output.length length copyPos _ _).bind ?_
  rintro ⟨dToken, copier, afterToken⟩ ⟨sameToken, other, sameBits⟩
    ⟨rfl, rfl, isCopier, onlyState⟩
  dsimp only at isCopier onlyState ⊢
  subst isCopier
  have stillResolves := resolves.withState onlyState
  rw [bind_assoc]
  apply Agree.bind_same
  intro config _
  rw [bind_assoc]
  apply Agree.bind_same
  rintro ⟨distanceCode, afterCode⟩ _
  dsimp only [Expansion.perform]
  rw [copyDistance_eq stillResolves, pure_eq_ok, ok_bind]
  dsimp only [Expansion.perform]
  rw [bind_assoc]
  apply Agree.bind_same
  intro distance isDistance
  have sameMinLength : other.lz77MinLength = reader.lz77MinLength := by
    rw [onlyState]
  have started :=
    @startValue_agree _ _ _ _ left afterCode length _ holds stillResolves
      (commandDistance_pos isDistance) few
  -- The check for a length that wrapped around never holds.
  have notShort : ¬ length < other.lz77MinLength := by
    omega
  rw [pure_eq_ok, ok_bind]
  by_cases noDistance : min (min distance expansion.output.length) windowSize = 0
  · rw [if_pos noDistance] at started ⊢
    simp only [withWindow, pure_eq_ok, ok_bind, if_neg notShort] at started ⊢
    exact started
  · rw [if_neg noDistance] at started ⊢
    simp only [withWindow, pure_eq_ok, ok_bind, if_neg notShort] at started ⊢
    exact started

/-- A call on the reader answers what the expansion answers. -/
theorem nextClustered_agree
    {state : ANSSymbolReader × BitReader}
    {expansion : Expansion}
    (ctx : Nat)
    (mirroring : Mirroring multiplier (left + 1) state expansion) :
    Agree (SameAnswer multiplier left) (nextClustered state ctx)
      (expansion.next multiplier ctx) := by
  obtain ⟨few, window, copyPos, mirrors⟩ := mirroring
  have sameReader := mirrors.sameReader
  have sameBits := mirrors.sameBits
  have samePending : state.1.numToCopy = expansion.pending := by
    rw [sameReader]
    rfl
  unfold nextClustered Expansion.next ANSSymbolReader.readHybridUintClustered
  rw [samePending]
  by_cases pending : 0 < expansion.pending
  · rw [if_pos ⟨rfl, pending⟩, if_pos pending]
    exact mirrors.repeatValue pending few
  have idle : expansion.pending = 0 := by
    omega
  rw [if_neg (fun copying => pending copying.2), if_neg pending, sameReader,
    sameBits]
  unfold ANSSymbolReader.readCommand
  rw [bind_assoc]
  refine (readSymbolWithoutRefill_withWindow expansion.reader window
    expansion.output.length expansion.pending copyPos ctx _).bind ?_
  rintro ⟨token, reader, afterToken⟩ ⟨sameToken, other, sameBits⟩
    ⟨rfl, rfl, isReader, onlyState⟩
  dsimp only at isReader onlyState ⊢
  subst isReader
  have resolves := mirrors.resolves.withState onlyState
  by_cases isCopy : other.lz77Threshold ≤ token
  · rw [if_pos ⟨rfl, isCopy⟩, if_pos isCopy]
    exact startCopy_agree mirrors.holds resolves few _ _ _
  · rw [if_neg (fun copying => isCopy copying.2), if_neg isCopy, bind_assoc]
    apply Agree.bind_same
    intro config _
    rw [bind_assoc]
    apply Agree.bind_same
    rintro ⟨value, after⟩ _
    obtain ⟨windowAfter, mirrorsAfter⟩ :=
      @Mirrors.recordValue multiplier expansion copyPos window other
        mirrors.holds resolves idle (by omega) after value
    refine .ok ⟨rfl, ?_, windowAfter, copyPos, mirrorsAfter⟩
    simp only [List.length_append, List.length_singleton]
    omega

/--
Every run of fewer than 2^32 calls on a reader with LZ77 returns the values of
the expansion over an unbounded list, or stops where the expansion stops.
-/
theorem nextClustered_expands
    {code : ANSCode}
    {br start : BitReader}
    {multiplier : Nat}
    {reader : ANSSymbolReader}
    (enabled : code.lz77.enabled = true)
    (created : ANSSymbolReader.create code br multiplier = .ok (reader, start))
    (calls : List Nat)
    (few : calls.length < 2 ^ 32) :
    (Except.answers nextClustered (reader, start) calls).map Prod.fst =
      (Except.answers (Expansion.next multiplier) { reader, br := start }
        calls).map Prod.fst := by
  obtain ⟨sameReader, resolves⟩ := create_lz77 enabled created
  have mirrors :
      Mirrors multiplier { reader, br := start } (reader, start)
        (List.replicate windowSize 0) 0 := by
    refine ⟨rfl, sameReader, holds_replicate windowSize 0, ?_, resolves⟩
    intro pending
    cases pending
  have agree :=
    Except.answers_agree
      (fun left state expansion ctx mirroring =>
        @nextClustered_agree multiplier left state expansion ctx mirroring)
      ⟨by simpa using few, _, _, mirrors⟩
  generalize
    Except.answers nextClustered (reader, start) calls = given at agree ⊢
  generalize
    Except.answers (Expansion.next multiplier) { reader, br := start } calls =
      expected at agree ⊢
  cases agree with
  | ok same =>
      exact congrArg Except.ok same.1
  | error fault =>
      rfl

/-- A code whose first context copies and whose distances are all one. -/
def copyingCode : ANSCode where
  usePrefixCode := true
  degenerateSymbols := [225, 0]
  uintConfig := [HybridUintConfig.initDefault, HybridUintConfig.initDefault]
  lz77 := { enabled := true, nonserializedDistanceContext := 1 }

/-- A reader of a prefix code without a distance multiplier can be created. -/
theorem create_of_prefix
    {code : ANSCode}
    (isPrefix : code.usePrefixCode = true)
    (br : BitReader) :
    ∃ reader, ANSSymbolReader.create code br 0 = .ok (reader, br) := by
  have inRange : castI32 ((0 : Nat) : Int) = .ok 0 := by
    decide
  unfold ANSSymbolReader.create
  simp only [isPrefix, if_true, inRange, ok_bind, pure_eq_ok, List.range_zero,
    List.mapM_nil]
  split
  · exact ⟨_, rfl⟩
  · exact ⟨_, rfl⟩

/-- Six calls on a code that starts to copy before it has produced a value. -/
theorem nextClustered_expands_copying :
    ∃ reader start,
      ANSSymbolReader.create copyingCode (BitReader.init []) 0 =
          .ok (reader, start) ∧
        (Except.answers nextClustered (reader, start)
            [0, 0, 0, 0, 1, 0]).map Prod.fst =
          (Except.answers (Expansion.next 0) { reader, br := start }
            [0, 0, 0, 0, 1, 0]).map Prod.fst := by
  obtain ⟨reader, isCreated⟩ :=
    create_of_prefix (show copyingCode.usePrefixCode = true from rfl)
      (BitReader.init [])
  exact ⟨reader, _, isCreated,
    nextClustered_expands rfl isCreated [0, 0, 0, 0, 1, 0] (by decide)⟩

end Jxlz
