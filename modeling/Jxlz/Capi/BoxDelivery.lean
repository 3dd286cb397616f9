import Jxlz.Capi.BoxIntact
import Jxlz.Lib.Meets

namespace Jxlz.Capi

open Container Delivery

/-!
# Delivery of box contents

The buffers of a client receive the contents of the boxes exactly as long as no buffer
is let go with room left in it, and no call goes on without a buffer for bytes that
are left or with one that is used already.
-/

namespace BoxOutput

/-- A call goes through, and leaves the boxes intact and the set buffer undisturbed. -/
def Delivers
    (decompress : List UInt8 → Except JxlError (List UInt8))
    (boxes : List Box)
    (run : Run)
    (call : Call) :
    Prop :=
  ∃ next,
    step decompress run call = .ok next ∧
      Intact decompress boxes next.impl ∧ Undisturbed run.impl next.impl

/--
The client keeps a buffer for the bytes that are left, and no buffer is let go with room
left in it: the end of the box is reported while the buffer is set, or nothing is left
of the buffer there.
-/
structure BufferFits
    (impl : BoxOutput)
    (contents : List UInt8) :
    Prop where
  isSet :
    impl.box_bytes_emitted < contents.length →
      impl.box_buffer ≠ none ∧ impl.box_buffer_written = 0
  noRoom :
    impl.box_buffer ≠ none →
      (impl.subscribes JXL_DEC_BOX_COMPLETE = true ∧
          impl.box_complete_emitted = false) ∨
        (impl.box_buffer_size - impl.box_buffer_written ≤
          contents.length - impl.box_bytes_emitted)

/-- The buffer fits in a call that comes to the contents of a box. -/
def Fits
    (run : Run) :
    Call → Prop
  | .processInput outside =>
      outside.parsed = .success →
        run.impl.subscribes JXL_DEC_BOX = true →
        run.impl.box_header_emitted = true →
        ∀ box,
          run.impl.currentBox = some box →
          BufferFits run.impl (box.effectiveContents run.impl.decompress_boxes)
  | _ => True

section

variable {decompress : List UInt8 → Except JxlError (List UInt8)}
variable {boxes : List Box}
variable {impl next : BoxOutput}
variable {box : Box}
variable {owned : OwnedBox}

/-! ## Emitting the contents -/

/-- The decoder behind a round. -/
def after :
    BoxOutput ⊕ (JxlDecoderStatus × BoxOutput) → BoxOutput
  | .inl next => next
  | .inr (_, next) => next

/-- The contents of the box that the decoder is at, whose header was reported. -/
structure AtContents
    (decompress : List UInt8 → Except JxlError (List UInt8))
    (boxes : List Box)
    (impl : BoxOutput)
    (box : Box)
    (contents : List UInt8) :
    Prop where
  coherent : Coherent decompress boxes impl
  opened : impl.box_header_emitted = true
  isBox : boxes[impl.box_index]? = some box
  isContents : boxContents decompress impl.decompress_boxes box = .ok contents
  inside : impl.box_bytes_emitted ≤ contents.length
  left :
    impl.box_bytes_emitted < contents.length →
      impl.box_complete_emitted = false ∧
        (impl.box_buffer_written = 0 ∨ impl.box_buffer_written = impl.box_buffer_size)
  same :
    ∀ owned,
      impl.currentBox = some owned →
      owned.effectiveContents impl.decompress_boxes = contents

theorem Coherent.advanced
    (coherent : Coherent decompress boxes impl) :
    Coherent decompress boxes impl.advanceCurrentBox :=
  { count := coherent.count
    same := coherent.same
    prepared := fun impossible => absurd impossible (by simp [advanceCurrentBox])
    unopened := fun _ => ⟨rfl, rfl, rfl⟩
    size := rfl
    written := Nat.le_refl 0 }

/-- A buffer that is let go counts as a whole. -/
theorem advanceCurrentBox_delivered
    (impl : BoxOutput)
    (i : Nat) :
    impl.advanceCurrentBox.delivered i =
      impl.receivedFor i ++
        (if i = impl.box_index then impl.box_buffer.getD [] else []) := by
  unfold delivered receivedFor advanceCurrentBox
  dsimp only
  cases impl.box_buffer with
  | none => simp
  | some memory =>
      simp only [Option.toList_some, List.map_cons, List.map_nil, Option.getD_some]
      rw [flatMap_filter_append]
      simp

variable {contents : List UInt8}

/-- Behind a box that was delivered as a whole, the next one starts. -/
theorem Intact.advanced
    (intact : Intact decompress boxes impl)
    (here : AtContents decompress boxes impl box contents)
    (whole : impl.receivedFor impl.box_index ++ impl.box_buffer.getD [] = contents) :
    Intact decompress boxes impl.advanceCurrentBox := by
  have elsewhere (i : Nat) (other : i ≠ impl.box_index) :
      impl.advanceCurrentBox.delivered i = impl.delivered i := by
    rw [advanceCurrentBox_delivered, if_neg other]
    unfold delivered
    rw [if_neg other]
  refine ⟨?_, ?_, ?_⟩
  · intro i other before isOther
    rcases Nat.lt_succ_iff_lt_or_eq.1 before with earlier | isIndex
    · rw [elsewhere i earlier.ne]
      exact intact.passed i other earlier isOther
    · rw [isIndex] at isOther ⊢
      cases here.isBox.symm.trans isOther
      rw [advanceCurrentBox_delivered, if_pos rfl, whole]
      exact here.isContents
  · intro other impossible
    cases impossible
  · intro i behind _
    have later : impl.box_index < i := behind
    rw [elsewhere i later.ne']
    exact intact.ahead i later.le fun isIndex => absurd isIndex later.ne'

/-- What was delivered of the box so far. -/
theorem Intact.emitted
    (intact : Intact decompress boxes impl)
    (here : AtContents decompress boxes impl box contents) :
    impl.receivedFor impl.box_index ++
        (impl.box_buffer.getD []).take impl.box_buffer_written =
      contents.take impl.box_bytes_emitted := by
  obtain ⟨other, isOther, prefixed⟩ := intact.current box here.opened here.isBox
  cases here.isContents.symm.trans isOther
  unfold delivered at prefixed
  rw [if_pos rfl] at prefixed
  exact prefixed

/-- The whole box is delivered exactly when the buffer that is let go is full. -/
theorem Intact.advanced_iff
    (intact : Intact decompress boxes impl)
    (here : AtContents decompress boxes impl box contents)
    (complete : impl.box_bytes_emitted = contents.length) :
    Intact decompress boxes impl.advanceCurrentBox ↔
      impl.box_buffer_size - impl.box_buffer_written = 0 := by
  have emitted := intact.emitted here
  rw [complete, List.take_length] at emitted
  have size := here.coherent.size
  have written := here.coherent.written
  constructor
  · intro advanced
    have passed := advanced.passed impl.box_index box (Nat.lt_succ_self _) here.isBox
    rw [advanceCurrentBox_delivered, if_pos rfl] at passed
    cases here.isContents.symm.trans passed
    have lengths := congrArg List.length emitted
    rw [List.length_append, List.length_append, List.length_take, size] at lengths
    omega
  · intro isFull
    refine intact.advanced here ?_
    rw [← emitted, List.take_of_length_le (by omega)]

/-- Behind the contents, the event is reported or the next box starts. -/
theorem finishBox_kept
    (here : AtContents decompress boxes impl box contents)
    (complete : impl.box_bytes_emitted = contents.length) :
    Coherent decompress boxes (after impl.finishBox) ∧
      (∀ next, impl.finishBox = .inl next → next.box_header_emitted = false) ∧
      Undisturbed impl (after impl.finishBox) := by
  unfold finishBox
  split
  next =>
    refine ⟨?_, nofun, ?_⟩
    · refine ⟨here.coherent.count, here.coherent.same, ?_, ?_, here.coherent.size,
        here.coherent.written⟩
      · intro opened other owned isOther isOwned
        obtain ⟨isContents, inside, _⟩ :=
          here.coherent.prepared opened other owned isOther isOwned
        have isWhole := here.same owned isOwned
        refine ⟨isContents, inside, fun left => ?_⟩
        have less : impl.box_bytes_emitted < contents.length := isWhole ▸ left
        omega
      · intro closed
        have opened := here.opened
        rw [show impl.box_header_emitted = false from closed] at opened
        cases opened
    · intro memory other isMemory isOther
      cases isMemory.symm.trans isOther
      rfl
  next =>
    refine ⟨here.coherent.advanced, ?_, ?_⟩
    · intro next isNext
      cases isNext
      rfl
    · intro memory other _ impossible
      cases impossible

/-- The box is left intact with a full buffer or after its event. -/
theorem finishBox_iff
    (intact : Intact decompress boxes impl)
    (here : AtContents decompress boxes impl box contents)
    (complete : impl.box_bytes_emitted = contents.length) :
    Intact decompress boxes (after impl.finishBox) ↔
      (impl.box_buffer ≠ none →
        (impl.subscribes JXL_DEC_BOX_COMPLETE = true ∧
            impl.box_complete_emitted = false) ∨
          impl.box_buffer_size - impl.box_buffer_written = 0) := by
  unfold finishBox
  split
  next reports =>
    obtain ⟨isSet, subscribed, notYet⟩ := reports
    refine ⟨fun _ _ => .inl ⟨subscribed, by simpa using notYet⟩, fun _ => ?_⟩
    exact intact.congr rfl rfl rfl (.inl rfl) (delivered_congr rfl rfl rfl rfl)
  next silent =>
    rw [after, intact.advanced_iff here complete]
    constructor
    · exact fun isFull _ => .inr isFull
    · intro noRoom
      cases isBuffer : impl.box_buffer with
      | none =>
          have size := here.coherent.size
          rw [isBuffer] at size
          rw [← size]
          exact Nat.zero_sub _
      | some memory =>
          have isSet : impl.box_buffer ≠ none := by
            rw [isBuffer]
            simp
          rcases noRoom isSet with ⟨subscribed, notYet⟩ | isFull
          · exact absurd ⟨isSet, subscribed, by simp [notYet]⟩ silent
          · exact isFull

/-- How much of the contents fits into the buffer. -/
def fitting
    (impl : BoxOutput)
    (contents : List UInt8) :
    Nat :=
  min (contents.length - impl.box_bytes_emitted) impl.box_buffer_size

/-- The decoder after a copy into the set buffer. -/
def copied
    (impl : BoxOutput)
    (contents memory : List UInt8) :
    BoxOutput :=
  { impl with
    box_buffer := some
      (overwrite memory 0
        (part contents impl.box_bytes_emitted (impl.fitting contents)))
    box_bytes_emitted := impl.box_bytes_emitted + impl.fitting contents
    box_buffer_written := impl.fitting contents }

section

variable {contents memory : List UInt8}

theorem length_fitting
    (inside : impl.box_bytes_emitted ≤ contents.length) :
    (part contents impl.box_bytes_emitted (impl.fitting contents)).length =
      impl.fitting contents := by
  refine length_part ?_
  have least : impl.fitting contents ≤ contents.length - impl.box_bytes_emitted :=
    Nat.min_le_left _ _
  omega

theorem copyContents_ok
    (inside : impl.box_bytes_emitted ≤ contents.length)
    (size : memory.length = impl.box_buffer_size) :
    copyContents contents memory impl = .ok (impl.copied contents memory) := by
  have room : impl.fitting contents ≤ impl.box_buffer_size := Nat.min_le_right _ _
  have least : impl.fitting contents ≤ contents.length - impl.box_bytes_emitted :=
    Nat.min_le_left _ _
  unfold copyContents
  rw [subU_ok inside, ok_bind]
  dsimp only
  unfold fitting at room least
  rw [require_ok (size ▸ room), ok_bind]
  unfold slice
  rw [if_pos (by omega), Nat.add_sub_cancel_left]
  rfl

/-- The copy goes behind what was emitted before. -/
theorem AtContents.copied
    (here : AtContents decompress boxes impl box contents)
    (isBuffer : impl.box_buffer = some memory)
    (isLeft : impl.box_bytes_emitted < contents.length) :
    AtContents decompress boxes (impl.copied contents memory) box contents := by
  have size := here.coherent.size
  rw [isBuffer, Option.getD_some] at size
  have room : impl.fitting contents ≤ impl.box_buffer_size := Nat.min_le_right _ _
  have least : impl.fitting contents ≤ contents.length - impl.box_bytes_emitted :=
    Nat.min_le_left _ _
  have stillLeft
      (isLeft :
        impl.box_bytes_emitted + impl.fitting contents < contents.length) :
      impl.fitting contents = impl.box_buffer_size := by
    unfold fitting at isLeft ⊢
    omega
  have inside :
      (impl.copied contents memory).box_bytes_emitted ≤ contents.length := by
    show impl.box_bytes_emitted + impl.fitting contents ≤ contents.length
    omega
  have left :
      (impl.copied contents memory).box_bytes_emitted < contents.length →
        (impl.copied contents memory).box_complete_emitted = false ∧
          ((impl.copied contents memory).box_buffer_written = 0 ∨
            (impl.copied contents memory).box_buffer_written =
              (impl.copied contents memory).box_buffer_size) :=
    fun more => ⟨(here.left isLeft).1, .inr (stillLeft more)⟩
  refine ⟨⟨here.coherent.count, here.coherent.same, ?_, ?_, ?_, room⟩, here.opened,
    here.isBox, here.isContents, inside, left, here.same⟩
  · intro _ other owned isOther isOwned
    cases here.isBox.symm.trans isOther
    have isWhole : owned.effectiveContents impl.decompress_boxes = contents :=
      here.same owned isOwned
    refine ⟨here.isContents.trans (congrArg Except.ok isWhole.symm), ?_, ?_⟩
    · exact inside.trans (Nat.le_of_eq (congrArg List.length isWhole.symm))
    · intro more
      exact left (more.trans_le (Nat.le_of_eq (congrArg List.length isWhole)))
  · intro closed
    have opened := here.opened
    rw [show impl.box_header_emitted = false from closed] at opened
    cases opened
  · show (overwrite memory 0 _).length = impl.box_buffer_size
    rw [length_overwrite, size]
    rw [length_fitting here.inside]
    omega

/-- What a fresh buffer receives is delivered behind the bytes before it. -/
theorem Intact.copied
    (intact : Intact decompress boxes impl)
    (here : AtContents decompress boxes impl box contents)
    (isBuffer : impl.box_buffer = some memory)
    (fresh : impl.box_buffer_written = 0) :
    Intact decompress boxes (impl.copied contents memory) := by
  have emitted := intact.emitted here
  rw [fresh, List.take_zero, List.append_nil] at emitted
  have size := here.coherent.size
  rw [isBuffer, Option.getD_some] at size
  have room : impl.fitting contents ≤ impl.box_buffer_size := Nat.min_le_right _ _
  have elsewhere (i : Nat) (other : i ≠ impl.box_index) :
      (impl.copied contents memory).delivered i = impl.delivered i := by
    have other' : i ≠ (impl.copied contents memory).box_index := other
    unfold delivered
    rw [if_neg other, if_neg other']
    rfl
  refine ⟨?_, ?_, ?_⟩
  · intro i other before isOther
    rw [elsewhere i (Nat.ne_of_lt before)]
    exact intact.passed i other before isOther
  · intro other _ isOther
    cases here.isBox.symm.trans isOther
    refine ⟨contents, here.isContents, ?_⟩
    have length := length_fitting here.inside
    have copies :
        (overwrite memory 0
            (part contents impl.box_bytes_emitted (impl.fitting contents))).take
            (impl.fitting contents) =
          part contents impl.box_bytes_emitted (impl.fitting contents) := by
      have front :=
        @take_overwrite _ memory
          (part contents impl.box_bytes_emitted (impl.fitting contents)) 0 (by omega)
      rw [length, Nat.zero_add, List.take_zero, List.nil_append] at front
      exact front
    unfold delivered
    rw [if_pos rfl]
    show impl.receivedFor impl.box_index ++
        (overwrite memory 0 _).take (impl.fitting contents) = _
    rw [copies, emitted]
    exact take_append_part _ _ _
  · intro i behind closed
    have other : i ≠ impl.box_index := by
      intro isIndex
      have wasClosed := closed isIndex
      rw [show (impl.copied contents memory).box_header_emitted =
        impl.box_header_emitted from rfl, here.opened] at wasClosed
      cases wasClosed
    rw [elsewhere i other]
    exact intact.ahead i behind fun isIndex => absurd isIndex other

/-- What an intact box has of its bytes is no more than its buffers hold. -/
theorem Intact.bounded
    (intact : Intact decompress boxes (impl.copied contents memory))
    (here : AtContents decompress boxes impl box contents)
    (size : memory.length = impl.box_buffer_size) :
    impl.box_bytes_emitted + impl.fitting contents ≤
      (impl.receivedFor impl.box_index).length + memory.length := by
  have room : impl.fitting contents ≤ impl.box_buffer_size := Nat.min_le_right _ _
  have least : impl.fitting contents ≤ contents.length - impl.box_bytes_emitted :=
    Nat.min_le_left _ _
  have inside := here.inside
  obtain ⟨other, isOther, prefixed⟩ := intact.current box here.opened here.isBox
  cases here.isContents.symm.trans isOther
  have lengths := congrArg List.length prefixed
  unfold delivered at lengths
  rw [if_pos rfl] at lengths
  change
    (impl.receivedFor impl.box_index ++
          (overwrite memory 0 _).take (impl.fitting contents)).length =
      (contents.take (impl.box_bytes_emitted + impl.fitting contents)).length at lengths
  rw [List.length_append, List.length_take, List.length_take, length_overwrite
    (by rw [length_fitting inside]; omega)] at lengths
  omega

theorem Intact.bounded_finished
    (intact : Intact decompress boxes (after (impl.copied contents memory).finishBox))
    (here : AtContents decompress boxes impl box contents)
    (size : memory.length = impl.box_buffer_size) :
    impl.box_bytes_emitted + impl.fitting contents ≤
      (impl.receivedFor impl.box_index).length + memory.length := by
  have room : impl.fitting contents ≤ impl.box_buffer_size := Nat.min_le_right _ _
  have least : impl.fitting contents ≤ contents.length - impl.box_bytes_emitted :=
    Nat.min_le_left _ _
  have inside := here.inside
  unfold finishBox at intact
  split at intact
  next =>
    have before : Intact decompress boxes (impl.copied contents memory) :=
      intact.congr rfl rfl rfl (.inl rfl) (delivered_congr rfl rfl rfl rfl)
    exact before.bounded here size
  next =>
    have passed := intact.passed impl.box_index box (Nat.lt_succ_self _) here.isBox
    rw [after, advanceCurrentBox_delivered] at passed
    have whole := Except.ok.inj (here.isContents.symm.trans passed)
    have lengths := congrArg List.length whole
    change
      contents.length =
        (impl.receivedFor impl.box_index ++
          (if impl.box_index = impl.box_index then overwrite memory 0 _ else [])).length
      at lengths
    rw [if_pos rfl, List.length_append, length_overwrite
      (by rw [length_fitting inside]; omega)] at lengths
    omega

/-- A buffer that is written a second time loses what it held. -/
theorem Intact.not_copied
    (intact : Intact decompress boxes impl)
    (here : AtContents decompress boxes impl box contents)
    (isBuffer : impl.box_buffer = some memory)
    (isLeft : impl.box_bytes_emitted < contents.length)
    (used : impl.box_buffer_written ≠ 0) :
    (impl.receivedFor impl.box_index).length + memory.length <
      impl.box_bytes_emitted + impl.fitting contents := by
  have emitted := congrArg List.length (intact.emitted here)
  have size := here.coherent.size
  rw [isBuffer, Option.getD_some] at size
  have isFull := (here.left isLeft).2.resolve_left used
  rw [isBuffer, Option.getD_some, List.length_append, List.length_take, List.length_take]
    at emitted
  unfold fitting
  omega

end

/-- A round at the contents of a box delivers exactly when the buffer fits. -/
theorem emitBox_iff
    (intact : Intact decompress boxes impl)
    (here : AtContents decompress boxes impl box contents) :
    ∃ outcome,
      emitBox contents impl = .ok outcome ∧
        Coherent decompress boxes (after outcome) ∧
        (∀ next, outcome = .inl next → next.box_header_emitted = false) ∧
        (Intact decompress boxes (after outcome) ∧ Undisturbed impl (after outcome) ↔
          BufferFits impl contents) := by
  unfold emitBox
  by_cases isLeft : impl.box_bytes_emitted < contents.length
  · rw [if_pos isLeft]
    cases isBuffer : impl.box_buffer with
    | none =>
        refine ⟨_, rfl, here.coherent.advanced, ?_, ?_⟩
        · intro next isNext
          cases isNext
          rfl
        constructor
        · rintro ⟨advanced, _⟩
          have passed := advanced.passed impl.box_index box (Nat.lt_succ_self _) here.isBox
          rw [after, advanceCurrentBox_delivered, if_pos rfl] at passed
          cases here.isContents.symm.trans passed
          have emitted := congrArg List.length (intact.emitted here)
          rw [isBuffer, Option.getD_none, List.take_nil, List.length_append,
            List.length_take] at emitted
          rw [isBuffer, Option.getD_none, List.length_append] at isLeft
          omega
        · intro fits
          exact absurd isBuffer (fits.isSet isLeft).1
    | some memory =>
        have size := here.coherent.size
        rw [isBuffer, Option.getD_some] at size
        have isSet : impl.box_buffer ≠ none := by
          rw [isBuffer]
          simp
        dsimp only
        rw [copyContents_ok here.inside size, ok_bind]
        have here' := here.copied isBuffer isLeft
        by_cases fresh : impl.box_buffer_written = 0
        · have intact' := intact.copied here isBuffer fresh
          have undisturbed (next : BoxOutput) : Undisturbed impl next := by
            intro _ _ _ _
            rw [fresh, List.take_zero, List.take_zero]
          by_cases more :
              (impl.copied contents memory).box_bytes_emitted < contents.length
          · rw [if_pos more]
            refine ⟨_, rfl, here'.coherent, nofun, ?_⟩
            refine ⟨fun _ => ⟨fun _ => ⟨isSet, fresh⟩, fun _ => .inr ?_⟩, fun _ =>
              ⟨intact', undisturbed _⟩⟩
            have less : impl.box_bytes_emitted + impl.fitting contents < contents.length :=
              more
            unfold fitting at less
            omega
          · rw [if_neg more]
            have complete :
                (impl.copied contents memory).box_bytes_emitted = contents.length :=
              Nat.le_antisymm here'.inside (Nat.le_of_not_lt more)
            obtain ⟨coherent, closed, _⟩ := finishBox_kept here' complete
            refine ⟨_, rfl, coherent, closed, ?_⟩
            rw [finishBox_iff intact' here' complete]
            have whole : impl.box_bytes_emitted + impl.fitting contents = contents.length :=
              complete
            have room :
                impl.box_buffer_size - impl.fitting contents = 0 ↔
                  impl.box_buffer_size - impl.box_buffer_written ≤
                    contents.length - impl.box_bytes_emitted := by
              rw [fresh]
              omega
            constructor
            · rintro ⟨noRoom, _⟩
              exact ⟨fun _ => ⟨isSet, fresh⟩, fun _ =>
                (noRoom (Option.some_ne_none _)).imp id room.1⟩
            · intro fits
              exact ⟨fun _ => (fits.noRoom isSet).imp id room.2, undisturbed _⟩
        · have lost := intact.not_copied here isBuffer isLeft fresh
          have spoiled (next : BoxOutput) (isSpoiled : ¬Intact decompress boxes next) :
              Intact decompress boxes next ∧ Undisturbed impl next ↔
                BufferFits impl contents :=
            ⟨fun both => absurd both.1 isSpoiled, fun fits =>
              absurd (fits.isSet isLeft).2 fresh⟩
          by_cases more :
              (impl.copied contents memory).box_bytes_emitted < contents.length
          · rw [if_pos more]
            refine ⟨_, rfl, here'.coherent, nofun, spoiled _ fun isIntact => ?_⟩
            exact absurd (isIntact.bounded here size) (Nat.not_le_of_lt lost)
          · rw [if_neg more]
            have complete :
                (impl.copied contents memory).box_bytes_emitted = contents.length :=
              Nat.le_antisymm here'.inside (Nat.le_of_not_lt more)
            obtain ⟨coherent, closed, _⟩ := finishBox_kept here' complete
            refine ⟨_, rfl, coherent, closed, spoiled _ fun isIntact => ?_⟩
            exact absurd (isIntact.bounded_finished here size) (Nat.not_le_of_lt lost)
  · rw [if_neg isLeft]
    have complete : impl.box_bytes_emitted = contents.length :=
      Nat.le_antisymm here.inside (Nat.le_of_not_lt isLeft)
    obtain ⟨coherent, closed, undisturbed⟩ := finishBox_kept here complete
    refine ⟨_, rfl, coherent, closed, ?_⟩
    rw [finishBox_iff intact here complete]
    have room :
        impl.box_buffer_size - impl.box_buffer_written = 0 ↔
          impl.box_buffer_size - impl.box_buffer_written ≤
            contents.length - impl.box_bytes_emitted := by
      omega
    constructor
    · rintro ⟨noRoom, _⟩
      exact ⟨fun left => absurd left isLeft, fun isSet => (noRoom isSet).imp id room.1⟩
    · intro fits
      exact ⟨fun isSet => (fits.noRoom isSet).imp id room.2, undisturbed⟩

/-! ## Rounds and calls -/

/-- A round that neither delivers nor spoils anything. -/
structure Quiet
    (decompress : List UInt8 → Except JxlError (List UInt8))
    (boxes : List Box)
    (impl next : BoxOutput) :
    Prop where
  coherent : Coherent decompress boxes next
  intact : Intact decompress boxes next ↔ Intact decompress boxes impl
  buffer : next.box_buffer = impl.box_buffer
  written : next.box_buffer_written = impl.box_buffer_written

theorem Coherent.quiet
    (coherent : Coherent decompress boxes impl) :
    Quiet decompress boxes impl impl :=
  ⟨coherent, Iff.rfl, rfl, rfl⟩

theorem Quiet.undisturbed
    (quiet : Quiet decompress boxes impl next) :
    Undisturbed impl next := by
  intro memory other isMemory isOther
  rw [quiet.buffer, isMemory] at isOther
  cases isOther
  rfl

/-- A call comes to the contents of a box. -/
def ComesTo
    (impl : BoxOutput)
    (outside : Outside)
    (owned : OwnedBox) :
    Prop :=
  outside.parsed = .success ∧
    impl.subscribes JXL_DEC_BOX = true ∧
    impl.box_header_emitted = true ∧ impl.currentBox = some owned

/-- A box of the decoder is a box of the file. -/
theorem Coherent.exists_box
    (coherent : Coherent decompress boxes impl)
    (isOwned : impl.currentBox = some owned) :
    ∃ box, boxes[impl.box_index]? = some box := by
  obtain ⟨inside, _⟩ := List.getElem?_eq_some_iff.1 isOwned
  rw [coherent.count] at inside
  exact ⟨_, List.getElem?_eq_getElem inside⟩

/-- The header of a box is reported before anything of it is delivered. -/
theorem Coherent.opens
    (coherent : Coherent decompress boxes impl)
    (closed : impl.box_header_emitted = false)
    (isBox : boxes[impl.box_index]? = some box)
    (isOwned : impl.currentBox = some owned)
    (ready : OwnedBox)
    (prepares : Prepares decompress box ready)
    (isContents :
      boxContents decompress impl.decompress_boxes box =
        .ok (ready.effectiveContents impl.decompress_boxes)) :
    Quiet decompress boxes impl
      { impl.withBox ready with box_header_emitted := true } := by
  obtain ⟨start, unwritten, incomplete⟩ := coherent.unopened closed
  have kept := coherent.withBox isBox isOwned ready prepares isContents
  refine ⟨⟨kept.count, kept.same, ?_, nofun, kept.size, kept.written⟩, ?_, rfl, rfl⟩
  · intro _ other held isOther isHeld
    have isReady : held = ready :=
      Option.some.inj (isHeld.symm.trans (withBox_currentBox isOwned ready))
    cases isBox.symm.trans isOther
    rw [isReady]
    refine ⟨isContents, ?_, fun _ => ⟨incomplete, .inl unwritten⟩⟩
    exact (Nat.le_of_eq start).trans (Nat.zero_le _)
  · constructor
    · intro intact
      refine ⟨?_, ?_, ?_⟩
      · exact intact.passed
      · intro other opened
        rw [closed] at opened
        cases opened
      · intro i behind _
        rcases Nat.eq_or_lt_of_le behind with isIndex | later
        · obtain ⟨contents, _, prefixed⟩ := intact.current box rfl isBox
          rw [← isIndex]
          change impl.delivered impl.box_index = contents.take impl.box_bytes_emitted
            at prefixed
          rw [start, List.take_zero] at prefixed
          exact prefixed
        · exact intact.ahead i behind fun isIndex => absurd isIndex later.ne'
    · intro intact
      refine intact.congr rfl rfl rfl (.inr ⟨rfl, start, closed, ?_⟩)
        (delivered_congr rfl rfl rfl rfl)
      intro other isOther
      cases isBox.symm.trans isOther
      exact ⟨_, isContents⟩

/-- A round comes to the contents of a box, or ends quietly. -/
theorem boxRound_cases
    (coherent : Coherent decompress boxes impl)
    (outside : Outside) :
    (∃ status next,
      boxRound decompress outside impl = .ok (.inr (status, next)) ∧
        Quiet decompress boxes impl next ∧ ∀ owned, ¬ComesTo impl outside owned) ∨
      ∃ box owned ready,
        ComesTo impl outside owned ∧
          AtContents decompress boxes (impl.withBox ready) box
              (owned.effectiveContents impl.decompress_boxes) ∧
          boxRound decompress outside impl =
            emitBox (owned.effectiveContents impl.decompress_boxes)
              (impl.withBox ready) := by
  unfold boxRound
  by_cases parsed : outside.parsed = .success
  swap
  · rw [if_pos parsed]
    exact .inl ⟨_, _, rfl, coherent.quiet, fun _ comes => parsed comes.1⟩
  rw [if_neg (not_not.2 parsed)]
  by_cases subscribed : impl.subscribes JXL_DEC_BOX = true
  swap
  · rw [if_pos subscribed]
    exact .inl ⟨_, _, rfl, coherent.quiet, fun _ comes => subscribed comes.2.1⟩
  rw [if_neg (not_not.2 subscribed)]
  cases isOwned : impl.currentBox with
  | none =>
      refine .inl ⟨_, _, rfl, coherent.quiet, fun _ comes => ?_⟩
      have isSome := comes.2.2.2
      rw [isOwned] at isSome
      cases isSome
  | some owned =>
      obtain ⟨box, isBox⟩ := coherent.exists_box isOwned
      dsimp only
      rcases coherent.ensurePrepared isBox isOwned with
        ⟨code, failed, noContents⟩ | ⟨ready, made, prepares, isContents⟩
      · rw [failed]
        refine .inl ⟨_, _, rfl, coherent.quiet, fun _ comes => ?_⟩
        have readable := (coherent.prepared comes.2.2.1 box owned isBox isOwned).1
        rw [noContents] at readable
        cases readable
      · rw [made]
        dsimp only
        by_cases opened : impl.box_header_emitted = true
        · right
          obtain ⟨isEffective, inside, left⟩ :=
            coherent.prepared opened box owned isBox isOwned
          have same :
              ready.effectiveContents impl.decompress_boxes =
                owned.effectiveContents impl.decompress_boxes :=
            Except.ok.inj (isContents.symm.trans isEffective)
          refine ⟨box, owned, ready, ⟨parsed, subscribed, opened, isOwned⟩, ?_, ?_⟩
          · refine ⟨coherent.withBox isBox isOwned ready prepares isContents, opened, isBox,
              isEffective, inside, left, ?_⟩
            intro held isHeld
            rw [withBox_currentBox isOwned] at isHeld
            cases isHeld
            exact same
          · have opened' : (impl.withBox ready).box_header_emitted = true := opened
            rw [if_neg (not_not.2 opened'), withBox_currentBox isOwned]
            exact congrArg (emitBox · _) same
        · have closed := Bool.eq_false_iff.2 opened
          have closed' : ¬(impl.withBox ready).box_header_emitted = true := opened
          rw [if_pos closed']
          exact .inl ⟨_, _, rfl,
            coherent.opens closed isBox isOwned ready prepares isContents,
            fun _ comes => opened comes.2.2.1⟩

/-- A call delivers exactly when the buffer fits, and goes through in any case. -/
theorem processInput_iff
    (coherent : Coherent decompress boxes impl)
    (intact : Intact decompress boxes impl)
    (outside : Outside) :
    ∃ status next,
      processInput decompress outside impl = .ok (status, next) ∧
        Coherent decompress boxes next ∧
        (Intact decompress boxes next ∧ Undisturbed impl next ↔
          ∀ owned,
            ComesTo impl outside owned →
            BufferFits impl (owned.effectiveContents impl.decompress_boxes)) := by
  unfold processInput
  rw [FuelLoop.run]
  rcases boxRound_cases coherent outside with
    ⟨status, next, isRound, quiet, never⟩ | ⟨box, owned, ready, comes, here, isRound⟩
  · rw [isRound]
    refine ⟨status, next, rfl, quiet.coherent, ?_⟩
    exact ⟨fun _ owned comes => absurd comes (never owned),
      fun _ => ⟨quiet.intact.2 intact, quiet.undisturbed⟩⟩
  · have isIntact : Intact decompress boxes (impl.withBox ready) :=
      intact.congr rfl rfl rfl (.inl rfl) (delivered_congr rfl rfl rfl rfl)
    obtain ⟨outcome, emitted, coherent', closed, iff⟩ := emitBox_iff isIntact here
    have fits :
        BufferFits (impl.withBox ready) (owned.effectiveContents impl.decompress_boxes) ↔
          ∀ other,
            ComesTo impl outside other →
            BufferFits impl (other.effectiveContents impl.decompress_boxes) := by
      constructor
      · intro fits other comes'
        cases comes.2.2.2.symm.trans comes'.2.2.2
        exact ⟨fits.isSet, fits.noRoom⟩
      · intro always
        exact ⟨(always owned comes).isSet, (always owned comes).noRoom⟩
    rw [isRound, emitted]
    cases outcome with
    | inr ended => exact ⟨ended.1, ended.2, rfl, coherent', iff.trans fits⟩
    | inl next =>
        dsimp only
        rw [FuelLoop.run]
        rcases boxRound_cases coherent' outside with
          ⟨status, last, isLast, quiet, _⟩ | ⟨_, _, _, impossible, _⟩
        · rw [after] at isLast quiet
          rw [isLast]
          refine ⟨status, last, rfl, quiet.coherent, ?_⟩
          rw [← fits, ← iff, quiet.intact]
          refine and_congr_right fun _ => ?_
          unfold Undisturbed
          rw [quiet.buffer]
          exact Iff.rfl
        · have opened := impossible.2.2.1
          rw [after, closed next rfl] at opened
          cases opened

/-- A call goes through, and delivers exactly when the buffer fits. -/
theorem step_iff
    {run : Run}
    (coherent : Coherent decompress boxes run.impl)
    (intact : Intact decompress boxes run.impl)
    (call : Call) :
    (Delivers decompress boxes run call ↔ Fits run call) ∧
      ∀ next,
        step decompress run call = .ok next → Coherent decompress boxes next.impl := by
  cases call with
  | setBoxBuffer buffer =>
      obtain ⟨coherent', intact', undisturbed⟩ := setBoxBuffer_kept coherent intact buffer
      refine ⟨⟨fun _ => trivial, fun _ => ⟨_, rfl, intact', undisturbed⟩⟩, ?_⟩
      intro next isNext
      cases isNext
      exact coherent'
  | releaseBoxBuffer =>
      obtain ⟨remaining, released, isReleased, coherent', intact', undisturbed⟩ :=
        releaseBoxBuffer_kept coherent intact
      have stepped :
          step decompress run .releaseBoxBuffer = .ok { run with impl := released } := by
        unfold step
        dsimp only
        rw [isReleased]
        rfl
      refine ⟨⟨fun _ => trivial, fun _ => ⟨_, stepped, intact', undisturbed⟩⟩, ?_⟩
      intro next isNext
      cases stepped.symm.trans isNext
      exact coherent'
  | processInput outside =>
      obtain ⟨status, after, processed, coherent', iff⟩ :=
        processInput_iff coherent intact outside
      have stepped :
          step decompress run (.processInput outside) =
            .ok { impl := after, event := some status } := by
        unfold step
        dsimp only
        rw [processed]
        rfl
      have fits :
          Fits run (.processInput outside) ↔
            ∀ owned,
              ComesTo run.impl outside owned →
              BufferFits run.impl
                (owned.effectiveContents run.impl.decompress_boxes) := by
        constructor
        · intro fits owned comes
          exact fits comes.1 comes.2.1 comes.2.2.1 owned comes.2.2.2
        · intro always parsed subscribed opened owned isOwned
          exact always owned ⟨parsed, subscribed, opened, isOwned⟩
      constructor
      · rw [fits, ← iff]
        constructor
        · rintro ⟨next, isNext, both⟩
          cases stepped.symm.trans isNext
          exact both
        · exact fun both => ⟨_, stepped, both⟩
      · intro next isNext
        cases stepped.symm.trans isNext
        exact coherent'

end

/-- In front of the first call nothing is delivered. -/
theorem start_kept
    (decompress : List UInt8 → Except JxlError (List UInt8))
    (boxes : List Box)
    (subscribed_events : Nat)
    (decompress_boxes : Bool) :
    Coherent decompress boxes (start boxes subscribed_events decompress_boxes).impl ∧
      Intact decompress boxes (start boxes subscribed_events decompress_boxes).impl := by
  have nothing (i : Nat) :
      (start boxes subscribed_events decompress_boxes).impl.delivered i = [] := by
    unfold delivered receivedFor start
    simp
  refine ⟨⟨List.length_map _, ?_, nofun, fun _ => ⟨rfl, rfl, rfl⟩, rfl, Nat.le_refl 0⟩,
    ⟨?_, nofun, fun i _ _ => nothing i⟩⟩
  · intro i box owned isBox isOwned
    unfold start at isOwned
    rw [List.getElem?_map, isBox] at isOwned
    cases isOwned
    exact ⟨rfl, rfl, nofun⟩
  · intro i box before
    exact absurd before (Nat.not_lt_zero i)

/--
In a run of any calls, with buffers of any sizes, every call goes through and leaves the
contents of the boxes intact exactly when the buffer fits in each of them.
-/
theorem box_contents_intact_iff
    (decompress : List UInt8 → Except JxlError (List UInt8))
    (boxes : List Box)
    (subscribed_events : Nat)
    (decompress_boxes : Bool)
    (calls : List Call) :
    Except.Along (step decompress) (Delivers decompress boxes)
        (start boxes subscribed_events decompress_boxes) calls ↔
      Except.Along (step decompress) Fits
        (start boxes subscribed_events decompress_boxes) calls := by
  refine Except.along_congr
    (fun run => Coherent decompress boxes run.impl ∧ Intact decompress boxes run.impl)
    (start_kept decompress boxes subscribed_events decompress_boxes) ?_ ?_
  · rintro run call ⟨coherent, intact⟩
    exact (step_iff coherent intact call).1
  · rintro run call next ⟨coherent, intact⟩ ⟨other, isOther, intact', _⟩ isNext
    cases isOther.symm.trans isNext
    exact ⟨(step_iff coherent intact call).2 _ isNext, intact'⟩

/--
The client sets a buffer at every event that asks for one, and keeps only a buffer that
has room.
-/
def KeepsBuffer
    (run : Run) :
    Call → Prop
  | .processInput _ =>
      run.event = some .box ∨ run.event = some .boxNeedMoreOutput →
        run.impl.box_buffer ≠ none ∧
          (run.impl.box_buffer_written < run.impl.box_buffer_size ∨
            run.impl.box_buffer_written = 0)
  | _ => True

/-- No box is compressed. -/
def noBrotli
    (_ : List UInt8) :
    Except JxlError (List UInt8) :=
  .error .BrotliDecoderFailure

/-- A box with three bytes. -/
def threeBytes : Box :=
  { box_type := .of 'E' 'x' 'i' 'f', contents := [1, 2, 3] }

/-- A buffer with room for five bytes is let go with three in it. -/
def roomLeft : List Call :=
  [.processInput {},
    .setBoxBuffer { data := some [0, 0, 0, 0, 0], size := 5, sized := by simp },
    .processInput {}]

/--
A client that sets a buffer of five bytes for a box of three reads five bytes for it,
unless it asks for the event at the end of the box.
-/
theorem room_is_read_as_contents :
    ¬ ∀ (decompress : List UInt8 → Except JxlError (List UInt8)) (boxes : List Box)
        (subscribed_events : Nat) (decompress_boxes : Bool) (calls : List Call),
      Except.Along (step decompress) KeepsBuffer
          (start boxes subscribed_events decompress_boxes) calls →
        Except.Along (step decompress) (Delivers decompress boxes)
          (start boxes subscribed_events decompress_boxes) calls := by
  intro always
  have keeps :
      Except.Along (step noBrotli) KeepsBuffer (start [threeBytes] JXL_DEC_BOX false)
        roomLeft := by
    refine (Except.along_cons_of_ok rfl).2 ⟨by simp [KeepsBuffer, start], ?_⟩
    refine (Except.along_cons_of_ok rfl).2 ⟨trivial, ?_⟩
    exact (Except.along_cons_of_ok rfl).2 ⟨fun _ => ⟨nofun, .inr rfl⟩, trivial⟩
  have delivers := always noBrotli [threeBytes] JXL_DEC_BOX false roomLeft keeps
  have second := ((Except.along_cons_of_ok rfl).1 delivers).2
  have third := ((Except.along_cons_of_ok rfl).1 second).2
  obtain ⟨next, isNext, intact, _⟩ := ((Except.along_cons_of_ok rfl).1 third).1
  cases isNext
  have passed := intact.passed 0 threeBytes (by decide) rfl
  exact absurd passed (by decide)

end BoxOutput

end Jxlz.Capi
