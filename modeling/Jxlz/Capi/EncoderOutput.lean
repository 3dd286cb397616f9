import Jxlz.Capi.EncoderSteps

namespace Jxlz.Capi

open Container Delivery EncApi

/-!
# The stream of the encoder through the caller's buffers

What successive calls of `JxlEncoderProcessOutput` have copied is always the
beginning of one stream, which no call changes once it is there.
-/

/-- The encoder from its first call for output on. -/
def EncoderImpl.started
    (impl : EncoderImpl) :
    EncoderImpl :=
  { impl with started_processing := true }

/-- Everything is closed that the stream needs. -/
structure Ready
    (impl : EncoderImpl) :
    Prop where
  closed : impl.input_closed = true ∨ impl.frames_closed = true
  hasFrame : impl.added_frame = true
  boxes : impl.use_boxes = true → impl.boxes_closed = true

/-- How many bytes of the stream the output space takes. -/
def copyCount
    (impl : EncoderImpl)
    (space : OutputSpace) :
    Nat :=
  min (impl.encoded_bytes.length - impl.output_offset) space.avail_out

/-- The next part of the stream is copied to the front of the output space. -/
structure Copied
    (impl : EncoderImpl)
    (space : OutputSpace)
    (status : JxlEncoderStatus)
    (after : OutputSpace)
    (next : EncoderImpl) :
    Prop where
  next :
    next = { impl with output_offset := impl.output_offset + copyCount impl space }
  memory :
    after.memory =
      overwrite space.memory space.next_out
        (part impl.encoded_bytes impl.output_offset (copyCount impl space))
  next_out : after.next_out = space.next_out + copyCount impl space
  avail_out : after.avail_out = space.avail_out - copyCount impl space
  status :
    status =
      if impl.encoded_bytes.length ≤ impl.output_offset + copyCount impl space then
        .success
      else
        .needMoreOutput

/-- Where nothing is left, or no room is, nothing is copied. -/
theorem copied_nothing
    {impl : EncoderImpl}
    {space : OutputSpace}
    (none : copyCount impl space = 0) :
    Copied impl space
      (if impl.encoded_bytes.length ≤ impl.output_offset then .success
        else .needMoreOutput)
      space impl := by
  constructor
  · rw [none]
    rfl
  · rw [none]
    unfold overwrite part
    rw [List.take_zero, List.append_nil, List.length_nil, Nat.add_zero,
      List.take_append_drop]
  · rw [none]
    rfl
  · rw [none]
    rfl
  · rw [none]
    rfl

section

variable {Color : Type}
variable {library : Library Color}
variable {granted : Allocation → Bool}
variable {impl next : EncoderImpl}
variable {status : JxlEncoderStatus}
variable {space after : Option OutputSpace}

/--
A call for output is rejected before the stream is made, or while it is made, or it
copies the next part of the stream.
-/
theorem processOutput_cases
    (answered :
      processOutput library granted impl space = .ok (status, after, next)) :
    (space = none ∧ after = none ∧ status = .error ∧ next = impl) ∨
      ∃ room,
        space = some room ∧
          ((¬ Ready impl ∧ status = .error ∧ after = some room ∧ next = impl.started) ∨
            (Ready impl ∧
              ∃ failed made,
                finalizeSimpleEncode library granted impl.started = .ok (failed, made) ∧
                  ((failed ≠ none ∧ status = .error ∧ after = some room ∧ next = made) ∨
                    (failed = none ∧
                      ∃ left,
                        after = some left ∧ Copied made room status left next)))) := by
  unfold processOutput at answered
  rcases space with _ | room
  · cases answered
    exact .inl ⟨rfl, rfl, rfl, rfl⟩
  refine .inr ⟨room, rfl, ?_⟩
  dsimp only at answered
  split at answered
  next notClosed =>
    cases answered
    refine .inl ⟨fun ready => ?_, rfl, rfl, rfl⟩
    rcases notClosed with notClosed | noFrame
    · exact notClosed ready.closed
    · exact noFrame ready.hasFrame
  next closed =>
    split at answered
    next notClosed =>
      cases answered
      exact .inl ⟨fun ready => notClosed.2 (ready.boxes notClosed.1), rfl, rfl, rfl⟩
    next boxes =>
      have isClosed := not_not.1 (not_or.1 closed).1
      have isAdded := not_not.1 (not_or.1 closed).2
      have ready : Ready impl :=
        { closed := isClosed
          hasFrame := isAdded
          boxes := fun uses => by
            by_contra notClosed
            exact boxes ⟨uses, notClosed⟩ }
      refine .inr ⟨ready, ?_⟩
      obtain ⟨⟨failed, made⟩, isMade, answered⟩ := bind_eq_ok.1 answered
      have finalized :
          finalizeSimpleEncode library granted impl.started = .ok (failed, made) := by
        split at isMade
        next => exact isMade
        next nonempty =>
          cases isMade
          have hasStream : impl.started.encoded_bytes.length ≠ 0 := nonempty
          unfold finalizeSimpleEncode
          rw [if_pos hasStream]
          rfl
      refine ⟨failed, made, finalized, ?_⟩
      dsimp only at answered
      split at answered
      next isFailed =>
        cases answered
        refine .inl ⟨fun isNone => ?_, rfl, rfl, rfl⟩
        rw [isNone] at isFailed
        cases isFailed
      next notFailed =>
        refine .inr ⟨Option.not_isSome_iff_eq_none.1 notFailed, ?_⟩
        split at answered
        next finished =>
          have none : copyCount made room = 0 := by
            unfold copyCount
            omega
          have copied := copied_nothing none
          rw [if_pos finished] at copied
          cases answered
          exact ⟨room, rfl, copied⟩
        next unfinished =>
          split at answered
          next noRoom =>
            have none : copyCount made room = 0 := by
              unfold copyCount
              omega
            have copied := copied_nothing none
            rw [if_neg unfinished] at copied
            cases answered
            exact ⟨room, rfl, copied⟩
          next =>
            obtain ⟨bytes, isBytes, answered⟩ := bind_eq_ok.1 answered
            obtain ⟨_, inside, isPart⟩ := slice_eq_part.1 isBytes
            have isCount :
                min (made.encoded_bytes.length - made.output_offset) room.avail_out =
                  copyCount made room :=
              rfl
            rw [isCount] at inside isPart answered
            rw [Nat.add_sub_cancel_left] at isPart
            have length : bytes.length = copyCount made room := by
              rw [isPart]
              exact length_part inside
            split at answered
            next fits =>
              cases answered
              refine ⟨room.copy bytes fits, rfl, rfl, ?_, ?_, ?_, rfl⟩
              · rw [← isPart]
                rfl
              · rw [← length]
                rfl
              · rw [← length]
                rfl
            next =>
              cases answered

/-- What a call has put between the old and the new `next_out`. -/
def copiedBytes
    (before after : Option OutputSpace) :
    List UInt8 :=
  match before, after with
  | some before, some after =>
      part after.memory before.next_out (after.next_out - before.next_out)
  | _, _ => []

/-- The copied bytes are the next part of the stream. -/
theorem Copied.bytes
    {made : EncoderImpl}
    {room left : OutputSpace}
    (copied : Copied made room status left next)
    (inside : made.output_offset ≤ made.encoded_bytes.length) :
    copiedBytes (some room) (some left) =
        part made.encoded_bytes made.output_offset (copyCount made room) ∧
      (copiedBytes (some room) (some left)).length = copyCount made room := by
  have most : copyCount made room ≤ made.encoded_bytes.length - made.output_offset :=
    Nat.min_le_left _ _
  have fits : copyCount made room ≤ room.avail_out :=
    Nat.min_le_right _ _
  have length :
      (part made.encoded_bytes made.output_offset (copyCount made room)).length =
        copyCount made room :=
    length_part (by omega)
  have bytes :
      copiedBytes (some room) (some left) =
        part made.encoded_bytes made.output_offset (copyCount made room) := by
    have written :=
      part_overwrite (α := UInt8)
        (show room.next_out + (part made.encoded_bytes made.output_offset
          (copyCount made room)).length ≤ room.memory.length by
            have := room.room
            omega)
    rw [length] at written
    unfold copiedBytes
    dsimp only
    rw [copied.memory, copied.next_out, Nat.add_sub_cancel_left, written]
  exact ⟨bytes, by rw [bytes, length]⟩

end

end Jxlz.Capi
