import Jxlz.Base.Checked
import Jxlz.Lib.Delivery

namespace Jxlz.Capi

open Delivery

/-!
# The rebuilt JPEG file through the caller's buffers

Mirrors `JxlDecoderSetJPEGBuffer`, `JxlDecoderReleaseJPEGBuffer`, `outputJPEG` and
the JPEG part of `JxlDecoderProcessInput` in `capi_root.zig`.  What the buffers of
a run have received is always the beginning of the file.
-/

/-- The statuses of the decoder. -/
inductive JxlDecoderStatus where
  | success
  | error
  | needMoreInput
  | needPreviewOutBuffer
  | needImageOutBuffer
  | jpegNeedMoreOutput
  | boxNeedMoreOutput
  | basicInfo
  | colorEncoding
  | previewImage
  | frame
  | fullImage
  | jpegReconstruction
  | box
  | frameProgression
  | boxComplete
  deriving Repr, DecidableEq

/-- A pointer to the caller's memory, and the size that it has there. -/
structure CallerBuffer where
  data : Option (List UInt8)
  size : Nat
  sized : ∀ memory, data = some memory → memory.length = size

/-- What the JPEG output reads and writes of the decoder. -/
structure JpegOutput where
  jpeg_requested : Bool := false
  jpeg_bytes : List UInt8 := []
  jpeg_offset : Nat := 0
  jpeg_buffer : Option (List UInt8) := none
  jpeg_buffer_size : Nat := 0
  jpeg_buffer_written : Nat := 0
  deriving Repr, DecidableEq

namespace JpegOutput

def setJPEGBuffer
    (impl : JpegOutput)
    (buffer : CallerBuffer) :
    JxlDecoderStatus × JpegOutput :=
  if impl.jpeg_buffer ≠ none ∨ (buffer.data = none ∧ buffer.size ≠ 0) then
    (.error, impl)
  else
    (.success,
      { impl with
        jpeg_buffer := buffer.data
        jpeg_buffer_size := buffer.size
        jpeg_buffer_written := 0
        jpeg_requested := impl.jpeg_requested || buffer.data.isSome })

/-- Returns how many bytes of the buffer are left. -/
def releaseJPEGBuffer
    (impl : JpegOutput) :
    Checked (Nat × JpegOutput) := do
  let remaining ← subU impl.jpeg_buffer_size impl.jpeg_buffer_written
  return (remaining,
    { impl with jpeg_buffer := none, jpeg_buffer_size := 0, jpeg_buffer_written := 0 })

/-- `prepareJPEG` rebuilds the file once; what it rebuilds is `file`. -/
def prepareJPEG
    (file : List UInt8)
    (impl : JpegOutput) :
    JpegOutput :=
  if impl.jpeg_bytes.length = 0 then { impl with jpeg_bytes := file } else impl

def outputJPEG
    (file : List UInt8)
    (impl : JpegOutput) :
    Checked (JxlDecoderStatus × JpegOutput) := do
  let impl := prepareJPEG file impl
  if impl.jpeg_offset = impl.jpeg_bytes.length then
    return (.success, impl)
  match impl.jpeg_buffer with
  | none =>
      return (.jpegNeedMoreOutput, impl)
  | some buffer =>
      let left ← subU impl.jpeg_bytes.length impl.jpeg_offset
      let room ← subU impl.jpeg_buffer_size impl.jpeg_buffer_written
      let count := min left room
      require (impl.jpeg_buffer_written + count ≤ buffer.length)
      require (impl.jpeg_offset + count ≤ impl.jpeg_bytes.length)
      let impl :=
        { impl with
          jpeg_buffer := some
            (overwrite buffer impl.jpeg_buffer_written
              (part impl.jpeg_bytes impl.jpeg_offset count))
          jpeg_offset := impl.jpeg_offset + count
          jpeg_buffer_written := impl.jpeg_buffer_written + count }
      if impl.jpeg_offset = impl.jpeg_bytes.length then
        return (.success, impl)
      else
        return (.jpegNeedMoreOutput, impl)

/--
The JPEG part of `JxlDecoderProcessInput`, which it comes to once for each of
`frames` displayed frames.  No status means that the call goes on behind it.
-/
def processInput
    (file : List UInt8) :
    Nat →
    JpegOutput →
    Checked (Option JxlDecoderStatus × JpegOutput)
  | 0, impl => .ok (none, impl)
  | frames + 1, impl =>
      if impl.jpeg_requested then do
        let (status, impl) ← outputJPEG file impl
        if status = .success then
          processInput file frames impl
        else
          return (some status, impl)
      else
        .ok (none, impl)

/-- The calls of a client that concern the JPEG output. -/
inductive Call where
  | setJPEGBuffer (buffer : CallerBuffer)
  | releaseJPEGBuffer
  | processInput (frames : Nat)

/-- The decoder, and what the client read from the buffers that it got back. -/
structure Run where
  impl : JpegOutput := {}
  released : List (List UInt8) := []

/-- After a release the client reads all but the bytes that are left. -/
def step
    (file : List UInt8)
    (run : Run) :
    Call →
    Checked Run
  | .setJPEGBuffer buffer =>
      .ok { run with impl := (run.impl.setJPEGBuffer buffer).2 }
  | .releaseJPEGBuffer => do
      let (remaining, impl) ← run.impl.releaseJPEGBuffer
      return {
        impl
        released := run.released ++
          [(run.impl.jpeg_buffer.getD []).take (run.impl.jpeg_buffer_size - remaining)] }
  | .processInput frames => do
      let (_, impl) ← processInput file frames run.impl
      return { run with impl }

/-- All that the client has received, the written part of its buffer included. -/
def Run.delivered
    (run : Run) :
    List UInt8 :=
  run.released.flatten ++
    (run.impl.jpeg_buffer.getD []).take run.impl.jpeg_buffer_written

/-- What holds between two calls. -/
structure Delivers
    (file : List UInt8)
    (run : Run) :
    Prop where
  bytes : run.impl.jpeg_bytes = [] ∧ run.impl.jpeg_offset = 0 ∨
    run.impl.jpeg_bytes = file
  offset : run.impl.jpeg_offset ≤ file.length
  size : (run.impl.jpeg_buffer.getD []).length = run.impl.jpeg_buffer_size
  written : run.impl.jpeg_buffer_written ≤ run.impl.jpeg_buffer_size
  delivered : run.delivered = file.take run.impl.jpeg_offset

variable {file : List UInt8} {run : Run}

/-- Setting a buffer keeps what was delivered, accepted or not. -/
theorem Delivers.setJPEGBuffer
    (delivers : Delivers file run)
    (buffer : CallerBuffer) :
    Delivers file { run with impl := (run.impl.setJPEGBuffer buffer).2 } := by
  obtain ⟨bytes, offset, size, written, delivered⟩ := delivers
  unfold JpegOutput.setJPEGBuffer
  split
  next => exact ⟨bytes, offset, size, written, delivered⟩
  next accepted =>
    obtain ⟨free, given⟩ := not_or.1 accepted
    have noBuffer : run.impl.jpeg_buffer = none := not_not.1 free
    refine ⟨bytes, offset, ?_, Nat.zero_le _, ?_⟩
    · cases isData : buffer.data with
      | none =>
          have noSize : buffer.size = 0 := by
            by_contra some
            exact given ⟨isData, some⟩
          exact noSize.symm
      | some memory =>
          exact buffer.sized memory isData
    · unfold Run.delivered at delivered ⊢
      rw [noBuffer] at delivered
      rw [← delivered]
      simp

/-- A released buffer is counted among those that were read. -/
theorem Delivers.releaseJPEGBuffer
    (delivers : Delivers file run) :
    ∃ next,
      step file run .releaseJPEGBuffer = .ok next ∧ Delivers file next := by
  obtain ⟨bytes, offset, size, written, delivered⟩ := delivers
  have unread :
      run.impl.jpeg_buffer_size -
          (run.impl.jpeg_buffer_size - run.impl.jpeg_buffer_written) =
        run.impl.jpeg_buffer_written := by
    omega
  unfold step JpegOutput.releaseJPEGBuffer
  rw [subU_ok written]
  simp only [ok_bind, pure_eq_ok]
  refine ⟨_, rfl, bytes, offset, rfl, Nat.le_refl _, ?_⟩
  unfold Run.delivered at delivered ⊢
  rw [← delivered, unread]
  simp

/-- Preparing the file changes nothing that was delivered. -/
theorem Delivers.prepareJPEG
    (delivers : Delivers file run) :
    (prepareJPEG file run.impl).jpeg_bytes = file ∧
      prepareJPEG file run.impl = { run.impl with jpeg_bytes := file } := by
  have bytes : run.impl.jpeg_bytes = [] ∨ run.impl.jpeg_bytes = file :=
    delivers.bytes.imp And.left id
  unfold JpegOutput.prepareJPEG
  rcases bytes with isEmpty | isFile
  · rw [if_pos (by rw [isEmpty]; rfl)]
    exact ⟨rfl, rfl⟩
  · split
    next => exact ⟨rfl, rfl⟩
    next => exact ⟨isFile, by rw [← isFile]⟩

/-- What one pass through the JPEG output does. -/
structure Passes
    (file : List UInt8)
    (run : Run)
    (status : JxlDecoderStatus)
    (impl : JpegOutput) :
    Prop where
  delivers : Delivers file { run with impl }
  offset :
    impl.jpeg_offset =
      run.impl.jpeg_offset +
        min (file.length - run.impl.jpeg_offset)
          (run.impl.jpeg_buffer_size - run.impl.jpeg_buffer_written)
  written :
    impl.jpeg_buffer_written =
      run.impl.jpeg_buffer_written +
        min (file.length - run.impl.jpeg_offset)
          (run.impl.jpeg_buffer_size - run.impl.jpeg_buffer_written)
  requested : impl.jpeg_requested = run.impl.jpeg_requested
  status :
    status =
      if impl.jpeg_offset = file.length then .success else .jpegNeedMoreOutput

/-- The next part of the file goes behind what the buffer holds. -/
theorem Delivers.outputJPEG
    (delivers : Delivers file run) :
    ∃ status impl,
      outputJPEG file run.impl = .ok (status, impl) ∧ Passes file run status impl := by
  obtain ⟨isFile, prepared⟩ := delivers.prepareJPEG
  obtain ⟨_, inside, isSize, isWritten, isDelivered⟩ := delivers
  unfold JpegOutput.outputJPEG
  dsimp only
  rw [prepared]
  clear prepared isFile
  obtain ⟨⟨requested, bytes, offset, buffer, size, written⟩, released⟩ := run
  unfold Run.delivered at isDelivered
  dsimp only at *
  by_cases complete : offset = file.length
  · rw [if_pos complete]
    refine ⟨_, _, rfl, ⟨⟨.inr rfl, inside, isSize, isWritten, isDelivered⟩, ?_, ?_, rfl, ?_⟩⟩
    · dsimp only
      omega
    · dsimp only
      omega
    · exact (if_pos complete).symm
  · rw [if_neg complete]
    cases buffer with
    | none =>
        have noSize : size = 0 := isSize.symm
        refine ⟨_, _, rfl, ⟨⟨.inr rfl, inside, isSize, isWritten, isDelivered⟩, ?_, ?_, rfl, ?_⟩⟩
        · dsimp only
          omega
        · dsimp only
          omega
        · exact (if_neg complete).symm
    | some buffer =>
        rw [Option.getD_some] at isSize isDelivered
        have least : min (file.length - offset) (size - written) ≤ file.length - offset :=
          Nat.min_le_left _ _
        have room : min (file.length - offset) (size - written) ≤ size - written :=
          Nat.min_le_right _ _
        dsimp only
        rw [subU_ok inside, ok_bind, subU_ok isWritten, ok_bind]
        generalize isCount : min (file.length - offset) (size - written) = count at *
        have isPart : (part file offset count).length = count := length_part (by omega)
        have fits : written + (part file offset count).length ≤ buffer.length := by
          omega
        rw [require_ok (by omega), ok_bind, require_ok (by omega), ok_bind]
        have next : Delivers file
            { impl :=
                { jpeg_requested := requested
                  jpeg_bytes := file
                  jpeg_offset := offset + count
                  jpeg_buffer :=
                    some (overwrite buffer written (part file offset count))
                  jpeg_buffer_size := size
                  jpeg_buffer_written := written + count }
              released } := by
          refine ⟨.inr rfl, ?_, ?_, ?_, ?_⟩
          · dsimp only
            omega
          · dsimp only
            rw [Option.getD_some, length_overwrite fits, isSize]
          · dsimp only
            omega
          · have behind := take_overwrite fits
            rw [isPart] at behind
            unfold Run.delivered
            dsimp only
            rw [Option.getD_some, behind, ← List.append_assoc, isDelivered,
              take_append_part]
        by_cases last : offset + count = file.length
        · rw [if_pos last]
          exact ⟨_, _, rfl,
            ⟨next, congrArg _ isCount.symm, congrArg _ isCount.symm, rfl,
              (if_pos last).symm⟩⟩
        · rw [if_neg last]
          exact ⟨_, _, rfl,
            ⟨next, congrArg _ isCount.symm, congrArg _ isCount.symm, rfl,
              (if_neg last).symm⟩⟩

/--
A call that comes to the JPEG output stops there exactly when bytes are left, and
for no other status.
-/
theorem Delivers.processInput
    (delivers : Delivers file run)
    (frames : Nat) :
    ∃ status impl,
      processInput file frames run.impl = .ok (status, impl) ∧
        Delivers file { run with impl } ∧
        (0 < frames → run.impl.jpeg_requested = true →
          status =
            if impl.jpeg_offset = file.length then
              none
            else
              some .jpegNeedMoreOutput) := by
  induction frames generalizing run with
  | zero =>
      exact ⟨none, run.impl, rfl, delivers, fun some => absurd some (Nat.lt_irrefl 0)⟩
  | succ frames inductionHypothesis =>
      unfold JpegOutput.processInput
      by_cases requested : run.impl.jpeg_requested = true
      · obtain ⟨status, impl, output, passes⟩ := delivers.outputJPEG
        rw [if_pos requested, output, ok_bind]
        dsimp only
        by_cases complete : impl.jpeg_offset = file.length
        · have isSuccess : status = .success := by
            rw [passes.status, if_pos complete]
          rw [if_pos isSuccess]
          cases frames with
          | zero =>
              exact ⟨none, impl, rfl, passes.delivers, fun _ _ => (if_pos complete).symm⟩
          | succ more =>
              obtain ⟨status', impl', behind, delivers', reports⟩ :=
                inductionHypothesis passes.delivers
              refine ⟨status', impl', behind, delivers', fun _ _ => ?_⟩
              exact reports (Nat.succ_pos more) (passes.requested.trans requested)
        · have isMore : status = .jpegNeedMoreOutput := by
            rw [passes.status, if_neg complete]
          have notSuccess : status ≠ .success := by
            rw [isMore]
            decide
          rw [if_neg notSuccess]
          refine ⟨_, _, rfl, passes.delivers, fun _ _ => ?_⟩
          rw [if_neg complete, isMore]
      · rw [if_neg requested]
        exact ⟨none, run.impl, rfl, delivers, fun _ asked => absurd asked requested⟩

/-- Every call keeps what holds between two calls. -/
theorem Delivers.step
    (delivers : Delivers file run)
    (call : Call) :
    ∃ next, JpegOutput.step file run call = .ok next ∧ Delivers file next := by
  cases call with
  | setJPEGBuffer buffer =>
      exact ⟨_, rfl, delivers.setJPEGBuffer buffer⟩
  | releaseJPEGBuffer =>
      exact delivers.releaseJPEGBuffer
  | processInput frames =>
      obtain ⟨status, impl, processed, delivers', _⟩ := delivers.processInput frames
      refine ⟨{ run with impl }, ?_, delivers'⟩
      unfold JpegOutput.step
      dsimp only
      rw [processed]
      rfl

/-- All calls of a client, one after the other. -/
def runCalls
    (file : List UInt8)
    (calls : List Call) :
    Checked Run :=
  calls.foldlM (step file) {}

end JpegOutput

end Jxlz.Capi
