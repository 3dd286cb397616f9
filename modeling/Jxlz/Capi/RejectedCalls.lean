import Jxlz.Capi.EncoderTwins
import Jxlz.Codec.ContainerRoundTrip

namespace Jxlz.Capi

open Container Delivery EncApi

/-!
# Calls that are rejected

A rejected call leaves no trace when every continuation reports the same with it and
without it.  Most calls change nothing before they can fail.  A frame that is added
queues the frame before it first, a plane that is staged frees the one before it, and
a call for output marks the encoder as started and keeps a bare codestream.
-/

/-- What holds of an encoder between two calls. -/
structure Coherent
    (impl : EncoderImpl) :
    Prop where
  profile : impl.color_encoding_set = false → impl.owned_icc = []
  closed : impl.frames_closed = true → impl.image_bytes = []
  input : impl.input_closed = true → impl.frames_closed = true

theorem EncoderImpl.flushed_image_bytes
    (impl : EncoderImpl) :
    impl.flushed.image_bytes = [] := by
  unfold EncoderImpl.flushed
  split
  next isEmpty => exact isEmpty
  next => rfl

theorem Coherent.flushed
    {impl : EncoderImpl}
    (coherent : Coherent impl) :
    Coherent impl.flushed := by
  refine ⟨?_, fun _ => impl.flushed_image_bytes, ?_⟩
  · unfold EncoderImpl.flushed
    split
    · exact coherent.profile
    · exact coherent.profile
  · unfold EncoderImpl.flushed
    split
    · exact coherent.input
    · exact coherent.input

section

variable {Color : Type}
variable {library : Library Color}
variable {granted : Allocation → Bool}
variable {impl next : EncoderImpl}

theorem finalizeSimpleEncode_coherent
    {failed : Option JxlError}
    (finalized : finalizeSimpleEncode library granted impl = .ok (failed, next))
    (coherent : Coherent impl) :
    Coherent next := by
  rcases finalizeSimpleEncode_cases finalized with
    ⟨_, _, rfl⟩ | ⟨_, ⟨_, rfl⟩ | ⟨_, _, ⟨_, _, rfl⟩ | ⟨_, _, _, rfl⟩⟩⟩
  · exact coherent
  · exact coherent
  · exact ⟨coherent.profile, coherent.closed, coherent.input⟩
  · exact ⟨coherent.profile, coherent.closed, coherent.input⟩

theorem processOutput_coherent
    {space after : Option OutputSpace}
    {status : JxlEncoderStatus}
    (answered : processOutput library granted impl space = .ok (status, after, next))
    (coherent : Coherent impl) :
    Coherent next := by
  have started : Coherent impl.started :=
    ⟨coherent.profile, coherent.closed, coherent.input⟩
  rcases processOutput_cases answered with
    ⟨_, _, _, rfl⟩ | ⟨_, _, ⟨_, _, _, rfl⟩ | ⟨_, _, _, finalized, outcome⟩⟩
  · exact coherent
  · exact started
  · have made := finalizeSimpleEncode_coherent finalized started
    rcases outcome with ⟨_, _, _, rfl⟩ | ⟨_, _, _, copied⟩
    · exact made
    · rw [copied.next]
      exact ⟨made.profile, made.closed, made.input⟩

/-- Every call keeps the encoder coherent. -/
theorem step_coherent
    {request : Request Color}
    {reply : Reply}
    (stepped : step library impl request = .ok (reply, next))
    (coherent : Coherent impl) :
    Coherent next := by
  obtain ⟨call, granted⟩ := request
  have flushed := coherent.flushed
  have profile := coherent.profile
  have closed := coherent.closed
  have input := coherent.input
  unfold step at stepped
  cases call with
  | frameSettingsCreate source =>
      obtain ⟨_, answered, stepped⟩ := bind_eq_ok.1 stepped
      cases stepped
      rcases frameSettingsCreate_cases answered with ⟨_, _, isNext⟩ | ⟨_, isNext⟩ <;>
        rw [isNext]
      · exact ⟨profile, closed, input⟩
      · exact coherent
  | setBasicInfo info =>
      obtain ⟨_, answered, stepped⟩ := bind_eq_ok.1 stepped
      cases stepped
      rcases setBasicInfo_cases answered with ⟨_, _, _, _, isNext⟩ | ⟨_, isNext⟩ <;>
        rw [isNext]
      · exact ⟨profile, closed, input⟩
      · exact coherent
  | setColorEncoding color =>
      obtain ⟨_, answered, stepped⟩ := bind_eq_ok.1 stepped
      cases stepped
      rcases setColorEncoding_cases answered with ⟨_, _, _, _, isNext⟩ | ⟨_, isNext⟩ <;>
        rw [isNext]
      · exact ⟨fun notSet => absurd notSet (by simp), closed, input⟩
      · exact coherent
  | setICCProfile icc_profile =>
      obtain ⟨_, answered, stepped⟩ := bind_eq_ok.1 stepped
      cases stepped
      rcases setICCProfile_cases answered with
        ⟨_, _, _, _, _, isNext⟩ | ⟨_, isNext | ⟨_, isNext⟩⟩ <;> rw [isNext]
      · exact ⟨fun notSet => absurd notSet (by simp), closed, input⟩
      · exact coherent
      · exact ⟨fun _ => rfl, closed, input⟩
  | useBoxes =>
      obtain ⟨_, answered, stepped⟩ := bind_eq_ok.1 stepped
      cases stepped
      rcases useBoxes_cases answered with ⟨_, _, _, isNext⟩ | ⟨_, isNext⟩ <;> rw [isNext]
      · exact ⟨profile, closed, input⟩
      · exact coherent
  | addBox box_type contents compress_box =>
      obtain ⟨_, answered, stepped⟩ := bind_eq_ok.1 stepped
      cases stepped
      rcases addBox_cases answered with ⟨_, _, _, _, _, isNext⟩ | ⟨_, isNext⟩ <;>
        rw [isNext]
      · exact ⟨profile, closed, input⟩
      · exact coherent
  | closeBoxes =>
      cases stepped
      unfold closeBoxes
      split
      · exact coherent
      · exact ⟨profile, closed, input⟩
  | setExtraChannelInfo index info =>
      obtain ⟨_, answered, stepped⟩ := bind_eq_ok.1 stepped
      cases stepped
      rcases setExtraChannelInfo_cases answered with
        ⟨_, _, _, _, _, isNext⟩ | ⟨_, isNext⟩ <;> rw [isNext]
      · exact ⟨profile, closed, input⟩
      · exact coherent
  | setExtraChannelName index name =>
      obtain ⟨_, answered, stepped⟩ := bind_eq_ok.1 stepped
      cases stepped
      rcases setExtraChannelName_cases answered with
        ⟨_, _, _, _, isNext⟩ | ⟨_, isNext⟩ <;> rw [isNext]
      · exact ⟨profile, closed, input⟩
      · exact coherent
  | setFrameHeader settings frame_header =>
      obtain ⟨_, answered, stepped⟩ := bind_eq_ok.1 stepped
      cases stepped
      rcases setFrameHeader_cases answered with ⟨_, _, _, _, isNext⟩ | ⟨_, isNext⟩ <;>
        rw [isNext]
      · exact ⟨profile, closed, input⟩
      · exact coherent
  | addImageFrame settings format buffer =>
      obtain ⟨_, answered, stepped⟩ := bind_eq_ok.1 stepped
      cases stepped
      rcases addImageFrame_cases answered with
        ⟨_, _, _, _, _, _, _, accepted, isNext⟩ | ⟨_, isNext | ⟨isNext, _⟩⟩ <;>
        rw [isNext]
      · have isOpen : impl.flushed.frames_closed = false := by
          unfold EncoderImpl.flushed
          split
          · exact accepted.notClosed
          · exact accepted.notClosed
        refine ⟨flushed.profile, fun isClosed => ?_, flushed.input⟩
        exact absurd (isOpen.symm.trans isClosed) (by simp)
      · exact coherent
      · exact flushed
  | setExtraChannelBuffer settings format buffer index =>
      obtain ⟨_, answered, stepped⟩ := bind_eq_ok.1 stepped
      cases stepped
      rcases setExtraChannelBuffer_cases answered with
        ⟨_, _, _, _, _, _, _, _, _, isNext⟩ | ⟨_, isNext | ⟨_, isNext⟩⟩ <;> rw [isNext]
      · exact ⟨profile, closed, input⟩
      · exact coherent
      · exact ⟨profile, closed, input⟩
  | closeFrames =>
      obtain ⟨_, isClosed, stepped⟩ := bind_eq_ok.1 stepped
      cases stepped
      rcases closeFrames_cases isClosed with isNext | ⟨_, isNext⟩ <;> rw [isNext]
      · exact coherent
      · exact ⟨flushed.profile, fun _ => impl.flushed_image_bytes, fun _ => rfl⟩
  | closeInput =>
      obtain ⟨_, isClosed, stepped⟩ := bind_eq_ok.1 stepped
      cases stepped
      rcases closeInput_cases isClosed with isNext | isNext <;> rw [isNext]
      · exact coherent
      · exact ⟨flushed.profile, fun _ => impl.flushed_image_bytes, fun _ => rfl⟩
  | processOutput space =>
      obtain ⟨_, answered, stepped⟩ := bind_eq_ok.1 stepped
      cases stepped
      exact processOutput_coherent answered coherent

theorem runCalls_coherent
    {requests : List (Request Color)}
    {replies : List Reply}
    (ran : runCalls library impl requests = .ok (replies, next))
    (coherent : Coherent impl) :
    Coherent next := by
  induction requests generalizing impl replies with
  | nil =>
      cases ran
      exact coherent
  | cons request requests inductionHypothesis =>
      obtain ⟨⟨_, middle⟩, stepped, ran⟩ := bind_eq_ok.1 ran
      obtain ⟨⟨_, last⟩, ranOn, ran⟩ := bind_eq_ok.1 ran
      cases ran
      exact inductionHypothesis ranOn (step_coherent stepped coherent)

/-- The boxes around the stream can be made. -/
def BoxesFit
    (granted : Allocation → Bool)
    (codestream : List UInt8)
    (boxes : List Container.Box) :
    Prop :=
  boxes = [] ∨
    (granted .boxList = true ∧ granted .wrapped = true ∧ SizesFit codestream boxes)

/--
What a call may need besides its checks, where it has changed the encoder already: no
frame is queued halfway, no plane is freed, and a call for output meets an encoder that
is ready or was started before, and can put the boxes around the codestream.
-/
def Harmless
    (library : Library Color)
    (impl : EncoderImpl)
    (request : Request Color) :
    Prop :=
  match request.call with
  | .addImageFrame settings format buffer =>
      impl.image_bytes = [] ∨ ¬ StopsHalfway request.granted impl settings format buffer
  | .setExtraChannelBuffer settings format buffer index =>
      settings = none ∨ (impl.pending_extra_channels index).buffer = [] ∨
        ¬ FreesFirst request.granted impl format buffer index
  | .processOutput (some _) =>
      (impl.started_processing = true ∨ Ready impl) ∧
        (Ready impl →
          impl.encoded_bytes = [] →
          ∀ codestream,
            encodeQueuedFrames library request.granted impl.started = .ok codestream →
            BoxesFit request.granted codestream impl.staged_boxes)
  | _ => True

/-- Where the request is rejected, no continuation tells that it was made. -/
def LeavesNoTrace
    (library : Library Color)
    (impl : EncoderImpl)
    (request : Request Color) :
    Prop :=
  ∀ reply next,
    step library impl request = .ok (reply, next) →
    reply.status = .error →
    ∀ requests,
      (runCalls library next requests).map Prod.fst =
        (runCalls library impl requests).map Prod.fst

/-- What is there already may be assigned again. -/
theorem setPending_self
    {index : Nat}
    {pending : PendingExtraChannel}
    (same : pending = impl.pending_extra_channels index) :
    impl.setPending index pending = impl := by
  have unchanged :
      (fun channel =>
        if channel = index then pending else impl.pending_extra_channels channel) =
          impl.pending_extra_channels := by
    funext channel
    split
    next isIndex => rw [isIndex, same]
    next => rfl
  unfold EncoderImpl.setPending
  rw [unchanged]

theorem setICCProfile_twin
    {icc_profile : CallerBuffer}
    (coherent : Coherent impl)
    (answered : setICCProfile granted impl icc_profile = .ok (.error, next)) :
    Twin impl next := by
  rcases setICCProfile_cases answered with
    ⟨isSuccess, _⟩ | ⟨_, rfl | ⟨notSet, rfl⟩⟩
  · cases isSuccess
  · exact .same _
  · have isEmpty := coherent.profile notSet
    obtain ⟨⟩ := impl
    cases isEmpty
    exact .same _

theorem addImageFrame_twin
    {settings : Option Nat}
    {format : Option JxlPixelFormat}
    {buffer : CallerBuffer}
    (harmless :
      impl.image_bytes = [] ∨ ¬ StopsHalfway granted impl settings format buffer)
    (answered : addImageFrame granted impl settings format buffer = .ok (.error, next)) :
    Twin impl next := by
  rcases addImageFrame_cases answered with
    ⟨isSuccess, _⟩ | ⟨_, rfl | ⟨rfl, halfway⟩⟩
  · cases isSuccess
  · exact .same _
  · rcases harmless with noStaged | whole
    · unfold EncoderImpl.flushed
      rw [if_pos noStaged]
      exact .same _
    · exact absurd halfway whole

theorem setExtraChannelBuffer_twin
    {settings : Option Nat}
    {format : Option JxlPixelFormat}
    {buffer : CallerBuffer}
    {index : Nat}
    (harmless :
      settings = none ∨ (impl.pending_extra_channels index).buffer = [] ∨
        ¬ FreesFirst granted impl format buffer index)
    (answered :
      setExtraChannelBuffer library granted impl settings format buffer index =
        .ok (.error, next)) :
    Twin impl next := by
  rcases harmless with rfl | noPlane | keeps
  · unfold setExtraChannelBuffer at answered
    cases answered
    exact .same _
  · rcases setExtraChannelBuffer_cases answered with
      ⟨isSuccess, _⟩ | ⟨_, rfl | ⟨_, rfl⟩⟩
    · cases isSuccess
    · exact .same _
    · rw [← noPlane, setPending_self rfl]
      exact .same _
  · rcases setExtraChannelBuffer_cases answered with
      ⟨isSuccess, _⟩ | ⟨_, rfl | ⟨frees, _⟩⟩
    · cases isSuccess
    · exact .same _
    · exact absurd frees keeps

/-- An encoder that is ready for output is sealed. -/
theorem Ready.isSealed
    (ready : Ready impl)
    (coherent : Coherent impl) :
    Sealed impl := by
  have isClosed : impl.frames_closed = true := by
    rcases ready.closed with inputClosed | framesClosed
    · exact coherent.input inputClosed
    · exact framesClosed
  exact ⟨isClosed, ready.hasFrame, coherent.closed isClosed, ready.boxes⟩

/-- Boxes that fit are wrapped, so that only the codestream itself can fail. -/
theorem wrapPendingBoxes_ok
    (impl : EncoderImpl)
    {codestream : List UInt8}
    (fits : BoxesFit granted codestream impl.staged_boxes) :
    ∃ encoded_bytes,
      wrapPendingBoxes granted { impl with encoded_bytes := codestream } =
        .ok encoded_bytes := by
  unfold wrapPendingBoxes
  by_cases isEmpty : impl.staged_boxes = []
  · exact ⟨codestream, if_pos (List.length_eq_zero_iff.2 isEmpty)⟩
  · rcases fits with noBoxes | ⟨hasList, hasWrapped, sizes⟩
    · exact absurd noBoxes isEmpty
    · have wrapped := wrapCodestreamWithBoxes_eq_ok.2 ⟨sizes, rfl⟩
      refine ⟨bytesOfBoxes (wrappedBoxes codestream impl.staged_boxes), ?_⟩
      dsimp only
      rw [if_neg fun length => isEmpty (List.length_eq_zero_iff.1 length), allocate,
        if_pos (.inr hasList), allocate, if_pos (.inr hasWrapped)]
      exact wrapped

theorem processOutput_twin
    {space : OutputSpace}
    {after : Option OutputSpace}
    (coherent : Coherent impl)
    (marked : impl.started_processing = true ∨ Ready impl)
    (fits :
      Ready impl →
        impl.encoded_bytes = [] →
        ∀ codestream,
          encodeQueuedFrames library granted impl.started = .ok codestream →
          BoxesFit granted codestream impl.staged_boxes)
    (answered :
      processOutput library granted impl (some space) = .ok (.error, after, next)) :
    Twin impl next := by
  rcases processOutput_cases answered with
    ⟨impossible, _⟩ | ⟨_, _, ⟨notReady, _, _, rfl⟩ | ⟨ready, failed, made, finalized, outcome⟩⟩
  · cases impossible
  · rcases marked with isMarked | ready
    · have unchanged : impl.started = impl := by
        obtain ⟨⟩ := impl
        cases isMarked
        rfl
      rw [unchanged]
      exact .same _
    · exact absurd ready notReady
  · rcases outcome with ⟨isFailed, _, _, rfl⟩ | ⟨_, _, _, copied⟩
    · rcases finalizeSimpleEncode_cases finalized with
        ⟨_, notFailed, _⟩ |
          ⟨isEmpty, ⟨_, rfl⟩ |
            ⟨codestream, encoded, ⟨notWrapped, _⟩ | ⟨_, _, notFailed, _⟩⟩⟩
      · exact absurd notFailed isFailed
      · exact .started (ready.isSealed coherent)
      · obtain ⟨encoded_bytes, wrapped⟩ :=
          wrapPendingBoxes_ok impl.started (fits ready isEmpty codestream encoded)
        exact absurd wrapped (notWrapped encoded_bytes)
      · exact absurd notFailed isFailed
    · have isStatus := copied.status
      split at isStatus <;> cases isStatus

/-- A call that changes something only when it succeeds leaves twins. -/
theorem Twin.of_rejected
    {status : JxlEncoderStatus}
    {changed : Prop}
    (outcome : (status = .success ∧ changed) ∨ (status = .error ∧ next = impl))
    (rejected : status = .error) :
    Twin impl next := by
  rcases outcome with ⟨isSuccess, _⟩ | ⟨_, isNext⟩
  · cases isSuccess.symm.trans rejected
  · rw [isNext]
    exact .same impl

/-- A harmless call that is rejected leaves twins. -/
theorem step_twin
    {request : Request Color}
    {reply : Reply}
    (coherent : Coherent impl)
    (harmless : Harmless library impl request)
    (stepped : step library impl request = .ok (reply, next))
    (rejected : reply.status = .error) :
    Twin impl next := by
  obtain ⟨call, granted⟩ := request
  unfold step at stepped
  cases call with
  | frameSettingsCreate source =>
      obtain ⟨_, answered, stepped⟩ := bind_eq_ok.1 stepped
      cases stepped
      exact .of_rejected (frameSettingsCreate_cases answered) rejected
  | setBasicInfo info =>
      obtain ⟨_, answered, stepped⟩ := bind_eq_ok.1 stepped
      cases stepped
      exact .of_rejected (setBasicInfo_cases answered) rejected
  | setColorEncoding color =>
      obtain ⟨_, answered, stepped⟩ := bind_eq_ok.1 stepped
      cases stepped
      exact .of_rejected (setColorEncoding_cases answered) rejected
  | setICCProfile icc_profile =>
      obtain ⟨⟨status, _⟩, answered, stepped⟩ := bind_eq_ok.1 stepped
      cases stepped
      cases rejected
      exact setICCProfile_twin coherent answered
  | useBoxes =>
      obtain ⟨_, answered, stepped⟩ := bind_eq_ok.1 stepped
      cases stepped
      exact .of_rejected (useBoxes_cases answered) rejected
  | addBox box_type contents compress_box =>
      obtain ⟨_, answered, stepped⟩ := bind_eq_ok.1 stepped
      cases stepped
      exact .of_rejected (addBox_cases answered) rejected
  | closeBoxes =>
      cases stepped
      cases rejected
  | setExtraChannelInfo index info =>
      obtain ⟨_, answered, stepped⟩ := bind_eq_ok.1 stepped
      cases stepped
      exact .of_rejected (setExtraChannelInfo_cases answered) rejected
  | setExtraChannelName index name =>
      obtain ⟨_, answered, stepped⟩ := bind_eq_ok.1 stepped
      cases stepped
      exact .of_rejected (setExtraChannelName_cases answered) rejected
  | setFrameHeader settings frame_header =>
      obtain ⟨_, answered, stepped⟩ := bind_eq_ok.1 stepped
      cases stepped
      exact .of_rejected (setFrameHeader_cases answered) rejected
  | addImageFrame settings format buffer =>
      obtain ⟨⟨status, _⟩, answered, stepped⟩ := bind_eq_ok.1 stepped
      cases stepped
      cases rejected
      exact addImageFrame_twin harmless answered
  | setExtraChannelBuffer settings format buffer index =>
      obtain ⟨⟨status, _⟩, answered, stepped⟩ := bind_eq_ok.1 stepped
      cases stepped
      cases rejected
      exact setExtraChannelBuffer_twin harmless answered
  | closeFrames =>
      obtain ⟨_, _, stepped⟩ := bind_eq_ok.1 stepped
      cases stepped
      cases rejected
  | closeInput =>
      obtain ⟨_, _, stepped⟩ := bind_eq_ok.1 stepped
      cases stepped
      cases rejected
  | processOutput space =>
      obtain ⟨⟨status, after, _⟩, answered, stepped⟩ := bind_eq_ok.1 stepped
      cases stepped
      cases rejected
      cases space with
      | none =>
          cases answered
          exact .same _
      | some space =>
          exact processOutput_twin coherent harmless.1 harmless.2 answered

/--
In every state that calls can reach, a harmless call that is rejected leaves no trace
in any continuation.
-/
theorem rejected_call_leaves_no_trace
    (library : Library Color)
    (before : List (Request Color))
    (replies : List Reply)
    (impl : EncoderImpl)
    (ran : runCalls library {} before = .ok (replies, impl))
    (request : Request Color)
    (harmless : Harmless library impl request) :
    LeavesNoTrace library impl request := by
  have start : Coherent {} := ⟨fun _ => rfl, fun _ => rfl, fun isSet => isSet⟩
  have coherent := runCalls_coherent ran start
  intro reply next stepped rejected requests
  exact ((step_twin coherent harmless stepped rejected).sameReports requests).symm

end

/-- A library for runs that end before anything is encoded. -/
def unusedLibrary : Library Unit :=
  { builtinEndian := .little
    toInternalColorEncoding := fun _ _ => fail .Unsupported
    compress := fun _ => fail .OutOfMemory
    encoder :=
      { encodePreparedSource := fun _ _ _ => fail .Unsupported
        encodePreparedFrames := fun _ _ _ => fail .Unsupported } }

/-- One pixel of three colors. -/
def smallestInfo : JxlBasicInfo :=
  { defaultBasicInfo with xsize := 1, ysize := 1 }

/-- A frame in front of any description is rejected, and not seen afterwards. -/
theorem rejected_frame_leaves_no_trace :
    LeavesNoTrace unusedLibrary { frame_settings := [{}] }
      { call := .addImageFrame (some 0) (some {}) { data := some [], size := 0, sized := by simp } } :=
  rejected_call_leaves_no_trace unusedLibrary [{ call := .frameSettingsCreate none }]
    [{ status := .success }] { frame_settings := [{}] } rfl _ (.inl rfl)

/-- Room for one byte. -/
def oneByte : OutputSpace :=
  { memory := [0], next_out := 0, avail_out := 1, room := Nat.le_refl 1 }

/--
A call for output that a new encoder rejects keeps it from accepting a description
that it would have accepted before.
-/
theorem rejected_output_call_is_seen :
    ¬ ∀ request : Request Unit, LeavesNoTrace unusedLibrary {} request := by
  intro noTrace
  have same :=
    noTrace { call := .processOutput (some oneByte) }
      { status := .error, space := some oneByte } ({} : EncoderImpl).started rfl rfl
      [{ call := .setBasicInfo (some smallestInfo) }]
  have rejected :
      (runCalls unusedLibrary ({} : EncoderImpl).started
        [{ call := .setBasicInfo (some smallestInfo) }]).map Prod.fst =
          .ok [{ status := .error }] := by
    rfl
  have accepted :
      (runCalls unusedLibrary {}
        [{ call := .setBasicInfo (some smallestInfo) }]).map Prod.fst =
          .ok [{ status := .success }] := by
    rfl
  rw [rejected, accepted] at same
  injection same with sameReplies
  injection sameReplies with sameReply
  injection sameReply with sameStatus
  cases sameStatus

end Jxlz.Capi
