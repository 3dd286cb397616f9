import Jxlz.Capi.EncoderOutput
import Jxlz.Lib.Agree

namespace Jxlz.Capi

open Container Delivery EncApi

/-!
# Encoders that no call tells apart

Once all input of an encoder is closed, only calls for output are still accepted, and
each of them marks the encoder as started.  So no later call can tell whether it was
marked before.
-/

/-- All input is closed, and the boxes that were announced are too. -/
structure Sealed
    (impl : EncoderImpl) :
    Prop where
  closed : impl.frames_closed = true
  hasFrame : impl.added_frame = true
  noStaged : impl.image_bytes = []
  boxes : impl.use_boxes = true → impl.boxes_closed = true

theorem Sealed.started
    {impl : EncoderImpl}
    (isSealed : Sealed impl) :
    Sealed impl.started :=
  ⟨isSealed.closed, isSealed.hasFrame, isSealed.noStaged, isSealed.boxes⟩

/-- Two encoders that no later call tells apart. -/
inductive Twin : EncoderImpl → EncoderImpl → Prop where
  | same (impl : EncoderImpl) : Twin impl impl
  | started {impl : EncoderImpl} : Sealed impl → Twin impl impl.started

/-- The same report, and twins behind it. -/
def Alike
    {Report : Type}
    (first second : Report × EncoderImpl) :
    Prop :=
  first.1 = second.1 ∧ Twin first.2 second.2

theorem rejectIf_of
    {condition : Prop}
    [Decidable condition]
    (holds : condition) :
    rejectIf condition = fail .GenericError := by
  unfold rejectIf failIf
  exact if_pos holds

/-- A body that fails is an error, and nothing else. -/
theorem answer_of_failed
    {impl : EncoderImpl}
    {body : Checked EncoderImpl}
    (code : JxlError)
    (failed : body = fail code) :
    answer impl body = .ok (.error, impl) := by
  rw [failed]
  rfl

/-- An argument is missing, or the guard behind it rejects the call. -/
theorem answer_of_rejected
    {Argument : Type}
    {impl : EncoderImpl}
    {argument : Option Argument}
    {condition : Prop}
    [Decidable condition]
    {rest : Argument → Checked EncoderImpl}
    (holds : condition) :
    answer impl
        (do
          let value ← given argument
          rejectIf condition
          rest value) =
      .ok (.error, impl) := by
  cases argument with
  | none =>
      exact answer_of_failed .GenericError rfl
  | some value =>
      apply answer_of_failed .GenericError
      rw [rejectIf_of holds]
      rfl

section

variable {Color : Type}
variable {library : Library Color}
variable {granted : Allocation → Bool}
variable {impl : EncoderImpl}

/-! A sealed encoder rejects every description, frame and box. -/

theorem setBasicInfo_sealed
    (isSealed : Sealed impl)
    (info : Option JxlBasicInfo) :
    setBasicInfo impl info = .ok (.error, impl) :=
  answer_of_rejected (.inr (.inr isSealed.closed))

theorem setColorEncoding_sealed
    (isSealed : Sealed impl)
    (color : Option Color) :
    setColorEncoding library impl color = .ok (.error, impl) :=
  answer_of_rejected (.inr (.inr (.inr isSealed.closed)))

theorem setICCProfile_sealed
    (isSealed : Sealed impl)
    (icc_profile : CallerBuffer) :
    setICCProfile granted impl icc_profile = .ok (.error, impl) := by
  unfold setICCProfile checkICCProfile
  cases icc_profile.data with
  | none =>
      rfl
  | some memory =>
      rw [rejectIf_of (.inr (.inr (.inr (.inr isSealed.closed))))]
      rfl

theorem useBoxes_sealed
    (isSealed : Sealed impl) :
    useBoxes impl = .ok (.error, impl) := by
  unfold useBoxes
  apply answer_of_failed .GenericError
  rw [rejectIf_of (.inr (.inr (.inl isSealed.hasFrame)))]
  rfl

theorem addBox_sealed
    (isSealed : Sealed impl)
    (box_type : Option BoxType)
    (contents : CallerBuffer)
    (compress_box : Int) :
    addBox library granted impl box_type contents compress_box = .ok (.error, impl) := by
  have rejected :
      ¬ impl.use_boxes ∨ impl.boxes_closed ∨ impl.started_processing := by
    by_cases uses : impl.use_boxes = true
    · exact .inr (.inl (isSealed.boxes uses))
    · exact .inl uses
  exact answer_of_rejected rejected

theorem setExtraChannelInfo_sealed
    (isSealed : Sealed impl)
    (index : Nat)
    (info : Option JxlExtraChannelInfo) :
    setExtraChannelInfo impl index info = .ok (.error, impl) :=
  answer_of_rejected (.inr (.inr (.inr isSealed.closed)))

theorem setExtraChannelName_sealed
    (isSealed : Sealed impl)
    (index : Nat)
    (name : CallerBuffer) :
    setExtraChannelName impl index name = .ok (.error, impl) := by
  unfold setExtraChannelName
  apply answer_of_failed .GenericError
  rw [rejectIf_of (.inr (.inr (.inr isSealed.closed)))]
  rfl

theorem setFrameHeader_sealed
    (isSealed : Sealed impl)
    (settings : Option Nat)
    (frame_header : Option JxlFrameHeader) :
    setFrameHeader impl settings frame_header = .ok (.error, impl) := by
  unfold setFrameHeader
  cases settings with
  | none =>
      exact answer_of_failed .GenericError rfl
  | some settings =>
      exact answer_of_rejected (.inr isSealed.closed)

theorem checkImageFrame_sealed
    (isSealed : Sealed impl)
    (settings_impl : EncoderFrameSettings)
    (format : JxlPixelFormat)
    (memory : List UInt8)
    (size : Nat) :
    checkImageFrame impl settings_impl format memory size = fail .GenericError := by
  unfold checkImageFrame
  rw [rejectIf_of (.inr (.inr (.inl isSealed.closed)))]
  rfl

theorem checkExtraChannelBuffer_sealed
    (isSealed : Sealed impl)
    (format : JxlPixelFormat)
    (memory : List UInt8)
    (size index : Nat) :
    checkExtraChannelBuffer impl format memory size index = fail .GenericError := by
  unfold checkExtraChannelBuffer
  rw [rejectIf_of (.inr (.inr (.inr (.inr isSealed.closed))))]
  rfl

theorem closeBoxes_sealed
    (isSealed : Sealed impl) :
    closeBoxes impl = impl := by
  unfold closeBoxes
  split
  next => rfl
  next isOpen =>
    have uses : impl.use_boxes = true := not_not.1 (not_or.1 isOpen).1
    have already := isSealed.boxes uses
    obtain ⟨⟩ := impl
    cases already
    rfl

theorem queuePendingFrame_sealed
    (isSealed : Sealed impl) :
    queuePendingFrame granted impl = .ok impl := by
  unfold queuePendingFrame
  exact if_pos (List.length_eq_zero_iff.2 isSealed.noStaged)

theorem closeFrames_sealed
    (isSealed : Sealed impl) :
    closeFrames granted impl = .ok impl := by
  unfold closeFrames
  split
  next => rfl
  next =>
    rw [queuePendingFrame_sealed isSealed]
    have already := isSealed.closed
    obtain ⟨⟩ := impl
    cases already
    rfl

/-! Twins answer every call alike. -/

theorem alike_self
    {Report : Type}
    (answered : Checked (Report × EncoderImpl)) :
    Agree Alike answered answered :=
  Agree.refl (fun _ => ⟨rfl, .same _⟩) answered

/-- Both encoders reject a call, and stay as they are. -/
theorem alike_rejected
    {Report : Type}
    {report : Report}
    {first second : Checked (Report × EncoderImpl)}
    (isSealed : Sealed impl)
    (isFirst : first = .ok (report, impl))
    (isSecond : second = .ok (report, impl.started)) :
    Agree Alike first second := by
  rw [isFirst, isSecond]
  exact .ok ⟨rfl, .started isSealed⟩

theorem frameSettingsCreate_alike
    (isSealed : Sealed impl)
    (source : Option Nat) :
    Agree Alike
      (frameSettingsCreate granted impl source)
      (frameSettingsCreate granted impl.started source) := by
  unfold frameSettingsCreate
  have answered (initial : EncoderFrameSettings) :
      Agree Alike
        (answer impl (do
          allocate granted .settings 1
          allocate granted .settingsEntry 1
          return { impl with frame_settings := impl.frame_settings ++ [initial] }))
        (answer impl.started (do
          allocate granted .settings 1
          allocate granted .settingsEntry 1
          return {
            impl.started with
            frame_settings := impl.started.frame_settings ++ [initial] })) := by
    by_cases first : granted .settings = true
    · by_cases second : granted .settingsEntry = true
      · simp only [allocate, first, second, or_true, if_true, ok_bind]
        exact .ok ⟨rfl,
          .started ⟨isSealed.closed, isSealed.hasFrame, isSealed.noStaged, isSealed.boxes⟩⟩
      · simp only [allocate, first, second, or_true, if_true, ok_bind]
        exact .ok ⟨rfl, .started isSealed⟩
    · simp only [allocate, first]
      exact .ok ⟨rfl, .started isSealed⟩
  cases source with
  | none =>
      exact answered {}
  | some settings =>
      exact Agree.bind_same (index impl.frame_settings settings)
        fun initial _ => answered initial

theorem addImageFrame_alike
    (isSealed : Sealed impl)
    (settings : Option Nat)
    (format : Option JxlPixelFormat)
    (buffer : CallerBuffer) :
    Agree Alike
      (addImageFrame granted impl settings format buffer)
      (addImageFrame granted impl.started settings format buffer) := by
  have rejected :
      Agree Alike
        (.ok (.error, impl) : Checked (JxlEncoderStatus × EncoderImpl))
        (.ok (.error, impl.started)) :=
    alike_rejected isSealed rfl rfl
  unfold addImageFrame
  cases settings with
  | none => exact rejected
  | some settings =>
      cases format with
      | none => exact rejected
      | some format =>
          cases buffer.data with
          | none => exact rejected
          | some memory =>
              refine Agree.bind_same (index impl.frame_settings settings) ?_
              intro settings_impl _
              rw [checkImageFrame_sealed isSealed, checkImageFrame_sealed isSealed.started]
              exact rejected

theorem setExtraChannelBuffer_alike
    (isSealed : Sealed impl)
    (settings : Option Nat)
    (format : Option JxlPixelFormat)
    (buffer : CallerBuffer)
    (index : Nat) :
    Agree Alike
      (setExtraChannelBuffer library granted impl settings format buffer index)
      (setExtraChannelBuffer library granted impl.started settings format buffer
        index) := by
  have rejected :
      Agree Alike
        (.ok (.error, impl) : Checked (JxlEncoderStatus × EncoderImpl))
        (.ok (.error, impl.started)) :=
    alike_rejected isSealed rfl rfl
  unfold setExtraChannelBuffer
  cases settings with
  | none => exact rejected
  | some settings =>
      cases format with
      | none => exact rejected
      | some format =>
          cases buffer.data with
          | none => exact rejected
          | some memory =>
              refine Agree.bind_same (require (settings < impl.frame_settings.length)) ?_
              intro _ _
              rw [checkExtraChannelBuffer_sealed isSealed,
                checkExtraChannelBuffer_sealed isSealed.started]
              exact rejected

theorem closeInput_sealed
    (isSealed : Sealed impl) :
    closeInput granted impl =
      .ok
        { impl with
          boxes_closed := impl.boxes_closed || impl.use_boxes
          frames_closed := true
          input_closed := true } := by
  unfold closeInput
  rw [queuePendingFrame_sealed isSealed]
  rfl

/-- Closing the input of a sealed encoder leaves it sealed. -/
theorem Sealed.closeInput
    (isSealed : Sealed impl) :
    Sealed
      { impl with
        boxes_closed := impl.boxes_closed || impl.use_boxes
        frames_closed := true
        input_closed := true } :=
  { closed := rfl
    hasFrame := isSealed.hasFrame
    noStaged := isSealed.noStaged
    boxes := fun uses => by
      rw [uses]
      exact Bool.or_true _ }

/-- One call of a sealed encoder and of its twin. -/
theorem step_started
    (isSealed : Sealed impl)
    (request : Request Color) :
    Agree Alike (step library impl request) (step library impl.started request) := by
  obtain ⟨call, granted⟩ := request
  have plain
      {first second : Checked (JxlEncoderStatus × EncoderImpl)}
      (answered : Agree Alike first second) :
      Agree Alike
        (do
          let answer ← first
          return (({ status := answer.1 } : Reply), answer.2))
        (do
          let answer ← second
          return (({ status := answer.1 } : Reply), answer.2)) := by
    refine answered.bind ?_
    rintro ⟨status, next⟩ ⟨_, twin⟩ ⟨rfl, isTwin⟩
    exact .ok ⟨rfl, isTwin⟩
  have silent
      {next twin : EncoderImpl}
      {first second : Checked EncoderImpl}
      (isFirst : first = .ok next)
      (isSecond : second = .ok twin)
      (isTwin : Twin next twin) :
      Agree Alike
        (do
          let next ← first
          return (({ status := .success } : Reply), next))
        (do
          let next ← second
          return (({ status := .success } : Reply), next)) := by
    rw [isFirst, isSecond]
    exact .ok ⟨rfl, isTwin⟩
  have isSealed' := isSealed.started
  cases call with
  | frameSettingsCreate source =>
      exact plain (frameSettingsCreate_alike isSealed source)
  | setBasicInfo info =>
      exact plain
        (alike_rejected isSealed (setBasicInfo_sealed isSealed info)
          (setBasicInfo_sealed isSealed' info))
  | setColorEncoding color =>
      exact plain
        (alike_rejected isSealed (setColorEncoding_sealed isSealed color)
          (setColorEncoding_sealed isSealed' color))
  | setICCProfile icc_profile =>
      exact plain
        (alike_rejected isSealed (setICCProfile_sealed isSealed icc_profile)
          (setICCProfile_sealed isSealed' icc_profile))
  | useBoxes =>
      exact plain
        (alike_rejected isSealed (useBoxes_sealed isSealed) (useBoxes_sealed isSealed'))
  | addBox box_type contents compress_box =>
      exact plain
        (alike_rejected isSealed (addBox_sealed isSealed box_type contents compress_box)
          (addBox_sealed isSealed' box_type contents compress_box))
  | closeBoxes =>
      exact silent
        (congrArg Except.ok (closeBoxes_sealed isSealed))
        (congrArg Except.ok (closeBoxes_sealed isSealed'))
        (.started isSealed)
  | setExtraChannelInfo index info =>
      exact plain
        (alike_rejected isSealed (setExtraChannelInfo_sealed isSealed index info)
          (setExtraChannelInfo_sealed isSealed' index info))
  | setExtraChannelName index name =>
      exact plain
        (alike_rejected isSealed (setExtraChannelName_sealed isSealed index name)
          (setExtraChannelName_sealed isSealed' index name))
  | setFrameHeader settings frame_header =>
      exact plain
        (alike_rejected isSealed (setFrameHeader_sealed isSealed settings frame_header)
          (setFrameHeader_sealed isSealed' settings frame_header))
  | addImageFrame settings format buffer =>
      exact plain (addImageFrame_alike isSealed settings format buffer)
  | setExtraChannelBuffer settings format buffer index =>
      exact plain (setExtraChannelBuffer_alike isSealed settings format buffer index)
  | closeFrames =>
      exact silent (closeFrames_sealed isSealed) (closeFrames_sealed isSealed')
        (.started isSealed)
  | closeInput =>
      exact silent (closeInput_sealed isSealed) (closeInput_sealed isSealed')
        (.started isSealed.closeInput)
  | processOutput space =>
      cases space with
      | none => exact .ok ⟨rfl, .started isSealed⟩
      | some space => exact alike_self _

theorem runCalls_eq_answers
    (impl : EncoderImpl)
    (requests : List (Request Color)) :
    runCalls library impl requests = Except.answers (step library) impl requests := by
  induction requests generalizing impl with
  | nil =>
      rfl
  | cons request requests inductionHypothesis =>
      rw [runCalls, Except.answers]
      simp only [inductionHypothesis]

/-- Twins give the same reports in every run. -/
theorem Twin.sameReports
    {other : EncoderImpl}
    (twin : Twin impl other)
    (requests : List (Request Color)) :
    (runCalls library impl requests).map Prod.fst =
      (runCalls library other requests).map Prod.fst := by
  have alike
      (_ : Nat)
      (first second : EncoderImpl)
      (request : Request Color)
      (isTwin : Twin first second) :
      Agree Alike (step library first request) (step library second request) := by
    cases isTwin with
    | same => exact alike_self _
    | started isSealed => exact step_started isSealed request
  have agree :
      Agree Alike (runCalls library impl requests) (runCalls library other requests) := by
    rw [runCalls_eq_answers, runCalls_eq_answers]
    exact @Except.answers_agree _ _ _ _ _ (step library) (step library) (fun _ => Twin)
      alike impl other requests twin
  generalize runCalls library impl requests = first at agree ⊢
  generalize runCalls library other requests = second at agree ⊢
  cases agree with
  | ok same => exact congrArg Except.ok same.1
  | error fault => rfl

end

end Jxlz.Capi
