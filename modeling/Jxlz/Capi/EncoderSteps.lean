import Jxlz.Capi.EncoderCalls

namespace Jxlz.Capi

open Container Delivery EncApi

/-!
# What each call of the encoder can do

One lemma for each call says what its outcome can be: which guards have held, and
what the encoder is afterwards.
-/

theorem rejectIf_eq_ok
    {condition : Prop}
    [Decidable condition] :
    rejectIf condition = .ok () ↔ ¬ condition :=
  failIf_eq_ok

theorem given_eq_ok
    {α : Type}
    {argument : Option α}
    {value : α} :
    given argument = .ok value ↔ argument = some value := by
  unfold given fail
  cases argument with
  | none =>
      exact ⟨fun impossible => (by cases impossible), fun impossible => (by cases impossible)⟩
  | some found =>
      exact ⟨fun same => congrArg some (Except.ok.inj same),
        fun same => congrArg Except.ok (Option.some.inj same)⟩

theorem attempt_eq_ok
    {α : Type}
    {computation : Checked α}
    {outcome : Except JxlError α} :
    attempt computation = .ok outcome ↔
      (∃ value, outcome = .ok value ∧ computation = .ok value) ∨
        ∃ code, outcome = .error code ∧ computation = .error (.error code) := by
  rcases computation with (code | _ | _) | value
  · constructor
    · intro attempted
      cases attempted
      exact .inr ⟨code, rfl, rfl⟩
    · rintro (⟨_, _, impossible⟩ | ⟨_, rfl, same⟩)
      · cases impossible
      · cases same
        rfl
  · constructor
    · intro impossible
      cases impossible
    · rintro (⟨_, _, impossible⟩ | ⟨_, _, impossible⟩) <;> cases impossible
  · constructor
    · intro impossible
      cases impossible
    · rintro (⟨_, _, impossible⟩ | ⟨_, _, impossible⟩) <;> cases impossible
  · constructor
    · intro attempted
      cases attempted
      exact .inl ⟨value, rfl, rfl⟩
    · rintro (⟨_, rfl, same⟩ | ⟨_, _, impossible⟩)
      · cases same
        rfl
      · cases impossible

/-- A slice is a part of its source. -/
theorem slice_eq_part
    {items result : List UInt8}
    {start stop : Nat} :
    slice items start stop = .ok result ↔
      start ≤ stop ∧ stop ≤ items.length ∧ result = part items start (stop - start) := by
  unfold slice part
  split
  next inside =>
    constructor
    · intro same
      cases same
      exact ⟨inside.1, inside.2, rfl⟩
    · rintro ⟨_, _, rfl⟩
      rfl
  next outside =>
    constructor
    · intro impossible
      cases impossible
    · rintro ⟨ordered, small, _⟩
      exact absurd ⟨ordered, small⟩ outside

theorem allocate_failed
    {granted : Allocation → Bool}
    {allocation : Allocation}
    {size : Nat}
    {code : JxlError}
    (failed : allocate granted allocation size = .error (.error code)) :
    granted allocation = false := by
  unfold allocate at failed
  split at failed
  next => cases failed
  next memoryLeft => exact Bool.eq_false_of_not_eq_true (not_or.1 memoryLeft).2

/-- The last assignment to a channel counts. -/
theorem setPending_setPending
    (impl : EncoderImpl)
    (index : Nat)
    (first last : PendingExtraChannel) :
    (impl.setPending index first).setPending index last =
      impl.setPending index last := by
  unfold EncoderImpl.setPending
  congr 1
  funext channel
  dsimp only
  split <;> rfl

/-- A call succeeds with what its body returns, or changes nothing. -/
theorem answer_cases
    {impl next : EncoderImpl}
    {body : Checked EncoderImpl}
    {status : JxlEncoderStatus}
    (answered : answer impl body = .ok (status, next)) :
    (status = .success ∧ body = .ok next) ∨ (status = .error ∧ next = impl) := by
  unfold answer at answered
  obtain ⟨outcome, attempted, answered⟩ := bind_eq_ok.1 answered
  rcases attempt_eq_ok.1 attempted with ⟨value, rfl, isValue⟩ | ⟨code, rfl, _⟩
  · cases answered
    exact .inl ⟨rfl, isValue⟩
  · cases answered
    exact .inr ⟨rfl, rfl⟩

/-- The description of the image may still change. -/
structure Describing
    (impl : EncoderImpl) :
    Prop where
  notStarted : impl.started_processing = false
  noFrame : impl.added_frame = false
  notClosed : impl.frames_closed = false

section

variable {Color : Type}
variable {library : Library Color}
variable {granted : Allocation → Bool}
variable {impl next : EncoderImpl}
variable {status : JxlEncoderStatus}

theorem frameSettingsCreate_cases
    {source : Option Nat}
    (answered : frameSettingsCreate granted impl source = .ok (status, next)) :
    (status = .success ∧
      ∃ initial,
        next = { impl with frame_settings := impl.frame_settings ++ [initial] }) ∨
      (status = .error ∧ next = impl) := by
  unfold frameSettingsCreate at answered
  obtain ⟨initial, _, answered⟩ := bind_eq_ok.1 answered
  rcases answer_cases answered with ⟨isSuccess, body⟩ | rejected
  · obtain ⟨_, _, body⟩ := bind_eq_ok.1 body
    obtain ⟨_, _, body⟩ := bind_eq_ok.1 body
    cases body
    exact .inl ⟨isSuccess, initial, rfl⟩
  · exact .inr rejected

theorem setBasicInfo_cases
    {info : Option JxlBasicInfo}
    (answered : setBasicInfo impl info = .ok (status, next)) :
    (status = .success ∧
      Describing impl ∧
      ∃ src,
        validateBasicInfoForSimpleEncode src = .ok () ∧
          next = { impl with basic_info := src, basic_info_set := true }) ∨
      (status = .error ∧ next = impl) := by
  unfold setBasicInfo at answered
  rcases answer_cases answered with ⟨isSuccess, body⟩ | rejected
  · obtain ⟨src, _, body⟩ := bind_eq_ok.1 body
    obtain ⟨_, isOpen, body⟩ := bind_eq_ok.1 body
    obtain ⟨_, isValid, body⟩ := bind_eq_ok.1 body
    cases body
    have guards := rejectIf_eq_ok.1 isOpen
    simp only [not_or, Bool.not_eq_true] at guards
    exact .inl ⟨isSuccess, ⟨guards.1, guards.2.1, guards.2.2⟩, src, isValid, rfl⟩
  · exact .inr rejected

theorem setColorEncoding_cases
    {color : Option Color}
    (answered : setColorEncoding library impl color = .ok (status, next)) :
    (status = .success ∧
      Describing impl ∧
      impl.basic_info_set = true ∧
      ∃ internal,
        next =
          { impl with
            internal_color_encoding := some internal
            color_encoding_set := true }) ∨
      (status = .error ∧ next = impl) := by
  unfold setColorEncoding at answered
  rcases answer_cases answered with ⟨isSuccess, body⟩ | rejected
  · obtain ⟨_, _, body⟩ := bind_eq_ok.1 body
    obtain ⟨_, isOpen, body⟩ := bind_eq_ok.1 body
    obtain ⟨internal, _, body⟩ := bind_eq_ok.1 body
    cases body
    have guards := rejectIf_eq_ok.1 isOpen
    simp only [not_or, Bool.not_eq_false, Bool.not_eq_true] at guards
    obtain ⟨isSet, notStarted, noFrame, notClosed⟩ := guards
    exact .inl ⟨isSuccess, ⟨notStarted, noFrame, notClosed⟩, isSet, internal, rfl⟩
  · exact .inr rejected

theorem checkICCProfile_ok
    {icc_profile : CallerBuffer}
    {icc : List UInt8}
    {shape : IccEmbeddingShape}
    (checked : checkICCProfile impl icc_profile = .ok (icc, shape)) :
    Describing impl ∧ impl.basic_info_set = true ∧ impl.color_encoding_set = false := by
  unfold checkICCProfile at checked
  obtain ⟨_, _, checked⟩ := bind_eq_ok.1 checked
  obtain ⟨_, isOpen, checked⟩ := bind_eq_ok.1 checked
  have guards := rejectIf_eq_ok.1 isOpen
  simp only [not_or, Bool.not_eq_false, Bool.not_eq_true] at guards
  obtain ⟨isSet, noEncoding, notStarted, noFrame, notClosed⟩ := guards
  exact ⟨⟨notStarted, noFrame, notClosed⟩, isSet, noEncoding⟩

/-- The profile before is gone even where the new one could not be kept. -/
theorem setICCProfile_cases
    {icc_profile : CallerBuffer}
    (answered : setICCProfile granted impl icc_profile = .ok (status, next)) :
    (status = .success ∧
      Describing impl ∧
      impl.basic_info_set = true ∧
      ∃ icc internal,
        next =
          { impl with
            owned_icc := icc
            internal_color_encoding := some internal
            color_encoding_set := true }) ∨
      (status = .error ∧
        (next = impl ∨
          (impl.color_encoding_set = false ∧ next = { impl with owned_icc := [] }))) := by
  unfold setICCProfile at answered
  obtain ⟨outcome, attempted, answered⟩ := bind_eq_ok.1 answered
  rcases attempt_eq_ok.1 attempted with ⟨⟨icc, shape⟩, rfl, checked⟩ | ⟨code, rfl, _⟩
  · obtain ⟨describing, isSet, noEncoding⟩ := checkICCProfile_ok checked
    rcases answer_cases answered with ⟨isSuccess, body⟩ | ⟨isError, rfl⟩
    · obtain ⟨_, _, body⟩ := bind_eq_ok.1 body
      cases body
      exact .inl ⟨isSuccess, describing, isSet, icc, _, rfl⟩
    · exact .inr ⟨isError, .inr ⟨noEncoding, rfl⟩⟩
  · cases answered
    exact .inr ⟨rfl, .inl rfl⟩

theorem useBoxes_cases
    (answered : useBoxes impl = .ok (status, next)) :
    (status = .success ∧
      impl.started_processing = false ∧
      impl.added_frame = false ∧
      next = { impl with use_boxes := true, boxes_closed := false }) ∨
      (status = .error ∧ next = impl) := by
  unfold useBoxes at answered
  rcases answer_cases answered with ⟨isSuccess, body⟩ | rejected
  · obtain ⟨_, isOpen, body⟩ := bind_eq_ok.1 body
    cases body
    have guards := rejectIf_eq_ok.1 isOpen
    simp only [not_or, Bool.not_eq_false, Bool.not_eq_true] at guards
    obtain ⟨_, notStarted, noFrame, _⟩ := guards
    exact .inl ⟨isSuccess, notStarted, noFrame, rfl⟩
  · exact .inr rejected

theorem addBox_cases
    {box_type : Option BoxType}
    {contents : CallerBuffer}
    {compress_box : Int}
    (answered :
      addBox library granted impl box_type contents compress_box = .ok (status, next)) :
    (status = .success ∧
      impl.use_boxes = true ∧
      impl.boxes_closed = false ∧
      impl.started_processing = false ∧
      ∃ box, next = { impl with staged_boxes := impl.staged_boxes ++ [box] }) ∨
      (status = .error ∧ next = impl) := by
  unfold addBox at answered
  rcases answer_cases answered with ⟨isSuccess, body⟩ | rejected
  · obtain ⟨_, _, body⟩ := bind_eq_ok.1 body
    obtain ⟨_, isOpen, body⟩ := bind_eq_ok.1 body
    obtain ⟨_, _, body⟩ := bind_eq_ok.1 body
    obtain ⟨_, _, body⟩ := bind_eq_ok.1 body
    obtain ⟨box, _, body⟩ := bind_eq_ok.1 body
    obtain ⟨_, _, body⟩ := bind_eq_ok.1 body
    cases body
    have guards := rejectIf_eq_ok.1 isOpen
    simp only [not_or, Bool.not_eq_false, Bool.not_eq_true] at guards
    obtain ⟨uses, notClosed, notStarted⟩ := guards
    exact .inl ⟨isSuccess, uses, notClosed, notStarted, box, rfl⟩
  · exact .inr rejected

theorem setExtraChannelInfo_cases
    {index : Nat}
    {info : Option JxlExtraChannelInfo}
    (answered : setExtraChannelInfo impl index info = .ok (status, next)) :
    (status = .success ∧
      Describing impl ∧
      ∃ described name_length,
        validateExtraChannelInfoForSimpleEncode impl.basic_info index described =
            .ok () ∧
          next =
            impl.setPending index
              { impl.pending_extra_channels index with
                info := { described with name_length }
                info_set := true }) ∨
      (status = .error ∧ next = impl) := by
  unfold setExtraChannelInfo at answered
  rcases answer_cases answered with ⟨isSuccess, body⟩ | rejected
  · obtain ⟨described, _, body⟩ := bind_eq_ok.1 body
    obtain ⟨_, isOpen, body⟩ := bind_eq_ok.1 body
    obtain ⟨_, _, body⟩ := bind_eq_ok.1 body
    obtain ⟨_, isValid, body⟩ := bind_eq_ok.1 body
    obtain ⟨_, _, body⟩ := bind_eq_ok.1 body
    cases body
    have guards := rejectIf_eq_ok.1 isOpen
    simp only [not_or, Bool.not_eq_false, Bool.not_eq_true] at guards
    obtain ⟨_, notStarted, noFrame, notClosed⟩ := guards
    exact .inl
      ⟨isSuccess, ⟨notStarted, noFrame, notClosed⟩, described, _, isValid, rfl⟩
  · exact .inr rejected

theorem setExtraChannelName_cases
    {index : Nat}
    {name : CallerBuffer}
    (answered : setExtraChannelName impl index name = .ok (status, next)) :
    (status = .success ∧
      Describing impl ∧
      ∃ bytes name_length,
        next =
          impl.setPending index
            { impl.pending_extra_channels index with
              name := bytes
              info :=
                { (impl.pending_extra_channels index).info with name_length } }) ∨
      (status = .error ∧ next = impl) := by
  unfold setExtraChannelName at answered
  rcases answer_cases answered with ⟨isSuccess, body⟩ | rejected
  · obtain ⟨_, isOpen, body⟩ := bind_eq_ok.1 body
    obtain ⟨_, _, body⟩ := bind_eq_ok.1 body
    obtain ⟨_, _, body⟩ := bind_eq_ok.1 body
    obtain ⟨_, _, body⟩ := bind_eq_ok.1 body
    obtain ⟨bytes, _, body⟩ := bind_eq_ok.1 body
    cases body
    have guards := rejectIf_eq_ok.1 isOpen
    simp only [not_or, Bool.not_eq_false, Bool.not_eq_true] at guards
    obtain ⟨_, notStarted, noFrame, notClosed⟩ := guards
    exact .inl ⟨isSuccess, ⟨notStarted, noFrame, notClosed⟩, bytes, name.size, rfl⟩
  · exact .inr rejected

theorem setFrameHeader_cases
    {settings : Option Nat}
    {frame_header : Option JxlFrameHeader}
    (answered : setFrameHeader impl settings frame_header = .ok (status, next)) :
    (status = .success ∧
      impl.started_processing = false ∧
      impl.frames_closed = false ∧
      ∃ frame_settings, next = { impl with frame_settings }) ∨
      (status = .error ∧ next = impl) := by
  unfold setFrameHeader at answered
  rcases answer_cases answered with ⟨isSuccess, body⟩ | rejected
  · obtain ⟨_, _, body⟩ := bind_eq_ok.1 body
    obtain ⟨_, _, body⟩ := bind_eq_ok.1 body
    obtain ⟨_, isOpen, body⟩ := bind_eq_ok.1 body
    obtain ⟨frame_settings, _, body⟩ := bind_eq_ok.1 body
    cases body
    have guards := rejectIf_eq_ok.1 isOpen
    simp only [not_or, Bool.not_eq_true] at guards
    exact .inl ⟨isSuccess, guards.1, guards.2, frame_settings, rfl⟩
  · exact .inr rejected

/-- The encoder after its staged frame was queued. -/
def EncoderImpl.queueStaged
    (impl : EncoderImpl) :
    EncoderImpl :=
  clearPendingFrameBuffers
    { impl with
      queued_frames := impl.queued_frames ++ [impl.stagedFrame]
      added_frame := true }

theorem queuePendingFrame_cases
    (queued : queuePendingFrame granted impl = .ok next) :
    (impl.image_bytes = [] ∧ next = impl) ∨
      (impl.image_bytes ≠ [] ∧ next = impl.queueStaged) := by
  unfold queuePendingFrame at queued
  split at queued
  next isEmpty =>
    cases queued
    exact .inl ⟨List.length_eq_zero_iff.1 isEmpty, rfl⟩
  next staged =>
    obtain ⟨_, _, queued⟩ := bind_eq_ok.1 queued
    obtain ⟨_, _, queued⟩ := bind_eq_ok.1 queued
    obtain ⟨_, _, queued⟩ := bind_eq_ok.1 queued
    cases queued
    exact .inr ⟨fun isEmpty => staged (List.length_eq_zero_iff.2 isEmpty), rfl⟩

/-- What a frame that passes its checks gives to the encoder. -/
structure AcceptedFrame
    (impl : EncoderImpl)
    (format : JxlPixelFormat)
    (memory pixels : List UInt8) :
    Prop where
  described : impl.basic_info_set = true ∧ impl.color_encoding_set = true
  notStarted : impl.started_processing = false
  notClosed : impl.frames_closed = false
  sampleFormat : checkSampleFormat impl.basic_info.bits_per_sample format = .ok ()
  enough : impl.basic_info.num_color_channels ≤ format.num_channels
  notTooMany :
    format.num_channels ≤
      impl.basic_info.num_color_channels + (if impl.hasAlpha then 1 else 0)
  wholeAlpha :
    ¬ (impl.hasAlpha ∧
      format.num_channels =
          impl.basic_info.num_color_channels + (if impl.hasAlpha then 1 else 0) ∧
      (impl.pending_extra_channels 0).info_set ∧
      (impl.pending_extra_channels 0).info.dim_shift ≠ 0)
  taken :
    ∃ stride,
      rowStrideBytes impl.basic_info.xsize format = some stride ∧
        stride * impl.basic_info.ysize < 2 ^ 64 ∧
        stride * impl.basic_info.ysize ≤ memory.length ∧
        pixels = memory.take (stride * impl.basic_info.ysize)

theorem checkImageFrame_ok
    {settings_impl : EncoderFrameSettings}
    {format : JxlPixelFormat}
    {memory pixels : List UInt8}
    {size : Nat}
    (checked : checkImageFrame impl settings_impl format memory size = .ok pixels) :
    AcceptedFrame impl format memory pixels := by
  unfold checkImageFrame at checked
  obtain ⟨_, isOpen, checked⟩ := bind_eq_ok.1 checked
  obtain ⟨_, isFormat, checked⟩ := bind_eq_ok.1 checked
  obtain ⟨_, isRange, checked⟩ := bind_eq_ok.1 checked
  obtain ⟨_, isWhole, checked⟩ := bind_eq_ok.1 checked
  obtain ⟨_, _, checked⟩ := bind_eq_ok.1 checked
  obtain ⟨stride, isStride, checked⟩ := bind_eq_ok.1 checked
  obtain ⟨needed, isNeeded, checked⟩ := bind_eq_ok.1 checked
  obtain ⟨_, _, checked⟩ := bind_eq_ok.1 checked
  obtain ⟨rfl, small⟩ := mulU_eq_ok isNeeded
  have guards := rejectIf_eq_ok.1 isOpen
  simp only [not_or, Bool.not_eq_false, Bool.not_eq_true] at guards
  obtain ⟨isSet, hasEncoding, notClosed, notStarted⟩ := guards
  have channels := rejectIf_eq_ok.1 isRange
  obtain ⟨enough, notTooMany⟩ := not_or.1 channels
  obtain ⟨_, inside, rfl⟩ := slice_eq_part.1 checked
  exact
    { described := ⟨isSet, hasEncoding⟩
      notStarted, notClosed
      sampleFormat := isFormat
      enough := Nat.le_of_not_lt enough
      notTooMany := Nat.le_of_not_lt notTooMany
      wholeAlpha := rejectIf_eq_ok.1 isWhole
      taken := ⟨stride, given_eq_ok.1 isStride, small, inside, rfl⟩ }

/-- The encoder with a new staged frame. -/
def EncoderImpl.stageFrame
    (impl : EncoderImpl)
    (settings_impl : EncoderFrameSettings)
    (format : JxlPixelFormat)
    (pixels : List UInt8) :
    EncoderImpl :=
  { impl with
    image_bytes := pixels
    image_format := format
    pending_frame_header_set := settings_impl.frame_header_set
    pending_frame_header := settings_impl.frame_header
    added_frame := true }

/-- The encoder without a staged frame, which is queued if there was one. -/
def EncoderImpl.flushed
    (impl : EncoderImpl) :
    EncoderImpl :=
  if impl.image_bytes = [] then impl else impl.queueStaged

theorem queuePendingFrame_ok
    (queued : queuePendingFrame granted impl = .ok next) :
    next = impl.flushed := by
  unfold EncoderImpl.flushed
  rcases queuePendingFrame_cases queued with ⟨isEmpty, rfl⟩ | ⟨staged, rfl⟩
  · rw [if_pos isEmpty]
  · rw [if_neg staged]

/-- The frame before is queued, and no memory is left for the accepted new one. -/
structure StopsHalfway
    (granted : Allocation → Bool)
    (impl : EncoderImpl)
    (settings : Option Nat)
    (format : Option JxlPixelFormat)
    (buffer : CallerBuffer) :
    Prop where
  accepted :
    ∃ place settings_impl isFormat memory pixels,
      settings = some place ∧
        index impl.frame_settings place = .ok settings_impl ∧
        format = some isFormat ∧
        buffer.data = some memory ∧
        checkImageFrame impl settings_impl isFormat memory buffer.size =
          .ok pixels
  queued : ∃ queued, queuePendingFrame granted impl = .ok queued
  noMemory : granted .image = false

/--
A frame is staged behind the frame before it, or nothing happens, or the call
stops halfway.
-/
theorem addImageFrame_cases
    {settings : Option Nat}
    {format : Option JxlPixelFormat}
    {buffer : CallerBuffer}
    (answered :
      addImageFrame granted impl settings format buffer = .ok (status, next)) :
    (status = .success ∧
      ∃ settings_impl isFormat memory pixels,
        format = some isFormat ∧
          buffer.data = some memory ∧
          AcceptedFrame impl isFormat memory pixels ∧
          next = impl.flushed.stageFrame settings_impl isFormat pixels) ∨
      (status = .error ∧
        (next = impl ∨
          (next = impl.flushed ∧
            StopsHalfway granted impl settings format buffer))) := by
  unfold addImageFrame at answered
  rcases settings with _ | settings
  · cases answered
    exact .inr ⟨rfl, .inl rfl⟩
  rcases format with _ | format
  · cases answered
    exact .inr ⟨rfl, .inl rfl⟩
  cases isData : buffer.data with
  | none =>
      rw [isData] at answered
      cases answered
      exact .inr ⟨rfl, .inl rfl⟩
  | some memory =>
      rw [isData] at answered
      dsimp only at answered
      obtain ⟨settings_impl, isSettings, answered⟩ := bind_eq_ok.1 answered
      obtain ⟨outcome, attempted, answered⟩ := bind_eq_ok.1 answered
      rcases attempt_eq_ok.1 attempted with ⟨pixels, rfl, checked⟩ | ⟨_, rfl, _⟩
      · have accepted := checkImageFrame_ok checked
        dsimp only at answered
        obtain ⟨outcome, attempted, answered⟩ := bind_eq_ok.1 answered
        rcases attempt_eq_ok.1 attempted with ⟨flushed, rfl, queued⟩ | ⟨_, rfl, _⟩
        · cases queuePendingFrame_ok queued
          dsimp only at answered
          obtain ⟨outcome, attempted, answered⟩ := bind_eq_ok.1 answered
          rcases attempt_eq_ok.1 attempted with ⟨_, rfl, _⟩ | ⟨_, rfl, failed⟩
          · cases answered
            exact .inl ⟨rfl, settings_impl, format, memory, pixels, rfl, rfl, accepted, rfl⟩
          · cases answered
            have halfway :
                StopsHalfway granted impl (some settings) (some format) buffer :=
              { accepted :=
                  ⟨settings, settings_impl, format, memory, pixels, rfl, isSettings, rfl,
                    isData, checked⟩
                queued := ⟨_, queued⟩
                noMemory := allocate_failed failed }
            exact .inr ⟨rfl, .inr ⟨rfl, halfway⟩⟩
        · cases answered
          exact .inr ⟨rfl, .inl rfl⟩
      · cases answered
        exact .inr ⟨rfl, .inl rfl⟩

/-- What a plane that passes its checks gives to the encoder. -/
structure AcceptedPlane
    (impl : EncoderImpl)
    (format : JxlPixelFormat)
    (memory : List UInt8)
    (index : Nat)
    (plane : CheckedPlane) :
    Prop where
  staged : impl.image_bytes ≠ []
  notStarted : impl.started_processing = false
  notClosed : impl.frames_closed = false
  inRange : index < impl.basic_info.num_extra_channels ∧ index < channelSlots
  described :
    isStagedAlpha impl index = false →
      (impl.pending_extra_channels index).info_set = true
  alphaFormat :
    isStagedAlpha impl index = true →
      checkSampleFormat impl.basic_info.alpha_bits format = .ok ()
  sidecarFormat : isStagedAlpha impl index = false → format.data_type = .uint8
  width :
    subsampledSize impl.basic_info.xsize (channelDimShift impl index) =
      .ok plane.plane_width
  height :
    subsampledSize impl.basic_info.ysize (channelDimShift impl index) =
      .ok plane.plane_height
  stride :
    rowStrideBytes plane.plane_width { format with num_channels := 1 } =
      some plane.stride
  small : plane.stride * plane.plane_height < 2 ^ 64
  inside : plane.stride * plane.plane_height ≤ memory.length
  taken : plane.bytes = memory.take (plane.stride * plane.plane_height)

theorem checkExtraChannelBuffer_ok
    {format : JxlPixelFormat}
    {memory : List UInt8}
    {size index : Nat}
    {plane : CheckedPlane}
    (checked :
      checkExtraChannelBuffer impl format memory size index = .ok plane) :
    AcceptedPlane impl format memory index plane := by
  unfold checkExtraChannelBuffer at checked
  obtain ⟨_, isOpen, checked⟩ := bind_eq_ok.1 checked
  obtain ⟨_, inChannels, checked⟩ := bind_eq_ok.1 checked
  obtain ⟨_, inSlots, checked⟩ := bind_eq_ok.1 checked
  obtain ⟨_, isDescribed, checked⟩ := bind_eq_ok.1 checked
  obtain ⟨_, isFormat, checked⟩ := bind_eq_ok.1 checked
  obtain ⟨plane_width, isWidth, checked⟩ := bind_eq_ok.1 checked
  obtain ⟨narrowed, isNarrow, checked⟩ := bind_eq_ok.1 checked
  obtain ⟨plane_height, isHeight, checked⟩ := bind_eq_ok.1 checked
  obtain ⟨stride, isStride, checked⟩ := bind_eq_ok.1 checked
  obtain ⟨needed, isNeeded, checked⟩ := bind_eq_ok.1 checked
  obtain ⟨_, _, checked⟩ := bind_eq_ok.1 checked
  obtain ⟨bytes, isSlice, checked⟩ := bind_eq_ok.1 checked
  cases checked
  obtain ⟨rfl, small⟩ := mulU_eq_ok isNeeded
  obtain ⟨rfl, _⟩ := castU_eq_ok isNarrow
  obtain ⟨_, inside, rfl⟩ := slice_eq_part.1 isSlice
  have guards := rejectIf_eq_ok.1 isOpen
  simp only [not_or, Bool.not_eq_false, Bool.not_eq_true] at guards
  obtain ⟨_, _, staged, notStarted, notClosed⟩ := guards
  have described := rejectIf_eq_ok.1 isDescribed
  exact
    { staged := fun isEmpty => staged (List.length_eq_zero_iff.2 isEmpty)
      notStarted, notClosed
      inRange :=
        ⟨Nat.lt_of_not_le (rejectIf_eq_ok.1 inChannels), require_eq_ok.1 inSlots⟩
      described := fun isSidecar => by
        rw [isSidecar] at described
        simpa using described
      alphaFormat := fun isAlpha => by
        rw [checkPlaneFormat, isAlpha] at isFormat
        exact isFormat
      sidecarFormat := fun isSidecar => by
        rw [checkPlaneFormat, isSidecar] at isFormat
        exact not_not.1 (rejectIf_eq_ok.1 isFormat)
      width := isWidth
      height := isHeight
      stride := given_eq_ok.1 isStride
      small, inside
      taken := rfl }

/-- The plane before is freed, and no memory is left for the accepted new one. -/
structure FreesFirst
    (granted : Allocation → Bool)
    (impl : EncoderImpl)
    (format : Option JxlPixelFormat)
    (buffer : CallerBuffer)
    (index : Nat) :
    Prop where
  accepted :
    ∃ isFormat memory plane,
      format = some isFormat ∧
        buffer.data = some memory ∧
        checkExtraChannelBuffer impl isFormat memory buffer.size index = .ok plane
  noMemory : granted .plane = false

/--
A plane is staged in place of the one before, or nothing happens, or the one
before is freed first and lost.
-/
theorem setExtraChannelBuffer_cases
    {settings : Option Nat}
    {format : Option JxlPixelFormat}
    {buffer : CallerBuffer}
    {index : Nat}
    (answered :
      setExtraChannelBuffer library granted impl settings format buffer index =
        .ok (status, next)) :
    (status = .success ∧
      ∃ isFormat memory plane staged,
        format = some isFormat ∧
          buffer.data = some memory ∧
          AcceptedPlane impl isFormat memory index plane ∧
          stagePlane library.builtinEndian isFormat (isStagedAlpha impl index) plane =
              .ok staged ∧
          next =
            impl.setPending index
              { impl.pending_extra_channels index with
                buffer := staged
                row_stride := plane.stride
                buffer_set := true }) ∨
      (status = .error ∧
        (next = impl ∨
          (FreesFirst granted impl format buffer index ∧
            next =
              impl.setPending index
                { impl.pending_extra_channels index with buffer := [] }))) := by
  unfold setExtraChannelBuffer at answered
  rcases settings with _ | settings
  · cases answered
    exact .inr ⟨rfl, .inl rfl⟩
  rcases format with _ | format
  · cases answered
    exact .inr ⟨rfl, .inl rfl⟩
  cases isData : buffer.data with
  | none =>
      rw [isData] at answered
      cases answered
      exact .inr ⟨rfl, .inl rfl⟩
  | some memory =>
      rw [isData] at answered
      dsimp only at answered
      obtain ⟨_, _, answered⟩ := bind_eq_ok.1 answered
      obtain ⟨outcome, attempted, answered⟩ := bind_eq_ok.1 answered
      rcases attempt_eq_ok.1 attempted with ⟨plane, rfl, checked⟩ | ⟨_, rfl, _⟩
      · have accepted := checkExtraChannelBuffer_ok checked
        dsimp only at answered
        obtain ⟨outcome, attempted, answered⟩ := bind_eq_ok.1 answered
        rcases attempt_eq_ok.1 attempted with ⟨_, rfl, _⟩ | ⟨_, rfl, failed⟩
        · obtain ⟨staged, isStaged, answered⟩ := bind_eq_ok.1 answered
          cases answered
          refine .inl ⟨rfl, format, memory, plane, staged, rfl, rfl, accepted,
            isStaged, ?_⟩
          exact setPending_setPending impl index _ _
        · cases answered
          have freed : FreesFirst granted impl (some format) buffer index :=
            { accepted := ⟨format, memory, plane, rfl, isData, checked⟩
              noMemory := allocate_failed failed }
          exact .inr ⟨rfl, .inr ⟨freed, rfl⟩⟩
      · cases answered
        exact .inr ⟨rfl, .inl rfl⟩

theorem closeFrames_cases
    (closed : closeFrames granted impl = .ok next) :
    next = impl ∨
      (impl.started_processing = false ∧
        next = { impl.flushed with frames_closed := true }) := by
  unfold closeFrames at closed
  split at closed
  next => exact .inl (Except.ok.inj closed).symm
  next notStarted =>
    obtain ⟨outcome, attempted, closed⟩ := bind_eq_ok.1 closed
    rcases attempt_eq_ok.1 attempted with ⟨flushed, rfl, queued⟩ | ⟨_, rfl, _⟩
    · cases queuePendingFrame_ok queued
      cases closed
      exact .inr ⟨Bool.eq_false_of_not_eq_true notStarted, rfl⟩
    · exact .inl (Except.ok.inj closed).symm

theorem closeInput_cases
    (closed : closeInput granted impl = .ok next) :
    next = impl ∨
      next =
        { impl.flushed with
          boxes_closed := impl.flushed.boxes_closed || impl.flushed.use_boxes
          frames_closed := true
          input_closed := true } := by
  unfold closeInput at closed
  obtain ⟨outcome, attempted, closed⟩ := bind_eq_ok.1 closed
  rcases attempt_eq_ok.1 attempted with ⟨flushed, rfl, queued⟩ | ⟨_, rfl, _⟩
  · cases queuePendingFrame_ok queued
    cases closed
    exact .inr rfl
  · exact .inl (Except.ok.inj closed).symm

/-- A stream is there already, or one is made, or only its codestream. -/
theorem finalizeSimpleEncode_cases
    {failed : Option JxlError}
    (finalized : finalizeSimpleEncode library granted impl = .ok (failed, next)) :
    (impl.encoded_bytes ≠ [] ∧ failed = none ∧ next = impl) ∨
      (impl.encoded_bytes = [] ∧
        ((failed ≠ none ∧ next = impl) ∨
          ∃ codestream,
            encodeQueuedFrames library granted impl = .ok codestream ∧
              (((∀ encoded_bytes,
                  wrapPendingBoxes granted { impl with encoded_bytes := codestream } ≠
                    .ok encoded_bytes) ∧
                    failed ≠ none ∧ next = { impl with encoded_bytes := codestream }) ∨
                ∃ encoded_bytes,
                  wrapPendingBoxes granted { impl with encoded_bytes := codestream } =
                      .ok encoded_bytes ∧
                    failed = none ∧
                    next = { impl with encoded_bytes, output_offset := 0 }))) := by
  unfold finalizeSimpleEncode at finalized
  split at finalized
  next finished =>
    cases finalized
    exact .inl ⟨fun isEmpty => finished (List.length_eq_zero_iff.2 isEmpty), rfl, rfl⟩
  next isEmpty =>
    refine .inr ⟨List.length_eq_zero_iff.1 (not_not.1 isEmpty), ?_⟩
    obtain ⟨outcome, attempted, finalized⟩ := bind_eq_ok.1 finalized
    rcases attempt_eq_ok.1 attempted with ⟨codestream, rfl, encoded⟩ | ⟨_, rfl, _⟩
    · refine .inr ⟨codestream, encoded, ?_⟩
      dsimp only at finalized
      obtain ⟨outcome, attempted, finalized⟩ := bind_eq_ok.1 finalized
      rcases attempt_eq_ok.1 attempted with
        ⟨encoded_bytes, rfl, wrapped⟩ | ⟨_, rfl, failed⟩
      · cases finalized
        exact .inr ⟨encoded_bytes, wrapped, rfl, rfl⟩
      · cases finalized
        refine .inl ⟨fun encoded_bytes wrapped => ?_, Option.some_ne_none _, rfl⟩
        rw [failed] at wrapped
        cases wrapped
    · cases finalized
      exact .inl ⟨Option.some_ne_none _, rfl⟩

end

end Jxlz.Capi
