import Jxlz.Capi.EncoderOutput
import Jxlz.Capi.StagedPlanes

namespace Jxlz.Capi

open BigEndian Container Delivery EncApi

/-!
# Frames between submission and the stream

The frames that a client submits, in the order of the accepted calls, are the queued
ones and then the staged one; each of them holds what was submitted for it.
-/

/-- A frame with one of its planes replaced. -/
def SubmittedFrame.withPlane
    (frame : SubmittedFrame)
    (index : Nat)
    (plane : SubmittedPlane) :
    SubmittedFrame :=
  { frame with
    planes := fun other => if other = index then some plane else frame.planes other }

/-- The queued frames, and the staged one behind them. -/
def EncoderImpl.allFrames
    (impl : EncoderImpl) :
    List EncoderQueuedFrame :=
  impl.queued_frames ++ (if impl.image_bytes = [] then [] else [impl.stagedFrame])

/-- What the encoder keeps of the frames that were submitted. -/
structure Staging
    (builtinEndian : Endian)
    (impl : EncoderImpl)
    (frames : List SubmittedFrame) :
    Prop where
  valid : impl.basic_info_set = true → ValidInfo impl.basic_info
  shifts : ∀ index, (impl.pending_extra_channels index).info.dim_shift ≤ 3
  described : frames ≠ [] → impl.basic_info_set = true ∧ impl.added_frame = true
  clear :
    impl.image_bytes = [] →
      ∀ index, (impl.pending_extra_channels index).buffer_set = false
  kept : List.Forall₂ (KeptFrame builtinEndian impl) frames impl.allFrames

/-- Two encoders with one description of the image and of its channels. -/
structure SameDescription
    (impl next : EncoderImpl) :
    Prop where
  info : next.basic_info = impl.basic_info
  channels :
    ∀ index,
      (next.pending_extra_channels index).info_set =
          (impl.pending_extra_channels index).info_set ∧
        (next.pending_extra_channels index).info =
          (impl.pending_extra_channels index).info

section

variable {builtinEndian : Endian}
variable {impl next : EncoderImpl}
variable {frames : List SubmittedFrame}

theorem SameDescription.shifts
    (same : SameDescription impl next) :
    next.hasAlpha = impl.hasAlpha ∧
      next.stagedAlphaDimShift = impl.stagedAlphaDimShift ∧
      ∀ index,
        isStagedAlpha next index = isStagedAlpha impl index ∧
          channelDimShift next index = channelDimShift impl index := by
  have alpha : next.hasAlpha = impl.hasAlpha := by
    unfold EncoderImpl.hasAlpha
    rw [same.info]
  have staged (index : Nat) : isStagedAlpha next index = isStagedAlpha impl index := by
    unfold isStagedAlpha
    rw [alpha]
  refine ⟨alpha, ?_, fun index => ⟨staged index, ?_⟩⟩
  · unfold EncoderImpl.stagedAlphaDimShift
    rw [alpha, (same.channels 0).1, (same.channels 0).2]
  · unfold channelDimShift
    rw [staged, (same.channels index).1, (same.channels index).2]

theorem KeptPlane.congr
    {index w h : Nat}
    {given : SubmittedPlane}
    {plane : QueuedPlaneBuffer}
    (kept : KeptPlane builtinEndian impl index given plane w h)
    (same : SameDescription impl next) :
    KeptPlane builtinEndian next index given plane w h := by
  obtain ⟨_, _, channel⟩ := same.shifts
  obtain ⟨staged, shift⟩ := channel index
  refine ⟨?_, ?_, ?_, ?_, kept.stride, kept.inside, kept.buffer⟩
  · rw [same.info, shift]
    exact kept.width
  · rw [same.info, shift]
    exact kept.height
  · rw [same.info, staged]
    exact kept.alphaFormat
  · rw [staged]
    exact kept.sidecarFormat

/-- What is kept of a frame depends on the description only. -/
theorem KeptFrame.congr
    {given : SubmittedFrame}
    {frame : EncoderQueuedFrame}
    (kept : KeptFrame builtinEndian impl given frame)
    (same : SameDescription impl next) :
    KeptFrame builtinEndian next given frame := by
  obtain ⟨alpha, alphaShift, _⟩ := same.shifts
  obtain ⟨stride, pixels⟩ := kept.pixels
  refine ⟨kept.format, ?_, ?_, ?_, ?_, ⟨stride, ?_⟩, kept.unset, ?_⟩
  · rw [same.info]
    exact kept.sampleFormat
  · rw [same.info]
    exact kept.enough
  · rw [same.info, alpha]
    exact kept.notTooMany
  · rw [same.info, alpha, alphaShift]
    exact kept.wholeAlpha
  · refine ⟨?_, ?_, ?_, ?_⟩ <;> rw [same.info]
    · exact pixels.isStride
    · exact pixels.small
    · exact pixels.inside
    · exact pixels.taken
  · intro index plane isPlane
    obtain ⟨isSet, w, h, isKept⟩ := kept.set index plane isPlane
    exact ⟨isSet, w, h, isKept.congr same⟩

/-- The part of the encoder that frames are staged in. -/
def EncoderImpl.stagingPart
    (impl : EncoderImpl) :
    EncoderImpl :=
  { basic_info := impl.basic_info
    basic_info_set := impl.basic_info_set
    added_frame := impl.added_frame
    queued_frames := impl.queued_frames
    image_format := impl.image_format
    image_bytes := impl.image_bytes
    pending_frame_header_set := impl.pending_frame_header_set
    pending_frame_header := impl.pending_frame_header
    pending_extra_channels := impl.pending_extra_channels }

theorem Staging.part
    (staging : Staging builtinEndian impl frames) :
    Staging builtinEndian impl.stagingPart frames :=
  { valid := staging.valid
    shifts := staging.shifts
    described := staging.described
    clear := staging.clear
    kept := staging.kept.imp fun _ _ kept => kept.congr ⟨rfl, fun _ => ⟨rfl, rfl⟩⟩ }

theorem Staging.of_part
    (staging : Staging builtinEndian impl.stagingPart frames) :
    Staging builtinEndian impl frames :=
  { valid := staging.valid
    shifts := staging.shifts
    described := staging.described
    clear := staging.clear
    kept := staging.kept.imp fun _ _ kept => kept.congr ⟨rfl, fun _ => ⟨rfl, rfl⟩⟩ }

/-- What happens elsewhere in the encoder does not matter. -/
theorem Staging.congr
    (staging : Staging builtinEndian impl frames)
    (same : next.stagingPart = impl.stagingPart) :
    Staging builtinEndian next frames := by
  apply Staging.of_part
  rw [same]
  exact staging.part

theorem Staging.start :
    Staging builtinEndian {} [] :=
  { valid := fun impossible => absurd impossible (by simp)
    shifts := fun _ => Nat.zero_le 3
    described := fun impossible => absurd rfl impossible
    clear := fun _ _ => rfl
    kept := .nil }

/-- The staged frame moves to the queue as it is. -/
theorem Staging.flushed
    (staging : Staging builtinEndian impl frames) :
    Staging builtinEndian impl.flushed frames := by
  unfold EncoderImpl.flushed
  split
  next => exact staging
  next isStaged =>
    have same : SameDescription impl impl.queueStaged := ⟨rfl, fun _ => ⟨rfl, rfl⟩⟩
    have allFrames : impl.queueStaged.allFrames = impl.allFrames := by
      unfold EncoderImpl.allFrames
      rw [if_neg isStaged]
      exact List.append_nil _
    refine ⟨staging.valid, staging.shifts, fun hasFrames => ?_, fun _ _ => rfl, ?_⟩
    · exact ⟨(staging.described hasFrames).1, rfl⟩
    · rw [allFrames]
      exact staging.kept.imp fun _ _ kept => kept.congr same

theorem EncoderImpl.flushed_description
    (impl : EncoderImpl) :
    SameDescription impl impl.flushed ∧
      impl.flushed.basic_info_set = impl.basic_info_set ∧
      impl.flushed.image_bytes = [] := by
  unfold EncoderImpl.flushed
  split
  next isEmpty => exact ⟨⟨rfl, fun _ => ⟨rfl, rfl⟩⟩, rfl, isEmpty⟩
  next => exact ⟨⟨rfl, fun _ => ⟨rfl, rfl⟩⟩, rfl, rfl⟩

variable {format : JxlPixelFormat}

/-- Accepted pixels are kept, and are not empty. -/
theorem AcceptedFrame.kept
    {memory pixels : List UInt8}
    {frame : EncoderQueuedFrame}
    (builtinEndian : Endian)
    (accepted : AcceptedFrame impl format memory pixels)
    (valid : ValidInfo impl.basic_info)
    (isFormat : frame.image_format = format)
    (isPixels : frame.image_bytes = pixels)
    (noPlanes : ∀ index, (frame.extra_buffers index).buffer_set = false) :
    KeptFrame builtinEndian impl { format, memory } frame ∧ pixels ≠ [] := by
  obtain ⟨stride, isStride, small, inside, taken⟩ := accepted.taken
  refine ⟨⟨isFormat, accepted.sampleFormat, accepted.enough, accepted.notTooMany, ?_,
    ⟨stride, isStride, small, inside, isPixels.trans taken⟩, fun index _ => noPlanes index,
    ?_⟩, ?_⟩
  · intro hasAlpha channels
    have whole := accepted.wholeAlpha
    rw [hasAlpha, if_pos rfl] at whole
    unfold EncoderImpl.stagedAlphaDimShift
    rw [hasAlpha]
    split
    next isSet =>
      by_contra hasShift
      exact whole ⟨rfl, channels, isSet, hasShift⟩
    next => rfl
  · intro index plane impossible
    cases impossible
  · obtain ⟨row_bytes, isRow, short, _⟩ := rowStrideBytes_eq_some isStride
    obtain ⟨rfl, _⟩ := packedRowBytes_eq_some isRow
    have colors : 0 < impl.basic_info.num_color_channels := by
      rcases valid.colors with single | three <;> omega
    have bytes := bytesPerChannel_pos format.data_type
    have row :=
      Nat.mul_pos valid.width (Nat.mul_pos (colors.trans_le accepted.enough) bytes)
    have positive := Nat.mul_pos (row.trans_le short) valid.height
    intro isEmpty
    have length := congrArg List.length taken
    rw [isEmpty, List.length_nil, List.length_take, Nat.min_eq_left inside] at length
    omega

/-- A new frame is staged behind the ones before it. -/
theorem Staging.stageFrame
    {memory pixels : List UInt8}
    (staging : Staging builtinEndian impl frames)
    (accepted : AcceptedFrame impl format memory pixels)
    (settings_impl : EncoderFrameSettings) :
    Staging builtinEndian (impl.flushed.stageFrame settings_impl format pixels)
      (frames ++ [{ format := format, memory := memory }]) := by
  have flushed := staging.flushed
  obtain ⟨same, isSet, noStaged⟩ := impl.flushed_description
  have described := isSet.trans accepted.described.1
  have sameStaged :
      SameDescription impl.flushed (impl.flushed.stageFrame settings_impl format pixels) :=
    ⟨rfl, fun _ => ⟨rfl, rfl⟩⟩
  have noPlanes (index : Nat) :
      ((impl.flushed.stageFrame settings_impl format pixels).stagedFrame.extra_buffers
        index).buffer_set = false := by
    show (PendingExtraChannel.queued _).buffer_set = false
    unfold PendingExtraChannel.queued
    rw [show ((impl.flushed.stageFrame settings_impl format pixels).pending_extra_channels
      index).buffer_set = false from flushed.clear noStaged index]
    rfl
  obtain ⟨kept, nonempty⟩ :=
    accepted.kept builtinEndian (staging.valid accepted.described.1)
      (show (impl.flushed.stageFrame settings_impl format pixels).stagedFrame.image_format =
        format from rfl) rfl noPlanes
  refine ⟨flushed.valid, flushed.shifts, fun _ => ⟨described, rfl⟩, ?_, ?_⟩
  · intro isEmpty
    exact absurd isEmpty nonempty
  · have before := flushed.kept
    have allFrames :
        (impl.flushed.stageFrame settings_impl format pixels).allFrames =
          impl.flushed.allFrames ++
            [(impl.flushed.stageFrame settings_impl format pixels).stagedFrame] := by
      have isStaged :
          (impl.flushed.stageFrame settings_impl format pixels).image_bytes ≠ [] :=
        nonempty
      unfold EncoderImpl.allFrames
      rw [if_pos noStaged, List.append_nil, if_neg isStaged]
      rfl
    rw [allFrames]
    refine List.rel_append (before.imp fun _ _ isKept => isKept.congr sameStaged) ?_
    exact .cons ((kept.congr same).congr sameStaged) .nil

/-- While a frame is staged, it is the last one that was submitted. -/
theorem Staging.last
    (staging : Staging builtinEndian impl frames)
    (isStaged : impl.image_bytes ≠ []) :
    ∃ front last,
      frames = front ++ [last] ∧
        List.Forall₂ (KeptFrame builtinEndian impl) front impl.queued_frames ∧
        KeptFrame builtinEndian impl last impl.stagedFrame := by
  have kept := staging.kept
  unfold EncoderImpl.allFrames at kept
  rw [if_neg isStaged] at kept
  have front := List.forall₂_take_append _ _ _ kept
  have back := List.forall₂_drop_append _ _ _ kept
  have whole := List.take_append_drop impl.queued_frames.length frames
  generalize frames.drop impl.queued_frames.length = behind at back whole
  cases back with
  | @cons last _ _ _ isLast nothing =>
      cases nothing
      exact ⟨_, last, whole.symm, front, isLast⟩

/-- Another value for the plane of a channel leaves the description as it is. -/
theorem sameDescription_setPending
    (impl : EncoderImpl)
    (index : Nat)
    {pending : PendingExtraChannel}
    (isSet : pending.info_set = (impl.pending_extra_channels index).info_set)
    (info : pending.info = (impl.pending_extra_channels index).info) :
    SameDescription impl (impl.setPending index pending) := by
  refine ⟨rfl, fun channel => ?_⟩
  unfold EncoderImpl.setPending
  dsimp only
  split
  next isIndex => rw [isIndex, isSet, info]; exact ⟨rfl, rfl⟩
  next => exact ⟨rfl, rfl⟩

/-- The staged frame is changed in one of its planes. -/
theorem Staging.replacePlane
    (staging : Staging builtinEndian impl frames)
    (isStaged : impl.image_bytes ≠ [])
    (index : Nat)
    {pending : PendingExtraChannel}
    (isSet : pending.info_set = (impl.pending_extra_channels index).info_set)
    (info : pending.info = (impl.pending_extra_channels index).info)
    {change : SubmittedFrame → SubmittedFrame}
    (pixels : ∀ frame, (change frame).format = frame.format ∧
      (change frame).memory = frame.memory)
    (others :
      ∀ frame other, other ≠ index → (change frame).planes other = frame.planes other)
    (unset :
      ∀ last,
        KeptFrame builtinEndian impl last impl.stagedFrame →
        (change last).planes index = none → pending.queued.buffer_set = false)
    (set :
      ∀ last plane,
        KeptFrame builtinEndian impl last impl.stagedFrame →
        (change last).planes index = some plane →
        pending.queued.buffer_set = true ∧
          ∃ w h, KeptPlane builtinEndian impl index plane pending.queued w h) :
    Staging builtinEndian (impl.setPending index pending) (frames.modifyLast change) := by
  obtain ⟨front, last, rfl, queued, kept⟩ := staging.last isStaged
  have same := sameDescription_setPending impl index isSet info
  have here :
      (impl.setPending index pending).stagedFrame.extra_buffers index = pending.queued := by
    show ((impl.setPending index pending).pending_extra_channels index).queued = _
    unfold EncoderImpl.setPending
    dsimp only
    rw [if_pos rfl]
  have elsewhere (other : Nat) (isOther : other ≠ index) :
      (impl.setPending index pending).stagedFrame.extra_buffers other =
        impl.stagedFrame.extra_buffers other := by
    show ((impl.setPending index pending).pending_extra_channels other).queued = _
    unfold EncoderImpl.setPending
    dsimp only
    rw [if_neg isOther]
    rfl
  rw [List.modifyLast_concat]
  refine ⟨staging.valid, ?_, fun _ => staging.described (by simp), ?_, ?_⟩
  · intro channel
    rw [(same.channels channel).2]
    exact staging.shifts channel
  · intro isEmpty
    exact absurd isEmpty isStaged
  · have isStaged' : (impl.setPending index pending).image_bytes ≠ [] := isStaged
    unfold EncoderImpl.allFrames
    rw [if_neg isStaged']
    refine List.rel_append (queued.imp fun _ _ isKept => isKept.congr same) (.cons ?_ .nil)
    have kept' := kept.congr same
    obtain ⟨isFormat, isMemory⟩ := pixels last
    obtain ⟨stride, isPixels⟩ := kept'.pixels
    refine ⟨kept'.format.trans isFormat.symm, ?_, ?_, ?_, ?_, ⟨stride, ?_⟩, ?_, ?_⟩
    · rw [isFormat]
      exact kept'.sampleFormat
    · rw [isFormat]
      exact kept'.enough
    · rw [isFormat]
      exact kept'.notTooMany
    · rw [isFormat]
      exact kept'.wholeAlpha
    · refine ⟨?_, isPixels.small, ?_, ?_⟩
      · rw [isFormat]
        exact isPixels.isStride
      · rw [isMemory]
        exact isPixels.inside
      · rw [isMemory]
        exact isPixels.taken
    · intro other isNone
      by_cases isIndex : other = index
      · rw [isIndex] at isNone ⊢
        rw [here]
        exact unset last kept isNone
      · rw [elsewhere other isIndex]
        exact kept.unset other (by rw [← others last other isIndex]; exact isNone)
    · intro other plane isPlane
      by_cases isIndex : other = index
      · rw [isIndex] at isPlane ⊢
        rw [here]
        obtain ⟨hasBuffer, w, h, isKept⟩ := set last plane kept isPlane
        exact ⟨hasBuffer, w, h, isKept.congr same⟩
      · rw [elsewhere other isIndex]
        rw [others last other isIndex] at isPlane
        obtain ⟨hasBuffer, w, h, isKept⟩ := kept.set other plane isPlane
        exact ⟨hasBuffer, w, h, isKept.congr same⟩

variable {index : Nat} {plane : CheckedPlane}

/-- The bytes of an accepted plane hold all of its rows. -/
theorem AcceptedPlane.planeBytes
    {memory : List UInt8}
    (accepted : AcceptedPlane impl format memory index plane) :
    PlaneBytes format memory plane :=
  ⟨accepted.stride, accepted.inside, accepted.taken⟩

/-- An accepted plane has a format that its channel allows. -/
theorem AcceptedPlane.packedType
    {memory : List UInt8}
    (accepted : AcceptedPlane impl format memory index plane) :
    PackedType format := by
  cases isAlpha : isStagedAlpha impl index with
  | false => exact .inl (accepted.sidecarFormat isAlpha)
  | true => exact (checkSampleFormat_ok (accepted.alphaFormat isAlpha)).1

/-- An accepted plane belongs to the staged frame. -/
theorem Staging.stagePlane
    {memory staged : List UInt8}
    (staging : Staging builtinEndian impl frames)
    (accepted : AcceptedPlane impl format memory index plane)
    (isStaged :
      stagePlane builtinEndian format (isStagedAlpha impl index) plane = .ok staged) :
    Staging builtinEndian
      (impl.setPending index
        { impl.pending_extra_channels index with
          buffer := staged, row_stride := plane.stride, buffer_set := true })
      (frames.modifyLast
        (·.withPlane index { format := format, memory := memory })) := by
  obtain ⟨result, ran, exact⟩ :=
    stagePlane_ok builtinEndian accepted.planeBytes accepted.packedType
      accepted.sidecarFormat
  rw [isStaged] at ran
  cases ran
  refine staging.replacePlane accepted.staged index ?_ ?_ ?_ ?_ ?_ ?_
  · rfl
  · rfl
  · intro frame
    exact ⟨rfl, rfl⟩
  · intro frame other isOther
    unfold SubmittedFrame.withPlane
    exact if_neg isOther
  · intro last _ impossible
    unfold SubmittedFrame.withPlane at impossible
    dsimp only at impossible
    rw [if_pos rfl] at impossible
    cases impossible
  · intro last given _ isGiven
    unfold SubmittedFrame.withPlane at isGiven
    dsimp only at isGiven
    rw [if_pos rfl] at isGiven
    cases isGiven
    exact ⟨rfl, plane.plane_width, plane.plane_height, accepted.width, accepted.height,
      accepted.alphaFormat, accepted.sidecarFormat, accepted.stride, accepted.inside,
      .inr ⟨exact.length, exact.sample⟩⟩

end

section

variable {Color : Type}
variable {library : Library Color}
variable {impl next : EncoderImpl}
variable {frames : List SubmittedFrame}
variable {request : Request Color}
variable {reply : Reply}

end

end Jxlz.Capi
