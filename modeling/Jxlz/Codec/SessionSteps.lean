import Jxlz.Codec.LayerPlacement

namespace Jxlz

open Stateful

/-!
# A step of a session changes one slot or nothing

Everything that can fail comes before the one place where a slot is replaced.
-/

variable {tools : FrameTools} {dec : FrameDecoder} {coalescing post_color : Bool}

/-! Nothing is changed before the last step that can fail. -/

theorem FloatReference.finish_atomic :
    Atomic (FloatReference.finish tools dec coalescing post_color) := by
  unfold finish
  dsimp only
  cases dec.rendered_image with
  | none => exact (readOnly_fallible _).atomic
  | some input =>
      refine .afterReading (readOnly_fallible _) fun pixels => ?_
      refine .afterReading readOnly_get fun session => ?_
      refine .afterReading (readOnly_fallible _) fun output => ?_
      refine atomic_ite ?_ (total_pure _).atomic
      refine atomic_ite (readOnly_fallible _).atomic ?_
      refine .afterReading (readOnly_fallible _) fun saved => ?_
      exact ((total_modify _).bind fun _ => total_pure _).atomic

namespace Session

theorem finishDc_atomic : Atomic (finishDc tools dec) := by
  unfold finishDc
  dsimp only
  refine atomic_ite (readOnly_fallible _).atomic ?_
  cases dec.rendered_image with
  | none => exact (readOnly_fallible _).atomic
  | some rendered =>
      dsimp only
      refine atomic_ite (readOnly_fallible _).atomic ?_
      refine .afterReading (readOnly_fallible _) fun _ => ?_
      refine .afterReading (readOnly_fallible _) fun _ => ?_
      refine .afterReading (readOnly_fallible _) fun values => ?_
      exact (total_modify _).atomic

theorem finishFixed_atomic :
    Atomic (finishFixed tools dec coalescing post_color) := by
  unfold finishFixed
  dsimp only
  cases dec.rendered_image with
  | none => exact (readOnly_fallible _).atomic
  | some rendered =>
      refine .afterReading (readOnly_fallible _) fun input => ?_
      refine .afterReading (readOnly_fallible _) fun pixels => ?_
      refine .afterReading readOnly_get fun session => ?_
      refine .afterReading (readOnly_fallible _) fun output => ?_
      refine .afterReading (readOnly_fallible _) fun final => ?_
      refine atomic_ite ?_ (total_pure _).atomic
      refine atomic_ite (readOnly_fallible _).atomic ?_
      refine .afterReading (readOnly_fallible _) fun _ => ?_
      exact ((total_modify _).bind fun _ => total_pure _).atomic

theorem finish_atomic : Atomic (finish tools dec) := by
  unfold finish
  refine .afterReading readOnly_get fun session => ?_
  dsimp only
  refine atomic_ite (finishDc_atomic.beforeTotal fun _ => total_pure _) ?_
  refine atomic_ite (total_pure _).atomic ?_
  refine atomic_ite (readOnly_fallible _).atomic ?_
  exact atomic_ite FloatReference.finish_atomic finishFixed_atomic

theorem decode_atomic
    (metadata : CodecMetadata)
    (data : List UInt8) :
    Atomic (decode tools metadata data) := by
  unfold decode
  refine .afterReading readOnly_get fun session => ?_
  refine .afterReading (readOnly_fallible _) fun dec => ?_
  refine finish_atomic.beforeTotal fun dec => ?_
  exact (total_modify _).bind fun _ => total_pure _

end Session

/-! What a successful step leaves behind. -/

variable {session after : Session} {shown : FrameDecoder}

/-- The pixels that a frame of soft-floats ends with, from its decoded samples on. -/
structure FixedPixels
    (tools : FrameTools)
    (session : Session)
    (dec : FrameDecoder)
    (input output : FixedImage) :
    Prop where
  rendered :
    ∃ rendered,
      dec.rendered_image = some rendered ∧
        Session.loadInput tools rendered = .ok input ∧
        ∃ pixels,
          (if dec.postColor session.coalescing then
              Session.convert tools dec rendered input
            else
              .ok input) =
              .ok pixels ∧
            (if
                session.coalescing && dec.frame_header.regular &&
                  (!dec.xyb || dec.postColor session.coalescing) then
                Session.compose tools.refuses session.refs pixels dec.frame_header
                  dec.metadata
              else
                .ok pixels) =
              .ok output

/-- The same of a frame of binary32 words. -/
structure FloatPixels
    (tools : FrameTools)
    (session : Session)
    (dec : FrameDecoder)
    (input output : FloatImage) :
    Prop where
  rendered : dec.rendered_image = some input
  output :
    ∃ pixels,
      (if dec.postColor session.coalescing then
          FloatReference.convert tools dec input
        else
          .ok input) =
          .ok pixels ∧
        if
            session.coalescing && dec.frame_header.regular &&
              (!dec.xyb || dec.postColor session.coalescing) then
          FloatReference.compose tools.refuses tools.numbers session.refs pixels
              dec.frame_header dec.metadata =
            .ok output
        else
          output = pixels

/-- What a slot holds once a frame was saved in it. -/
structure Holds
    (tools : FrameTools)
    (session : Session)
    (dec : FrameDecoder)
    (saved : Reference) :
    Prop where
  pre_color : saved.pre_color = dec.frame_header.save_before_color_transform
  pixels :
    (dec.metadata.hasFloat = false ∧
        saved.float_image = none ∧
        ∃ input output,
          FixedPixels tools session dec input output ∧
            saved.image =
              some
                (if dec.frame_header.save_before_color_transform then input
                else output)) ∨
      (dec.metadata.hasFloat = true ∧
        saved.image = none ∧
        ∃ input output,
          FloatPixels tools session dec input output ∧
            saved.float_image =
              some
                (if dec.frame_header.save_before_color_transform then input
                else output))

/-- The change of the slots by a frame that was decoded. -/
structure SlotChange
    (tools : FrameTools)
    (session : Session)
    (dec : FrameDecoder)
    (after : Session) :
    Prop where
  coalescing : after.coalescing = session.coalescing
  dcFrame :
    dec.frame_header.frame_type = .dc_frame →
      after.refs = session.refs ∧
        ∃ level image,
          dec.frame_header.dc_level = level + 1 ∧
            level < 4 ∧
            after.dc_refs = session.dc_refs.setIfInBounds level (some image)
  saved :
    dec.frame_header.frame_type ≠ .dc_frame →
      dec.frame_header.isSaved session.coalescing = true →
      after.dc_refs = session.dc_refs ∧
        dec.frame_header.save_as_reference < 4 ∧
        ∃ saved,
          Holds tools session dec saved ∧
            after.refs =
              session.refs.setIfInBounds dec.frame_header.save_as_reference saved
  notSaved :
    dec.frame_header.frame_type ≠ .dc_frame →
      dec.frame_header.isSaved session.coalescing = false →
      after.dc_refs = session.dc_refs ∧ after.refs = session.refs

theorem copy_eq_ok
    {place : Allocation}
    {input output : FloatImage}
    (copied : FloatReference.copy tools place input = .ok output) :
    output = input := by
  unfold FloatReference.copy at copied
  obtain ⟨_, _, copied⟩ := bind_eq_ok.1 copied
  cases copied
  rfl

namespace Session

theorem finishDc_of_ok
    (finished : perform (finishDc tools dec) session = (.ok (), after)) :
    ∃ level image,
      dec.frame_header.dc_level = level + 1 ∧
        level < 4 ∧ after = session.replaceDcRef level image := by
  unfold finishDc at finished
  dsimp only at finished
  split at finished
  · exact nomatch finished
  · next inRange =>
      obtain ⟨level, isLevel⟩ :=
        Nat.exists_eq_succ_of_ne_zero fun isZero => inRange (Or.inl isZero)
      cases isRendered : dec.rendered_image with
      | none =>
          rw [isRendered] at finished
          exact nomatch finished
      | some rendered =>
          rw [isRendered] at finished
          dsimp only at finished
          split at finished
          · exact nomatch finished
          · obtain ⟨_, _, finished⟩ := fallible_bind_eq_ok.1 finished
            obtain ⟨_, _, finished⟩ := fallible_bind_eq_ok.1 finished
            obtain ⟨values, _, finished⟩ := fallible_bind_eq_ok.1 finished
            rw [perform_modify, Prod.mk.injEq] at finished
            rw [isLevel, Nat.succ_sub_one] at finished
            exact ⟨level, _, isLevel, by omega, finished.2.symm⟩

/-- The slot of a frame that was finished as soft-floats. -/
theorem finishFixed_of_ok
    (finished :
      perform
          (finishFixed tools dec session.coalescing (dec.postColor session.coalescing))
          session =
        (.ok shown, after)) :
    ∃ input output,
      FixedPixels tools session dec input output ∧
        (dec.frame_header.isSaved session.coalescing = true →
          dec.frame_header.save_as_reference < 4 ∧
            after =
              session.replaceRef dec.frame_header.save_as_reference {
                image :=
                  some
                    (if dec.frame_header.save_before_color_transform then input
                    else output)
                pre_color := dec.frame_header.save_before_color_transform }) ∧
        (dec.frame_header.isSaved session.coalescing = false → after = session) := by
  unfold finishFixed at finished
  dsimp only at finished
  cases isRendered : dec.rendered_image with
  | none =>
      rw [isRendered] at finished
      exact nomatch finished
  | some rendered =>
      rw [isRendered] at finished
      dsimp only at finished
      obtain ⟨input, isInput, finished⟩ := fallible_bind_eq_ok.1 finished
      obtain ⟨pixels, isPixels, finished⟩ := fallible_bind_eq_ok.1 finished
      rw [get_bind] at finished
      obtain ⟨output, isOutput, finished⟩ := fallible_bind_eq_ok.1 finished
      obtain ⟨final, _, finished⟩ := fallible_bind_eq_ok.1 finished
      refine ⟨input, output,
        ⟨rendered, isRendered, isInput, pixels, isPixels, isOutput⟩, ?_, ?_⟩
      · intro isSaved
        rw [if_pos isSaved] at finished
        split at finished
        · exact nomatch finished
        · next inside =>
            obtain ⟨_, _, finished⟩ := fallible_bind_eq_ok.1 finished
            rw [modify_bind, perform_pure, Prod.mk.injEq] at finished
            exact ⟨Nat.lt_of_not_le inside, finished.2.symm⟩
      · intro notSaved
        rw [if_neg (by rw [notSaved]; exact Bool.false_ne_true), perform_pure,
          Prod.mk.injEq] at finished
        exact finished.2.symm

end Session

/-- The slot of a frame that was finished as binary32 words. -/
theorem FloatReference.finish_of_ok
    (finished :
      perform
          (FloatReference.finish tools dec session.coalescing
            (dec.postColor session.coalescing))
          session =
        (.ok shown, after)) :
    ∃ input output,
      FloatPixels tools session dec input output ∧
        (dec.frame_header.isSaved session.coalescing = true →
          dec.frame_header.save_as_reference < 4 ∧
            after =
              session.replaceRef dec.frame_header.save_as_reference {
                float_image :=
                  some
                    (if dec.frame_header.save_before_color_transform then input
                    else output)
                pre_color := dec.frame_header.save_before_color_transform }) ∧
        (dec.frame_header.isSaved session.coalescing = false → after = session) := by
  unfold finish at finished
  dsimp only at finished
  cases isRendered : dec.rendered_image with
  | none =>
      rw [isRendered] at finished
      exact nomatch finished
  | some input =>
      rw [isRendered] at finished
      dsimp only at finished
      obtain ⟨pixels, isPixels, finished⟩ := fallible_bind_eq_ok.1 finished
      rw [get_bind] at finished
      obtain ⟨output, isOutput, finished⟩ := fallible_bind_eq_ok.1 finished
      refine ⟨input, output, ⟨isRendered, pixels, isPixels, ?_⟩, ?_, ?_⟩
      · split
        · next composes =>
            rw [if_pos composes] at isOutput
            exact isOutput
        · next copies =>
            rw [if_neg copies] at isOutput
            exact copy_eq_ok isOutput
      · intro isSaved
        rw [if_pos isSaved] at finished
        split at finished
        · exact nomatch finished
        · next inside =>
            obtain ⟨saved, isCopy, finished⟩ := fallible_bind_eq_ok.1 finished
            rw [modify_bind, perform_pure, Prod.mk.injEq, copy_eq_ok isCopy] at finished
            exact ⟨Nat.lt_of_not_le inside, finished.2.symm⟩
      · intro notSaved
        rw [if_neg (by rw [notSaved]; exact Bool.false_ne_true), perform_pure,
          Prod.mk.injEq] at finished
        exact finished.2.symm

/-- A frame that is not saved, or saved in one slot, changes nothing else. -/
theorem SlotChange.ofSaved
    {saved : Reference}
    (notDc : dec.frame_header.frame_type ≠ .dc_frame)
    (holds : Holds tools session dec saved)
    (whenSaved :
      dec.frame_header.isSaved session.coalescing = true →
        dec.frame_header.save_as_reference < 4 ∧
          after = session.replaceRef dec.frame_header.save_as_reference saved)
    (whenNot : dec.frame_header.isSaved session.coalescing = false → after = session) :
    SlotChange tools session dec after where
  coalescing := by
    cases isSaved : dec.frame_header.isSaved session.coalescing with
    | true =>
        rw [(whenSaved isSaved).2]
        rfl
    | false => rw [whenNot isSaved]
  dcFrame := fun isDc => absurd isDc notDc
  saved := by
    intro _ isSaved
    obtain ⟨inside, isAfter⟩ := whenSaved isSaved
    rw [isAfter]
    exact ⟨rfl, inside, saved, holds, rfl⟩
  notSaved := by
    intro _ notSaved
    rw [whenNot notSaved]
    exact ⟨rfl, rfl⟩

namespace Session

theorem finish_of_ok
    (finished : perform (finish tools dec) session = (.ok shown, after)) :
    SlotChange tools session dec after := by
  unfold finish at finished
  rw [get_bind] at finished
  dsimp only at finished
  split at finished
  · next isDc =>
      obtain ⟨_, middle, finishedDc, finished⟩ := Stateful.bind_eq_ok.1 finished
      obtain ⟨level, image, isLevel, inside, isMiddle⟩ := finishDc_of_ok finishedDc
      rw [perform_pure, Prod.mk.injEq] at finished
      rw [← finished.2, isMiddle]
      exact ⟨rfl, fun _ => ⟨rfl, level, image, isLevel, inside, rfl⟩,
        fun notDc => absurd isDc notDc, fun notDc => absurd isDc notDc⟩
  · next notDc =>
      split at finished
      · next notKept =>
          rw [perform_pure, Prod.mk.injEq] at finished
          rw [← finished.2]
          refine ⟨rfl, fun isDc => absurd isDc notDc, fun _ isSaved => ?_,
            fun _ _ => ⟨rfl, rfl⟩⟩
          -- A frame that cannot be referenced is not saved.
          unfold FrameHeader.isSaved at isSaved
          rw [Bool.and_eq_true] at isSaved
          rw [Bool.and_eq_true, Bool.and_eq_true, isSaved.1] at notKept
          exact absurd notKept.1.1 Bool.false_ne_true
      · split at finished
        · exact nomatch finished
        · split at finished
          · next hasFloat =>
              obtain ⟨input, output, pixels, whenSaved, whenNot⟩ :=
                FloatReference.finish_of_ok finished
              exact .ofSaved notDc
                ⟨rfl, Or.inr ⟨hasFloat, rfl, input, output, pixels, rfl⟩⟩ whenSaved
                whenNot
          · next noFloat =>
              rw [Bool.not_eq_true] at noFloat
              obtain ⟨input, output, pixels, whenSaved, whenNot⟩ :=
                finishFixed_of_ok finished
              exact .ofSaved notDc
                ⟨rfl, Or.inl ⟨noFloat, rfl, input, output, pixels, rfl⟩⟩ whenSaved
                whenNot

/-- What the decoder of a frame starts from. -/
def start
    (self : Session)
    (metadata : CodecMetadata) :
    FrameDecoder where
  metadata := metadata
  force_render := true
  visible_frame_index := self.visible_frame_index
  nonvisible_frame_index := self.nonvisible_frame_index
  references := self.refs
  dc_references := self.dc_refs

theorem decode_of_ok
    {metadata : CodecMetadata}
    {data : List UInt8}
    (decoded : perform (decode tools metadata data) session = (.ok shown, after)) :
    ∃ dec,
      tools.decodeFrame (session.start metadata) data = .ok dec ∧
        SlotChange tools session dec after := by
  unfold decode at decoded
  rw [get_bind] at decoded
  obtain ⟨dec, isDecoded, decoded⟩ := fallible_bind_eq_ok.1 decoded
  obtain ⟨shown', middle, finished, decoded⟩ := Stateful.bind_eq_ok.1 decoded
  rw [modify_bind, perform_pure, Prod.mk.injEq] at decoded
  obtain ⟨_, rfl⟩ := decoded
  obtain ⟨coalescing, dcFrame, saved, notSaved⟩ := finish_of_ok finished
  exact ⟨dec, isDecoded, coalescing, dcFrame, saved, notSaved⟩

/-- The slots after a number of calls, whether they succeed or fail. -/
def run
    (tools : FrameTools)
    (self : Session)
    (frames : List (CodecMetadata × List UInt8)) :
    Session :=
  frames.foldl
    (fun session frame => (perform (decode tools frame.1 frame.2) session).2) self

end Session

/-- A slot that was there before, or the one that was replaced. -/
theorem SlotChange.ref_cases
    (change : SlotChange tools session dec after)
    {ref : Reference}
    (isRef : ref ∈ after.refs.toList) :
    ref ∈ session.refs.toList ∨ Holds tools session dec ref := by
  by_cases isDc : dec.frame_header.frame_type = .dc_frame
  · rw [(change.dcFrame isDc).1] at isRef
    exact Or.inl isRef
  · cases isSaved : dec.frame_header.isSaved session.coalescing with
    | false =>
        rw [(change.notSaved isDc isSaved).2] at isRef
        exact Or.inl isRef
    | true =>
        obtain ⟨_, _, saved, holds, isRefs⟩ := change.saved isDc isSaved
        rw [isRefs, Vector.toList_setIfInBounds] at isRef
        rcases List.mem_or_eq_of_mem_set isRef with isOld | rfl
        · exact Or.inl isOld
        · exact Or.inr holds

/-- What every saved slot has, every slot has after any number of calls. -/
theorem Session.run_refs
    (property : Reference → Prop)
    {frames : List (CodecMetadata × List UInt8)}
    (initially : ∀ ref ∈ session.refs.toList, property ref)
    (saved :
      ∀ frame ∈ frames,
        ∀ (reached : Session) dec ref,
          (∀ ref ∈ reached.refs.toList, property ref) →
          tools.decodeFrame (reached.start frame.1) frame.2 = .ok dec →
          Holds tools reached dec ref → property ref) :
    ∀ ref ∈ (session.run tools frames).refs.toList, property ref := by
  induction frames generalizing session with
  | nil =>
      exact initially
  | cons frame frames inductionHypothesis =>
      refine inductionHypothesis ?_ fun other isMember =>
        saved other (List.mem_cons_of_mem _ isMember)
      have atomic := @Session.decode_atomic tools frame.1 frame.2 session
      cases performed : perform (Session.decode tools frame.1 frame.2) session with
      | mk answer next =>
          change
            ∀ ref ∈
              (perform (Session.decode tools frame.1 frame.2) session).2.refs.toList,
              property ref
          rw [performed] at atomic ⊢
          cases answer with
          | error fault =>
              rw [atomic fault rfl]
              exact initially
          | ok shown =>
              obtain ⟨dec, decoded, change⟩ := Session.decode_of_ok performed
              intro ref isRef
              rcases change.ref_cases isRef with isOld | holds
              · exact initially ref isOld
              · exact
                  saved frame List.mem_cons_self session dec ref initially decoded holds

theorem Session.eq_empty_of_mem_fresh
    {ref : Reference}
    (isRef : ref ∈ ({ coalescing } : Session).refs.toList) :
    ref = {} := by
  rw [Vector.toList_replicate] at isRef
  exact List.eq_of_mem_replicate isRef

/-- A slot holds at most one image. -/
def Reference.Exclusive
    (self : Reference) :
    Prop :=
  self.image = none ∨ self.float_image = none

theorem Holds.exclusive
    {ref : Reference}
    (holds : Holds tools session dec ref) :
    ref.Exclusive := by
  rcases holds.pixels with ⟨_, noFloat, _⟩ | ⟨_, noImage, _⟩
  · exact Or.inr noFloat
  · exact Or.inl noImage

/--
A call that fails leaves the session as it was; one that succeeds changes the slot of
the DC level, or the slot the frame is saved in, or none.  No slot ever holds both
kinds of image.
-/
theorem session_steps
    (tools : FrameTools) :
    (∀ session metadata data fault,
        (perform (Session.decode tools metadata data) session).1 = .error fault →
        (perform (Session.decode tools metadata data) session).2 = session) ∧
      (∀ session metadata data shown after,
        perform (Session.decode tools metadata data) session = (.ok shown, after) →
        ∃ dec,
          tools.decodeFrame (session.start metadata) data = .ok dec ∧
            SlotChange tools session dec after ∧
            ((∀ ref ∈ session.refs.toList, ref.Exclusive) →
              ∀ ref ∈ after.refs.toList, ref.Exclusive)) ∧
      ∀ coalescing frames,
        ∀ ref ∈ (Session.run tools { coalescing } frames).refs.toList,
          ref.Exclusive := by
  refine ⟨?_, ?_, ?_⟩
  · intro session metadata data fault failed
    exact Session.decode_atomic metadata data session fault failed
  · intro session metadata data shown after decoded
    obtain ⟨dec, isDecoded, change⟩ := Session.decode_of_ok decoded
    refine ⟨dec, isDecoded, change, fun exclusive ref isRef => ?_⟩
    rcases change.ref_cases isRef with isOld | holds
    · exact exclusive ref isOld
    · exact holds.exclusive
  · intro coalescing frames
    refine Session.run_refs Reference.Exclusive ?_ ?_
    · intro ref isRef
      rw [Session.eq_empty_of_mem_fresh isRef]
      exact Or.inl rfl
    · intro frame _ reached dec ref _ _ holds
      exact holds.exclusive

end Jxlz
