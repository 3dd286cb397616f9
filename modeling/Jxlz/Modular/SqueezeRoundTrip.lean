import Jxlz.Modular.SqueezePlaces
import Jxlz.Modular.SqueezeStep

namespace Jxlz.Modular

open Except

/-!
# Undoing squeeze steps

A step works on a run of neighbouring channels and puts the residuals behind
the run or at the end of the list; the inverse finds them at the same offset.
The steps of a list are undone from the last one.
-/

/-- Pairs of averages and residuals that stand for channels. -/
def Squeezed
    (horizontal : Bool)
    (mids : List Channel)
    (pairs : List (Channel × Channel)) :
    Prop :=
  List.Forall₂
    (fun before pair => ChannelSqueezed horizontal before pair.1 pair.2)
    mids pairs

variable {horizontal : Bool}

/-- Squeezed channels may be replaced by ones with the same samples. -/
theorem Squeezed.congr
    {mids outs ress : List Channel}
    {pairs : List (Channel × Channel)}
    (squeezed : Squeezed horizontal mids pairs)
    (sameOuts : List.Forall₂ Channel.Same outs (pairs.map Prod.fst))
    (sameRess : List.Forall₂ Channel.Same ress (pairs.map Prod.snd)) :
    ∃ others,
      outs = others.map Prod.fst ∧
        ress = others.map Prod.snd ∧ Squeezed horizontal mids others := by
  unfold Squeezed at squeezed
  induction squeezed generalizing outs ress with
  | nil =>
      cases sameOuts
      cases sameRess
      exact ⟨[], rfl, rfl, .nil⟩
  | cons first _ inductionHypothesis =>
      cases sameOuts with
      | @cons out _ outs _ sameOut sameOuts =>
          cases sameRess with
          | @cons res _ ress _ sameRes sameRess =>
              obtain ⟨others, areOuts, areRess, squeezed⟩ :=
                inductionHypothesis sameOuts sameRess
              refine ⟨(out, res) :: others, ?_, ?_, ?_⟩
              · rw [areOuts, List.map_cons]
              · rw [areRess, List.map_cons]
              · exact .cons (first.congr sameOut sameRes) squeezed

/-- A round of a step splits a channel into averages and residuals. -/
theorem splits_fwdSqueezeChannel
    {before : Channel}
    (beginc offset : Nat)
    (squeezable : Squeezable horizontal before) :
    Splits (fun _ => False)
      (fun image place =>
        fwdSqueezeChannel horizontal image (beginc + place) (offset + place))
      beginc offset
      (fun before pair => ChannelSqueezed horizontal before pair.1 pair.2)
      before := by
  intro image place isChannel inside
  obtain ⟨out, res, ran, squeezed⟩ :=
    fwdSqueezeChannel_ok isChannel inside squeezable
  exact .of_eq_ok ran ⟨out, res, rfl, squeezed⟩

variable {image : ModularImage}

/-- A round of an inverse step whose index fits finds its residuals. -/
theorem invSqueezeChannel_eq
    {beginc offset limit place : Nat}
    {res : Channel}
    (indices : offset + (beginc + limit) ≤ 2 ^ 32)
    (within : place < limit)
    (isRes : image.channels[offset + place]? = some res) :
    invSqueezeChannel horizontal beginc offset image place =
      invSqueezeAt horizontal image (beginc + place) (offset + place) := by
  have inside : ¬ image.channels.length ≤ offset + place :=
    Nat.not_le.2 (List.getElem?_eq_some_iff.1 isRes).1
  have sum : offset + (beginc + place) - beginc = offset + place := by
    omega
  unfold invSqueezeChannel
  rw [addU_ok (by omega), ok_bind, subU_ok (by omega), ok_bind, sum,
    if_neg inside]
  rfl

/-- A round of an inverse step joins averages and residuals. -/
theorem joins_invSqueezeChannel
    {beginc offset limit : Nat}
    {before : Channel}
    {pair : Channel × Channel}
    (fits : offset + (beginc + limit) ≤ 2 ^ 32)
    (squeezable : Squeezable horizontal before)
    (squeezed : ChannelSqueezed horizontal before pair.1 pair.2) :
    Joins (fun _ => False) (invSqueezeChannel horizontal beginc offset) beginc
      offset limit Channel.Same before pair := by
  intro image place within isOut isRes
  obtain ⟨restored, ran, same⟩ :=
    invSqueezeAt_ok isOut isRes squeezed squeezable
  exact .of_eq_ok ((invSqueezeChannel_eq fits within isRes).trans ran)
    ⟨restored, rfl, same⟩

/-- A step that is accepted and whose inputs are in range. -/
structure StepInRange
    (image : ModularImage)
    (param : SqueezeParams) :
    Prop where
  accepted : checkMetaSqueezeParams param image.channels.length = .ok ()
  squeezable :
    ∀ channel, param.Names image channel → Squeezable param.horizontal channel
  indices : param.offset image + (param.begin_c + param.num_c) ≤ 2 ^ 32

/-- The channels before a step and after it. -/
structure StepSqueezed
    (param : SqueezeParams)
    (before after : ModularImage)
    (front mids between back : List Channel)
    (pairs : List (Channel × Channel)) :
    Prop extends RunAt param before front mids between back where
  nonempty : 0 < param.num_c
  squeezed : Squeezed param.horizontal mids pairs
  squeezable : ∀ channel ∈ mids, Squeezable param.horizontal channel
  after : after = { before with channels := splitList front between back pairs }

/-- An accepted step whose inputs are in range succeeds. -/
theorem fwdSqueezeStep_ok
    {param : SqueezeParams}
    (inRange : StepInRange image param) :
    ∃ after front mids between back pairs,
      fwdSqueezeStep image param = .ok after ∧
        StepSqueezed param image after front mids between back pairs := by
  obtain ⟨isEnd, nonempty, inside⟩ := accepted_bounds inRange.accepted
  have fits := end_lt_of_indices inside inRange.indices
  obtain ⟨front, mids, between, back, run⟩ := exists_runAt inside
  have squeezable :
      ∀ channel ∈ mids, Squeezable param.horizontal channel :=
    fun channel member => inRange.squeezable channel (run.names member)
  obtain ⟨_, ran, pairs, rfl, squeezed⟩ :=
    (@meets_splits _ _ _ _ _ image front mids between back 0
      (fun channel member =>
        splits_fwdSqueezeChannel param.begin_c (param.offset image)
          (squeezable channel member))
      run.channels run.frontCount.symm run.place).exists_ok
  refine ⟨_, front, mids, between, back, pairs, ?_, {
    toRunAt := run
    nonempty := nonempty
    squeezed := squeezed
    squeezable := squeezable
    after := rfl }⟩
  unfold fwdSqueezeStep
  rw [inRange.accepted, ok_bind]
  dsimp only
  rw [isEnd, ok_bind, fwdOffset_ok nonempty fits, ok_bind, run.count nonempty,
    List.range_eq_range']
  refine Eq.trans (congrArg (· >>= _) ran) ?_
  rw [ok_bind, addU_ok (by omega), ok_bind]
  rfl

/-- An image that holds what another one held. -/
structure Restores
    (restored image : ModularImage) :
    Prop where
  same : restored.Same image.toImage
  nb_meta_channels : restored.nb_meta_channels = image.nb_meta_channels
  bitdepth : restored.bitdepth = image.bitdepth

/-- The parts of a list that holds the same channels as another one. -/
theorem forall₂_append_split
    {R : Channel → Channel → Prop}
    {items first second : List Channel}
    (related : List.Forall₂ R items (first ++ second)) :
    ∃ front back,
      items = front ++ back ∧
        List.Forall₂ R front first ∧ List.Forall₂ R back second :=
  ⟨items.take first.length, items.drop first.length,
    (List.take_append_drop _ _).symm,
    List.forall₂_take_append _ _ _ related,
    List.forall₂_drop_append _ _ _ related⟩

/-- The inverse of a step that was squeezed. -/
theorem invSqueezeStep_ok
    {param : SqueezeParams}
    {before after image : ModularImage}
    {front mids between back : List Channel}
    {pairs : List (Channel × Channel)}
    (nonMeta : before.nb_meta_channels ≤ param.begin_c)
    (indices : param.offset before + (param.begin_c + param.num_c) ≤ 2 ^ 32)
    (step : StepSqueezed param before after front mids between back pairs)
    (restores : Restores image after) :
    ∃ restored,
      invSqueezeStep image param = .ok restored ∧
        Restores restored before := by
  have run := step.toRunAt
  have frontCount := run.frontCount
  have midsCount := run.midsCount
  have nonempty := step.nonempty
  have same := restores.same
  unfold Image.Same at same
  rw [step.after] at same
  dsimp only [splitList] at same
  obtain ⟨rest, back', areChannels, same, sameBack⟩ :=
    forall₂_append_split same
  obtain ⟨rest, ress, rfl, same, sameRess⟩ := forall₂_append_split same
  obtain ⟨rest, between', rfl, same, sameBetween⟩ := forall₂_append_split same
  obtain ⟨front', outs, rfl, sameFront, sameOuts⟩ := forall₂_append_split same
  obtain ⟨others, rfl, rfl, squeezed⟩ := step.squeezed.congr sameOuts sameRess
  have othersCount : others.length = mids.length :=
    (List.Forall₂.length_eq squeezed).symm
  have frontLength := List.Forall₂.length_eq sameFront
  have betweenLength := List.Forall₂.length_eq sameBetween
  have backLength := List.Forall₂.length_eq sameBack
  have beforeCount := congrArg List.length run.channels
  have imageCount := congrArg List.length areChannels
  simp only [List.length_append, List.length_map] at beforeCount imageCount
  have fits : param.begin_c + param.num_c < 2 ^ 32 :=
    end_lt_of_indices (by omega) indices
  have longer :
      image.channels.length = before.channels.length + param.num_c := by
    omega
  have place :
      param.offset before =
        (front' ++ others.map Prod.fst ++ between').length := by
    rw [run.place]
    simp only [List.length_append, List.length_map]
    omega
  have noMeta :
      ¬ (param.begin_c < image.nb_meta_channels ∧
        param.num_c ≤ image.nb_meta_channels) := by
    have sameMeta := restores.nb_meta_channels
    rw [step.after] at sameMeta
    dsimp only at sameMeta
    omega
  have joins :
      List.Forall₂
        (Joins (fun _ => False)
          (invSqueezeChannel param.horizontal param.begin_c
            (param.offset before))
          param.begin_c (param.offset before) param.num_c Channel.Same)
        mids others := by
    have related :=
      (List.forall₂_and_left mids others).2 ⟨step.squeezable, squeezed⟩
    exact related.imp
      (fun _ _ both => joins_invSqueezeChannel indices both.1 both.2)
  obtain ⟨_, ran, restored, rfl, areRestored⟩ :=
    (@meets_joins _ _ _ _ _ image _ _ _ _ _ 0 _ joins areChannels (by omega)
      place (by omega)).exists_ok
  have between_eq :
      param.begin_c + param.num_c - 1 - param.begin_c + 1 = mids.length := by
    omega
  have removed :=
    @RunAt.erase _ _ _ _ _ _ run front' restored between'
      (others.map Prod.snd) back' frontLength
      (List.Forall₂.length_eq areRestored) betweenLength
      (by rw [List.length_map, othersCount])
  refine
    ⟨{ image with channels := front' ++ restored ++ between' ++ back' },
      ?_, ?_⟩
  · unfold invSqueezeStep
    dsimp only
    rw [end_c_ok nonempty fits, ok_bind, longer,
      invOffset_ok run nonempty indices, ok_bind, if_neg noMeta,
      run.count nonempty, List.range_eq_range', ran, ok_bind,
      addU_ok (by omega), ok_bind, subU_ok (by omega), ok_bind,
      addU_ok (by omega), ok_bind, between_eq, removed]
    rfl
  · refine ⟨?_, ?_, ?_⟩
    · show List.Forall₂ Channel.Same (front' ++ restored ++ between' ++ back')
        before.channels
      rw [run.channels]
      exact List.rel_append
        (List.rel_append (List.rel_append sameFront areRestored) sameBetween)
        sameBack
    · rw [restores.nb_meta_channels, step.after]
    · rw [restores.bitdepth, step.after]

/-- Each step is accepted when it is reached, and its inputs are small. -/
def AcceptedSmall
    (image : ModularImage)
    (parameters : List SqueezeParams) :
    Prop :=
  ∀ done param rest before,
    parameters = done ++ param :: rest →
    fwdSqueeze image done = .ok before →
    checkMetaSqueezeParams param before.channels.length = .ok () ∧
      ∀ channel, param.Names before channel → SmallChannel channel

/--
The indices of the residuals of each step fit 32 bits, and its channels have
room for one more shift and an even size.
-/
def HasRoom
    (image : ModularImage)
    (parameters : List SqueezeParams) :
    Prop :=
  ∀ done param rest before,
    parameters = done ++ param :: rest →
    fwdSqueeze image done = .ok before →
    param.offset before + (param.begin_c + param.num_c) ≤ 2 ^ 32 ∧
      ∀ channel,
        param.Names before channel →
        ShiftsFit channel ∧ RoomFor param.horizontal channel

/-- Squeezing succeeds, and undoing it restores the image. -/
def SqueezeRestores
    (image : ModularImage)
    (parameters : List SqueezeParams) :
    Prop :=
  ∃ after restored,
    fwdSqueeze image parameters = .ok after ∧
      invSqueeze after parameters = .ok restored ∧ Restores restored image

/--
Steps on non-meta channels, each accepted with small inputs and room, succeed;
and undoing them restores the list of channels, their sizes, shifts and samples.
-/
theorem invSqueeze_fwdSqueeze
    {image : ModularImage}
    {parameters : List SqueezeParams}
    (nonMeta :
      ∀ param ∈ parameters, image.nb_meta_channels ≤ param.begin_c)
    (accepted : AcceptedSmall image parameters)
    (room : HasRoom image parameters) :
    SqueezeRestores image parameters := by
  induction parameters generalizing image with
  | nil =>
      refine ⟨image, image, rfl, rfl, ?_, rfl, rfl⟩
      exact List.forall₂_same.2 (fun channel _ => .refl channel)
  | cons param parameters inductionHypothesis =>
      obtain ⟨passes, small⟩ := accepted [] param parameters image rfl rfl
      obtain ⟨indices, fits⟩ := room [] param parameters image rfl rfl
      obtain ⟨mid, front, mids, between, back, pairs, ran, step⟩ :=
        @fwdSqueezeStep_ok image param {
          accepted := passes
          indices := indices
          squeezable := fun channel named => {
            small := small channel named
            shifts := (fits channel named).1
            room := (fits channel named).2 } }
      have sameMeta : mid.nb_meta_channels = image.nb_meta_channels := by
        rw [step.after]
      have reaches :
          ∀ done before,
            fwdSqueeze mid done = .ok before →
            fwdSqueeze image (param :: done) = .ok before := by
        intro done before reached
        unfold fwdSqueeze
        rw [List.foldlM_cons, ran, ok_bind]
        exact reached
      obtain ⟨after, restored, ranLater, undone, restores⟩ :=
        inductionHypothesis
          (fun later member =>
            sameMeta ▸ nonMeta later (List.mem_cons_of_mem _ member))
          (fun done later rest before split reached =>
            accepted (param :: done) later rest before
              (congrArg (param :: ·) split) (reaches done before reached))
          (fun done later rest before split reached =>
            room (param :: done) later rest before
              (congrArg (param :: ·) split) (reaches done before reached))
      obtain ⟨result, undoneFirst, restoresFirst⟩ :=
        invSqueezeStep_ok (nonMeta param List.mem_cons_self) indices step
          restores
      refine ⟨after, result, reaches parameters after ranLater, ?_,
        restoresFirst⟩
      unfold invSqueeze at undone ⊢
      rw [List.reverse_cons, List.foldlM_append, undone, ok_bind,
        List.foldlM_cons, undoneFirst]
      rfl

/-- A single step is reached at once. -/
theorem single_split
    {param later : SqueezeParams}
    {done rest : List SqueezeParams}
    {image before : ModularImage}
    (split : [param] = done ++ later :: rest)
    (reached : fwdSqueeze image done = .ok before) :
    later = param ∧ before = image := by
  cases done with
  | nil =>
      cases split
      cases reached
      exact ⟨rfl, rfl⟩
  | cons head tail =>
      have lengths := congrArg List.length split
      simp only [List.length_cons, List.length_nil, List.cons_append,
        List.length_append] at lengths
      omega

/-- One row of three samples. -/
def threeSamples : ModularImage :=
  { channels := [{ w := 3, h := 1, sample := fun _ x => Int32.ofNat (5 * x) }] }

theorem invSqueeze_fwdSqueeze_threeSamples :
    SqueezeRestores threeSamples [{ horizontal := true, num_c := 1 }] := by
  have named :
      ∀ channel,
        (SqueezeParams.mk true false 0 1).Names threeSamples channel →
        channel ∈ threeSamples.channels := by
    rintro channel ⟨c, _, _, isChannel⟩
    exact List.mem_of_getElem? isChannel
  refine invSqueeze_fwdSqueeze ?_ ?_ ?_
  · intro param member
    exact Nat.zero_le _
  · intro done param rest before split reached
    obtain ⟨rfl, rfl⟩ := single_split split reached
    refine ⟨by decide, ?_⟩
    intro channel isNamed
    rw [List.mem_singleton.1 (named channel isNamed)]
    unfold SmallChannel SmallSample
    decide
  · intro done param rest before split reached
    obtain ⟨rfl, rfl⟩ := single_split split reached
    refine ⟨by decide, ?_⟩
    intro channel isNamed
    rw [List.mem_singleton.1 (named channel isNamed)]
    exact ⟨⟨by decide, by decide⟩, by unfold RoomFor; decide⟩

/-- The same without room: steps on non-meta channels, accepted and small. -/
def RestoresWithoutRoom
    (image : ModularImage)
    (parameters : List SqueezeParams) :
    Prop :=
  (∀ param ∈ parameters, image.nb_meta_channels ≤ param.begin_c) →
    (∀ channel ∈ image.channels, ShiftsFit channel) →
    AcceptedSmall image parameters → SqueezeRestores image parameters

/-- A channel whose horizontal shift is the largest one. -/
def highestShift : ModularImage :=
  { channels := [{ w := 2, h := 1, hshift := 2 ^ 31 - 1 }] }

/-- A channel of no rows whose width is the largest one. -/
def widestRows : ModularImage :=
  { channels := [{ w := 2 ^ 64 - 1, h := 0 }] }

/-- Empty channels, one more than the indices of the inverse reach. -/
def manyChannels : ModularImage :=
  { channels := List.replicate (2 ^ 32) { w := 0, h := 0 } }

/-- One step on the first channel is accepted if its samples are small. -/
theorem acceptedSmall_first
    {channel : Channel}
    (only : ∀ other ∈ image.channels, other = channel)
    (accepted :
      checkMetaSqueezeParams { horizontal := true, num_c := 1 }
        image.channels.length = .ok ())
    (small : SmallChannel channel) :
    AcceptedSmall image [{ horizontal := true, num_c := 1 }] := by
  intro done param rest before split reached
  obtain ⟨rfl, rfl⟩ := single_split split reached
  refine ⟨accepted, ?_⟩
  rintro other ⟨c, _, _, isChannel⟩
  rw [only other (List.mem_of_getElem? isChannel)]
  exact small

/-- A horizontal squeeze adds one channel. -/
theorem length_fwdHSqueeze
    {image after : ModularImage}
    {c rc : Nat}
    (squeezed : fwdHSqueeze image c rc = .ok after) :
    after.channels.length = image.channels.length + 1 := by
  unfold fwdHSqueeze at squeezed
  obtain ⟨_, _, squeezed⟩ := bind_eq_ok.1 squeezed
  obtain ⟨_, _, squeezed⟩ := bind_eq_ok.1 squeezed
  obtain ⟨_, _, squeezed⟩ := bind_eq_ok.1 squeezed
  obtain ⟨⟨out, res⟩, _, squeezed⟩ := bind_eq_ok.1 squeezed
  obtain ⟨_, inside, squeezed⟩ := bind_eq_ok.1 squeezed
  cases squeezed
  have room := require_eq_ok.1 inside
  rw [List.length_insertIdx_of_le_length room, List.length_set]

/-- Residuals at the end of so many channels are out of the inverse's reach. -/
theorem not_restores_of_count
    (many : image.channels.length = 2 ^ 32) :
    ¬ SqueezeRestores image [{ horizontal := true, num_c := 1 }] := by
  rintro ⟨after, restored, squeezed, undone, _⟩
  obtain ⟨mid, step, isAfter⟩ := bind_eq_ok.1 squeezed
  cases isAfter
  have count : after.channels.length = 2 ^ 32 + 1 := by
    unfold fwdSqueezeStep at step
    obtain ⟨_, _, step⟩ := bind_eq_ok.1 step
    obtain ⟨endc, isEnd, step⟩ := bind_eq_ok.1 step
    obtain ⟨offset, _, step⟩ := bind_eq_ok.1 step
    obtain ⟨image, ran, step⟩ := bind_eq_ok.1 step
    obtain ⟨_, _, step⟩ := bind_eq_ok.1 step
    cases isEnd
    cases step
    obtain ⟨other, ran, isOther⟩ := bind_eq_ok.1 ran
    cases isOther
    rw [length_fwdHSqueeze ran, many]
  obtain ⟨mid, step, _⟩ := bind_eq_ok.1 undone
  unfold invSqueezeStep at step
  obtain ⟨endc, isEnd, step⟩ := bind_eq_ok.1 step
  obtain ⟨offset, isOffset, step⟩ := bind_eq_ok.1 step
  cases isEnd
  rw [count] at isOffset
  cases isOffset

theorem length_manyChannels :
    manyChannels.channels.length = 2 ^ 32 := by
  unfold manyChannels
  exact List.length_replicate

theorem eq_of_mem_manyChannels
    {channel : Channel}
    (member : channel ∈ manyChannels.channels) :
    channel = { w := 0, h := 0 } := by
  unfold manyChannels at member
  exact List.eq_of_mem_replicate member

/-- Without room a step overflows, or its inverse does. -/
theorem not_restoresWithoutRoom :
    ¬ RestoresWithoutRoom highestShift [{ horizontal := true, num_c := 1 }] ∧
      ¬ RestoresWithoutRoom widestRows [{ horizontal := true, num_c := 1 }] ∧
      ¬ RestoresWithoutRoom manyChannels
        [{ horizontal := true, num_c := 1 }] := by
  refine ⟨?_, ?_, ?_⟩
  · intro restores
    obtain ⟨after, restored, squeezed, _⟩ := restores
      (fun _ _ => Nat.zero_le _)
      (fun channel member => by
        rw [List.mem_singleton.1 member]
        exact ⟨by decide, by decide⟩)
      (acceptedSmall_first (fun other => List.mem_singleton.1) (by decide)
        (by unfold SmallChannel SmallSample; decide))
    cases squeezed
  · intro restores
    obtain ⟨after, restored, squeezed, _⟩ := restores
      (fun _ _ => Nat.zero_le _)
      (fun channel member => by
        rw [List.mem_singleton.1 member]
        exact ⟨by decide, by decide⟩)
      (acceptedSmall_first (fun other => List.mem_singleton.1) (by decide)
        (fun y inside => absurd inside (Nat.not_lt_zero y)))
    cases squeezed
  · intro restores
    refine not_restores_of_count length_manyChannels (restores ?_ ?_ ?_)
    · exact fun _ _ => Nat.zero_le _
    · intro channel member
      rw [eq_of_mem_manyChannels member]
      exact ⟨by decide, by decide⟩
    · refine acceptedSmall_first (fun other => eq_of_mem_manyChannels) ?_
        (fun y inside => absurd inside (Nat.not_lt_zero y))
      rw [length_manyChannels]
      decide

end Jxlz.Modular
