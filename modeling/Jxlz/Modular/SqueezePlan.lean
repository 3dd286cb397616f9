import Jxlz.Modular.SqueezeStructure
import Jxlz.Modular.Transform

namespace Jxlz.Modular

/-!
# The plan of a squeeze

A step of `metaSqueeze` gets through where its guards let it; a run gets through
where every step does.  `fwdSqueeze` has none of these guards, but it squeezes
the channels that `metaSqueeze` has planned.
-/

/-- The meta channels after a step of `metaSqueeze`. -/
def nextMetaCount
    (nb_meta_channels : Nat)
    (param : SqueezeParams) :
    Nat :=
  if param.begin_c < nb_meta_channels then nb_meta_channels + param.num_c
  else nb_meta_channels

/--
The guards of a step of `metaSqueeze` when there are so many meta channels: a
squeeze of meta channels is in place and names no others, and all channels that
it names can be planned.
-/
structure Permits
    (nb_meta_channels : Nat)
    (image : ModularImage)
    (param : SqueezeParams) :
    Prop where
  amongMeta :
    param.begin_c < nb_meta_channels →
      param.begin_c + param.num_c ≤ nb_meta_channels ∧
        param.in_place = true ∧ nb_meta_channels + param.num_c < 2 ^ 64
  plannable : ∀ channel, param.Names image channel → Plannable channel

variable {param : SqueezeParams}

variable {image : ModularImage}

theorem roundsPlannable_iff :
    RoundsPlannable param param.num_c image ↔
      ∀ channel, param.Names image channel → Plannable channel := by
  constructor
  · rintro all channel ⟨c, late, early, isChannel⟩
    refine all (c - param.begin_c) (by omega) channel ?_
    rw [Nat.add_sub_cancel' late]
    exact isChannel
  · intro all place early channel isChannel
    exact all channel ⟨param.begin_c + place, by omega, by omega, isChannel⟩

/-- Meta channels are counted when their guard lets the step through. -/
theorem metaSqueezeCount_eq_ok
    (nonempty : 0 < param.num_c)
    {count : Nat} :
    metaSqueezeCount image param (param.begin_c + param.num_c - 1) = .ok count ↔
      (param.begin_c < image.nb_meta_channels →
        param.begin_c + param.num_c ≤ image.nb_meta_channels ∧
          param.in_place = true ∧
          image.nb_meta_channels + param.num_c < 2 ^ 64) ∧
        count = nextMetaCount image.nb_meta_channels param := by
  unfold metaSqueezeCount nextMetaCount
  by_cases among : param.begin_c < image.nb_meta_channels
  · simp only [if_pos among]
    by_cases beyond : image.nb_meta_channels ≤ param.begin_c + param.num_c - 1
    · rw [if_pos beyond]
      constructor
      · intro counted
        cases counted
      · rintro ⟨guards, _⟩
        have within := (guards among).1
        omega
    · rw [if_neg beyond]
      by_cases inPlace : param.in_place = true
      · rw [if_neg (not_not.2 inPlace)]
        constructor
        · intro counted
          obtain ⟨isCount, fits⟩ := addU_eq_ok counted
          exact ⟨fun _ => ⟨by omega, inPlace, fits⟩, isCount⟩
        · rintro ⟨guards, rfl⟩
          exact addU_ok (guards among).2.2
      · rw [if_pos inPlace]
        constructor
        · intro counted
          cases counted
        · rintro ⟨guards, _⟩
          exact (inPlace (guards among).2.1).elim
  · simp only [if_neg among]
    constructor
    · intro counted
      cases counted
      exact ⟨fun asked => (among asked).elim, rfl⟩
    · rintro ⟨_, rfl⟩
      rfl

/-- What an accepted step of `fwdSqueeze` has computed. -/
theorem fwdSqueezeStep_rounds
    {image squeezed : ModularImage}
    (ran : fwdSqueezeStep image param = .ok squeezed) :
    checkMetaSqueezeParams param image.channels.length = .ok () ∧
      param.begin_c + param.num_c < 2 ^ 32 ∧
      fwdRounds param (param.offset image) param.num_c image = .ok squeezed := by
  obtain ⟨_, accepted, ran⟩ := bind_eq_ok.1 ran
  obtain ⟨isEnd, nonempty, inside⟩ := accepted_bounds accepted
  obtain ⟨endc, isEndc, ran⟩ := bind_eq_ok.1 ran
  rw [isEnd] at isEndc
  cases isEndc
  have sum : param.begin_c + param.num_c < 2 ^ 32 := by
    unfold SqueezeParams.end_c at isEnd
    obtain ⟨total, isTotal, _⟩ := bind_eq_ok.1 isEnd
    exact (addU_eq_ok isTotal).2
  rw [fwdOffset_ok nonempty sum] at ran
  obtain ⟨offset, isOffset, ran⟩ := bind_eq_ok.1 ran
  cases isOffset
  have many :
      param.begin_c + param.num_c - 1 + 1 - param.begin_c = param.num_c := by
    omega
  rw [many] at ran
  obtain ⟨result, rounds, ran⟩ := bind_eq_ok.1 ran
  obtain ⟨_, _, ran⟩ := bind_eq_ok.1 ran
  cases ran
  exact ⟨accepted, sum, rounds⟩

/-- A step of `metaSqueeze` is its count and its rounds. -/
theorem metaSqueezeStep_eq
    (accepted : checkMetaSqueezeParams param image.channels.length = .ok ())
    (sum : param.begin_c + param.num_c < 2 ^ 32) :
    metaSqueezeStep image param = (do
      let nb_meta_channels ←
        metaSqueezeCount image param (param.begin_c + param.num_c - 1)
      metaRounds param (param.offset image) param.num_c
        { image with nb_meta_channels }) := by
  obtain ⟨isEnd, nonempty, inside⟩ := accepted_bounds accepted
  have many :
      param.begin_c + param.num_c - 1 + 1 - param.begin_c = param.num_c := by
    omega
  have last : param.begin_c + param.num_c - 1 + 1 < 2 ^ 32 := by
    omega
  unfold metaSqueezeStep
  rw [accepted, ok_bind, isEnd, ok_bind]
  congr 1
  funext nb_meta_channels
  rw [fwdOffset_ok nonempty sum, ok_bind, many, addU_ok last]
  unfold metaRounds
  generalize
    (List.range param.num_c).foldlM
      (metaSqueezeChannel param.horizontal param.begin_c (param.offset image))
      { image with nb_meta_channels } = rounds
  cases rounds <;> rfl

variable {counts : Prop}

/-- The steps of the two functions keep their lists in step. -/
theorem step_alike
    {image plain squeezed : ModularImage}
    (alike : List.Forall₂ (Alike counts) image.channels plain.channels)
    (ran : fwdSqueezeStep image param = .ok squeezed) :
    (∀ planned,
      metaSqueezeStep plain param = .ok planned →
      List.Forall₂ (Alike counts) squeezed.channels planned.channels ∧
        planned.nb_meta_channels =
            nextMetaCount plain.nb_meta_channels param ∧
        Permits plain.nb_meta_channels plain param) ∧
      (Permits plain.nb_meta_channels plain param →
        ∃ planned, metaSqueezeStep plain param = .ok planned) := by
  obtain ⟨accepted, sum, rounds⟩ := fwdSqueezeStep_rounds ran
  have sameLength := alike.length_eq
  have sameOffset : param.offset plain = param.offset image := by
    unfold SqueezeParams.offset
    rw [sameLength]
  obtain ⟨_, nonempty, inside⟩ := accepted_bounds accepted
  have within : param.begin_c + param.num_c ≤ param.offset image := by
    unfold SqueezeParams.offset
    split
    · exact le_refl _
    · exact inside
  rw [sameLength] at accepted
  rw [metaSqueezeStep_eq accepted sum, sameOffset]
  constructor
  · intro planned isPlanned
    obtain ⟨count, isCount, isPlanned⟩ := bind_eq_ok.1 isPlanned
    obtain ⟨guards, rfl⟩ := (metaSqueezeCount_eq_ok nonempty).1 isCount
    obtain ⟨runsOn, alike', plannable⟩ :=
      (@rounds_alike counts param (param.offset image) param.num_c image
        { plain with
          nb_meta_channels := nextMetaCount plain.nb_meta_channels param }
        squeezed alike within rounds).2.1 planned isPlanned
    exact ⟨alike', runsOn.nb_meta_channels, guards,
      roundsPlannable_iff.1 plannable⟩
  · intro permits
    rw [(metaSqueezeCount_eq_ok nonempty).2 ⟨permits.amongMeta, rfl⟩, ok_bind]
    exact (@rounds_alike counts param (param.offset image) param.num_c image
      { plain with
        nb_meta_channels := nextMetaCount plain.nb_meta_channels param }
      squeezed alike within rounds).2.2 (roundsPlannable_iff.2 permits.plannable)

/-- Guards see the shapes of the channels only. -/
theorem Permits.congr
    {nb_meta_channels : Nat}
    {image plain : ModularImage}
    (alike : List.Forall₂ (Alike True) image.channels plain.channels) :
    Permits nb_meta_channels plain param ↔
      Permits nb_meta_channels image param := by
  have plannable_iff :
      ∀ {channel other : Channel},
        Alike True channel other → (Plannable channel ↔ Plannable other) := by
    intro channel other same
    have size := same.size
    have width : channel.w = other.w := congrArg Prod.fst size
    have height : channel.h = other.h := congrArg Prod.snd size
    obtain ⟨⟨sameH, sameV⟩, _⟩ := same.shifts trivial
    constructor
    · rintro ⟨shifts, nonempty⟩
      exact ⟨by omega, by omega⟩
    · rintro ⟨shifts, nonempty⟩
      exact ⟨by omega, by omega⟩
  constructor
  · rintro ⟨amongMeta, plannable⟩
    refine ⟨amongMeta, ?_⟩
    rintro channel ⟨c, late, early, isChannel⟩
    obtain ⟨other, isOther, same⟩ := forall₂_getElem? alike isChannel
    exact (plannable_iff same).2 (plannable other ⟨c, late, early, isOther⟩)
  · rintro ⟨amongMeta, plannable⟩
    refine ⟨amongMeta, ?_⟩
    rintro other ⟨c, late, early, isOther⟩
    have inside : c < image.channels.length := by
      rw [alike.length_eq]
      exact (List.getElem?_eq_some_iff.1 isOther).1
    obtain ⟨other', isOther', same⟩ :=
      forall₂_getElem? alike (List.getElem?_eq_getElem inside)
    rw [isOther] at isOther'
    cases isOther'
    exact (plannable_iff same).1
      (plannable _ ⟨c, late, early, List.getElem?_eq_getElem inside⟩)

/-- The guards of all steps, along the run of `fwdSqueeze`. -/
def PermitsAll :
    Nat → ModularImage → List SqueezeParams → Prop
  | _, _, [] => True
  | nb_meta_channels, image, param :: parameters =>
      Permits nb_meta_channels image param ∧
        ∀ next,
          fwdSqueezeStep image param = .ok next →
          PermitsAll (nextMetaCount nb_meta_channels param) next parameters

/-- Runs of the two functions keep their lists in step. -/
theorem run_alike
    {parameters : List SqueezeParams}
    {image plain squeezed planned : ModularImage}
    (alike : List.Forall₂ (Alike counts) image.channels plain.channels)
    (ran : fwdSqueeze image parameters = .ok squeezed)
    (plannedRun : parameters.foldlM metaSqueezeStep plain = .ok planned) :
    List.Forall₂ (Alike counts) squeezed.channels planned.channels := by
  induction parameters generalizing image plain with
  | nil =>
      cases ran
      cases plannedRun
      exact alike
  | cons param parameters inductionHypothesis =>
      obtain ⟨next, step, ran⟩ := bind_eq_ok.1 ran
      obtain ⟨next', step', plannedRun⟩ := bind_eq_ok.1 plannedRun
      exact inductionHypothesis ((step_alike alike step).1 next' step').1 ran
        plannedRun

/-- `metaSqueeze` gets through exactly where its guards let every step through. -/
theorem run_permitted
    {parameters : List SqueezeParams}
    {image plain squeezed : ModularImage}
    (alike : List.Forall₂ (Alike True) image.channels plain.channels)
    (ran : fwdSqueeze image parameters = .ok squeezed) :
    (∃ planned, parameters.foldlM metaSqueezeStep plain = .ok planned) ↔
      PermitsAll plain.nb_meta_channels image parameters := by
  induction parameters generalizing image plain with
  | nil =>
      exact ⟨fun _ => trivial, fun _ => ⟨plain, rfl⟩⟩
  | cons param parameters inductionHypothesis =>
      obtain ⟨next, step, ran⟩ := bind_eq_ok.1 ran
      obtain ⟨stepAlike, stepOk⟩ := step_alike alike step
      constructor
      · rintro ⟨planned, plannedRun⟩
        obtain ⟨next', step', plannedRun⟩ := bind_eq_ok.1 plannedRun
        obtain ⟨alike', count, permits⟩ := stepAlike next' step'
        refine ⟨(Permits.congr alike).1 permits, ?_⟩
        intro other isOther
        rw [step] at isOther
        cases isOther
        rw [← count]
        exact (inductionHypothesis alike' ran).1 ⟨planned, plannedRun⟩
      · rintro ⟨permits, later⟩
        obtain ⟨next', step'⟩ := stepOk ((Permits.congr alike).2 permits)
        obtain ⟨alike', count, _⟩ := stepAlike next' step'
        obtain ⟨planned, plannedRun⟩ :=
          (inductionHypothesis alike' ran).2 (by rw [count]; exact later next step)
        refine ⟨planned, ?_⟩
        rw [List.foldlM_cons, step', ok_bind, plannedRun]

/-- Channels of the same shapes are alike. -/
theorem alike_of_shapes
    {image plain : List Channel}
    (same : plain.map Channel.shape = image.map Channel.shape)
    (upwards :
      counts → ∀ channel ∈ image, 0 ≤ channel.hshift ∧ 0 ≤ channel.vshift) :
    List.Forall₂ (Alike counts) image plain := by
  induction image generalizing plain with
  | nil =>
      rw [List.map_nil, List.map_eq_nil_iff] at same
      rw [same]
      exact .nil
  | cons channel image inductionHypothesis =>
      cases plain with
      | nil =>
          cases same
      | cons other plain =>
          rw [List.map_cons, List.map_cons, List.cons.injEq] at same
          obtain ⟨sameShape, same⟩ := same
          simp only [Channel.shape, Prod.mk.injEq] at sameShape
          obtain ⟨size, hshift, vshift⟩ := sameShape
          refine .cons ⟨size.symm, ?_⟩
            (inductionHypothesis same fun counting other member =>
              upwards counting other (List.mem_cons_of_mem channel member))
          intro counting
          have positive := upwards counting channel List.mem_cons_self
          exact ⟨⟨hshift.symm, vshift.symm⟩, by omega, by omega⟩

theorem map_eq_of_alike
    {α : Type}
    {R : Channel → Channel → Prop}
    {view : Channel → α}
    {squeezed planned : List Channel}
    (alike : List.Forall₂ R squeezed planned)
    (same : ∀ {channel other}, R channel other → view other = view channel) :
    planned.map view = squeezed.map view := by
  induction alike with
  | nil =>
      rfl
  | cons head _ inductionHypothesis =>
      rw [List.map_cons, List.map_cons, same head, inductionHypothesis]

/--
Where `fwdSqueeze` accepts a list of steps, `metaSqueeze` on an image of the same
shapes gets through exactly where its own guards let every step through; then it
plans channels of the sizes that `fwdSqueeze` leaves, in the same order, and of
the same shifts unless negative ones mark a palette.
-/
theorem metaSqueeze_agrees
    {image plain squeezed : ModularImage}
    {parameters : List SqueezeParams}
    (ran : fwdSqueeze image parameters = .ok squeezed)
    (given : parameters ≠ [])
    (sameShapes :
      plain.channels.map Channel.shape = image.channels.map Channel.shape)
    (sameMeta : plain.nb_meta_channels = image.nb_meta_channels) :
    (∀ planned filled,
      metaSqueeze plain parameters = .ok (planned, filled) →
      planned.channels.map Channel.size =
        squeezed.channels.map Channel.size) ∧
      ((∀ channel ∈ image.channels, 0 ≤ channel.hshift ∧ 0 ≤ channel.vshift) →
        ((∃ planned filled,
            metaSqueeze plain parameters = .ok (planned, filled)) ↔
          PermitsAll image.nb_meta_channels image parameters) ∧
      ∀ planned filled,
        metaSqueeze plain parameters = .ok (planned, filled) →
        planned.channels.map Channel.shape =
          squeezed.channels.map Channel.shape) := by
  have isRun :
      metaSqueeze plain parameters = (do
        let planned ← parameters.foldlM metaSqueezeStep plain
        return (planned, parameters)) := by
    rw [metaSqueeze, squeezeParameters, if_neg given, ok_bind]
  have planned_run :
      ∀ {planned filled},
        metaSqueeze plain parameters = .ok (planned, filled) →
        parameters.foldlM metaSqueezeStep plain = .ok planned := by
    intro planned filled isPlanned
    rw [isRun] at isPlanned
    obtain ⟨result, isResult, isPlanned⟩ := bind_eq_ok.1 isPlanned
    cases isPlanned
    exact isResult
  constructor
  · intro planned filled isPlanned
    have alike :=
      run_alike (@alike_of_shapes False _ _ sameShapes False.elim) ran
        (planned_run isPlanned)
    exact map_eq_of_alike alike fun same => same.size.symm
  · intro upwards
    have alike := @alike_of_shapes True _ _ sameShapes fun _ => upwards
    constructor
    · rw [← sameMeta, ← run_permitted alike ran, isRun]
      constructor
      · rintro ⟨planned, filled, isPlanned⟩
        obtain ⟨result, isResult, _⟩ := bind_eq_ok.1 isPlanned
        exact ⟨result, isResult⟩
      · rintro ⟨planned, isPlanned⟩
        exact ⟨planned, parameters, by rw [isPlanned, ok_bind]; rfl⟩
    · intro planned filled isPlanned
      refine map_eq_of_alike (run_alike alike ran (planned_run isPlanned)) ?_
      intro channel other same
      obtain ⟨⟨sameH, sameV⟩, _⟩ := same.shifts trivial
      rw [Channel.shape, Channel.shape, same.size, sameH, sameV]

/-- A channel of odd size. -/
def oddImage : ModularImage where
  channels := [{ w := 5, h := 3, sample := fun y x => Int32.ofInt (7 * y - x * x) }]

/-- Steps across and then down. -/
def acrossThenDown : List SqueezeParams := [
  { horizontal := true, num_c := 1 },
  { horizontal := false, in_place := true, num_c := 2 }]

/-- The plan for an odd channel from its size alone. -/
theorem metaSqueeze_agrees_odd :
    ∃ squeezed,
      fwdSqueeze oddImage acrossThenDown = .ok squeezed ∧
        ∀ planned filled,
          metaSqueeze { channels := [Channel.create 5 3 0 0] } acrossThenDown =
              .ok (planned, filled) →
          planned.channels.map Channel.shape =
            squeezed.channels.map Channel.shape := by
  have evaluated :
      (fwdSqueeze oddImage acrossThenDown).toOption.isSome = true := by
    decide +kernel
  have sameShapes :
      ({ channels := [Channel.create 5 3 0 0] } : ModularImage).channels.map
          Channel.shape =
        oddImage.channels.map Channel.shape :=
    rfl
  cases ran : fwdSqueeze oddImage acrossThenDown with
  | error fault =>
      rw [ran] at evaluated
      cases evaluated
  | ok squeezed =>
      refine ⟨squeezed, rfl, ?_⟩
      refine ((metaSqueeze_agrees ran (List.cons_ne_nil _ _) sameShapes rfl).2 ?_).2
      intro channel member
      rw [List.mem_singleton.1 member]
      exact ⟨le_refl _, le_refl _⟩

/-- A palette and its index channel. -/
def markedImage : ModularImage where
  channels := [Channel.create 2 3 (-1) (-1), Channel.create 2 2 0 0]
  nb_meta_channels := 1

/-- `fwdSqueeze` squeezes a palette and its index together. -/
theorem not_metaSqueeze_agrees :
    ¬ ∀ (image plain squeezed : ModularImage) (parameters : List SqueezeParams),
      fwdSqueeze image parameters = .ok squeezed →
      plain.channels.map Channel.shape = image.channels.map Channel.shape →
      plain.nb_meta_channels = image.nb_meta_channels →
      ∃ planned filled,
        metaSqueeze plain parameters = .ok (planned, filled) ∧
          planned.channels.map Channel.shape =
            squeezed.channels.map Channel.shape := by
  intro always
  have evaluated :
      (fwdSqueeze markedImage
        [{ horizontal := true, in_place := true }]).toOption.isSome = true := by
    decide +kernel
  have refused :
      (metaSqueeze markedImage
        [{ horizontal := true, in_place := true }]).toOption.isSome = false := by
    decide +kernel
  cases ran : fwdSqueeze markedImage [{ horizontal := true, in_place := true }] with
  | error fault =>
      rw [ran] at evaluated
      cases evaluated
  | ok squeezed =>
      obtain ⟨planned, filled, isPlanned, _⟩ := always _ _ squeezed _ ran rfl rfl
      rw [isPlanned] at refused
      cases refused

end Jxlz.Modular
