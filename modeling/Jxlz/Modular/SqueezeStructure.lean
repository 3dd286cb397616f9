import Jxlz.Modular.SqueezePlaces
import Jxlz.Modular.SqueezeStep
import Jxlz.Modular.TransformShape

namespace Jxlz

namespace Channel

/-- The size of a channel and its shifts. -/
def shape
    (self : Channel) :
    (Nat × Nat) × Int × Int :=
  (self.size, self.hshift, self.vshift)

end Channel

namespace Modular

/-!
# The structure that a squeeze leaves and the one that is planned

`fwdSqueeze` squeezes samples, `metaSqueeze` only plans the channels.  Their
rounds halve and insert at the same places, so the lists stay in step; what
`metaSqueeze` refuses beyond `fwdSqueeze` are its own guards.
-/

/-- The shapes of the two halves of a channel, when the shift grows like this. -/
def halfShapes
    (horizontal : Bool)
    (next : Int → Int)
    (channel : Channel) :
    ((Nat × Nat) × Int × Int) × ((Nat × Nat) × Int × Int) :=
  if horizontal then
    ((((channel.w + 1) / 2, channel.h), next channel.hshift, channel.vshift),
      ((channel.w - (channel.w + 1) / 2, channel.h), next channel.hshift,
        channel.vshift))
  else
    (((channel.w, (channel.h + 1) / 2), channel.hshift, next channel.vshift),
      ((channel.w, channel.h - (channel.h + 1) / 2), channel.hshift,
        next channel.vshift))

/-- Storing samples keeps the shapes of averages and residuals. -/
theorem squeezeAt_shapes
    {line : Nat → Int32}
    {size count i y x : Nat}
    {before after : Channel × Channel}
    (stored : squeezeAt line size count i y x before = .ok after) :
    after.1.shape = before.1.shape ∧ after.2.shape = before.2.shape := by
  obtain ⟨⟨avg, residual⟩, _, stored⟩ := bind_eq_ok.1 stored
  cases stored
  exact ⟨rfl, rfl⟩

theorem squeezeRows_shapes
    {chin chout chout_residual : Channel}
    {pair : Channel × Channel}
    (ran : squeezeRows chin chout chout_residual = .ok pair) :
    pair.1.shape = chout.shape ∧ pair.2.shape = chout_residual.shape := by
  refine
    foldlM_range_of_ok
      (fun _ state =>
        state.1.shape = chout.shape ∧ state.2.shape = chout_residual.shape)
      ran ⟨rfl, rfl⟩ ?_
  intro y before after _ row keeps
  obtain ⟨⟨out, res⟩, pairs, row⟩ := bind_eq_ok.1 row
  have pairsKeep :
      out.shape = chout.shape ∧ res.shape = chout_residual.shape := by
    refine
      foldlM_range_of_ok
        (fun _ state =>
          state.1.shape = chout.shape ∧ state.2.shape = chout_residual.shape)
        pairs keeps ?_
    intro x state next _ pixel same
    obtain ⟨first, second⟩ := squeezeAt_shapes pixel
    exact ⟨first.trans same.1, second.trans same.2⟩
  dsimp only at row
  split at row
  next odd =>
    cases row
    exact pairsKeep
  next even =>
    cases row
    exact pairsKeep

theorem squeezeColumns_shapes
    {chin chout chout_residual : Channel}
    {pair : Channel × Channel}
    (ran : squeezeColumns chin chout chout_residual = .ok pair) :
    pair.1.shape = chout.shape ∧ pair.2.shape = chout_residual.shape := by
  obtain ⟨⟨out, res⟩, pairs, ran⟩ := bind_eq_ok.1 ran
  have pairsKeep :
      out.shape = chout.shape ∧ res.shape = chout_residual.shape := by
    refine
      foldlM_range_of_ok
        (fun _ state =>
          state.1.shape = chout.shape ∧ state.2.shape = chout_residual.shape)
        pairs ⟨rfl, rfl⟩ ?_
    intro y state next _ row keeps
    refine
      foldlM_range_of_ok
        (fun _ state =>
          state.1.shape = chout.shape ∧ state.2.shape = chout_residual.shape)
        row keeps ?_
    intro x before after _ pixel same
    obtain ⟨first, second⟩ := squeezeAt_shapes pixel
    exact ⟨first.trans same.1, second.trans same.2⟩
  dsimp only at ran
  split at ran
  next odd =>
    cases ran
    exact pairsKeep
  next even =>
    cases ran
    exact pairsKeep

/-- The other extent of a channel that is halved leaves room for one more. -/
def HalvingFits
    (horizontal : Bool)
    (channel : Channel) :
    Prop :=
  if horizontal then channel.w + 1 < 2 ^ 64 else channel.h + 1 < 2 ^ 64

variable {horizontal : Bool}

/-- A round of `fwdSqueeze` halves a channel and inserts its residuals. -/
theorem fwdSqueezeChannel_shapes
    {image after : ModularImage}
    {c rc : Nat}
    (ran : fwdSqueezeChannel horizontal image c rc = .ok after) :
    ∃ chin out res,
      image.channels[c]? = some chin ∧
        HalvingFits horizontal chin ∧
        rc ≤ image.channels.length ∧
        after = { image with
          channels := (image.channels.set c out).insertIdx rc res } ∧
        (out.shape, res.shape) = halfShapes horizontal (· + 1) chin := by
  unfold fwdSqueezeChannel at ran
  unfold HalvingFits halfShapes
  cases horizontal with
  | true =>
      rw [if_pos rfl] at ran
      obtain ⟨chin, isChannel, ran⟩ := bind_eq_ok.1 ran
      obtain ⟨above, isAbove, ran⟩ := bind_eq_ok.1 ran
      obtain ⟨hshift, isShift, ran⟩ := bind_eq_ok.1 ran
      obtain ⟨⟨out, res⟩, rows, ran⟩ := bind_eq_ok.1 ran
      obtain ⟨_, inside, ran⟩ := bind_eq_ok.1 ran
      cases ran
      obtain ⟨rfl, fits⟩ := addU_eq_ok isAbove
      have isNext : hshift = chin.hshift + 1 := by
        unfold addI32 at isShift
        split at isShift
        · cases isShift
          rfl
        · cases isShift
      subst isNext
      obtain ⟨outShape, resShape⟩ := squeezeRows_shapes rows
      have inside' := require_eq_ok.1 inside
      rw [List.length_set] at inside'
      refine ⟨chin, out, res, index_eq_ok.1 isChannel, fits, inside', rfl, ?_⟩
      rw [outShape, resShape]
      rfl
  | false =>
      rw [if_neg Bool.false_ne_true] at ran
      obtain ⟨chin, isChannel, ran⟩ := bind_eq_ok.1 ran
      obtain ⟨above, isAbove, ran⟩ := bind_eq_ok.1 ran
      obtain ⟨vshift, isShift, ran⟩ := bind_eq_ok.1 ran
      obtain ⟨⟨out, res⟩, columns, ran⟩ := bind_eq_ok.1 ran
      obtain ⟨_, inside, ran⟩ := bind_eq_ok.1 ran
      cases ran
      obtain ⟨rfl, fits⟩ := addU_eq_ok isAbove
      have isNext : vshift = chin.vshift + 1 := by
        unfold addI32 at isShift
        split at isShift
        · cases isShift
          rfl
        · cases isShift
      subst isNext
      obtain ⟨outShape, resShape⟩ := squeezeColumns_shapes columns
      have inside' := require_eq_ok.1 inside
      rw [List.length_set] at inside'
      refine ⟨chin, out, res, index_eq_ok.1 isChannel, fits, inside', rfl, ?_⟩
      rw [outShape, resShape]
      rfl

/-- What `metaSqueeze` asks of a channel that it halves. -/
structure Plannable
    (channel : Channel) :
    Prop where
  shifts : channel.hshift ≤ 30 ∧ channel.vshift ≤ 30
  nonempty : channel.w ≠ 0 ∧ channel.h ≠ 0

/-- A round of `metaSqueeze` halves a channel and inserts a placeholder. -/
theorem metaSqueezeChannel_shapes
    {image after : ModularImage}
    {beginc offset place : Nat}
    (ran : metaSqueezeChannel horizontal beginc offset image place = .ok after) :
    ∃ ch averages placeholder,
      image.channels[beginc + place]? = some ch ∧
        Plannable ch ∧
        after = { image with
          channels :=
            (image.channels.set (beginc + place) averages).insertIdx
              (offset + place) placeholder } ∧
        (averages.shape, placeholder.shape) =
          halfShapes horizontal nextShift ch := by
  obtain ⟨ch, isChannel, ran⟩ := bind_eq_ok.1 ran
  split at ran
  · cases ran
  next small =>
    split at ran
    · cases ran
    next solid =>
      obtain ⟨⟨averages, placeholder⟩, isSplit, ran⟩ := bind_eq_ok.1 ran
      obtain ⟨_, inside, ran⟩ := bind_eq_ok.1 ran
      cases ran
      refine ⟨ch, averages, placeholder, index_eq_ok.1 isChannel,
        ⟨by omega, by omega⟩, rfl, ?_⟩
      unfold metaSqueezeSizes at isSplit
      unfold halfShapes
      cases horizontal with
      | true =>
          rw [if_pos rfl] at isSplit
          obtain ⟨above, isAbove, isSplit⟩ := bind_eq_ok.1 isSplit
          obtain ⟨rfl, _⟩ := addU_eq_ok isAbove
          cases isSplit
          rfl
      | false =>
          rw [if_neg Bool.false_ne_true] at isSplit
          obtain ⟨above, isAbove, isSplit⟩ := bind_eq_ok.1 isSplit
          obtain ⟨rfl, _⟩ := addU_eq_ok isAbove
          cases isSplit
          rfl

/-- A plannable channel is planned. -/
theorem metaSqueezeChannel_ok
    {image : ModularImage}
    {beginc offset place : Nat}
    {ch : Channel}
    (isChannel : image.channels[beginc + place]? = some ch)
    (plannable : Plannable ch)
    (fits : HalvingFits horizontal ch)
    (inside : offset + place ≤ image.channels.length) :
    ∃ after, metaSqueezeChannel horizontal beginc offset image place = .ok after := by
  have shifts := plannable.shifts
  have nonempty := plannable.nonempty
  unfold metaSqueezeChannel
  rw [index_eq_ok.2 isChannel, ok_bind, if_neg (by omega), if_neg (by omega)]
  unfold metaSqueezeSizes HalvingFits at *
  cases horizontal with
  | true =>
      rw [if_pos rfl] at fits
      rw [if_pos rfl, addU_ok fits, ok_bind, pure_eq_ok, ok_bind]
      dsimp only
      rw [require_ok (by rwa [List.length_set]), ok_bind]
      exact ⟨_, rfl⟩
  | false =>
      rw [if_neg Bool.false_ne_true] at fits
      rw [if_neg Bool.false_ne_true, addU_ok fits, ok_bind, pure_eq_ok, ok_bind]
      dsimp only
      rw [require_ok (by rwa [List.length_set]), ok_bind]
      exact ⟨_, rfl⟩

/-! ## Lists in step -/

/--
A squeezed channel and the planned one: equally large and, if the shifts of the
image count upwards from zero, equally shifted.
-/
structure Alike
    (counts : Prop)
    (squeezed planned : Channel) :
    Prop where
  size : squeezed.size = planned.size
  shifts :
    counts →
      (squeezed.hshift = planned.hshift ∧ squeezed.vshift = planned.vshift) ∧
        0 ≤ planned.hshift ∧ 0 ≤ planned.vshift

variable {R : Channel → Channel → Prop} {xs ys : List Channel}

theorem forall₂_set
    {x y : Channel}
    (related : List.Forall₂ R xs ys)
    (item : R x y)
    (place : Nat) :
    List.Forall₂ R (xs.set place x) (ys.set place y) := by
  induction related generalizing place with
  | nil =>
      exact .nil
  | cons head tail inductionHypothesis =>
      cases place with
      | zero => exact .cons item tail
      | succ place => exact .cons head (inductionHypothesis place)

theorem forall₂_insertIdx
    {x y : Channel}
    (related : List.Forall₂ R xs ys)
    (item : R x y)
    (place : Nat) :
    List.Forall₂ R (xs.insertIdx place x) (ys.insertIdx place y) := by
  induction place generalizing xs ys with
  | zero =>
      exact .cons item related
  | succ place inductionHypothesis =>
      cases related with
      | nil => exact .nil
      | cons head tail =>
          rw [List.insertIdx_succ_cons, List.insertIdx_succ_cons]
          exact .cons head (inductionHypothesis tail)

/-- The channel at a place in step with another one. -/
theorem forall₂_getElem?
    {x : Channel}
    {place : Nat}
    (related : List.Forall₂ R xs ys)
    (found : xs[place]? = some x) :
    ∃ y, ys[place]? = some y ∧ R x y := by
  induction related generalizing place with
  | nil =>
      cases found
  | @cons first other _ _ head _ inductionHypothesis =>
      cases place with
      | zero =>
          cases found
          exact ⟨other, rfl, head⟩
      | succ place =>
          exact inductionHypothesis found

/-- Halving keeps channels alike. -/
theorem Alike.halves
    {counts : Prop}
    {chin ch out res averages placeholder : Channel}
    (alike : Alike counts chin ch)
    (squeezed : (out.shape, res.shape) = halfShapes horizontal (· + 1) chin)
    (planned :
      (averages.shape, placeholder.shape) = halfShapes horizontal nextShift ch) :
    Alike counts out averages ∧ Alike counts res placeholder := by
  have size := alike.size
  have width : chin.w = ch.w := congrArg Prod.fst size
  have height : chin.h = ch.h := congrArg Prod.snd size
  unfold halfShapes Channel.shape at squeezed planned
  rw [width, height] at squeezed
  cases horizontal with
  | true =>
      simp only [if_true, Prod.mk.injEq] at squeezed planned
      obtain ⟨⟨outSize, outH, outV⟩, resSize, resH, resV⟩ := squeezed
      obtain ⟨⟨avgSize, avgH, avgV⟩, holdSize, holdH, holdV⟩ := planned
      refine ⟨⟨outSize.trans avgSize.symm, ?_⟩, resSize.trans holdSize.symm, ?_⟩
      · intro counting
        obtain ⟨⟨sameH, sameV⟩, posH, posV⟩ := alike.shifts counting
        rw [nextShift, if_pos posH] at avgH
        omega
      · intro counting
        obtain ⟨⟨sameH, sameV⟩, posH, posV⟩ := alike.shifts counting
        rw [nextShift, if_pos posH] at holdH
        omega
  | false =>
      simp only [Bool.false_eq_true, if_false, Prod.mk.injEq] at squeezed planned
      obtain ⟨⟨outSize, outH, outV⟩, resSize, resH, resV⟩ := squeezed
      obtain ⟨⟨avgSize, avgH, avgV⟩, holdSize, holdH, holdV⟩ := planned
      refine ⟨⟨outSize.trans avgSize.symm, ?_⟩, resSize.trans holdSize.symm, ?_⟩
      · intro counting
        obtain ⟨⟨sameH, sameV⟩, posH, posV⟩ := alike.shifts counting
        rw [nextShift, if_pos posV] at avgV
        omega
      · intro counting
        obtain ⟨⟨sameH, sameV⟩, posH, posV⟩ := alike.shifts counting
        rw [nextShift, if_pos posV] at holdV
        omega

/-- A round changes no channel between its own and its residuals. -/
theorem getElem?_round
    {channels : List Channel}
    {c rc other : Nat}
    (out res : Channel)
    (later : c < other)
    (early : other < rc) :
    ((channels.set c out).insertIdx rc res)[other]? = channels[other]? := by
  rw [List.getElem?_insertIdx_of_lt early, List.getElem?_set_ne (by omega)]

/-- The rounds of a step of `fwdSqueeze`. -/
def fwdRounds
    (param : SqueezeParams)
    (offset count : Nat)
    (image : ModularImage) :
    Checked ModularImage :=
  (List.range count).foldlM
    (fun image place =>
      fwdSqueezeChannel param.horizontal image (param.begin_c + place)
        (offset + place))
    image

/-- The rounds of a step of `metaSqueeze`. -/
def metaRounds
    (param : SqueezeParams)
    (offset count : Nat)
    (image : ModularImage) :
    Checked ModularImage :=
  (List.range count).foldlM
    (metaSqueezeChannel param.horizontal param.begin_c offset) image

/-- The first channels of a step can be planned. -/
def RoundsPlannable
    (param : SqueezeParams)
    (count : Nat)
    (image : ModularImage) :
    Prop :=
  ∀ place,
    place < count →
    ∀ channel,
      image.channels[param.begin_c + place]? = some channel →
      Plannable channel

/-- Rounds leave the later channels of the run, and the meta channels, alone. -/
structure RunsOn
    (beginning offset : Nat)
    (before after : ModularImage) :
    Prop where
  channels :
    ∀ c, beginning ≤ c → c < offset → after.channels[c]? = before.channels[c]?
  nb_meta_channels : after.nb_meta_channels = before.nb_meta_channels

theorem RunsOn.round
    {beginning offset c place : Nat}
    {before image : ModularImage}
    (runsOn : RunsOn (c + place) offset before image)
    (out res : Channel)
    (isBeginning : beginning = c + place + 1) :
    RunsOn beginning offset before { image with
      channels :=
        (image.channels.set (c + place) out).insertIdx (offset + place) res } := by
  subst isBeginning
  refine ⟨?_, runsOn.nb_meta_channels⟩
  intro other later early
  rw [getElem?_round out res (by omega) (by omega)]
  exact runsOn.channels other (by omega) early

/-- The rounds of the two functions keep their lists in step. -/
theorem rounds_alike
    {counts : Prop}
    {param : SqueezeParams}
    {offset count : Nat}
    {image plain squeezed : ModularImage}
    (alike : List.Forall₂ (Alike counts) image.channels plain.channels)
    (within : param.begin_c + count ≤ offset)
    (ran : fwdRounds param offset count image = .ok squeezed) :
    RunsOn (param.begin_c + count) offset image squeezed ∧
      (∀ planned,
        metaRounds param offset count plain = .ok planned →
        RunsOn (param.begin_c + count) offset plain planned ∧
          List.Forall₂ (Alike counts) squeezed.channels planned.channels ∧
          RoundsPlannable param count plain) ∧
      (RoundsPlannable param count plain →
        ∃ planned, metaRounds param offset count plain = .ok planned) := by
  induction count generalizing squeezed with
  | zero =>
      cases ran
      refine ⟨⟨fun _ _ _ => rfl, rfl⟩, ?_, fun _ => ⟨plain, rfl⟩⟩
      intro planned isPlanned
      cases isPlanned
      refine ⟨⟨fun _ _ _ => rfl, rfl⟩, alike, ?_⟩
      intro place early
      cases early
  | succ count inductionHypothesis =>
      unfold fwdRounds at ran
      rw [List.range_succ, List.foldlM_append] at ran
      obtain ⟨before, earlier, last⟩ := bind_eq_ok.1 ran
      rw [List.foldlM_cons] at last
      obtain ⟨after, round, done⟩ := bind_eq_ok.1 last
      cases done
      obtain ⟨runsOn, planned, plannable⟩ :=
        inductionHypothesis (by omega) earlier
      obtain ⟨chin, out, res, isChannel, fits, inside, rfl, shapes⟩ :=
        fwdSqueezeChannel_shapes round
      have here : image.channels[param.begin_c + count]? = some chin := by
        rw [← runsOn.channels _ (le_refl _) (by omega)]
        exact isChannel
      obtain ⟨ch, isPlain, chAlike⟩ := forall₂_getElem? alike here
      refine ⟨runsOn.round out res rfl, ?_, ?_⟩
      · intro result isResult
        unfold metaRounds at isResult
        rw [List.range_succ, List.foldlM_append] at isResult
        obtain ⟨before', earlier', last'⟩ := bind_eq_ok.1 isResult
        rw [List.foldlM_cons] at last'
        obtain ⟨after', round', done'⟩ := bind_eq_ok.1 last'
        cases done'
        obtain ⟨runsOn', alike', all⟩ := planned before' earlier'
        obtain ⟨ch', averages, placeholder, isChannel', guarded, rfl, shapes'⟩ :=
          metaSqueezeChannel_shapes round'
        have same : ch' = ch := by
          rw [runsOn'.channels _ (le_refl _) (by omega), isPlain] at isChannel'
          exact (Option.some.inj isChannel').symm
        subst same
        obtain ⟨outAlike, resAlike⟩ := chAlike.halves shapes shapes'
        refine ⟨runsOn'.round averages placeholder rfl, ?_, ?_⟩
        · exact forall₂_insertIdx (forall₂_set alike' outAlike _) resAlike _
        · intro place early channel isNamed
          rcases Nat.lt_succ_iff_lt_or_eq.1 early with before | rfl
          · exact all place before channel isNamed
          · rw [isPlain] at isNamed
            cases isNamed
            exact guarded
      · intro all
        obtain ⟨before', earlier'⟩ :=
          plannable (fun place early => all place (Nat.lt_succ_of_lt early))
        obtain ⟨runsOn', alike', _⟩ := planned before' earlier'
        have isChannel' : before'.channels[param.begin_c + count]? = some ch := by
          rw [runsOn'.channels _ (le_refl _) (by omega)]
          exact isPlain
        have fits' : HalvingFits param.horizontal ch := by
          have size := chAlike.size
          have width : chin.w = ch.w := congrArg Prod.fst size
          have height : chin.h = ch.h := congrArg Prod.snd size
          unfold HalvingFits at fits ⊢
          rwa [width, height] at fits
        obtain ⟨after', round'⟩ :=
          metaSqueezeChannel_ok isChannel'
            (all count (Nat.lt_succ_self count) ch isPlain) fits'
            (by rwa [← alike'.length_eq])
        refine ⟨after', ?_⟩
        unfold metaRounds
        rw [List.range_succ, List.foldlM_append]
        refine Eq.trans (congrArg (· >>= _) earlier') ?_
        rw [ok_bind, List.foldlM_cons, round', ok_bind]
        rfl

end Modular

end Jxlz
