import Jxlz.Modular.ModularImage
import Jxlz.Modular.Squeeze

namespace Jxlz.Modular

/-!
# The channels that a squeeze step works on

A step names a run of channels.  Its residuals go behind the run or to the end
of the list, and the inverse computes the same offset from the longer list.
-/

/-- The channels that a step works on. -/
def SqueezeParams.Names
    (param : SqueezeParams)
    (image : ModularImage)
    (channel : Channel) :
    Prop :=
  ∃ c,
    param.begin_c ≤ c ∧ c < param.begin_c + param.num_c ∧
      image.channels[c]? = some channel

/-- Where the residuals of a step begin. -/
def SqueezeParams.offset
    (param : SqueezeParams)
    (image : ModularImage) :
    Nat :=
  if param.in_place then param.begin_c + param.num_c
  else image.channels.length

/-- The run of a step, and the channels around it and around its residuals. -/
structure RunAt
    (param : SqueezeParams)
    (image : ModularImage)
    (front mids between back : List Channel) :
    Prop where
  channels : image.channels = front ++ mids ++ between ++ back
  frontCount : front.length = param.begin_c
  midsCount : mids.length = param.num_c
  place : param.offset image = (front ++ mids ++ between).length
  appended : param.in_place = false → back = []

/-- Accepted channels are in the list. -/
theorem accepted_bounds
    {param : SqueezeParams}
    {count : Nat}
    (accepted : checkMetaSqueezeParams param count = .ok ()) :
    param.end_c = .ok (param.begin_c + param.num_c - 1) ∧
      0 < param.num_c ∧ param.begin_c + param.num_c ≤ count := by
  unfold checkMetaSqueezeParams at accepted
  obtain ⟨endc, isEnd, accepted⟩ := bind_eq_ok.1 accepted
  have value : endc = param.begin_c + param.num_c - 1 ∧
      1 ≤ param.begin_c + param.num_c := by
    unfold SqueezeParams.end_c at isEnd
    obtain ⟨sum, isSum, isEnd⟩ := bind_eq_ok.1 isEnd
    have sumValue := addU_eq_ok isSum
    have endValue := subU_eq_ok isEnd
    omega
  split at accepted
  next rejected =>
    cases accepted
  next allowed =>
    refine ⟨value.1 ▸ isEnd, ?_, ?_⟩ <;> omega

theorem end_c_ok
    {param : SqueezeParams}
    (nonempty : 0 < param.num_c)
    (fits : param.begin_c + param.num_c < 2 ^ 32) :
    param.end_c = .ok (param.begin_c + param.num_c - 1) := by
  unfold SqueezeParams.end_c
  rw [addU_ok fits, ok_bind, subU_ok (by omega)]

/-- Indices of residuals that fit leave room above the last channel. -/
theorem end_lt_of_indices
    {param : SqueezeParams}
    {image : ModularImage}
    (inside : param.begin_c + param.num_c ≤ image.channels.length)
    (indices : param.offset image + (param.begin_c + param.num_c) ≤ 2 ^ 32) :
    param.begin_c + param.num_c < 2 ^ 32 := by
  unfold SqueezeParams.offset at indices
  split at indices <;> omega

/-- A run inside the list, with the place of its residuals. -/
theorem exists_runAt
    {param : SqueezeParams}
    {image : ModularImage}
    (inside : param.begin_c + param.num_c ≤ image.channels.length) :
    ∃ front mids between back, RunAt param image front mids between back := by
  obtain ⟨front, mids, rest, split, frontCount, midsCount⟩ :
      ∃ front mids rest,
        image.channels = front ++ mids ++ rest ∧
          front.length = param.begin_c ∧ mids.length = param.num_c := by
    refine ⟨image.channels.take param.begin_c,
      (image.channels.drop param.begin_c).take param.num_c,
      (image.channels.drop param.begin_c).drop param.num_c, ?_, ?_, ?_⟩
    · rw [List.append_assoc, List.take_append_drop, List.take_append_drop]
    · rw [List.length_take]
      omega
    · rw [List.length_take, List.length_drop]
      omega
  cases inPlace : param.in_place with
  | true =>
      refine ⟨front, mids, [], rest, ?_, frontCount, midsCount, ?_, ?_⟩
      · rw [split, List.append_nil]
      · rw [SqueezeParams.offset, inPlace, if_pos rfl, List.append_nil,
          List.length_append, frontCount, midsCount]
      · exact fun appends => absurd (inPlace.symm.trans appends) (by decide)
  | false =>
      refine ⟨front, mids, rest, [], ?_, frontCount, midsCount, ?_, ?_⟩
      · rw [split, List.append_nil]
      · rw [SqueezeParams.offset, inPlace, if_neg Bool.false_ne_true, split]
      · exact fun _ => rfl

section

variable {param : SqueezeParams}
variable {image : ModularImage}
variable {front mids between back : List Channel}

/-- The channels of the run are those that the step names. -/
theorem RunAt.names
    (run : RunAt param image front mids between back)
    {channel : Channel}
    (member : channel ∈ mids) :
    param.Names image channel := by
  have frontCount := run.frontCount
  have midsCount := run.midsCount
  obtain ⟨place, isChannel⟩ := List.mem_iff_getElem?.1 member
  have within := (List.getElem?_eq_some_iff.1 isChannel).1
  refine ⟨front.length + place, by omega, by omega, ?_⟩
  rw [run.channels, List.append_assoc, List.append_assoc,
    List.getElem?_append_right (Nat.le_add_right _ _),
    Nat.add_sub_cancel_left, List.getElem?_append_left within, isChannel]

/-- The forward step computes the offset of its residuals. -/
theorem fwdOffset_ok
    (nonempty : 0 < param.num_c)
    (fits : param.begin_c + param.num_c < 2 ^ 32) :
    fwdOffset param.in_place (param.begin_c + param.num_c - 1)
        image.channels.length =
      .ok (param.offset image) := by
  unfold fwdOffset SqueezeParams.offset
  split
  · rw [addU_ok (by omega)]
    congr 1
    omega
  · rfl

/-- The inverse step computes the same offset from the longer list. -/
theorem invOffset_ok
    (run : RunAt param image front mids between back)
    (nonempty : 0 < param.num_c)
    (indices : param.offset image + (param.begin_c + param.num_c) ≤ 2 ^ 32) :
    invOffset param.in_place param.begin_c (param.begin_c + param.num_c - 1)
        (image.channels.length + param.num_c) =
      .ok (param.offset image) := by
  have frontCount := run.frontCount
  have midsCount := run.midsCount
  have count := congrArg List.length run.channels
  simp only [List.length_append] at count
  unfold invOffset SqueezeParams.offset
  unfold SqueezeParams.offset at indices
  cases inPlace : param.in_place with
  | true =>
      rw [inPlace, if_pos rfl] at indices
      rw [if_pos rfl, if_pos rfl, addU_ok (by omega)]
      congr 1
      omega
  | false =>
      rw [inPlace, if_neg Bool.false_ne_true] at indices
      rw [if_neg Bool.false_ne_true, if_neg Bool.false_ne_true,
        addU_ok (by omega), ok_bind, subU_ok (by omega), ok_bind,
        subU_ok (by omega), ok_bind, castU_ok (by omega)]
      congr 1
      omega

/-- A step runs over as many channels as it names. -/
theorem RunAt.count
    (run : RunAt param image front mids between back)
    (nonempty : 0 < param.num_c) :
    param.begin_c + param.num_c - 1 + 1 - param.begin_c = mids.length := by
  have midsCount := run.midsCount
  omega

/-- Taking the residuals out again leaves the channels around them. -/
theorem RunAt.erase
    (run : RunAt param image front mids between back)
    {front' mids' between' residuals back' : List Channel}
    (frontCount : front'.length = front.length)
    (midsCount : mids'.length = mids.length)
    (betweenCount : between'.length = between.length)
    (residualCount : residuals.length = mids.length) :
    (List.range mids.length).foldl
        (fun channels _ => channels.eraseIdx (param.offset image))
        (front' ++ mids' ++ between' ++ residuals ++ back') =
      front' ++ mids' ++ between' ++ back' := by
  have start :
      param.offset image = (front' ++ mids' ++ between').length := by
    rw [run.place]
    simp only [List.length_append]
    omega
  rw [start, ← residualCount, foldl_eraseIdx_append]

end

end Jxlz.Modular
