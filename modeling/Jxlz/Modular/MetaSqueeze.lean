import Jxlz.Modular.SqueezeRoundTrip
import Jxlz.Modular.TransformShape

namespace Jxlz.Modular

open Except

/-!
# The structure that a squeeze changes

A step of `metaSqueeze` halves the channels of a run and adds a placeholder for
the other half of each.  `invSqueeze` finds the placeholders again and adds the
halves up, as long as the sums of samples fit.
-/

/-- The sizes of the two halves of a channel. -/
structure Halves
    (horizontal : Bool)
    (before : Channel)
    (pair : Channel × Channel) :
    Prop where
  first :
    pair.1.size =
      if horizontal then ((before.w + 1) / 2, before.h)
      else (before.w, (before.h + 1) / 2)
  second :
    pair.2.size =
      if horizontal then (before.w / 2, before.h)
      else (before.w, before.h / 2)
  width : before.w < 2 ^ 64
  height : before.h < 2 ^ 64

/-- The run of a step before it, and the halves after it. -/
structure MetaSqueezed
    (param : SqueezeParams)
    (before after : ModularImage)
    (front mids between back : List Channel)
    (pairs : List (Channel × Channel)) :
    Prop extends RunAt param before front mids between back where
  nonempty : 0 < param.num_c
  indices : param.offset before + (param.begin_c + param.num_c) ≤ 2 ^ 32
  halves : List.Forall₂ (Halves param.horizontal) mids pairs
  split : after.channels = splitList front between back pairs
  nb_meta_channels :
    if param.begin_c < before.nb_meta_channels then
      after.nb_meta_channels = before.nb_meta_channels + param.num_c
    else
      after.nb_meta_channels = before.nb_meta_channels

variable {horizontal : Bool} {before : Channel}

/-- Where the residuals of a step begin in the longer list. -/
def SqueezeParams.residuals
    (param : SqueezeParams)
    (image : ModularImage) :
    Nat :=
  if param.in_place then param.begin_c + param.num_c
  else image.channels.length - param.num_c

/-- The channels of an image of a structure that a step made. -/
structure DecodedStep
    (param : SqueezeParams)
    (image : ModularImage)
    (front between back front' between' back' : List Channel)
    (mids : List Channel)
    (others : List (Channel × Channel)) :
    Prop where
  channels : image.channels = splitList front' between' back' others
  sameFront : front'.map Channel.size = front.map Channel.size
  sameBetween : between'.map Channel.size = between.map Channel.size
  sameBack : back'.map Channel.size = back.map Channel.size
  halves : List.Forall₂ (Halves param.horizontal) mids others

section

variable {param : SqueezeParams}
variable {before after image : ModularImage}
variable {front mids between back front' between' back' : List Channel}
variable {pairs others : List (Channel × Channel)}

/-- The list has grown by the residuals of the step. -/
theorem DecodedStep.length
    (step : MetaSqueezed param before after front mids between back pairs)
    (decoded :
      DecodedStep param image front between back front' between' back' mids
        others) :
    image.channels.length = before.channels.length + param.num_c := by
  have midsCount := step.midsCount
  have othersCount := List.Forall₂.length_eq decoded.halves
  have frontCount := congrArg List.length decoded.sameFront
  have betweenCount := congrArg List.length decoded.sameBetween
  have backCount := congrArg List.length decoded.sameBack
  rw [decoded.channels, step.channels, splitList]
  simp only [List.length_append, List.length_map] at *
  omega

/-- The residuals are where the step put them. -/
theorem DecodedStep.place
    (step : MetaSqueezed param before after front mids between back pairs)
    (decoded :
      DecodedStep param image front between back front' between' back' mids
        others) :
    param.offset before =
      (front' ++ others.map Prod.fst ++ between').length := by
  have othersCount := List.Forall₂.length_eq decoded.halves
  have frontCount := congrArg List.length decoded.sameFront
  have betweenCount := congrArg List.length decoded.sameBetween
  rw [step.place]
  simp only [List.length_append, List.length_map] at *
  omega

end

end Jxlz.Modular
