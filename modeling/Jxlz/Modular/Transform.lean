import Jxlz.Modular.ContextPredict
import Jxlz.Modular.Rct
import Jxlz.Modular.Squeeze

namespace Jxlz.Modular

/-!
# Transforms

Mirrors `metaApply` and `undoTransforms` of `transform.zig`.  Applying the
transforms of a header changes the list of channels before it is decoded;
undoing them turns the decoded channels back into those of the image.
-/

inductive TransformId where
  | rct
  | palette
  | squeeze
  | invalid
  deriving Repr, DecidableEq

structure Transform where
  id : TransformId := .invalid
  begin_c : Nat := 0
  rct_type : Nat := 6
  num_c : Nat := 3
  nb_colors : Nat := 256
  nb_deltas : Nat := 0
  predictor : Predictor := .zero
  squeezes : List SqueezeParams := []
  deriving Repr, DecidableEq

def kMaxFirstPreviewSize : Nat := 8

/-- One round of the loop over a preview: a step in each direction still due. -/
def previewStep
    (sp : SqueezeParams)
    (horizontal : Bool)
    (size : Nat) :
    Checked (List SqueezeParams × Nat) :=
  if kMaxFirstPreviewSize < size then do
    let above ← addU 64 size 1
    return ([{ sp with horizontal }], above / 2)
  else
    return ([], size)

/-- The loop that squeezes until the preview is small. -/
def previewSteps
    (sp : SqueezeParams) :
    Nat → Nat → Nat → Checked (List SqueezeParams)
  | 0, w, h =>
      if kMaxFirstPreviewSize < w ∨ kMaxFirstPreviewSize < h then
        .error .running
      else
        .ok []
  | fuel + 1, w, h =>
      if kMaxFirstPreviewSize < w ∨ kMaxFirstPreviewSize < h then do
        let (across, w) ← previewStep sp true w
        let (down, h) ← previewStep sp false h
        let rest ← previewSteps sp fuel w h
        return across ++ down ++ rest
      else
        .ok []

/-- The first steps: the chroma channels, if they are as large as the first. -/
def chromaSteps
    (image : ModularImage)
    (nb_channels w h : Nat) :
    Checked (List SqueezeParams) :=
  if nb_channels > 2 then do
    let second ← index image.channels (image.nb_meta_channels + 1)
    if second.w = w ∧ second.h = h then
      let begin_c ← castU 32 (image.nb_meta_channels + 1)
      return [{ horizontal := true, in_place := false, begin_c, num_c := 2 },
        { horizontal := false, in_place := false, begin_c, num_c := 2 }]
    else
      return []
  else
    return []

/-- The step down of an image that is not wide. -/
def tallStep
    (sp : SqueezeParams)
    (wide : Bool)
    (h : Nat) :
    Checked (List SqueezeParams × Nat) :=
  if wide then return ([], h) else previewStep sp false h

def defaultSqueezeParameters
    (image : ModularImage) :
    Checked (List SqueezeParams) := do
  let nb_channels ← subU image.channels.length image.nb_meta_channels
  let first ← index image.channels image.nb_meta_channels
  let chroma ← chromaSteps image nb_channels first.w first.h
  let begin_c ← castU 32 image.nb_meta_channels
  let num_c ← castU 32 nb_channels
  let sp : SqueezeParams :=
    { begin_c, num_c, in_place := true, horizontal := false }
  let (tall, h) ← tallStep sp (decide (first.h < first.w)) first.h
  let rest ← previewSteps sp (first.w + first.h) first.w h
  return chroma ++ tall ++ rest

end Jxlz.Modular

namespace Jxlz.Channel

/-- `shrink` to a smaller size: the samples move up in the buffer. -/
def shrink
    (self : Channel)
    (w h : Nat) :
    Channel :=
  { self with
    w
    h
    sample := fun y x =>
      self.sample ((y * w + x) / self.w) ((y * w + x) % self.w) }

end Jxlz.Channel

namespace Jxlz.Modular

/-- A shift grows by a squeeze, unless it marks a palette. -/
def nextShift
    (shift : Int) :
    Int :=
  if 0 ≤ shift then shift + 1 else shift

/-- The channel of averages and the one of residuals, by direction. -/
def metaSqueezeSizes
    (horizontal : Bool)
    (ch : Channel) :
    Checked (Channel × Channel) :=
  if horizontal then do
    let above ← addU 64 ch.w 1
    let averages :=
      { ch.shrink (above / 2) ch.h with hshift := nextShift ch.hshift }
    return (averages,
      Channel.create (ch.w - above / 2) ch.h averages.hshift averages.vshift)
  else do
    let above ← addU 64 ch.h 1
    let averages :=
      { ch.shrink ch.w (above / 2) with vshift := nextShift ch.vshift }
    return (averages,
      Channel.create ch.w (ch.h - above / 2) averages.hshift averages.vshift)

/-- One round of the loop over the channels of a step. -/
def metaSqueezeChannel
    (horizontal : Bool)
    (beginc offset : Nat)
    (image : ModularImage)
    (place : Nat) :
    Checked ModularImage := do
  let ch ← index image.channels (beginc + place)
  if 30 < ch.hshift ∨ 30 < ch.vshift then
    fail .GenericError
  else if ch.w = 0 ∨ ch.h = 0 then
    fail .GenericError
  else
    let (averages, placeholder) ← metaSqueezeSizes horizontal ch
    let channels := image.channels.set (beginc + place) averages
    require (offset + place ≤ channels.length)
    return { image with
      channels := channels.insertIdx (offset + place) placeholder }

/-- The meta channels that a step adds. -/
def metaSqueezeCount
    (image : ModularImage)
    (param : SqueezeParams)
    (endc : Nat) :
    Checked Nat :=
  if param.begin_c < image.nb_meta_channels then
    if image.nb_meta_channels ≤ endc then
      fail .GenericError
    else if ¬ param.in_place then
      fail .GenericError
    else
      addU 64 image.nb_meta_channels param.num_c
  else
    return image.nb_meta_channels

/-- One step of `metaSqueeze`. -/
def metaSqueezeStep
    (image : ModularImage)
    (param : SqueezeParams) :
    Checked ModularImage := do
  checkMetaSqueezeParams param image.channels.length
  let endc ← param.end_c
  let nb_meta_channels ← metaSqueezeCount image param endc
  let offset ← fwdOffset param.in_place endc image.channels.length
  let image ←
    (List.range (endc + 1 - param.begin_c)).foldlM
      (metaSqueezeChannel param.horizontal param.begin_c offset)
      { image with nb_meta_channels }
  -- The counter of the loop, a `u32`, ends one above the last channel.
  let _ ← addU 32 endc 1
  return image

/-- The steps of a transform, or the default ones where it has none. -/
def squeezeParameters
    (image : ModularImage)
    (squeezes : List SqueezeParams) :
    Checked (List SqueezeParams) :=
  if squeezes = [] then defaultSqueezeParameters image else .ok squeezes

def metaSqueeze
    (image : ModularImage)
    (squeezes : List SqueezeParams) :
    Checked (ModularImage × List SqueezeParams) := do
  let squeezes ← squeezeParameters image squeezes
  let image ← squeezes.foldlM metaSqueezeStep image
  return (image, squeezes)

def checkEqualChannels
    (image : ModularImage)
    (begin_c end_c : Nat) :
    Checked Unit :=
  if image.channels.length ≤ end_c then
    fail .GenericError
  else do
    let first ← index image.channels begin_c
    if ((image.channels.drop (begin_c + 1)).take (end_c - begin_c)).all
        (fun channel => channel.w = first.w ∧ channel.h = first.h) then
      return ()
    else
      fail .GenericError

/-- The meta channels once `nb` channels have become a palette and its index. -/
def metaPaletteCount
    (nb_meta_channels begin_c nb : Nat) :
    Checked Nat :=
  if nb_meta_channels ≤ begin_c then
    addU 64 nb_meta_channels 1
  else if nb_meta_channels < nb then
    fail .GenericError
  else do
    let more ← subU 2 nb
    addU 64 nb_meta_channels more

def metaPalette
    (image : ModularImage)
    (begin_c end_c nb_colors nb_deltas : Nat) :
    Checked ModularImage := do
  checkEqualChannels image begin_c end_c
  let between ← subU end_c begin_c
  let nb ← addU 32 between 1
  let nb_meta_channels ←
    metaPaletteCount image.nb_meta_channels begin_c nb
  let channels :=
    (List.range (nb - 1)).foldl
      (fun channels _ => channels.eraseIdx (begin_c + 1)) image.channels
  let width ← addU 32 nb_colors nb_deltas
  let pch := Channel.create width nb (-1) (-1)
  return { image with nb_meta_channels, channels := pch :: channels }

end Jxlz.Modular
