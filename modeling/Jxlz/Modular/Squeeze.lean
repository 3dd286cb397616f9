import Jxlz.Base.Checked
import Jxlz.Modular.ModularImage
import Jxlz.Modular.Rct

namespace Jxlz.Modular

/-!
# Squeeze

Mirrors the squeeze transform of `transform.zig`.  A step replaces a channel by
the averages of its pairs and adds a channel of residuals.  A residual is the
pair's difference less a tendency that the averages and the sample before the
pair predict.
-/

/-- One step of a squeeze: which channels, which way, where residuals go. -/
structure SqueezeParams where
  horizontal : Bool := false
  in_place : Bool := false
  begin_c : Nat := 0
  num_c : Nat := 2
  deriving Repr, DecidableEq

/-- The difference that a smooth slope would have; `diff & 1` is a remainder. -/
def smoothTendency
    (B a n : Int) :
    Int :=
  if n ≤ a ∧ a ≤ B then
    let diff := (4 * B - 3 * n - a + 6).tdiv 12
    let diff := if 2 * (B - a) < diff - diff % 2 then 2 * (B - a) + 1 else diff
    if 2 * (a - n) < diff + diff % 2 then 2 * (a - n) else diff
  else if B ≤ a ∧ a ≤ n then
    let diff := (4 * B - 3 * n - a - 6).tdiv 12
    let diff := if diff + diff % 2 < 2 * (B - a) then 2 * (B - a) - 1 else diff
    if diff - diff % 2 < 2 * (a - n) then 2 * (a - n) else diff
  else
    0

/-- The mean of two samples, rounded towards the first one. -/
def averagePixel
    (a b : Int32) :
    Checked Int32 :=
  let sum := a.toInt + b.toInt + if b < a then 1 else 0
  toI32 (sum >>> (1 : Nat))

/-- The average after a pair, or the last sample of an odd line. -/
def nextAverage
    (line : Nat → Int32)
    (size count i : Nat)
    (avg : Int32) :
    Checked Int32 :=
  if i + 1 < count then averagePixel (line (i * 2 + 2)) (line (i * 2 + 3))
  else if size &&& 1 ≠ 0 then .ok (line (i * 2 + 2))
  else .ok avg

/-- Average and residual of a pair of a row or column. -/
def squeezePixel
    (line : Nat → Int32)
    (size count i : Nat) :
    Checked (Int32 × Int32) := do
  let A := line (i * 2)
  let B := line (i * 2 + 1)
  let avg ← averagePixel A B
  let diff := pixelSub A B
  let next_avg ← nextAverage line size count i avg
  let left := if 0 < i then line (i * 2 - 1) else avg
  let tendency := smoothTendency left.toInt avg.toInt next_avg.toInt
  let residual ← toI32 (diff.toInt - tendency)
  return (avg, residual)

/-- The pair that an average and a residual stand for. -/
def unsqueezePixel
    (averages residuals out : Nat → Int32)
    (count i : Nat) :
    Checked (Int32 × Int32) := do
  let avg := averages i
  let next_avg := if i + 1 < count then averages (i + 1) else avg
  let left := if 0 < i then out (i * 2 - 1) else avg
  let tendency := smoothTendency left.toInt avg.toInt next_avg.toInt
  let diff := (residuals i).toInt + tendency
  let A ← toI32 (avg.toInt + diff.tdiv 2)
  let B ← toI32 (A.toInt - diff)
  return (A, B)

/-- A column of a channel. -/
def column
    (channel : Channel)
    (x : Nat) :
    Nat → Int32 :=
  fun y => channel.sample y x

/-- Store a pair of a line, the body of both loops over pixels. -/
def squeezeAt
    (line : Nat → Int32)
    (size count i y x : Nat)
    (state : Channel × Channel) :
    Checked (Channel × Channel) := do
  let (avg, residual) ← squeezePixel line size count i
  return (state.1.set y x avg, state.2.set y x residual)

/-- One row: its pairs, and its last sample if the width is odd. -/
def squeezeRow
    (chin chout chout_residual : Channel)
    (state : Channel × Channel)
    (y : Nat) :
    Checked (Channel × Channel) := do
  let (out, res) ←
    (List.range chout_residual.w).foldlM
      (fun state x =>
        squeezeAt (chin.row y) chin.w chout_residual.w x y x state)
      state
  if chin.w &&& 1 ≠ 0 then
    let x := chout.w - 1
    return (out.set y x (chin.row y (x * 2)), res)
  else
    return (out, res)

def squeezeRows
    (chin chout chout_residual : Channel) :
    Checked (Channel × Channel) :=
  (List.range chout.h).foldlM (squeezeRow chin chout chout_residual)
    (chout, chout_residual)

def fwdHSqueeze
    (image : ModularImage)
    (c rc : Nat) :
    Checked ModularImage := do
  let chin ← index image.channels c
  let above ← addU 64 chin.w 1
  let hshift ← addI32 chin.hshift 1
  let chout := Channel.create (above / 2) chin.h hshift chin.vshift
  let chout_residual :=
    Channel.create (chin.w - chout.w) chout.h hshift chin.vshift
  let (out, res) ← squeezeRows chin chout chout_residual
  let channels := image.channels.set c out
  require (rc ≤ channels.length)
  return { image with channels := channels.insertIdx rc res }

/-- The pairs of the columns, and the last row of an odd height. -/
def squeezeColumns
    (chin chout chout_residual : Channel) :
    Checked (Channel × Channel) := do
  let (out, res) ←
    (List.range chout_residual.h).foldlM
      (fun state y =>
        (List.range chout.w).foldlM
          (fun state x =>
            squeezeAt (column chin x) chin.h chout_residual.h y y x state)
          state)
      (chout, chout_residual)
  if chin.h &&& 1 ≠ 0 then
    let y := chout.h - 1
    return (out.setRow y (chin.row (y * 2)), res)
  else
    return (out, res)

def fwdVSqueeze
    (image : ModularImage)
    (c rc : Nat) :
    Checked ModularImage := do
  let chin ← index image.channels c
  let above ← addU 64 chin.h 1
  let vshift ← addI32 chin.vshift 1
  let chout := Channel.create chin.w (above / 2) chin.hshift vshift
  let chout_residual :=
    Channel.create chin.w (chin.h - chout.h) chin.hshift vshift
  let (out, res) ← squeezeColumns chin chout chout_residual
  let channels := image.channels.set c out
  require (rc ≤ channels.length)
  return { image with channels := channels.insertIdx rc res }

/-- The last channel of a step; the sum is taken in 32 bits. -/
def SqueezeParams.end_c
    (self : SqueezeParams) :
    Checked Nat := do
  let sum ← addU 32 self.begin_c self.num_c
  subU sum 1

def checkMetaSqueezeParams
    (param : SqueezeParams)
    (num_channels : Nat) :
    Checked Unit := do
  let c1 := param.begin_c
  let c2 ← param.end_c
  if num_channels ≤ c1 ∨ num_channels ≤ c2 ∨ c2 < c1 then
    fail .GenericError
  else
    return ()

/-- Where `fwdSqueeze` puts the residuals. -/
def fwdOffset
    (in_place : Bool)
    (endc num_channels : Nat) :
    Checked Nat :=
  if in_place then addU 32 endc 1 else .ok num_channels

/-- One step of `fwdSqueeze`. -/
def fwdSqueezeStep
    (image : ModularImage)
    (param : SqueezeParams) :
    Checked ModularImage := do
  checkMetaSqueezeParams param image.channels.length
  let beginc := param.begin_c
  let endc ← param.end_c
  let offset ← fwdOffset param.in_place endc image.channels.length
  let image ←
    (List.range (endc + 1 - beginc)).foldlM
      (fun image place =>
        if param.horizontal then
          fwdHSqueeze image (beginc + place) (offset + place)
        else
          fwdVSqueeze image (beginc + place) (offset + place))
      image
  -- The counter of the loop, a `u32`, ends one above the last channel.
  let _ ← addU 32 endc 1
  return image

def fwdSqueeze
    (image : ModularImage)
    (parameters : List SqueezeParams) :
    Checked ModularImage :=
  parameters.foldlM fwdSqueezeStep image

/-- One row from its averages and residuals. -/
def unsqueezeRow
    (chin chin_residual : Channel)
    (chout : Channel)
    (y : Nat) :
    Checked Channel := do
  let chout ←
    (List.range chin_residual.w).foldlM
      (fun (chout : Channel) x => do
        let (A, B) ←
          unsqueezePixel (chin.row y) (chin_residual.row y) (chout.row y)
            chin.w x
        return (chout.set y (x * 2) A).set y (x * 2 + 1) B)
      chout
  if chout.w &&& 1 ≠ 0 then
    return chout.set y (chout.w - 1) (chin.row y (chin.w - 1))
  else
    return chout

def unsqueezeRows
    (chin chin_residual chout : Channel) :
    Checked Channel :=
  (List.range chin.h).foldlM (unsqueezeRow chin chin_residual) chout

def invHSqueeze
    (image : ModularImage)
    (c rc : Nat) :
    Checked ModularImage := do
  let chin ← index image.channels c
  let chin_residual ← index image.channels rc
  let hshift ← addI32 chin.hshift (-1)
  if chin_residual.w = 0 then
    return { image with channels := image.channels.set c { chin with hshift } }
  else
    let out_w ← addU 64 chin.w chin_residual.w
    let chout := Channel.create out_w chin.h hshift chin.vshift
    if chin_residual.h = 0 then
      return { image with channels := image.channels.set c chout }
    else
      let chout ← unsqueezeRows chin chin_residual chout
      return { image with channels := image.channels.set c chout }

/-- One row of pairs from averages and residuals. -/
def unsqueezePairRow
    (chin chin_residual : Channel)
    (chout : Channel)
    (y : Nat) :
    Checked Channel :=
  (List.range chin.w).foldlM
    (fun (chout : Channel) x => do
      let (A, B) ←
        unsqueezePixel (column chin x) (column chin_residual x)
          (column chout x) chin.h y
      return (chout.set (y * 2) x A).set (y * 2 + 1) x B)
    chout

/-- The rows of pairs, and the last row of an odd height. -/
def unsqueezeColumns
    (chin chin_residual chout : Channel) :
    Checked Channel := do
  let chout ←
    (List.range chin_residual.h).foldlM (unsqueezePairRow chin chin_residual)
      chout
  if chout.h &&& 1 ≠ 0 then
    let y := chin.h - 1
    return chout.setRow (y * 2) (chin.row y)
  else
    return chout

def invVSqueeze
    (image : ModularImage)
    (c rc : Nat) :
    Checked ModularImage := do
  let chin ← index image.channels c
  let chin_residual ← index image.channels rc
  let vshift ← addI32 chin.vshift (-1)
  if chin_residual.h = 0 then
    return { image with channels := image.channels.set c { chin with vshift } }
  else
    let out_h ← addU 64 chin.h chin_residual.h
    let chout := Channel.create chin.w out_h chin.hshift vshift
    if chin_residual.w = 0 then
      return { image with channels := image.channels.set c chout }
    else
      let chout ← unsqueezeColumns chin chin_residual chout
      return { image with channels := image.channels.set c chout }

/-- One round of the loop over the channels of a step. -/
def invSqueezeChannel
    (horizontal : Bool)
    (beginc offset : Nat)
    (image : ModularImage)
    (place : Nat) :
    Checked ModularImage := do
  let sum ← addU 32 offset (beginc + place)
  let rc ← subU sum beginc
  if image.channels.length ≤ rc then
    fail .GenericError
  else if horizontal then
    invHSqueeze image (beginc + place) rc
  else
    invVSqueeze image (beginc + place) rc

/-- Where `invSqueeze` finds the residuals. -/
def invOffset
    (in_place : Bool)
    (beginc endc num_channels : Nat) :
    Checked Nat :=
  if in_place then
    addU 32 endc 1
  else do
    let sum ← addU 64 num_channels beginc
    let afterEnd ← subU sum endc
    let first ← subU afterEnd 1
    castU 32 first

/-- One step of `invSqueeze`; the residual channels are removed at the end. -/
def invSqueezeStep
    (image : ModularImage)
    (param : SqueezeParams) :
    Checked ModularImage := do
  let beginc := param.begin_c
  let endc ← param.end_c
  let offset ← invOffset param.in_place beginc endc image.channels.length
  let nb_meta_channels :=
    if beginc < image.nb_meta_channels ∧
        param.num_c ≤ image.nb_meta_channels then
      image.nb_meta_channels - param.num_c
    else
      image.nb_meta_channels
  let image ←
    (List.range (endc + 1 - beginc)).foldlM
      (invSqueezeChannel param.horizontal beginc offset)
      { image with nb_meta_channels }
  let _ ← addU 32 endc 1
  let between ← subU endc beginc
  let remove_count ← addU 32 between 1
  return { image with
    channels :=
      (List.range remove_count).foldl
        (fun channels _ => channels.eraseIdx offset) image.channels }

/-- `invSqueeze`: the steps in reverse order. -/
def invSqueeze
    (image : ModularImage)
    (parameters : List SqueezeParams) :
    Checked ModularImage :=
  parameters.reverse.foldlM invSqueezeStep image

end Jxlz.Modular
