import Jxlz.Codec.FrameDimensions
import Jxlz.Codec.Passes
import Jxlz.Modular.ModularImage

namespace Jxlz

/-!
# Modular groups

Mirrors `ModularStreamId`, `groupChannelExtent` and
`ModularFrameDecoder.decodeGroup` of `dec_frame.zig`.  What a section's bits
decode to is a parameter; the code around it selects the part of every channel
that a group covers and copies the decoded samples back.
-/

inductive ModularStreamKind where
  | global_data
  | var_dct_dc
  | modular_dc
  | ac_metadata
  | quant_table
  | modular_ac
  deriving Repr, DecidableEq

def kNumQuantTables : Nat := 17

structure ModularStreamId where
  kind : ModularStreamKind := .global_data
  quant_table_id : Nat := 0
  group_id : Nat := 0
  pass_id : Nat := 0
  deriving Repr, DecidableEq

namespace ModularStreamId

def id
    (self : ModularStreamId)
    (frame_dim : FrameDimensions) :
    Checked Nat := do
  match self.kind with
  | .global_data =>
      return 0
  | .var_dct_dc =>
      addU 64 1 self.group_id
  | .modular_dc =>
      addU 64 (← addU 64 1 frame_dim.num_dc_groups) self.group_id
  | .ac_metadata =>
      let twice ← mulU 64 2 frame_dim.num_dc_groups
      addU 64 (← addU 64 1 twice) self.group_id
  | .quant_table =>
      let thrice ← mulU 64 3 frame_dim.num_dc_groups
      addU 64 (← addU 64 1 thrice) self.quant_table_id
  | .modular_ac =>
      let thrice ← mulU 64 3 frame_dim.num_dc_groups
      let tables ← addU 64 (← addU 64 1 thrice) kNumQuantTables
      let earlier ← mulU 64 frame_dim.num_groups self.pass_id
      addU 64 (← addU 64 tables earlier) self.group_id

def modularDC
    (group_id : Nat) :
    ModularStreamId :=
  { kind := .modular_dc, group_id }

def modularAC
    (group_id pass_id : Nat) :
    ModularStreamId :=
  { kind := .modular_ac, group_id, pass_id }

end ModularStreamId

/-- How much of a channel one side of a group covers. -/
def groupChannelExtent
    (full_size group_start group_size : Nat)
    (shift : Int) :
    Nat :=
  if shift ≤ 0 then
    if full_size ≤ group_start then 0
    else min group_size (full_size - group_start)
  else if 64 ≤ shift then
    0
  else
    let shifted_start := group_start >>> shift.toNat
    if full_size ≤ shifted_start then 0
    else min (group_size >>> shift.toNat) (full_size - shifted_start)

/-- Where a group starts in a channel; a shift has at most six bits. -/
def groupChannelStart
    (group_start : Nat)
    (shift : Int) :
    Checked Nat :=
  if 0 ≤ shift then do
    let amount ← castU 6 shift.toNat
    return group_start >>> amount
  else
    .ok group_start

/-- The square of a frame that a group covers. -/
structure GroupArea where
  x0 : Nat
  y0 : Nat
  size : Nat
  deriving Repr, DecidableEq

structure ModularFrameDecoder where
  frame_dim : FrameDimensions
  passes : Passes
  full_image : ModularImage

namespace ModularFrameDecoder

/-- The area of a group; a group beyond the frame has none. -/
def groupArea
    (frame_dim : FrameDimensions)
    (group_id : Nat)
    (is_dc : Bool) :
    Checked (Option GroupArea) := do
  let groups_width :=
    if is_dc then frame_dim.xsize_dc_groups else frame_dim.xsize_groups
  let size ← mulU 64 frame_dim.grp_dim (if is_dc then 8 else 1)
  require (groups_width ≠ 0)
  let x0 ← mulU 64 (group_id % groups_width) size
  let y0 ← mulU 64 (group_id / groups_width) size
  if frame_dim.xsize ≤ x0 ∨ frame_dim.ysize ≤ y0 then
    return none
  else
    return some { x0, y0, size }

/-- The shifts of the channels that a section holds. -/
def sectionRange
    (passes : Passes)
    (pass_id : Nat)
    (is_dc : Bool) :
    Checked Passes.ShiftRange :=
  if is_dc then .ok { min := 3, max := 1000 } else passes.shiftRange pass_id

/-- The first channel that is tiled across sections. -/
def firstLarge
    (self : ModularFrameDecoder) :
    Nat :=
  self.full_image.nb_meta_channels +
    (self.full_image.channels.drop self.full_image.nb_meta_channels).findIdx
      (fun fch =>
        decide (self.frame_dim.grp_dim < fch.w) ||
          decide (self.frame_dim.grp_dim < fch.h))

/-- The part of a channel that a group covers, if the section holds any. -/
def groupChannel
    (area : GroupArea)
    (range : Passes.ShiftRange)
    (fch : Channel) :
    Option Channel :=
  if range.contains fch.hshift fch.vshift then
    let rw := groupChannelExtent fch.w area.x0 area.size fch.hshift
    let rh := groupChannelExtent fch.h area.y0 area.size fch.vshift
    if rw = 0 ∨ rh = 0 then none
    else some (Channel.create rw rh fch.hshift fch.vshift)
  else
    none

/-- `@memcpy` of the rows of a group channel into a full channel. -/
def copyRect
    (fch gch : Channel)
    (rx0 ry0 copy_w copy_h : Nat) :
    Channel :=
  { fch with
    sample := fun row column =>
      if (ry0 ≤ row ∧ row < ry0 + copy_h) ∧
          rx0 ≤ column ∧ column < rx0 + copy_w then
        gch.sample (row - ry0) (column - rx0)
      else
        fch.sample row column }

/-- The loop that copies decoded samples back to the full image. -/
def copyBack
    (area : GroupArea)
    (range : Passes.ShiftRange) :
    List Channel → List Channel → Checked (List Channel)
  | [], _ =>
      .ok []
  | full, [] =>
      .ok full
  | fch :: full, gch :: gi => do
      if range.contains fch.hshift fch.vshift then
        let rx0 ← groupChannelStart area.x0 fch.hshift
        let ry0 ← groupChannelStart area.y0 fch.vshift
        let copy_w := min gch.w (if rx0 < fch.w then fch.w - rx0 else 0)
        let copy_h := min gch.h (if ry0 < fch.h then fch.h - ry0 else 0)
        let written :=
          if copy_w = 0 ∨ copy_h = 0 then fch
          else copyRect fch gch rx0 ry0 copy_w copy_h
        return written :: (← copyBack area range full gi)
      else
        return fch :: (← copyBack area range full (gch :: gi))

/--
`decodeGroup`.  The parameter `decompress` stands for
`modularGenericDecompress` on the section's bits: it gets the stream id and the
empty group image.
-/
def decodeGroup
    (decompress : Nat → ModularImage → Checked ModularImage)
    (self : ModularFrameDecoder)
    (group_id pass_id : Nat)
    (is_dc : Bool) :
    Checked ModularFrameDecoder := do
  let stream :=
    if is_dc then ModularStreamId.modularDC group_id
    else ModularStreamId.modularAC group_id pass_id
  match ← groupArea self.frame_dim group_id is_dc with
  | none =>
      return self
  | some area =>
      let range ← sectionRange self.passes pass_id is_dc
      if area.size = 0 then
        return self
      else
        let beginc := self.firstLarge
        let _ ← subU self.full_image.channels.length beginc
        let tiled := self.full_image.channels.drop beginc
        let created := tiled.filterMap (groupChannel area range)
        if created = [] then
          return self
        else
          let stream_id ← stream.id self.frame_dim
          let gi ←
            decompress stream_id
              { channels := created, bitdepth := self.full_image.bitdepth }
          let copied ← copyBack area range tiled gi.channels
          return { self with
            full_image.channels :=
              self.full_image.channels.take beginc ++ copied }

end ModularFrameDecoder

end Jxlz
