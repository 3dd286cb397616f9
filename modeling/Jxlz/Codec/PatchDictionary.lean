import Jxlz.Codec.Patches

namespace Jxlz.Patches

open Drawing
open Except (Meets meets_ok)

/-!
# What a dictionary holds

Every number of a dictionary comes from the stream.  Whatever is drawn there, the
dictionary that is accepted stays inside its limits, its rectangles inside the slots
and the frame, and reading it fails only on purpose or where drawing a symbol does.
-/

/-- A rectangle of a slot that patches may come from. -/
structure Patch.InSource
    (references : Vector Reference 4)
    (extras : Nat)
    (p : Patch) :
    Prop where
  pre_color : (references.get p.ref).pre_color = true
  inside :
    ∃ image,
      referenceShape (references.get p.ref) = .ok image ∧
        image.channels = extras + 3 ∧
        p.sx + p.width ≤ image.width ∧ p.sy + p.height ≤ image.height

/-- A patch whose rectangle is not empty and lies in its slot and in the frame. -/
structure Patch.Inside
    (references : Vector Reference 4)
    (extras width height : Nat)
    (p : Patch) :
    Prop where
  source : p.InSource references extras
  wide : 0 < p.width
  high : 0 < p.height
  right : p.x + p.width ≤ width
  bottom : p.y + p.height ≤ height

/-- The alpha channel is one of the extra channels; without any it is number zero. -/
def AlphaInside
    (extras : Nat)
    (info : Blending.Info) :
    Prop :=
  info.alpha_channel < extras ∨ (extras = 0 ∧ info.alpha_channel = 0)

/-- The same rectangle, at another place. -/
def Patch.CopyOf
    (patch p : Patch) :
    Prop :=
  p = { patch with x := p.x, y := p.y }

/-- A dictionary that holds patches from so many groups. -/
structure Dictionary.Holds
    (references : Vector Reference 4)
    (extras width height : Nat)
    (limits : Limits)
    (groups : Nat)
    (dictionary : Dictionary) :
    Prop where
  extraCount : dictionary.extra_count = extras
  isWidth : dictionary.width = width
  isHeight : dictionary.height = height
  blendings : dictionary.blendings.length = dictionary.positions.length * (extras + 1)
  fewPatches : dictionary.positions.length ≤ limits.patches
  fewBlendings : dictionary.blendings.length ≤ limits.blends
  inside : ∀ p ∈ dictionary.positions, p.Inside references extras width height
  alpha : ∀ info ∈ dictionary.blendings, AlphaInside extras info
  grouped :
    ∃ parts : List (List Patch),
      parts.length = groups ∧
        dictionary.positions = parts.flatten ∧
        ∀ part ∈ parts, ∃ patch : Patch, part ≠ [] ∧ ∀ p ∈ part, patch.CopyOf p

/-- A dictionary to which patches and blendings were added. -/
structure Dictionary.Extends
    (before : Dictionary)
    (added : List Patch)
    (infos : List Blending.Info)
    (after : Dictionary) :
    Prop where
  positions : after.positions = before.positions ++ added
  blendings : after.blendings = before.blendings ++ infos
  extra_count : after.extra_count = before.extra_count
  width : after.width = before.width
  height : after.height = before.height

theorem Dictionary.Extends.trans
    {before middle after : Dictionary}
    {added added' : List Patch}
    {infos infos' : List Blending.Info}
    (first : before.Extends added infos middle)
    (second : middle.Extends added' infos' after) :
    before.Extends (added ++ added') (infos ++ infos') after where
  positions := by rw [second.positions, first.positions, List.append_assoc]
  blendings := by rw [second.blendings, first.blendings, List.append_assoc]
  extra_count := second.extra_count.trans first.extra_count
  width := second.width.trans first.width
  height := second.height.trans first.height

section

variable {allowed : Fault → Prop}

variable {σ : Type} {next : Symbols σ} {good : σ → Prop}
  {references : Vector Reference 4} {extras width height : Nat} {limits : Limits}

/-- Every context that is used can be drawn for. -/
def Answers
    (allowed : Fault → Prop)
    (good : σ → Prop)
    (next : Symbols σ) :
    Prop :=
  ∀ context, context < 10 → Draws allowed good (next context) fun _ => True

/-- What the copies of one rectangle have added to the dictionary. -/
structure Copied
    (patch : Patch)
    (extras : Nat)
    (before : Dictionary)
    (count : Nat)
    (added : List Patch)
    (infos : List Blending.Info)
    (after : Dictionary) :
    Prop where
  extended : before.Extends added infos after
  patches : added.length = count
  blendings : infos.length = count * (extras + 1)
  alpha : ∀ info ∈ infos, AlphaInside extras info
  copies : ∀ p ∈ added, patch.CopyOf p
  right : ∀ p ∈ added, p.x + patch.width ≤ before.width
  bottom : ∀ p ∈ added, p.y + patch.height ≤ before.height

end

/-- How much a dictionary of a frame may hold. -/
def capacity
    (width height : Nat) :
    Limits where
  refs := 1024 + width * height / 4
  patches := 4 * (1024 + width * height / 4)
  blends := 16 * (1024 + width * height / 4)

end Jxlz.Patches
