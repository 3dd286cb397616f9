import Jxlz.Base.PackSigned
import Jxlz.Codec.CoeffOrder
import Jxlz.Codec.References
import Jxlz.Lib.Drawing

namespace Jxlz.Patches

/-!
# Patch dictionaries

Mirrors `patches.zig`: rectangles of reference frames, the places where they go, and how
they are blended there, and the application of all of them to a frame.
-/

structure Patch where
  ref : Fin 4
  sx : Nat
  sy : Nat
  width : Nat
  height : Nat
  x : Nat
  y : Nat
  deriving Repr, DecidableEq

/-- `add`: `std.math.add`, with its overflow turned into an error. -/
def add
    (a b : Nat) :
    Checked Nat :=
  if a + b < 2 ^ 64 then return a + b else fail .GenericError

def fits
    (start size limit : Nat) :
    Bool :=
  start ≤ limit ∧ size ≤ limit - start

/-- A coordinate that is coded as the difference from the last one. -/
def offset
    (base encoded : Nat) :
    Checked Nat := do
  if 2 ^ 32 ≤ encoded then
    fail .GenericError
  else
    let delta := (unpackSigned (UInt32.ofNat (← castU 32 encoded))).toInt
    if 0 ≤ delta then
      add base delta.toNat
    else if delta.natAbs ≤ base then
      return base - delta.natAbs
    else
      fail .GenericError

/-- The size of an image is possible, and it has so many samples. -/
def validImage
    (width height channels count : Nat) :
    Checked Unit := do
  if width = 0 ∨ height = 0 ∨ channels < 3 ∨ 259 < channels then
    fail .GenericError
  else
    let area ← mulSize width height
    let total ← mulSize area channels
    if count ≠ total then fail .GenericError else return ()

structure ReferenceShape where
  width : Nat
  height : Nat
  channels : Nat
  deriving Repr, DecidableEq

/-- The size of the one image in a slot. -/
def referenceShape
    (ref : Reference) :
    Checked ReferenceShape := do
  match ref.float_image, ref.image with
  | some image, none =>
      validImage image.xsize image.ysize image.channels image.data.length
      return { width := image.xsize, height := image.ysize, channels := image.channels }
  | none, some image =>
      validImage image.width image.height image.channels image.data.length
      return { width := image.width, height := image.height, channels := image.channels }
  | some _, some _ => fail .GenericError
  | none, none => fail .GenericError

structure Dictionary where
  positions : List Patch := []
  blendings : List Blending.Info := []
  refs : Nat := 0
  uses_extra : Bool := false
  extra_count : Nat
  width : Nat
  height : Nat
  deriving Repr, DecidableEq

/-! The dictionary in the stream. -/

/-- How much a dictionary may hold: groups of patches, patches and blendings. -/
structure Limits where
  refs : Nat
  patches : Nat
  blends : Nat

def limits
    (width height : Nat) :
    Checked Limits := do
  let area ← mulSize width height
  let refs ← add 1024 (area / 4)
  let patches ← mulSize refs 4
  let blends ← mulSize patches 4
  return { refs := refs, patches := patches, blends := blends }

/-- A source of symbols, one for each context that is asked for. -/
abbrev Symbols (σ : Type) := Nat → StateT σ Checked Nat

/-- `@enumFromInt` of a blending mode. -/
def modeOf
    (number : Nat) :
    Checked Blending.Mode :=
  index
    [.none, .replace, .add, .mul, .blend_above, .blend_below, .alpha_add_above,
      .alpha_add_below]
    number

section

variable {σ : Type}

/-- A symbol that the stream has under a condition only; without it, it is zero. -/
def optionalSymbol
    (next : Symbols σ)
    (asks : Bool)
    (context : Nat) :
    StateT σ Checked Nat :=
  if asks then next context else pure 0

/-- The blending of one channel; there is memory for so many of them. -/
def readBlending
    (next : Symbols σ)
    (extras capacity : Nat)
    (self : Dictionary)
    (channel : Nat) :
    StateT σ Checked Dictionary := do
  let number ← next 5
  if 8 ≤ number then
    (fail .GenericError : Checked Dictionary)
  else
    let chooses : Bool := 4 ≤ number ∧ 1 < extras
    let alpha ← optionalSymbol next chooses 8
    if chooses ∧ extras ≤ alpha then
      (fail .GenericError : Checked Dictionary)
    else
      let clamp ← optionalSymbol next (3 ≤ number) 9
      let mode ← modeOf number
      (require (self.blendings.length < capacity) : Checked Unit)
      let info := { mode := mode, alpha_channel := alpha, clamp := clamp != 0 }
      return {
        self with
        uses_extra :=
          self.uses_extra || 4 ≤ number || (decide (0 < channel) && number != 0)
        blendings := self.blendings ++ [info] }

/-- A coordinate of a patch: the first one as it is, the others as differences. -/
def readCoordinate
    (next : Symbols σ)
    (last number : Nat) :
    StateT σ Checked Nat := do
  if number = 0 then
    next 4
  else
    let encoded ← next 6
    offset last encoded

/-- One more place of a rectangle, and the coordinates it is at. -/
def readCopy
    (next : Symbols σ)
    (extras total : Nat)
    (patch : Patch)
    (state : Dictionary × Nat × Nat)
    (number : Nat) :
    StateT σ Checked (Dictionary × Nat × Nat) := do
  let (self, lastX, lastY) := state
  let x ← readCoordinate next lastX number
  let y ← readCoordinate next lastY number
  if !fits x patch.width self.width || !fits y patch.height self.height then
    (fail .GenericError : Checked (Dictionary × Nat × Nat))
  else
    let self ←
      (List.range (extras + 1)).foldlM
        (readBlending next extras (total * (extras + 1))) self
    (require (self.positions.length < total) : Checked Unit)
    let placed := { patch with x := x, y := y }
    return ({ self with positions := self.positions ++ [placed] }, x, y)

/-- A slot that patches may come from, and the size of its image. -/
def sourceShape
    (references : Vector Reference 4)
    (extras ref : Nat) :
    Checked (Fin 4 × ReferenceShape) := do
  if isSlot : ref < 4 then
    let slot : Fin 4 := ⟨ref, isSlot⟩
    if !(references.get slot).pre_color then
      fail .GenericError
    else
      let image ← referenceShape (references.get slot)
      if image.channels ≠ extras + 3 then fail .GenericError else return (slot, image)
  else
    fail .GenericError

/-- The rectangle of a group, without a place. -/
def readRectangle
    (next : Symbols σ)
    (image : ReferenceShape)
    (ref : Fin 4) :
    StateT σ Checked Patch := do
  let sx ← next 3
  let sy ← next 3
  let width ← add (← next 2) 1
  let height ← add (← next 2) 1
  if !fits sx width image.width || !fits sy height image.height then
    (fail .GenericError : Checked Patch)
  else
    return {
      ref := ref, sx := sx, sy := sy, width := width, height := height, x := 0, y := 0 }

/-- One rectangle and all the places it goes to. -/
def readGroup
    (next : Symbols σ)
    (references : Vector Reference 4)
    (limits : Limits)
    (self : Dictionary)
    (_ : Nat) :
    StateT σ Checked Dictionary := do
  let extras := self.extra_count
  let ref ← next 1
  let (ref, image) ← sourceShape references extras ref
  let patch ← readRectangle next image ref
  let copies ← add (← next 7) 1
  let total ← add self.positions.length copies
  if limits.patches < total then
    (fail .GenericError : Checked Dictionary)
  else
    let blends ← mulSize total (extras + 1)
    if limits.blends < blends then
      (fail .GenericError : Checked Dictionary)
    else
      let (self, _, _) ←
        (List.range copies).foldlM (readCopy next extras total patch) (self, 0, 0)
      return { self with refs := self.refs ||| 1 <<< ref.val }

/-- All groups of a dictionary that is empty at first. -/
def readGroups
    (next : Symbols σ)
    (references : Vector Reference 4)
    (limits : Limits)
    (self : Dictionary) :
    StateT σ Checked Dictionary := do
  let count ← next 0
  if limits.refs < count then
    (fail .GenericError : Checked Dictionary)
  else
    (List.range count).foldlM (readGroup next references limits) self

end

/-- The symbols of an entropy-coded stream. -/
def streamSymbols
    (contexts : List Nat) :
    Symbols (ANSSymbolReader × BitReader) :=
  fun context => do
    let (reader, br) ← get
    let (value, reader, br) ← reader.readHybridUint context br contexts
    set (reader, br)
    return value

/--
Decode a dictionary.  The code of an error may be exchanged by `decode` around this;
what it accepts is the same.
-/
def decodeInner
    (width height extras : Nat)
    (references : Vector Reference 4)
    (br : BitReader) :
    Checked (Dictionary × BitReader) := do
  if 256 < extras ∨ width = 0 ∨ height = 0 then
    fail .GenericError
  else
    let limits ← limits width height
    let (contexts, code, br) ← decodeHistograms 10 br
    let start ← ANSSymbolReader.create code br 0
    let (result, reader, br) ←
      (readGroups (streamSymbols contexts) references limits
        { extra_count := extras, width := width, height := height }).run start
    let (within, br) := br.allReadsWithinBounds
    if within = false then
      fail .NotEnoughBytes
    else if !reader.checkANSFinalState then
      fail .GenericError
    else
      return (result, br)

/-! The application of a dictionary. -/

/-- `ImageOf`: planes of samples. -/
structure ImageOf (α : Type) where
  width : Nat
  height : Nat
  channels : Nat
  data : List α
  deriving Repr, DecidableEq

/-- The kind of samples that a dictionary is applied to. -/
structure Samples (α : Type) where
  numbers : Blending.Numbers α
  ofFixed : Fixed → Checked α
  ofFloat : UInt32 → Checked α

section

variable {α : Type}

def referencePixel
    (samples : Samples α)
    (ref : Reference)
    (position : Nat) :
    Checked α := do
  match ref.float_image, ref.image with
  | some image, _ => samples.ofFloat (← index image.data position)
  | none, some image => samples.ofFixed (← index image.data position)
  | none, none => .error .trap

/-- The samples of a patch at a position inside it. -/
def patchPixel
    (samples : Samples α)
    (reference : Reference)
    (image : ReferenceShape)
    (p : Patch)
    (channels y x : Nat) :
    Checked (List α) :=
  (List.range channels).mapM fun c =>
    referencePixel samples reference
      (planarIndex image.height image.width c (p.sy + y) (p.sx + x))

/-- One pixel of the output, with a patch blended over it. -/
def applyPixel
    (samples : Samples α)
    (reference : Reference)
    (image : ReferenceShape)
    (color : Blending.Info)
    (info : List Blending.Extra)
    (p : Patch)
    (channels height width : Nat)
    (data : List α)
    (y x : Nat) :
    Checked (List α) := do
  let bg ←
    (List.range channels).mapM fun c =>
      index data (planarIndex height width c (p.y + y) (p.x + x))
  let fg ← patchPixel samples reference image p channels y x
  let value ← Blending.pixel samples.numbers bg fg color info
  putPixel
    (fun data c y x sample => store data (planarIndex height width c y x) sample)
    data (p.y + y) (p.x + x) value

end

end Jxlz.Patches
