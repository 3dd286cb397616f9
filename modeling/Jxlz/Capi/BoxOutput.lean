import Jxlz.Capi.JpegOutput
import Jxlz.Codec.Container
import Jxlz.Lib.FuelLoop

namespace Jxlz.Capi

open Container Delivery

/-!
# Box contents through the caller's buffers

Mirrors `JxlDecoderSetBoxBuffer`, `JxlDecoderReleaseBoxBuffer` and the box part of
`JxlDecoderProcessInput` in `capi_root.zig`, for the boxes of a container that was
parsed.  The Brotli decoder is a parameter.
-/

/-- The events of the boxes, as bits of the subscribed ones. -/
def JXL_DEC_BOX : Nat := 0x4000

def JXL_DEC_BOX_COMPLETE : Nat := 0x10000

namespace BoxOutput

/-- What box output reads of a box; `none` is not decompressed yet. -/
structure OwnedBox where
  box_type : BoxType
  contents : List UInt8
  decompressed_contents : Option (List UInt8) := none
  deriving Repr, DecidableEq

def OwnedBox.effectiveContents
    (self : OwnedBox)
    (decompressed : Bool) :
    List UInt8 :=
  if decompressed then self.decompressed_contents.getD self.contents else self.contents

/-- Expands the payload of a `brob` box when it is needed for the first time. -/
def OwnedBox.ensureDecompressed
    (decompress : List UInt8 → Except JxlError (List UInt8))
    (self : OwnedBox) :
    Except JxlError OwnedBox :=
  if self.box_type ≠ .brob then
    return self
  else if self.decompressed_contents.isSome then
    return self
  else if self.contents.length < 4 then
    .error .GenericError
  else do
    let contents ← decompress (self.contents.drop 4)
    return { self with decompressed_contents := some contents }

end BoxOutput

open BoxOutput

/--
What the box output reads and writes of the decoder.  `received` is not part of it:
these are the bytes that the client reads of the buffers which are set no more, each
with the box that it was filled for.
-/
structure BoxOutput where
  owned_boxes : List OwnedBox
  subscribed_events : Nat
  decompress_boxes : Bool := false
  box_index : Nat := 0
  box_header_emitted : Bool := false
  box_bytes_emitted : Nat := 0
  box_complete_emitted : Bool := false
  box_buffer : Option (List UInt8) := none
  box_buffer_size : Nat := 0
  box_buffer_written : Nat := 0
  received : List (Nat × List UInt8) := []

/-- What a call finds outside the boxes. -/
structure Outside where
  /-- What `ensureParsed` reports; success, once the input is parsed. -/
  parsed : JxlDecoderStatus := .success
  /-- `decoderStatusFromError` -/
  statusFromError : JxlError → JxlDecoderStatus := fun _ => .error
  /-- What the call reports behind the last box. -/
  behind : JxlDecoderStatus := .success

namespace BoxOutput

def subscribes
    (impl : BoxOutput)
    (event : Nat) :
    Bool :=
  impl.subscribed_events &&& event != 0

def setBoxBuffer
    (impl : BoxOutput)
    (buffer : CallerBuffer) :
    JxlDecoderStatus × BoxOutput :=
  if impl.box_buffer ≠ none then
    (.error, impl)
  else if buffer.size ≠ 0 ∧ buffer.data = none then
    (.error, impl)
  else
    (.success,
      { impl with
        box_buffer := buffer.data
        box_buffer_size := buffer.size
        box_buffer_written := 0 })

/-- Returns how many bytes are left; the client reads the others. -/
def releaseBoxBuffer
    (impl : BoxOutput) :
    Checked (Nat × BoxOutput) :=
  match impl.box_buffer with
  | none => return (0, impl)
  | some memory => do
      let remaining ← subU impl.box_buffer_size impl.box_buffer_written
      return (remaining,
        { impl with
          box_buffer := none
          box_buffer_size := 0
          box_buffer_written := 0
          received := impl.received ++
            [(impl.box_index, memory.take (impl.box_buffer_size - remaining))] })

def currentBox
    (impl : BoxOutput) :
    Option OwnedBox :=
  impl.owned_boxes[impl.box_index]?

def ensureCurrentBoxPrepared
    (decompress : List UInt8 → Except JxlError (List UInt8))
    (impl : BoxOutput) :
    Except JxlError BoxOutput :=
  if ¬ impl.decompress_boxes then
    return impl
  else
    match impl.currentBox with
    | none => return impl
    | some box => do
        let box ← box.ensureDecompressed decompress
        return { impl with owned_boxes := impl.owned_boxes.set impl.box_index box }

/--
A buffer that is still set is let go.  From then on `JxlDecoderReleaseBoxBuffer`
returns that nothing of it is left, so the client reads all of it.
-/
def advanceCurrentBox
    (impl : BoxOutput) :
    BoxOutput :=
  { impl with
    box_index := impl.box_index + 1
    box_header_emitted := false
    box_bytes_emitted := 0
    box_complete_emitted := false
    box_buffer := none
    box_buffer_size := 0
    box_buffer_written := 0
    received := impl.received ++
      impl.box_buffer.toList.map fun memory => (impl.box_index, memory) }

/-- Copies what fits to the front of the buffer. -/
def copyContents
    (contents memory : List UInt8)
    (impl : BoxOutput) :
    Checked BoxOutput := do
  let remaining ← subU contents.length impl.box_bytes_emitted
  let to_copy := min remaining impl.box_buffer_size
  require (to_copy ≤ memory.length)
  let bytes ← slice contents impl.box_bytes_emitted (impl.box_bytes_emitted + to_copy)
  return {
    impl with
    box_buffer := some (overwrite memory 0 bytes)
    box_bytes_emitted := impl.box_bytes_emitted + to_copy
    box_buffer_written := to_copy }

/-- Behind the contents of a box. -/
def finishBox
    (impl : BoxOutput) :
    BoxOutput ⊕ (JxlDecoderStatus × BoxOutput) :=
  if
    impl.box_buffer ≠ none ∧ impl.subscribes JXL_DEC_BOX_COMPLETE ∧
      ¬ impl.box_complete_emitted
  then
    .inr (.boxComplete, { impl with box_complete_emitted := true })
  else
    .inl impl.advanceCurrentBox

/-- The contents of a box whose header was reported. -/
def emitBox
    (contents : List UInt8)
    (impl : BoxOutput) :
    Checked (BoxOutput ⊕ (JxlDecoderStatus × BoxOutput)) :=
  if impl.box_bytes_emitted < contents.length then
    match impl.box_buffer with
    | none => return .inl impl.advanceCurrentBox
    | some memory => do
        let impl ← copyContents contents memory impl
        if impl.box_bytes_emitted < contents.length then
          return .inr (.boxNeedMoreOutput, impl)
        else
          return impl.finishBox
  else
    return impl.finishBox

/-- One round of the loop, which goes on behind a box and ends with an event. -/
def boxRound
    (decompress : List UInt8 → Except JxlError (List UInt8))
    (outside : Outside)
    (impl : BoxOutput) :
    Checked (BoxOutput ⊕ (JxlDecoderStatus × BoxOutput)) :=
  if outside.parsed ≠ .success then
    return .inr (outside.parsed, impl)
  else if ¬ impl.subscribes JXL_DEC_BOX then
    return .inr (outside.behind, impl)
  else
    match impl.currentBox with
    | none => return .inr (outside.behind, impl)
    | some _ =>
        match ensureCurrentBoxPrepared decompress impl with
        | .error code => return .inr (outside.statusFromError code, impl)
        | .ok impl =>
            if ¬ impl.box_header_emitted then
              return .inr (.box, { impl with box_header_emitted := true })
            else
              match impl.currentBox with
              | none => .error .trap
              | some box =>
                  emitBox (box.effectiveContents impl.decompress_boxes) impl

def processInput
    (decompress : List UInt8 → Except JxlError (List UInt8))
    (outside : Outside)
    (impl : BoxOutput) :
    Checked (JxlDecoderStatus × BoxOutput) :=
  FuelLoop.run (boxRound decompress outside) .running (impl.owned_boxes.length + 2) impl

/-- The calls of a client that concern the box output. -/
inductive Call where
  | setBoxBuffer (buffer : CallerBuffer)
  | releaseBoxBuffer
  | processInput (outside : Outside)

/-- The decoder, and the last event that it reported. -/
structure Run where
  impl : BoxOutput
  event : Option JxlDecoderStatus := none

def step
    (decompress : List UInt8 → Except JxlError (List UInt8))
    (run : Run) :
    Call →
    Checked Run
  | .setBoxBuffer buffer =>
      .ok { run with impl := (run.impl.setBoxBuffer buffer).2 }
  | .releaseBoxBuffer => do
      let (_, impl) ← run.impl.releaseBoxBuffer
      return { run with impl }
  | .processInput outside => do
      let (status, impl) ← processInput decompress outside run.impl
      return { impl, event := some status }

/-- The decoder behind the parser of the container. -/
def start
    (boxes : List Box)
    (subscribed_events : Nat)
    (decompress_boxes : Bool) :
    Run :=
  { impl :=
      { owned_boxes := boxes.map fun box =>
          { box_type := box.box_type, contents := box.contents }
        subscribed_events, decompress_boxes } }

end BoxOutput

end Jxlz.Capi
