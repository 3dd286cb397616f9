import Jxlz.Base.Checked
import Jxlz.Lib.BigEndian

namespace Jxlz.Container

open BigEndian

/-!
# The container of a codestream

Mirrors the writer and the parser of `container.zig`.  The Brotli decoder and
the parser of JPEG reconstruction data are parameters: the container only asks
whether they accept a payload.  Offsets stay within the input, so their sums
are plain.
-/

/-- The four characters of a box type. -/
structure BoxType where
  c0 : UInt8
  c1 : UInt8
  c2 : UInt8
  c3 : UInt8
  deriving Repr, DecidableEq

namespace BoxType

def of
    (c0 c1 c2 c3 : Char) :
    BoxType :=
  ⟨c0.toUInt8, c1.toUInt8, c2.toUInt8, c3.toUInt8⟩

def bytes
    (self : BoxType) :
    List UInt8 :=
  [self.c0, self.c1, self.c2, self.c3]

def ftyp : BoxType := of 'f' 't' 'y' 'p'
def jxlc : BoxType := of 'j' 'x' 'l' 'c'
def jxlp : BoxType := of 'j' 'x' 'l' 'p'
def brob : BoxType := of 'b' 'r' 'o' 'b'
def jbrd : BoxType := of 'j' 'b' 'r' 'd'

/-- The type of the signature box. -/
def JXL : BoxType := of 'J' 'X' 'L' ' '

end BoxType

def signature_box : List UInt8 :=
  [0x00, 0x00, 0x00, 0x0C, 0x4A, 0x58, 0x4C, 0x20, 0x0D, 0x0A, 0x87, 0x0A]

/-- The brand `jxl ` of a file. -/
def brand : List UInt8 :=
  [0x6A, 0x78, 0x6C, 0x20]

def ftyp_payload : List UInt8 :=
  brand ++ [0, 0, 0, 0] ++ brand

structure Box where
  box_type : BoxType
  contents : List UInt8
  deriving Repr, DecidableEq

/-- A box of a parsed file, with what a `jbrd` box describes. -/
structure OwnedBox (Data : Type) where
  box_type : BoxType
  raw_size : Nat
  contents : List UInt8
  reconstruction : Option Data := none
  deriving Repr, DecidableEq

structure ParsedContainer (Data : Type) where
  codestream : List UInt8
  boxes : List (OwnedBox Data)
  deriving Repr, DecidableEq

structure ParsedBoxHeader where
  box_type : BoxType
  raw_size : Nat
  payload : List UInt8
  next_offset : Nat
  deriving Repr, DecidableEq

/-- `items[start..stop]`. -/
def slice
    (items : List UInt8)
    (start stop : Nat) :
    Checked (List UInt8) :=
  if start ≤ stop ∧ stop ≤ items.length then
    .ok ((items.drop start).take (stop - start))
  else
    .error .trap

/-- `readInt` of a slice, most significant byte first. -/
def readInt
    (items : List UInt8)
    (start stop : Nat) :
    Checked Nat := do
  let bytes ← slice items start stop
  return valueOf bytes

/-- The four bytes at an offset. -/
def readType
    (items : List UInt8)
    (offset : Nat) :
    Checked BoxType := do
  let c0 ← index items offset
  let c1 ← index items (offset + 1)
  let c2 ← index items (offset + 2)
  let c3 ← index items (offset + 3)
  return ⟨c0, c1, c2, c3⟩

/-- The size of a box and the offset of its payload, by the form of the size. -/
def readSize
    (container_bytes : List UInt8)
    (offset remaining size32 : Nat) :
    Checked (Nat × Nat) :=
  if size32 = 0 then
    .ok (container_bytes.length - offset, offset + 8)
  else if size32 = 1 then
    if remaining < 16 then
      fail .GenericError
    else do
      let raw_size ← readInt container_bytes (offset + 8) (offset + 16)
      if raw_size < 16 then
        fail .GenericError
      else
        return (raw_size, offset + 16)
  else if size32 < 8 then
    fail .GenericError
  else
    .ok (size32, offset + 8)

def parseBoxHeader
    (container_bytes : List UInt8)
    (offset : Nat) :
    Checked ParsedBoxHeader :=
  if container_bytes.length < offset then
    fail .GenericError
  else if container_bytes.length - offset < 8 then
    fail .GenericError
  else do
    let remaining := container_bytes.length - offset
    let size32 ← readInt container_bytes offset (offset + 4)
    let box_type ← readType container_bytes (offset + 4)
    let (raw_size, payload_offset) ←
      readSize container_bytes offset remaining size32
    if remaining < raw_size then
      fail .GenericError
    else if offset + raw_size < payload_offset then
      fail .GenericError
    else
      let payload ← slice container_bytes payload_offset (offset + raw_size)
      return { box_type, raw_size, payload, next_offset := offset + raw_size }

/-- `appendBox` and `appendBoxRuntime`. -/
def appendBox
    (list : List UInt8)
    (box_type : BoxType)
    (payload : List UInt8) :
    Checked (List UInt8) :=
  let size := 8 + payload.length
  if 2 ^ 32 - 1 < size then
    fail .Unsupported
  else
    .ok (list ++ bytesOf 4 size ++ box_type.bytes ++ payload)

def wrapCodestreamWithBoxes
    (codestream : List UInt8)
    (boxes : List Box) :
    Checked (List UInt8) := do
  let list ← appendBox signature_box .ftyp ftyp_payload
  let list ←
    boxes.foldlM (fun list box => appendBox list box.box_type box.contents) list
  appendBox list .jxlc codestream

/-- The variables of the loop of `parseContainer`. -/
structure ContainerState (Data : Type) where
  offset : Nat
  fragments : List UInt8
  owned_boxes : List (OwnedBox Data)
  codestream : Option (List UInt8)
  saw_jxlp : Bool
  saw_last_jxlp : Bool
  next_jxlp_index : Nat

section

variable {Data : Type}
variable (decompress : List UInt8 → Checked (List UInt8))
variable (parse : List UInt8 → Checked Data)

def validateBrobPayload
    (payload : List UInt8) :
    Checked Unit :=
  if payload.length < 4 then
    fail .GenericError
  else do
    let _ ← decompress (payload.drop 4)
    return ()

/-- The box after the signature, and no other one, is `ftyp`. -/
def checkFtyp
    (offset : Nat)
    (header : ParsedBoxHeader) :
    Checked Unit :=
  if (offset = signature_box.length) ≠ (header.box_type = .ftyp) then
    fail .GenericError
  else if header.box_type = .ftyp then
    if header.payload.length < ftyp_payload.length ∨
        header.payload.take 4 ≠ brand then
      fail .GenericError
    else do
      let version ← readInt header.payload 4 8
      if 1 < version then
        fail .Unsupported
      else
        return ()
  else
    return ()

namespace ContainerState

variable (state : ContainerState Data)

/-- `appendOwnedBox`. -/
def append
    (header : ParsedBoxHeader)
    (reconstruction : Option Data) :
    ContainerState Data :=
  { state with
    owned_boxes := state.owned_boxes ++
      [{ box_type := header.box_type
         raw_size := header.raw_size
         contents := header.payload
         reconstruction }] }

/-- A whole codestream. -/
def parseJxlc
    (header : ParsedBoxHeader) :
    Checked (ContainerState Data) :=
  if state.saw_jxlp then
    fail .GenericError
  else if state.codestream ≠ none then
    fail .GenericError
  else
    .ok { state.append header none with codestream := some header.payload }

/-- A fragment of a codestream, after its index and final flag. -/
def parseJxlp
    (header : ParsedBoxHeader) :
    Checked (ContainerState Data) :=
  if state.codestream ≠ none then
    fail .GenericError
  else if state.saw_last_jxlp then
    fail .GenericError
  else if header.payload.length < 4 then
    fail .GenericError
  else do
    let index ← readInt header.payload 0 4
    let is_last := decide (index &&& 0x80000000 ≠ 0)
    let index := index &&& 0x7FFFFFFF
    if index ≠ state.next_jxlp_index then
      fail .GenericError
    else
      let next_jxlp_index ← addU 32 state.next_jxlp_index 1
      return { state.append header none with
        next_jxlp_index
        saw_jxlp := true
        saw_last_jxlp := state.saw_last_jxlp || is_last
        fragments := state.fragments ++ header.payload.drop 4 }

/-- Any other box. -/
def parseOther
    (header : ParsedBoxHeader) :
    Checked (ContainerState Data) :=
  if header.box_type = .brob then do
    validateBrobPayload decompress header.payload
    return state.append header none
  else if header.box_type = .jbrd then do
    let data ← parse header.payload
    return state.append header (some data)
  else
    .ok (state.append header none)

/-- What a box adds, by its type. -/
def parseContents
    (header : ParsedBoxHeader) :
    Checked (ContainerState Data) :=
  if header.box_type = .jxlc then state.parseJxlc header
  else if header.box_type = .jxlp then state.parseJxlp header
  else state.parseOther decompress parse header

/-- One round of the loop over the boxes. -/
def parseBox
    (header : ParsedBoxHeader) :
    Checked (ContainerState Data) := do
  checkFtyp state.offset header
  let next ← state.parseContents decompress parse header
  return { next with offset := header.next_offset }

end ContainerState

/-- The loop over the boxes; fewer than eight bytes end it. -/
def parseBoxes
    (container_bytes : List UInt8) :
    Nat → ContainerState Data → Checked (ContainerState Data)
  | 0, state =>
      if state.offset + 8 ≤ container_bytes.length then .error .running
      else .ok state
  | fuel + 1, state =>
      if state.offset + 8 ≤ container_bytes.length then do
        let header ← parseBoxHeader container_bytes state.offset
        let next ← state.parseBox decompress parse header
        parseBoxes container_bytes fuel next
      else
        .ok state

/-- The loop starts behind the signature box. -/
def ContainerState.start : ContainerState Data :=
  { offset := signature_box.length
    fragments := []
    owned_boxes :=
      [{ box_type := .JXL
         raw_size := signature_box.length
         contents := (signature_box.drop 8).take 4 }]
    codestream := none
    saw_jxlp := false
    saw_last_jxlp := false
    next_jxlp_index := 0 }

/-- The codestream of a file, once all its boxes are read. -/
def ContainerState.finish
    (state : ContainerState Data) :
    Checked (ParsedContainer Data) :=
  match state.codestream with
  | some codestream => .ok { codestream, boxes := state.owned_boxes }
  | none =>
      if state.saw_jxlp && state.saw_last_jxlp then
        .ok { codestream := state.fragments, boxes := state.owned_boxes }
      else
        fail .GenericError

def parseContainer
    (container_bytes : List UInt8) :
    Checked (ParsedContainer Data) :=
  if container_bytes.length < signature_box.length then
    fail .GenericError
  else if container_bytes.take signature_box.length ≠ signature_box then
    fail .GenericError
  else do
    let state ←
      parseBoxes decompress parse container_bytes container_bytes.length .start
    state.finish

def extractCodestreamAndBoxes
    (container_bytes : List UInt8) :
    Checked (ParsedContainer Data) :=
  match parseContainer decompress parse container_bytes with
  | .error (.error .GenericError) => fail .InvalidContainer
  | result => result

end

end Jxlz.Container
