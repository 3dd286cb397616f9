import Jxlz.Codec.Container
import Jxlz.Icc.PredictICC

namespace Jxlz.Icc

open BigEndian
open Container (slice)

/-!
# Putting a profile together

Mirrors `unpredictICC` of `icc_codec.zig`: the header, the tag list and the body
from the two streams of the intermediate form.
-/

def kOutputLimit : Nat := 1 <<< 28

/-- How the loop over the header ends. -/
inductive HeaderEnd where
  | whole (result : List UInt8)
  | more (result : List UInt8) (pos : Nat)
  deriving Repr, DecidableEq

/-- The loop over the header, while `left` of its bytes are left. -/
def unpredictHeader
    (enc : List UInt8)
    (osize cpos commands_end : Nat) :
    Nat → Nat → List UInt8 → List UInt8 → Checked HeaderEnd
  | left, pos, header, result =>
      if result.length = osize then
        if cpos ≠ commands_end then
          fail .NotAllCommandsUsed
        else if pos ≠ enc.length then
          fail .NotAllDataUsed
        else
          .ok (.whole result)
      else
        match left with
        | 0 => .ok (.more result pos)
        | left + 1 => do
            let i := kICCHeaderSize - (left + 1)
            let header := predictHeader result header i
            if enc.length ≤ pos then
              fail .OutOfBounds
            else
              let byte ← index enc pos
              let value ← index header i
              unpredictHeader enc osize cpos commands_end left (pos + 1) header
                (result ++ [byte + value])

/-- The variables of the loop over the commands of the tag list. -/
structure TagState where
  cpos : Nat
  pos : Nat
  prevtagstart : Nat
  prevtagsize : Nat
  result : List UInt8
  deriving Repr, DecidableEq

/-- The keyword that a command stands for, and the data behind it. -/
def commandTag
    (enc : List UInt8)
    (code : UInt8)
    (pos : Nat) :
    Checked (Tag × Nat) :=
  if code = kCommandTagUnknown then do
    checkOutOfBounds pos 4 enc.length
    return (decodeKeyword enc pos, pos + 4)
  else if code = kCommandTagTRC then
    .ok (kRtrcTag, pos)
  else if code = kCommandTagXYZ then
    .ok (kRxyzTag, pos)
  else do
    let place ← subU code.toNat kCommandTagStringFirst.toNat
    if kTagStrings.length ≤ place then
      fail .UnknownTagCode
    else
      let tag ← index kTagStrings place
      return (tag, pos)

/-- A number that a flag of a command announces. -/
def announcedVarInt
    (enc : List UInt8)
    (cpos commands_end : Nat) :
    Checked (Nat × Nat) :=
  if commands_end ≤ cpos then fail .OutOfBounds else .ok (decodeVarInt enc cpos)

/-- The place of a tag, announced or right behind the tag before. -/
def commandTagStart
    (enc : List UInt8)
    (command : UInt8)
    (commands_end cpos : Nat)
    (self : TagState) :
    Checked (Nat × Nat) :=
  if command &&& kFlagBitOffset ≠ 0 then
    announcedVarInt enc cpos commands_end
  else do
    checkIs32Bit self.prevtagstart
    let tagstart ← addU 64 self.prevtagstart self.prevtagsize
    return (tagstart, cpos)

/-- The size of a tag, announced or the expected one. -/
def commandTagSize
    (enc : List UInt8)
    (command : UInt8)
    (commands_end cpos : Nat)
    (tag : Tag)
    (self : TagState) :
    Checked (Nat × Nat) :=
  if command &&& kFlagBitSize ≠ 0 then
    announcedVarInt enc cpos commands_end
  else
    .ok (if isPredictedTagSize20 tag then 20 else self.prevtagsize, cpos)

/-- An entry of the tag list. -/
def entry
    (tag : Tag)
    (tagstart tagsize : Nat) :
    List UInt8 :=
  appendUint32 (appendUint32 (appendKeyword [] tag) tagstart) tagsize

/-- The entries behind the first one that a grouped command stands for. -/
def groupEntries
    (code : UInt8)
    (tagstart tagsize : Nat) :
    Checked (List UInt8) :=
  if code = kCommandTagTRC then
    .ok (entry kGtrcTag tagstart tagsize ++ entry kBtrcTag tagstart tagsize)
  else if code = kCommandTagXYZ then do
    checkIs32Bit (tagstart + tagsize * 2)
    return entry kGxyzTag (tagstart + tagsize) tagsize ++
      entry kBxyzTag (tagstart + tagsize * 2) tagsize
  else
    .ok []

/-- The entries of one command. -/
def unpredictTag
    (enc : List UInt8)
    (commands_end : Nat)
    (command : UInt8)
    (self : TagState) :
    Checked TagState := do
  let code := command &&& 63
  let (tag, pos) ← commandTag enc code self.pos
  let (tagstart, cpos) ←
    commandTagStart enc command commands_end (self.cpos + 1) self
  checkIs32Bit tagstart
  let (tagsize, cpos) ← commandTagSize enc command commands_end cpos tag self
  checkIs32Bit tagsize
  let entries ← groupEntries code tagstart tagsize
  return {
    cpos
    pos
    prevtagstart := tagstart
    prevtagsize := tagsize
    result := self.result ++ entry tag tagstart tagsize ++ entries }

/-- A round of the loop over the commands of the tag list. -/
def unpredictTagRound
    (enc : List UInt8)
    (osize commands_end : Nat)
    (self : TagState) :
    Checked (TagState ⊕ TagState) :=
  if osize < self.result.length then
    fail .InvalidResultSize
  else if commands_end < self.cpos then
    fail .OutOfBounds
  else if self.cpos = commands_end then
    .ok (.inr self)
  else do
    let command ← index enc self.cpos
    if command &&& 63 = 0 then
      return .inr { self with cpos := self.cpos + 1 }
    else
      let next ← unpredictTag enc commands_end command self
      return .inl next

/-- The tag list, behind the number of its entries. -/
def unpredictTagList
    (enc : List UInt8)
    (osize commands_end cpos pos : Nat)
    (result : List UInt8) :
    Checked TagState :=
  let (numtags, cpos) := decodeVarInt enc cpos
  if numtags ≠ 0 then do
    checkIs32Bit (numtags - 1)
    -- Every round takes at least one byte of the commands.
    FuelLoop.run (unpredictTagRound enc osize commands_end) .running
      (commands_end + 1)
      { cpos
        pos
        prevtagstart := kICCHeaderSize + (numtags - 1) * 12
        prevtagsize := 0
        result := appendUint32 result (numtags - 1) }
  else
    .ok { cpos, pos, prevtagstart := 0, prevtagsize := 0, result }

/-- The variables of the loop over the commands of the body. -/
structure BodyState where
  cpos : Nat
  pos : Nat
  result : List UInt8
  deriving Repr, DecidableEq

namespace BodyState

/-- A number of the commands, and that many bytes of the data. -/
def takeData
    (enc : List UInt8)
    (commands_end : Nat)
    (self : BodyState) :
    Checked (List UInt8 × BodyState) := do
  let (num, cpos) ← announcedVarInt enc self.cpos commands_end
  checkOutOfBounds self.pos num enc.length
  let bytes ← slice enc self.pos (self.pos + num)
  return (bytes, { self with cpos, pos := self.pos + num })

def append
    (bytes : List UInt8)
    (self : BodyState) :
    BodyState :=
  { self with result := self.result ++ bytes }

def insert
    (enc : List UInt8)
    (commands_end : Nat)
    (self : BodyState) :
    Checked BodyState := do
  let (bytes, next) ← self.takeData enc commands_end
  return next.append bytes

def shuffled
    (enc : List UInt8)
    (commands_end width : Nat)
    (self : BodyState) :
    Checked BodyState := do
  let (bytes, next) ← self.takeData enc commands_end
  return next.append (shuffle bytes width)

/-- The stride of a predicted block, if its flags announce one. -/
def predictStride
    (enc : List UInt8)
    (commands_end : Nat)
    (flags : UInt8)
    (width : Nat)
    (self : BodyState) :
    Checked (Nat × BodyState) :=
  if flags &&& 16 ≠ 0 then do
    let (stride, cpos) ← announcedVarInt enc self.cpos commands_end
    if stride < width then
      fail .InvalidStride
    else
      return (stride, { self with cpos })
  else
    .ok (width, self)

/-- One more byte of a predicted block. -/
def predictByte
    (start stride width order : Nat)
    (shuffled result : List UInt8)
    (i : Nat) :
    Checked (List UInt8) := do
  let value ← linearPredictValue result start i stride width order
  let byte ← index shuffled i
  return result ++ [value + byte]

def predict
    (enc : List UInt8)
    (commands_end : Nat)
    (self : BodyState) :
    Checked BodyState := do
  checkOutOfBounds self.cpos 2 commands_end
  let flags ← index enc self.cpos
  let width := (flags &&& 3).toNat + 1
  let order := ((flags &&& 12) >>> 2).toNat
  if width = 3 then
    fail .InvalidWidth
  else if order = 3 then
    fail .InvalidOrder
  else
    let (stride, next) ←
      predictStride enc commands_end flags width
        { self with cpos := self.cpos + 1 }
    if next.result.length = 0 ∨ (next.result.length - 1) >>> 2 < stride then
      fail .InvalidStride
    else
      let (bytes, next) ← next.takeData enc commands_end
      let shuffled := if 1 < width then shuffle bytes width else bytes
      let result ←
        (List.range bytes.length).foldlM
          (predictByte next.result.length stride width order shuffled)
          next.result
      return { next with result }

def xyz
    (enc : List UInt8)
    (self : BodyState) :
    Checked BodyState := do
  checkOutOfBounds self.pos 12 enc.length
  let bytes ← slice enc self.pos (self.pos + 12)
  return {
    self with
    pos := self.pos + 12
    result := appendUint32 (appendKeyword self.result kXyz_Tag) 0 ++ bytes }

def typeStart
    (command : UInt8)
    (self : BodyState) :
    Checked BodyState :=
  if kCommandTypeStartFirst ≤ command ∧
      command.toNat < kCommandTypeStartFirst.toNat + kTypeStrings.length then do
    let tag ←
      index kTypeStrings (command.toNat - kCommandTypeStartFirst.toNat)
    return {
      self with result := appendUint32 (appendKeyword self.result tag) 0 }
  else
    fail .Unsupported

/-- What a command does, behind the command itself. -/
def execute
    (enc : List UInt8)
    (commands_end : Nat)
    (command : UInt8)
    (self : BodyState) :
    Checked BodyState :=
  if command = kCommandInsert then
    self.insert enc commands_end
  else if command = kCommandShuffle2 then
    self.shuffled enc commands_end 2
  else if command = kCommandShuffle4 then
    self.shuffled enc commands_end 4
  else if command = kCommandPredict then
    self.predict enc commands_end
  else if command = kCommandXYZ then
    self.xyz enc
  else
    self.typeStart command

/-- A round of the loop over the commands of the body. -/
def round
    (enc : List UInt8)
    (osize commands_end : Nat)
    (self : BodyState) :
    Checked (BodyState ⊕ BodyState) :=
  if osize < self.result.length then
    fail .InvalidResultSize
  else if commands_end < self.cpos then
    fail .OutOfBounds
  else if self.cpos = commands_end then
    .ok (.inr self)
  else do
    let command ← index enc self.cpos
    let next ←
      execute enc commands_end command { self with cpos := self.cpos + 1 }
    return .inl next

end BodyState

/-- The profile behind its header. -/
def unpredictTail
    (enc : List UInt8)
    (osize commands_end cpos pos : Nat)
    (result : List UInt8) :
    Checked (List UInt8) :=
  if commands_end ≤ cpos then
    fail .OutOfBounds
  else do
    let tags ← unpredictTagList enc osize commands_end cpos pos result
    let body ←
      FuelLoop.run (BodyState.round enc osize commands_end) .running
        (commands_end + 1)
        { cpos := tags.cpos, pos := tags.pos, result := tags.result }
    if body.pos ≠ enc.length then
      fail .NotAllDataUsed
    else if body.result.length ≠ osize then
      fail .InvalidResultSize
    else
      return body.result

/-- The profile of the two streams, once their sizes are known. -/
def unpredictStreams
    (enc : List UInt8)
    (osize csize pos : Nat) :
    Checked (List UInt8) := do
  checkOutOfBounds pos csize enc.length
  let commands_end := pos + csize
  let header ←
    unpredictHeader enc osize pos commands_end kICCHeaderSize commands_end
      (initialHeaderPrediction osize) []
  match header with
  | .whole result => return result
  | .more result next =>
      unpredictTail enc osize commands_end pos next result

/-- The profile of an intermediate form. -/
def unpredictICC
    (enc : List UInt8) :
    Checked (List UInt8) :=
  if enc.length ≤ 0 then
    fail .OutOfBounds
  else do
    let (osize, pos) := decodeVarInt enc 0
    checkIs32Bit osize
    if kOutputLimit ≤ osize then
      fail .DecodedTooLarge
    else if enc.length ≤ pos then
      fail .OutOfBounds
    else
      let (csize, pos) := decodeVarInt enc pos
      checkIs32Bit csize
      unpredictStreams enc osize csize pos

end Jxlz.Icc
