import Jxlz.Codec.Container
import Jxlz.Icc.IccCodecCommon
import Jxlz.Icc.IccStreams
import Jxlz.Lib.FuelLoop

namespace Jxlz.Icc

open Container (slice)

/-!
# Taking a profile apart

Mirrors `predictICCImpl` of `icc_codec.zig`.  A profile becomes a stream of
commands and a stream of data: header bytes less their prediction, the tag
list, and the body as runs of known shape between plain insertions.
-/

def kSizeLimit : Nat := (2 ^ 32 - 1) >>> 2

def isPredictedTagSize20
    (tag : Tag) :
    Bool :=
  tag = kRxyzTag || tag = kGxyzTag || tag = kBxyzTag || tag = kKxyzTag ||
    tag = kWtptTag || tag = kBkptTag || tag = kLumiTag

def tagCode
    (tag : Tag) :
    UInt8 :=
  match kTagStrings.idxOf? tag with
  | some i => UInt8.ofNat i + kCommandTagStringFirst
  | none => kCommandTagUnknown

/-- Which shapes the encoder looks for. -/
structure PredictOptions where
  model_tag_list : Bool
  model_type_starts : Bool
  model_xyz : Bool
  model_mluc_shuffle : Bool
  model_sf32_shuffle : Bool
  model_curv_predict : Bool
  model_gbd_predict : Bool
  model_mab_curv_predict : Bool
  model_mab_clut_predict : Bool
  deriving Repr, DecidableEq

/-- The variables of the loop over the tag list. -/
structure TagList where
  tail_pos : Nat
  i : Nat := 0
  prevtagstart : Nat := 0
  prevtagsize : Nat := 0
  commands : List UInt8
  data : List UInt8
  tag_sizes : List (Nat × Nat) := []
  tag_types : List (Nat × Tag) := []

/-- A red curve whose green and blue ones follow at the same place. -/
def isTagTRC
    (icc : List UInt8)
    (tag : Tag)
    (tail_pos : Nat) :
    Bool :=
  tag = kRtrcTag ∧ tail_pos + 24 < icc.length ∧
    decodeKeyword icc tail_pos = kGtrcTag ∧
    decodeKeyword icc (tail_pos + 12) = kBtrcTag ∧
    (icc.drop (tail_pos - 8)).take 8 = (icc.drop (tail_pos + 4)).take 8 ∧
    (icc.drop (tail_pos - 8)).take 8 = (icc.drop (tail_pos + 16)).take 8

/-- A red point whose green and blue ones follow in the body, too. -/
def isTagXYZ
    (icc : List UInt8)
    (tag : Tag)
    (offsetr sizer tail_pos : Nat) :
    Checked Bool :=
  if tag = kRxyzTag ∧ tail_pos + 24 < icc.length ∧
      decodeKeyword icc tail_pos = kGxyzTag ∧
      decodeKeyword icc (tail_pos + 12) = kBxyzTag ∧ sizer = 20 ∧
      decodeUint32 icc (tail_pos + 8) = 20 ∧
      decodeUint32 icc (tail_pos + 20) = 20 then do
    let green ← addU 32 offsetr 20
    if decodeUint32 icc (tail_pos + 4) = green then
      let blue ← addU 32 offsetr 40
      return decodeUint32 icc (tail_pos + 16) = blue
    else
      return false
  else
    .ok false

/-- The command of an entry, before the numbers behind it. -/
def tagCommand
    (code : UInt8)
    (hasOffset hasSize : Bool) :
    UInt8 :=
  code ||| (if hasOffset then kFlagBitOffset else 0) |||
    if hasSize then kFlagBitSize else 0

/-- An entry of the tag list, or three of them that one command stands for. -/
def predictTag
    (icc : List UInt8)
    (self : TagList) :
    Checked TagList := do
  let tag := decodeKeyword icc self.tail_pos
  let tagstart := decodeUint32 icc (self.tail_pos + 4)
  let tagsize := decodeUint32 icc (self.tail_pos + 8)
  let tail_pos := self.tail_pos + 12
  let trc := isTagTRC icc tag tail_pos
  let xyz ← isTagXYZ icc tag tagstart tagsize tail_pos
  let code :=
    if xyz then kCommandTagXYZ
    else if trc then kCommandTagTRC
    else tagCode tag
  let grouped := trc || xyz
  let predicted_tagstart := self.prevtagstart + self.prevtagsize
  let predicted_tagsize :=
    if isPredictedTagSize20 tag then 20 else self.prevtagsize
  let hasOffset : Bool := predicted_tagstart ≠ tagstart
  let hasSize : Bool := predicted_tagsize ≠ tagsize
  let i ← addU 32 self.i (if grouped then 3 else 1)
  return {
    tail_pos := if grouped then tail_pos + 24 else tail_pos
    i
    prevtagstart := tagstart
    prevtagsize := tagsize
    commands :=
      self.commands ++ [tagCommand code hasOffset hasSize] ++
        (if hasOffset then varInt tagstart else []) ++
        if hasSize then varInt tagsize else []
    data := self.data ++ if code = kCommandTagUnknown then tag.bytes else []
    tag_sizes := (tagstart, tagsize) :: self.tag_sizes
    tag_types := (tagstart, tag) :: self.tag_types }

/-- A round of the loop over the tag list. -/
def tagRound
    (icc : List UInt8)
    (numtags : Nat)
    (self : TagList) :
    Checked (TagList ⊕ TagList) :=
  if self.i < numtags ∧ self.tail_pos + 12 ≤ icc.length then do
    let next ← predictTag icc self
    return .inl next
  else
    return .inr self

/-- The commands of the tag list, behind the number of its entries. -/
def predictTagList
    (fuel : Nat)
    (icc : List UInt8)
    (options : PredictOptions)
    (data : List UInt8) :
    Checked TagList :=
  if options.model_tag_list ∧ kICCHeaderSize + 4 ≤ icc.length then do
    let numtags := decodeUint32 icc kICCHeaderSize
    let tags ←
      FuelLoop.run (tagRound icc numtags) .running fuel
        { tail_pos := kICCHeaderSize + 4
          prevtagstart := kICCHeaderSize + numtags * 12
          commands := varInt (numtags + 1)
          data }
    return { tags with commands := tags.commands ++ [0] }
  else
    return { tail_pos := kICCHeaderSize, commands := varInt 0, data }

/-- The variables of the loop over the body. -/
structure Body where
  pos : Nat
  insert_start : Nat
  commands : List UInt8
  data : List UInt8
  current_tag : Option Tag := none
  current_tag_start : Nat := 0
  current_tag_size : Nat := 0
  clut_start : Option Nat := none

namespace Body

/-- The tag that a position is in, by the tag list. -/
def enterTag
    (tags : TagList)
    (self : Body) :
    Checked Body := do
  let self :=
    if self.current_tag ≠ none ∧
        self.current_tag_start + self.current_tag_size < self.pos then
      { self with current_tag := none }
    else
      self
  match tags.tag_types.lookup self.pos with
  | none => return self
  | some tag =>
      match tags.tag_sizes.lookup self.pos with
      | none => .error .trap
      | some size =>
          return {
            self with
            current_tag := some tag
            current_tag_start := self.pos
            current_tag_size := size
            clut_start := none }

/-- The bytes that no command stands for yet, up to a position. -/
def insertTo
    (icc : List UInt8)
    (stop : Nat)
    (self : Body) :
    Checked Body :=
  if self.insert_start < stop then do
    let bytes ← slice icc self.insert_start stop
    return {
      self with
      commands :=
        self.commands ++ [kCommandInsert] ++ varInt (stop - self.insert_start)
      data := self.data ++ bytes }
  else
    return self

/-- The loop goes on behind what the last command stands for. -/
def jumpTo
    (pos : Nat)
    (self : Body) :
    Body :=
  { self with pos, insert_start := pos }

def typeStart
    (i : Nat)
    (self : Body) :
    Body :=
  { self with
    commands := self.commands ++ [kCommandTypeStartFirst + UInt8.ofNat i] }

/-- A block of bytes, column by column. -/
def shuffled
    (icc : List UInt8)
    (command : UInt8)
    (start num width : Nat)
    (self : Body) :
    Checked Body := do
  let bytes ← slice icc start (start + num)
  return {
    self with
    commands := self.commands ++ [command] ++ varInt num
    data := self.data ++ unshuffle bytes width }

/-- The flags of a predicted block; the last one announces a stride. -/
def predictFlags
    (stride width order : Nat) :
    UInt8 :=
  UInt8.ofNat (order <<< 2 ||| (width - 1)) |||
    if stride ≠ width then 16 else 0

/-- A block of bytes less their predictions. -/
def predicted
    (icc : List UInt8)
    (start num stride width order : Nat)
    (self : Body) :
    Checked Body := do
  let residuals ←
    (List.range num).mapM
      (fun i => do
        let value ← linearPredictValue icc start i stride width order
        let byte ← index icc (start + i)
        return byte - value)
  return {
    self with
    commands :=
      self.commands ++ [kCommandPredict, predictFlags stride width order] ++
        (if stride ≠ width then varInt stride else []) ++ varInt num
    data := self.data ++ if 1 < width then unshuffle residuals width else residuals }

def isMab
    (self : Body) :
    Bool :=
  self.current_tag = some kMab_Tag || self.current_tag = some kMba_Tag

/-- A curve inside of a multi-dimensional table. -/
def mabCurvPredict
    (icc : List UInt8)
    (options : PredictOptions)
    (self : Body) :
    Checked (Option Body) :=
  let sub_tag := decodeKeyword icc self.pos
  let num := decodeUint32 icc (self.pos + 8) * 2
  let payload_start := self.pos + 12
  if options.model_mab_curv_predict ∧ self.isMab ∧
      self.pos + 12 ≤ icc.length ∧ (sub_tag = kCurvTag ∨ sub_tag = kVcgtTag) ∧
      decodeUint32 icc (self.pos + 4) = 0 ∧ 16 < num ∧ num < 2 ^ 28 ∧
      payload_start + num ≤ icc.length then do
    let self ← self.insertTo icc payload_start
    let self ← self.predicted icc payload_start num 2 2 1
    return some (self.jumpTo (payload_start + num))
  else
    return none

/-- The place of the colour table, noted at its offset. -/
def noteClut
    (icc : List UInt8)
    (self : Body) :
    Body :=
  if self.isMab ∧ self.pos = self.current_tag_start + 24 ∧
      self.pos + 4 ≤ icc.length then
    { self with
      clut_start := some (self.current_tag_start + decodeUint32 icc self.pos) }
  else
    self

/-- The colour table inside of a multi-dimensional table. -/
def mabClutPredict
    (icc : List UInt8)
    (options : PredictOptions)
    (self : Body) :
    Checked (Option Body) :=
  if self.isMab ∧ options.model_mab_clut_predict ∧
      self.clut_start = some self.pos ∧ self.pos + 16 < icc.length then do
    let numi ← index icc (self.current_tag_start + 8)
    let numo ← index icc (self.current_tag_start + 9)
    let width ← index icc (self.pos + 16)
    let stride := width.toNat * numo.toNat
    let num ←
      (List.range numi.toNat).foldlM
        (fun num i => do
          let points ← index icc (self.pos + i)
          mulU 64 num points.toNat)
        stride
    if (width = 1 ∨ width = 2) ∧ 64 < num ∧ num < 2 ^ 28 ∧
        self.pos + num ≤ icc.length ∧ stride * 4 < self.pos then
      let inserted ← self.insertTo icc self.pos
      let next ← inserted.predicted icc self.pos num stride width.toNat 1
      return some (next.jumpTo (self.pos + num))
    else
      return none
  else
    return none

/-- A gamut boundary. -/
def gbdPredict
    (icc : List UInt8)
    (options : PredictOptions)
    (tags : TagList)
    (self : Body) :
    Checked (Option Body) :=
  if options.model_gbd_predict ∧ 8 ≤ self.pos ∧
      decodeKeyword icc (self.pos - 8) = kGbd_Tag ∧
      decodeUint32 icc (self.pos - 4) = 0 then
    match tags.tag_sizes.lookup (self.pos - 8) with
    | none => return none
    | some tag_size => do
        let num ← subU tag_size 8
        if self.pos - 8 + tag_size ≤ icc.length ∧ 16 < self.pos then
          let inserted ← self.insertTo icc self.pos
          let next ← inserted.predicted icc self.pos num 4 4 0
          return some (next.jumpTo (self.pos + num))
        else
          return none
  else
    return none

/-- A tag that starts with a keyword, if the length of its payload is right. -/
def wholeTag
    (icc : List UInt8)
    (tags : TagList)
    (enabled : Bool)
    (keyword : Tag)
    (fits : Nat → Bool)
    (emit : Nat → Body → Checked Body)
    (self : Body) :
    Checked (Option Body) :=
  if enabled ∧ self.pos + 8 ≤ icc.length ∧
      decodeKeyword icc self.pos = keyword ∧
      decodeUint32 icc (self.pos + 4) = 0 then
    match tags.tag_sizes.lookup self.pos with
    | none => return none
    | some tag_size => do
        let num ← subU tag_size 8
        if self.pos + tag_size ≤ icc.length ∧ fits num then
          let inserted ← self.insertTo icc self.pos
          let next ← emit num inserted
          return some (next.jumpTo (self.pos + tag_size))
        else
          return none
  else
    return none

def curvPredict
    (icc : List UInt8)
    (options : PredictOptions)
    (tags : TagList)
    (self : Body) :
    Checked (Option Body) :=
  self.wholeTag icc tags options.model_curv_predict kCurvTag
    (fun num => num % 2 = 0 ∧ 16 < num ∧ 0 < self.pos)
    (fun num next =>
      (next.typeStart 5).predicted icc (self.pos + 8) num 2 2 1)

def mlucShuffle
    (icc : List UInt8)
    (options : PredictOptions)
    (tags : TagList)
    (self : Body) :
    Checked (Option Body) :=
  self.wholeTag icc tags options.model_mluc_shuffle kMlucTag
    (fun num => num % 2 = 0)
    (fun num next =>
      (next.typeStart 3).shuffled icc kCommandShuffle2 (self.pos + 8) num 2)

def sf32Shuffle
    (icc : List UInt8)
    (options : PredictOptions)
    (tags : TagList)
    (self : Body) :
    Checked (Option Body) :=
  self.wholeTag icc tags options.model_sf32_shuffle kSf32Tag
    (fun num => num % 4 = 0 ∧ 0 < num)
    (fun num next =>
      (next.typeStart 6).shuffled icc kCommandShuffle4 (self.pos + 8) num 4)

/-- A point of three numbers. -/
def xyz
    (icc : List UInt8)
    (options : PredictOptions)
    (self : Body) :
    Checked (Option Body) :=
  if options.model_xyz ∧ self.pos + 20 ≤ icc.length ∧
      decodeKeyword icc self.pos = kXyz_Tag ∧
      decodeUint32 icc (self.pos + 4) = 0 then do
    let inserted ← self.insertTo icc self.pos
    let bytes ← slice icc (self.pos + 8) (self.pos + 20)
    let next : Body :=
      { inserted with
        commands := inserted.commands ++ [kCommandXYZ]
        data := inserted.data ++ bytes }
    return some (next.jumpTo (self.pos + 20))
  else
    return none

/-- A keyword of a known type. -/
def typeStarts
    (icc : List UInt8)
    (options : PredictOptions)
    (self : Body) :
    Checked (Option Body) :=
  if options.model_type_starts ∧ self.pos + 8 ≤ icc.length ∧
      decodeUint32 icc (self.pos + 4) = 0 then
    match kTypeStrings.idxOf? (decodeKeyword icc self.pos) with
    | none => return none
    | some i => do
        let inserted ← self.insertTo icc self.pos
        return some ((inserted.typeStart i).jumpTo (self.pos + 8))
  else
    return none

/-- The first of some shapes that is there. -/
def firstMatch : List (Checked (Option Body)) → Checked (Option Body)
  | [] => .ok none
  | shape :: shapes => do
      match ← shape with
      | some next => return some next
      | none => firstMatch shapes

/-- A round of the loop over the body. -/
def round
    (icc : List UInt8)
    (options : PredictOptions)
    (tags : TagList)
    (self : Body) :
    Checked (Body ⊕ Body) :=
  if self.pos < icc.length then do
    let self ← self.enterTag tags
    let noted := self.noteClut icc
    let found ←
      firstMatch
        [self.mabCurvPredict icc options,
          noted.mabClutPredict icc options,
          noted.gbdPredict icc options tags,
          noted.curvPredict icc options tags,
          noted.mlucShuffle icc options tags,
          noted.sf32Shuffle icc options tags,
          noted.xyz icc options,
          noted.typeStarts icc options]
    match found with
    | some next => return .inl next
    | none => return .inl { noted with pos := noted.pos + 1 }
  else
    return .inr self

end Body

/-- The commands and the data of the body, behind those of the tag list. -/
def predictBody
    (fuel : Nat)
    (icc : List UInt8)
    (options : PredictOptions)
    (tags : TagList) :
    Checked Body := do
  let body ←
    FuelLoop.run (Body.round icc options tags) .running fuel
      { pos := tags.tail_pos
        insert_start := tags.tail_pos
        commands := tags.commands
        data := tags.data }
  body.insertTo icc icc.length

/-- A header byte less its prediction. -/
def predictHeaderByte
    (icc : List UInt8)
    (state : List UInt8 × List UInt8)
    (i : Nat) :
    Checked (List UInt8 × List UInt8) := do
  let header := predictHeader icc state.1 i
  let byte ← index icc i
  let value ← index header i
  return (header, state.2 ++ [byte - value])

/-- The commands and the data behind the header. -/
def predictTail
    (fuel : Nat)
    (icc : List UInt8)
    (options : PredictOptions)
    (data : List UInt8) :
    Checked (List UInt8 × List UInt8) :=
  if kICCHeaderSize < icc.length then do
    let tags ← predictTagList fuel icc options data
    let body ← predictBody fuel icc options tags
    return (body.commands, body.data)
  else
    return ([], data)

/-- The intermediate form of a profile: its length, the commands, the data. -/
def predictICCImpl
    (fuel : Nat)
    (icc : List UInt8)
    (options : PredictOptions) :
    Checked (List UInt8) :=
  if kSizeLimit < icc.length then
    fail .ProfileTooLarge
  else do
    let (_, data) ←
      (List.range (min icc.length kICCHeaderSize)).foldlM
        (predictHeaderByte icc) (initialHeaderPrediction icc.length, [])
    let (commands, data) ← predictTail fuel icc options data
    return encodeVarInt (encodeVarInt [] icc.length) commands.length ++
      commands ++ data

def predictICC
    (fuel : Nat)
    (icc : List UInt8) :
    Checked (List UInt8) :=
  predictICCImpl fuel icc
    { model_tag_list := true
      model_type_starts := true
      model_xyz := true
      model_mluc_shuffle := true
      model_sf32_shuffle := true
      model_curv_predict := true
      model_gbd_predict := true
      model_mab_curv_predict := true
      model_mab_clut_predict := true }

end Jxlz.Icc
