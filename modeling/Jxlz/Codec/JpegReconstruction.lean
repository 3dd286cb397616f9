import Jxlz.Base.BitReader
import Jxlz.Codec.FieldCoders

namespace Jxlz.JpegReconstruction

/-!
# Retained JPEG markers

Mirrors the `parse` of `jpeg_reconstruction.zig`: the parts of a JPEG file besides its
coefficients, read field by field.  The decompressor of the payload is a parameter.
-/

inductive Kind where
  | unknown
  | icc
  | exif
  | xmp
  deriving Repr, DecidableEq

structure Marker where
  kind : Kind := .unknown
  length : Nat
  data : List UInt8 := []
  deriving Repr, DecidableEq

structure Quant where
  precision : Nat
  index : Nat
  is_last : Bool
  deriving Repr, DecidableEq

structure Component where
  id : Nat
  quant_index : Nat
  deriving Repr, DecidableEq

/-- A code: the number of its words of each length, and all of its symbols. -/
structure Huffman where
  slot_id : Nat
  is_last : Bool
  counts : List Nat := List.replicate 17 0
  values : List Nat := List.replicate 257 0
  deriving Repr, DecidableEq

structure ScanComponent where
  component : Nat
  ac_table : Nat
  dc_table : Nat
  deriving Repr, DecidableEq

structure ZeroRun where
  block : Nat
  count : Nat
  deriving Repr, DecidableEq

structure Scan where
  ss : Nat
  se : Nat
  al : Nat
  ah : Nat
  last_needed_pass : Nat
  components : List ScanComponent
  reset_points : List Nat := []
  extra_zero_runs : List ZeroRun := []
  deriving Repr, DecidableEq

structure Data where
  markers : List Nat := []
  components : List Component := []
  quant : List Quant := []
  apps : List Marker := []
  comments : List Marker := []
  huffman : List Huffman := []
  scans : List Scan := []
  restart_interval : Nat := 0
  has_zero_padding_bit : Bool := false
  padding : List Nat := []
  inter_marker : List (List UInt8) := []
  tail : List UInt8 := []
  deriving Repr, DecidableEq

/-! The reader of the fields. -/

abbrev Parse := StateT BitReader Checked

/-- The input has so many bits left. -/
def requireBits
    (count : Nat) :
    Parse Unit := do
  let br ← get
  let consumed := br.totalBitsConsumed
  let available := br.totalBytes * 8
  if available < consumed ∨ available - consumed < count then
    (fail .GenericError : Checked Unit)

def bitsOf
    (count : Nat) :
    Parse Nat := do
  requireBits count
  let (value, br) ← (← get).readBits count
  set br
  return value

def field
    (distribution : U32Enc) :
    Parse Nat := do
  let (value, br) ← U32Coder.read distribution (← get)
  let (within, br) := br.allReadsWithinBounds
  set br
  if !within then
    (fail .GenericError : Checked Nat)
  else
    return value

/-- `return error.GenericError` under a condition. -/
def refuse
    (condition : Prop)
    [Decidable condition] :
    Parse Unit :=
  if condition then (fail .GenericError : Checked Unit) else return ()

/-- The markers up to the end of the image; there is room for so many more. -/
def readMarkers : Nat → Parse (List Nat)
  | 0 => (fail .GenericError : Checked (List Nat))
  | room + 1 => do
      let marker := 0xc0 + (← bitsOf 6)
      if marker = 0xd9 then
        return [marker]
      else
        return marker :: (← readMarkers room)

def kindOf : Nat → Kind
  | 0 => .unknown
  | 1 => .icc
  | 2 => .exif
  | _ => .xmp

def readApp : Parse Marker := do
  let kind ← field ⟨val 0, val 1, bitsOffset 1 2, bitsOffset 2 4⟩
  refuse (3 < kind)
  let length := 1 + (← bitsOf 16)
  refuse (length < 3)
  return { kind := kindOf kind, length }

def readComment : Parse Marker := do
  let length := 1 + (← bitsOf 16)
  refuse (length < 3)
  return { length }

def readQuant : Parse Quant := do
  let precision ← bitsOf 1
  let index ← bitsOf 2
  let is_last ← bitsOf 1
  return { precision, index, is_last := decide (is_last ≠ 0) }

/-- The number of components for each way to name them. -/
def componentCount
    (kind : Nat) :
    Parse Nat :=
  if kind = 0 then
    return 1
  else if kind ≠ 3 then
    return 3
  else
    field ⟨val 1, val 2, val 3, val 4⟩

def readComponentId
    (kind number : Nat) :
    Parse Nat := do
  if kind = 3 then
    bitsOf 8
  else if kind = 2 then
    (index [0x52, 0x47, 0x42] number : Checked Nat)
  else
    return number + 1

/-- One symbol of a code; no symbol comes twice, and DC symbols are small. -/
def readSymbol
    (is_ac : Bool)
    (seen : List Nat) :
    Parse Nat := do
  let value ← field ⟨bits 2, bitsOffset 2 4, bitsOffset 4 8, bitsOffset 8 1⟩
  (require (value < 257) : Checked Unit)
  refuse (value ∈ seen ∨ (is_ac = false ∧ 12 ≤ value ∧ value ≠ 256))
  return value

/-- The symbols of a code, one after another. -/
def readSymbols
    (is_ac : Bool) :
    Nat → List Nat → Parse (List Nat)
  | 0, seen => return seen
  | count + 1, seen => do
      let value ← readSymbol is_ac seen
      readSymbols is_ac count (seen ++ [value])

/-- One code.  The last symbol of a code that has any is the one that is left out. -/
def readHuffman : Parse Huffman := do
  let is_ac := decide ((← bitsOf 1) ≠ 0)
  let slot ← bitsOf 2
  let slot_id := (if is_ac then 16 else 0) ||| slot
  let is_last := decide ((← bitsOf 1) ≠ 0)
  let counts ←
    (List.range 17).mapM fun _ => field ⟨val 0, val 1, bitsOffset 3 2, bits 8⟩
  let symbols := counts.sum
  if symbols = 0 then
    return { slot_id, is_last, counts }
  else
    refuse (257 < symbols)
    let values ← readSymbols is_ac symbols []
    let last ← (index values (symbols - 1) : Checked Nat)
    refuse (last ≠ 256)
    return {
      slot_id
      is_last
      counts
      values := values ++ List.replicate (257 - symbols) 0 }

def readScanComponent
    (components : Nat) :
    Parse ScanComponent := do
  let component ← bitsOf 2
  let ac_table ← bitsOf 2
  let dc_table ← bitsOf 2
  refuse (components ≤ component)
  return { component, ac_table, dc_table }

def readScan
    (components : Nat) :
    Parse Scan := do
  let num_components ← field ⟨val 1, val 2, val 3, val 4⟩
  refuse (num_components = 4)
  let ss ← bitsOf 6
  let se ← bitsOf 6
  let al ← bitsOf 4
  let ah ← bitsOf 4
  let members ← (List.range num_components).mapM fun _ => readScanComponent components
  let last_needed_pass ← field ⟨val 0, val 1, val 2, bitsOffset 3 3⟩
  return { ss, se, al, ah, last_needed_pass, components := members }

def runCount : U32Enc :=
  ⟨val 0, bitsOffset 2 1, bitsOffset 4 4, bitsOffset 16 20⟩

def blockDelta : U32Enc :=
  ⟨val 0, bitsOffset 3 1, bitsOffset 5 9, bitsOffset 28 41⟩

/-- The reset points of a scan, each behind the one before. -/
def readResets : Nat → Nat → Parse (List Nat)
  | 0, _ => return []
  | count + 1, next_block => do
      let point ← (addU 32 next_block (← field blockDelta) : Checked Nat)
      refuse (3 <<< 26 ≤ point)
      return point :: (← readResets count (point + 1))

/-- The extra runs of zeros of a scan. -/
def readZeroRuns : Nat → Nat → Parse (List ZeroRun)
  | 0, _ => return []
  | runs + 1, next_block => do
      let count ← field ⟨val 1, bitsOffset 2 2, bitsOffset 4 5, bitsOffset 8 20⟩
      let block ← (addU 32 next_block (← field blockDelta) : Checked Nat)
      refuse (3 <<< 26 < block)
      return { block, count } :: (← readZeroRuns runs (block + 1))

/-- What follows later of a scan. -/
def readScanRuns
    (scan : Scan) :
    Parse Scan := do
  let resets ← field runCount
  requireBits (resets * 2)
  let reset_points ← readResets resets 0
  let zeros ← field runCount
  requireBits (zeros * 4)
  let extra_zero_runs ← readZeroRuns zeros 0
  return { scan with reset_points, extra_zero_runs }

/-- The tables that are defined so far. -/
structure Defined where
  huffman : Nat := 0
  scan : Nat := 0
  progressive : Bool := false
  ac : List Bool := List.replicate 4 false
  dc : List Bool := List.replicate 4 false

/-- The tables of one marker; `count` codes are left. -/
def defineTables
    (data : Data) :
    Nat → Defined → Checked Defined
  | 0, self => return self
  | count + 1, self => do
      let table ← index data.huffman self.huffman
      let slot := table.slot_id &&& 3
      let self := { self with huffman := self.huffman + 1 }
      let self ←
        (if table.slot_id &&& 16 ≠ 0 then
          return { self with ac := ← store self.ac slot true }
        else
          return { self with dc := ← store self.dc slot true } : Checked Defined)
      if table.is_last then
        return self
      else
        defineTables data count self

/-- A scan uses defined tables only. -/
def validateMarker
    (data : Data)
    (self : Defined)
    (marker : Nat) :
    Checked Defined := do
  if marker = 0xc2 then
    return { self with progressive := true }
  else if marker = 0xc4 then
    defineTables data (data.huffman.length - self.huffman) self
  else if marker = 0xda then
    let current ← index data.scans self.scan
    current.components.forM fun component => do
      let hasDc ← index self.dc component.dc_table
      let hasAc ← index self.ac component.ac_table
      if (!self.progressive || current.ss = 0) && !hasDc then
        fail .GenericError
      else if (!self.progressive || current.ss ≠ 0 || current.se ≠ 0) && !hasAc then
        fail .GenericError
      else
        return ()
    return { self with scan := self.scan + 1 }
  else
    return self

def validateTableOrder
    (data : Data) :
    Checked Unit := do
  let _ ← data.markers.foldlM (validateMarker data) {}
  return ()

/-- The fields, the lengths of the data between markers, and that of the tail. -/
def readFields : Parse (Data × List Nat × Nat) := do
  let _ ← bitsOf 1
  let markers ← readMarkers 16384
  let apps ← (markers.filter fun marker => marker &&& 0xf0 = 0xe0).mapM fun _ => readApp
  let comments ← (markers.filter (· = 0xfe)).mapM fun _ => readComment
  let count ← field ⟨val 1, val 2, val 3, val 4⟩
  refuse (count = 4)
  let quant ← (List.range count).mapM fun _ => readQuant
  let kind ← bitsOf 2
  let number ← componentCount kind
  refuse (number ≠ 1 ∧ number ≠ 3)
  let ids ← (List.range number).mapM (readComponentId kind)
  let components ← ids.mapM fun id => do
    let quant_index ← bitsOf 2
    refuse (quant.length ≤ quant_index)
    return ({ id, quant_index } : Component)
  refuse (components.all fun component => component.quant_index ≠ 0)
  let huff_count ← field ⟨val 4, bitsOffset 3 2, bitsOffset 4 10, bitsOffset 6 26⟩
  requireBits (huff_count * 38)
  let huffman ← (List.range huff_count).mapM fun _ => readHuffman
  let scanMarkers := markers.filter (· = 0xda)
  requireBits (scanMarkers.length * 30)
  let scans ← scanMarkers.mapM fun _ => readScan components.length
  let restart_interval ← (if 0xdd ∈ markers then bitsOf 16 else return 0 : Parse Nat)
  let scans ← scans.mapM readScanRuns
  let interMarkers := markers.filter (· = 0xff)
  requireBits (interMarkers.length * 16)
  let inter_lengths ← interMarkers.mapM fun _ => bitsOf 16
  let tail_length ←
    field ⟨val 0, bitsOffset 8 1, bitsOffset 16 257, bitsOffset 22 65793⟩
  let has_zero_padding_bit := decide ((← bitsOf 1) ≠ 0)
  let padding ← (do
    if has_zero_padding_bit then
      let padding ← bitsOf 24
      requireBits padding
      (List.range padding).mapM fun _ => bitsOf 1
    else
      return [] : Parse (List Nat))
  let data : Data := {
    markers
    components
    quant
    apps
    comments
    huffman
    scans
    restart_interval
    has_zero_padding_bit
    padding }
  (validateTableOrder data : Checked Unit)
  let br ← (← get).jumpToByteBoundary
  set br
  requireBits 0
  return (data, inter_lengths, tail_length)

/-! The payload. -/

/-- `payload[offset..][0..length]`. -/
def payloadPart
    (payload : List UInt8)
    (offset length : Nat) :
    Checked (List UInt8) := do
  require (offset + length ≤ payload.length)
  return (payload.drop offset).take length

def validateMarkerSize
    (data : List UInt8) :
    Checked Unit := do
  let high ← index data 1
  let low ← index data 2
  if high.toNat * 256 + low.toNat + 1 ≠ data.length then
    fail .GenericError
  else
    return ()

/-- `"ICC_PROFILE\x00"`, `"Exif\x00\x00"` and the name of XMP data. -/
def tagOf : Kind → List UInt8
  | .icc => [0x49, 0x43, 0x43, 0x5f, 0x50, 0x52, 0x4f, 0x46, 0x49, 0x4c, 0x45, 0]
  | .exif => [0x45, 0x78, 0x69, 0x66, 0, 0]
  | .xmp => [
      0x68, 0x74, 0x74, 0x70, 0x3a, 0x2f, 0x2f, 0x6e, 0x73, 0x2e, 0x61, 0x64, 0x6f,
      0x62, 0x65, 0x2e, 0x63, 0x6f, 0x6d, 0x2f, 0x78, 0x61, 0x70, 0x2f, 0x31, 0x2e,
      0x30, 0x2f, 0]
  | .unknown => []

/-- An app marker with its data; `icc_count` is the number of ICC parts so far. -/
def fillApp
    (payload : List UInt8)
    (state : List Marker × Nat × UInt8)
    (app : Marker) :
    Checked (List Marker × Nat × UInt8) := do
  let (apps, offset, icc_count) := state
  if app.kind = .unknown then
    let data ← payloadPart payload offset app.length
    validateMarkerSize data
    return (apps ++ [{ app with data }], offset + app.length, icc_count)
  else
    let tag := tagOf app.kind
    let header_length := 3 + tag.length + (if app.kind = .icc then 2 else 0)
    if app.length < header_length then
      fail .GenericError
    else
      let high ← castU 8 ((app.length - 1) >>> 8)
      let start : List UInt8 :=
        [if app.kind = .icc then 0xe2 else 0xe1, UInt8.ofNat high,
          UInt8.ofNat (app.length - 1)] ++ tag
      let data := start ++ List.replicate (app.length - start.length) 0
      if app.kind = .icc then
        let data ← store data 15 (icc_count + 1)
        return (apps ++ [{ app with data }], offset, icc_count + 1)
      else
        return (apps ++ [{ app with data }], offset, icc_count)

/-- The data with the payload in their places. -/
def fillPayload
    (payload : List UInt8)
    (inter_lengths : List Nat)
    (data : Data) :
    Checked Data := do
  let (apps, offset, icc_count) ← data.apps.foldlM (fillApp payload) ([], 0, 0)
  let apps ← apps.mapM fun app =>
    (if app.kind = .icc then
      return { app with data := ← store app.data 16 icc_count }
    else
      return app : Checked Marker)
  let (comments, offset) ←
    data.comments.foldlM
      (fun state comment => do
        let (comments, offset) := state
        let data ← payloadPart payload offset comment.length
        validateMarkerSize data
        return (comments ++ [{ comment with data }], offset + comment.length))
      (([], offset) : List Marker × Nat)
  let (inter_marker, offset) ←
    inter_lengths.foldlM
      (fun state length => do
        let (parts, offset) := state
        let part ← payloadPart payload offset length
        return (parts ++ [part], offset + length))
      (([], offset) : List (List UInt8) × Nat)
  require (offset ≤ payload.length)
  return { data with apps, comments, inter_marker, tail := payload.drop offset }

/-- The retained parts of a JPEG file. -/
def parse
    (decompressBounded : List UInt8 → Nat → Checked (List UInt8))
    (bytes : List UInt8) :
    Checked Data := do
  let ((data, inter_lengths, tail_length), br) ← readFields.run (BitReader.init bytes)
  let unknown := data.apps.filter fun app => app.kind = .unknown
  let payload_length :=
    tail_length + (unknown.map (·.length)).sum + (data.comments.map (·.length)).sum +
      inter_lengths.sum
  let start := br.totalBitsConsumed / 8
  require (start ≤ bytes.length)
  let payload ← decompressBounded (bytes.drop start) payload_length
  if payload.length ≠ payload_length then
    fail .GenericError
  else
    fillPayload payload inter_lengths data

end Jxlz.JpegReconstruction

namespace Jxlz.JpegReconstruction

/-!
# The codes of retained JPEG files

What the codes that `parse` returns have in common: a count for each length from zero to
sixteen, and symbols that differ.
-/

/-- Whatever a read returns has the postcondition. -/
def Gives
    {α : Type}
    (reads : Parse α)
    (post : α → Prop) :
    Prop :=
  ∀ br result, reads.run br = .ok result → post result.1

section

variable {α β : Type}
variable {reads : Parse α}
variable {next : α → Parse β}

theorem gives_pure
    {value : α}
    {post : α → Prop}
    (holds : post value) :
    Gives (pure value) post := by
  rintro br result ⟨⟩
  exact holds

theorem Gives.bind
    {middle : α → Prop}
    {post : β → Prop}
    (first : Gives reads middle)
    (second : ∀ value, middle value → Gives (next value) post) :
    Gives (reads >>= next) post := by
  intro br result ran
  rw [StateT.run_bind] at ran
  obtain ⟨⟨value, br'⟩, isFirst, ran⟩ := bind_eq_ok.1 ran
  exact second value (first br _ isFirst) br' result ran

/-- A read whose result does not matter. -/
theorem Gives.skip
    {post : β → Prop}
    (second : ∀ value, Gives (next value) post) :
    Gives (reads >>= next) post := by
  have any : Gives reads fun _ => True :=
    fun _ _ _ => trivial
  exact any.bind fun value _ => second value

theorem gives_lift
    {run : Checked α}
    {post : α → Prop}
    (meets : ∀ value, run = .ok value → post value) :
    Gives (run : Parse α) post := by
  intro br result ran
  obtain ⟨value, isValue, ran⟩ := bind_eq_ok.1 ran
  cases ran
  exact meets value isValue

theorem gives_refuse
    (condition : Prop)
    [Decidable condition] :
    Gives (refuse condition) fun _ => ¬condition := by
  unfold refuse
  by_cases refused : condition
  · rw [if_pos refused]
    apply gives_lift
    rintro _ ⟨⟩
  · rw [if_neg refused]
    exact gives_pure refused

theorem gives_mapM
    {step : β → Parse α}
    {post : α → Prop}
    {items : List β}
    (each : ∀ item, Gives (step item) post) :
    Gives (items.mapM step) fun results =>
      results.length = items.length ∧ ∀ result ∈ results, post result := by
  induction items with
  | nil =>
      exact gives_pure ⟨rfl, fun _ member => absurd member List.not_mem_nil⟩
  | cons item items inductionHypothesis =>
      rw [List.mapM_cons]
      refine .bind (each item) fun first isFirst => ?_
      refine .bind inductionHypothesis fun others areOthers => ?_
      refine gives_pure ⟨?_, List.forall_mem_cons.2 ⟨isFirst, areOthers.2⟩⟩
      rw [List.length_cons, List.length_cons, areOthers.1]

end

/-- A count for each length, and symbols that differ. -/
structure Huffman.Sound
    (code : Huffman) :
    Prop where
  lengths : code.counts.length = 17
  distinct : (code.values.take code.counts.sum).Nodup

theorem readSymbol_new
    (is_ac : Bool)
    (seen : List Nat) :
    Gives (readSymbol is_ac seen) fun value => value ∉ seen := by
  unfold readSymbol
  refine .skip fun value => .skip fun _ => ?_
  refine .bind (gives_refuse _) fun _ allowed => gives_pure ?_
  intro again
  exact allowed (.inl again)

/-- Each symbol that is read is new. -/
theorem readSymbols_distinct
    (is_ac : Bool)
    (count : Nat)
    {seen : List Nat}
    (distinct : seen.Nodup) :
    Gives (readSymbols is_ac count seen) fun symbols =>
      symbols.Nodup ∧ symbols.length = seen.length + count := by
  induction count generalizing seen with
  | zero =>
      exact gives_pure ⟨distinct, rfl⟩
  | succ count inductionHypothesis =>
      unfold readSymbols
      refine .bind (readSymbol_new is_ac seen) fun value isNew => ?_
      have longer : (seen ++ [value]).Nodup := by
        rw [List.nodup_append]
        refine ⟨distinct, List.nodup_singleton value, ?_⟩
        rintro one isSeen other isValue rfl
        rw [List.mem_singleton.1 isValue] at isSeen
        exact isNew isSeen
      intro br result ran
      obtain ⟨stays, count'⟩ := inductionHypothesis longer br result ran
      refine ⟨stays, ?_⟩
      rw [count', List.length_append, List.length_singleton]
      omega

/-- The postcondition of a code that is read. -/
theorem readHuffman_sound :
    Gives readHuffman Huffman.Sound := by
  unfold readHuffman
  refine .skip fun _ => .skip fun _ => .skip fun _ => ?_
  have any (distribution : U32Enc) : Gives (field distribution) fun _ => True :=
    fun _ _ _ => trivial
  refine .bind (gives_mapM fun _ => any _) fun counts areCounts => ?_
  have lengths : counts.length = 17 := areCounts.1
  dsimp only
  split
  next none =>
    refine gives_pure ⟨lengths, ?_⟩
    change (List.take counts.sum _).Nodup
    rw [none]
    exact List.nodup_nil
  next some =>
    refine .skip fun _ => ?_
    refine .bind (readSymbols_distinct _ _ List.nodup_nil) fun values areValues => ?_
    refine .skip fun _ => .skip fun _ => gives_pure ⟨lengths, ?_⟩
    obtain ⟨distinct, count⟩ := areValues
    rw [List.length_nil, Nat.zero_add] at count
    change (List.take counts.sum (values ++ _)).Nodup
    rw [← count, List.take_left]
    exact distinct

theorem readFields_sound :
    Gives readFields fun result => ∀ code ∈ result.1.huffman, code.Sound := by
  unfold readFields
  iterate 15 refine .skip fun _ => ?_
  refine .bind (gives_mapM fun _ => readHuffman_sound) fun huffman sound => ?_
  iterate 14 refine .skip fun _ => ?_
  exact gives_pure sound.2

/-- The payload changes nothing about the codes. -/
theorem fillPayload_huffman
    {payload : List UInt8}
    {inter_lengths : List Nat}
    {data filled : Data}
    (returned : fillPayload payload inter_lengths data = .ok filled) :
    filled.huffman = data.huffman := by
  unfold fillPayload at returned
  obtain ⟨_, _, returned⟩ := bind_eq_ok.1 returned
  obtain ⟨_, _, returned⟩ := bind_eq_ok.1 returned
  obtain ⟨_, _, returned⟩ := bind_eq_ok.1 returned
  obtain ⟨_, _, returned⟩ := bind_eq_ok.1 returned
  obtain ⟨_, _, returned⟩ := bind_eq_ok.1 returned
  cases returned
  rfl

/-- Every code of a file has a count for each length, and symbols that differ. -/
theorem parse_sound
    {decompressBounded : List UInt8 → Nat → Checked (List UInt8)}
    {bytes : List UInt8}
    {data : Data}
    (parsed : parse decompressBounded bytes = .ok data) :
    ∀ code ∈ data.huffman, code.Sound := by
  unfold parse at parsed
  obtain ⟨⟨⟨read, inter_lengths, tail_length⟩, br⟩, isRead, parsed⟩ := bind_eq_ok.1 parsed
  obtain ⟨_, _, parsed⟩ := bind_eq_ok.1 parsed
  obtain ⟨payload, _, parsed⟩ := bind_eq_ok.1 parsed
  have sound := readFields_sound _ _ isRead
  split at parsed
  next =>
    cases parsed
  next =>
    rw [fillPayload_huffman parsed]
    exact sound

end Jxlz.JpegReconstruction
