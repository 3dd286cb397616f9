import Jxlz.Codec.FieldCoders
import Jxlz.Modular.Transform

namespace Jxlz

/-!
# Transform headers

Mirrors the writers of a single transform in `enc_encoding.zig` and
`Transform.readFromBitStream` of `transform.zig`.  A writer either refuses its
transform or writes bits that are read back as the transform.
-/

/-- The steps return an error, wherever the writer stands. -/
def Refuses
    (write : BitWriter → Checked BitWriter) :
    Prop :=
  ∀ writer, write writer = fail .GenericError

/-- Either an error, or bits that are read back as the value. -/
def WritesBack
    {α : Type}
    (write : BitWriter → Checked BitWriter)
    (read : BitReader → Checked (α × BitReader))
    (value : α) :
    Prop :=
  Refuses write ∨ RoundTrips write read value

namespace Refuses

theorem first
    {first : BitWriter → Checked BitWriter}
    (refuses : Refuses first)
    (second : BitWriter → Checked BitWriter) :
    Refuses (fun writer => first writer >>= second) := by
  intro writer
  dsimp only
  rw [refuses writer]
  rfl

theorem second
    {first second : BitWriter → Checked BitWriter}
    {bits : List Bool}
    (writes : Writes first bits)
    (refuses : Refuses second) :
    Refuses (fun writer => first writer >>= second) := by
  intro writer
  obtain ⟨written, wrote, _⟩ := writes writer
  dsimp only
  rw [wrote, ok_bind, refuses written]

end Refuses

namespace WritesBack

variable {α β : Type}
variable {write write' : BitWriter → Checked BitWriter}
variable {read : BitReader → Checked (α × BitReader)}
variable {value : α}
variable {result : β}

theorem nothing
    (value : α) :
    WritesBack (fun writer => .ok writer) (fun reader => .ok (value, reader))
      value :=
  .inr (RoundTrips.nothing value)

theorem patch
    {nbits number : Nat}
    (short : nbits ≤ BitReader.kMaxBitsPerCall)
    (fits : number < 2 ^ nbits) :
    WritesBack (fun writer => writer.write nbits number)
      (fun reader => reader.readBits nbits) number :=
  .inr (RoundTrips.patch short fits)

/-- A refused field makes the whole refused. -/
theorem bind
    {read' : α × BitReader → Checked (β × BitReader)}
    (first : WritesBack write read value)
    (second : WritesBack write' (fun reader => read' (value, reader)) result) :
    WritesBack (fun writer => write writer >>= write')
      (fun reader => read reader >>= read') result := by
  rcases first with refuses | trips
  · exact .inl (refuses.first write')
  rcases second with refuses | trips'
  · obtain ⟨bits, writes, _⟩ := trips
    exact .inl (Refuses.second writes refuses)
  · exact .inr (trips.bind trips')

theorem last
    {finish : α × BitReader → Checked (β × BitReader)}
    (first : WritesBack write read value)
    (finishes : ∀ reader, finish (value, reader) = .ok (result, reader)) :
    WritesBack write (fun reader => read reader >>= finish) result := by
  rcases first with refuses | trips
  · exact .inl refuses
  · exact .inr (trips.last finishes)

/-- A field of 32 bits, whatever its distributions. -/
theorem field
    (enc : U32Enc)
    {number : Nat}
    (inRange : number < 2 ^ 32) :
    WritesBack (U32Coder.write enc number) (U32Coder.read enc) number := by
  by_cases represented :
      ∃ selector, selector < 4 ∧ (enc.getDistr selector).Represents number
  · obtain ⟨selector, extra, _, _, _, form⟩ :=
      U32Coder.write_shortest inRange represented
    exact .inr ⟨_, form.writes, form.reads⟩
  · refine .inl fun writer => (U32Coder.write_fails_iff inRange writer).2 ?_
    intro selector small represents
    exact represented ⟨selector, small, represents⟩

/-- A flag in one bit. -/
theorem flag
    (isSet : Bool) :
    WritesBack (fun writer => writer.write 1 isSet.toNat)
      (fun reader => reader.readBits 1) isSet.toNat :=
  patch (by decide) (Bool.toNat_lt isSet)

end WritesBack

end Jxlz

namespace Jxlz.Modular

/-- The distributions of a begin channel. -/
def bc_enc : U32Enc :=
  { d0 := bits 3, d1 := bitsOffset 6 8, d2 := bitsOffset 10 72,
    d3 := bitsOffset 13 1096 }

/-- The distributions of an RCT type. -/
def rt_enc : U32Enc :=
  { d0 := val 6, d1 := bits 2, d2 := bitsOffset 4 2, d3 := bitsOffset 6 10 }

namespace SqueezeParams

def nc_enc : U32Enc :=
  { d0 := val 1, d1 := val 2, d2 := val 3, d3 := bitsOffset 4 4 }

def readFromBitStream
    (br : BitReader) :
    Checked (SqueezeParams × BitReader) := do
  let (horizontal, br) ← br.readBits 1
  let (in_place, br) ← br.readBits 1
  let (begin_c, br) ← U32Coder.read bc_enc br
  let (num_c, br) ← U32Coder.read nc_enc br
  return ({ horizontal := horizontal != 0, in_place := in_place != 0,
            begin_c, num_c }, br)

/-- The loop over the parameters of a squeeze. -/
def readMany :
    Nat → BitReader → Checked (List SqueezeParams × BitReader)
  | 0, br => .ok ([], br)
  | count + 1, br => do
      let (first, br) ← readFromBitStream br
      let (rest, br) ← readMany count br
      return (first :: rest, br)

end SqueezeParams

namespace Transform

/-- `std.enums.fromInt(TransformId, id_sel)`. -/
def idOf : Nat → Option TransformId
  | 0 => some .rct
  | 1 => some .palette
  | 2 => some .squeeze
  | 3 => some .invalid
  | _ => none

/-- The distributions of the number of channels under a palette. -/
def nc_enc : U32Enc :=
  { d0 := val 1, d1 := val 3, d2 := val 4, d3 := bitsOffset 13 1 }

/-- The distributions of the number of colours. -/
def nbc_enc : U32Enc :=
  { d0 := bitsOffset 8 0, d1 := bitsOffset 10 256, d2 := bitsOffset 12 1280,
    d3 := bitsOffset 16 5376 }

/-- The distributions of the number of deltas. -/
def nbd_enc : U32Enc :=
  { d0 := val 0, d1 := bitsOffset 8 1, d2 := bitsOffset 10 257,
    d3 := bitsOffset 16 1281 }

/-- The distributions of the number of squeeze parameters. -/
def ns_enc : U32Enc :=
  { d0 := val 0, d1 := bitsOffset 4 1, d2 := bitsOffset 6 9,
    d3 := bitsOffset 8 41 }

def readRct
    (br : BitReader) :
    Checked (Transform × BitReader) := do
  let (begin_c, br) ← U32Coder.read bc_enc br
  let (rct_type, br) ← U32Coder.read rt_enc br
  if 42 ≤ rct_type then
    fail .GenericError
  else
    return ({ id := .rct, begin_c, rct_type }, br)

def readPalette
    (br : BitReader) :
    Checked (Transform × BitReader) := do
  let (begin_c, br) ← U32Coder.read bc_enc br
  let (num_c, br) ← U32Coder.read nc_enc br
  let (nb_colors, br) ← U32Coder.read nbc_enc br
  let (nb_deltas, br) ← U32Coder.read nbd_enc br
  let (pred_val, br) ← br.readBits 4
  match Predictor.ofTag pred_val with
  | none => fail .GenericError
  | some predictor =>
      if Predictor.best.tag ≤ predictor.tag then
        fail .GenericError
      else
        return ({ id := .palette, begin_c, num_c, nb_colors, nb_deltas,
                  predictor }, br)

def readSqueeze
    (br : BitReader) :
    Checked (Transform × BitReader) := do
  let (num_squeezes, br) ← U32Coder.read ns_enc br
  let (squeezes, br) ← SqueezeParams.readMany num_squeezes br
  return ({ id := .squeeze, squeezes }, br)

/-- The fields that each kind of transform has; the others keep their defaults. -/
def readFromBitStream
    (br : BitReader) :
    Checked (Transform × BitReader) := do
  let (id_sel, br) ← br.readBits 2
  match idOf id_sel with
  | some .rct => readRct br
  | some .palette => readPalette br
  | some .squeeze => readSqueeze br
  | _ => fail .GenericError

end Transform

def writeSingleRCTTransform
    (begin_c rct_type : Nat)
    (writer : BitWriter) :
    Checked BitWriter := do
  if 42 ≤ rct_type then
    fail .GenericError
  else do
    let writer ← writer.write 2 0
    let writer ← U32Coder.write bc_enc begin_c writer
    U32Coder.write rt_enc rct_type writer

def writeSingleSqueezeParam
    (writer : BitWriter)
    (param : SqueezeParams) :
    Checked BitWriter := do
  if param.num_c = 0 then
    fail .GenericError
  else do
    let writer ← writer.write 1 param.horizontal.toNat
    let writer ← writer.write 1 param.in_place.toNat
    let writer ← U32Coder.write bc_enc param.begin_c writer
    U32Coder.write SqueezeParams.nc_enc param.num_c writer

def writeSingleSqueezeTransform
    (squeezes : List SqueezeParams)
    (writer : BitWriter) :
    Checked BitWriter := do
  if squeezes.length = 0 then
    fail .GenericError
  else do
    let writer ← writer.write 2 2
    let length ← castU 32 squeezes.length
    let writer ← U32Coder.write Transform.ns_enc length writer
    squeezes.foldlM writeSingleSqueezeParam writer

def writeSinglePaletteTransform
    (palette : Transform)
    (writer : BitWriter) :
    Checked BitWriter := do
  if palette.id ≠ .palette then
    fail .GenericError
  else if palette.num_c = 0 then
    fail .GenericError
  else if Predictor.best.tag ≤ palette.predictor.tag then
    fail .GenericError
  else do
    let writer ← writer.write 2 1
    let writer ← U32Coder.write bc_enc palette.begin_c writer
    let writer ← U32Coder.write Transform.nc_enc palette.num_c writer
    let writer ← U32Coder.write Transform.nbc_enc palette.nb_colors writer
    let writer ← U32Coder.write Transform.nbd_enc palette.nb_deltas writer
    writer.write 4 palette.predictor.tag

/-- The parameters of a squeeze step are those of the source's type. -/
def SqueezeParams.InRange
    (self : SqueezeParams) :
    Prop :=
  self.begin_c < 2 ^ 32 ∧ self.num_c < 2 ^ 32

/-- The numbers of a transform are those of the source's type. -/
structure Transform.InRange
    (transform : Transform) :
    Prop where
  begin_c : transform.begin_c < 2 ^ 32
  rct_type : transform.rct_type < 2 ^ 32
  num_c : transform.num_c < 2 ^ 32
  nb_colors : transform.nb_colors < 2 ^ 32
  nb_deltas : transform.nb_deltas < 2 ^ 32

theorem writeSingleRCTTransform_writesBack
    {begin_c rct_type : Nat}
    (beginInRange : begin_c < 2 ^ 32)
    (typeInRange : rct_type < 2 ^ 32) :
    WritesBack (writeSingleRCTTransform begin_c rct_type)
      Transform.readFromBitStream { id := .rct, begin_c, rct_type } := by
  by_cases unknown : 42 ≤ rct_type
  · refine .inl fun writer => ?_
    rw [writeSingleRCTTransform, if_pos unknown]
  · have shape :
        writeSingleRCTTransform begin_c rct_type = fun writer =>
          writer.write 2 0 >>= fun writer =>
            U32Coder.write bc_enc begin_c writer >>= fun writer =>
              U32Coder.write rt_enc rct_type writer := by
      funext writer
      rw [writeSingleRCTTransform, if_neg unknown]
    have kind :
        WritesBack (fun writer => writer.write 2 0)
          (fun reader => reader.readBits 2) 0 :=
      WritesBack.patch (by decide) (by decide)
    rw [shape]
    refine kind.bind ?_
    refine (WritesBack.field bc_enc beginInRange).bind ?_
    refine (WritesBack.field rt_enc typeInRange).last ?_
    intro reader
    simp only [unknown, if_false, pure_eq_ok]

theorem writeSingleSqueezeParam_writesBack
    {param : SqueezeParams}
    (inRange : param.InRange) :
    WritesBack (fun writer => writeSingleSqueezeParam writer param)
      SqueezeParams.readFromBitStream param := by
  by_cases none : param.num_c = 0
  · refine .inl fun writer => ?_
    dsimp only
    rw [writeSingleSqueezeParam, if_pos none]
  · have shape :
        (fun writer => writeSingleSqueezeParam writer param) = fun writer =>
          writer.write 1 param.horizontal.toNat >>= fun writer =>
            writer.write 1 param.in_place.toNat >>= fun writer =>
              U32Coder.write bc_enc param.begin_c writer >>= fun writer =>
                U32Coder.write SqueezeParams.nc_enc param.num_c writer := by
      funext writer
      rw [writeSingleSqueezeParam, if_neg none]
    rw [shape]
    refine (WritesBack.flag param.horizontal).bind ?_
    refine (WritesBack.flag param.in_place).bind ?_
    refine (WritesBack.field bc_enc inRange.1).bind ?_
    refine (WritesBack.field SqueezeParams.nc_enc inRange.2).last ?_
    intro reader
    rcases param with ⟨horizontal, in_place, begin_c, num_c⟩
    cases horizontal <;> cases in_place <;> rfl

/-- The parameters are read back in order, as many as were written. -/
theorem writeSqueezes_writesBack
    {squeezes : List SqueezeParams}
    (inRange : ∀ param ∈ squeezes, param.InRange) :
    WritesBack (fun writer => squeezes.foldlM writeSingleSqueezeParam writer)
      (SqueezeParams.readMany squeezes.length) squeezes := by
  induction squeezes with
  | nil =>
      exact WritesBack.nothing []
  | cons param rest inductionHypothesis =>
      have first :=
        writeSingleSqueezeParam_writesBack (inRange param List.mem_cons_self)
      have others :=
        inductionHypothesis
          (fun later member => inRange later (List.mem_cons_of_mem _ member))
      simp only [List.foldlM_cons]
      exact first.bind (others.last (fun reader => rfl))

theorem writeSingleSqueezeTransform_writesBack
    {squeezes : List SqueezeParams}
    (inRange : ∀ param ∈ squeezes, param.InRange)
    (short : squeezes.length < 2 ^ 32) :
    WritesBack (writeSingleSqueezeTransform squeezes)
      Transform.readFromBitStream { id := .squeeze, squeezes } := by
  by_cases empty : squeezes.length = 0
  · refine .inl fun writer => ?_
    rw [writeSingleSqueezeTransform, if_pos empty]
  · have shape :
        writeSingleSqueezeTransform squeezes = fun writer =>
          writer.write 2 2 >>= fun writer =>
            U32Coder.write Transform.ns_enc squeezes.length writer >>=
              fun writer => squeezes.foldlM writeSingleSqueezeParam writer := by
      funext writer
      simp only [writeSingleSqueezeTransform, empty, if_false, castU_ok short,
        ok_bind]
    have kind :
        WritesBack (fun writer => writer.write 2 2)
          (fun reader => reader.readBits 2) 2 :=
      WritesBack.patch (by decide) (by decide)
    rw [shape]
    refine kind.bind ?_
    refine (WritesBack.field Transform.ns_enc short).bind ?_
    exact (writeSqueezes_writesBack inRange).last (fun reader => rfl)

/-- A list too long for its count stops at the cast. -/
theorem writeSingleSqueezeTransform_stops
    {squeezes : List SqueezeParams}
    (long : 2 ^ 32 ≤ squeezes.length)
    (writer : BitWriter) :
    writeSingleSqueezeTransform squeezes writer = .error .trap := by
  have some : squeezes.length ≠ 0 := by
    omega
  have outside : castU 32 squeezes.length = .error .trap :=
    if_neg (by omega)
  obtain ⟨written, wrote, _⟩ :=
    writer.write_ok 2 (show 2 ≤ BitWriter.kMaxBitsPerCall by decide)
  simp only [writeSingleSqueezeTransform, some, if_false, wrote, ok_bind,
    outside, error_bind]

theorem writeSinglePaletteTransform_writesBack
    {palette : Transform}
    (inRange : palette.InRange) :
    WritesBack (writeSinglePaletteTransform palette)
      Transform.readFromBitStream
      { palette with rct_type := 6, squeezes := [] } := by
  by_cases kind : palette.id ≠ .palette
  · refine .inl fun writer => ?_
    rw [writeSinglePaletteTransform, if_pos kind]
  by_cases none : palette.num_c = 0
  · refine .inl fun writer => ?_
    rw [writeSinglePaletteTransform, if_neg kind, if_pos none]
  by_cases encoderOnly : Predictor.best.tag ≤ palette.predictor.tag
  · refine .inl fun writer => ?_
    rw [writeSinglePaletteTransform, if_neg kind, if_neg none,
      if_pos encoderOnly]
  · have shape :
        writeSinglePaletteTransform palette = fun writer =>
          writer.write 2 1 >>= fun writer =>
            U32Coder.write bc_enc palette.begin_c writer >>= fun writer =>
              U32Coder.write Transform.nc_enc palette.num_c writer >>=
                fun writer =>
                  U32Coder.write Transform.nbc_enc palette.nb_colors writer >>=
                    fun writer =>
                      U32Coder.write Transform.nbd_enc palette.nb_deltas
                          writer >>=
                        fun writer => writer.write 4 palette.predictor.tag := by
      funext writer
      rw [writeSinglePaletteTransform, if_neg kind, if_neg none,
        if_neg encoderOnly]
    have kind' :
        WritesBack (fun writer => writer.write 2 1)
          (fun reader => reader.readBits 2) 1 :=
      WritesBack.patch (by decide) (by decide)
    have predictor :
        WritesBack (fun writer => writer.write 4 palette.predictor.tag)
          (fun reader => reader.readBits 4) palette.predictor.tag :=
      WritesBack.patch (by decide) (by cases palette.predictor <;> decide)
    rw [shape]
    refine kind'.bind ?_
    refine (WritesBack.field bc_enc inRange.begin_c).bind ?_
    refine (WritesBack.field Transform.nc_enc inRange.num_c).bind ?_
    refine (WritesBack.field Transform.nbc_enc inRange.nb_colors).bind ?_
    refine (WritesBack.field Transform.nbd_enc inRange.nb_deltas).bind ?_
    refine predictor.last ?_
    intro reader
    simp only [Predictor.ofTag_tag, encoderOnly, if_false, pure_eq_ok,
      ← not_not.1 kind]

/--
Each writer either returns an error or writes bits that are read back as the
same transform; a list of squeeze parameters whose length does not fit 32 bits
stops it instead.
-/
theorem transformHeader_writesBack :
    (∀ begin_c rct_type,
      begin_c < 2 ^ 32 → rct_type < 2 ^ 32 →
      WritesBack (writeSingleRCTTransform begin_c rct_type)
        Transform.readFromBitStream { id := .rct, begin_c, rct_type }) ∧
      (∀ squeezes : List SqueezeParams,
        (∀ param ∈ squeezes, param.InRange) →
        (squeezes.length < 2 ^ 32 →
        WritesBack (writeSingleSqueezeTransform squeezes)
          Transform.readFromBitStream { id := .squeeze, squeezes }) ∧
      (2 ^ 32 ≤ squeezes.length →
        ∀ writer,
          writeSingleSqueezeTransform squeezes writer = .error .trap)) ∧
      ∀ palette : Transform,
        palette.InRange →
        WritesBack (writeSinglePaletteTransform palette)
          Transform.readFromBitStream
          { palette with rct_type := 6, squeezes := [] } :=
  ⟨fun _ _ => writeSingleRCTTransform_writesBack,
    fun _ inRange =>
      ⟨writeSingleSqueezeTransform_writesBack inRange,
        fun long => writeSingleSqueezeTransform_stops long⟩,
    fun _ => writeSinglePaletteTransform_writesBack⟩

/-- One transform of each kind that is written. -/
theorem transformHeader_writesBack_each :
    WritesBack (writeSingleRCTTransform 9287 41)
        Transform.readFromBitStream
        { id := .rct, begin_c := 9287, rct_type := 41 } ∧
      WritesBack
        (writeSingleSqueezeTransform [{ horizontal := true, num_c := 19 }])
        Transform.readFromBitStream
        { id := .squeeze, squeezes := [{ horizontal := true, num_c := 19 }] } ∧
      WritesBack
        (writeSinglePaletteTransform { id := .palette, nb_colors := 70911 })
        Transform.readFromBitStream { id := .palette, nb_colors := 70911 } := by
  obtain ⟨rct, squeeze, palette⟩ := transformHeader_writesBack
  refine ⟨rct 9287 41 (by decide) (by decide), (squeeze _ ?_).1 (by decide),
    palette { id := .palette, nb_colors := 70911 }
      ⟨by decide, by decide, by decide, by decide, by decide⟩⟩
  intro param member
  rw [List.mem_singleton.1 member]
  exact ⟨by decide, by decide⟩

/-- A list of `2 ^ 32` squeeze parameters is neither refused nor read back. -/
theorem not_writesBack_long :
    ¬ WritesBack
      (writeSingleSqueezeTransform (List.replicate (2 ^ 32) {}))
      Transform.readFromBitStream
      { id := .squeeze, squeezes := List.replicate (2 ^ 32) {} } := by
  have long :
      2 ^ 32 ≤ (List.replicate (2 ^ 32) ({} : SqueezeParams)).length := by
    rw [List.length_replicate]
  have stops := writeSingleSqueezeTransform_stops long BitWriter.init
  rintro (refuses | ⟨bits, writes, _⟩)
  · have refused := refuses BitWriter.init
    rw [stops] at refused
    cases refused
  · obtain ⟨written, wrote, _⟩ := writes BitWriter.init
    rw [stops] at wrote
    cases wrote

end Jxlz.Modular
