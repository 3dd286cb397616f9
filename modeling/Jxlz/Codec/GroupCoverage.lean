import Jxlz.Codec.GroupExact
import Jxlz.Codec.PassRanges

namespace Jxlz.ModularFrameDecoder

/-!
# Every modular sample belongs to one section

The groups tile the frame with squares whose side is a multiple of every shift,
so the shifted squares tile every channel; the shift ranges tell which kind of
group, and which pass, a channel belongs to.
-/

/-- A section of the frame that may hold modular samples. -/
inductive Section where
  | dcGroup (group_id : Nat)
  | acGroup (group_id pass_id : Nat)
  deriving Repr, DecidableEq

namespace Section

def isDc : Section → Bool
  | .dcGroup _ => true
  | .acGroup _ _ => false

def groupId : Section → Nat
  | .dcGroup group_id => group_id
  | .acGroup group_id _ => group_id

def passId : Section → Nat
  | .dcGroup _ => 0
  | .acGroup _ pass_id => pass_id

/-- The sections that a frame has. -/
def InFrame
    (frame_dim : FrameDimensions)
    (passes : Passes) :
    Section → Prop
  | .dcGroup group_id => group_id < frame_dim.num_dc_groups
  | .acGroup group_id pass_id =>
      group_id < frame_dim.num_groups ∧ pass_id < passes.num_passes

/-- The stream id that a section is decoded with. -/
def streamId
    (frame_dim : FrameDimensions) :
    Section → Checked Nat
  | .dcGroup group_id => (ModularStreamId.modularDC group_id).id frame_dim
  | .acGroup group_id pass_id =>
      (ModularStreamId.modularAC group_id pass_id).id frame_dim

/-- A sample lies in the rectangle of a channel that a section holds. -/
def Holds
    (frame_dim : FrameDimensions)
    (passes : Passes)
    (self : Section)
    (fch : Channel)
    (row column : Nat) :
    Prop :=
  ∃ area range created,
    groupArea frame_dim self.groupId self.isDc = .ok (some area) ∧
      sectionRange passes self.passId self.isDc = .ok range ∧
      groupChannel area range fch = some created ∧
      (area.y0 >>> fch.vshift.toNat ≤ row ∧
      row < area.y0 >>> fch.vshift.toNat + created.h) ∧
      area.x0 >>> fch.hshift.toNat ≤ column ∧
      column < area.x0 >>> fch.hshift.toNat + created.w

end Section

/-- One side of a channel: the frame's side, subsampled and rounded either way. -/
def SampledSide
    (channelSize frameSize : Nat)
    (shift : Int)
    (grp_dim : Nat) :
    Prop :=
  0 ≤ shift ∧ shift ≤ Nat.log2 grp_dim ∧
    (channelSize = (frameSize + 2 ^ shift.toNat - 1) / 2 ^ shift.toNat ∨
      channelSize = frameSize / 2 ^ shift.toNat)

variable {shift : Int}

/-- A position inside a subsampled side is inside the side itself. -/
theorem SampledSide.scaled_lt
    {channelSize frameSize position grp_dim : Nat}
    (side : SampledSide channelSize frameSize shift grp_dim)
    (inside : position < channelSize) :
    position * 2 ^ shift.toNat < frameSize := by
  obtain ⟨_, _, isCeil | isFloor⟩ := side
  · rw [isCeil] at inside
    have rounded :=
      (Nat.le_div_iff_mul_le (Nat.two_pow_pos shift.toNat)).1
        (Nat.succ_le_of_lt inside)
    rw [Nat.succ_mul] at rounded
    have positive := Nat.two_pow_pos shift.toNat
    omega
  · rw [isFloor] at inside
    have rounded :=
      (Nat.le_div_iff_mul_le (Nat.two_pow_pos shift.toNat)).1
        (Nat.succ_le_of_lt inside)
    rw [Nat.succ_mul] at rounded
    have positive := Nat.two_pow_pos shift.toNat
    omega

/-- A group covers the positions whose quotient is the group's number. -/
theorem inExtent_iff
    {full_size position exponent count : Nat}
    (aligned : shift.toNat ≤ exponent)
    (short : exponent < 64)
    (inside : position < full_size) :
    ((count * 2 ^ exponent) >>> shift.toNat ≤ position ∧
        position <
          (count * 2 ^ exponent) >>> shift.toNat +
            groupChannelExtent full_size (count * 2 ^ exponent) (2 ^ exponent)
              shift) ↔
      count = position / 2 ^ (exponent - shift.toNat) := by
  obtain ⟨rest, isRest⟩ := Nat.exists_eq_add_of_le aligned
  have unit : 2 ^ exponent >>> shift.toNat = 2 ^ rest := by
    rw [Nat.shiftRight_eq_div_pow, isRest, Nat.pow_add,
      Nat.mul_div_cancel_left _ (Nat.two_pow_pos _)]
  have start :
      (count * 2 ^ exponent) >>> shift.toNat = count * 2 ^ rest := by
    rw [Nat.shiftRight_eq_div_pow, isRest, Nat.pow_add, Nat.mul_left_comm,
      Nat.mul_div_cancel_left _ (Nat.two_pow_pos _)]
  have extent :
      groupChannelExtent full_size (count * 2 ^ exponent) (2 ^ exponent)
          shift =
        if full_size ≤ count * 2 ^ rest then 0
        else min (2 ^ rest) (full_size - count * 2 ^ rest) := by
    unfold groupChannelExtent
    by_cases zero : shift ≤ 0
    · have noShift : shift.toNat = 0 :=
        Int.toNat_of_nonpos zero
      rw [if_pos zero]
      rw [noShift, Nat.shiftRight_zero] at unit start
      rw [unit]
    · have notLong : ¬ 64 ≤ shift := by
        omega
      rw [if_neg zero, if_neg notLong]
      simp only [start, unit]
  have difference : exponent - shift.toNat = rest := by
    omega
  rw [extent, start, difference]
  have positive := Nat.two_pow_pos rest
  constructor
  · rintro ⟨lower, upper⟩
    have below : position < (count + 1) * 2 ^ rest := by
      rw [Nat.succ_mul]
      split at upper <;> omega
    exact (Nat.div_eq_of_lt_le lower below).symm
  · intro isCount
    have lower : count * 2 ^ rest ≤ position := by
      rw [isCount]
      exact Nat.div_mul_le_self position _
    have below : position < count * 2 ^ rest + 2 ^ rest := by
      have division := Nat.div_add_mod position (2 ^ rest)
      have remainder := Nat.mod_lt position positive
      rw [Nat.mul_comm, ← isCount] at division
      omega
    refine ⟨lower, ?_⟩
    rw [if_neg (by omega)]
    omega

/-- The number of groups in a row of the sections of one kind. -/
def sectionsWidth
    (frame_dim : FrameDimensions)
    (is_dc : Bool) :
    Nat :=
  if is_dc then frame_dim.xsize_dc_groups else frame_dim.xsize_groups

variable {frame_dim : FrameDimensions}

/-- The area of a group inside the frame. -/
theorem groupArea_ok
    (laid : frame_dim.Laid)
    {group_id : Nat}
    {is_dc : Bool}
    {size : Nat}
    (isSize : size = frame_dim.grp_dim * if is_dc then 8 else 1)
    (positive : 0 < sectionsWidth frame_dim is_dc)
    (insideX :
      group_id % sectionsWidth frame_dim is_dc * size < frame_dim.xsize)
    (insideY :
      group_id / sectionsWidth frame_dim is_dc * size < frame_dim.ysize) :
    groupArea frame_dim group_id is_dc =
      .ok (some
        { x0 := group_id % sectionsWidth frame_dim is_dc * size
          y0 := group_id / sectionsWidth frame_dim is_dc * size
          size }) := by
  have fitsX := laid.fitsX
  have fitsY := laid.fitsY
  have fitsSize : (frame_dim.grp_dim * if is_dc then 8 else 1) < 2 ^ 64 := by
    have fits := laid.fitsDcGroup
    cases is_dc with
    | true =>
        exact fits
    | false =>
        simp only [Bool.false_eq_true, if_false]
        omega
  unfold groupArea
  unfold sectionsWidth at positive insideX insideY ⊢
  simp only [mulU_ok fitsSize, ok_bind, ← isSize,
    require_ok (Nat.pos_iff_ne_zero.1 positive),
    mulU_ok (Nat.lt_trans insideX fitsX), mulU_ok (Nat.lt_trans insideY fitsY)]
  rw [if_neg (by omega)]
  rfl

/-- What a group's area says about the group. -/
theorem groupArea_eq_ok
    {group_id : Nat}
    {is_dc : Bool}
    {area : GroupArea}
    (isArea : groupArea frame_dim group_id is_dc = .ok (some area)) :
    let size := frame_dim.grp_dim * if is_dc then 8 else 1
    area =
      { x0 := group_id % sectionsWidth frame_dim is_dc * size
        y0 := group_id / sectionsWidth frame_dim is_dc * size
        size } := by
  unfold groupArea at isArea
  obtain ⟨size, isSize, isArea⟩ := bind_eq_ok.1 isArea
  obtain ⟨_, _, isArea⟩ := bind_eq_ok.1 isArea
  obtain ⟨x0, isX, isArea⟩ := bind_eq_ok.1 isArea
  obtain ⟨y0, isY, isArea⟩ := bind_eq_ok.1 isArea
  have size_eq := (mulU_eq_ok isSize).1
  have x0_eq := (mulU_eq_ok isX).1
  have y0_eq := (mulU_eq_ok isY).1
  by_cases outside : frame_dim.xsize ≤ x0 ∨ frame_dim.ysize ≤ y0
  · simp only [outside, if_true] at isArea
    cases isArea
  · simp only [outside, if_false] at isArea
    cases isArea
    simp only [x0_eq, y0_eq, size_eq, sectionsWidth]

/-- The channels of a frame are subsampled from it. -/
structure Sampled
    (frame_dim : FrameDimensions)
    (fch : Channel) :
    Prop where
  horizontal :
    SampledSide fch.w frame_dim.xsize fch.hshift frame_dim.grp_dim
  vertical :
    SampledSide fch.h frame_dim.ysize fch.vshift frame_dim.grp_dim

/-- The side of a group of a section, as a power of two. -/
def sideExponent
    (exponent : Nat)
    (is_dc : Bool) :
    Nat :=
  exponent + if is_dc then 3 else 0

theorem side_eq
    (exponent : Nat)
    (is_dc : Bool) :
    (2 ^ exponent * if is_dc then 8 else 1) =
      2 ^ sideExponent exponent is_dc := by
  cases is_dc with
  | true =>
      rw [sideExponent, if_pos rfl, if_pos rfl, Nat.pow_add]
  | false =>
      simp [sideExponent]

/-- A group whose rectangle holds a position starts inside the frame. -/
theorem groupStart_lt
    {channelSize frameSize position count exponent grp_dim : Nat}
    (side : SampledSide channelSize frameSize shift grp_dim)
    (inside : position < channelSize)
    (aligned : shift.toNat ≤ exponent)
    (isCount : count = position / 2 ^ (exponent - shift.toNat)) :
    count * 2 ^ exponent < frameSize := by
  have scaled := side.scaled_lt inside
  have lower : count * 2 ^ (exponent - shift.toNat) ≤ position := by
    rw [isCount]
    exact Nat.div_mul_le_self _ _
  calc
    count * 2 ^ exponent =
        count * 2 ^ (exponent - shift.toNat) * 2 ^ shift.toNat := by
      rw [Nat.mul_assoc, ← Nat.pow_add, Nat.sub_add_cancel aligned]
    _ ≤ position * 2 ^ shift.toNat := Nat.mul_le_mul_right _ lower
    _ < frameSize := scaled

variable {passes : Passes}

theorem sectionsWidth_pos
    (laid : frame_dim.Laid)
    {part : Section}
    (inFrame : part.InFrame frame_dim passes) :
    0 < sectionsWidth frame_dim part.isDc := by
  cases part with
  | dcGroup group_id =>
      have positive : 0 < frame_dim.num_dc_groups :=
        Nat.zero_lt_of_lt inFrame
      rw [laid.dcGroups] at positive
      exact Nat.pos_of_mul_pos_right positive
  | acGroup group_id pass_id =>
      have positive : 0 < frame_dim.num_groups :=
        Nat.zero_lt_of_lt inFrame.1
      rw [laid.groups] at positive
      exact Nat.pos_of_mul_pos_right positive

variable {fch : Channel}

/-- A section holds a sample exactly if its range and its group are right. -/
theorem holds_iff
    {exponent row column : Nat}
    (laid : frame_dim.Laid)
    (isPower : frame_dim.grp_dim = 2 ^ exponent)
    (sampled : Sampled frame_dim fch)
    (inHeight : row < fch.h)
    (inWidth : column < fch.w)
    {part : Section}
    (inFrame : part.InFrame frame_dim passes) :
    part.Holds frame_dim passes fch row column ↔
      (∃ range,
        sectionRange passes part.passId part.isDc = .ok range ∧
          range.contains fch.hshift fch.vshift = true) ∧
        part.groupId % sectionsWidth frame_dim part.isDc =
          column / 2 ^ (sideExponent exponent part.isDc - fch.hshift.toNat) ∧
        part.groupId / sectionsWidth frame_dim part.isDc =
          row / 2 ^ (sideExponent exponent part.isDc - fch.vshift.toNat) := by
  have positive := sectionsWidth_pos laid inFrame
  have side := side_eq exponent part.isDc
  rw [← isPower] at side
  have upTo : exponent ≤ sideExponent exponent part.isDc :=
    Nat.le_add_right _ _
  have short : sideExponent exponent part.isDc < 64 := by
    have fits := laid.fitsDcGroup
    rw [isPower] at fits
    have largest : 2 ^ (exponent + 3) < 2 ^ 64 := by
      rw [Nat.pow_add]
      exact fits
    have bound := (Nat.pow_lt_pow_iff_right (by decide)).1 largest
    unfold sideExponent
    split <;> omega
  have log : Nat.log2 frame_dim.grp_dim = exponent := by
    rw [isPower, Nat.log2_two_pow]
  have alignedX : fch.hshift.toNat ≤ sideExponent exponent part.isDc := by
    have bound := sampled.horizontal.2.1
    rw [log] at bound
    omega
  have alignedY : fch.vshift.toNat ≤ sideExponent exponent part.isDc := by
    have bound := sampled.vertical.2.1
    rw [log] at bound
    omega
  constructor
  · rintro ⟨area, range, created, isArea, isRange, isCreated, rows, columns⟩
    have areaIs := groupArea_eq_ok isArea
    obtain ⟨inRange, isChannel, _, _⟩ := groupChannel_eq_some isCreated
    subst areaIs
    subst isChannel
    simp only [side] at rows columns
    exact ⟨⟨range, isRange, inRange⟩,
      (inExtent_iff alignedX short inWidth).1 columns,
      (inExtent_iff alignedY short inHeight).1 rows⟩
  · rintro ⟨⟨range, isRange, inRange⟩, isColumn, isRow⟩
    have columns := (inExtent_iff alignedX short inWidth).2 isColumn
    have rows := (inExtent_iff alignedY short inHeight).2 isRow
    have isArea :=
      groupArea_ok laid side.symm positive
        (groupStart_lt sampled.horizontal inWidth alignedX isColumn)
        (groupStart_lt sampled.vertical inHeight alignedY isRow)
    refine ⟨_, range, _, isArea, isRange, groupChannel_of_pos inRange ?_ ?_,
      rows, columns⟩
    · exact Nat.pos_of_lt_add_right (Nat.lt_of_le_of_lt columns.1 columns.2)
    · exact Nat.pos_of_lt_add_right (Nat.lt_of_le_of_lt rows.1 rows.2)

/-- A place in a grid has one number. -/
theorem exists_unique_number
    {width height x y : Nat}
    (insideX : x < width)
    (insideY : y < height) :
    ∃! number, number < width * height ∧ number % width = x ∧
      number / width = y := by
  refine ⟨width * y + x, ⟨?_, ?_, ?_⟩, ?_⟩
  · calc
      width * y + x < width * (y + 1) := by
        rw [Nat.mul_succ]
        omega
      _ ≤ width * height := Nat.mul_le_mul_left width insideY
  · rw [Nat.mul_add_mod, Nat.mod_eq_of_lt insideX]
  · rw [Nat.mul_add_div (Nat.zero_lt_of_lt insideX),
      Nat.div_eq_of_lt insideX, Nat.add_zero]
  · rintro number ⟨_, isX, isY⟩
    rw [← isX, ← isY, Nat.div_add_mod]

/-- The group of one kind that a sample falls into. -/
theorem exists_unique_group
    {exponent row column : Nat}
    (laid : frame_dim.Laid)
    (isPower : frame_dim.grp_dim = 2 ^ exponent)
    (sampled : Sampled frame_dim fch)
    (inHeight : row < fch.h)
    (inWidth : column < fch.w)
    (is_dc : Bool) :
    ∃! group_id,
      group_id <
          (if is_dc then frame_dim.num_dc_groups else frame_dim.num_groups) ∧
        group_id % sectionsWidth frame_dim is_dc =
          column / 2 ^ (sideExponent exponent is_dc - fch.hshift.toNat) ∧
        group_id / sectionsWidth frame_dim is_dc =
          row / 2 ^ (sideExponent exponent is_dc - fch.vshift.toNat) := by
  have log : Nat.log2 frame_dim.grp_dim = exponent := by
    rw [isPower, Nat.log2_two_pow]
  have upTo : exponent ≤ sideExponent exponent is_dc :=
    Nat.le_add_right _ _
  have alignedX : fch.hshift.toNat ≤ sideExponent exponent is_dc := by
    have bound := sampled.horizontal.2.1
    rw [log] at bound
    omega
  have alignedY : fch.vshift.toNat ≤ sideExponent exponent is_dc := by
    have bound := sampled.vertical.2.1
    rw [log] at bound
    omega
  have startX := groupStart_lt sampled.horizontal inWidth alignedX rfl
  have startY := groupStart_lt sampled.vertical inHeight alignedY rfl
  have side := side_eq exponent is_dc
  cases is_dc with
  | true =>
      rw [Nat.mul_comm, ← isPower] at side
      have insideX :=
        Nat.lt_of_lt_of_le startX (side ▸ laid.dcGroupsX)
      have insideY :=
        Nat.lt_of_lt_of_le startY (side ▸ laid.dcGroupsY)
      simp only [if_true, laid.dcGroups, sectionsWidth]
      exact exists_unique_number (Nat.lt_of_mul_lt_mul_right insideX)
        (Nat.lt_of_mul_lt_mul_right insideY)
  | false =>
      rw [Nat.mul_comm, ← isPower] at side
      simp only [Bool.false_eq_true, if_false, Nat.one_mul] at side
      have insideX :=
        Nat.lt_of_lt_of_le startX (side ▸ laid.groupsX)
      have insideY :=
        Nat.lt_of_lt_of_le startY (side ▸ laid.groupsY)
      simp only [Bool.false_eq_true, if_false, laid.groups, sectionsWidth]
      exact exists_unique_number (Nat.lt_of_mul_lt_mul_right insideX)
        (Nat.lt_of_mul_lt_mul_right insideY)

/-- Every sample of a subsampled channel belongs to exactly one section. -/
theorem exists_unique_section
    {row column : Nat}
    (laid : frame_dim.Laid)
    (valid : passes.Valid)
    (sampled : Sampled frame_dim fch)
    (inHeight : row < fch.h)
    (inWidth : column < fch.w) :
    ∃! part : Section,
      part.InFrame frame_dim passes ∧
        part.Holds frame_dim passes fch row column := by
  obtain ⟨exponent, _, isPower⟩ := laid.power
  have log : Nat.log2 frame_dim.grp_dim = exponent := by
    rw [isPower, Nat.log2_two_pow]
  have holds :
      ∀ part : Section,
        part.InFrame frame_dim passes →
        (part.Holds frame_dim passes fch row column ↔ _) :=
    fun part inFrame =>
      holds_iff laid isPower sampled inHeight inWidth inFrame
  have lower : 0 ≤ min fch.hshift fch.vshift :=
    le_min sampled.horizontal.1 sampled.vertical.1
  have upper : min fch.hshift fch.vshift ≤ 1000 := by
    have bound := sampled.horizontal.2.1
    have fits := laid.fitsDcGroup
    rw [isPower] at fits
    have small : exponent < 64 := by
      refine (Nat.pow_lt_pow_iff_right (by decide : 1 < 2)).1 ?_
      omega
    rw [log] at bound
    omega
  obtain ⟨dcGroup, ⟨dcInside, dcX, dcY⟩, dcUnique⟩ :=
    exists_unique_group laid isPower sampled inHeight inWidth true
  obtain ⟨acGroup, ⟨acInside, acX, acY⟩, acUnique⟩ :=
    exists_unique_group laid isPower sampled inHeight inWidth false
  by_cases small : min fch.hshift fch.vshift < 3
  · obtain ⟨pass, ⟨isPass, inRange⟩, passUnique⟩ :=
      Passes.exists_unique_pass valid lower small
    have inFrame :
        (Section.acGroup acGroup pass).InFrame frame_dim passes :=
      ⟨acInside, isPass⟩
    refine ⟨.acGroup acGroup pass,
      ⟨inFrame, (holds _ inFrame).2 ⟨inRange, acX, acY⟩⟩, ?_⟩
    rintro other ⟨otherInFrame, otherHolds⟩
    obtain ⟨otherRange, otherX, otherY⟩ := (holds other otherInFrame).1 otherHolds
    cases other with
    | dcGroup group_id =>
        obtain ⟨range, isRange, contained⟩ := otherRange
        cases isRange
        simp only [Passes.ShiftRange.contains, Bool.and_eq_true,
          decide_eq_true_eq] at contained
        omega
    | acGroup group_id pass_id =>
        rw [acUnique group_id ⟨otherInFrame.1, otherX, otherY⟩,
          passUnique pass_id ⟨otherInFrame.2, otherRange⟩]
  · have inFrame : (Section.dcGroup dcGroup).InFrame frame_dim passes :=
      dcInside
    have inRange :
        Passes.ShiftRange.contains { min := 3, max := 1000 } fch.hshift
          fch.vshift = true := by
      simp only [Passes.ShiftRange.contains, Bool.and_eq_true,
        decide_eq_true_eq]
      omega
    refine ⟨.dcGroup dcGroup,
      ⟨inFrame, (holds _ inFrame).2 ⟨⟨_, rfl, inRange⟩, dcX, dcY⟩⟩, ?_⟩
    rintro other ⟨otherInFrame, otherHolds⟩
    obtain ⟨otherRange, otherX, otherY⟩ := (holds other otherInFrame).1 otherHolds
    cases other with
    | dcGroup group_id =>
        rw [dcUnique group_id ⟨otherInFrame, otherX, otherY⟩]
    | acGroup group_id pass_id =>
        obtain ⟨range, isRange, contained⟩ := otherRange
        rw [Passes.not_contains_of_three_le valid (Int.not_lt.1 small)
          otherInFrame.2 isRange] at contained
        cases contained

/-- The stream ids of the DC groups follow those of the VarDCT DC groups. -/
theorem streamId_dcGroup
    {group_id id : Nat}
    (isId : (Section.dcGroup group_id).streamId frame_dim = .ok id) :
    id = 1 + frame_dim.num_dc_groups + group_id := by
  obtain ⟨first, isFirst, isId⟩ := bind_eq_ok.1 isId
  rw [(addU_eq_ok isId).1, (addU_eq_ok isFirst).1]
  rfl

/-- The stream ids of the AC groups follow those of the tables, pass by pass. -/
theorem streamId_acGroup
    {group_id pass_id id : Nat}
    (isId : (Section.acGroup group_id pass_id).streamId frame_dim = .ok id) :
    id =
      1 + 3 * frame_dim.num_dc_groups + kNumQuantTables +
        frame_dim.num_groups * pass_id + group_id := by
  obtain ⟨thrice, isThrice, isId⟩ := bind_eq_ok.1 isId
  obtain ⟨first, isFirst, isId⟩ := bind_eq_ok.1 isId
  obtain ⟨tables, isTables, isId⟩ := bind_eq_ok.1 isId
  obtain ⟨earlier, isEarlier, isId⟩ := bind_eq_ok.1 isId
  obtain ⟨passes, isPasses, isId⟩ := bind_eq_ok.1 isId
  rw [(addU_eq_ok isId).1, (addU_eq_ok isPasses).1, (addU_eq_ok isTables).1,
    (addU_eq_ok isFirst).1, (mulU_eq_ok isThrice).1, (mulU_eq_ok isEarlier).1]
  rfl

/-- Different sections have different stream ids. -/
theorem streamId_injective
    {first second : Section}
    {id : Nat}
    (firstInFrame : first.InFrame frame_dim passes)
    (secondInFrame : second.InFrame frame_dim passes)
    (isFirst : first.streamId frame_dim = .ok id)
    (isSecond : second.streamId frame_dim = .ok id) :
    first = second := by
  cases first with
  | dcGroup group =>
      have firstIs := streamId_dcGroup isFirst
      cases second with
      | dcGroup other =>
          have secondIs := streamId_dcGroup isSecond
          have same : group = other := by
            omega
          rw [same]
      | acGroup other pass =>
          have secondIs := streamId_acGroup isSecond
          have inside : group < frame_dim.num_dc_groups :=
            firstInFrame
          omega
  | acGroup group pass =>
      have firstIs := streamId_acGroup isFirst
      have inside : group < frame_dim.num_groups :=
        firstInFrame.1
      cases second with
      | dcGroup other =>
          have secondIs := streamId_dcGroup isSecond
          have otherInside : other < frame_dim.num_dc_groups :=
            secondInFrame
          omega
      | acGroup other otherPass =>
          have secondIs := streamId_acGroup isSecond
          have otherInside : other < frame_dim.num_groups :=
            secondInFrame.1
          have positive := Nat.zero_lt_of_lt inside
          have place :
              frame_dim.num_groups * pass + group =
                frame_dim.num_groups * otherPass + other := by
            omega
          have samePass : pass = otherPass := by
            have quotient :=
              congrArg (fun number => number / frame_dim.num_groups) place
            simpa only [Nat.mul_add_div positive, Nat.div_eq_of_lt inside,
              Nat.div_eq_of_lt otherInside, Nat.add_zero] using quotient
          have sameGroup : group = other := by
            rw [samePass] at place
            omega
          rw [samePass, sameGroup]

/-- A frame of fewer than `2 ^ 58` groups of each kind has all its stream ids. -/
theorem streamId_ok
    (valid : passes.Valid)
    (fewDc : frame_dim.num_dc_groups < 2 ^ 58)
    (few : frame_dim.num_groups < 2 ^ 58)
    {part : Section}
    (inFrame : part.InFrame frame_dim passes) :
    ∃ id, part.streamId frame_dim = .ok id := by
  cases part with
  | dcGroup group =>
      have inside : group < frame_dim.num_dc_groups :=
        inFrame
      unfold Section.streamId ModularStreamId.modularDC ModularStreamId.id
      simp only
      rw [addU_ok (by omega), ok_bind, addU_ok (by omega)]
      exact ⟨_, rfl⟩
  | acGroup group pass =>
      have inside : group < frame_dim.num_groups :=
        inFrame.1
      have isPass : pass < 11 :=
        Nat.lt_of_lt_of_le inFrame.2 valid.fewPasses
      have product : frame_dim.num_groups * pass ≤ frame_dim.num_groups * 11 :=
        Nat.mul_le_mul_left _ (Nat.le_of_lt isPass)
      unfold Section.streamId ModularStreamId.modularAC ModularStreamId.id
        kNumQuantTables
      simp only
      rw [mulU_ok (by omega), ok_bind, addU_ok (by omega), ok_bind,
        addU_ok (by omega), ok_bind, mulU_ok (by omega), ok_bind,
        addU_ok (by omega), ok_bind, addU_ok (by omega)]
      exact ⟨_, rfl⟩

/--
Every sample of a tiled channel belongs to exactly one section of its frame, and
the sections are told apart by their stream ids.
-/
theorem sample_in_unique_section
    {xsize_px ysize_px group_size_shift max_hshift max_vshift upsampling : Nat}
    {br after : BitReader}
    {self : ModularFrameDecoder}
    (laidOut :
      FrameDimensions.set xsize_px ysize_px group_size_shift max_hshift
        max_vshift true upsampling = .ok self.frame_dim)
    (read : Passes.readFromBitStream br = .ok (self.passes, after))
    (sampled :
      ∀ c fch,
        self.full_image.nb_meta_channels ≤ c →
        self.full_image.channels[c]? = some fch →
        Sampled self.frame_dim fch) :
    (∀ c fch row column,
      self.firstLarge ≤ c →
      self.full_image.channels[c]? = some fch →
      row < fch.h →
      column < fch.w →
      ∃! part : Section,
        part.InFrame self.frame_dim self.passes ∧
          part.Holds self.frame_dim self.passes fch row column) ∧
      (∀ first second : Section,
        first.InFrame self.frame_dim self.passes →
        second.InFrame self.frame_dim self.passes →
        ∀ id,
          first.streamId self.frame_dim = .ok id →
          second.streamId self.frame_dim = .ok id →
          first = second) ∧
      (self.frame_dim.num_dc_groups < 2 ^ 58 →
        self.frame_dim.num_groups < 2 ^ 58 →
        ∀ part : Section,
          part.InFrame self.frame_dim self.passes →
          ∃ id, part.streamId self.frame_dim = .ok id) := by
  have laid := FrameDimensions.laid_of_set laidOut
  have valid := Passes.valid_of_readFromBitStream read
  refine ⟨?_, ?_, ?_⟩
  · intro c fch row column large isChannel inHeight inWidth
    have notMeta : self.full_image.nb_meta_channels ≤ c :=
      Nat.le_trans (Nat.le_add_right _ _) large
    exact exists_unique_section laid valid (sampled c fch notMeta isChannel)
      inHeight inWidth
  · intro first second firstInFrame secondInFrame id isFirst isSecond
    exact streamId_injective firstInFrame secondInFrame isFirst isSecond
  · intro fewDc few part inFrame
    exact streamId_ok valid fewDc few inFrame

/-- A reader at the start of a zero byte. -/
def zeroByteReader : BitReader where
  data := [0]
  coherent := BitReader.Coherent.start [0]

/-- A zero byte is the header of a single pass. -/
theorem readFromBitStream_zeroByte :
    ∃ after, Passes.readFromBitStream zeroByteReader = .ok ({}, after) := by
  obtain ⟨after, read, _⟩ :=
    @BitReader.readBits_ok zeroByteReader 2 rfl (by decide)
  have isZero : BitString.valueAt zeroByteReader.source 2 = 0 := by
    decide
  rw [isZero] at read
  refine ⟨after, ?_⟩
  unfold Passes.readFromBitStream U32Coder.read
  rw [read]
  rfl

/-- The last sample of the third channel of the squeezed frame. -/
theorem sample_in_unique_section_squeezedFrame :
    ∃! part : Section,
      part.InFrame squeezedFrame.frame_dim squeezedFrame.passes ∧
        part.Holds squeezedFrame.frame_dim squeezedFrame.passes
          (Channel.create 129 200 0 0) 199 128 := by
  obtain ⟨after, read⟩ := readFromBitStream_zeroByte
  have laidOut :
      FrameDimensions.set 129 200 0 0 0 true 1 =
        .ok squeezedFrame.frame_dim := by
    decide
  refine
    (sample_in_unique_section laidOut read ?_).1 2 _ 199 128 (by decide) rfl
      (by decide) (by decide)
  intro c fch _ isChannel
  match c with
  | 0 =>
      cases isChannel
      exact ⟨⟨by decide, by decide, by decide⟩,
        ⟨by decide, by decide, by decide⟩⟩
  | 1 =>
      cases isChannel
      exact ⟨⟨by decide, by decide, by decide⟩,
        ⟨by decide, by decide, by decide⟩⟩
  | 2 =>
      cases isChannel
      exact ⟨⟨by decide, by decide, by decide⟩,
        ⟨by decide, by decide, by decide⟩⟩
  | c + 3 =>
      cases isChannel

end Jxlz.ModularFrameDecoder
