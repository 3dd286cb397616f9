import Jxlz.Base.Returns
import Jxlz.Icc.PredictICC

namespace Jxlz.Icc

open Container (slice)

/-!
# What the shapes of a profile need

Most shapes check a block against the end of the profile before they touch it.
Four checks come too late: the length of a listed tag is reduced by its keyword
before it is compared with it, a gamut boundary may be of no bytes at all, and
the points of a colour table are counted and multiplied first.
-/

theorem slice_ok
    {items : List UInt8}
    {start stop : Nat}
    (ordered : start ≤ stop)
    (inside : stop ≤ items.length) :
    slice items start stop = .ok ((items.drop start).take (stop - start)) := by
  unfold slice
  rw [if_pos ⟨ordered, inside⟩]

section Bytes

variable {icc : List UInt8}

theorem completes_lane16
    {pos : Nat}
    (inside : pos + 1 < icc.length) :
    Completes (lane16 icc pos) := by
  unfold lane16
  refine (within_index (Nat.lt_of_succ_lt inside)).bind fun high _ => ?_
  refine (within_index inside).bind fun low _ => ?_
  exact within_ok _

/-- A byte is predicted if its three lanes are behind the start. -/
theorem completes_linearPredictValue
    {start i stride width order : Nat}
    (positive : 0 < width)
    (apart : width ≤ stride)
    (far : stride * 3 ≤ start)
    (inside : start + i < icc.length) :
    Completes (linearPredictValue icc start i stride width order) := by
  unfold linearPredictValue
  dsimp only
  refine within_ite.2 ⟨fun one => ?_, fun notOne => ?_⟩
  · refine (within_subU (by omega)).bind fun place1 isPlace1 => ?_
    obtain ⟨place1, _⟩ := subU_eq_ok isPlace1
    refine (within_index (by omega)).bind fun p1 _ => ?_
    refine (within_subU (by omega)).bind fun place2 isPlace2 => ?_
    obtain ⟨place2, _⟩ := subU_eq_ok isPlace2
    refine (within_index (by omega)).bind fun p2 _ => ?_
    refine (within_subU (by omega)).bind fun place3 isPlace3 => ?_
    obtain ⟨place3, _⟩ := subU_eq_ok isPlace3
    refine (within_index (by omega)).bind fun p3 _ => ?_
    exact within_ok _
  · refine within_ite.2 ⟨fun two => ?_, fun notTwo => ?_⟩
    · refine (within_subU (by omega)).bind fun place1 isPlace1 => ?_
      obtain ⟨place1, _⟩ := subU_eq_ok isPlace1
      refine (completes_lane16 (by omega)).bind fun p1 _ => ?_
      refine (within_subU (by omega)).bind fun place2 isPlace2 => ?_
      obtain ⟨place2, _⟩ := subU_eq_ok isPlace2
      refine (completes_lane16 (by omega)).bind fun p2 _ => ?_
      refine (within_subU (by omega)).bind fun place3 isPlace3 => ?_
      obtain ⟨place3, _⟩ := subU_eq_ok isPlace3
      refine (completes_lane16 (by omega)).bind fun p3 _ => ?_
      exact within_ok _
    · refine (within_require (Nat.le_of_lt inside)).bind fun _ _ => ?_
      refine (within_subU (by omega)).bind fun place1 _ => ?_
      refine (within_subU (by omega)).bind fun place2 _ => ?_
      refine (within_subU (by omega)).bind fun place3 _ => ?_
      exact within_ok _

end Bytes

namespace Body

section Steps

variable {icc : List UInt8}
variable {self : Body}

/-- Bytes are inserted by a change of the streams alone. -/
theorem insertTo_ok
    {stop : Nat}
    (ordered : self.insert_start ≤ stop)
    (inside : stop ≤ icc.length) :
    ∃ commands data,
      self.insertTo icc stop = .ok { self with commands, data } := by
  unfold insertTo
  by_cases before : self.insert_start < stop
  · rw [if_pos before, slice_ok ordered inside, ok_bind]
    exact ⟨_, _, rfl⟩
  · rw [if_neg before]
    exact ⟨self.commands, self.data, rfl⟩

theorem shuffled_ok
    {command : UInt8}
    {start num width : Nat}
    (inside : start + num ≤ icc.length) :
    ∃ commands data,
      self.shuffled icc command start num width =
        .ok { self with commands, data } := by
  unfold shuffled
  rw [slice_ok (Nat.le_add_right start num) inside, ok_bind]
  exact ⟨_, _, rfl⟩

theorem predicted_ok
    {start num stride width order : Nat}
    (positive : 0 < width)
    (apart : width ≤ stride)
    (far : stride * 3 ≤ start)
    (inside : start + num ≤ icc.length) :
    ∃ commands data,
      self.predicted icc start num stride width order =
        .ok { self with commands, data } := by
  have residuals :
      Completes
        ((List.range num).mapM
          (fun i => do
            let value ← linearPredictValue icc start i stride width order
            let byte ← index icc (start + i)
            return byte - value)) := by
    refine within_mapM fun i member => ?_
    have within : start + i < icc.length := by
      have small := List.mem_range.1 member
      omega
    have value :=
      @completes_linearPredictValue icc start i stride width order positive
        apart far within
    exact value.bind fun _ _ =>
      (within_index within).bind fun _ _ => within_ok _
  obtain ⟨bytes, areBytes⟩ := residuals.exists_ok
  unfold predicted
  rw [areBytes, ok_bind]
  exact ⟨_, _, rfl⟩

end Steps

/-- A body whose loop goes on at a later place with its streams longer. -/
def Advances
    (icc : List UInt8)
    (self next : Body) :
    Prop :=
  ∃ commands data pos,
    next = { self with commands, data, pos, insert_start := pos } ∧
      self.pos < pos ∧ pos ≤ icc.length

/-- A shape that returns, and is either not there or behind the loop then. -/
def Settles
    (icc : List UInt8)
    (self : Body)
    (shape : Checked (Option Body)) :
    Prop :=
  shape = .ok none ∨ ∃ next, shape = .ok (some next) ∧ self.Advances icc next

/-- A place that the loop can be at. -/
structure Sited
    (icc : List UInt8)
    (body : Body) :
    Prop where
  header : kICCHeaderSize ≤ body.insert_start
  behind : body.insert_start ≤ body.pos
  inside : body.pos ≤ icc.length
  entered : body.current_tag_start ≤ body.pos

theorem Advances.sited
    {icc : List UInt8}
    {self next : Body}
    (advances : self.Advances icc next)
    (sited : self.Sited icc) :
    next.Sited icc := by
  obtain ⟨commands, data, pos, rfl, ahead, inside⟩ := advances
  have header := Nat.le_trans sited.header sited.behind
  have entered := sited.entered
  exact ⟨Nat.le_trans header (Nat.le_of_lt ahead), Nat.le_refl pos, inside,
    Nat.le_trans entered (Nat.le_of_lt ahead)⟩

section Shapes

variable {icc : List UInt8}
variable {options : PredictOptions}
variable {tags : TagList}
variable {self : Body}

theorem mabCurvPredict_settles
    (sited : self.Sited icc) :
    self.Settles icc (self.mabCurvPredict icc options) := by
  have header := sited.header
  have behind := sited.behind
  unfold kICCHeaderSize at header
  unfold mabCurvPredict
  dsimp only
  split
  next shape =>
    have inside := shape.2.2.2.2.2.2.2
    obtain ⟨commands, data, inserted⟩ :=
      @insertTo_ok icc self (self.pos + 12) (by omega) (by omega)
    rw [inserted, ok_bind]
    obtain ⟨commands, data, emitted⟩ :=
      @predicted_ok icc { self with commands, data } (self.pos + 12)
        (decodeUint32 icc (self.pos + 8) * 2) 2 2 1 (by decide) (Nat.le_refl 2)
        (by omega) inside
    rw [emitted, ok_bind]
    exact .inr ⟨_, rfl, _, _, _, rfl, by omega, inside⟩
  next other =>
    exact .inl rfl

theorem xyz_settles
    (sited : self.Sited icc) :
    self.Settles icc (self.xyz icc options) := by
  unfold xyz
  split
  next shape =>
    obtain ⟨_, inside, _⟩ := shape
    obtain ⟨commands, data, inserted⟩ :=
      @insertTo_ok icc self self.pos sited.behind sited.inside
    rw [inserted, ok_bind, slice_ok (by omega) inside, ok_bind]
    exact .inr ⟨_, rfl, _, _, _, rfl, by omega, inside⟩
  next other =>
    exact .inl rfl

theorem typeStarts_settles
    (sited : self.Sited icc) :
    self.Settles icc (self.typeStarts icc options) := by
  unfold typeStarts
  split
  next shape =>
    obtain ⟨_, inside, _⟩ := shape
    split
    next unknown =>
      exact .inl rfl
    next i known =>
      obtain ⟨commands, data, inserted⟩ :=
        @insertTo_ok icc self self.pos sited.behind sited.inside
      rw [inserted, ok_bind]
      exact .inr ⟨_, rfl, _, _, _, rfl, by omega, inside⟩
  next other =>
    exact .inl rfl

/-- A listed tag is at least as long as its keyword. -/
def TagFits
    (icc : List UInt8)
    (tags : TagList)
    (enabled : Bool)
    (keyword : Tag)
    (self : Body) :
    Prop :=
  enabled →
    self.pos + 8 ≤ icc.length →
    decodeKeyword icc self.pos = keyword →
    decodeUint32 icc (self.pos + 4) = 0 →
    ∀ tag_size, tags.tag_sizes.lookup self.pos = some tag_size → 8 ≤ tag_size

variable {fit : Nat → Bool} {emit : Nat → Body → Checked Body}

/-- Such a tag is taken as a whole, or not at all. -/
theorem wholeTag_settles
    {enabled : Bool}
    {keyword : Tag}
    (sited : self.Sited icc)
    (fits : self.TagFits icc tags enabled keyword)
    (emits :
      ∀ num inserted,
        self.pos + 8 + num ≤ icc.length →
        ∃ commands data, emit num inserted = .ok { inserted with commands, data }) :
    self.Settles icc (self.wholeTag icc tags enabled keyword fit emit) := by
  unfold wholeTag
  split
  next shape =>
    obtain ⟨isEnabled, room, isKeyword, zero⟩ := shape
    split
    next absent =>
      exact .inl rfl
    next tag_size isSize =>
      have large := fits isEnabled room isKeyword zero tag_size isSize
      rw [subU_ok large, ok_bind]
      split
      next block =>
        obtain ⟨inside, _⟩ := block
        obtain ⟨commands, data, inserted⟩ :=
          @insertTo_ok icc self self.pos sited.behind sited.inside
        rw [inserted, ok_bind]
        obtain ⟨commands, data, emitted⟩ :=
          emits (tag_size - 8) { self with commands, data } (by omega)
        rw [emitted, ok_bind]
        exact .inr ⟨_, rfl, _, _, _, rfl, by omega, inside⟩
      next other =>
        exact .inl rfl
  next other =>
    exact .inl rfl

/-- A shorter one stops the encoder. -/
theorem wholeTag_traps
    {enabled : Bool}
    {keyword : Tag}
    (short : ¬self.TagFits icc tags enabled keyword) :
    self.wholeTag icc tags enabled keyword fit emit = .error .trap := by
  unfold TagFits at short
  push Not at short
  obtain ⟨isEnabled, room, isKeyword, zero, tag_size, isSize, small⟩ := short
  unfold wholeTag
  rw [if_pos ⟨isEnabled, room, isKeyword, zero⟩, isSize]
  dsimp only
  rw [subU, if_neg (Nat.not_le_of_lt small)]
  rfl

/-- Only the keyword that is there can ask for its length. -/
theorem wholeTag_none
    {enabled : Bool}
    {keyword other : Tag}
    (isOther : decodeKeyword icc self.pos = other)
    (different : other ≠ keyword) :
    self.wholeTag icc tags enabled keyword fit emit = .ok none := by
  unfold wholeTag
  rw [if_neg]
  · rfl
  · rintro ⟨_, _, isKeyword, _⟩
    exact different (isOther.symm.trans isKeyword)

theorem curvPredict_settles
    (sited : self.Sited icc)
    (fits : self.TagFits icc tags options.model_curv_predict kCurvTag) :
    self.Settles icc (self.curvPredict icc options tags) := by
  refine wholeTag_settles sited fits fun num inserted inside => ?_
  have header := sited.header
  have behind := sited.behind
  unfold kICCHeaderSize at header
  exact
    @predicted_ok icc (inserted.typeStart 5) (self.pos + 8) num 2 2 1
      (by decide) (Nat.le_refl 2) (by omega) inside

theorem mlucShuffle_settles
    (sited : self.Sited icc)
    (fits : self.TagFits icc tags options.model_mluc_shuffle kMlucTag) :
    self.Settles icc (self.mlucShuffle icc options tags) := by
  refine wholeTag_settles sited fits fun num inserted inside => ?_
  exact
    @shuffled_ok icc (inserted.typeStart 3) kCommandShuffle2 (self.pos + 8) num
      2 inside

theorem sf32Shuffle_settles
    (sited : self.Sited icc)
    (fits : self.TagFits icc tags options.model_sf32_shuffle kSf32Tag) :
    self.Settles icc (self.sf32Shuffle icc options tags) := by
  refine wholeTag_settles sited fits fun num inserted inside => ?_
  exact
    @shuffled_ok icc (inserted.typeStart 6) kCommandShuffle4 (self.pos + 8) num
      4 inside

/-- The points of a table: the product of a number with some bytes. -/
def points
    (icc : List UInt8)
    (pos stride count : Nat) :
    Nat :=
  stride * (((icc.drop pos).take count).map UInt8.toNat).prod

/-- The points are counted by bytes of the profile and by 64 bits. -/
def PointsCounted
    (icc : List UInt8)
    (pos stride count : Nat) :
    Prop :=
  pos + count ≤ icc.length ∧ ∀ part ≤ count, points icc pos stride part < 2 ^ 64

theorem points_succ
    {pos stride count : Nat}
    (inside : pos + count < icc.length) :
    points icc pos stride (count + 1) =
      points icc pos stride count * (icc.getD (pos + count) 0).toNat := by
  have within : count < (icc.drop pos).length := by
    rw [List.length_drop]
    omega
  have next : icc.getD (pos + count) 0 = (icc.drop pos)[count] := by
    rw [List.getElem_drop, List.getD_eq_getElem _ 0 inside]
  unfold points
  rw [next, List.take_succ_eq_append_getElem within, List.map_append,
    List.prod_append, Nat.mul_assoc]
  simp

theorem pointsCounted_succ
    {pos stride count : Nat} :
    PointsCounted icc pos stride (count + 1) ↔
      PointsCounted icc pos stride count ∧
        pos + count < icc.length ∧
        points icc pos stride (count + 1) < 2 ^ 64 := by
  constructor
  · rintro ⟨inside, small⟩
    exact ⟨⟨by omega, fun part before => small part (by omega)⟩, by omega,
      small (count + 1) (Nat.le_refl _)⟩
  · rintro ⟨⟨_, small⟩, inside, last⟩
    refine ⟨by omega, fun part before => ?_⟩
    rcases Nat.lt_or_eq_of_le before with earlier | rfl
    · exact small part (Nat.le_of_lt_succ earlier)
    · exact last

/-- The loop over the numbers of points along the axes of a table. -/
theorem countPoints
    {pos stride : Nat}
    (inside : pos ≤ icc.length)
    (small : stride < 2 ^ 64)
    (count : Nat) :
    (List.range count).foldlM
        (fun num i => do
          let points ← index icc (pos + i)
          mulU 64 num points.toNat)
        stride =
      if pos + count ≤ icc.length ∧
          ∀ part ≤ count, points icc pos stride part < 2 ^ 64 then
        .ok (points icc pos stride count)
      else
        .error .trap := by
  induction count with
  | zero =>
      have one : points icc pos stride 0 = stride := by
        simp [points]
      rw [if_pos]
      · rw [one]
        rfl
      · refine ⟨inside, fun part none => ?_⟩
        rwa [Nat.le_zero.1 none, one]
  | succ count inductionHypothesis =>
      rw [List.range_succ, List.foldlM_append, inductionHypothesis]
      have next := @pointsCounted_succ icc pos stride count
      unfold PointsCounted at next
      by_cases before :
          pos + count ≤ icc.length ∧
            ∀ part ≤ count, points icc pos stride part < 2 ^ 64
      · rw [if_pos before, ok_bind, List.foldlM_cons]
        by_cases within : pos + count < icc.length
        · rw [index_getD within 0, ok_bind, mulU, ← points_succ within]
          by_cases last : points icc pos stride (count + 1) < 2 ^ 64
          · rw [if_pos last, if_pos (next.2 ⟨before, within, last⟩)]
            rfl
          · rw [if_neg last, if_neg fun all => last (next.1 all).2.2]
            rfl
        · rw [if_neg fun all => within (next.1 all).2.1]
          unfold index
          rw [List.getElem?_eq_none (Nat.le_of_not_lt within)]
          rfl
      · rw [if_neg before, if_neg fun all => before (next.1 all).1]
        rfl

/-- The table that starts here has its points counted. -/
def ClutFits
    (icc : List UInt8)
    (options : PredictOptions)
    (self : Body) :
    Prop :=
  self.isMab →
    options.model_mab_clut_predict →
    self.clut_start = some self.pos →
    self.pos + 16 < icc.length →
    PointsCounted icc self.pos
      ((icc.getD (self.pos + 16) 0).toNat *
        (icc.getD (self.current_tag_start + 9) 0).toNat)
      (icc.getD (self.current_tag_start + 8) 0).toNat

theorem mabClutPredict_eq
    (sited : self.Sited icc)
    (isMab : self.isMab)
    (enabled : options.model_mab_clut_predict)
    (starts : self.clut_start = some self.pos)
    (room : self.pos + 16 < icc.length) :
    ∃ numi numo width : UInt8,
      numi = icc.getD (self.current_tag_start + 8) 0 ∧
        numo = icc.getD (self.current_tag_start + 9) 0 ∧
        width = icc.getD (self.pos + 16) 0 ∧
        self.mabClutPredict icc options =
          (List.range numi.toNat).foldlM
              (fun num i => do
                let points ← index icc (self.pos + i)
                mulU 64 num points.toNat)
              (width.toNat * numo.toNat) >>=
            fun num =>
              if (width = 1 ∨ width = 2) ∧ 64 < num ∧ num < 2 ^ 28 ∧
                  self.pos + num ≤ icc.length ∧
                  width.toNat * numo.toNat * 4 < self.pos then do
                let inserted ← self.insertTo icc self.pos
                let next ←
                  inserted.predicted icc self.pos num
                    (width.toNat * numo.toNat) width.toNat 1
                return some (next.jumpTo (self.pos + num))
              else
                return none := by
  have entered := sited.entered
  refine ⟨_, _, _, rfl, rfl, rfl, ?_⟩
  unfold mabClutPredict
  rw [if_pos ⟨isMab, enabled, starts, room⟩, index_getD (by omega) 0, ok_bind,
    index_getD (by omega) 0, ok_bind, index_getD room 0, ok_bind]

theorem mabClutPredict_settles
    (sited : self.Sited icc)
    (fits : self.ClutFits icc options) :
    self.Settles icc (self.mabClutPredict icc options) := by
  by_cases shape :
      self.isMab ∧ options.model_mab_clut_predict ∧
        self.clut_start = some self.pos ∧ self.pos + 16 < icc.length
  · obtain ⟨isMab, enabled, starts, room⟩ := shape
    obtain ⟨numi, numo, width, isNumi, isNumo, isWidth, unfolded⟩ :=
      mabClutPredict_eq sited isMab enabled starts room
    have counted := fits isMab enabled starts room
    rw [← isNumi, ← isNumo, ← isWidth, PointsCounted] at counted
    have small : width.toNat * numo.toNat < 2 ^ 64 := by
      have product := Nat.mul_lt_mul'' width.toNat_lt numo.toNat_lt
      omega
    rw [unfolded, countPoints sited.inside small, if_pos counted, ok_bind]
    split
    next block =>
      obtain ⟨lane, large, _, inside, far⟩ := block
      have outputs : 0 < numo.toNat := by
        by_contra none
        have isZero : numo.toNat = 0 := by
          omega
        unfold points at large
        rw [isZero, Nat.mul_zero, Nat.zero_mul] at large
        omega
      have positive : 0 < width.toNat := by
        rcases lane with rfl | rfl <;> decide
      obtain ⟨commands, data, inserted⟩ :=
        @insertTo_ok icc self self.pos sited.behind sited.inside
      rw [inserted, ok_bind]
      obtain ⟨commands, data, emitted⟩ :=
        @predicted_ok icc { self with commands, data } self.pos _
          (width.toNat * numo.toNat) width.toNat 1 positive
          (Nat.le_mul_of_pos_right _ outputs) (by omega) inside
      rw [emitted, ok_bind]
      exact .inr ⟨_, rfl, _, _, _, rfl, by omega, inside⟩
    next other =>
      exact .inl rfl
  · unfold mabClutPredict
    rw [if_neg shape]
    exact .inl rfl

theorem mabClutPredict_traps
    (sited : self.Sited icc)
    (uncounted : ¬self.ClutFits icc options) :
    self.mabClutPredict icc options = .error .trap := by
  unfold ClutFits at uncounted
  push Not at uncounted
  obtain ⟨isMab, enabled, starts, room, uncounted⟩ := uncounted
  obtain ⟨numi, numo, width, isNumi, isNumo, isWidth, unfolded⟩ :=
    mabClutPredict_eq sited isMab enabled starts room
  rw [← isNumi, ← isNumo, ← isWidth, PointsCounted] at uncounted
  have small : width.toNat * numo.toNat < 2 ^ 64 := by
    have product := Nat.mul_lt_mul'' width.toNat_lt numo.toNat_lt
    omega
  rw [unfolded, countPoints sited.inside small, if_neg uncounted]
  rfl

/-- A gamut boundary holds more than its keyword. -/
def GbdFits
    (icc : List UInt8)
    (options : PredictOptions)
    (tags : TagList)
    (self : Body) :
    Prop :=
  options.model_gbd_predict →
    decodeKeyword icc (self.pos - 8) = kGbd_Tag →
    decodeUint32 icc (self.pos - 4) = 0 →
    ∀ tag_size,
      tags.tag_sizes.lookup (self.pos - 8) = some tag_size → 8 < tag_size

theorem gbdPredict_settles
    (sited : self.Sited icc)
    (fits : self.GbdFits icc options tags) :
    self.Settles icc (self.gbdPredict icc options tags) := by
  have header := sited.header
  have behind := sited.behind
  unfold kICCHeaderSize at header
  unfold gbdPredict
  split
  next shape =>
    obtain ⟨enabled, _, isKeyword, zero⟩ := shape
    split
    next absent =>
      exact .inl rfl
    next tag_size isSize =>
      have large := fits enabled isKeyword zero tag_size isSize
      rw [subU_ok (Nat.le_of_lt large), ok_bind]
      split
      next block =>
        obtain ⟨inside, _⟩ := block
        have within : self.pos + (tag_size - 8) ≤ icc.length := by
          omega
        obtain ⟨commands, data, inserted⟩ :=
          @insertTo_ok icc self self.pos behind sited.inside
        rw [inserted, ok_bind]
        obtain ⟨commands, data, emitted⟩ :=
          @predicted_ok icc { self with commands, data } self.pos
            (tag_size - 8) 4 4 0 (by decide) (Nat.le_refl 4) (by omega) within
        rw [emitted, ok_bind]
        exact .inr ⟨_, rfl, _, _, _, rfl, by omega, within⟩
      next other =>
        exact .inl rfl
  next other =>
    exact .inl rfl

/-- A gamut boundary of its keyword alone. -/
structure GbdEmpty
    (icc : List UInt8)
    (options : PredictOptions)
    (tags : TagList)
    (body : Body) :
    Prop where
  enabled : options.model_gbd_predict
  keyword : decodeKeyword icc (body.pos - 8) = kGbd_Tag
  zero : decodeUint32 icc (body.pos - 4) = 0
  empty : tags.tag_sizes.lookup (body.pos - 8) = some 8

/-- A shorter one stops the encoder. -/
theorem gbdPredict_traps
    (sited : self.Sited icc)
    (short : ¬self.GbdFits icc options tags) :
    self.gbdPredict icc options tags = .error .trap ∨
      self.GbdEmpty icc options tags := by
  have header := sited.header
  have behind := sited.behind
  unfold kICCHeaderSize at header
  unfold GbdFits at short
  push Not at short
  obtain ⟨enabled, isKeyword, zero, tag_size, isSize, small⟩ := short
  by_cases whole : tag_size = 8
  · subst whole
    exact .inr ⟨enabled, isKeyword, zero, isSize⟩
  · refine .inl ?_
    unfold gbdPredict
    rw [if_pos ⟨enabled, by omega, isKeyword, zero⟩, isSize]
    dsimp only
    rw [subU, if_neg (by omega)]
    rfl

/-- An empty one holds the encoder where it is. -/
theorem gbdPredict_holds
    (sited : self.Sited icc)
    (none : self.GbdEmpty icc options tags) :
    ∃ commands data,
      self.gbdPredict icc options tags =
        .ok (some { self with commands, data, insert_start := self.pos }) := by
  have header := sited.header
  have behind := sited.behind
  have inside := sited.inside
  unfold kICCHeaderSize at header
  unfold gbdPredict
  rw [if_pos ⟨none.enabled, by omega, none.keyword, none.zero⟩, none.empty]
  dsimp only
  rw [subU_ok (Nat.le_refl 8), ok_bind, if_pos ⟨by omega, by omega⟩]
  obtain ⟨commands, data, inserted⟩ :=
    @insertTo_ok icc self self.pos behind inside
  rw [inserted, ok_bind]
  obtain ⟨commands, data, emitted⟩ :=
    @predicted_ok icc { self with commands, data } self.pos 0 4 4 0
      (by decide) (Nat.le_refl 4) (by omega) inside
  rw [emitted, ok_bind]
  exact ⟨_, _, rfl⟩

/-- Whether a curve is there does not depend on the streams. -/
theorem mabCurvPredict_none
    {commands data : List UInt8}
    {insert_start : Nat}
    {clut_start : Option Nat}
    (absent : self.mabCurvPredict icc options = .ok none) :
    { self with commands, data, insert_start, clut_start }.mabCurvPredict icc
        options =
      .ok none := by
  unfold mabCurvPredict at absent ⊢
  dsimp only at absent ⊢
  split at absent
  next shape =>
    obtain ⟨inserted, _, absent⟩ := bind_eq_ok.1 absent
    obtain ⟨emitted, _, absent⟩ := bind_eq_ok.1 absent
    cases absent
  next other =>
    exact if_neg other

/-- Nor does whether a table is there. -/
theorem mabClutPredict_none
    {commands data : List UInt8}
    {insert_start : Nat}
    (absent : self.mabClutPredict icc options = .ok none) :
    { self with commands, data, insert_start }.mabClutPredict icc options =
      .ok none := by
  unfold mabClutPredict at absent ⊢
  split at absent
  next shape =>
    obtain ⟨numi, isNumi, absent⟩ := bind_eq_ok.1 absent
    obtain ⟨numo, isNumo, absent⟩ := bind_eq_ok.1 absent
    obtain ⟨width, isWidth, absent⟩ := bind_eq_ok.1 absent
    obtain ⟨num, isNum, absent⟩ := bind_eq_ok.1 absent
    split at absent
    next block =>
      obtain ⟨inserted, _, absent⟩ := bind_eq_ok.1 absent
      obtain ⟨emitted, _, absent⟩ := bind_eq_ok.1 absent
      cases absent
    next other =>
      refine (if_pos shape).trans ?_
      dsimp only
      rw [isNumi, ok_bind, isNumo, ok_bind, isWidth, ok_bind, isNum, ok_bind,
        if_neg other]
      rfl
  next other =>
    exact if_neg other

end Shapes

end Body

end Jxlz.Icc
