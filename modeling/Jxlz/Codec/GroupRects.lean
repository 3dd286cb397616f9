import Jxlz.Codec.FrameDimensions
import Jxlz.Lib.GridTiling

namespace Jxlz

open GridTiling

/-!
# Group rectangles

Mirrors `groupRect`, `blockGroupRect` and `dcGroupRect` of
`frame_dimensions.zig` and the clamped rectangles of `rect.zig`.  The groups
tile the frame and the DC groups tile its blocks; the groups tile the blocks
too unless the blocks are padded to more than the side of a group.
-/

namespace FrameDimensions

/-- A region of an image, by its origin and its size. -/
structure Rect where
  x0_ : Nat
  y0_ : Nat
  xsize_ : Nat
  ysize_ : Nat
  deriving Repr, DecidableEq

namespace Rect

def clampedSize
    (start size_max stop : Nat) :
    Checked Nat := do
  let last ← addU 64 start size_max
  if last ≤ stop then
    return size_max
  else if start < stop then
    return stop - start
  else
    return 0

def initClamped
    (xbegin ybegin xs_max ys_max xend yend : Nat) :
    Checked Rect := do
  let xsize_ ← clampedSize xbegin xs_max xend
  let ysize_ ← clampedSize ybegin ys_max yend
  return { x0_ := xbegin, y0_ := ybegin, xsize_, ysize_ }

/-- A place of the image is in the region. -/
def Holds
    (self : Rect)
    (place : Nat × Nat) :
    Prop :=
  (self.x0_ ≤ place.1 ∧ place.1 < self.x0_ + self.xsize_) ∧
    self.y0_ ≤ place.2 ∧ place.2 < self.y0_ + self.ysize_

end Rect

/-- The cell of a grid with a number, clamped to an area. -/
def gridRect
    (columns side xend yend group_index : Nat) :
    Checked Rect := do
  require (columns ≠ 0)
  let gx := group_index % columns
  let gy := group_index / columns
  let xbegin ← mulU 64 gx side
  let ybegin ← mulU 64 gy side
  Rect.initClamped xbegin ybegin side side xend yend

def groupRect
    (self : FrameDimensions)
    (group_index : Nat) :
    Checked Rect :=
  gridRect self.xsize_groups self.grp_dim self.xsize self.ysize group_index

def blockGroupRect
    (self : FrameDimensions)
    (group_index : Nat) :
    Checked Rect :=
  gridRect self.xsize_groups (self.grp_dim >>> 3) self.xsize_blocks
    self.ysize_blocks group_index

def dcGroupRect
    (self : FrameDimensions)
    (group_index : Nat) :
    Checked Rect :=
  gridRect self.xsize_dc_groups self.grp_dim self.xsize_blocks
    self.ysize_blocks group_index

/-- The rectangle with this number exists and holds the place. -/
def RectHolds
    (rect : Nat → Checked Rect)
    (number : Nat)
    (place : Nat × Nat) :
    Prop :=
  ∃ region, rect number = .ok region ∧ region.Holds place

/-- So many rectangles, all of which exist, partition an area. -/
def RectsPartition
    (rect : Nat → Checked Rect)
    (count width height : Nat) :
    Prop :=
  (∀ number, number < count → ∃ region, rect number = .ok region) ∧
    Partitions (· < count) (RectHolds rect)
      (fun place => place.1 < width ∧ place.2 < height)

theorem Rect.clampedSize_ok
    {start size_max stop : Nat}
    (fits : start + size_max < 2 ^ 64) :
    Rect.clampedSize start size_max stop =
      .ok (GridTiling.clampedSize start size_max stop) := by
  rw [Rect.clampedSize, addU_ok fits, ok_bind, GridTiling.clampedSize]
  split
  · rfl
  · split
    · rfl
    · rw [Nat.sub_eq_zero_of_le (by omega)]
      rfl

section Grid

variable {columns rows side xend yend : Nat}

/-- The numbers of a grid have rectangles, which hold what their cells hold. -/
theorem gridRect_ok
    {number : Nat}
    (inGrid : number < columns * rows)
    (positive : 0 < side)
    (fitsX : columns * side < 2 ^ 64)
    (fitsY : rows * side < 2 ^ 64) :
    ∃ region,
      gridRect columns side xend yend number = .ok region ∧
        ∀ place,
          region.Holds place ↔ InCell side columns xend yend number place := by
  have column := column_lt inGrid
  have row := row_lt inGrid
  have lastX : (number % columns + 1) * side ≤ columns * side :=
    Nat.mul_le_mul_right side column
  have lastY : (number / columns + 1) * side ≤ rows * side :=
    Nat.mul_le_mul_right side row
  rw [Nat.succ_mul] at lastX lastY
  refine
    ⟨{ x0_ := number % columns * side
       y0_ := number / columns * side
       xsize_ := GridTiling.clampedSize (number % columns * side) side xend
       ysize_ := GridTiling.clampedSize (number / columns * side) side yend },
      ?_, fun place => ?_⟩
  · rw [gridRect, require_ok (by omega), ok_bind]
    dsimp only
    rw [mulU_ok (by omega), ok_bind, mulU_ok (by omega), ok_bind, Rect.initClamped,
      Rect.clampedSize_ok (by omega), ok_bind, Rect.clampedSize_ok (by omega),
      ok_bind, pure_eq_ok]
  · exact and_congr (clamped_iff positive) (clamped_iff positive)

theorem rectHolds_gridRect
    {number : Nat}
    (inGrid : number < columns * rows)
    (positive : 0 < side)
    (fitsX : columns * side < 2 ^ 64)
    (fitsY : rows * side < 2 ^ 64)
    (place : Nat × Nat) :
    RectHolds (gridRect columns side xend yend) number place ↔
      InCell side columns xend yend number place := by
  obtain ⟨region, isRegion, holds⟩ := gridRect_ok inGrid positive fitsX fitsY
  rw [← holds, RectHolds, isRegion]
  simp

/-- The rectangles of a grid partition an area that the grid reaches the end of. -/
theorem gridRects_partition_iff
    (positive : 0 < side)
    (fitsX : columns * side < 2 ^ 64)
    (fitsY : rows * side < 2 ^ 64) :
    RectsPartition (gridRect columns side xend yend) (columns * rows) xend yend ↔
      Reaches side columns rows xend yend := by
  rw [← grid_partitions_iff positive, RectsPartition]
  rw [Partitions.congr fun _ inGrid =>
    rectHolds_gridRect inGrid positive fitsX fitsY]
  refine and_iff_right fun number inGrid => ?_
  obtain ⟨region, isRegion, _⟩ := gridRect_ok inGrid positive fitsX fitsY
  exact ⟨region, isRegion⟩

end Grid

/-- Ceiling quotients: the cells reach the end, and the last one starts before it. -/
theorem divCeil_spec
    {total side count : Nat}
    (computed : divCeil total side = .ok count) :
    0 < side ∧ total ≤ count * side ∧ count * side < total + side ∧
      total + side < 2 ^ 64 := by
  obtain ⟨positive, isCount⟩ := divCeil_eq_ok computed
  refine ⟨positive, divCeil_covers computed, ?_, ?_⟩
  · have below : count * side ≤ total + side - 1 := by
      rw [isCount]
      exact Nat.div_mul_le_self _ _
    omega
  · unfold divCeil at computed
    obtain ⟨sum, isSum, _⟩ := bind_eq_ok.1 computed
    exact (addU_eq_ok isSum).2

/-- How `set` counts blocks, groups and DC groups. -/
structure Counted
    (dimensions : FrameDimensions)
    (group_size_shift max_hshift max_vshift : Nat) :
    Prop where
  power : dimensions.grp_dim = 2 ^ (7 + group_size_shift)
  blocksX : paddedBlocks dimensions.xsize max_hshift = .ok dimensions.xsize_blocks
  blocksY : paddedBlocks dimensions.ysize max_vshift = .ok dimensions.ysize_blocks
  groupsX :
    divCeil dimensions.xsize dimensions.grp_dim = .ok dimensions.xsize_groups
  groupsY :
    divCeil dimensions.ysize dimensions.grp_dim = .ok dimensions.ysize_groups
  dcGroupsX :
    divCeil dimensions.xsize_blocks dimensions.grp_dim =
      .ok dimensions.xsize_dc_groups
  dcGroupsY :
    divCeil dimensions.ysize_blocks dimensions.grp_dim =
      .ok dimensions.ysize_dc_groups
  groups :
    dimensions.num_groups = dimensions.xsize_groups * dimensions.ysize_groups
  dcGroups :
    dimensions.num_dc_groups =
      dimensions.xsize_dc_groups * dimensions.ysize_dc_groups

theorem counted_of_set
    {xsize_px ysize_px group_size_shift max_hshift max_vshift : Nat}
    {modular_mode : Bool}
    {upsampling : Nat}
    {self : FrameDimensions}
    (computed :
      set xsize_px ysize_px group_size_shift max_hshift max_vshift
        modular_mode upsampling = .ok self) :
    self.Counted group_size_shift max_hshift max_vshift := by
  unfold set at computed
  obtain ⟨shift, isShift, computed⟩ := bind_eq_ok.1 computed
  obtain ⟨dc_group_dim, isDcDim, computed⟩ := bind_eq_ok.1 computed
  obtain ⟨xsize, isX, computed⟩ := bind_eq_ok.1 computed
  obtain ⟨ysize, isY, computed⟩ := bind_eq_ok.1 computed
  obtain ⟨xsize_blocks, isXBlocks, computed⟩ := bind_eq_ok.1 computed
  obtain ⟨ysize_blocks, isYBlocks, computed⟩ := bind_eq_ok.1 computed
  obtain ⟨_, _, computed⟩ := bind_eq_ok.1 computed
  obtain ⟨_, _, computed⟩ := bind_eq_ok.1 computed
  obtain ⟨_, _, computed⟩ := bind_eq_ok.1 computed
  obtain ⟨_, _, computed⟩ := bind_eq_ok.1 computed
  obtain ⟨xsize_groups, isXGroups, computed⟩ := bind_eq_ok.1 computed
  obtain ⟨ysize_groups, isYGroups, computed⟩ := bind_eq_ok.1 computed
  obtain ⟨xsize_dc_groups, isXDc, computed⟩ := bind_eq_ok.1 computed
  obtain ⟨ysize_dc_groups, isYDc, computed⟩ := bind_eq_ok.1 computed
  obtain ⟨num_groups, isNum, computed⟩ := bind_eq_ok.1 computed
  obtain ⟨num_dc_groups, isNumDc, computed⟩ := bind_eq_ok.1 computed
  cases computed
  have kept : 0 < shlU 64 (2 ^ 7) shift :=
    (divCeil_eq_ok isXGroups).1
  rw [(castU_eq_ok isShift).1] at kept isXGroups isYGroups isXDc isYDc
  exact {
    power := by
      rw [(castU_eq_ok isShift).1]
      exact shlU_two_pow kept
    blocksX := isXBlocks
    blocksY := isYBlocks
    groupsX := by
      rw [(castU_eq_ok isShift).1]
      exact isXGroups
    groupsY := by
      rw [(castU_eq_ok isShift).1]
      exact isYGroups
    dcGroupsX := by
      rw [(castU_eq_ok isShift).1]
      exact isXDc
    dcGroupsY := by
      rw [(castU_eq_ok isShift).1]
      exact isYDc
    groups := (mulU_eq_ok isNum).1
    dcGroups := (mulU_eq_ok isNumDc).1 }

section Counted

variable {dimensions : FrameDimensions}
variable {group_size_shift max_hshift max_vshift : Nat}

/-- Padded blocks cover the frame and are a multiple of the subsampling. -/
theorem paddedBlocks_eq
    {size max_shift blocks : Nat}
    (computed : paddedBlocks size max_shift = .ok blocks) :
    ∃ count,
      blocks = count * 2 ^ max_shift ∧
        ∀ cells, size ≤ cells * 2 ^ (3 + max_shift) → count ≤ cells := by
  have covers := paddedBlocks_covers computed
  unfold paddedBlocks at computed
  obtain ⟨shift, isShift, computed⟩ := bind_eq_ok.1 computed
  obtain ⟨count, isCount, computed⟩ := bind_eq_ok.1 computed
  rw [(castU_eq_ok isShift).1] at isCount computed
  obtain ⟨_, _, least, fits⟩ := divCeil_spec isCount
  have positive : 0 < shlU 64 (2 ^ 3) max_shift :=
    (divCeil_eq_ok isCount).1
  have unit : shlU 64 block_dim max_shift = 2 ^ (3 + max_shift) :=
    shlU_two_pow positive
  rw [unit] at least fits
  have split : 2 ^ (3 + max_shift) = 8 * 2 ^ max_shift :=
    Nat.pow_add 2 3 max_shift
  have noLoss : count * 2 ^ max_shift < 2 ^ 64 := by
    rw [split, Nat.mul_left_comm] at least
    rw [split] at fits
    omega
  rw [shlU_eq noLoss] at computed
  cases computed
  refine ⟨count, rfl, fun cells far => ?_⟩
  have step : count * 2 ^ (3 + max_shift) < (cells + 1) * 2 ^ (3 + max_shift) := by
    rw [Nat.succ_mul]
    omega
  exact Nat.lt_succ_iff.1 (Nat.lt_of_mul_lt_mul_right step)

/-- The side of a group in blocks. -/
theorem Counted.blockSide
    (counted : dimensions.Counted group_size_shift max_hshift max_vshift) :
    dimensions.grp_dim >>> 3 = 2 ^ (4 + group_size_shift) ∧
      dimensions.grp_dim = dimensions.grp_dim >>> 3 * 8 := by
  have side : dimensions.grp_dim >>> 3 = 2 ^ (4 + group_size_shift) := by
    rw [counted.power, Nat.shiftRight_eq_div_pow,
      show 7 + group_size_shift = 4 + group_size_shift + 3 by omega,
      Nat.pow_add, Nat.mul_div_cancel _ (by decide)]
  refine ⟨side, ?_⟩
  rw [side, counted.power,
    show 7 + group_size_shift = 4 + group_size_shift + 3 by omega, Nat.pow_add]

/-- Subsampling up to the side of a group pads the blocks within the groups. -/
theorem blocks_le_groups
    {size max_shift blocks groups side : Nat}
    (isBlocks : paddedBlocks size max_shift = .ok blocks)
    (isSide : side = 2 ^ (4 + group_size_shift))
    (reaches : size ≤ groups * (side * 8))
    (fine : max_shift ≤ 4 + group_size_shift) :
    blocks ≤ groups * side := by
  obtain ⟨rest, isRest⟩ := Nat.exists_eq_add_of_le fine
  obtain ⟨count, rfl, least⟩ := paddedBlocks_eq isBlocks
  have cells : count ≤ groups * 2 ^ rest := by
    refine least _ (le_of_le_of_eq reaches ?_)
    rw [isSide, isRest, Nat.pow_add, Nat.pow_add]
    ring
  calc
    count * 2 ^ max_shift ≤ groups * 2 ^ rest * 2 ^ max_shift :=
      Nat.mul_le_mul_right _ cells
    _ = groups * side := by
      rw [isSide, isRest, Nat.pow_add]
      ring

/-- A group that starts inside the frame starts inside its blocks. -/
theorem groupStart_lt_blocks
    {size max_shift blocks groups side group : Nat}
    (isBlocks : paddedBlocks size max_shift = .ok blocks)
    (isGroups : divCeil size (side * 8) = .ok groups)
    (inGroups : group < groups) :
    group * side < blocks := by
  have covers := paddedBlocks_covers isBlocks
  obtain ⟨_, _, least, _⟩ := divCeil_spec isGroups
  have step : (group + 1) * (side * 8) ≤ groups * (side * 8) :=
    Nat.mul_le_mul_right _ inGroups
  rw [Nat.succ_mul] at step
  have start : group * (side * 8) = group * side * 8 :=
    (Nat.mul_assoc group side 8).symm
  rw [block_dim] at covers
  omega

theorem Counted.groupRect_partition
    (counted : dimensions.Counted group_size_shift max_hshift max_vshift) :
    RectsPartition dimensions.groupRect dimensions.num_groups dimensions.xsize
      dimensions.ysize := by
  obtain ⟨positive, farX, leastX, fitsX⟩ := divCeil_spec counted.groupsX
  obtain ⟨_, farY, leastY, fitsY⟩ := divCeil_spec counted.groupsY
  rw [counted.groups]
  exact
    (gridRects_partition_iff positive (by omega) (by omega)).2
      (fun _ _ => ⟨farX, farY⟩)

theorem Counted.dcGroupRect_partition
    (counted : dimensions.Counted group_size_shift max_hshift max_vshift) :
    RectsPartition dimensions.dcGroupRect dimensions.num_dc_groups
      dimensions.xsize_blocks dimensions.ysize_blocks := by
  obtain ⟨positive, farX, leastX, fitsX⟩ := divCeil_spec counted.dcGroupsX
  obtain ⟨_, farY, leastY, fitsY⟩ := divCeil_spec counted.dcGroupsY
  rw [counted.dcGroups]
  exact
    (gridRects_partition_iff positive (by omega) (by omega)).2
      (fun _ _ => ⟨farX, farY⟩)

/-- The sides of all groups, in blocks, are machine numbers. -/
theorem Counted.blockSides_fit
    (counted : dimensions.Counted group_size_shift max_hshift max_vshift) :
    0 < dimensions.grp_dim >>> 3 ∧
      dimensions.xsize_groups * (dimensions.grp_dim >>> 3) < 2 ^ 64 ∧
      dimensions.ysize_groups * (dimensions.grp_dim >>> 3) < 2 ^ 64 := by
  obtain ⟨positive, _, leastX, fitsX⟩ := divCeil_spec counted.groupsX
  obtain ⟨_, _, leastY, fitsY⟩ := divCeil_spec counted.groupsY
  have whole := counted.blockSide.2
  have smaller (groups : Nat) :
      groups * (dimensions.grp_dim >>> 3) ≤ groups * dimensions.grp_dim := by
    refine Nat.mul_le_mul_left groups ?_
    omega
  have smallerX := smaller dimensions.xsize_groups
  have smallerY := smaller dimensions.ysize_groups
  exact ⟨by omega, by omega, by omega⟩

/-- The groups tile the blocks exactly where they reach the padding. -/
theorem Counted.blockGroupRect_partition_iff
    (counted : dimensions.Counted group_size_shift max_hshift max_vshift) :
    RectsPartition dimensions.blockGroupRect dimensions.num_groups
        dimensions.xsize_blocks dimensions.ysize_blocks ↔
      Reaches (dimensions.grp_dim >>> 3) dimensions.xsize_groups
        dimensions.ysize_groups dimensions.xsize_blocks
        dimensions.ysize_blocks := by
  obtain ⟨positive, fitsX, fitsY⟩ := counted.blockSides_fit
  rw [counted.groups]
  exact gridRects_partition_iff positive fitsX fitsY

theorem Counted.reaches_of_fine
    (counted : dimensions.Counted group_size_shift max_hshift max_vshift)
    (fineX : max_hshift ≤ 4 + group_size_shift)
    (fineY : max_vshift ≤ 4 + group_size_shift) :
    Reaches (dimensions.grp_dim >>> 3) dimensions.xsize_groups
      dimensions.ysize_groups dimensions.xsize_blocks
      dimensions.ysize_blocks := by
  obtain ⟨side, whole⟩ := counted.blockSide
  obtain ⟨_, farX, _⟩ := divCeil_spec counted.groupsX
  obtain ⟨_, farY, _⟩ := divCeil_spec counted.groupsY
  rw [whole] at farX farY
  exact fun _ _ =>
    ⟨blocks_le_groups counted.blocksX side farX fineX,
      blocks_le_groups counted.blocksY side farY fineY⟩

/-- The blocks of every group lie in one DC group, and in no other. -/
theorem Counted.exists_unique_dcGroup
    (counted : dimensions.Counted group_size_shift max_hshift max_vshift)
    {group : Nat}
    (inFrame : group < dimensions.num_groups) :
    ∃! dc_group,
      dc_group < dimensions.num_dc_groups ∧
        ∀ place,
          RectHolds dimensions.blockGroupRect group place →
          RectHolds dimensions.dcGroupRect dc_group place := by
  obtain ⟨_, whole⟩ := counted.blockSide
  obtain ⟨positive, fitsX, fitsY⟩ := counted.blockSides_fit
  obtain ⟨dcPositive, farX, leastX, dcFitsX⟩ := divCeil_spec counted.dcGroupsX
  obtain ⟨_, farY, leastY, dcFitsY⟩ := divCeil_spec counted.dcGroupsY
  have groupsX := counted.groupsX
  have groupsY := counted.groupsY
  rw [counted.groups] at inFrame
  rw [whole] at groupsX groupsY
  rw [counted.dcGroups]
  have inBlocks (place : Nat × Nat) :
      RectHolds dimensions.blockGroupRect group place ↔ _ :=
    rectHolds_gridRect inFrame positive fitsX fitsY place
  have inDc (number : Nat)
      (inGrid :
        number < dimensions.xsize_dc_groups * dimensions.ysize_dc_groups)
      (place : Nat × Nat) :
      RectHolds dimensions.dcGroupRect number place ↔ _ :=
    rectHolds_gridRect inGrid dcPositive (by omega) (by omega) place
  -- The first block of the group tells the DC group of all its blocks.
  have first :
      RectHolds dimensions.blockGroupRect group
        (group % dimensions.xsize_groups * (dimensions.grp_dim >>> 3),
          group / dimensions.xsize_groups * (dimensions.grp_dim >>> 3)) := by
    rw [inBlocks]
    exact
      ⟨⟨groupStart_lt_blocks counted.blocksX groupsX (column_lt inFrame),
          Nat.mul_div_cancel _ positive⟩,
        groupStart_lt_blocks counted.blocksY groupsY (row_lt inFrame),
        Nat.mul_div_cancel _ positive⟩
  have coarser (position : Nat) :
      position / dimensions.grp_dim =
        position / (dimensions.grp_dim >>> 3) / 8 := by
    rw [Nat.div_div_eq_div_mul, ← whole]
  have inArea := (inBlocks _).1 first
  have column :
      group % dimensions.xsize_groups / 8 < dimensions.xsize_dc_groups := by
    have place := Nat.lt_of_lt_of_le inArea.1.1 farX
    rwa [← Nat.div_lt_iff_lt_mul dcPositive, coarser,
      Nat.mul_div_cancel _ positive] at place
  have row :
      group / dimensions.xsize_groups / 8 < dimensions.ysize_dc_groups := by
    have place := Nat.lt_of_lt_of_le inArea.2.1 farY
    rwa [← Nat.div_lt_iff_lt_mul dcPositive, coarser,
      Nat.mul_div_cancel _ positive] at place
  obtain ⟨number, ⟨inGrid, isColumn, isRow⟩, only⟩ :=
    exists_unique_cell column row
  refine ⟨number, ⟨inGrid, fun place holds => ?_⟩, ?_⟩
  · obtain ⟨⟨insideX, isX⟩, insideY, isY⟩ := (inBlocks place).1 holds
    refine (inDc number inGrid place).2 ⟨⟨insideX, ?_⟩, insideY, ?_⟩
    · rw [coarser, isX, isColumn]
    · rw [coarser, isY, isRow]
  · rintro other ⟨inGrid', contains⟩
    obtain ⟨⟨_, isX⟩, _, isY⟩ := (inDc other inGrid' _).1 (contains _ first)
    rw [coarser, Nat.mul_div_cancel _ positive] at isX isY
    exact only other ⟨inGrid', isX, isY⟩

end Counted

/--
The groups tile the frame, the DC groups tile its blocks, and the blocks of a
group lie in exactly one DC group.  The groups tile the blocks exactly if they
reach the padding, and they do for a subsampling up to the side of a group.
-/
theorem groups_tile
    {xsize_px ysize_px group_size_shift max_hshift max_vshift : Nat}
    {modular_mode : Bool}
    {upsampling : Nat}
    {dimensions : FrameDimensions}
    (computed :
      set xsize_px ysize_px group_size_shift max_hshift max_vshift
        modular_mode upsampling = .ok dimensions) :
    RectsPartition dimensions.groupRect dimensions.num_groups dimensions.xsize
        dimensions.ysize ∧
      RectsPartition dimensions.dcGroupRect dimensions.num_dc_groups
        dimensions.xsize_blocks dimensions.ysize_blocks ∧
      (∀ group,
        group < dimensions.num_groups →
        ∃! dc_group,
          dc_group < dimensions.num_dc_groups ∧
            ∀ place,
              RectHolds dimensions.blockGroupRect group place →
              RectHolds dimensions.dcGroupRect dc_group place) ∧
      (RectsPartition dimensions.blockGroupRect dimensions.num_groups
          dimensions.xsize_blocks dimensions.ysize_blocks ↔
        Reaches (dimensions.grp_dim >>> 3) dimensions.xsize_groups
          dimensions.ysize_groups dimensions.xsize_blocks
          dimensions.ysize_blocks) ∧
      (max_hshift ≤ 4 + group_size_shift →
        max_vshift ≤ 4 + group_size_shift →
        RectsPartition dimensions.blockGroupRect dimensions.num_groups
          dimensions.xsize_blocks dimensions.ysize_blocks) := by
  have counted := counted_of_set computed
  exact
    ⟨counted.groupRect_partition, counted.dcGroupRect_partition,
      fun _ => counted.exists_unique_dcGroup,
      counted.blockGroupRect_partition_iff,
      fun fineX fineY =>
        counted.blockGroupRect_partition_iff.2
          (counted.reaches_of_fine fineX fineY)⟩

/-- A frame of 300 by 200 pixels with subsampled chroma. -/
theorem groups_tile_subsampled :
    ∃ dimensions,
      set 300 200 1 1 1 false 1 = .ok dimensions ∧
        RectsPartition dimensions.blockGroupRect dimensions.num_groups
          dimensions.xsize_blocks dimensions.ysize_blocks := by
  have computed :
      (set 300 200 1 1 1 false 1).toOption.isSome = true := by
    decide
  cases result : set 300 200 1 1 1 false 1 with
  | error fault =>
      rw [result] at computed
      cases computed
  | ok dimensions =>
      exact
        ⟨dimensions, rfl,
          (groups_tile result).2.2.2.2 (by decide) (by decide)⟩

/-- Subsampling by 32 pads eight pixels to more blocks than one group has. -/
theorem not_blockGroups_tile :
    ∃ dimensions,
      set 8 8 0 5 0 false 1 = .ok dimensions ∧
        ¬ RectsPartition dimensions.blockGroupRect dimensions.num_groups
          dimensions.xsize_blocks dimensions.ysize_blocks := by
  have computed :
      (set 8 8 0 5 0 false 1).map
          (fun d => (d.grp_dim, d.xsize_groups, d.xsize_blocks, d.ysize_blocks)) =
        .ok (128, 1, 32, 1) := by
    decide
  cases result : set 8 8 0 5 0 false 1 with
  | error fault =>
      rw [result] at computed
      cases computed
  | ok dimensions =>
      refine ⟨dimensions, rfl, fun tiles => ?_⟩
      rw [result] at computed
      injection computed with same
      simp only [Prod.mk.injEq] at same
      obtain ⟨grp_dim, groups, columns, rows⟩ := same
      have reaches :=
        (counted_of_set result).blockGroupRect_partition_iff.1 tiles
      rw [grp_dim, groups, columns, rows] at reaches
      have far := (reaches (by decide) (by decide)).1
      exact absurd far (by decide)

end FrameDimensions

end Jxlz
