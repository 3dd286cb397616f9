import Mathlib

namespace GridTiling

/-!
# A grid of clamped cells

Cells of one side, numbered row by row and cut off at the borders of an area,
partition the area exactly when the grid reaches its far borders.  Nothing here
depends on what the cells are cells of.
-/

/-- The members hold places of the area only, and each place in just one of them. -/
def Partitions
    {ι α : Type*}
    (member : ι → Prop)
    (holds : ι → α → Prop)
    (area : α → Prop) :
    Prop :=
  (∀ index, member index → ∀ place, holds index place → area place) ∧
    ∀ place, area place → ∃! index, member index ∧ holds index place

theorem Partitions.congr
    {ι α : Type*}
    {member : ι → Prop}
    {holds holds' : ι → α → Prop}
    {area : α → Prop}
    (same : ∀ index, member index → ∀ place, holds index place ↔ holds' index place) :
    Partitions member holds area ↔ Partitions member holds' area := by
  have inMember (index : ι) (place : α) :
      (member index ∧ holds index place) ↔ (member index ∧ holds' index place) :=
    and_congr_right fun isMember => same index isMember place
  refine and_congr ?_ ?_
  · exact
      forall_congr' fun index =>
        imp_congr_right fun isMember =>
          forall_congr' fun place => imp_congr_left (same index isMember place)
  · exact
      forall_congr' fun place =>
        imp_congr_right fun _ =>
          existsUnique_congr fun index => inMember index place

/-- The size of a cell that is cut off at the end of its line. -/
def clampedSize
    (start size total : Nat) :
    Nat :=
  if start + size ≤ total then size else total - start

/-- A clamped cell holds the places of the line whose quotient is its number. -/
theorem clamped_iff
    {side total count place : Nat}
    (positive : 0 < side) :
    (count * side ≤ place ∧
        place < count * side + clampedSize (count * side) side total) ↔
      place < total ∧ place / side = count := by
  rw [Nat.div_eq_iff positive, clampedSize]
  split <;> omega

variable {side columns rows width height : Nat}

/-- The cell of a place is the one at its quotients. -/
def InCell
    (side columns width height number : Nat)
    (place : Nat × Nat) :
    Prop :=
  (place.1 < width ∧ place.1 / side = number % columns) ∧
    place.2 < height ∧ place.2 / side = number / columns

/-- The grid reaches the far borders of an area that has any places. -/
def Reaches
    (side columns rows width height : Nat) :
    Prop :=
  0 < width → 0 < height → width ≤ columns * side ∧ height ≤ rows * side

theorem exists_unique_cell
    {x y : Nat}
    (insideX : x < columns)
    (insideY : y < rows) :
    ∃! number, number < columns * rows ∧ x = number % columns ∧
      y = number / columns := by
  have positive : 0 < columns :=
    Nat.zero_lt_of_lt insideX
  refine ⟨columns * y + x, ⟨?_, ?_, ?_⟩, ?_⟩
  · calc
      columns * y + x < columns * (y + 1) := by
        rw [Nat.mul_succ]
        omega
      _ ≤ columns * rows := Nat.mul_le_mul_left columns insideY
  · rw [Nat.mul_add_mod, Nat.mod_eq_of_lt insideX]
  · rw [Nat.mul_add_div positive, Nat.div_eq_of_lt insideX, Nat.add_zero]
  · rintro number ⟨_, rfl, rfl⟩
    exact (Nat.div_add_mod number columns).symm

/-- The last row of a grid is the last one. -/
theorem row_lt
    {number : Nat}
    (inGrid : number < columns * rows) :
    number / columns < rows :=
  Nat.div_lt_of_lt_mul inGrid

theorem column_lt
    {number : Nat}
    (inGrid : number < columns * rows) :
    number % columns < columns :=
  Nat.mod_lt _ (Nat.pos_of_mul_pos_right (Nat.zero_lt_of_lt inGrid))

theorem grid_partitions_iff
    (positive : 0 < side) :
    Partitions (· < columns * rows) (InCell side columns width height)
        (fun place => place.1 < width ∧ place.2 < height) ↔
      Reaches side columns rows width height := by
  constructor
  · rintro ⟨_, covers⟩ some some'
    -- The far corner is in a cell, so the grid goes as far.
    obtain ⟨number, ⟨inGrid, ⟨_, isColumn⟩, _, isRow⟩, _⟩ :=
      covers (width - 1, height - 1) ⟨by omega, by omega⟩
    have column := column_lt inGrid
    have row := row_lt inGrid
    rw [← isColumn, Nat.div_lt_iff_lt_mul positive] at column
    rw [← isRow, Nat.div_lt_iff_lt_mul positive] at row
    omega
  · intro reaches
    refine ⟨fun _ _ _ inCell => ⟨inCell.1.1, inCell.2.1⟩, ?_⟩
    rintro ⟨x, y⟩ ⟨insideX, insideY⟩
    dsimp only at insideX insideY
    obtain ⟨far, far'⟩ := reaches (by omega) (by omega)
    have column : x / side < columns :=
      (Nat.div_lt_iff_lt_mul positive).2 (by omega)
    have row : y / side < rows :=
      (Nat.div_lt_iff_lt_mul positive).2 (by omega)
    obtain ⟨number, ⟨inGrid, isColumn, isRow⟩, only⟩ :=
      exists_unique_cell column row
    refine ⟨number, ⟨inGrid, ⟨insideX, isColumn⟩, insideY, isRow⟩, ?_⟩
    rintro other ⟨inGrid', ⟨_, isColumn'⟩, _, isRow'⟩
    exact only other ⟨inGrid', isColumn', isRow'⟩

end GridTiling

namespace GreedyTiling

/-!
# Rectangles put at the first free cell

Rectangles are put into a grid one after another, each with its corner at the
first cell in raster order that no earlier one covers.  A scan over the grid that
puts a rectangle wherever it meets a free cell finds just these placements, and
it ends with a tiling when no rectangle leaves the grid or meets an earlier one.
-/

/-- A rectangle of cells. -/
structure Area where
  left : Nat
  top : Nat
  columns : Nat
  rows : Nat
  deriving Repr, DecidableEq

/-- The cell at the upper left. -/
def Area.corner
    (area : Area) :
    Nat × Nat :=
  (area.left, area.top)

def Area.Covers
    (area : Area)
    (cell : Nat × Nat) :
    Prop :=
  (area.left ≤ cell.1 ∧ cell.1 < area.left + area.columns) ∧
    area.top ≤ cell.2 ∧ cell.2 < area.top + area.rows

instance
    (area : Area)
    (cell : Nat × Nat) :
    Decidable (area.Covers cell) :=
  inferInstanceAs (Decidable (_ ∧ _))

/-- The rectangle has a cell, and all of its cells are in the grid. -/
structure Area.Fits
    (area : Area)
    (width height : Nat) :
    Prop where
  someColumn : 0 < area.columns
  someRow : 0 < area.rows
  inWidth : area.left + area.columns ≤ width
  inHeight : area.top + area.rows ≤ height

/-- One cell comes before another one in raster order. -/
def Before
    (first second : Nat × Nat) :
    Prop :=
  first.2 < second.2 ∨ first.2 = second.2 ∧ first.1 < second.1

def Covered
    (areas : List Area)
    (cell : Nat × Nat) :
    Prop :=
  ∃ area ∈ areas, area.Covers cell

/-- The first cell of the grid that the rectangles leave free. -/
structure FirstFree
    (width height : Nat)
    (areas : List Area)
    (cell : Nat × Nat) :
    Prop where
  inWidth : cell.1 < width
  inHeight : cell.2 < height
  free : ¬ Covered areas cell
  earlier : ∀ other, other.1 < width → Before other cell → Covered areas other

/--
Every rectangle starts at the first cell that the earlier ones left free, and
together they hold each cell of the grid once and no other cell.
-/
structure Tiles
    (width height : Nat)
    (areas : List Area) :
    Prop where
  greedy :
    ∀ number area,
      areas[number]? = some area →
      FirstFree width height (areas.take number) area.corner
  partitions :
    GridTiling.Partitions (· < areas.length)
      (fun number cell => ∃ area, areas[number]? = some area ∧ area.Covers cell)
      (fun cell => cell.1 < width ∧ cell.2 < height)

/-- The cell with a raster number. -/
def cellAt
    (width position : Nat) :
    Nat × Nat :=
  (position % width, position / width)

/-- What the rectangles are when the cells before a position are dealt with. -/
structure Scanned
    (width height : Nat)
    (areas : List Area)
    (position : Nat) :
    Prop where
  greedy :
    ∀ number area,
      areas[number]? = some area →
      FirstFree width height (areas.take number) area.corner
  fits : ∀ area ∈ areas, area.Fits width height
  apart :
    ∀ number area,
      areas[number]? = some area →
      ∀ cell, area.Covers cell → ¬ Covered (areas.take number) cell
  passed :
    ∀ cell,
      cell.1 < width → cell.2 * width + cell.1 < position → Covered areas cell

variable {width height position : Nat} {areas : List Area} {area : Area}

theorem Area.Fits.covers_corner
    (fits : area.Fits width height) :
    area.Covers area.corner := by
  have someColumn := fits.someColumn
  have someRow := fits.someRow
  unfold Covers corner
  omega

theorem covered_concat
    {cell : Nat × Nat} :
    Covered (areas ++ [area]) cell ↔ Covered areas cell ∨ area.Covers cell := by
  unfold Covered
  simp only [List.mem_append, List.mem_singleton, or_and_right, exists_or,
    exists_eq_left]

/-- The cells of a row below another one have the larger numbers. -/
theorem before_iff
    {first second : Nat × Nat}
    (inWidth : first.1 < width)
    (inWidth' : second.1 < width) :
    Before first second ↔
      first.2 * width + first.1 < second.2 * width + second.1 := by
  unfold Before
  constructor
  · rintro (above | ⟨sameRow, left⟩)
    · calc
        first.2 * width + first.1 < (first.2 + 1) * width := by
          rw [Nat.succ_mul]
          omega
        _ ≤ second.2 * width := Nat.mul_le_mul_right width above
        _ ≤ second.2 * width + second.1 := Nat.le_add_right _ _
    · rw [sameRow]
      omega
  · intro smaller
    rcases Nat.lt_trichotomy first.2 second.2 with above | sameRow | below
    · exact Or.inl above
    · rw [sameRow] at smaller
      exact Or.inr ⟨sameRow, by omega⟩
    · have later : (second.2 + 1) * width ≤ first.2 * width :=
        Nat.mul_le_mul_right width below
      rw [Nat.succ_mul] at later
      omega

theorem cellAt_number
    (width position : Nat) :
    (cellAt width position).2 * width + (cellAt width position).1 = position :=
  Nat.div_add_mod' position width

theorem cellAt_inWidth
    (inGrid : position < width * height) :
    (cellAt width position).1 < width :=
  Nat.mod_lt _ (Nat.pos_of_mul_pos_right (Nat.zero_lt_of_lt inGrid))

theorem cellAt_inHeight
    (inGrid : position < width * height) :
    (cellAt width position).2 < height :=
  Nat.div_lt_of_lt_mul inGrid

theorem cellAt_of_number
    {cell : Nat × Nat}
    (inWidth : cell.1 < width) :
    cellAt width (cell.2 * width + cell.1) = cell := by
  unfold cellAt
  rw [Nat.mul_comm, Nat.mul_add_mod, Nat.mod_eq_of_lt inWidth,
    Nat.mul_add_div (Nat.zero_lt_of_lt inWidth), Nat.div_eq_of_lt inWidth,
    Nat.add_zero]

/-- A cell of the grid has a number below the number of cells. -/
theorem number_lt
    {cell : Nat × Nat}
    (inWidth : cell.1 < width)
    (inHeight : cell.2 < height) :
    cell.2 * width + cell.1 < width * height := by
  calc
    cell.2 * width + cell.1 < (cell.2 + 1) * width := by
      rw [Nat.succ_mul]
      omega
    _ ≤ height * width := Nat.mul_le_mul_right width inHeight
    _ = width * height := Nat.mul_comm _ _

theorem Area.Fits.number_lt
    (fits : area.Fits width height)
    (covers : area.Covers (cellAt width position)) :
    position < width * height := by
  have inWidth := fits.inWidth
  have inHeight := fits.inHeight
  obtain ⟨⟨_, column⟩, _, row⟩ := covers
  have inside :=
    @GreedyTiling.number_lt width height (cellAt width position) (by omega) (by omega)
  rwa [cellAt_number] at inside

/-- The numbers of a rectangle's cells, row by row. -/
def Area.numbers
    (area : Area)
    (width : Nat) :
    List Nat :=
  (List.range area.rows).flatMap fun row =>
    (List.range area.columns).map fun column =>
      (area.top + row) * width + area.left + column

theorem Area.mem_numbers
    (inside : area.left + area.columns ≤ width) :
    position ∈ area.numbers width ↔ area.Covers (cellAt width position) := by
  unfold numbers Covers
  simp only [List.mem_flatMap, List.mem_map, List.mem_range]
  constructor
  · rintro ⟨row, inRows, column, inColumns, rfl⟩
    have isCell :=
      @cellAt_of_number width (area.left + column, area.top + row) (by
        dsimp only
        omega)
    dsimp only at isCell
    rw [Nat.add_assoc, isCell]
    dsimp only
    omega
  · intro covers
    obtain ⟨⟨leftOk, columnOk⟩, topOk, rowOk⟩ := covers
    refine ⟨(cellAt width position).2 - area.top, by omega,
      (cellAt width position).1 - area.left, by omega, ?_⟩
    rw [Nat.add_sub_cancel' topOk, Nat.add_assoc, Nat.add_sub_cancel' leftOk,
      cellAt_number]

theorem Area.nodup_numbers
    (inside : area.left + area.columns ≤ width) :
    (area.numbers width).Nodup := by
  unfold numbers
  rw [List.nodup_flatMap]
  constructor
  · intro row _
    refine List.nodup_range.map fun column other same => ?_
    omega
  · refine List.nodup_range.imp_of_mem fun {row other} _ _ different => ?_
    rw [Function.onFun, List.disjoint_left]
    simp only [List.mem_map, List.mem_range, not_exists, not_and]
    rintro _ ⟨column, inColumns, rfl⟩ column' inColumns' same
    rcases Nat.lt_or_gt_of_ne different with above | below
    · have further : (area.top + (row + 1)) * width ≤ (area.top + other) * width :=
        Nat.mul_le_mul_right width (by omega)
      rw [← Nat.add_assoc, Nat.succ_mul] at further
      omega
    · have further : (area.top + (other + 1)) * width ≤ (area.top + row) * width :=
        Nat.mul_le_mul_right width (by omega)
      rw [← Nat.add_assoc, Nat.succ_mul] at further
      omega

/-- There is one first free cell. -/
theorem FirstFree.unique
    {first second : Nat × Nat}
    (isFirst : FirstFree width height areas first)
    (isFirst' : FirstFree width height areas second) :
    first = second := by
  have notBefore : ¬ Before first second :=
    fun before => isFirst.free (isFirst'.earlier first isFirst.inWidth before)
  have notAfter : ¬ Before second first :=
    fun after => isFirst'.free (isFirst.earlier second isFirst'.inWidth after)
  unfold Before at notBefore notAfter
  refine Prod.ext ?_ ?_ <;> omega

namespace Scanned

theorem start
    (width height : Nat) :
    Scanned width height [] 0 where
  greedy := nofun
  fits := nofun
  apart := nofun
  passed := nofun

/-- The scan stands at the first free cell when it meets a free one. -/
theorem firstFree
    (scanned : Scanned width height areas position)
    (inGrid : position < width * height)
    (free : ¬ Covered areas (cellAt width position)) :
    FirstFree width height areas (cellAt width position) where
  inWidth := cellAt_inWidth inGrid
  inHeight := cellAt_inHeight inGrid
  free := free
  earlier := by
    intro other inWidth before
    rw [before_iff inWidth (cellAt_inWidth inGrid), cellAt_number] at before
    exact scanned.passed other inWidth before

/-- Behind a covered cell the scan has found nothing new. -/
theorem skip
    (scanned : Scanned width height areas position)
    (covered : Covered areas (cellAt width position)) :
    Scanned width height areas (position + 1) where
  greedy := scanned.greedy
  fits := scanned.fits
  apart := scanned.apart
  passed := by
    intro cell inWidth earlier
    rcases Nat.lt_succ_iff_lt_or_eq.1 earlier with before | here
    · exact scanned.passed cell inWidth before
    · rw [← here, cellAt_of_number inWidth] at covered
      exact covered

/-- What holds of every rectangle of a list holds after one more is put behind it. -/
theorem concat
    {property : Nat → Area → Prop}
    (holds : ∀ number area, areas[number]? = some area → property number area)
    (last : property areas.length area) :
    ∀ number area',
      (areas ++ [area])[number]? = some area' → property number area' := by
  intro number area' found
  rw [List.getElem?_append] at found
  split at found
  · exact holds number area' found
  · next past =>
      have isFirst := (List.getElem?_eq_some_iff.1 found).1
      have isLast : number = areas.length := by
        rw [List.length_singleton] at isFirst
        omega
      subst isLast
      rw [Nat.sub_self, List.getElem?_cons_zero, Option.some.injEq] at found
      rwa [← found]

theorem place
    (scanned : Scanned width height areas position)
    (inGrid : position < width * height)
    (atCell : area.corner = cellAt width position)
    (fits : area.Fits width height)
    (free : ∀ cell, area.Covers cell → ¬ Covered areas cell) :
    Scanned width height (areas ++ [area]) (position + 1) where
  greedy := by
    refine concat (fun number area' found => ?_) ?_
    · have inside := (List.getElem?_eq_some_iff.1 found).1
      rw [List.take_append_of_le_length inside.le]
      exact scanned.greedy number area' found
    · rw [List.take_left', atCell]
      · exact scanned.firstFree inGrid (atCell ▸ free _ fits.covers_corner)
      · rfl
  fits := by
    intro area' isMember
    rcases List.mem_append.1 isMember with old | new
    · exact scanned.fits area' old
    · rw [List.mem_singleton.1 new]
      exact fits
  apart := by
    refine concat (fun number area' found => ?_) ?_
    · have inside := (List.getElem?_eq_some_iff.1 found).1
      rw [List.take_append_of_le_length inside.le]
      exact scanned.apart number area' found
    · rw [List.take_left' rfl]
      exact free
  passed := by
    intro cell inWidth earlier
    rw [covered_concat]
    rcases Nat.lt_succ_iff_lt_or_eq.1 earlier with before | here
    · exact Or.inl (scanned.passed cell inWidth before)
    · refine Or.inr ?_
      rw [← cellAt_of_number inWidth, here, ← atCell]
      exact fits.covers_corner

/-- No two rectangles share a cell. -/
theorem sameNumber
    (scanned : Scanned width height areas position)
    {first second : Nat}
    {area' : Area}
    {cell : Nat × Nat}
    (found : areas[first]? = some area)
    (found' : areas[second]? = some area')
    (covers : area.Covers cell)
    (covers' : area'.Covers cell) :
    first = second := by
  have earlier
      {number other : Nat}
      {one two : Area}
      (at1 : areas[number]? = some one)
      (at2 : areas[other]? = some two)
      (covers1 : one.Covers cell)
      (covers2 : two.Covers cell) :
      ¬ number < other := by
    intro before
    refine scanned.apart other two at2 cell covers2 ⟨one, ?_, covers1⟩
    rw [List.mem_iff_getElem?]
    exact ⟨number, by rw [List.getElem?_take, if_pos before, at1]⟩
  have notBefore := earlier found found' covers covers'
  have notAfter := earlier found' found covers' covers
  omega

theorem tiles
    (scanned : Scanned width height areas (width * height)) :
    Tiles width height areas where
  greedy := scanned.greedy
  partitions := by
    constructor
    · rintro number _ cell ⟨area, found, inColumns, inRows⟩
      have fits := scanned.fits area (List.mem_of_getElem? found)
      have inWidth := fits.inWidth
      have inHeight := fits.inHeight
      omega
    · rintro cell ⟨inWidth, inHeight⟩
      obtain ⟨area, isMember, covers⟩ :=
        scanned.passed cell inWidth (number_lt inWidth inHeight)
      obtain ⟨number, found⟩ := List.mem_iff_getElem?.1 isMember
      have inside := (List.getElem?_eq_some_iff.1 found).1
      refine ⟨number, ⟨inside, area, found, covers⟩, ?_⟩
      rintro other ⟨_, area', found', covers'⟩
      exact scanned.sameNumber found' found covers' covers

end Scanned

/-- The rectangles of a tiling do not leave the grid. -/
theorem Tiles.fits
    (tiles : Tiles width height areas)
    (isMember : area ∈ areas)
    (someColumn : 0 < area.columns)
    (someRow : 0 < area.rows) :
    area.Fits width height := by
  obtain ⟨number, found⟩ := List.mem_iff_getElem?.1 isMember
  have lastCell :
      area.Covers (area.left + area.columns - 1, area.top + area.rows - 1) := by
    unfold Area.Covers
    omega
  have inside :=
    tiles.partitions.1 number (List.getElem?_eq_some_iff.1 found).1 _
      ⟨area, found, lastCell⟩
  exact ⟨someColumn, someRow, by omega, by omega⟩

/--
A scan that has put the first rectangles of a tiling meets a covered cell, or the
corner of the next rectangle, whose cells are free.
-/
theorem Tiles.next
    {count : Nat}
    (tiles : Tiles width height areas)
    (scanned : Scanned width height (areas.take count) position)
    (inGrid : position < width * height) :
    Covered (areas.take count) (cellAt width position) ∨
      ∃ area,
        areas[count]? = some area ∧
          area.corner = cellAt width position ∧
          ∀ cell, area.Covers cell → ¬ Covered (areas.take count) cell := by
  by_cases covered : Covered (areas.take count) (cellAt width position)
  · exact Or.inl covered
  · refine Or.inr ?_
    obtain ⟨number, ⟨inside, later, found, covers⟩, _⟩ :=
      tiles.partitions.2 (cellAt width position)
        ⟨cellAt_inWidth inGrid, cellAt_inHeight inGrid⟩
    have notEarlier : count ≤ number := by
      by_contra earlier
      refine covered ⟨later, List.mem_iff_getElem?.2 ⟨number, ?_⟩, covers⟩
      rw [List.getElem?_take, if_pos (Nat.lt_of_not_le earlier), found]
    have isNext : areas[count]? = some areas[count] :=
      List.getElem?_eq_getElem (Nat.lt_of_le_of_lt notEarlier inside)
    refine ⟨areas[count], isNext, ?_, ?_⟩
    · exact
        (tiles.greedy count _ isNext).unique (scanned.firstFree inGrid covered)
    · rintro cell covers' ⟨area, isMember, covers''⟩
      obtain ⟨other, found'⟩ := List.mem_iff_getElem?.1 isMember
      rw [List.getElem?_take] at found'
      split at found'
      · next before =>
          have inArea : cell.1 < width ∧ cell.2 < height :=
            tiles.partitions.1 count (Nat.lt_of_le_of_lt notEarlier inside) cell
              ⟨_, isNext, covers'⟩
          have same :=
            (tiles.partitions.2 cell inArea).unique
              ⟨Nat.lt_of_le_of_lt notEarlier inside, _, isNext, covers'⟩
              ⟨(List.getElem?_eq_some_iff.1 found').1, _, found', covers''⟩
          omega
      · exact nomatch found'

end GreedyTiling
