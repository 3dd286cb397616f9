import Jxlz.Codec.AcStrategy
import Jxlz.Lib.ReservedPrefix

namespace Jxlz.AcStrategy

open ReservedPrefix

/-!
# The natural order is a permutation

The diagonals of the two halves visit every cell of the square once, so the
rows that exist are visited once as well.  The low-frequency block has its
entries reserved; what is left of the table is just enough for the others.
-/

/-- The cell of the upper half: its column and its row in the square. -/
def upperCell
    (i j : Nat) :
    Nat × Nat :=
  (if i % 2 = 0 then j else i - j, if i % 2 = 0 then i - j else j)

/-- The cell of the lower half. -/
def lowerCell
    (side i j : Nat) :
    Nat × Nat :=
  (side - 1 - (if i % 2 = 0 then i - j else j),
    side - 1 - (if i % 2 = 0 then j else i - j))

/-- The cells of the upper half, diagonal by diagonal. -/
def upperCells
    (side : Nat) :
    List (Nat × Nat) :=
  (List.range side).flatMap fun i => (List.range (i + 1)).map (upperCell i)

/-- The cells of the lower half. -/
def lowerCells
    (side : Nat) :
    List (Nat × Nat) :=
  (List.range (side - 1)).reverse.flatMap fun i =>
    (List.range (i + 1)).map (lowerCell side i)

variable {side : Nat} {cell : Nat × Nat}

/-- The cells of the upper half are those above the other diagonal. -/
theorem mem_upperCells :
    cell ∈ upperCells side ↔ cell.1 + cell.2 < side := by
  simp only [upperCells, List.mem_flatMap, List.mem_map, List.mem_range]
  constructor
  · rintro ⟨i, inside, j, below, rfl⟩
    simp only [upperCell]
    split <;> omega
  · intro inside
    refine ⟨cell.1 + cell.2, inside, ?_⟩
    by_cases even : (cell.1 + cell.2) % 2 = 0
    · refine ⟨cell.1, by omega, ?_⟩
      rw [upperCell, if_pos even, if_pos even, Nat.add_sub_cancel_left]
    · refine ⟨cell.2, by omega, ?_⟩
      rw [upperCell, if_neg even, if_neg even, Nat.add_sub_cancel]

/-- The cells of the lower half are those of the square below it. -/
theorem mem_lowerCells :
    cell ∈ lowerCells side ↔
      cell.1 < side ∧ cell.2 < side ∧ side ≤ cell.1 + cell.2 := by
  simp only [lowerCells, List.mem_flatMap, List.mem_map, List.mem_reverse,
    List.mem_range]
  constructor
  · rintro ⟨i, inside, j, below, rfl⟩
    simp only [lowerCell]
    split <;> omega
  · rintro ⟨left, high, low⟩
    refine ⟨(side - 1 - cell.1) + (side - 1 - cell.2), by omega, ?_⟩
    by_cases even : ((side - 1 - cell.1) + (side - 1 - cell.2)) % 2 = 0
    · refine ⟨side - 1 - cell.2, by omega, ?_⟩
      rw [lowerCell, if_pos even, if_pos even]
      exact Prod.ext (by dsimp only; omega) (by dsimp only; omega)
    · refine ⟨side - 1 - cell.1, by omega, ?_⟩
      rw [lowerCell, if_neg even, if_neg even]
      exact Prod.ext (by dsimp only; omega) (by dsimp only; omega)

theorem upperCells_nodup
    (side : Nat) :
    (upperCells side).Nodup := by
  rw [upperCells, List.nodup_flatMap]
  constructor
  · intro i _
    refine List.nodup_range.map_on ?_
    intro j inside k inside' same
    rw [List.mem_range] at inside inside'
    simp only [upperCell, Prod.mk.injEq] at same
    split at same <;> omega
  · refine List.nodup_range.pairwise_of_forall_ne ?_
    intro i _ other _ different cell member member'
    simp only [List.mem_map, List.mem_range] at member member'
    obtain ⟨j, below, rfl⟩ := member
    obtain ⟨k, below', same⟩ := member'
    simp only [upperCell, Prod.mk.injEq] at same
    split at same <;> split at same <;> omega

theorem lowerCells_nodup
    (side : Nat) :
    (lowerCells side).Nodup := by
  rw [lowerCells, List.nodup_flatMap]
  constructor
  · intro i inside
    rw [List.mem_reverse, List.mem_range] at inside
    refine List.nodup_range.map_on ?_
    intro j below k below' same
    rw [List.mem_range] at below below'
    simp only [lowerCell, Prod.mk.injEq] at same
    split at same <;> omega
  · refine (List.nodup_reverse.2 List.nodup_range).pairwise_of_forall_ne ?_
    intro i inside other inside' different cell member member'
    simp only [List.mem_map, List.mem_range, List.mem_reverse] at *
    obtain ⟨j, below, rfl⟩ := member
    obtain ⟨k, below', same⟩ := member'
    simp only [lowerCell, Prod.mk.injEq] at same
    split at same <;> split at same <;> omega

/-- The cells of the square in the order of the scan. -/
def cells
    (side : Nat) :
    List (Nat × Nat) :=
  upperCells side ++ lowerCells side

/-- Every cell of the square is visited. -/
theorem mem_cells :
    cell ∈ cells side ↔ cell.1 < side ∧ cell.2 < side := by
  rw [cells, List.mem_append, mem_upperCells, mem_lowerCells]
  omega

/-- No cell is visited twice. -/
theorem cells_nodup
    (side : Nat) :
    (cells side).Nodup := by
  refine (upperCells_nodup side).append (lowerCells_nodup side) ?_
  intro cell above below
  rw [mem_upperCells] at above
  rw [mem_lowerCells] at below
  omega

/-! ## Coefficients -/

/-- The coefficient of a cell, if its row exists in the rectangle. -/
def coefficient
    (ratio : Nat)
    (cell : Nat × Nat) :
    Option (Nat × Nat) :=
  if cell.2 % ratio = 0 then some (cell.1, cell.2 / ratio) else none

/-- The coefficients of the rectangle in the order of the scan. -/
def coefficients
    (cx cy : Nat) :
    List (Nat × Nat) :=
  (cells (cx * 8)).filterMap (coefficient (cx / cy))

/-- The reserved entry of a low-frequency coefficient. -/
def place
    (cx cy : Nat)
    (cell : Nat × Nat) :
    Option Nat :=
  if cell.1 < cx ∧ cell.2 < cy then some (cell.2 * cx + cell.1) else none

/-- The number of a coefficient. -/
def value
    (cx : Nat)
    (cell : Nat × Nat) :
    Nat :=
  cell.2 * (cx * 8) + cell.1

/-- A rectangle that is so many times as long as it is high, and not too large. -/
structure Shape
    (cx cy : Nat) :
    Prop where
  positive : 0 < cy
  whole : cx / cy * cy = cx
  small : 64 * cx * cy ≤ 65536
  long : cy ≤ cx

namespace Shape

variable {cx cy : Nat}

theorem ratio_pos
    (shape : Shape cx cy) :
    0 < cx / cy :=
  Nat.div_pos shape.long shape.positive

theorem mem_coefficients
    (shape : Shape cx cy)
    {cell : Nat × Nat} :
    cell ∈ coefficients cx cy ↔ cell.1 < cx * 8 ∧ cell.2 < cy * 8 := by
  have ratio := shape.ratio_pos
  have whole := shape.whole
  generalize isRatio : cx / cy = r at ratio whole
  have height : r * (cy * 8) = cx * 8 := by
    rw [← Nat.mul_assoc, whole]
  rw [coefficients, isRatio, List.mem_filterMap]
  constructor
  · rintro ⟨source, inside, isCell⟩
    rw [mem_cells] at inside
    rw [coefficient] at isCell
    split at isCell
    · cases isCell
      refine ⟨inside.1, ?_⟩
      apply Nat.div_lt_of_lt_mul
      rw [height]
      exact inside.2
    · cases isCell
  · rintro ⟨left, high⟩
    refine ⟨(cell.1, cell.2 * r), ?_, ?_⟩
    · rw [mem_cells]
      refine ⟨left, ?_⟩
      rw [← height, Nat.mul_comm cell.2]
      exact Nat.mul_lt_mul_of_pos_left high ratio
    · rw [coefficient, if_pos (Nat.mul_mod_left _ _), Nat.mul_div_cancel _ ratio]

theorem coefficients_nodup
    (cx cy : Nat) :
    (coefficients cx cy).Nodup := by
  refine (cells_nodup (cx * 8)).filterMap ?_
  intro first second cell isFirst isSecond
  rw [Option.mem_def, coefficient] at isFirst isSecond
  split at isFirst
  next firstRow =>
    split at isSecond
    next secondRow =>
      have same := (Option.some.inj isFirst).trans (Option.some.inj isSecond).symm
      simp only [Prod.mk.injEq] at same
      have firstBack := Nat.div_add_mod first.2 (cx / cy)
      have secondBack := Nat.div_add_mod second.2 (cx / cy)
      rw [firstRow, same.2] at firstBack
      rw [secondRow] at secondBack
      exact Prod.ext same.1 (firstBack.symm.trans secondBack)
    next noRow =>
      cases isSecond
  next noRow =>
    cases isFirst

/-- The entries behind the reserved ones are enough for the others. -/
theorem room
    {seen : List (Nat × Nat)}
    (distinct : seen.Nodup)
    (inside : ∀ cell ∈ seen, cell.1 < cx * 8 ∧ cell.2 < cy * 8) :
    cx * cy + (seen.filter fun cell => (place cx cy cell).isNone).length ≤
      64 * cx * cy := by
  have lowInside :
      Finset.range cx ×ˢ Finset.range cy ⊆
        Finset.range (cx * 8) ×ˢ Finset.range (cy * 8) := by
    apply Finset.product_subset_product
    · exact Finset.range_subset_range.2 (by omega)
    · exact Finset.range_subset_range.2 (by omega)
  have others :
      (seen.filter fun cell => (place cx cy cell).isNone).toFinset ⊆
        (Finset.range (cx * 8) ×ˢ Finset.range (cy * 8)) \
          (Finset.range cx ×ˢ Finset.range cy) := by
    intro cell member
    rw [List.mem_toFinset, List.mem_filter] at member
    obtain ⟨inSeen, notReserved⟩ := member
    have range := inside cell inSeen
    rw [place] at notReserved
    split at notReserved
    next reserved =>
      cases notReserved
    next free =>
      simp only [Finset.mem_sdiff, Finset.mem_product, Finset.mem_range]
      exact ⟨range, free⟩
  have counted := Finset.card_le_card others
  rw [List.toFinset_card_of_nodup (distinct.filter _),
    Finset.card_sdiff_of_subset lowInside, Finset.card_product,
    Finset.card_product] at counted
  simp only [Finset.card_range] at counted
  have area : cx * 8 * (cy * 8) = 64 * cx * cy := by
    ring
  have part : cx * cy ≤ 64 * cx * cy := by
    rw [Nat.mul_assoc]
    exact Nat.le_mul_of_pos_left _ (by omega)
  omega

end Shape

/-! ## The scan -/

/-- The scan at one cell. -/
def scanCell
    (cx cy : Nat)
    (self : Scan)
    (cell : Nat × Nat) :
    Checked Scan :=
  match coefficient (cx / cy) cell with
  | none => .ok self
  | some (x, y) => do
      let value ← castU 32 (y * (cx * 8) + x)
      if x < cx ∧ y < cy then
        let order ← store self.order (y * cx + x) value
        return { self with order }
      else
        let order ← store self.order self.cur value
        return { order, cur := self.cur + 1 }

theorem scanUpper_eq
    (cx cy i : Nat)
    (self : Scan)
    (j : Nat) :
    scanUpper cx cy i self j = scanCell cx cy self (upperCell i j) := by
  unfold scanUpper scanCell
  change
    (if (upperCell i j).2 % (cx / cy) ≠ 0 then Except.ok self
      else do
        let value ←
          castU 32 ((upperCell i j).2 / (cx / cy) * (cx * 8) + (upperCell i j).1)
        if (upperCell i j).1 < cx ∧ (upperCell i j).2 / (cx / cy) < cy then do
          let order ←
            store self.order
              ((upperCell i j).2 / (cx / cy) * cx + (upperCell i j).1) value
          return { self with order }
        else do
          let order ← store self.order self.cur value
          return { order, cur := self.cur + 1 }) = _
  generalize upperCell i j = cell
  unfold coefficient
  by_cases present : cell.2 % (cx / cy) = 0
  · rw [if_neg (not_not.2 present), if_pos present]
  · rw [if_pos present, if_neg present]

/-- No coefficient of the lower half is a low-frequency one. -/
theorem scanLower_eq
    {cx cy i j : Nat}
    (shape : Shape cx cy)
    (inside : i + 1 < cx * 8)
    (below : j ≤ i)
    (self : Scan) :
    scanLower cx cy i self j =
      scanCell cx cy self (lowerCell (cx * 8) i j) := by
  have sum :
      cx * 8 ≤ (lowerCell (cx * 8) i j).1 + (lowerCell (cx * 8) i j).2 := by
    simp only [lowerCell]
    split <;> omega
  unfold scanLower scanCell
  change
    (if (lowerCell (cx * 8) i j).2 % (cx / cy) ≠ 0 then Except.ok self
      else do
        let value ←
          castU 32 ((lowerCell (cx * 8) i j).2 / (cx / cy) * (cx * 8) +
            (lowerCell (cx * 8) i j).1)
        let order ← store self.order self.cur value
        return { order, cur := self.cur + 1 }) = _
  generalize lowerCell (cx * 8) i j = cell at sum
  unfold coefficient
  by_cases present : cell.2 % (cx / cy) = 0
  · rw [if_neg (not_not.2 present), if_pos present]
    have notLow : ¬(cell.1 < cx ∧ cell.2 / (cx / cy) < cy) := by
      rintro ⟨left, high⟩
      have row : cell.2 < cx := by
        rw [← shape.whole]
        rw [Nat.mul_comm]
        exact (Nat.div_lt_iff_lt_mul shape.ratio_pos).1 high
      omega
    dsimp only
    simp only [if_neg notLow]
  · rw [if_pos present, if_neg present]

theorem foldlM_cells
    {places : List Nat}
    {cell : Nat → Nat × Nat}
    {step : Scan → Nat → Checked Scan}
    {cellStep : Scan → Nat × Nat → Checked Scan}
    (same : ∀ j ∈ places, ∀ scan, step scan j = cellStep scan (cell j))
    (start : Scan) :
    places.foldlM step start = (places.map cell).foldlM cellStep start := by
  induction places generalizing start with
  | nil =>
      rfl
  | cons j places inductionHypothesis =>
      rw [List.foldlM_cons, List.map_cons, List.foldlM_cons,
        same j List.mem_cons_self]
      congr 1
      funext scan
      exact inductionHypothesis
        (fun other member => same other (List.mem_cons_of_mem j member)) scan

/-- A loop over diagonals is a loop over their cells. -/
theorem foldlM_diagonals
    {diagonals : List Nat}
    {cell : Nat → Nat → Nat × Nat}
    {step : Nat → Scan → Nat → Checked Scan}
    {cellStep : Scan → Nat × Nat → Checked Scan}
    (same :
      ∀ i ∈ diagonals, ∀ j, j ≤ i → ∀ scan, step i scan j = cellStep scan (cell i j))
    (start : Scan) :
    diagonals.foldlM
        (fun scan i => (List.range (i + 1)).foldlM (step i) scan) start =
      (diagonals.flatMap fun i => (List.range (i + 1)).map (cell i)).foldlM cellStep
        start := by
  induction diagonals generalizing start with
  | nil =>
      rfl
  | cons i diagonals inductionHypothesis =>
      have diagonal :=
        @foldlM_cells (List.range (i + 1)) (cell i) (step i) cellStep
          (fun j inside =>
            same i List.mem_cons_self j (Nat.le_of_lt_succ (List.mem_range.1 inside)))
          start
      rw [List.foldlM_cons, List.flatMap_cons, List.foldlM_append, diagonal]
      congr 1
      funext scan
      exact inductionHypothesis
        (fun other member => same other (List.mem_cons_of_mem i member)) scan

variable {cx cy : Nat}

/-- The scan visits the cells of the square one after the other. -/
theorem scanSquare_eq
    (shape : Shape cx cy)
    (order : List Nat) :
    scanSquare cx cy order =
      (cells (cx * 8)).foldlM (scanCell cx cy) { order, cur := cx * cy } := by
  unfold scanSquare
  dsimp only
  rw [cells, List.foldlM_append,
    foldlM_diagonals (fun i _ j _ scan => scanUpper_eq cx cy i scan j)]
  congr 1
  funext scan
  refine foldlM_diagonals ?_ scan
  intro i member j below scan
  rw [List.mem_reverse, List.mem_range] at member
  exact scanLower_eq shape (by omega) below scan

/-- The table behind a scan. -/
def Scan.filling
    (self : Scan) :
    Filling Nat where
  entries := self.order
  next := self.cur

/-- A coefficient of the rectangle goes to its entry. -/
theorem scanCell_put
    {scan : Scan}
    {cell target : Nat × Nat}
    (isTarget : coefficient (cx / cy) cell = some target)
    (fits : value cx target < 2 ^ 32)
    (reserved : target.1 < cx ∧ target.2 < cy →
      target.2 * cx + target.1 < scan.order.length)
    (free : ¬(target.1 < cx ∧ target.2 < cy) → scan.cur < scan.order.length) :
    ∃ after,
      scanCell cx cy scan cell = .ok after ∧
        after.order.length = scan.order.length ∧
        after.filling = scan.filling.put (place cx cy) (value cx) target := by
  obtain ⟨x, y⟩ := target
  unfold scanCell Filling.put place
  rw [isTarget]
  dsimp only at *
  rw [castU_ok (show y * (cx * 8) + x < 2 ^ 32 from fits), ok_bind]
  by_cases low : x < cx ∧ y < cy
  · rw [if_pos low, if_pos low, store_ok (reserved low), ok_bind]
    exact ⟨_, rfl, List.length_set, rfl⟩
  · rw [if_neg low, if_neg low, store_ok (free low), ok_bind]
    exact ⟨_, rfl, List.length_set, rfl⟩

theorem place_eq_some
    {cx cy position : Nat} :
    place cx cy cell = some position ↔
      (cell.1 < cx ∧ cell.2 < cy) ∧ cell.2 * cx + cell.1 = position := by
  rw [place]
  by_cases low : cell.1 < cx ∧ cell.2 < cy
  · rw [if_pos low]
    constructor
    · intro same
      exact ⟨low, Option.some.inj same⟩
    · intro same
      rw [same.2]
  · rw [if_neg low]
    constructor
    · intro same
      cases same
    · intro same
      exact (low same.1).elim

/-- A row and a column below the width are known from their number. -/
theorem cell_of_number
    {width : Nat}
    {first second : Nat × Nat}
    (firstInside : first.1 < width)
    (secondInside : second.1 < width)
    (same : first.2 * width + first.1 = second.2 * width + second.1) :
    first = second := by
  have column := congrArg (· % width) same
  have row := congrArg (· / width) same
  have positive : 0 < width := by
    omega
  simp only [Nat.mul_add_mod_self_right, Nat.mod_eq_of_lt firstInside,
    Nat.mod_eq_of_lt secondInside] at column
  rw [Nat.mul_comm first.2, Nat.mul_comm second.2] at row
  simp only [Nat.mul_add_div positive, Nat.div_eq_of_lt firstInside,
    Nat.div_eq_of_lt secondInside, Nat.add_zero] at row
  exact Prod.ext column row

/-- A row and a column inside an area number one of its places. -/
theorem number_lt
    {width height : Nat}
    (left : cell.1 < width)
    (high : cell.2 < height) :
    cell.2 * width + cell.1 < height * width := by
  calc
    cell.2 * width + cell.1 < cell.2 * width + width :=
      Nat.add_lt_add_left left _
    _ = (cell.2 + 1) * width := by
      rw [Nat.add_mul, Nat.one_mul]
    _ ≤ height * width :=
      Nat.mul_le_mul_right _ high

variable {order : List Nat}

/-- The scan of some cells fills the table with their coefficients. -/
theorem scan_run
    (shape : Shape cx cy)
    (size : order.length = 64 * cx * cy)
    {seen : List (Nat × Nat)}
    (visited : seen.Sublist (cells (cx * 8))) :
    ∃ scan,
      seen.foldlM (scanCell cx cy) { order, cur := cx * cy } = .ok scan ∧
        scan.order.length = 64 * cx * cy ∧
        Filling.Filled (place cx cy) (value cx) (cx * cy)
          (seen.filterMap (coefficient (cx / cy))) scan.filling := by
  induction seen using List.reverseRecOn with
  | nil =>
      exact ⟨_, rfl, size, Filling.Filled.start order⟩
  | append_singleton seen cell inductionHypothesis =>
      obtain ⟨scan, ran, length, filled⟩ :=
        inductionHypothesis ((List.sublist_append_left seen [cell]).trans visited)
      rw [List.foldlM_append, ran, ok_bind, List.foldlM_cons, List.filterMap_append]
      cases isTarget : coefficient (cx / cy) cell with
      | none =>
          have skipped : scanCell cx cy scan cell = .ok scan := by
            rw [scanCell, isTarget]
          refine ⟨scan, by rw [skipped, ok_bind]; rfl, length, ?_⟩
          rw [List.filterMap_cons_none isTarget, List.filterMap_nil, List.append_nil]
          exact filled
      | some target =>
          have kept :
              (seen.filterMap (coefficient (cx / cy)) ++ [target]).Sublist
                (coefficients cx cy) := by
            have mapped := visited.filterMap (coefficient (cx / cy))
            rw [List.filterMap_append, List.filterMap_cons_some isTarget,
              List.filterMap_nil] at mapped
            exact mapped
          have inside :
              ∀ other ∈ seen.filterMap (coefficient (cx / cy)) ++ [target],
                other.1 < cx * 8 ∧ other.2 < cy * 8 :=
            fun other member => shape.mem_coefficients.1 (kept.subset member)
          obtain ⟨left, high⟩ :=
            inside target (List.mem_append_right _ List.mem_cons_self)
          have area : cy * 8 * (cx * 8) = 64 * cx * cy := by
            ring
          have small := shape.small
          have fits : value cx target < 64 * cx * cy := by
            rw [← area]
            exact number_lt left high
          have front : cx * cy ≤ 64 * cx * cy := by
            rw [Nat.mul_assoc]
            exact Nat.le_mul_of_pos_left _ (by omega)
          have reserved :
              target.1 < cx ∧ target.2 < cy →
                target.2 * cx + target.1 < cx * cy := by
            intro low
            rw [Nat.mul_comm cx cy]
            exact number_lt low.1 low.2
          have free :
              place cx cy target = none → scan.filling.next < 64 * cx * cy := by
            intro isFree
            have enough :=
              Shape.room ((Shape.coefficients_nodup cx cy).sublist kept) inside
            rw [List.filter_append, List.length_append, List.filter_singleton,
              isFree] at enough
            have next := filled.next
            simp only [Option.isNone_none, cond_true, List.length_singleton]
              at enough
            omega
          obtain ⟨after, put, length', isAfter⟩ :=
            @scanCell_put cx cy scan cell target isTarget (by omega)
              (fun low => by rw [length]; exact (reserved low).trans_le front)
              (fun high => by
                rw [length]
                exact free (by rw [place, if_neg high]))
          refine ⟨after, by rw [put, ok_bind]; rfl, length'.trans length, ?_⟩
          rw [List.filterMap_cons_some isTarget, List.filterMap_nil, isAfter]
          refine filled.put ?_ ?_ ?_
          · intro position isPlace
            obtain ⟨low, rfl⟩ := place_eq_some.1 isPlace
            refine ⟨reserved low, ?_⟩
            exact ((reserved low).trans_le front).trans_eq length.symm
          · intro other member same isReserved
            obtain ⟨position, isPlace⟩ := Option.ne_none_iff_exists'.1 isReserved
            obtain ⟨low, number⟩ := place_eq_some.1 isPlace
            obtain ⟨low', number'⟩ := place_eq_some.1 (same.trans isPlace)
            rw [cell_of_number low'.1 low.1 (number'.trans number.symm)]
          · intro isFree
            exact (free isFree).trans_eq length.symm

/-- A list as long as it has numbers, with every number in it, is a permutation. -/
theorem perm_range_of_mem
    {size : Nat}
    (length : order.length = size)
    (all : ∀ number, number < size → number ∈ order) :
    order.Perm (List.range size) := by
  have sub : (List.range size).Subperm order :=
    List.subperm_of_subset List.nodup_range
      (fun number member => all number (List.mem_range.1 member))
  refine (sub.perm_of_length_le ?_).symm
  rw [length, List.length_range]

/-- The scan of the whole square. -/
theorem scanSquare_order
    (shape : Shape cx cy)
    (size : order.length = 64 * cx * cy) :
    ∃ scan,
      scanSquare cx cy order = .ok scan ∧
        scan.order.Perm (List.range (64 * cx * cy)) ∧
        scan.order.take (cx * cy) =
          (List.range (cx * cy)).map
            fun entry => entry / cx * (cx * 8) + entry % cx := by
  obtain ⟨scan, ran, length, filled⟩ :=
    scan_run shape size (List.Sublist.refl (cells (cx * 8)))
  refine ⟨scan, (scanSquare_eq shape order).trans ran, ?_, ?_⟩
  · have width : 0 < cx * 8 :=
      Nat.mul_pos (shape.positive.trans_le shape.long) (by omega)
    refine perm_range_of_mem length ?_
    intro number inRange
    have area : cy * 8 * (cx * 8) = 64 * cx * cy := by
      ring
    have isCell : (number % (cx * 8), number / (cx * 8)) ∈ coefficients cx cy := by
      rw [shape.mem_coefficients]
      refine ⟨Nat.mod_lt _ width, ?_⟩
      rw [Nat.div_lt_iff_lt_mul width, area]
      exact inRange
    have isNumber : value cx (number % (cx * 8), number / (cx * 8)) = number := by
      rw [value, Nat.mul_comm]
      exact Nat.div_add_mod number (cx * 8)
    cases isPlace : place cx cy (number % (cx * 8), number / (cx * 8)) with
    | some position =>
        have isEntry := (filled.reserved _ isCell position isPlace).2
        rw [isNumber] at isEntry
        exact List.mem_of_getElem? isEntry
    | none =>
        obtain ⟨position, _, _, isEntry⟩ := filled.appended _ isCell isPlace
        rw [isNumber] at isEntry
        exact List.mem_of_getElem? isEntry
  · apply List.ext_getElem?
    intro entry
    have front : cx * cy ≤ scan.order.length := by
      rw [length, Nat.mul_assoc]
      exact Nat.le_mul_of_pos_left _ (by omega)
    by_cases early : entry < cx * cy
    · have width : 0 < cx :=
        shape.positive.trans_le shape.long
      have low : entry % cx < cx ∧ entry / cx < cy := by
        refine ⟨Nat.mod_lt _ width, ?_⟩
        rw [Nat.div_lt_iff_lt_mul width, Nat.mul_comm]
        exact early
      have isCell : (entry % cx, entry / cx) ∈ coefficients cx cy := by
        rw [shape.mem_coefficients]
        dsimp only
        omega
      have isPlace : place cx cy (entry % cx, entry / cx) = some entry := by
        rw [place_eq_some]
        refine ⟨low, ?_⟩
        dsimp only
        rw [Nat.mul_comm]
        exact Nat.div_add_mod entry cx
      rw [List.getElem?_take_of_lt early, List.getElem?_map,
        List.getElem?_range early]
      exact (filled.reserved _ isCell entry isPlace).2
    · rw [List.getElem?_eq_none (by rw [List.length_take]; omega),
        List.getElem?_eq_none (by rw [List.length_map, List.length_range]; omega)]

instance (cx cy : Nat) : Decidable (Shape cx cy) :=
  decidable_of_iff
    (0 < cy ∧ cx / cy * cy = cx ∧ 64 * cx * cy ≤ 65536 ∧ cy ≤ cx)
    ⟨fun ⟨positive, whole, small, long⟩ => ⟨positive, whole, small, long⟩,
      fun shape => ⟨shape.positive, shape.whole, shape.small, shape.long⟩⟩

variable {raw : Int} {extent : Extent}

/-- A strategy is one of the known ones. -/
theorem strategyExtent_known
    (isExtent : strategyExtent raw = .ok extent) :
    ∃ number : Nat, number < kNumValidStrategies ∧ raw = number := by
  unfold strategyExtent at isExtent
  split at isExtent
  next outside =>
    cases isExtent
  next inside =>
    have many : widths.length = 27 := by
      decide
    exact ⟨raw.toNat, by rw [kNumValidStrategies]; omega, by omega⟩

/-- The strategies cover rectangles that are scanned in whole rows. -/
theorem shape_of_strategyExtent
    (isExtent : strategyExtent raw = .ok extent) :
    Shape (max extent.x extent.y) (min extent.x extent.y) := by
  have all :
      ∀ number,
        number < kNumValidStrategies →
        (match strategyExtent (number : Int) with
          | .ok size => decide (Shape (max size.x size.y) (min size.x size.y))
          | .error _ => false) = true := by
    decide
  obtain ⟨number, known, rfl⟩ := strategyExtent_known isExtent
  have shape := all number known
  rw [isExtent] at shape
  exact of_decide_eq_true shape

/-- A permutation whose low-frequency entries are in raster order. -/
structure Ordered
    (cx cy : Nat)
    (order : List Nat) :
    Prop where
  perm : order.Perm (List.range (64 * cx * cy))
  raster :
    order.take (cx * cy) =
      (List.range (cx * cy)).map
        fun entry => entry / cx * (cx * 8) + entry % cx

/-- The natural order of a strategy fills a table of the right size. -/
theorem naturalOrder_ok
    (isExtent : strategyExtent raw = .ok extent)
    (size : order.length = 64 * (extent.x * extent.y)) :
    ∃ natural,
      naturalOrder raw order = .ok natural ∧
        Ordered (max extent.x extent.y) (min extent.x extent.y) natural := by
  have size' :
      order.length = 64 * max extent.x extent.y * min extent.x extent.y := by
    rw [size, Nat.mul_assoc, max_mul_min]
  obtain ⟨scan, scanned, perm, raster⟩ :=
    scanSquare_order (shape_of_strategyExtent isExtent) size'
  refine ⟨scan.order, ?_, perm, raster⟩
  rw [naturalOrder, isExtent, ok_bind]
  dsimp only
  rw [if_neg (not_not.2 size'), scanned, ok_bind, pure_eq_ok]

end Jxlz.AcStrategy
