import Jxlz.Base.Raster
import Jxlz.Codec.BlockMap
import Jxlz.Codec.NaturalOrder
import Jxlz.Lib.GridTiling

namespace Jxlz.AcMetadata.BlockMap

open AcStrategy GreedyTiling

/-!
# Accepted block maps are tilings

The scan keeps a list of the rectangles it has placed.  The blocks say of every
cell which rectangle covers it, so a cell without a strategy is a free cell.
-/

/-- A rectangle that the strategy of the same number may take. -/
structure Suits
    (is444 : Bool)
    (strategies : List Int)
    (number : Nat)
    (area : Area) :
    Prop where
  shape :
    ∃ raw extent,
      strategies[number]? = some raw ∧
        strategyExtent raw = .ok extent ∧
        area.columns = extent.x ∧
        area.rows = extent.y
  single : is444 = false → area.columns = 1 ∧ area.rows = 1
  sameColumn : area.left / 32 = (area.left + area.columns - 1) / 32
  sameRow : area.top / 32 = (area.top + area.rows - 1) / 32

/-- The clamped sample of a first block, plus one. -/
def quantOf
    (sample : Int) :
    Int :=
  1 + min (max sample 0) 255

/-- What the block of a cell says about the rectangles. -/
structure Shows
    (width : Nat)
    (strategies quants : List Int)
    (areas : List Area)
    (position : Nat)
    (block : Block) :
    Prop where
  strategy :
    ∀ (number : Nat) area,
      areas[number]? = some area →
      area.Covers (cellAt width position) →
      strategies[number]? = some (block.strategy : Int)
  unused : ¬ Covered areas (cellAt width position) → block.strategy = 255
  isFirst :
    block.isFirst = true ↔ ∃ area ∈ areas, area.corner = cellAt width position
  quant :
    ∀ (number : Nat) area,
      areas[number]? = some area →
      area.corner = cellAt width position →
      ∃ sample,
        quants[number]? = some sample ∧ (block.quant : Int) = quantOf sample
  noQuant : block.isFirst = false → block.quant = 0

/-- The scan in front of a position, having placed some rectangles. -/
structure Expanded
    (width height : Nat)
    (is444 : Bool)
    (strategies quants sharpness : List Int)
    (position : Nat)
    (areas : List Area)
    (scan : Scan) :
    Prop where
  num : scan.num = areas.length
  length : scan.blocks.length = width * height
  suits :
    ∀ (number : Nat) area,
      areas[number]? = some area → Suits is444 strategies number area
  shows :
    ∀ (place : Nat) block,
      scan.blocks[place]? = some block →
      Shows width strategies quants areas place block
  sharp :
    ∀ (place : Nat) block,
      place < position →
      scan.blocks[place]? = some block →
      sharpness[place]? = some (block.sharpness : Int) ∧ block.sharpness < 8
  used :
    ∀ raw,
      scan.usedAcs.testBit raw = true ↔
        ∃ number : Nat, number < areas.length ∧ strategies[number]? = some (raw : Int)

variable {width height position : Nat} {is444 : Bool}
  {strategies quants sharpness : List Int} {areas : List Area} {area : Area}
  {self next : Scan}

variable {extent : Extent}

/-- A strategy's rectangle has a cell. -/
theorem extent_pos
    {raw : Int}
    (isExtent : strategyExtent raw = .ok extent) :
    0 < extent.x ∧ 0 < extent.y := by
  have positive := (shape_of_strategyExtent isExtent).positive
  exact lt_min_iff.1 positive

/-- Marking free cells gives them the strategy; a cell in use stops it. -/
theorem markBlocks_iff
    {raw : Nat}
    (known : raw < 256)
    {positions : List Nat}
    {blocks marked : List Block}
    (distinct : positions.Nodup)
    (inside : ∀ position ∈ positions, position < blocks.length) :
    positions.foldlM (markBlock raw) blocks = .ok marked ↔
      (∀ position ∈ positions,
          ∀ block, blocks[position]? = some block → block.strategy = 255) ∧
        marked =
          blocks.mapIdx fun position block =>
            if position ∈ positions then { block with strategy := raw } else block := by
  induction positions generalizing blocks with
  | nil =>
      have unchanged : blocks.mapIdx (fun _ block => block) = blocks := by
        refine List.ext_getElem? fun position => ?_
        rw [List.getElem?_mapIdx, Option.map_id']
      simp [unchanged, eq_comm]
  | cons head tail inductionHypothesis =>
      obtain ⟨notInTail, distinct'⟩ := List.nodup_cons.1 distinct
      have headInside := inside head List.mem_cons_self
      rw [List.foldlM_cons, markBlock, index_ok headInside, ok_bind]
      by_cases inUse : blocks[head].strategy ≠ 255
      · rw [if_pos inUse]
        constructor
        · exact nofun
        · rintro ⟨free, _⟩
          exact absurd
            (free head List.mem_cons_self _ (List.getElem?_eq_getElem headInside)) inUse
      · rw [if_neg inUse, castU_ok known, ok_bind, store_ok headInside, ok_bind,
          inductionHypothesis distinct' (by
            intro position isMember
            rw [List.length_set]
            exact inside position (List.mem_cons_of_mem _ isMember))]
        refine and_congr ?_ (Eq.congr_right ?_)
        · constructor
          · intro free position isMember block found
            rcases List.mem_cons.1 isMember with rfl | inTail
            · rw [List.getElem?_eq_getElem headInside, Option.some.injEq] at found
              rw [← found]
              exact not_not.1 inUse
            · refine free position inTail block ?_
              rwa [List.getElem?_set_ne]
              rintro rfl
              exact notInTail inTail
          · intro free position isMember block found
            refine free position (List.mem_cons_of_mem _ isMember) block ?_
            rwa [List.getElem?_set_ne] at found
            rintro rfl
            exact notInTail isMember
        · refine List.ext_getElem? fun position => ?_
          rw [List.getElem?_mapIdx, List.getElem?_mapIdx]
          by_cases isHead : position = head
          · subst isHead
            rw [List.getElem?_set_self headInside, List.getElem?_eq_getElem headInside,
              Option.map_some, Option.map_some, if_neg notInTail,
              if_pos List.mem_cons_self]
          · rw [List.getElem?_set_ne (Ne.symm isHead)]
            simp only [List.mem_cons, isHead, false_or]

/-- The rectangle of a strategy that is placed at a cell. -/
def areaAt
    (width position : Nat)
    (extent : Extent) :
    Area where
  left := position % width
  top := position / width
  columns := extent.x
  rows := extent.y

theorem foldlM_flatMap
    {α β γ : Type}
    {step : β → γ → Checked β}
    {parts : α → List γ}
    {items : List α}
    {start : β} :
    (items.flatMap parts).foldlM step start =
      items.foldlM (fun state item => (parts item).foldlM step state) start := by
  induction items generalizing start with
  | nil =>
      rfl
  | cons head tail inductionHypothesis =>
      rw [List.flatMap_cons, List.foldlM_append, List.foldlM_cons]
      exact bind_congr fun _ => inductionHypothesis

/-- The cells of a rectangle are marked row by row. -/
theorem markRows_eq
    {raw : Nat}
    {blocks : List Block} :
    (List.range extent.y).foldlM
        (fun blocks dy =>
          (List.range extent.x).foldlM
            (fun blocks dx =>
              markBlock raw blocks
                ((position / width + dy) * width + position % width + dx))
            blocks)
        blocks =
      ((areaAt width position extent).numbers width).foldlM (markBlock raw) blocks := by
  unfold Area.numbers areaAt
  rw [foldlM_flatMap]
  simp only [List.foldlM_map]

/-- Staying in the AC group is to end in the square where the transform starts. -/
theorem sameSquare_iff
    {start count : Nat}
    (positive : 0 < count) :
    count ≤ 32 - start % 32 ↔ start / 32 = (start + count - 1) / 32 := by
  omega

theorem leavesGroup_iff
    (positive : 0 < extent.x ∧ 0 < extent.y) :
    leavesGroup width height (position % width) (position / width) extent = false ↔
      (areaAt width position extent).Fits width height ∧
        position % width / 32 = (position % width + extent.x - 1) / 32 ∧
        position / width / 32 = (position / width + extent.y - 1) / 32 := by
  rw [← sameSquare_iff positive.1, ← sameSquare_iff positive.2]
  unfold leavesGroup acGroupBlocks
  rw [decide_eq_false_iff_not]
  constructor
  · intro stays
    exact ⟨⟨positive.1, positive.2, by dsimp only [areaAt]; omega,
      by dsimp only [areaAt]; omega⟩, by omega, by omega⟩
  · rintro ⟨⟨_, _, inWidth, inHeight⟩, column, row⟩
    dsimp only [areaAt] at inWidth inHeight
    omega

/-- A block after a rectangle was placed. -/
def placedBlock
    (width position raw quant : Nat)
    (area : Area)
    (place : Nat)
    (block : Block) :
    Block :=
  if place = position then
    { block with strategy := raw, isFirst := true, quant }
  else if area.Covers (cellAt width place) then
    { block with strategy := raw }
  else
    block

theorem quantOf_bounds
    (sample : Int) :
    1 ≤ quantOf sample ∧ quantOf sample ≤ 256 := by
  unfold quantOf
  omega

/-- Placing the next strategy at a cell where its rectangle is free. -/
theorem placeBlock_ok
    {raw : Nat}
    {sample : Int}
    (found : strategies[self.num]? = some (raw : Int))
    (isExtent : strategyExtent raw = .ok extent)
    (paired : quants[self.num]? = some sample)
    (single : is444 = false → extent.x = 1 ∧ extent.y = 1)
    (stays :
      leavesGroup width height (position % width) (position / width) extent = false)
    (length : self.blocks.length = width * height)
    (inGrid : position < width * height)
    (free :
      ∀ (place : Nat) block,
        (areaAt width position extent).Covers (cellAt width place) →
        self.blocks[place]? = some block → block.strategy = 255) :
    placeBlock width height is444 strategies quants self position =
      .ok {
        blocks :=
          self.blocks.mapIdx
            (placedBlock width position raw (quantOf sample).toNat
              (areaAt width position extent))
        num := self.num + 1
        usedAcs := self.usedAcs ||| shlU 32 1 raw } := by
  have positive := extent_pos isExtent
  obtain ⟨fits, _⟩ := (leavesGroup_iff positive).1 stays
  obtain ⟨number, known, isNumber⟩ := strategyExtent_known isExtent
  rw [kNumValidStrategies] at known
  have small : raw < 27 := by
    omega
  have inRows :
      ∀ place ∈ (areaAt width position extent).numbers width,
        place < self.blocks.length := by
    intro place isMember
    rw [Area.mem_numbers fits.inWidth] at isMember
    rw [length]
    exact fits.number_lt isMember
  have marked :=
    (markBlocks_iff (show raw < 256 by omega)
      (Area.nodup_numbers fits.inWidth) inRows).2
      ⟨fun place isMember block =>
        free place block ((Area.mem_numbers fits.inWidth).1 isMember), rfl⟩
  have inMarked :
      position < (self.blocks.mapIdx fun place block =>
        if place ∈ (areaAt width position extent).numbers width then
          { block with strategy := raw }
        else block).length := by
    rw [List.length_mapIdx, length]
    exact inGrid
  have cornerIn : position ∈ (areaAt width position extent).numbers width :=
    (Area.mem_numbers fits.inWidth).2 fits.covers_corner
  have quantFits : (quantOf sample).toNat < 2 ^ 16 := by
    have bounds := quantOf_bounds sample
    omega
  rw [placeBlock, index_eq_ok.2 found, ok_bind, isExtent, ok_bind, if_neg (by
    rintro ⟨subsampled, large⟩
    have one := single subsampled
    omega)]
  dsimp only
  rw [if_neg (by rw [stays]; exact Bool.false_ne_true), Int.toNat_natCast, markRows_eq,
    marked, ok_bind, index_ok inMarked, ok_bind, index_eq_ok.2 paired, ok_bind]
  change castU 16 (quantOf sample).toNat >>= _ = _
  rw [castU_ok quantFits, ok_bind, store_ok inMarked, ok_bind,
    castU_ok (show raw < 2 ^ 5 by omega), ok_bind, pure_eq_ok]
  congr 2
  refine List.ext_getElem? fun place => ?_
  rw [List.getElem?_mapIdx]
  by_cases isCorner : place = position
  · subst isCorner
    rw [List.getElem?_set_self inMarked, List.getElem_mapIdx, if_pos cornerIn,
      List.getElem?_eq_getElem (by rw [length]; exact inGrid), Option.map_some,
      placedBlock, if_pos rfl]
  · rw [List.getElem?_set_ne (Ne.symm isCorner), List.getElem?_mapIdx]
    refine congrArg (fun change => Option.map change _) (funext fun block => ?_)
    rw [placedBlock, if_neg isCorner]
    simp only [Area.mem_numbers fits.inWidth]

/-- A strategy that was placed had a rectangle of free cells. -/
theorem exists_area_of_placeBlock
    (length : self.blocks.length = width * height)
    (placed :
      placeBlock width height is444 strategies quants self position = .ok next) :
    ∃ raw extent,
      strategies[self.num]? = some raw ∧
        strategyExtent raw = .ok extent ∧
        (is444 = false → extent.x = 1 ∧ extent.y = 1) ∧
        leavesGroup width height (position % width) (position / width) extent =
          false ∧
        ∀ (place : Nat) block,
          (areaAt width position extent).Covers (cellAt width place) →
          self.blocks[place]? = some block → block.strategy = 255 := by
  unfold placeBlock at placed
  obtain ⟨raw, found, placed⟩ := bind_eq_ok.1 placed
  obtain ⟨extent, isExtent, placed⟩ := bind_eq_ok.1 placed
  have positive := extent_pos isExtent
  rw [index_eq_ok] at found
  split at placed
  · exact nomatch placed
  · next allowed =>
      dsimp only at placed
      split at placed
      · exact nomatch placed
      · next stays =>
          rw [Bool.not_eq_true] at stays
          obtain ⟨fits, _⟩ := (leavesGroup_iff positive).1 stays
          obtain ⟨blocks, marked, _⟩ := bind_eq_ok.1 placed
          obtain ⟨number, known, isNumber⟩ := strategyExtent_known isExtent
          rw [kNumValidStrategies] at known
          rw [markRows_eq, markBlocks_iff (by omega)
            (Area.nodup_numbers fits.inWidth)] at marked
          · refine ⟨raw, extent, found, isExtent, ?_, stays, ?_⟩
            · intro subsampled
              have small := not_and.1 allowed subsampled
              omega
            · intro place block covers
              exact marked.1 place ((Area.mem_numbers fits.inWidth).2 covers) block
          · intro place isMember
            rw [Area.mem_numbers fits.inWidth] at isMember
            rw [length]
            exact fits.number_lt isMember

/-- The scan after the sharpness of a block is known. -/
def Scan.sharpened
    (self : Scan)
    (position : Nat)
    (sharp : Int) :
    Scan :=
  { self with
    blocks :=
      self.blocks.modify position fun block =>
        { block with sharpness := sharp.toNat } }

namespace Expanded

theorem start :
    Expanded width height is444 strategies quants sharpness 0 []
      { blocks := List.replicate (width * height) {}, num := 0, usedAcs := 0 } where
  num := rfl
  length := List.length_replicate
  suits := nofun
  shows := by
    intro place block found
    rw [List.getElem?_replicate] at found
    split at found
    · cases found
      refine ⟨nofun, fun _ => rfl, ?_, nofun, fun _ => rfl⟩
      simp
    · exact nomatch found
  sharp := nofun
  used := by
    simp

/-- A block without a strategy belongs to a free cell. -/
theorem covered_iff
    {place : Nat}
    {block : Block}
    (expanded :
      Expanded width height is444 strategies quants sharpness position areas self)
    (found : self.blocks[place]? = some block) :
    Covered areas (cellAt width place) ↔ block.strategy ≠ 255 := by
  have shows := expanded.shows place block found
  constructor
  · rintro ⟨area, isMember, covers⟩
    obtain ⟨number, atNumber⟩ := List.mem_iff_getElem?.1 isMember
    have isStrategy := shows.strategy number area atNumber covers
    obtain ⟨raw, extent, isRaw, isExtent, _⟩ := (expanded.suits number area atNumber).shape
    obtain ⟨number', known, rfl⟩ := strategyExtent_known isExtent
    rw [isStrategy, Option.some.injEq] at isRaw
    rw [kNumValidStrategies] at known
    omega
  · intro inUse
    by_contra isFree
    exact inUse (shows.unused isFree)

/-- An earlier rectangle covers its corner. -/
theorem covers_corner
    (expanded :
      Expanded width height is444 strategies quants sharpness position areas self)
    (number : Nat)
    (area : Area)
    (found : areas[number]? = some area) :
    area.Covers area.corner := by
  obtain ⟨raw, extent, _, isExtent, columns, rows⟩ :=
    (expanded.suits number area found).shape
  have positive := extent_pos isExtent
  unfold Area.Covers Area.corner
  omega

variable {sharp : Int}

theorem sharpened
    (expanded :
      Expanded width height is444 strategies quants sharpness position areas self)
    (isSharp : sharpness[position]? = some sharp)
    (inRange : 0 ≤ sharp ∧ sharp < 8) :
    Expanded width height is444 strategies quants sharpness (position + 1) areas
      (self.sharpened position sharp) where
  num := expanded.num
  length := by
    rw [Scan.sharpened, List.length_modify]
    exact expanded.length
  suits := expanded.suits
  shows := by
    intro place block found
    rw [Scan.sharpened, List.getElem?_modify] at found
    obtain ⟨block', found', rfl⟩ := Option.map_eq_some_iff.1 found
    obtain ⟨strategy, unused, isFirst, quant, noQuant⟩ :=
      expanded.shows place block' found'
    by_cases here : position = place
    · rw [if_pos here]
      exact ⟨strategy, unused, isFirst, quant, noQuant⟩
    · rw [if_neg here]
      exact ⟨strategy, unused, isFirst, quant, noQuant⟩
  sharp := by
    intro place block before found
    rw [Scan.sharpened, List.getElem?_modify] at found
    obtain ⟨block', found', rfl⟩ := Option.map_eq_some_iff.1 found
    by_cases here : position = place
    · rw [if_pos here, ← here, isSharp]
      dsimp only
      rw [Int.toNat_of_nonneg inRange.1]
      exact ⟨rfl, by omega⟩
    · rw [if_neg here]
      exact expanded.sharp place block' (by omega) found'
  used := expanded.used

/-- The rectangle of the next strategy is put behind the others. -/
theorem placed
    {raw : Nat}
    {sample : Int}
    {extent : Extent}
    (expanded :
      Expanded width height is444 strategies quants sharpness position areas self)
    (found : strategies[self.num]? = some (raw : Int))
    (isExtent : strategyExtent raw = .ok extent)
    (paired : quants[self.num]? = some sample)
    {corner : Nat}
    (suits : Suits is444 strategies areas.length (areaAt width corner extent))
    (free :
      ∀ cell,
        (areaAt width corner extent).Covers cell → ¬ Covered areas cell) :
    Expanded width height is444 strategies quants sharpness position
      (areas ++ [areaAt width corner extent]) {
        blocks :=
          self.blocks.mapIdx
            (placedBlock width corner raw (quantOf sample).toNat
              (areaAt width corner extent))
        num := self.num + 1
        usedAcs := self.usedAcs ||| shlU 32 1 raw } where
  num := by
    rw [List.length_append, List.length_singleton, expanded.num]
  length := by
    rw [List.length_mapIdx]
    exact expanded.length
  suits := Scanned.concat expanded.suits suits
  shows := by
    intro place block found'
    rw [List.getElem?_mapIdx] at found'
    obtain ⟨block', isBlock, rfl⟩ := Option.map_eq_some_iff.1 found'
    obtain ⟨strategy, unused, isFirst, quant, noQuant⟩ :=
      expanded.shows place block' isBlock
    have coversCorner :
        (areaAt width corner extent).Covers (cellAt width corner) := by
      have positive := extent_pos isExtent
      unfold Area.Covers areaAt cellAt
      dsimp only
      omega
    rw [expanded.num] at found paired
    -- The cells of the new rectangle belong to no earlier one.
    have newStrategy
        (covers : (areaAt width corner extent).Covers (cellAt width place)) :
        ∀ (number : Nat) area',
          (areas ++ [areaAt width corner extent])[number]? = some area' →
          area'.Covers (cellAt width place) →
          strategies[number]? = some (raw : Int) :=
      Scanned.concat
        (fun _ area' isOld coversOld =>
          absurd ⟨area', List.mem_of_getElem? isOld, coversOld⟩ (free _ covers))
        fun _ => found
    by_cases isCorner : place = corner
    · subst isCorner
      rw [placedBlock, if_pos rfl]
      refine ⟨newStrategy coversCorner, ?_, ?_, ?_, nofun⟩
      · intro isFree
        exact absurd (covered_concat.2 (Or.inr coversCorner)) isFree
      · exact iff_of_true rfl ⟨_, List.mem_append_right _ List.mem_cons_self, rfl⟩
      · refine Scanned.concat ?_ fun _ => ⟨sample, paired, ?_⟩
        · intro number area' isOld atCell
          have covers := expanded.covers_corner number area' isOld
          rw [atCell] at covers
          exact absurd ⟨area', List.mem_of_getElem? isOld, covers⟩ (free _ coversCorner)
        · exact Int.toNat_of_nonneg (by have bounds := quantOf_bounds sample; omega)
    · have elsewhere : (areaAt width corner extent).corner ≠ cellAt width place := by
        intro same
        refine isCorner ?_
        rw [← cellAt_number width place, ← same]
        exact cellAt_number width corner
      have isFirst' :
          block'.isFirst = true ↔
            ∃ area' ∈ areas ++ [areaAt width corner extent],
              area'.corner = cellAt width place := by
        rw [isFirst]
        simp only [List.mem_append, List.mem_singleton, or_and_right, exists_or,
          exists_eq_left, elsewhere, or_false]
      have quant' :=
        @Scanned.concat areas (areaAt width corner extent) _ quant
          fun atCell => absurd atCell elsewhere
      rw [placedBlock, if_neg isCorner]
      by_cases covers : (areaAt width corner extent).Covers (cellAt width place)
      · rw [if_pos covers]
        refine ⟨newStrategy covers, ?_, isFirst', quant', noQuant⟩
        intro isFree
        exact absurd (covered_concat.2 (Or.inr covers)) isFree
      · rw [if_neg covers]
        refine ⟨?_, ?_, isFirst', quant', noQuant⟩
        · exact Scanned.concat strategy fun isCovered => absurd isCovered covers
        · intro isFree
          exact unused fun covered => isFree (covered_concat.2 (Or.inl covered))
  sharp := by
    intro place block before found'
    rw [List.getElem?_mapIdx] at found'
    obtain ⟨block', isBlock, rfl⟩ := Option.map_eq_some_iff.1 found'
    have sameLevel :
        (placedBlock width corner raw (quantOf sample).toNat
          (areaAt width corner extent) place block').sharpness = block'.sharpness := by
      unfold placedBlock
      split
      · rfl
      · split <;> rfl
    rw [sameLevel]
    exact expanded.sharp place block' before isBlock
  used := by
    intro other
    obtain ⟨number, known, isNumber⟩ := strategyExtent_known isExtent
    rw [kNumValidStrategies] at known
    rw [expanded.num] at found
    have isBit :
        (shlU 32 1 raw).testBit other = true ↔
          strategies[areas.length]? = some (other : Int) := by
      rw [found, testBit_shlU, Bool.and_eq_true, Bool.and_eq_true,
        Nat.testBit_one_eq_true_iff_self_eq_zero, decide_eq_true_iff,
        decide_eq_true_iff, Option.some.injEq]
      omega
    rw [Nat.testBit_or, Bool.or_eq_true, expanded.used other, isBit,
      List.length_append, List.length_singleton]
    simp only [Nat.lt_succ_iff_lt_or_eq, or_and_right, exists_or, exists_eq_left]

/-- A cell whose sharpness is in range is looked at with the sharpness stored. -/
theorem scanBlock_eq
    (expanded :
      Expanded width height is444 strategies quants sharpness position areas self)
    (inGrid : position < width * height)
    (isSharp : sharpness[position]? = some sharp)
    (inRange : 0 ≤ sharp ∧ sharp < 8)
    [Decidable (Covered areas (cellAt width position))] :
    scanBlock width height is444 strategies quants sharpness self position =
      if Covered areas (cellAt width position) then
        .ok (self.sharpened position sharp)
      else if strategies.length ≤ areas.length then
        fail .GenericError
      else
        placeBlock width height is444 strategies quants
          (self.sharpened position sharp) position := by
  have inside : position < self.blocks.length := by
    rw [expanded.length]
    exact inGrid
  have isSharpened :
      ({ self with
        blocks :=
          self.blocks.set position
            { self.blocks[position] with sharpness := sharp.toNat } } : Scan) =
        self.sharpened position sharp := by
    rw [Scan.sharpened]
    congr 1
    refine List.ext_getElem? fun place => ?_
    rw [List.getElem?_modify]
    by_cases here : position = place
    · subst here
      simp [inside]
    · simp [here]
  have isBlock := expanded.covered_iff (List.getElem?_eq_getElem inside)
  rw [scanBlock, index_eq_ok.2 isSharp, ok_bind, if_neg (by omega), index_ok inside,
    ok_bind, castU_ok (by omega), ok_bind, store_ok inside, ok_bind]
  simp only [isSharpened, pure_eq_ok, isBlock]
  rw [expanded.num]

/-- The step at a free cell that the next strategy's rectangle fits. -/
theorem place_step
    (expanded :
      Expanded width height is444 strategies quants sharpness position areas self)
    (scanned : Scanned width height areas position)
    (inGrid : position < width * height)
    (paired : strategies.length = quants.length)
    (isSharp : sharpness[position]? = some sharp)
    (inRange : 0 ≤ sharp ∧ sharp < 8)
    (atCell : area.corner = cellAt width position)
    (fits : area.Fits width height)
    (suits : Suits is444 strategies areas.length area)
    (free : ∀ cell, area.Covers cell → ¬ Covered areas cell) :
    ∃ next,
      scanBlock width height is444 strategies quants sharpness self position =
          .ok next ∧
        Expanded width height is444 strategies quants sharpness (position + 1)
          (areas ++ [area]) next ∧
        Scanned width height (areas ++ [area]) (position + 1) := by
  classical
  obtain ⟨raw, extent, isRaw, isExtent, isColumns, isRows⟩ := suits.shape
  obtain ⟨number, _, rfl⟩ := strategyExtent_known isExtent
  have isArea : area = areaAt width position extent := by
    obtain ⟨left, top, columns, rows⟩ := area
    obtain ⟨isLeft, isTop⟩ := Prod.mk.inj atCell
    dsimp only at isColumns isRows isLeft isTop
    rw [isLeft, isTop, isColumns, isRows]
    rfl
  subst isArea
  have inside := (List.getElem?_eq_some_iff.1 isRaw).1
  obtain ⟨sample, isSample⟩ : ∃ sample, quants[areas.length]? = some sample :=
    ⟨_, List.getElem?_eq_getElem (paired ▸ inside)⟩
  have sharpened := expanded.sharpened isSharp inRange
  have single (subsampled : is444 = false) : extent.x = 1 ∧ extent.y = 1 :=
    suits.single subsampled
  have stays :=
    (leavesGroup_iff (extent_pos isExtent)).2 ⟨fits, suits.sameColumn, suits.sameRow⟩
  have freeBlocks
      (place : Nat)
      (block : Block)
      (covers : (areaAt width position extent).Covers (cellAt width place))
      (found : (self.sharpened position sharp).blocks[place]? = some block) :
      block.strategy = 255 := by
    have notCovered := free _ covers
    rw [sharpened.covered_iff found] at notCovered
    exact not_not.1 notCovered
  rw [← sharpened.num] at isRaw isSample
  have placedOk :=
    placeBlock_ok isRaw isExtent isSample single stays sharpened.length inGrid freeBlocks
  have notCovered : ¬ Covered areas (cellAt width position) :=
    free _ fits.covers_corner
  refine ⟨_, ?_, sharpened.placed isRaw isExtent isSample suits free,
    scanned.place inGrid rfl fits free⟩
  rw [expanded.scanBlock_eq inGrid isSharp inRange, if_neg notCovered,
    if_neg (by omega), placedOk]

/-- The step at a covered cell. -/
theorem skip_step
    (expanded :
      Expanded width height is444 strategies quants sharpness position areas self)
    (scanned : Scanned width height areas position)
    (inGrid : position < width * height)
    (isSharp : sharpness[position]? = some sharp)
    (inRange : 0 ≤ sharp ∧ sharp < 8)
    (covered : Covered areas (cellAt width position)) :
    ∃ next,
      scanBlock width height is444 strategies quants sharpness self position =
          .ok next ∧
        Expanded width height is444 strategies quants sharpness (position + 1) areas
          next ∧
        Scanned width height areas (position + 1) := by
  classical
  refine ⟨_, ?_, expanded.sharpened isSharp inRange, scanned.skip covered⟩
  rw [expanded.scanBlock_eq inGrid isSharp inRange, if_pos covered]

/-- A step that succeeds has met a covered cell or placed a rectangle. -/
theorem step_of_ok
    (expanded :
      Expanded width height is444 strategies quants sharpness position areas self)
    (scanned : Scanned width height areas position)
    (inGrid : position < width * height)
    (paired : strategies.length = quants.length)
    (ran :
      scanBlock width height is444 strategies quants sharpness self position =
        .ok next) :
    ∃ areas',
      Expanded width height is444 strategies quants sharpness (position + 1) areas'
          next ∧
        Scanned width height areas' (position + 1) := by
  classical
  obtain ⟨sharp, isSharp, inRange⟩ :
      ∃ sharp, sharpness[position]? = some sharp ∧ 0 ≤ sharp ∧ sharp < 8 := by
    unfold scanBlock at ran
    obtain ⟨sharp, isSharp, ran⟩ := bind_eq_ok.1 ran
    split at ran
    · exact nomatch ran
    · exact ⟨sharp, index_eq_ok.1 isSharp, by omega, by omega⟩
  by_cases covered : Covered areas (cellAt width position)
  · obtain ⟨next', ran', holds⟩ :=
      expanded.skip_step scanned inGrid isSharp inRange covered
    rw [ran, Except.ok.injEq] at ran'
    exact ⟨areas, ran' ▸ holds⟩
  · have sharpened := expanded.sharpened isSharp inRange
    have placed := ran
    rw [expanded.scanBlock_eq inGrid isSharp inRange, if_neg covered] at placed
    split at placed
    · exact nomatch placed
    · obtain ⟨raw, extent, isRaw, isExtent, single, stays, free⟩ :=
        exists_area_of_placeBlock sharpened.length placed
      obtain ⟨fits, sameColumn, sameRow⟩ := (leavesGroup_iff (extent_pos isExtent)).1 stays
      rw [sharpened.num] at isRaw
      obtain ⟨next', ran', holds⟩ :=
        expanded.place_step scanned inGrid paired isSharp inRange rfl fits
          ⟨⟨raw, extent, isRaw, isExtent, rfl, rfl⟩, single, sameColumn, sameRow⟩ (by
            intro cell covers isCovered
            have inWidth : cell.1 < width :=
              Nat.lt_of_lt_of_le covers.1.2 fits.inWidth
            have isCell := cellAt_of_number inWidth
            rw [← isCell] at covers isCovered
            obtain ⟨block, found⟩ :
                ∃ block,
                  (self.sharpened position sharp).blocks[cell.2 * width + cell.1]? =
                    some block :=
              ⟨_, List.getElem?_eq_getElem (by
                rw [sharpened.length]
                exact fits.number_lt covers)⟩
            exact (sharpened.covered_iff found).1 isCovered (free _ block covers found))
      rw [ran, Except.ok.injEq] at ran'
      exact ⟨_, ran' ▸ holds⟩

end Expanded

/--
The strategies, taken in order and each placed at the first free cell, tile the
map.  Strategies behind the last placed one take no part.
-/
structure Tiling
    (width height : Nat)
    (is444 : Bool)
    (strategies : List Int)
    (areas : List Area) :
    Prop where
  tiles : Tiles width height areas
  suits :
    ∀ (number : Nat) area,
      areas[number]? = some area → Suits is444 strategies number area

/-- The sizes that a map and its channels may have. -/
structure Sized
    (width height : Nat)
    (strategies quants sharpness : List Int) :
    Prop where
  someColumns : 1 ≤ width ∧ width ≤ 256
  someRows : 1 ≤ height ∧ height ≤ 256
  paired : strategies.length = quants.length
  oneSharpness : sharpness.length = width * height

/-- A block map that says what the rectangles, the quants and the sharpness are. -/
structure Describes
    (width height : Nat)
    (strategies quants sharpness : List Int)
    (areas : List Area)
    (map : BlockMap) :
    Prop where
  isWidth : map.width = width
  isHeight : map.height = height
  length : map.blocks.length = width * height
  shows :
    ∀ (place : Nat) block,
      map.blocks[place]? = some block →
      Shows width strategies quants areas place block
  sharp :
    ∀ (place : Nat) block,
      map.blocks[place]? = some block →
      sharpness[place]? = some (block.sharpness : Int)
  used :
    ∀ raw,
      map.usedAcs.testBit raw = true ↔
        ∃ number : Nat, number < areas.length ∧ strategies[number]? = some (raw : Int)

theorem Tiling.fits
    (tiling : Tiling width height is444 strategies areas)
    (isMember : area ∈ areas) :
    area.Fits width height := by
  obtain ⟨number, found⟩ := List.mem_iff_getElem?.1 isMember
  obtain ⟨raw, extent, _, isExtent, columns, rows⟩ :=
    (tiling.suits number area found).shape
  have positive := extent_pos isExtent
  exact tiling.tiles.fits isMember (by omega) (by omega)

/-- A successful scan has placed rectangles that tile the map. -/
theorem tiling_of_scan
    (paired : strategies.length = quants.length)
    (ran :
      (List.range (width * height)).foldlM
          (scanBlock width height is444 strategies quants sharpness)
          { blocks := List.replicate (width * height) {}, num := 0, usedAcs := 0 } =
        .ok next) :
    ∃ areas,
      Tiling width height is444 strategies areas ∧
        Expanded width height is444 strategies quants sharpness (width * height)
          areas next := by
  obtain ⟨areas, expanded, scanned⟩ :=
    foldlM_range_of_ok
      (fun position self =>
        ∃ areas,
          Expanded width height is444 strategies quants sharpness position areas
              self ∧
            Scanned width height areas position)
      ran ⟨[], Expanded.start, Scanned.start width height⟩ (by
        rintro position self next inGrid ran' ⟨areas, expanded, scanned⟩
        exact expanded.step_of_ok scanned inGrid paired ran')
  exact ⟨areas, ⟨scanned.tiles, expanded.suits⟩, expanded⟩

/-- The scan finds a tiling that there is. -/
theorem scan_of_tiling
    (sized : Sized width height strategies quants sharpness)
    (tiling : Tiling width height is444 strategies areas)
    (inRange : ∀ sharp ∈ sharpness, 0 ≤ sharp ∧ sharp < 8) :
    ∃ next,
      (List.range (width * height)).foldlM
            (scanBlock width height is444 strategies quants sharpness)
            { blocks := List.replicate (width * height) {}, num := 0, usedAcs := 0 } =
          .ok next ∧
        Expanded width height is444 strategies quants sharpness (width * height)
          areas next := by
  refine ok_mono (foldlM_range_ok
    (fun position self =>
      ∃ count,
        Expanded width height is444 strategies quants sharpness position
            (areas.take count) self ∧
          Scanned width height (areas.take count) position)
    (width * height) ?_ ?_) ?_
  · exact ⟨0, Expanded.start, Scanned.start width height⟩
  · rintro position self inGrid ⟨count, expanded, scanned⟩
    obtain ⟨sharp, isSharp⟩ : ∃ sharp, sharpness[position]? = some sharp :=
      ⟨_, List.getElem?_eq_getElem (by rw [sized.oneSharpness]; exact inGrid)⟩
    have sharpOk := inRange _ (List.mem_of_getElem? isSharp)
    rcases tiling.tiles.next scanned inGrid with
      covered | ⟨area, found, atCell, free⟩
    · obtain ⟨next, ran, holds⟩ :=
        expanded.skip_step scanned inGrid isSharp sharpOk covered
      exact ⟨next, ran, count, holds⟩
    · have inside := (List.getElem?_eq_some_iff.1 found).1
      have isCount : (areas.take count).length = count :=
        List.length_take_of_le inside.le
      have suits := tiling.suits count area found
      rw [← isCount] at suits
      obtain ⟨next, ran, holds⟩ :=
        expanded.place_step scanned inGrid sized.paired isSharp sharpOk atCell
          (tiling.fits (List.mem_of_getElem? found)) suits free
      refine ⟨next, ran, count + 1, ?_⟩
      rw [List.take_add_one, found]
      exact holds
  · rintro next ⟨count, expanded, scanned⟩
    -- Nothing is left to place: the next corner would be a free cell.
    have isAll : areas.take count = areas := by
      refine List.take_of_length_le ?_
      by_contra more
      have isNext : areas[count]? = some areas[count] :=
        List.getElem?_eq_getElem (Nat.lt_of_not_le more)
      have isFirst := tiling.tiles.greedy count _ isNext
      exact
        isFirst.free
          (scanned.passed _ isFirst.inWidth (number_lt isFirst.inWidth isFirst.inHeight))
    rwa [isAll] at expanded

theorem decode_eq_ok
    {map : BlockMap} :
    decode width height is444 strategies quants sharpness = .ok map ↔
      Sized width height strategies quants sharpness ∧
        ∃ scan : Scan,
          (List.range (width * height)).foldlM
                (scanBlock width height is444 strategies quants sharpness)
                { blocks := List.replicate (width * height) {}, num := 0, usedAcs := 0 } =
              .ok scan ∧
            map = { blocks := scan.blocks, width, height, usedAcs := scan.usedAcs } := by
  unfold decode dcGroupBlocks
  split
  · next outside =>
      refine ⟨nofun, ?_⟩
      rintro ⟨⟨inWidth, inHeight, _, _⟩, _⟩
      omega
  · next inside =>
      split
      · next unpaired =>
          refine ⟨nofun, ?_⟩
          rintro ⟨⟨_, _, paired, size⟩, _⟩
          rcases unpaired with isUnpaired | isSize
          · exact absurd paired isUnpaired
          · exact absurd size isSize
      · next paired =>
          rw [not_or, not_not, not_not] at paired
          have sized : Sized width height strategies quants sharpness :=
            ⟨by omega, by omega, paired.1, paired.2⟩
          dsimp only
          rw [bind_eq_ok, and_iff_right sized]
          simp only [pure_eq_ok, Except.ok.injEq, eq_comm]

/--
A block map is accepted exactly when the strategies tile the grid and all
sharpness values are in range, and then it describes that tiling.
-/
theorem accepted_iff_tiling
    (width height : Nat)
    (is444 : Bool)
    (strategies quants sharpness : List Int) :
    ((∃ map, decode width height is444 strategies quants sharpness = .ok map) ↔
        Sized width height strategies quants sharpness ∧
          (∃ areas, Tiling width height is444 strategies areas) ∧
          ∀ sharp ∈ sharpness, 0 ≤ sharp ∧ sharp < 8) ∧
      ∀ map areas,
        decode width height is444 strategies quants sharpness = .ok map →
        Tiling width height is444 strategies areas →
        Describes width height strategies quants sharpness areas map := by
  have inRange
      {areas : List Area}
      {scan : Scan}
      (sized : Sized width height strategies quants sharpness)
      (expanded :
        Expanded width height is444 strategies quants sharpness (width * height)
          areas scan) :
      ∀ sharp ∈ sharpness, 0 ≤ sharp ∧ sharp < 8 := by
    intro sharp isMember
    obtain ⟨place, found⟩ := List.mem_iff_getElem?.1 isMember
    have inside := (List.getElem?_eq_some_iff.1 found).1
    rw [sized.oneSharpness] at inside
    obtain ⟨isSharp, small⟩ :=
      expanded.sharp place _ inside
        (List.getElem?_eq_getElem (by rw [expanded.length]; exact inside))
    rw [found, Option.some.injEq] at isSharp
    omega
  constructor
  · constructor
    · rintro ⟨map, decoded⟩
      obtain ⟨sized, scan, ran, _⟩ := decode_eq_ok.1 decoded
      obtain ⟨areas, tiling, expanded⟩ := tiling_of_scan sized.paired ran
      exact ⟨sized, ⟨areas, tiling⟩, inRange sized expanded⟩
    · rintro ⟨sized, ⟨areas, tiling⟩, inRange'⟩
      obtain ⟨scan, ran, _⟩ := scan_of_tiling sized tiling inRange'
      exact ⟨_, decode_eq_ok.2 ⟨sized, scan, ran, rfl⟩⟩
  · intro map areas decoded tiling
    obtain ⟨sized, scan, ran, rfl⟩ := decode_eq_ok.1 decoded
    obtain ⟨_, _, expanded⟩ := tiling_of_scan sized.paired ran
    obtain ⟨scan', ran', expanded'⟩ :=
      scan_of_tiling sized tiling (inRange sized expanded)
    rw [ran, Except.ok.injEq] at ran'
    subst ran'
    refine ⟨rfl, rfl, expanded'.length, expanded'.shows, ?_, expanded'.used⟩
    intro place block found
    have inside := (List.getElem?_eq_some_iff.1 found).1
    rw [expanded'.length] at inside
    exact (expanded'.sharp place block inside found).1

theorem accepted_iff_tiling_three :
    ∃ areas, Tiling 3 2 true [4, 0, 0] areas := by
  have accepted := (accepted_iff_tiling 3 2 true [4, 0, 0] [-1, 17, 256]
    [0, 1, 2, 3, 4, 7]).1.1
  exact (accepted ⟨_, rfl⟩).2.1

end Jxlz.AcMetadata.BlockMap
