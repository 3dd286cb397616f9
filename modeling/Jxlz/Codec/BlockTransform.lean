import Jxlz.Codec.ForwardExact

namespace Jxlz.InverseTransform

open CosineTransform
open Real (cos)

/-!
# The inverse transform of a block

`inverse` transforms the rows of weights into an intermediate plane, and the columns of
that plane into the pixels.
-/

/-! ## The memory of a block -/

/-- The place of a weight in the coefficients. -/
def weightPlace
    (width height fx fy : Nat) :
    Nat :=
  if width ≤ height then fx * height + fy else fy * width + fx

theorem weightPlace_lt
    {width height fx fy : Nat}
    (insideX : fx < width)
    (insideY : fy < height) :
    weightPlace width height fx fy < width * height := by
  unfold weightPlace
  split
  · calc
      fx * height + fy < (fx + 1) * height := by
        rw [Nat.add_mul]
        omega
      _ ≤ width * height := Nat.mul_le_mul_right height insideX
  · calc
      fy * width + fx < (fy + 1) * width := by
        rw [Nat.add_mul]
        omega
      _ ≤ height * width := Nat.mul_le_mul_right width insideY
      _ = width * height := Nat.mul_comm _ _

theorem layout_weightPlace
    (width height fx fy : Nat) :
    (layout width height fy).1 + fx * (layout width height fy).2 =
      weightPlace width height fx fy := by
  unfold layout weightPlace
  split
  · exact Nat.add_comm _ _
  · dsimp only
    rw [Nat.mul_one]

/-- A weight of a block. -/
noncomputable def weight
    (width height : Nat)
    (coefficients : List ℝ)
    (fx fy : Nat) :
    ℝ :=
  coefficients.getD (weightPlace width height fx fy) 0

/-- A pixel of a block: the waves along a row, and those along a column. -/
noncomputable def pixelOf
    (width height : Nat)
    (coefficients : List ℝ)
    (x y : Nat) :
    ℝ :=
  synthesis height
    (fun fy => synthesis width (fun fx => weight width height coefficients fx fy) x) y

/-- The sizes of a block and of its parts of the memory. -/
structure Block where
  width : Nat
  height : Nat
  count : Nat

namespace Block

def area
    (block : Block) :
    Nat :=
  block.width * block.height

def input
    (block : Block) :
    Span :=
  { start := 0, len := block.area }

def output
    (block : Block) :
    Span :=
  { start := block.area, len := block.count }

def intermediate
    (block : Block) :
    Span :=
  { start := block.area + block.count, len := block.area }

def scratch
    (block : Block) :
    Span :=
  { start := block.area + block.count + block.area
    len := 2 * max block.width block.height }

end Block

section

variable {block : Block}
variable {coefficients mem : List ℝ}

/-- The rows of the intermediate plane before one. -/
structure Rows
    (block : Block)
    (coefficients start : List ℝ)
    (count : Nat)
    (mem : List ℝ) :
    Prop where
  length : mem.length = start.length
  kept :
    ∀ place, place < block.area + block.count → mem[place]? = start[place]?
  done :
    ∀ fy,
      fy < count →
      ∀ x,
        x < block.width →
        mem[block.intermediate.start + (fy * block.width + x)]? =
          some (synthesis block.width
            (fun fx => weight block.width block.height coefficients fx fy) x)

/-- What the memory of a block holds at first. -/
structure Starts
    (block : Block)
    (coefficients start : List ℝ) :
    Prop where
  count : coefficients.length = block.area
  weights : ∀ place, place < block.area → start[place]? = coefficients[place]?
  length :
    start.length =
      block.area + block.count + block.area + 2 * max block.width block.height

/-- A row of weights becomes a row of the intermediate plane. -/
theorem row_step
    {level fy : Nat}
    {start : List ℝ}
    (starts : Starts block coefficients start)
    (isWidth : block.width = 2 ^ level)
    (small : level ≤ 8)
    (inside : fy < block.height)
    (rows : Rows block coefficients start fy mem) :
    ∃ next,
      (do
        let (start, step) := layout block.width block.height fy
        let row ← block.input.rest start
        let target ← block.intermediate.rest (fy * block.width)
        inverse1D exact exactTables block.width row step target 1 block.scratch mem) =
          (.ok next : Checked (List ℝ)) ∧
        Rows block coefficients start (fy + 1) next := by
  have positive : 0 < block.width := by
    rw [isWidth]
    positivity
  have places : ∀ fx, fx < block.width →
      weightPlace block.width block.height fx fy < block.area :=
    fun fx within => weightPlace_lt within inside
  have first := places 0 positive
  rw [← layout_weightPlace, Nat.zero_mul, Nat.add_zero] at first
  have inRow : fy * block.width + block.width ≤ block.area := by
    unfold Block.area
    rw [Nat.mul_comm block.width, ← Nat.succ_mul]
    exact Nat.mul_le_mul_right _ inside
  generalize isLayout : layout block.width block.height fy = parts at first
  obtain ⟨offset, step⟩ := parts
  dsimp only at first ⊢
  have isPlace : ∀ fx, offset + fx * step = weightPlace block.width block.height fx fy := by
    intro fx
    rw [← layout_weightPlace, isLayout]
  unfold Span.rest
  rw [require_ok (show offset ≤ block.input.len from Nat.le_of_lt first), ok_bind,
    pure_eq_ok, ok_bind,
    require_ok (show fy * block.width ≤ block.intermediate.len by
      change fy * block.width ≤ block.area
      omega), ok_bind, pure_eq_ok, ok_bind]
  have spec := inverse_exact small
  rw [← isWidth] at spec
  have inputPlace : ∀ fx,
      placeOf { start := block.input.start + offset, len := block.input.len - offset } step
          fx =
        weightPlace block.width block.height fx fy := by
    intro fx
    unfold placeOf Block.input
    dsimp only
    rw [Nat.zero_add, isPlace]
  have outputPlace : ∀ x,
      placeOf
          { start := block.intermediate.start + fy * block.width
            len := block.intermediate.len - fy * block.width } 1 x =
        block.intermediate.start + (fy * block.width + x) := by
    intro x
    rw [placeOf_one, Nat.add_assoc]
  have length := starts.length
  have start' : block.intermediate.start = block.area + block.count := rfl
  have notScratch : ∀ place, place < block.area + block.count + block.area →
      ¬block.scratch.Contains place := by
    unfold Span.Contains Block.scratch
    dsimp only
    omega
  obtain ⟨next, ran, transformed⟩ :=
    spec mem ⟨block.input.start + offset, block.input.len - offset⟩
      ⟨block.intermediate.start + fy * block.width,
        block.intermediate.len - fy * block.width⟩
      block.scratch step 1 (fun fx => weight block.width block.height coefficients fx fy)
      ⟨fun fx within => by
        have place := places fx within
        rw [← isPlace] at place
        change fx * step < block.area - offset
        omega, fun fx within => by
        have place := places fx within
        rw [inputPlace, rows.kept _ (by omega), starts.weights _ place,
          List.getElem?_eq_getElem (by rw [starts.count]; exact place)]
        unfold weight
        rw [List.getD_eq_getElem _ _ (by rw [starts.count]; exact place)]⟩
      (fun fx within => by
        have place := places fx within
        rw [inputPlace]
        exact notScratch _ (by omega))
      Nat.one_pos
      ⟨fun x within => by
        change x * 1 < block.area - fy * block.width
        omega, fun x within => by
        rw [outputPlace, rows.length]
        omega, fun x within => by
        rw [outputPlace]
        exact notScratch _ (by omega)⟩
      (by unfold Block.scratch; dsimp only; omega)
      (by rw [rows.length, length]; unfold Block.scratch; dsimp only; omega)
  refine ⟨next, ran, transformed.length.trans rows.length, ?_, ?_⟩
  · intro place before
    rw [transformed.kept place]
    · exact rows.kept place before
    · intro x within
      rw [outputPlace]
      omega
    · exact notScratch place (by omega)
  · intro row before x within
    rcases Nat.lt_succ_iff_lt_or_eq.1 before with earlier | rfl
    · have apart : row * block.width + block.width ≤ fy * block.width := by
        rw [← Nat.succ_mul]
        exact Nat.mul_le_mul_right _ earlier
      rw [transformed.kept]
      · exact rows.done row earlier x within
      · intro other _
        rw [outputPlace]
        omega
      · exact notScratch _ (by omega)
    · have sample := transformed.samples x within
      rw [outputPlace] at sample
      exact sample

/-- The columns of pixels before one. -/
structure Columns
    (block : Block)
    (coefficients start : List ℝ)
    (stride count : Nat)
    (mem : List ℝ) :
    Prop where
  length : mem.length = start.length
  plane :
    ∀ fy,
      fy < block.height →
      ∀ x,
        x < block.width →
        mem[block.intermediate.start + (fy * block.width + x)]? =
          some (synthesis block.width
            (fun fx => weight block.width block.height coefficients fx fy) x)
  done :
    ∀ x,
      x < count →
      ∀ y,
        y < block.height →
        mem[block.area + (y * stride + x)]? =
          some (pixelOf block.width block.height coefficients x y)
  kept :
    ∀ place,
      place < block.area + block.count →
      (∀ x,
        x < count →
        ∀ y, y < block.height → place ≠ block.area + (y * stride + x)) →
      mem[place]? = start[place]?

/-- All pixels of a block have places of their own. -/
theorem pixel_ne
    {width stride x y x' y' : Nat}
    (wide : width ≤ stride)
    (inside : x < width)
    (inside' : x' < width)
    (other : x ≠ x') :
    y * stride + x ≠ y' * stride + x' := by
  intro equal
  apply other
  have rest := congrArg (· % stride) equal
  simp only [Nat.mul_add_mod_self_right] at rest
  rw [Nat.mod_eq_of_lt (by omega), Nat.mod_eq_of_lt (by omega)] at rest
  exact rest

theorem pixel_lt
    {width height count stride x y : Nat}
    (room : height - 1 ≤ (count - width) / stride)
    (positive : 0 < stride)
    (enough : width ≤ count)
    (insideX : x < width)
    (insideY : y < height) :
    y * stride + x < count := by
  have rows : y * stride ≤ count - width := by
    rw [Nat.le_div_iff_mul_le positive] at room
    exact Nat.le_trans (Nat.mul_le_mul_right stride (by omega)) room
  omega

/-- A column of the intermediate plane becomes a column of pixels. -/
theorem column_step
    {level x stride : Nat}
    {start : List ℝ}
    (starts : Starts block coefficients start)
    (isHeight : block.height = 2 ^ level)
    (small : level ≤ 8)
    (wide : block.width ≤ stride)
    (enough : block.width ≤ block.count)
    (room : block.height - 1 ≤ (block.count - block.width) / stride)
    (inside : x < block.width)
    (columns : Columns block coefficients start stride x mem) :
    ∃ next,
      (do
        let column ← block.intermediate.rest x
        let target ← block.output.rest x
        inverse1D exact exactTables block.height column block.width target stride
          block.scratch mem) =
          (.ok next : Checked (List ℝ)) ∧
        Columns block coefficients start stride (x + 1) next := by
  have positive : 0 < stride := by
    omega
  have high : 0 < block.height := by
    rw [isHeight]
    positivity
  have inPlane : ∀ fy, fy < block.height → fy * block.width + x < block.area := by
    intro fy before
    calc
      fy * block.width + x < (fy + 1) * block.width := by
        rw [Nat.add_mul]
        omega
      _ ≤ block.height * block.width := Nat.mul_le_mul_right _ before
      _ = block.area := Nat.mul_comm _ _
  have inPixels : ∀ y, y < block.height → y * stride + x < block.count :=
    fun y before => pixel_lt room positive enough inside before
  have first := inPlane 0 high
  have length := starts.length
  have start' : block.intermediate.start = block.area + block.count := rfl
  have notScratch : ∀ place, place < block.area + block.count + block.area →
      ¬block.scratch.Contains place := by
    unfold Span.Contains Block.scratch
    dsimp only
    omega
  have inputPlace : ∀ fy,
      placeOf ⟨block.intermediate.start + x, block.intermediate.len - x⟩ block.width fy =
        block.intermediate.start + (fy * block.width + x) := by
    intro fy
    unfold placeOf
    dsimp only
    omega
  have outputPlace : ∀ y,
      placeOf ⟨block.output.start + x, block.output.len - x⟩ stride y =
        block.area + (y * stride + x) := by
    intro y
    unfold placeOf Block.output
    dsimp only
    omega
  have spec := inverse_exact small
  rw [← isHeight] at spec
  unfold Span.rest
  rw [require_ok (show x ≤ block.intermediate.len by
      change x ≤ block.area
      omega), ok_bind, pure_eq_ok, ok_bind,
    require_ok (show x ≤ block.output.len by
      change x ≤ block.count
      omega), ok_bind, pure_eq_ok, ok_bind]
  obtain ⟨next, ran, transformed⟩ :=
    spec mem ⟨block.intermediate.start + x, block.intermediate.len - x⟩
      ⟨block.output.start + x, block.output.len - x⟩ block.scratch block.width stride
      (fun fy =>
        synthesis block.width
          (fun fx => weight block.width block.height coefficients fx fy) x)
      ⟨fun fy before => by
        have place := inPlane fy before
        change fy * block.width < block.area - x
        omega, fun fy before => by
        rw [inputPlace]
        exact columns.plane fy before x inside⟩
      (fun fy before => by
        have place := inPlane fy before
        rw [inputPlace]
        exact notScratch _ (by omega))
      positive
      ⟨fun y before => by
        have place := inPixels y before
        change y * stride < block.count - x
        omega, fun y before => by
        have place := inPixels y before
        rw [outputPlace, columns.length]
        omega, fun y before => by
        have place := inPixels y before
        rw [outputPlace]
        exact notScratch _ (by omega)⟩
      (by unfold Block.scratch; dsimp only; omega)
      (by rw [columns.length, length]; unfold Block.scratch; dsimp only; omega)
  refine ⟨next, ran, transformed.length.trans columns.length, ?_, ?_, ?_⟩
  · intro fy before other within
    have place := weightPlace_lt within before
    have inside' : fy * block.width + other < block.area := by
      calc
        fy * block.width + other < (fy + 1) * block.width := by
          rw [Nat.add_mul]
          omega
        _ ≤ block.height * block.width := Nat.mul_le_mul_right _ before
        _ = block.area := Nat.mul_comm _ _
    rw [transformed.kept]
    · exact columns.plane fy before other within
    · intro y isRow
      have pixel := inPixels y isRow
      rw [outputPlace]
      omega
    · exact notScratch _ (by omega)
  · intro other before y isRow
    rcases Nat.lt_succ_iff_lt_or_eq.1 before with earlier | rfl
    · have pixel : y * stride + other < block.count :=
        pixel_lt room positive enough (by omega) isRow
      rw [transformed.kept]
      · exact columns.done other earlier y isRow
      · intro y' _
        have apart := @pixel_ne block.width stride other y x y' wide (by omega) inside
          (by omega)
        rw [outputPlace]
        omega
      · exact notScratch _ (by omega)
    · have sample := transformed.samples y isRow
      rw [outputPlace] at sample
      exact sample
  · intro place before outside
    rw [transformed.kept place]
    · exact columns.kept place before fun other earlier =>
        outside other (Nat.lt_succ_of_lt earlier)
    · intro y isRow
      rw [outputPlace]
      exact outside x (Nat.lt_succ_self x) y isRow
    · exact notScratch place (by omega)

end

theorem and_pred_two_pow
    (level : Nat) :
    2 ^ level &&& (2 ^ level - 1) = 0 := by
  rw [Nat.and_two_pow_sub_one_eq_mod, Nat.mod_self]

/-- The inverse transform of a block, for both layouts of the weights. -/
theorem inverse_block
    {across down : Nat}
    (smallX : across ≤ 8)
    (smallY : down ≤ 8)
    (undefined : Nat → ℝ)
    {coefficients pixels : List ℝ}
    {stride : Nat}
    (count : coefficients.length = 2 ^ across * 2 ^ down)
    (wide : 2 ^ across ≤ stride)
    (enough : 2 ^ across ≤ pixels.length)
    (room : 2 ^ down - 1 ≤ (pixels.length - 2 ^ across) / stride) :
    ∃ result,
      inverse exact exactTables undefined (2 ^ across) (2 ^ down) coefficients pixels stride =
          .ok result ∧
        result.length = pixels.length ∧
        (∀ x,
          x < 2 ^ across →
          ∀ y,
            y < 2 ^ down →
            result[y * stride + x]? =
              some (pixelOf (2 ^ across) (2 ^ down) coefficients x y)) ∧
        ∀ place,
          (∀ x,
            x < 2 ^ across →
            ∀ y, y < 2 ^ down → place ≠ y * stride + x) →
          result[place]? = pixels[place]? := by
  have limitX : 2 ^ across ≤ 2 ^ 8 :=
    Nat.pow_le_pow_right (by decide) smallX
  have limitY : 2 ^ down ≤ 2 ^ 8 :=
    Nat.pow_le_pow_right (by decide) smallY
  have positiveX : 0 < 2 ^ across := by
    positivity
  have positiveY : 0 < 2 ^ down := by
    positivity
  have masks := And.intro (and_pred_two_pow across) (and_pred_two_pow down)
  generalize isWidth : 2 ^ across = width at *
  generalize isHeight : 2 ^ down = height at *
  let block : Block := { width := width, height := height, count := pixels.length }
  let size := width * height + 2 * max width height
  let start := coefficients ++ pixels ++ (List.range size).map undefined
  have startLength : start.length =
      block.area + block.count + block.area + 2 * max width height := by
    change (coefficients ++ pixels ++ (List.range size).map undefined).length =
      width * height + pixels.length + width * height + 2 * max width height
    rw [List.length_append, List.length_append, List.length_map, List.length_range, count]
    omega
  have starts : Starts block coefficients start := by
    refine ⟨count, ?_, startLength⟩
    intro place inside
    have within : place < coefficients.length := by
      rw [count]
      exact inside
    change (coefficients ++ pixels ++ (List.range size).map undefined)[place]? = _
    rw [List.append_assoc, List.getElem?_append_left within]
  obtain ⟨middle, ranRows, rows⟩ :=
    foldlM_range_ok (Rows block coefficients start) height
      ⟨rfl, fun _ _ => rfl, fun _ none => absurd none (Nat.not_lt_zero _)⟩
      fun fy state inside rows => row_step starts isWidth.symm smallX inside rows
  have columns : Columns block coefficients start stride 0 middle :=
    { length := rows.length
      plane := rows.done
      done := fun _ none => absurd none (Nat.not_lt_zero _)
      kept := fun place before _ => rows.kept place before }
  obtain ⟨last, ranColumns, done⟩ :=
    foldlM_range_ok (Columns block coefficients start stride) width columns
      fun x state inside columns =>
        column_step starts isHeight.symm smallY wide enough room inside columns
  have found : ∀ place, place < pixels.length →
      ((last.drop block.area).take pixels.length)[place]? = last[block.area + place]? := by
    intro place inside
    rw [List.getElem?_take_of_lt inside, List.getElem?_drop]
  have length : ((last.drop block.area).take pixels.length).length = pixels.length := by
    rw [List.length_take, List.length_drop, done.length, startLength]
    change min pixels.length
      (width * height + pixels.length + width * height + 2 * max width height -
        width * height) = _
    omega
  refine ⟨(last.drop block.area).take pixels.length, ?_, length, ?_, ?_⟩
  · have plane :
        Span.piece ⟨width * height + pixels.length, size⟩ 0 (width * height) =
          .ok block.intermediate := by
      unfold Span.piece
      rw [require_ok (show 0 + width * height ≤ size by omega)]
      rfl
    have space :
        Span.rest ⟨width * height + pixels.length, size⟩ (width * height) =
          .ok block.scratch := by
      unfold Span.rest
      rw [require_ok (show width * height ≤ size by omega), ok_bind]
      change Except.ok (Span.mk _ (size - width * height)) = _
      rw [show size - width * height = 2 * max width height from Nat.add_sub_cancel_left ..]
      rfl
    unfold inverse
    rw [if_neg (by rw [masks.1, masks.2]; omega)]
    dsimp only
    rw [if_neg (by rw [count]; omega), plane, ok_bind, space, ok_bind]
    exact bind_eq_ok.2 ⟨middle, ranRows, bind_eq_ok.2 ⟨last, ranColumns, rfl⟩⟩
  · intro x insideX y insideY
    have pixel := pixel_lt room (by omega) enough insideX insideY
    rw [found _ pixel]
    exact done.done x insideX y insideY
  · intro place outside
    by_cases inside : place < pixels.length
    · rw [found place inside, done.kept]
      · change (coefficients ++ pixels ++ (List.range size).map undefined)[
          width * height + place]? = _
        rw [List.append_assoc, List.getElem?_append_right (by omega), count,
          Nat.add_sub_cancel_left, List.getElem?_append_left inside]
      · exact Nat.add_lt_add_left inside _
      · intro x insideX y insideY equal
        exact outside x insideX y insideY (Nat.add_left_cancel equal)
    · rw [List.getElem?_eq_none (by rw [length]; omega),
        List.getElem?_eq_none (by omega)]

/-! ## All sizes -/

/--
Weights in the memory, and room for as many samples.  Neither of them lies in the scratch
space; the input and the output may overlap.
-/
structure Suited
    (mem : List ℝ)
    (n : Nat)
    (input : Span)
    (input_stride : Nat)
    (output : Span)
    (output_stride : Nat)
    (scratch : Span)
    (c : Nat → ℝ) :
    Prop where
  holds : Holds mem input input_stride n c
  apart : ∀ i, i < n → ¬scratch.Contains (placeOf input input_stride i)
  positive : 0 < output_stride
  isRoom : Room mem.length output output_stride n scratch
  space : 2 * n ≤ scratch.len
  inMemory : scratch.start + scratch.len ≤ mem.length

/-- The numeral two of the real numbers, by name. -/
local instance twoSums : Nat.AtLeastTwo 2 := ⟨Nat.le_refl 2⟩

/-- `inverse1D` adds up the cosines. -/
def SumsCosines
    (n : Nat) :
    Prop :=
  ∀ mem input input_stride output output_stride scratch c,
    Suited mem n input input_stride output output_stride scratch c →
    ∃ result,
      inverse1D exact exactTables n input input_stride output output_stride scratch mem =
          .ok result ∧
        ∀ j,
          j < n →
          result[output.start + j * output_stride]? =
            some
              (c 0 +
                √2 *
                  ∑ k ∈ Finset.Ico 1 n,
                    c k * cos (Real.pi * k * (2 * j + 1) / (2 * n)))

/-- `forward1D`, a division by the number of samples and `inverse1D` change nothing. -/
def Inverts
    (n : Nat) :
    Prop :=
  ∀ mem values scratch v,
    values.len = n →
    Suited mem n values 1 values 1 scratch v →
    ∃ (middle : List ℝ) (weights : Nat → ℝ),
      forward1D exact exactTables n values scratch mem = .ok middle ∧
        (∀ k, k < n → middle[values.start + k]? = some (weights k)) ∧
        ∀ mem' input input_stride output output_stride scratch',
          Suited mem' n input input_stride output output_stride scratch'
              (fun k => weights k / n) →
          ∃ result,
            inverse1D exact exactTables n input input_stride output output_stride
                scratch' mem' =
                .ok result ∧
              ∀ j,
                j < n →
                result[output.start + j * output_stride]? = some (v j)

/-- `inverse` adds up the cosines along both axes, for both layouts of the weights. -/
def SumsPlanes
    (width height : Nat) :
    Prop :=
  ∀ (undefined : Nat → ℝ) (coefficients pixels : List ℝ) (stride : Nat),
    coefficients.length = width * height →
    width ≤ stride →
    width ≤ pixels.length →
    height - 1 ≤ (pixels.length - width) / stride →
    ∃ result,
      inverse exact exactTables undefined width height coefficients pixels stride =
          .ok result ∧
        result.length = pixels.length ∧
        (∀ x,
          x < width →
          ∀ y,
            y < height →
            result[y * stride + x]? =
              some (pixelOf width height coefficients x y)) ∧
        ∀ place,
          (∀ x, x < width → ∀ y, y < height → place ≠ y * stride + x) →
          result[place]? = pixels[place]?

theorem synthesis_eq
    (n : Nat)
    (c : Nat → ℝ)
    (j : Nat) :
    synthesis n c j =
      c 0 +
        √2 *
          ∑ k ∈ Finset.Ico 1 n, c k * cos (Real.pi * k * (2 * j + 1) / (2 * n)) := by
  unfold synthesis angle
  congr 2
  refine Finset.sum_congr rfl fun k _ => ?_
  congr 2
  ring

theorem inverts
    {level : Nat}
    (small : level ≤ 8) :
    Inverts (2 ^ level) := by
  intro mem values scratch v length suited
  have found : ∀ i, i < 2 ^ level → mem[values.start + i]? = some (v i) := by
    intro i inside
    have isItem := suited.holds.found i inside
    rw [placeOf_one] at isItem
    exact isItem
  have apart : ∀ i, i < 2 ^ level → ¬scratch.Contains (values.start + i) := by
    intro i inside
    have outside := suited.apart i inside
    rw [placeOf_one] at outside
    exact outside
  obtain ⟨middle, ran, transformed⟩ :=
    forward_exact small mem values scratch v length found apart suited.space suited.inMemory
  refine ⟨middle, analysis (2 ^ level) v, ran, ?_, ?_⟩
  · intro k inside
    have sample := transformed.samples k inside
    rw [placeOf_one] at sample
    exact sample
  · intro mem' input input_stride output output_stride scratch' suited'
    obtain ⟨result, ran', transformed'⟩ :=
      inverse_exact small mem' input output scratch' input_stride output_stride _
        suited'.holds suited'.apart suited'.positive suited'.isRoom suited'.space
        suited'.inMemory
    refine ⟨result, ran', fun j inside => ?_⟩
    have sample := transformed'.samples j inside
    have back := synthesis_analysis v inside
    push_cast at sample back
    rw [back] at sample
    exact sample

/--
For every power of two up to 256 the transforms are the cosine transform and its inverse,
and the transform of a block works along both axes.  The constants of the source, with
exact operations, are the ones that are used here.
-/
theorem transforms_exact
    {across down : Nat}
    (smallX : across ≤ 8)
    (smallY : down ≤ 8) :
    tables exact = .ok exactTables ∧
      SumsCosines (2 ^ across) ∧
      Inverts (2 ^ across) ∧ SumsPlanes (2 ^ across) (2 ^ down) := by
  refine ⟨tables_exact, ?_, inverts smallX, ?_⟩
  · intro mem input input_stride output output_stride scratch c suited
    obtain ⟨result, ran, transformed⟩ :=
      inverse_exact smallX mem input output scratch input_stride output_stride c
        suited.holds suited.apart suited.positive suited.isRoom suited.space suited.inMemory
    refine ⟨result, ran, fun j inside => ?_⟩
    have sample := transformed.samples j inside
    rw [synthesis_eq] at sample
    exact sample
  · intro undefined coefficients pixels stride count wide enough room
    exact inverse_block smallX smallY undefined count wide enough room

/-- A block of two by four weights, and a signal of two samples. -/
theorem transforms_exact_two :
    (∃ result,
      inverse exact exactTables (fun _ => 0) (2 ^ 1) (2 ^ 2) [8, 7, 6, 5, 4, 3, 2, 1]
          [0, 0, 0, 0, 0, 0, 0, 0, 0, 0, 0, 0] 3 =
          .ok result ∧
        result[1 * 3 + 1]? = some (pixelOf 2 4 [8, 7, 6, 5, 4, 3, 2, 1] 1 1)) ∧
      ∃ result,
        inverse1D exact exactTables (2 ^ 1) ⟨0, 2⟩ 1 ⟨2, 2⟩ 1 ⟨4, 4⟩
            [5, 3, 0, 0, 0, 0, 0, 0] =
            .ok result ∧
          result[2 + 1 * 1]? =
            some
              (5 +
                √2 *
                  ∑ k ∈ Finset.Ico 1 (2 ^ 1),
                    [5, 3].getD k 0 *
                      cos (Real.pi * k * (2 * (1 : Nat) + 1) / (2 * (2 ^ 1 : Nat)))) := by
  obtain ⟨_, sums, _, planes⟩ :=
    transforms_exact (by decide : 1 ≤ 8) (by decide : 2 ≤ 8)
  constructor
  · obtain ⟨result, ran, _, pixels, _⟩ :=
      planes (fun _ => 0) [8, 7, 6, 5, 4, 3, 2, 1] [0, 0, 0, 0, 0, 0, 0, 0, 0, 0, 0, 0] 3
        rfl (by decide) (by decide) (by decide)
    exact ⟨result, ran, pixels 1 (by decide) 1 (by decide)⟩
  · have suited :
        Suited [5, 3, 0, 0, 0, 0, 0, 0] (2 ^ 1) ⟨0, 2⟩ 1 ⟨2, 2⟩ 1 ⟨4, 4⟩
          fun k => [5, 3].getD k 0 := by
      refine ⟨⟨?_, ?_⟩, ?_, Nat.one_pos, ⟨?_, ?_, ?_⟩, by decide, by simp⟩ <;>
        intro i inside <;>
          have only : i = 0 ∨ i = 1 := by
            omega
      all_goals
        rcases only with rfl | rfl <;>
          simp [placeOf, Span.Contains]
    obtain ⟨result, ran, samples⟩ := sums _ _ _ _ _ _ _ suited
    exact ⟨result, ran, samples 1 (by decide)⟩

end Jxlz.InverseTransform
