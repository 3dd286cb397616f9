import Jxlz.Base.Checked
import Jxlz.Base.Returns

namespace Jxlz

/-!
# Loops over a plane

A plane is scanned row by row.  What a step keeps about the positions before it
holds, once the scan has ended, of the whole plane.
-/

/-- The scan has passed a position when it stands in front of another one. -/
def Passed
    (y x row column : Nat) :
    Prop :=
  row < y ∨ (row = y ∧ column < x)

theorem not_passed_start
    (row column : Nat) :
    ¬ Passed 0 0 row column := by
  rintro (above | ⟨_, before⟩)
  · exact Nat.not_lt_zero row above
  · exact Nat.not_lt_zero column before

theorem passed_succ
    {y x row column : Nat} :
    Passed y (x + 1) row column ↔
      Passed y x row column ∨ (row = y ∧ column = x) := by
  unfold Passed
  omega

/-- Inside the plane the next row is reached at the end of a row. -/
theorem passed_next_row
    {y row column width : Nat}
    (inWidth : column < width) :
    Passed (y + 1) 0 row column ↔ Passed y width row column := by
  unfold Passed
  omega

theorem passed_end
    {row column height : Nat} :
    Passed height 0 row column ↔ row < height := by
  unfold Passed
  omega

/-- A weaker postcondition of a computation that succeeds. -/
theorem ok_mono
    {α : Type}
    {run : Checked α}
    {strong weak : α → Prop}
    (holds : ∃ result, run = .ok result ∧ strong result)
    (weaken : ∀ result, strong result → weak result) :
    ∃ result, run = .ok result ∧ weak result := by
  obtain ⟨result, ran, isStrong⟩ := holds
  exact ⟨result, ran, weaken result isStrong⟩

/-- What every step of a successful scan preserves. -/
theorem raster_of_ok
    {α : Type}
    {step : Nat → α → Nat → Checked α}
    (invariant : Nat → Nat → α → Prop)
    {start result : α}
    {height width : Nat}
    (ran :
      (List.range height).foldlM
          (fun state y => (List.range width).foldlM (step y) state) start =
        .ok result)
    (initially : invariant 0 0 start)
    (preserved :
      ∀ y x state next,
        y < height →
        x < width →
        step y state x = .ok next →
        invariant y x state →
        invariant y (x + 1) next)
    (nextRow :
      ∀ y state, invariant y width state → invariant (y + 1) 0 state) :
    invariant height 0 result := by
  refine
    foldlM_range_of_ok (fun y state => invariant y 0 state) ran initially ?_
  intro y state next inHeight row atStart
  refine nextRow y next ?_
  refine foldlM_range_of_ok (fun x state => invariant y x state) row atStart ?_
  intro x state next inWidth
  exact preserved y x state next inHeight inWidth

end Jxlz

namespace Jxlz

/-!
# Scans that write whole pixels

The samples of an image lie plane by plane.  A scan computes the samples of one
pixel after another and puts each into its plane; in the end every pixel holds what
was computed for it.
-/

/-- The place of a sample: planes, their rows, and the samples of a row. -/
def planarIndex
    (height width c y x : Nat) :
    Nat :=
  (c * height + y) * width + x

/-- Writing the samples of one pixel. -/
def putPixel
    {α : Type}
    (put : List α → Nat → Nat → Nat → α → Checked (List α))
    (data : List α)
    (y x : Nat)
    (values : List α) :
    Checked (List α) :=
  values.zipIdx.foldlM (fun data (value, c) => put data c y x value) data

/-- Computing and writing one pixel after another. -/
def scanPixels
    {α : Type}
    (height width : Nat)
    (put : List α → Nat → Nat → Nat → α → Checked (List α))
    (cell : Nat → Nat → Checked (List α))
    (data : List α) :
    Checked (List α) :=
  (List.range height).foldlM
    (fun data y =>
      (List.range width).foldlM
        (fun data x => do
          let values ← cell y x
          putPixel put data y x values)
        data)
    data

variable {α : Type} {channels height width : Nat}
  {put : List α → Nat → Nat → Nat → α → Checked (List α)}
  {cell : Nat → Nat → Checked (List α)} {allowed : Fault → Prop}

/-- A way of writing that replaces just the one sample. -/
def Puts
    (channels height width : Nat)
    (put : List α → Nat → Nat → Nat → α → Checked (List α)) :
    Prop :=
  ∀ data c y x value,
    data.length = channels * height * width →
    c < channels →
    y < height →
    x < width →
    put data c y x value =
      .ok (data.set (planarIndex height width c y x) value)

theorem planarIndex_lt
    {c y x : Nat}
    (inPlanes : c < channels)
    (inHeight : y < height)
    (inWidth : x < width) :
    planarIndex height width c y x < channels * height * width := by
  have row : c * height + y + 1 ≤ channels * height := by
    calc
      c * height + y + 1 ≤ (c + 1) * height := by
        rw [Nat.succ_mul]
        omega
      _ ≤ channels * height := Nat.mul_le_mul_right height inPlanes
  calc
    planarIndex height width c y x < (c * height + y + 1) * width := by
      unfold planarIndex
      rw [Nat.succ_mul]
      omega
    _ ≤ channels * height * width := Nat.mul_le_mul_right width row

theorem planarIndex_inj
    {c c' y y' x x' : Nat}
    (inHeight : y < height)
    (inHeight' : y' < height)
    (inWidth : x < width)
    (inWidth' : x' < width)
    (same : planarIndex height width c y x = planarIndex height width c' y' x') :
    c = c' ∧ y = y' ∧ x = x' := by
  unfold planarIndex at same
  have quotient
      {size rest more : Nat}
      (inside : rest < size) :
      (more * size + rest) / size = more := by
    rw [Nat.mul_comm, Nat.mul_add_div (Nat.zero_lt_of_lt inside),
      Nat.div_eq_of_lt inside, Nat.add_zero]
  have sameRow : c * height + y = c' * height + y' := by
    rw [← @quotient width x (c * height + y) inWidth, same, quotient inWidth']
  have samePlane : c = c' := by
    rw [← @quotient height y c inHeight, sameRow, quotient inHeight']
  subst samePlane
  rw [sameRow] at same
  exact ⟨rfl, by omega, by omega⟩

/-- A pixel that is written: its samples stand in their planes, nothing else changes. -/
structure PixelPut
    (height width y x : Nat)
    (values : List α)
    (before after : List α) :
    Prop where
  length : after.length = before.length
  written :
    ∀ c, c < values.length → after[planarIndex height width c y x]? = values[c]?
  kept :
    ∀ place : Nat,
      (∀ c, c < values.length → place ≠ planarIndex height width c y x) →
      after[place]? = before[place]?

theorem putPixel_ok
    (puts : Puts channels height width put)
    {data values : List α}
    {y x : Nat}
    (size : data.length = channels * height * width)
    (many : values.length = channels)
    (inHeight : y < height)
    (inWidth : x < width) :
    ∃ after,
      putPixel put data y x values = .ok after ∧
        PixelPut height width y x values data after := by
  refine ok_mono (foldlM_zipIdx_ok
    (fun count after =>
      PixelPut height width y x (values.take count) data after) values ?_ ?_) ?_
  · exact ⟨rfl, nofun, fun _ _ => rfl⟩
  · intro count value state found before
    have inside := (List.getElem?_eq_some_iff.1 found).1
    have position :
        planarIndex height width count y x < state.length := by
      rw [before.length, size]
      exact planarIndex_lt (many ▸ inside) inHeight inWidth
    refine ⟨_, puts state count y x value (by rw [before.length, size])
      (many ▸ inside) inHeight inWidth, ?_⟩
    have longer : (values.take (count + 1)).length = count + 1 :=
      List.length_take_of_le inside
    have shorter : (values.take count).length = count :=
      List.length_take_of_le inside.le
    refine ⟨by rw [List.length_set, before.length], ?_, ?_⟩
    · intro c isEarlier
      rw [longer] at isEarlier
      rw [List.getElem?_take, if_pos isEarlier]
      by_cases isLast : c = count
      · subst isLast
        rw [List.getElem?_set_self position, found]
      · rw [List.getElem?_set_ne fun same =>
          isLast (planarIndex_inj inHeight inHeight inWidth inWidth same).1.symm]
        have old := before.written c (by omega)
        rwa [List.getElem?_take, if_pos (by omega)] at old
    · intro place elsewhere
      rw [longer] at elsewhere
      rw [List.getElem?_set_ne (elsewhere count (Nat.lt_succ_self count)).symm]
      refine before.kept place fun c isEarlier => elsewhere c ?_
      omega
  · intro after holds
    rwa [List.take_length] at holds

/-- What a scan keeps: the pixels it has passed hold what was computed for them. -/
structure PixelsPut
    (channels height width : Nat)
    (cell : Nat → Nat → Checked (List α))
    (size : Nat)
    (y x : Nat)
    (data : List α) :
    Prop where
  length : data.length = size
  passed :
    ∀ row column,
      row < height →
      column < width →
      Passed y x row column →
      ∃ values,
        cell row column = .ok values ∧
          ∀ c, c < channels →
            data[planarIndex height width c row column]? = values[c]?

theorem PixelsPut.next
    (puts : Puts channels height width put)
    (sized :
      ∀ y x values,
        y < height → x < width → cell y x = .ok values → values.length = channels)
    {y x : Nat}
    {data values : List α}
    (inHeight : y < height)
    (inWidth : x < width)
    (computed : cell y x = .ok values)
    (scanned :
      PixelsPut channels height width cell (channels * height * width) y x data) :
    ∃ after,
      putPixel put data y x values = .ok after ∧
        PixelsPut channels height width cell (channels * height * width) y (x + 1)
          after := by
  have many := sized y x values inHeight inWidth computed
  obtain ⟨after, ran, isPut⟩ :=
    putPixel_ok puts scanned.length many inHeight inWidth
  refine ⟨after, ran, isPut.length.trans scanned.length, ?_⟩
  intro row column inHeight' inWidth' isPassed
  rcases passed_succ.1 isPassed with before | ⟨rfl, rfl⟩
  · obtain ⟨values', computed', holds⟩ :=
      scanned.passed row column inHeight' inWidth' before
    refine ⟨values', computed', fun c isChannel => ?_⟩
    rw [isPut.kept _ fun c' _ same => ?_, holds c isChannel]
    obtain ⟨_, sameRow, sameColumn⟩ :=
      planarIndex_inj inHeight' inHeight inWidth' inWidth same
    unfold Passed at before
    omega
  · exact ⟨values, computed, fun c isChannel => isPut.written c (many ▸ isChannel)⟩

/-- The samples of one pixel, channel by channel. -/
structure Gathers
    {α : Type}
    (channels : Nat)
    (samples : List α)
    (sample : Nat → Option α) :
    Prop where
  length : samples.length = channels
  each : ∀ c, c < channels → sample c = samples[c]?

/-- Gathering the samples of a pixel. -/
theorem gathers_of_mapM
    {α : Type}
    {channels : Nat}
    {step : Nat → Checked α}
    {sample : Nat → Option α}
    {samples : List α}
    (mapped : (List.range channels).mapM step = .ok samples)
    (each : ∀ c value, step c = .ok value → sample c = some value) :
    Gathers channels samples sample := by
  have pairs := forall₂_of_mapM_eq_ok mapped
  have length : samples.length = channels := by
    rw [← pairs.length_eq, List.length_range]
  refine ⟨length, fun c inside => ?_⟩
  have isSample : samples[c]? = some samples[c] :=
    List.getElem?_eq_getElem (by rw [length]; exact inside)
  have computed :=
    (List.forall₂_iff_get.1 pairs).2 c (by rw [List.length_range]; exact inside)
      (by rw [length]; exact inside)
  rw [List.get_eq_getElem, List.getElem_range] at computed
  rw [isSample]
  exact each c _ computed

theorem Gathers.unique
    {α : Type}
    {channels : Nat}
    {first second : List α}
    {sample : Nat → Option α}
    (isFirst : Gathers channels first sample)
    (isSecond : Gathers channels second sample) :
    first = second := by
  apply List.ext_getElem?
  intro c
  by_cases inside : c < channels
  · rw [← isFirst.each c inside, isSecond.each c inside]
  · rw [List.getElem?_eq_none (by rw [isFirst.length]; exact Nat.le_of_not_lt inside),
      List.getElem?_eq_none (by rw [isSecond.length]; exact Nat.le_of_not_lt inside)]

end Jxlz

namespace Jxlz

/-!
# Loops that write single items

A loop writes one or two items of a buffer at a time, each at a place of its own.  In the
end every place holds its item, and the rest of the buffer is as it was.
-/

/-- What a buffer holds once the items of some places are written. -/
structure Scattered
    {α : Type}
    (position : Nat → Nat)
    (value : Nat → α)
    (count : Nat)
    (start buffer : List α) :
    Prop where
  length : buffer.length = start.length
  placed :
    ∀ place,
      place < count → buffer[position place]? = some (value place)
  kept :
    ∀ index,
      (∀ place, place < count → index ≠ position place) → buffer[index]? = start[index]?

namespace Scattered

variable {α : Type}
variable {position : Nat → Nat}
variable {value : Nat → α}
variable {count : Nat}
variable {start buffer : List α}

theorem nothing
    (position : Nat → Nat)
    (value : Nat → α)
    (start : List α) :
    Scattered position value 0 start start :=
  { length := rfl
    placed := fun place none => absurd none (Nat.not_lt_zero place)
    kept := fun _ _ => rfl }

/-- The next place is written; the places before keep their items. -/
theorem write
    (before : Scattered position value count start buffer)
    (inside : position count < start.length)
    (apart : ∀ place, place < count → position place ≠ position count) :
    Scattered position value (count + 1) start
      (buffer.set (position count) (value count)) where
  length := by
    rw [List.length_set, before.length]
  placed := by
    intro place earlier
    rcases Nat.lt_succ_iff_lt_or_eq.1 earlier with earlier | rfl
    · rw [List.getElem?_set_ne (apart place earlier).symm]
      exact before.placed place earlier
    · exact List.getElem?_set_self (by rw [before.length]; exact inside)
  kept := by
    intro index outside
    rw [List.getElem?_set_ne (outside count (Nat.lt_succ_self count)).symm]
    exact before.kept index fun place earlier =>
      outside place (Nat.lt_succ_of_lt earlier)

end Scattered

/-- A loop that writes one item at a time. -/
theorem scattered_loop
    {α : Type}
    {step : List α → Nat → Checked (List α)}
    (position : Nat → Nat)
    (value : Nat → α)
    (count : Nat)
    {start : List α}
    (inside : ∀ place, place < count → position place < start.length)
    (apart :
      ∀ place other,
        place < other → other < count → position place ≠ position other)
    (writes :
      ∀ place state,
        place < count →
        Scattered position value place start state →
        step state place = .ok (state.set (position place) (value place))) :
    ∃ result,
      (List.range count).foldlM step start = .ok result ∧
        Scattered position value count start result := by
  refine foldlM_range_ok (fun place state => Scattered position value place start state)
    count (.nothing position value start) ?_
  intro place state within scattered
  refine ⟨_, writes place state within scattered, ?_⟩
  exact scattered.write (inside place within) fun other earlier =>
    apart other place earlier within

/-- A loop that writes two items at a time. -/
theorem scattered_loop_two
    {α : Type}
    {step : List α → Nat → Checked (List α)}
    (position : Nat → Nat)
    (value : Nat → α)
    (count : Nat)
    {start : List α}
    (inside : ∀ place, place < 2 * count → position place < start.length)
    (apart :
      ∀ place other,
        place < other → other < 2 * count → position place ≠ position other)
    (writes :
      ∀ place state,
        place < count →
        Scattered position value (2 * place) start state →
        step state place =
          .ok
            ((state.set (position (2 * place)) (value (2 * place))).set
              (position (2 * place + 1)) (value (2 * place + 1)))) :
    ∃ result,
      (List.range count).foldlM step start = .ok result ∧
        Scattered position value (2 * count) start result := by
  refine foldlM_range_ok
    (fun place state => Scattered position value (2 * place) start state)
    count (.nothing position value start) ?_
  intro place state within scattered
  refine ⟨_, writes place state within scattered, ?_⟩
  have first := scattered.write (inside _ (by omega)) fun other earlier =>
    apart other _ earlier (by omega)
  exact first.write (inside _ (by omega)) fun other earlier =>
    apart other _ earlier (by omega)

end Jxlz
