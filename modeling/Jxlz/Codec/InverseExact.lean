import Jxlz.Base.Raster
import Jxlz.Codec.InverseTransform
import Jxlz.Lib.CosineTransform

namespace Jxlz.InverseTransform

open CosineTransform
open Real (cos pi)

/-!
# The recursive inverse transform over the real numbers

With exact operations `inverse1D` adds up cosines.  The slices may lie anywhere in the
memory, as long as nothing that is read or written lies in the scratch space.
-/

/-! ## Exact operations -/

/-- The numeral two of the real numbers, by name. -/
local instance twoExact : Nat.AtLeastTwo 2 := ⟨Nat.le_refl 2⟩

noncomputable def exact : Arithmetic ℝ where
  zero := 0
  fromInt := fun value => .ok value
  add := fun a b => .ok (a + b)
  sub := fun a b => .ok (a - b)
  mul := fun a b => .ok (a * b)
  div := fun a b => .ok (a / b)
  sqrt := fun a => .ok (√a)
  cosTurns := fun turns => .ok (cos (2 * Real.pi * turns))

/-- The multiplier at a place of the table. -/
noncomputable def entry
    (place : Nat) :
    ℝ :=
  if place < 2 then
    0
  else
    1 / (2 * cos (angle (2 * 2 ^ place.log2) (place - 2 ^ place.log2)))

noncomputable def exactTables : Tables ℝ where
  sqrt2 := √2
  multipliers := (List.range 256).map entry

theorem multiplier_exact
    {n : Nat}
    (positive : 0 < n)
    (i : Nat) :
    multiplier exact n i = .ok (1 / (2 * cos (angle n i))) := by
  have nonzero : (n : ℝ) ≠ 0 := by
    positivity
  have turn : 2 * Real.pi * ((2 * i + 1 : ℕ) / (4 * n : ℕ)) = angle n i := by
    unfold angle
    push_cast
    field_simp
    ring
  unfold multiplier exact
  simp only [ok_bind]
  rw [turn]
  push_cast
  rfl

theorem entry_eq
    {level i : Nat}
    (inside : i < 2 ^ level)
    (large : 1 ≤ level) :
    entry (2 ^ level + i) = 1 / (2 * cos (angle (2 * 2 ^ level) i)) := by
  have two : 2 ^ 1 ≤ 2 ^ level :=
    Nat.pow_le_pow_right (by decide) large
  have log : (2 ^ level + i).log2 = level := by
    rw [Nat.log2_eq_iff (by omega), Nat.pow_succ]
    omega
  unfold entry
  rw [if_neg (by omega), log, Nat.add_sub_cancel_left]

/-- The table once the places below a bound are filled. -/
noncomputable def filled
    (bound : Nat) :
    List ℝ :=
  (List.range 256).map fun place => if place < bound then entry place else 0

theorem getElem?_filled
    {bound place : Nat}
    (inside : place < 256) :
    (filled bound)[place]? = some (if place < bound then entry place else 0) := by
  unfold filled
  rw [List.getElem?_map, List.getElem?_range inside]
  rfl

theorem length_filled
    (bound : Nat) :
    (filled bound).length = 256 := by
  unfold filled
  rw [List.length_map, List.length_range]

theorem filled_set
    (bound : Nat) :
    (filled bound).set bound (entry bound) = filled (bound + 1) := by
  refine List.ext_getElem? fun place => ?_
  by_cases within : place < 256
  · rw [getElem?_filled within]
    rcases eq_or_ne bound place with rfl | other
    · rw [List.getElem?_set_self (by rw [length_filled]; exact within),
        if_pos (Nat.lt_succ_self bound)]
    · rw [List.getElem?_set_ne other, getElem?_filled within]
      simp only [Nat.lt_succ_iff_lt_or_eq, other.symm, or_false]
  · rw [List.getElem?_eq_none (by rw [List.length_set, length_filled]; omega),
      List.getElem?_eq_none (by rw [length_filled]; omega)]

/-- The multipliers of the source, with exact operations, are the table. -/
theorem multipliers_exact :
    multipliers exact = .ok exactTables.multipliers := by
  have start : List.replicate 256 exact.zero = filled 2 := by
    refine List.ext_getElem? fun place => ?_
    by_cases within : place < 256
    · rw [getElem?_filled within, List.getElem?_replicate, if_pos within]
      split
      next small =>
        unfold entry exact
        rw [if_pos small]
      next =>
        rfl
    · rw [List.getElem?_eq_none (by rw [List.length_replicate]; omega),
        List.getElem?_eq_none (by rw [length_filled]; omega)]
  have finish : exactTables.multipliers = filled (2 * 2 ^ 7) := by
    unfold exactTables filled
    refine List.map_congr_left fun place member => ?_
    have inside : place < 2 * 2 ^ 7 := List.mem_range.1 member
    rw [if_pos inside]
  unfold multipliers
  rw [start, finish]
  have levels := @foldlM_range_ok (List ℝ)
    (fun values level =>
      (List.range (4 * 2 ^ level / 2)).foldlM
        (fun values i => do
          store values (4 * 2 ^ level / 2 + i) (← multiplier exact (4 * 2 ^ level) i))
        values)
    (fun level values => values = filled (2 * 2 ^ level)) (filled 2) 7 rfl ?_
  · obtain ⟨result, ran, rfl⟩ := levels
    exact ran
  · rintro level values below rfl
    have half : 4 * 2 ^ level / 2 = 2 ^ (level + 1) := by
      rw [Nat.pow_succ]
      omega
    have bound : 2 ^ (level + 1) ≤ 2 ^ 7 :=
      Nat.pow_le_pow_right (by decide) below
    rw [half, Nat.mul_comm 2 (2 ^ level), ← Nat.pow_succ]
    refine ⟨filled (2 * 2 ^ (level + 1)), ?_, rfl⟩
    have inner := @foldlM_range_ok (List ℝ)
      (fun values i => do
        store values (2 ^ (level + 1) + i) (← multiplier exact (4 * 2 ^ level) i))
      (fun i values => values = filled (2 ^ (level + 1) + i)) (filled (2 ^ (level + 1)))
      (2 ^ (level + 1)) rfl ?_
    · obtain ⟨result, ran, isResult⟩ := inner
      rw [ran, isResult, Nat.two_mul]
    · rintro i values inside rfl
      refine ⟨filled (2 ^ (level + 1) + (i + 1)), ?_, rfl⟩
      have small : 2 ^ (level + 1) + i < 256 := by
        omega
      have double : 4 * 2 ^ level = 2 * 2 ^ (level + 1) := by
        rw [Nat.pow_succ]
        omega
      rw [multiplier_exact (by positivity), ok_bind, double,
        ← entry_eq inside (Nat.le_add_left 1 level),
        store_ok (by rw [length_filled]; exact small), filled_set]
      rfl

/-- The constants of the source, with exact operations. -/
theorem tables_exact :
    tables exact = .ok exactTables := by
  unfold tables
  rw [multipliers_exact]
  rfl

theorem multiplier_found
    {level j : Nat}
    (large : 1 ≤ level)
    (small : level ≤ 7)
    (inside : j < 2 ^ level) :
    exactTables.multipliers[2 ^ level + j]? =
      some (1 / (2 * cos (angle (2 * 2 ^ level) j))) := by
  have bound : 2 ^ level ≤ 2 ^ 7 :=
    Nat.pow_le_pow_right (by decide) small
  unfold exactTables
  dsimp only
  rw [List.getElem?_map, List.getElem?_range (by omega), Option.map_some,
    entry_eq inside large]

/-! ## Slices -/

section

variable {α : Type}
variable {mem : List α}
variable {span : Span}

theorem load_ok
    {position : Nat}
    {value : α}
    (inside : position < span.len)
    (found : mem[span.start + position]? = some value) :
    load mem span position = .ok value := by
  unfold load
  rw [require_ok inside, ok_bind, index_eq_ok.2 found]

theorem save_ok
    {position : Nat}
    (inside : position < span.len)
    (room : span.start + position < mem.length)
    (value : α) :
    save mem span position value = .ok (mem.set (span.start + position) value) := by
  unfold save
  rw [require_ok inside, ok_bind, store_ok room]

end

namespace Span

/-- The places of a slice. -/
def Contains
    (span : Span)
    (place : Nat) :
    Prop :=
  span.start ≤ place ∧ place < span.start + span.len

end Span

/-- The place of a sample. -/
def placeOf
    (span : Span)
    (stride i : Nat) :
    Nat :=
  span.start + i * stride

/-- The samples that stand in a slice, some places apart. -/
structure Holds
    {α : Type}
    (mem : List α)
    (span : Span)
    (stride n : Nat)
    (c : Nat → α) :
    Prop where
  inside : ∀ i, i < n → i * stride < span.len
  found : ∀ i, i < n → mem[placeOf span stride i]? = some (c i)

/-- The samples of a slice have room, none of them in the scratch space. -/
structure Room
    (size : Nat)
    (span : Span)
    (stride n : Nat)
    (scratch : Span) :
    Prop where
  inside : ∀ i, i < n → i * stride < span.len
  room : ∀ i, i < n → placeOf span stride i < size
  apart : ∀ i, i < n → ¬scratch.Contains (placeOf span stride i)

/-- What a transform leaves behind. -/
structure Transformed
    {α : Type}
    (output : Span)
    (stride n : Nat)
    (scratch : Span)
    (f : Nat → α)
    (mem result : List α) :
    Prop where
  length : result.length = mem.length
  samples : ∀ j, j < n → result[placeOf output stride j]? = some (f j)
  kept :
    ∀ place,
      (∀ j, j < n → place ≠ placeOf output stride j) →
      ¬scratch.Contains place → result[place]? = mem[place]?

theorem Holds.load_ok
    {α : Type}
    {mem : List α}
    {span : Span}
    {stride n i : Nat}
    {c : Nat → α}
    (holds : Holds mem span stride n c)
    (inside : i < n) :
    load mem span (i * stride) = .ok (c i) :=
  InverseTransform.load_ok (holds.inside i inside) (holds.found i inside)

/-! ## The loops -/

section

variable {half : Nat}
variable {work : Span}
variable {mem : List ℝ}
variable {c : Nat → ℝ}

/-- Where the weights go in the work space. -/
def dealt
    (work : Span)
    (half place : Nat) :
    Nat :=
  work.start + (place % 2 * half + place / 2)

theorem dealt_even
    (i : Nat) :
    dealt work half (2 * i) = work.start + i := by
  unfold dealt
  rw [Nat.mul_mod_right, Nat.zero_mul, Nat.zero_add,
    Nat.mul_div_cancel_left i (by decide)]

theorem dealt_odd
    (i : Nat) :
    dealt work half (2 * i + 1) = work.start + (half + i) := by
  have parity : (2 * i + 1) % 2 = 1 := by
    omega
  have place : (2 * i + 1) / 2 = i := by
    omega
  unfold dealt
  rw [parity, place, Nat.one_mul]

theorem dealt_ne
    {place other : Nat}
    (before : place < other)
    (inside : other < 2 * half) :
    dealt work half place ≠ dealt work half other := by
  unfold dealt
  rcases Nat.mod_two_eq_zero_or_one place with first | first <;>
    rcases Nat.mod_two_eq_zero_or_one other with second | second <;>
      rw [first, second] <;>
        omega

theorem deal_loop
    {input : Span}
    {stride : Nat}
    (length : work.len = 2 * half)
    (room : work.start + 2 * half ≤ mem.length)
    (holds : Holds mem input stride (2 * half) c)
    (apart : ∀ i, i < 2 * half → ¬work.Contains (placeOf input stride i)) :
    ∃ result,
      (List.range half).foldlM (deal input stride half work) mem = .ok result ∧
        Scattered (dealt work half) c (2 * half) mem result := by
  have inWork : ∀ place, place < 2 * half → work.Contains (dealt work half place) := by
    intro place inside
    unfold Span.Contains dealt
    rcases Nat.mod_two_eq_zero_or_one place with parity | parity <;> rw [parity] <;> omega
  refine scattered_loop_two _ _ _ ?_ (fun place other before inside => dealt_ne before inside)
    ?_
  · intro place inside
    have contained := (inWork place inside).2
    omega
  · intro i state inside scattered
    have reads : ∀ k, k < 2 * half → ∀ state' : List ℝ,
        state'[placeOf input stride k]? = mem[placeOf input stride k]? →
        load state' input (k * stride) = .ok (c k) := by
      intro k small state' same
      refine InverseTransform.load_ok (holds.inside k small) ?_
      exact same.trans (holds.found k small)
    have same : ∀ k, k < 2 * half →
        state[placeOf input stride k]? = mem[placeOf input stride k]? := by
      intro k small
      refine scattered.kept _ fun place before equal => apart k small ?_
      rw [equal]
      exact inWork place (by omega)
    unfold deal
    rw [reads _ (by omega) state (same _ (by omega)), ok_bind,
      save_ok (by omega) (by rw [scattered.length]; omega), ok_bind, ← dealt_even,
      reads _ (by omega) (state.set _ _) ?_, ok_bind,
      save_ok (by omega) (by rw [List.length_set, scattered.length]; omega), ← dealt_odd]
    rw [List.getElem?_set_ne ?_]
    · exact same _ (by omega)
    · intro equal
      refine apart (2 * i + 1) (by omega) ?_
      rw [← equal]
      exact inWork _ (by omega)

theorem addBelow_loop
    (length : work.len = 2 * half)
    (room : work.start + 2 * half ≤ mem.length)
    (upper : ∀ i, i < half → mem[work.start + (half + i)]? = some (c i)) :
    ∃ result,
      (List.range (2 * half - 1 - half)).foldlM (addBelow exact (2 * half) work) mem =
          .ok result ∧
        Scattered (fun step => work.start + (half + (half - 1 - step)))
          (fun step => c (half - 1 - step) + c (half - 1 - step - 1)) (half - 1) mem
          result := by
  have count : 2 * half - 1 - half = half - 1 := by
    omega
  rw [count]
  refine scattered_loop _ _ _ (fun place inside => by omega)
    (fun place other before inside => by omega) ?_
  intro step state inside scattered
  have reads : ∀ i, i ≤ half - 1 - step →
      load state work (half + i) = .ok (c i) := by
    intro i small
    refine load_ok (by omega) ?_
    rw [scattered.kept _ fun place before => by omega]
    exact upper i (by omega)
  have place : 2 * half - 1 - step = half + (half - 1 - step) := by
    omega
  have below : half + (half - 1 - step) - 1 = half + (half - 1 - step - 1) := by
    omega
  unfold addBelow
  dsimp only
  rw [place, below, reads _ (Nat.le_refl _), ok_bind, reads _ (Nat.sub_le _ _), ok_bind]
  change (Except.ok _ >>= _) = _
  rw [ok_bind, save_ok (by omega) (by rw [scattered.length]; omega)]

/-- The sample that a step of the last loop writes. -/
def mirrored
    (half place : Nat) :
    Nat :=
  if place % 2 = 0 then place / 2 else 2 * half - place / 2 - 1

theorem mirrored_even
    (half j : Nat) :
    mirrored half (2 * j) = j := by
  unfold mirrored
  rw [if_pos (Nat.mul_mod_right 2 j), Nat.mul_div_cancel_left j (by decide)]

theorem mirrored_odd
    (half j : Nat) :
    mirrored half (2 * j + 1) = 2 * half - j - 1 := by
  have place : (2 * j + 1) / 2 = j := by
    omega
  unfold mirrored
  rw [if_neg (by omega), place]

theorem mirrored_lt
    {place : Nat}
    (inside : place < 2 * half) :
    mirrored half place < 2 * half := by
  unfold mirrored
  split <;> omega

theorem exists_mirrored
    {j : Nat}
    (inside : j < 2 * half) :
    ∃ place, place < 2 * half ∧ mirrored half place = j := by
  by_cases first : j < half
  · exact ⟨2 * j, by omega, mirrored_even half j⟩
  · refine ⟨2 * (2 * half - j - 1) + 1, by omega, ?_⟩
    rw [mirrored_odd]
    omega

theorem placeOf_ne
    {span : Span}
    {stride first second : Nat}
    (positive : 0 < stride)
    (other : first ≠ second) :
    placeOf span stride first ≠ placeOf span stride second := by
  unfold placeOf
  intro equal
  exact other (Nat.eq_of_mul_eq_mul_right positive (Nat.add_left_cancel equal))

theorem butterfly_loop
    {level : Nat}
    {output scratch : Span}
    {stride : Nat}
    {even odd : Nat → ℝ}
    (isHalf : half = 2 ^ level)
    (large : 1 ≤ level)
    (small : level ≤ 7)
    (length : work.len = 2 * half)
    (within : ∀ place, work.Contains place → scratch.Contains place)
    (lower : ∀ i, i < half → mem[work.start + i]? = some (even i))
    (upper : ∀ i, i < half → mem[work.start + (half + i)]? = some (odd i))
    (positive : 0 < stride)
    (isRoom : Room mem.length output stride (2 * half) scratch) :
    ∃ result,
      (List.range half).foldlM
          (butterfly exact exactTables (2 * half) half work output stride) mem =
          .ok result ∧
        Scattered (fun place => placeOf output stride (mirrored half place))
          (fun place =>
            if place % 2 = 0 then
              even (place / 2) + odd (place / 2) * (1 / (2 * cos (angle (2 * half) (place / 2))))
            else
              even (place / 2) - odd (place / 2) * (1 / (2 * cos (angle (2 * half) (place / 2)))))
          (2 * half) mem result := by
  refine scattered_loop_two _ _ _ ?_ ?_ ?_
  · intro place inside
    exact isRoom.room _ (mirrored_lt inside)
  · intro place other before inside
    apply placeOf_ne positive
    unfold mirrored
    split <;> split <;> omega
  · intro j state inside scattered
    have outside : ∀ i, i < 2 * half → ∀ k, k < 2 * half →
        work.start + i ≠ placeOf output stride k := by
      intro i isWork k isOutput equal
      apply isRoom.apart k isOutput
      rw [← equal]
      apply within
      unfold Span.Contains
      omega
    have reads : ∀ i, i < 2 * half → ∀ state' : List ℝ, ∀ value,
        state'[work.start + i]? = mem[work.start + i]? →
        mem[work.start + i]? = some value → load state' work i = .ok value := by
      intro i isWork state' value same found
      exact load_ok (by omega) (same.trans found)
    have same : ∀ i, i < 2 * half → state[work.start + i]? = mem[work.start + i]? := by
      intro i isWork
      exact scattered.kept _ fun place before =>
        outside i isWork _ (mirrored_lt (by omega))
    have parity : (2 * j + 1) / 2 = j := by
      omega
    have half' : 2 * j / 2 = j := by
      omega
    have found : index exactTables.multipliers (half + j) =
        .ok (1 / (2 * cos (angle (2 * half) j))) := by
      rw [index_eq_ok, isHalf]
      exact multiplier_found large small (by rw [← isHalf]; exact inside)
    unfold butterfly
    rw [reads _ (by omega) state _ (same _ (by omega)) (upper j inside), ok_bind, found,
      ok_bind]
    change (Except.ok _ >>= _) = _
    rw [ok_bind, reads _ (by omega) state _ (same _ (by omega)) (lower j inside), ok_bind]
    change (Except.ok _ >>= _) = _
    have mirror : 2 * half - j - 1 < 2 * half := by
      omega
    rw [ok_bind, save_ok (isRoom.inside j (by omega))
      (by rw [scattered.length]; exact isRoom.room j (by omega)), ok_bind,
      reads _ (by omega) _ _ ?_ (lower j inside), ok_bind]
    · change (Except.ok _ >>= _) = _
      rw [ok_bind, save_ok (isRoom.inside _ mirror)
        (by rw [List.length_set, scattered.length]; exact isRoom.room _ mirror),
        if_pos (Nat.mul_mod_right 2 j), if_neg (by omega), parity, half', mirrored_even,
        mirrored_odd]
      rfl
    · exact (List.getElem?_set_ne (outside j (by omega) j (by omega)).symm).trans
        (same j (by omega))

end

/-! ## One dimension -/

theorem synthesis_one
    (c : Nat → ℝ)
    (j : Nat) :
    synthesis 1 c j = c 0 := by
  simp [synthesis]

theorem synthesis_two
    (c : Nat → ℝ) :
    synthesis 2 c 0 = c 0 + c 1 ∧ synthesis 2 c 1 = c 0 - c 1 := by
  have root : √2 * √2 = (2 : ℝ) :=
    Real.mul_self_sqrt (by norm_num)
  have wave : ∀ j, synthesis 2 c j = c 0 + √2 * (c 1 * cos (angle 2 j)) := by
    intro j
    simp [synthesis]
  have first : angle 2 0 = Real.pi / 4 := by
    unfold angle
    push_cast
    ring
  have second : angle 2 1 = Real.pi - Real.pi / 4 := by
    unfold angle
    push_cast
    ring
  rw [wave, wave, first, second, Real.cos_pi_sub, Real.cos_pi_div_four]
  constructor
  · linear_combination (c 1 / 2) * root
  · linear_combination (-(c 1) / 2) * root

/-- Exact operations make the inverse transform of a length the sum of the cosines. -/
def InverseSpec
    (n : Nat) :
    Prop :=
  ∀ (mem : List ℝ) (input output scratch : Span) (input_stride output_stride : Nat)
    (c : Nat → ℝ),
    Holds mem input input_stride n c →
      (∀ i, i < n → ¬scratch.Contains (placeOf input input_stride i)) →
      0 < output_stride →
      Room mem.length output output_stride n scratch →
      2 * n ≤ scratch.len →
      scratch.start + scratch.len ≤ mem.length →
      ∃ result,
        inverse1D exact exactTables n input input_stride output output_stride
            scratch mem =
            .ok result ∧
          Transformed output output_stride n scratch (synthesis n c) mem result

theorem inverse_one :
    InverseSpec 1 := by
  intro mem input output scratch input_stride output_stride c holds _ _ isRoom _ _
  have read := holds.load_ok (by decide : 0 < 1)
  have room := isRoom.room 0 (by decide)
  have inside := isRoom.inside 0 (by decide)
  rw [Nat.zero_mul] at read inside
  unfold placeOf at room
  rw [Nat.zero_mul] at room
  rw [inverse1D, if_neg (by decide), if_pos rfl, read, ok_bind, save_ok inside room]
  refine ⟨_, rfl, List.length_set, ?_, ?_⟩
  · intro j only
    obtain rfl : j = 0 := by
      omega
    unfold placeOf
    rw [Nat.zero_mul, List.getElem?_set_self room, synthesis_one]
  · intro place other _
    have different := other 0 (by decide)
    unfold placeOf at different
    rw [Nat.zero_mul] at different
    exact List.getElem?_set_ne different.symm

theorem inverse_two :
    InverseSpec 2 := by
  intro mem input output scratch input_stride output_stride c holds _ positive isRoom _ _
  have first := holds.load_ok (by decide : 0 < 2)
  have second := holds.load_ok (by decide : 1 < 2)
  have room := isRoom.room 0 (by decide)
  have room' := isRoom.room 1 (by decide)
  have inside := isRoom.inside 0 (by decide)
  have inside' := isRoom.inside 1 (by decide)
  unfold placeOf at room room'
  rw [Nat.zero_mul] at first inside room
  rw [Nat.one_mul] at second inside' room'
  rw [inverse1D, if_neg (by decide), if_neg (by decide), if_pos rfl, first, ok_bind, second,
    ok_bind]
  change ∃ result, (Except.ok _ >>= _) = _ ∧ _
  rw [ok_bind, save_ok inside room, ok_bind]
  change ∃ result, (Except.ok _ >>= _) = _ ∧ _
  rw [ok_bind, save_ok inside' (by rw [List.length_set]; exact room')]
  refine ⟨_, rfl, ?_, ?_, ?_⟩
  · rw [List.length_set, List.length_set]
  · intro j within
    have only : j = 0 ∨ j = 1 := by
      omega
    rcases only with rfl | rfl
    · unfold placeOf
      rw [Nat.zero_mul, List.getElem?_set_ne (by omega), List.getElem?_set_self room,
        (synthesis_two c).1]
    · unfold placeOf
      rw [Nat.one_mul, List.getElem?_set_self (by rw [List.length_set]; exact room'),
        (synthesis_two c).2]
  · intro place other _
    have different := other 0 (by decide)
    have different' := other 1 (by decide)
    unfold placeOf at different different'
    rw [Nat.zero_mul] at different
    rw [Nat.one_mul] at different'
    rw [List.getElem?_set_ne different'.symm, List.getElem?_set_ne different.symm]

/-! ## The work space -/

/-- Only the scratch space has changed. -/
structure StaysIn
    {α : Type}
    (scratch : Span)
    (mem result : List α) :
    Prop where
  length : result.length = mem.length
  kept : ∀ place, ¬scratch.Contains place → result[place]? = mem[place]?

/-- The samples in the two halves of the work space. -/
structure Halves
    {α : Type}
    (work : Span)
    (half : Nat)
    (even odd : Nat → α)
    (mem : List α) :
    Prop where
  lower : ∀ i, i < half → mem[work.start + i]? = some (even i)
  upper : ∀ i, i < half → mem[work.start + (half + i)]? = some (odd i)

section

variable {α : Type}
variable {scratch : Span}
variable {mem middle result : List α}

theorem StaysIn.trans
    (first : StaysIn scratch mem middle)
    (second : StaysIn scratch middle result) :
    StaysIn scratch mem result where
  length := second.length.trans first.length
  kept := fun place outside =>
    (second.kept place outside).trans (first.kept place outside)

theorem staysIn_of_scattered
    {position : Nat → Nat}
    {value : Nat → α}
    {count : Nat}
    (scattered : Scattered position value count mem result)
    (inside : ∀ place, place < count → scratch.Contains (position place)) :
    StaysIn scratch mem result where
  length := scattered.length
  kept := fun place outside =>
    scattered.kept place fun other before equal =>
      outside (by rw [equal]; exact inside other before)

theorem Transformed.staysIn
    {output inner : Span}
    {stride n : Nat}
    {f : Nat → α}
    (transformed : Transformed output stride n inner f mem result)
    (inside : ∀ j, j < n → scratch.Contains (placeOf output stride j))
    (within : ∀ place, inner.Contains place → scratch.Contains place) :
    StaysIn scratch mem result where
  length := transformed.length
  kept := fun place outside =>
    transformed.kept place
      (fun j before equal => outside (by rw [equal]; exact inside j before))
      fun contained => outside (within place contained)

end

section

variable {half : Nat}
variable {scratch : Span}
variable {mem : List ℝ}
variable {even odd c : Nat → ℝ}

/-- The part of the scratch space that a transform works in. -/
def workOf
    (scratch : Span)
    (half : Nat) :
    Span :=
  { start := scratch.start, len := 2 * half }

/-- The part that is left for the halves. -/
def nextOf
    (scratch : Span)
    (half : Nat) :
    Span :=
  { start := scratch.start + 2 * half, len := scratch.len - 2 * half }

def lowerOf
    (scratch : Span)
    (half : Nat) :
    Span :=
  { start := scratch.start, len := half }

def upperOf
    (scratch : Span)
    (half : Nat) :
    Span :=
  { start := scratch.start + half, len := half }

/-- A transform of samples in their place. -/
def InPlace
    (run : Span → Span → List ℝ → Checked (List ℝ))
    (n : Nat)
    (f : (Nat → ℝ) → Nat → ℝ) :
    Prop :=
  ∀ (mem : List ℝ) (values scratch : Span) (c : Nat → ℝ),
    values.len = n →
    (∀ i, i < n → mem[values.start + i]? = some (c i)) →
    (∀ i, i < n → ¬scratch.Contains (values.start + i)) →
    2 * n ≤ scratch.len →
    scratch.start + scratch.len ≤ mem.length →
    ∃ result,
      run values scratch mem = .ok result ∧
        Transformed values 1 n scratch (f c) mem result

theorem placeOf_one
    (span : Span)
    (i : Nat) :
    placeOf span 1 i = span.start + i := by
  unfold placeOf
  rw [Nat.mul_one]

/-- The inverse transform of a half of the work space. -/
theorem inverse_inPlace
    {n : Nat}
    (spec : InverseSpec n) :
    InPlace (fun values => inverse1D exact exactTables n values 1 values 1) n
      (synthesis n) := by
  intro mem values scratch c length found apart space inMemory
  have apart' : ∀ i, i < n → ¬scratch.Contains (placeOf values 1 i) := by
    intro i inside
    rw [placeOf_one]
    exact apart i inside
  have inside : ∀ i, i < n → i * 1 < values.len := by
    intro i inside
    rw [Nat.mul_one, length]
    exact inside
  refine spec mem values values scratch 1 1 c ⟨inside, ?_⟩ apart' Nat.one_pos
    ⟨inside, ?_, apart'⟩ space inMemory
  · intro i inside
    rw [placeOf_one]
    exact found i inside
  · intro i inside
    rw [placeOf_one]
    exact (List.getElem?_eq_some_iff.1 (found i inside)).1

section

variable {run : Span → Span → List ℝ → Checked (List ℝ)}
variable {f : (Nat → ℝ) → Nat → ℝ}

/-- The lower half is transformed in its place. -/
theorem lower_step
    (spec : InPlace run half f)
    (space : 4 * half ≤ scratch.len)
    (inMemory : scratch.start + scratch.len ≤ mem.length)
    (halves : Halves (workOf scratch half) half even odd mem) :
    ∃ result,
      run (lowerOf scratch half) (nextOf scratch half) mem = .ok result ∧
        Halves (workOf scratch half) half (f even) odd result ∧
        StaysIn scratch mem result := by
  obtain ⟨result, ran, transformed⟩ :=
    spec mem (lowerOf scratch half) (nextOf scratch half) even rfl halves.lower
      (fun i inside contained => by
        unfold Span.Contains nextOf lowerOf at contained
        dsimp only at contained
        omega)
      (by unfold nextOf; dsimp only; omega) (by unfold nextOf; dsimp only; omega)
  refine ⟨result, ran, ⟨?_, ?_⟩, ?_⟩
  · intro i inside
    have sample := transformed.samples i inside
    rw [placeOf_one] at sample
    exact sample
  · intro i inside
    rw [transformed.kept]
    · exact halves.upper i inside
    · intro j before
      rw [placeOf_one]
      change scratch.start + (half + i) ≠ scratch.start + j
      omega
    · unfold Span.Contains nextOf workOf
      dsimp only
      omega
  · refine transformed.staysIn ?_ ?_
    · intro j inside
      rw [placeOf_one]
      unfold Span.Contains lowerOf
      dsimp only
      omega
    · unfold Span.Contains nextOf
      dsimp only
      intro place contained
      omega

/-- The upper half is transformed in its place. -/
theorem upper_step
    (spec : InPlace run half f)
    (space : 4 * half ≤ scratch.len)
    (inMemory : scratch.start + scratch.len ≤ mem.length)
    (halves : Halves (workOf scratch half) half even odd mem) :
    ∃ result,
      run (upperOf scratch half) (nextOf scratch half) mem = .ok result ∧
        Halves (workOf scratch half) half even (f odd) result ∧
        StaysIn scratch mem result := by
  obtain ⟨result, ran, transformed⟩ :=
    spec mem (upperOf scratch half) (nextOf scratch half) odd rfl
      (fun i inside => by
        change mem[scratch.start + half + i]? = _
        rw [Nat.add_assoc]
        exact halves.upper i inside)
      (fun i inside contained => by
        unfold Span.Contains nextOf upperOf at contained
        dsimp only at contained
        omega)
      (by unfold nextOf; dsimp only; omega) (by unfold nextOf; dsimp only; omega)
  refine ⟨result, ran, ⟨?_, ?_⟩, ?_⟩
  · intro i inside
    rw [transformed.kept]
    · exact halves.lower i inside
    · intro j before
      rw [placeOf_one]
      change scratch.start + i ≠ scratch.start + half + j
      omega
    · unfold Span.Contains nextOf workOf
      dsimp only
      omega
  · intro i inside
    have sample := transformed.samples i inside
    rw [placeOf_one] at sample
    change result[scratch.start + (half + i)]? = _
    rw [← Nat.add_assoc]
    exact sample
  · refine transformed.staysIn ?_ ?_
    · intro j inside
      rw [placeOf_one]
      unfold Span.Contains upperOf
      dsimp only
      omega
    · unfold Span.Contains nextOf
      dsimp only
      intro place contained
      omega

end

/-- The odd weights with their neighbours. -/
theorem neighbours_step
    (positive : 0 < half)
    (space : 4 * half ≤ scratch.len)
    (inMemory : scratch.start + scratch.len ≤ mem.length)
    (halves : Halves (workOf scratch half) half even (fun i => c (2 * i + 1)) mem) :
    ∃ middle result,
      (List.range (2 * half - 1 - half)).foldlM
          (addBelow exact (2 * half) (workOf scratch half)) mem =
          .ok middle ∧
        load middle (workOf scratch half) half = .ok (c 1) ∧
        save middle (workOf scratch half) half (c 1 * √2) = .ok result ∧
        Halves (workOf scratch half) half even (neighbours c) result ∧
        StaysIn scratch mem result := by
  have room : (workOf scratch half).start + 2 * half ≤ mem.length := by
    unfold workOf
    dsimp only
    omega
  obtain ⟨middle, ran, scattered⟩ := addBelow_loop rfl room halves.upper
  have below : ∀ i, i ≤ half →
      middle[(workOf scratch half).start + i]? = mem[(workOf scratch half).start + i]? :=
    fun i inside => scattered.kept _ fun place before => by omega
  have first : middle[(workOf scratch half).start + half]? = some (c 1) :=
    (below half (Nat.le_refl half)).trans (halves.upper 0 positive)
  have inWork : half < (workOf scratch half).len := by
    unfold workOf
    dsimp only
    omega
  have inside : (workOf scratch half).start + half < middle.length := by
    rw [scattered.length]
    omega
  refine ⟨middle, _, ran, load_ok inWork first, save_ok inWork inside _, ⟨?_, ?_⟩, ?_⟩
  · intro i before
    rw [List.getElem?_set_ne (by omega), below i (Nat.le_of_lt before)]
    exact halves.lower i before
  · intro i before
    unfold neighbours
    rcases Nat.eq_zero_or_pos i with rfl | later
    · rw [Nat.add_zero, List.getElem?_set_self inside, if_pos rfl, mul_comm]
    · have placed := scattered.placed (half - 1 - i) (by omega)
      have index : half - 1 - (half - 1 - i) = i := by
        omega
      have odd : 2 * (i - 1) + 1 = 2 * i - 1 := by
        omega
      rw [index, odd] at placed
      rw [List.getElem?_set_ne (by omega), if_neg (by omega)]
      exact placed
  · have start : (workOf scratch half).start = scratch.start := rfl
    refine StaysIn.trans (staysIn_of_scattered scattered ?_) ⟨List.length_set, ?_⟩
    · intro place before
      unfold Span.Contains
      omega
    · intro place outside
      apply List.getElem?_set_ne
      rintro rfl
      apply outside
      unfold Span.Contains
      omega

/-- Weights from anywhere go to the halves of the work space. -/
theorem deal_step
    {input : Span}
    {stride : Nat}
    (space : 4 * half ≤ scratch.len)
    (inMemory : scratch.start + scratch.len ≤ mem.length)
    (holds : Holds mem input stride (2 * half) c)
    (apart : ∀ i, i < 2 * half → ¬scratch.Contains (placeOf input stride i)) :
    ∃ result,
      (List.range half).foldlM (deal input stride half (workOf scratch half)) mem =
          .ok result ∧
        Halves (workOf scratch half) half (fun i => c (2 * i)) (fun i => c (2 * i + 1))
          result ∧
        StaysIn scratch mem result := by
  have start : (workOf scratch half).start = scratch.start := rfl
  have inWork : ∀ place, (workOf scratch half).Contains place → scratch.Contains place := by
    unfold Span.Contains workOf
    dsimp only
    intro place contained
    omega
  obtain ⟨result, ran, scattered⟩ :=
    @deal_loop half (workOf scratch half) mem c input stride rfl (by rw [start]; omega)
      holds fun i inside contained => apart i inside (inWork _ contained)
  refine ⟨result, ran, ⟨?_, ?_⟩, staysIn_of_scattered scattered ?_⟩
  · intro i inside
    rw [← dealt_even]
    exact scattered.placed (2 * i) (by omega)
  · intro i inside
    rw [← dealt_odd]
    exact scattered.placed (2 * i + 1) (by omega)
  · intro place inside
    unfold Span.Contains dealt
    rw [start]
    rcases Nat.mod_two_eq_zero_or_one place with parity | parity <;> rw [parity] <;> omega

/-- The slices of the source are those of the work space. -/
theorem scratch_slices
    (space : 4 * half ≤ scratch.len) :
    scratch.piece 0 (2 * half) = .ok (workOf scratch half) ∧
      scratch.rest (2 * half) = .ok (nextOf scratch half) ∧
      (workOf scratch half).piece 0 half = .ok (lowerOf scratch half) ∧
      (workOf scratch half).rest half = .ok (upperOf scratch half) := by
  have length : (workOf scratch half).len = 2 * half := rfl
  have upper : 2 * half - half = half := by
    omega
  refine ⟨?_, ?_, ?_, ?_⟩
  · unfold Span.piece
    rw [require_ok (by omega)]
    rfl
  · unfold Span.rest
    rw [require_ok (by omega)]
    rfl
  · unfold Span.piece
    rw [require_ok (by omega)]
    rfl
  · unfold Span.rest
    rw [require_ok (by omega), length, upper]
    rfl

end

/-- A transform of twice the length. -/
theorem inverse_double
    {level : Nat}
    (large : 1 ≤ level)
    (small : level ≤ 7)
    (spec : InverseSpec (2 ^ level)) :
    InverseSpec (2 * 2 ^ level) := by
  have two : 2 ^ 1 ≤ 2 ^ level :=
    Nat.pow_le_pow_right (by decide) large
  intro mem input output scratch input_stride output_stride c holds apart positive isRoom
    space inMemory
  generalize isHalf : 2 ^ level = half at *
  have space' : 4 * half ≤ scratch.len := by
    omega
  obtain ⟨isWork, isNext, isLower, isUpper⟩ := scratch_slices space'
  obtain ⟨memA, ranA, halvesA, staysA⟩ := deal_step space' inMemory holds apart
  obtain ⟨memB, ranB, halvesB, staysB⟩ :=
    lower_step (inverse_inPlace spec) space' (by rw [staysA.length]; exact inMemory) halvesA
  have staysB' := staysA.trans staysB
  obtain ⟨memC, memD, ranC, loaded, saved, halvesD, staysD⟩ :=
    neighbours_step (by omega) space' (by rw [staysB'.length]; exact inMemory) halvesB
  have staysD' := staysB'.trans staysD
  obtain ⟨memE, ranE, halvesE, staysE⟩ :=
    upper_step (inverse_inPlace spec) space' (by rw [staysD'.length]; exact inMemory) halvesD
  have staysE' := staysD'.trans staysE
  have inWork : ∀ place, (workOf scratch half).Contains place → scratch.Contains place := by
    unfold Span.Contains workOf
    dsimp only
    intro place contained
    omega
  obtain ⟨result, ranF, scattered⟩ :=
    butterfly_loop isHalf.symm large small rfl inWork halvesE.lower halvesE.upper positive
      { isRoom with room := by rw [staysE'.length]; exact isRoom.room }
  refine ⟨result, ?_, scattered.length.trans staysE'.length, ?_, ?_⟩
  · have halved : 2 * half / 2 = half :=
      Nat.mul_div_cancel_left half (by decide)
    rw [inverse1D, if_neg (by omega), if_neg (by omega), if_neg (by omega)]
    dsimp only
    rw [halved, isWork, ok_bind, isNext, ok_bind, ranA, ok_bind, isLower, ok_bind, ranB,
      ok_bind, ranC, ok_bind, loaded, ok_bind]
    change (Except.ok (c 1 * √2) >>= _) = _
    rw [ok_bind, saved, ok_bind, isUpper, ok_bind, ranE, ok_bind, ranF]
  · intro j inside
    obtain ⟨place, before, rfl⟩ := exists_mirrored inside
    rw [scattered.placed place before]
    have sample : place / 2 < half := by
      omega
    unfold mirrored
    split
    next =>
      rw [synthesis_first c sample]
    next =>
      rw [synthesis_second c sample]
  · intro place other outside
    rw [scattered.kept place fun k before => other _ (mirrored_lt before)]
    exact staysE'.kept place outside

/-- Exact operations make the inverse transform the sum of the cosines. -/
theorem inverse_exact
    {level : Nat}
    (small : level ≤ 8) :
    InverseSpec (2 ^ level) := by
  induction level with
  | zero =>
      exact inverse_one
  | succ level inductionHypothesis =>
      rcases Nat.eq_zero_or_pos level with rfl | large
      · exact inverse_two
      · rw [Nat.pow_succ, Nat.mul_comm]
        exact inverse_double large (Nat.le_of_succ_le_succ small)
          (inductionHypothesis (Nat.le_of_succ_le small))

end Jxlz.InverseTransform
