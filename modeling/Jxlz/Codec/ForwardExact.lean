import Jxlz.Codec.InverseExact

namespace Jxlz.InverseTransform

open CosineTransform
open Real (cos)

/-!
# The recursive forward transform over the real numbers

With exact operations `forward1D` takes samples to the weights of their waves, times the
number of samples; so the inverse transform takes them back.
-/

theorem analysis_one
    (v : Nat → ℝ) :
    analysis 1 v 0 = v 0 := by
  simp [analysis, factor]

theorem analysis_two
    (v : Nat → ℝ) :
    analysis 2 v 0 = v 0 + v 1 ∧ analysis 2 v 1 = v 0 - v 1 := by
  have root : √2 * √2 = (2 : ℝ) :=
    Real.mul_self_sqrt (by norm_num)
  have first : angle 2 0 = Real.pi / 4 := by
    unfold angle
    push_cast
    ring
  have second : angle 2 1 = Real.pi - Real.pi / 4 := by
    unfold angle
    push_cast
    ring
  unfold analysis factor
  rw [Finset.sum_range_succ, Finset.sum_range_one, Finset.sum_range_succ,
    Finset.sum_range_one, if_pos rfl, if_neg one_ne_zero, first, second, Nat.cast_zero,
    Nat.cast_one, zero_mul, zero_mul, one_mul, one_mul, one_mul, Real.cos_zero, Real.cos_pi_sub,
    Real.cos_pi_div_four]
  constructor
  · ring
  · linear_combination ((v 0 - v 1) / 2) * root

/-- Exact operations make the forward transform of a length the weights of the waves. -/
def ForwardSpec
    (n : Nat) :
    Prop :=
  InPlace (fun values => forward1D exact exactTables n values) n (analysis n)

theorem forward_one :
    ForwardSpec 1 := by
  intro mem values scratch c _ found _ _ _
  refine ⟨mem, ?_, rfl, ?_, fun _ _ _ => rfl⟩
  · dsimp only
    rw [forward1D, if_neg (by decide), if_pos rfl]
    rfl
  · intro j only
    obtain rfl : j = 0 := by
      omega
    rw [placeOf_one, analysis_one]
    exact found 0 Nat.one_pos

theorem forward_two :
    ForwardSpec 2 := by
  intro mem values scratch c length found _ _ _
  have first := found 0 (by decide)
  have second := found 1 (by decide)
  have room := (List.getElem?_eq_some_iff.1 first).1
  have room' := (List.getElem?_eq_some_iff.1 second).1
  dsimp only
  rw [forward1D, if_neg (by decide), if_neg (by decide), if_pos rfl,
    load_ok (by omega) first, ok_bind, load_ok (by omega) second, ok_bind]
  change ∃ result, (Except.ok _ >>= _) = _ ∧ _
  rw [ok_bind, save_ok (by omega) room, ok_bind]
  change ∃ result, (Except.ok _ >>= _) = _ ∧ _
  rw [ok_bind, save_ok (by omega) (by rw [List.length_set]; exact room')]
  refine ⟨_, rfl, ?_, ?_, ?_⟩
  · rw [List.length_set, List.length_set]
  · intro j within
    have only : j = 0 ∨ j = 1 := by
      omega
    rw [placeOf_one]
    rcases only with rfl | rfl
    · rw [List.getElem?_set_ne (by omega), List.getElem?_set_self room, (analysis_two c).1]
    · rw [List.getElem?_set_self (by rw [List.length_set]; exact room'), (analysis_two c).2]
  · intro place other _
    have different := other 0 (by decide)
    have different' := other 1 (by decide)
    rw [placeOf_one] at different different'
    rw [List.getElem?_set_ne different'.symm, List.getElem?_set_ne different.symm]

/-! ## The steps -/

section

variable {half : Nat}
variable {values scratch : Span}
variable {mem : List ℝ}
variable {even odd v : Nat → ℝ}

/-- What both ends of the samples are to the halves of the work space. -/
structure Samples
    (values scratch : Span)
    (half : Nat)
    (v : Nat → ℝ)
    (mem : List ℝ) :
    Prop where
  length : values.len = 2 * half
  found : ∀ i, i < 2 * half → mem[values.start + i]? = some (v i)
  apart : ∀ i, i < 2 * half → ¬scratch.Contains (values.start + i)

theorem Samples.of_staysIn
    {result : List ℝ}
    (samples : Samples values scratch half v mem)
    (stays : StaysIn scratch mem result) :
    Samples values scratch half v result :=
  { samples with
    found := fun i inside =>
      (stays.kept _ (samples.apart i inside)).trans (samples.found i inside) }

theorem Samples.load_ok
    (samples : Samples values scratch half v mem)
    {i : Nat}
    (inside : i < 2 * half) :
    load mem values i = .ok (v i) :=
  InverseTransform.load_ok (by rw [samples.length]; exact inside) (samples.found i inside)

/-- The sums go to the lower half. -/
theorem sums_step
    (space : 4 * half ≤ scratch.len)
    (inMemory : scratch.start + scratch.len ≤ mem.length)
    (samples : Samples values scratch half v mem) :
    ∃ result odd,
      (List.range half).foldlM (foldSums exact values (workOf scratch half)) mem =
          .ok result ∧
        Halves (workOf scratch half) half (sums half v) odd result ∧
        StaysIn scratch mem result := by
  have start : (workOf scratch half).start = scratch.start := rfl
  have length : (workOf scratch half).len = 2 * half := rfl
  have inScratch : ∀ place, place < half →
      scratch.Contains ((workOf scratch half).start + place) := by
    intro place inside
    unfold Span.Contains
    omega
  obtain ⟨result, ran, scattered⟩ :=
    @scattered_loop ℝ (foldSums exact values (workOf scratch half))
      (fun i => (workOf scratch half).start + i) (sums half v) half mem
      (fun place inside => by omega) (fun place other before inside => by omega)
      (fun i state inside scattered => by
        have now := samples.of_staysIn (staysIn_of_scattered scattered fun place before =>
          inScratch place (by omega))
        unfold foldSums
        rw [samples.length, now.load_ok (by omega), ok_bind, now.load_ok (by omega), ok_bind]
        change (Except.ok _ >>= _) = _
        rw [ok_bind, save_ok (by omega) (by rw [scattered.length]; omega)]
        rfl)
  refine ⟨result, fun i => result.getD ((workOf scratch half).start + (half + i)) 0, ran,
    ⟨scattered.placed, ?_⟩, staysIn_of_scattered scattered inScratch⟩
  intro i inside
  have room : (workOf scratch half).start + (half + i) < result.length := by
    rw [scattered.length]
    omega
  rw [List.getD_eq_getElem?_getD, List.getElem?_eq_getElem room]
  rfl

/-- The differences go to the upper half. -/
theorem differences_step
    {level : Nat}
    (isHalf : half = 2 ^ level)
    (large : 1 ≤ level)
    (small : level ≤ 7)
    (space : 4 * half ≤ scratch.len)
    (inMemory : scratch.start + scratch.len ≤ mem.length)
    (samples : Samples values scratch half v mem)
    (halves : Halves (workOf scratch half) half even odd mem) :
    ∃ result,
      (List.range half).foldlM
          (foldDifferences exact exactTables half values (workOf scratch half)) mem =
          .ok result ∧
        Halves (workOf scratch half) half even (differences half v) result ∧
        StaysIn scratch mem result := by
  have start : (workOf scratch half).start = scratch.start := rfl
  have length : (workOf scratch half).len = 2 * half := rfl
  have inScratch : ∀ place, place < half →
      scratch.Contains ((workOf scratch half).start + (half + place)) := by
    intro place inside
    unfold Span.Contains
    omega
  obtain ⟨result, ran, scattered⟩ :=
    @scattered_loop ℝ (foldDifferences exact exactTables half values (workOf scratch half))
      (fun i => (workOf scratch half).start + (half + i)) (differences half v) half mem
      (fun place inside => by omega) (fun place other before inside => by omega)
      (fun i state inside scattered => by
        have now := samples.of_staysIn (staysIn_of_scattered scattered fun place before =>
          inScratch place (by omega))
        have found : index exactTables.multipliers (half + i) =
            .ok (1 / (2 * cos (angle (2 * half) i))) := by
          rw [index_eq_ok, isHalf]
          exact multiplier_found large small (by rw [← isHalf]; exact inside)
        unfold foldDifferences
        rw [samples.length, now.load_ok (by omega), ok_bind, now.load_ok (by omega), ok_bind]
        change (Except.ok _ >>= _) = _
        rw [ok_bind, found, ok_bind]
        change (Except.ok _ >>= _) = _
        rw [ok_bind, save_ok (by omega) (by rw [scattered.length]; omega)]
        rfl)
  refine ⟨result, ran, ⟨?_, scattered.placed⟩, staysIn_of_scattered scattered inScratch⟩
  intro i inside
  rw [scattered.kept _ fun place before => by omega]
  exact halves.lower i inside

/-- Each odd wave from the differences. -/
theorem oddWaves_step
    (large : 2 ≤ half)
    (space : 4 * half ≤ scratch.len)
    (inMemory : scratch.start + scratch.len ≤ mem.length)
    (halves :
      Halves (workOf scratch half) half even (analysis half (differences half v)) mem) :
    ∃ first second middle result,
      load mem (workOf scratch half) half = .ok first ∧
        load mem (workOf scratch half) (half + 1) = .ok second ∧
        save mem (workOf scratch half) half (first * √2 + second) = .ok middle ∧
        (List.range (half - 2)).foldlM (addAbove exact half (workOf scratch half))
            middle =
            .ok result ∧
        Halves (workOf scratch half) half even
            (fun i => analysis (2 * half) v (2 * i + 1)) result ∧
        StaysIn scratch mem result := by
  have start : (workOf scratch half).start = scratch.start := rfl
  have length : (workOf scratch half).len = 2 * half := rfl
  have loaded : ∀ i, i < half →
      load mem (workOf scratch half) (half + i) =
        .ok (analysis half (differences half v) i) :=
    fun i inside => load_ok (by omega) (halves.upper i inside)
  have room : (workOf scratch half).start + half < mem.length := by
    omega
  have found : ∀ i, 0 < i → i < half → ∀ x,
      (mem.set ((workOf scratch half).start + half) x)[(workOf scratch half).start +
        (half + i)]? = some (analysis half (differences half v) i) := by
    intro i positive inside x
    rw [List.getElem?_set_ne (by omega)]
    exact halves.upper i inside
  obtain ⟨result, ran, scattered⟩ :=
    @scattered_loop ℝ (addAbove exact half (workOf scratch half))
      (fun step => (workOf scratch half).start + (half + (step + 1)))
      (fun step =>
        analysis half (differences half v) (step + 1) +
          analysis half (differences half v) (step + 2))
      (half - 2)
      (mem.set ((workOf scratch half).start + half)
        (analysis half (differences half v) 0 * √2 + analysis half (differences half v) 1))
      (fun place inside => by rw [List.length_set]; omega)
      (fun place other before inside => by omega)
      (fun step state inside scattered => by
        have reads : ∀ i, step < i → i < half →
            load state (workOf scratch half) (half + i) =
              .ok (analysis half (differences half v) i) := by
          intro i later within
          refine load_ok (by omega) ?_
          rw [scattered.kept _ fun place before => by omega]
          exact found i (by omega) within _
        unfold addAbove
        dsimp only
        rw [reads (step + 1) (by omega) (by omega), ok_bind, Nat.add_assoc half,
          reads (step + 2) (by omega) (by omega), ok_bind]
        change (Except.ok _ >>= _) = _
        rw [ok_bind, save_ok (by omega) (by
          rw [scattered.length, List.length_set]
          omega)])
  refine ⟨_, _, _, result, loaded 0 (by omega), loaded 1 (by omega),
    save_ok (by omega) room _, ran, ⟨?_, ?_⟩, ?_⟩
  · intro i inside
    rw [scattered.kept _ fun place before => by omega, List.getElem?_set_ne (by omega)]
    exact halves.lower i inside
  · intro i inside
    by_cases last : i = half - 1
    · rw [scattered.kept _ fun place before => by omega, found i (by omega) inside, last,
        analysis_odd_last v large]
    · rw [analysis_odd v (by omega)]
      rcases Nat.eq_zero_or_pos i with rfl | later
      · rw [Nat.add_zero, scattered.kept _ fun place before => by omega,
          List.getElem?_set_self room, if_pos rfl]
      · have placed := scattered.placed (i - 1) (by omega)
        have index : i - 1 + 1 = i := by
          omega
        have index' : i - 1 + 2 = i + 1 := by
          omega
        rw [index, index'] at placed
        rw [if_neg (by omega)]
        exact placed
  · have first : StaysIn scratch mem (mem.set ((workOf scratch half).start + half)
        (analysis half (differences half v) 0 * √2 +
          analysis half (differences half v) 1)) := by
      refine ⟨List.length_set, fun place outside => List.getElem?_set_ne ?_⟩
      rintro rfl
      apply outside
      unfold Span.Contains
      omega
    refine first.trans (staysIn_of_scattered scattered fun place before => ?_)
    unfold Span.Contains
    omega

/-- The waves take turns in the place of the samples. -/
theorem interleave_step
    (space : 4 * half ≤ scratch.len)
    (samples : Samples values scratch half v mem)
    (halves : Halves (workOf scratch half) half even odd mem) :
    ∃ result,
      (List.range half).foldlM (interleave half values (workOf scratch half)) mem =
          .ok result ∧
        Scattered (fun place => values.start + place)
          (fun place => if place % 2 = 0 then even (place / 2) else odd (place / 2))
          (2 * half) mem result := by
  have start : (workOf scratch half).start = scratch.start := rfl
  have length : (workOf scratch half).len = 2 * half := rfl
  have room : ∀ place, place < 2 * half → values.start + place < mem.length :=
    fun place inside => (List.getElem?_eq_some_iff.1 (samples.found place inside)).1
  have outside : ∀ i, i < 2 * half → ∀ place, place < 2 * half →
      values.start + place ≠ (workOf scratch half).start + i := by
    intro i isWork place inside equal
    apply samples.apart place inside
    rw [equal]
    unfold Span.Contains
    omega
  refine scattered_loop_two _ _ _ room (fun place other before inside => by omega) ?_
  intro i state inside scattered
  have reads : ∀ k, k < 2 * half → ∀ state' : List ℝ, ∀ value,
      state'[(workOf scratch half).start + k]? = state[(workOf scratch half).start + k]? →
      mem[(workOf scratch half).start + k]? = some value →
      load state' (workOf scratch half) k = .ok value := by
    intro k isWork state' value same found
    refine load_ok (by omega) (same.trans ?_)
    rw [scattered.kept _ fun place before => (outside k isWork place (by omega)).symm]
    exact found
  have length' : values.len = 2 * half := samples.length
  have parity : (2 * i + 1) / 2 = i := by
    omega
  have half' : 2 * i / 2 = i := by
    omega
  unfold interleave
  rw [reads i (by omega) state _ rfl (halves.lower i inside), ok_bind,
    save_ok (by omega) (by rw [scattered.length]; exact room _ (by omega)), ok_bind,
    reads (half + i) (by omega) _ _ ?_ (halves.upper i inside), ok_bind,
    save_ok (by omega) (by
      rw [List.length_set, scattered.length]
      exact room _ (by omega)),
    if_pos (Nat.mul_mod_right 2 i), if_neg (by omega), parity, half']
  exact List.getElem?_set_ne (outside (half + i) (by omega) (2 * i) (by omega))

end

/-! ## One dimension -/

/-- A transform of twice the length. -/
theorem forward_double
    {level : Nat}
    (large : 1 ≤ level)
    (small : level ≤ 7)
    (spec : ForwardSpec (2 ^ level)) :
    ForwardSpec (2 * 2 ^ level) := by
  have two : 2 ^ 1 ≤ 2 ^ level :=
    Nat.pow_le_pow_right (by decide) large
  intro mem values scratch v length found apart space inMemory
  generalize isHalf : 2 ^ level = half at *
  have space' : 4 * half ≤ scratch.len := by
    omega
  have samples : Samples values scratch half v mem :=
    ⟨length, found, apart⟩
  obtain ⟨isWork, isNext, isLower, isUpper⟩ := scratch_slices space'
  obtain ⟨memA, odd, ranA, halvesA, staysA⟩ := sums_step space' inMemory samples
  obtain ⟨memB, ranB, halvesB, staysB⟩ :=
    lower_step spec space' (by rw [staysA.length]; exact inMemory) halvesA
  have staysB' := staysA.trans staysB
  obtain ⟨memC, ranC, halvesC, staysC⟩ :=
    differences_step isHalf.symm large small space'
      (by rw [staysB'.length]; exact inMemory) (samples.of_staysIn staysB') halvesB
  have staysC' := staysB'.trans staysC
  obtain ⟨memD, ranD, halvesD, staysD⟩ :=
    upper_step spec space' (by rw [staysC'.length]; exact inMemory) halvesC
  have staysD' := staysC'.trans staysD
  obtain ⟨first, second, middle, memE, isFirst, isSecond, saved, ranE, halvesE, staysE⟩ :=
    oddWaves_step two space' (by rw [staysD'.length]; exact inMemory) halvesD
  have staysE' := staysD'.trans staysE
  obtain ⟨result, ranF, scattered⟩ :=
    interleave_step space' (samples.of_staysIn staysE') halvesE
  have halved : 2 * half / 2 = half :=
    Nat.mul_div_cancel_left half (by decide)
  refine ⟨result, ?_, scattered.length.trans staysE'.length, ?_, ?_⟩
  · dsimp only at ranB ranD ⊢
    rw [forward1D, if_neg (by omega), if_neg (by omega), if_neg (by omega)]
    dsimp only
    rw [halved, isWork, ok_bind, isNext, ok_bind, ranA, ok_bind, isLower, ok_bind, ranB,
      ok_bind, ranC, ok_bind, isUpper, ok_bind, ranD, ok_bind, isFirst, ok_bind]
    change (Except.ok (first * √2) >>= _) = _
    rw [ok_bind, isSecond, ok_bind]
    change (Except.ok (first * √2 + second) >>= _) = _
    rw [ok_bind, saved, ok_bind, require_ok (show 2 ≤ half from two), ok_bind, ranE, ok_bind, ranF]
  · intro j inside
    rw [placeOf_one]
    have placed := scattered.placed j inside
    rcases Nat.even_or_odd' j with ⟨i, rfl | rfl⟩
    · have index : 2 * i / 2 = i := by
        omega
      rw [if_pos (Nat.mul_mod_right 2 i), index] at placed
      rw [analysis_even]
      exact placed
    · have index : (2 * i + 1) / 2 = i := by
        omega
      rw [if_neg (by omega), index] at placed
      exact placed
  · intro place other outside
    rw [scattered.kept place fun i before => by
      have different := other i before
      rw [placeOf_one] at different
      exact different]
    exact staysE'.kept place outside

/-- Exact operations make the forward transform the weights of the waves. -/
theorem forward_exact
    {level : Nat}
    (small : level ≤ 8) :
    ForwardSpec (2 ^ level) := by
  induction level with
  | zero =>
      exact forward_one
  | succ level inductionHypothesis =>
      rcases Nat.eq_zero_or_pos level with rfl | large
      · exact forward_two
      · rw [Nat.pow_succ, Nat.mul_comm]
        exact forward_double large (Nat.le_of_succ_le_succ small)
          (inductionHypothesis (Nat.le_of_succ_le small))

end Jxlz.InverseTransform
