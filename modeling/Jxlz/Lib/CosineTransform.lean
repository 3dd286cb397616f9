import Mathlib

namespace CosineTransform

/-!
# Discrete cosine transforms

A signal of `n` samples is a sum of cosines: `synthesis` adds them up, and `analysis`
takes the samples back to `n` times their weights.  The transform of an even number of
samples comes from two transforms of half as many, one for the waves of even number and
one for those of odd number.
-/

open Real Finset

/-- The angle of a sample. -/
noncomputable def angle
    (n j : ℕ) :
    ℝ :=
  (2 * j + 1) * π / (2 * n)

/-- The sample that weights give. -/
noncomputable def synthesis
    (n : ℕ)
    (c : ℕ → ℝ)
    (j : ℕ) :
    ℝ :=
  c 0 + √2 * ∑ k ∈ Ico 1 n, c k * cos (k * angle n j)

/-- The factor of a wave. -/
noncomputable def factor
    (k : ℕ) :
    ℝ :=
  if k = 0 then 1 else √2

/-- The weight of a wave in samples, times their number. -/
noncomputable def analysis
    (n : ℕ)
    (v : ℕ → ℝ)
    (k : ℕ) :
    ℝ :=
  factor k * ∑ j ∈ range n, v j * cos (k * angle n j)

/-! ## Angles -/

section

variable {half j : ℕ}

theorem angle_double
    (half j : ℕ) :
    2 * angle (2 * half) j = angle half j := by
  unfold angle
  push_cast
  rcases Nat.eq_zero_or_pos half with rfl | positive
  · simp
  · have nonzero : (half : ℝ) ≠ 0 := by
      positivity
    field_simp

/-- The sample on the other side. -/
theorem angle_mirror
    (inside : j < half) :
    angle half (half - 1 - j) = π - angle half j := by
  have nonzero : (half : ℝ) ≠ 0 := by
    have positive := Nat.zero_lt_of_lt inside
    positivity
  have index : ((half - 1 - j : ℕ) : ℝ) = half - 1 - j := by
    rw [Nat.cast_sub (by omega), Nat.cast_sub (by omega)]
    push_cast
    ring
  unfold angle
  rw [index]
  field_simp
  ring

theorem cos_mirror_even
    (inside : j < half)
    (k : ℕ) :
    cos ((2 * k : ℕ) * angle half (half - 1 - j)) = cos ((2 * k : ℕ) * angle half j) := by
  rw [angle_mirror inside]
  have turn : ((2 * k : ℕ) : ℝ) * (π - angle half j) =
      (k : ℝ) * (2 * π) - (2 * k : ℕ) * angle half j := by
    push_cast
    ring
  rw [turn, cos_nat_mul_two_pi_sub]

theorem cos_mirror_odd
    (inside : j < half)
    (k : ℕ) :
    cos ((2 * k + 1 : ℕ) * angle half (half - 1 - j)) =
      -cos ((2 * k + 1 : ℕ) * angle half j) := by
  rw [angle_mirror inside]
  have turn : ((2 * k + 1 : ℕ) : ℝ) * (π - angle half j) =
      π - (2 * k + 1 : ℕ) * angle half j + (k : ℝ) * (2 * π) := by
    push_cast
    ring
  rw [turn, cos_add_nat_mul_two_pi, cos_pi_sub]

/-- The wave after the last one is zero at every sample. -/
theorem cos_last
    (positive : 0 < half)
    (j : ℕ) :
    cos (half * angle half j) = 0 := by
  have nonzero : (half : ℝ) ≠ 0 := by
    positivity
  rw [cos_eq_zero_iff]
  refine ⟨j, ?_⟩
  unfold angle
  push_cast
  field_simp

theorem cos_angle_pos
    (inside : j < half) :
    0 < cos (angle (2 * half) j) := by
  have positive : (0 : ℝ) < half := by
    have := Nat.zero_lt_of_lt inside
    positivity
  have below : (j : ℝ) + 1 ≤ half := by
    exact_mod_cast inside
  have pi := pi_pos
  apply cos_pos_of_mem_Ioo
  unfold angle
  push_cast
  constructor
  · have angle : 0 < (2 * j + 1) * π / (2 * (2 * half)) := by
      positivity
    linarith
  · rw [div_lt_iff₀ (by positivity)]
    nlinarith

/-- Twice the product of the first wave and an odd one. -/
theorem two_cos_mul_cos
    (k : ℕ)
    (x : ℝ) :
    2 * cos x * cos ((2 * k + 1 : ℕ) * x) = cos (k * (2 * x)) + cos ((k + 1 : ℕ) * (2 * x)) := by
  rw [two_mul_cos_mul_cos]
  push_cast
  congr 1
  · rw [← cos_neg]
    congr 1
    ring
  · congr 1
    ring

end

/-! ## Synthesis from halves -/

section

variable {half j : ℕ}
variable (c : ℕ → ℝ)

/-- The weights of the odd waves, each with its neighbour. -/
noncomputable def neighbours
    (c : ℕ → ℝ)
    (i : ℕ) :
    ℝ :=
  if i = 0 then √2 * c 1 else c (2 * i + 1) + c (2 * i - 1)

theorem sum_split
    (f : ℕ → ℝ)
    (positive : 0 < half) :
    ∑ k ∈ Ico 1 (2 * half), f k =
      ∑ i ∈ Ico 1 half, f (2 * i) + ∑ i ∈ range half, f (2 * i + 1) := by
  induction half, positive using Nat.le_induction with
  | base =>
      simp
  | succ half positive inductionHypothesis =>
      rw [Nat.mul_add, Nat.mul_one, sum_Ico_succ_top (by omega), sum_Ico_succ_top (by omega),
        inductionHypothesis, sum_Ico_succ_top positive, sum_range_succ]
      ring

/-- The even waves make the transform of half the samples. -/
theorem even_waves
    (half j : ℕ) :
    c 0 + √2 * ∑ i ∈ Ico 1 half, c (2 * i) * cos ((2 * i : ℕ) * angle (2 * half) j) =
      synthesis half (fun i => c (2 * i)) j := by
  unfold synthesis
  congr 2
  refine sum_congr rfl fun i _ => ?_
  rw [← angle_double half j]
  push_cast
  congr 2
  ring

/-- The odd waves make a transform of the neighbours, but for one factor. -/
theorem odd_waves
    (positive : 0 < half)
    (j : ℕ) :
    2 * cos (angle (2 * half) j) *
        (√2 * ∑ i ∈ range half, c (2 * i + 1) * cos ((2 * i + 1 : ℕ) * angle (2 * half) j)) =
      synthesis half (neighbours c) j := by
  have waves : ∀ i,
      2 * cos (angle (2 * half) j) *
          (c (2 * i + 1) * cos ((2 * i + 1 : ℕ) * angle (2 * half) j)) =
        c (2 * i + 1) * cos (i * angle half j) +
          c (2 * i + 1) * cos ((i + 1 : ℕ) * angle half j) := by
    intro i
    rw [← angle_double half j, ← mul_add, ← two_cos_mul_cos]
    ring
  have last := cos_last positive j
  rw [mul_left_comm, mul_sum, sum_congr rfl fun i _ => waves i, sum_add_distrib]
  have first :
      ∑ i ∈ range half, c (2 * i + 1) * cos (i * angle half j) =
        c 1 + ∑ i ∈ Ico 1 half, c (2 * i + 1) * cos (i * angle half j) := by
    rw [range_eq_Ico, sum_eq_sum_Ico_succ_bot positive]
    simp
  have second :
      ∑ i ∈ range half, c (2 * i + 1) * cos ((i + 1 : ℕ) * angle half j) =
        ∑ i ∈ Ico 1 half, c (2 * i - 1) * cos (i * angle half j) := by
    have shifted :
        ∑ i ∈ Ico 1 (half + 1), c (2 * i - 1) * cos (i * angle half j) =
          ∑ i ∈ range half, c (2 * i + 1) * cos ((i + 1 : ℕ) * angle half j) := by
      rw [sum_Ico_eq_sum_range, Nat.add_sub_cancel]
      refine sum_congr rfl fun i _ => ?_
      rw [Nat.add_comm 1 i]
      rfl
    rw [← shifted, sum_Ico_succ_top positive, last, mul_zero, add_zero]
  unfold synthesis neighbours
  rw [first, second, if_pos rfl, add_assoc, ← sum_add_distrib, mul_add]
  congr 2
  refine sum_congr rfl fun i member => ?_
  have nonzero := (mem_Ico.1 member).1
  rw [if_neg (by omega)]
  ring

theorem mul_div_cancel_two
    {x : ℝ}
    (nonzero : x ≠ 0)
    (y : ℝ) :
    2 * x * y * (1 / (2 * x)) = y := by
  field_simp

/-- A sample of the first half. -/
theorem synthesis_first
    (inside : j < half) :
    synthesis (2 * half) c j =
      synthesis half (fun i => c (2 * i)) j +
        synthesis half (neighbours c) j * (1 / (2 * cos (angle (2 * half) j))) := by
  have positive := Nat.zero_lt_of_lt inside
  have nonzero := (cos_angle_pos inside).ne'
  rw [← even_waves, ← odd_waves c positive, mul_div_cancel_two nonzero]
  conv_lhs => rw [synthesis, sum_split _ positive, mul_add, ← add_assoc]

/-- The sample on the other side has the odd waves turned round. -/
theorem synthesis_second
    (inside : j < half) :
    synthesis (2 * half) c (2 * half - j - 1) =
      synthesis half (fun i => c (2 * i)) j -
        synthesis half (neighbours c) j * (1 / (2 * cos (angle (2 * half) j))) := by
  have positive := Nat.zero_lt_of_lt inside
  have nonzero := (cos_angle_pos inside).ne'
  have within : j < 2 * half := by
    omega
  rw [← even_waves, ← odd_waves c positive, mul_div_cancel_two nonzero, Nat.sub_right_comm]
  conv_lhs => rw [synthesis, sum_split _ positive, mul_add]
  have even :
      ∑ i ∈ Ico 1 half, c (2 * i) * cos ((2 * i : ℕ) * angle (2 * half) (2 * half - 1 - j)) =
        ∑ i ∈ Ico 1 half, c (2 * i) * cos ((2 * i : ℕ) * angle (2 * half) j) :=
    sum_congr rfl fun i _ => by rw [cos_mirror_even within]
  have odd :
      ∑ i ∈ range half,
          c (2 * i + 1) * cos ((2 * i + 1 : ℕ) * angle (2 * half) (2 * half - 1 - j)) =
        -∑ i ∈ range half, c (2 * i + 1) * cos ((2 * i + 1 : ℕ) * angle (2 * half) j) := by
    rw [← sum_neg_distrib]
    refine sum_congr rfl fun i _ => ?_
    rw [cos_mirror_odd within]
    ring
  rw [even, odd, mul_neg, ← sub_eq_add_neg, ← add_sub_assoc]

end

/-! ## Analysis from halves -/

section

variable {half : ℕ}
variable (v : ℕ → ℝ)

/-- The sum of a sample and the one on the other side. -/
def sums
    (half : ℕ)
    (v : ℕ → ℝ)
    (j : ℕ) :
    ℝ :=
  v j + v (2 * half - j - 1)

/-- Their difference, without the first wave. -/
noncomputable def differences
    (half : ℕ)
    (v : ℕ → ℝ)
    (j : ℕ) :
    ℝ :=
  (v j - v (2 * half - j - 1)) * (1 / (2 * cos (angle (2 * half) j)))

theorem sum_mirror
    (f : ℕ → ℝ)
    (half : ℕ) :
    ∑ j ∈ range (2 * half), f j = ∑ j ∈ range half, (f j + f (2 * half - j - 1)) := by
  rw [sum_add_distrib, two_mul, sum_range_add, ← sum_range_reflect (fun j => f (half + j))]
  congr 1
  refine sum_congr rfl fun j member => ?_
  have inside := mem_range.1 member
  congr 1
  omega

/-- The even waves of samples are those of the sums. -/
theorem analysis_even
    (half i : ℕ) :
    analysis (2 * half) v (2 * i) = analysis half (sums half v) i := by
  have same : factor (2 * i) = factor i := by
    unfold factor
    congr 1
    simp
  unfold analysis
  rw [same, sum_mirror]
  congr 1
  refine sum_congr rfl fun j member => ?_
  have inside : j < 2 * half := by
    have := mem_range.1 member
    omega
  rw [Nat.sub_right_comm, cos_mirror_even inside, ← add_mul, ← angle_double half j,
    Nat.sub_right_comm]
  unfold sums
  push_cast
  congr 2
  ring

/-- The odd waves of samples. -/
theorem analysis_odd_sum
    (half i : ℕ) :
    analysis (2 * half) v (2 * i + 1) =
      √2 *
        (∑ j ∈ range half, differences half v j * cos (i * angle half j) +
          ∑ j ∈ range half, differences half v j * cos ((i + 1 : ℕ) * angle half j)) := by
  unfold analysis factor
  rw [if_neg (Nat.succ_ne_zero _), sum_mirror, ← sum_add_distrib]
  congr 1
  refine sum_congr rfl fun j member => ?_
  have inside := mem_range.1 member
  have within : j < 2 * half := by
    omega
  have nonzero := (cos_angle_pos inside).ne'
  rw [Nat.sub_right_comm, cos_mirror_odd within, Nat.sub_right_comm, ← mul_add,
    ← angle_double half j, ← two_cos_mul_cos]
  unfold differences
  field_simp
  ring

/-- Each odd wave is a wave of the differences and its neighbour. -/
theorem analysis_odd
    {i : ℕ}
    (inside : i + 1 < half) :
    analysis (2 * half) v (2 * i + 1) =
      (if i = 0 then analysis half (differences half v) 0 * √2
        else analysis half (differences half v) i) +
        analysis half (differences half v) (i + 1) := by
  rw [analysis_odd_sum, mul_add]
  congr 1
  split
  next first =>
    subst first
    unfold analysis factor
    rw [if_pos rfl, one_mul, mul_comm]
  next later =>
    unfold analysis factor
    rw [if_neg later]

/-- The last one has no neighbour. -/
theorem analysis_odd_last
    (large : 2 ≤ half) :
    analysis (2 * half) v (2 * (half - 1) + 1) =
      analysis half (differences half v) (half - 1) := by
  have last : ∑ j ∈ range half,
      differences half v j * cos ((half - 1 + 1 : ℕ) * angle half j) = 0 := by
    refine sum_eq_zero fun j _ => ?_
    rw [Nat.sub_add_cancel (by omega), cos_last (by omega), mul_zero]
  rw [analysis_odd_sum, last, add_zero]
  unfold analysis factor
  rw [if_neg (by omega)]

end

/-! ## Inversion -/

/-- A sum of cosines at equal steps. -/
theorem sum_cos
    (n : ℕ)
    (x : ℝ) :
    2 * sin (x / 2) * ∑ k ∈ Ico 1 (n + 1), cos (k * x) =
      sin (n * x + x / 2) - sin (x / 2) := by
  induction n with
  | zero =>
      simp
  | succ n inductionHypothesis =>
      rw [sum_Ico_succ_top (by omega), mul_add, inductionHypothesis, two_mul_sin_mul_cos]
      push_cast
      have below : x / 2 - (n + 1) * x = -(n * x + x / 2) := by
        ring
      have above : x / 2 + (n + 1) * x = (n + 1) * x + x / 2 := by
        ring
      rw [below, above, sin_neg]
      ring

/-- The sum over all waves at a step between samples. -/
theorem sum_cos_step
    {n m : ℕ}
    (positive : 0 < m)
    (inside : m < 2 * n) :
    ∑ k ∈ Ico 1 n, cos (k * (m * π / n)) = -((-1) ^ m + 1) / 2 := by
  have large : 0 < n := by
    omega
  have nonzero : (n : ℝ) ≠ 0 := by
    positivity
  have half : m * π / n / 2 = m / (2 * n) * π := by
    field_simp
  have sine : sin (m * π / n / 2) ≠ 0 := by
    apply ne_of_gt
    rw [half]
    apply sin_pos_of_pos_of_lt_pi
    · positivity
    · have below : (m : ℝ) / (2 * n) < 1 := by
        rw [div_lt_one (by positivity)]
        exact_mod_cast inside
      have pi := pi_pos
      nlinarith
  have all := sum_cos (n - 1) (m * π / n)
  rw [Nat.sub_add_cancel large] at all
  have turn : ((n - 1 : ℕ) : ℝ) * (m * π / n) + m * π / n / 2 =
      m * π - m * π / n / 2 := by
    rw [Nat.cast_sub large]
    push_cast
    field_simp
    ring
  rw [turn, sin_nat_mul_pi_sub] at all
  rw [eq_div_iff two_ne_zero]
  apply mul_left_cancel₀ sine
  linear_combination all

/-- Two samples at one place meet all waves alike, others cancel. -/
theorem gram
    {n j l : ℕ}
    (ordered : l ≤ j)
    (inside : j < n) :
    1 + 2 * ∑ k ∈ Ico 1 n, cos (k * angle n l) * cos (k * angle n j) =
      if l = j then (n : ℝ) else 0 := by
  have nonzero : (n : ℝ) ≠ 0 := by
    have := Nat.zero_lt_of_lt inside
    positivity
  have products : ∀ k : ℕ,
      2 * (cos (k * angle n l) * cos (k * angle n j)) =
        cos (k * ((j - l : ℕ) * π / n)) + cos (k * ((j + l + 1 : ℕ) * π / n)) := by
    intro k
    have difference : (k : ℝ) * ((j - l : ℕ) * π / n) = k * angle n j - k * angle n l := by
      unfold angle
      rw [Nat.cast_sub ordered]
      field_simp
      ring
    have total : (k : ℝ) * ((j + l + 1 : ℕ) * π / n) = k * angle n j + k * angle n l := by
      unfold angle
      push_cast
      field_simp
      ring
    rw [difference, total, cos_sub, cos_add]
    ring
  rw [mul_sum, sum_congr rfl fun k _ => products k, sum_add_distrib,
    sum_cos_step (by omega : 0 < j + l + 1) (by omega)]
  split
  next same =>
    subst same
    have odd : (-1 : ℝ) ^ (l + l + 1) = -1 := by
      rw [pow_succ, ← two_mul, pow_mul]
      simp
    rw [odd]
    simp only [Nat.sub_self, Nat.cast_zero, zero_mul, zero_div, mul_zero, cos_zero,
      sum_const, Nat.card_Ico, nsmul_eq_mul, mul_one]
    rw [Nat.cast_sub (by omega)]
    push_cast
    ring
  next other =>
    have odd : (-1 : ℝ) ^ (j + l + 1) = -(-1) ^ (j - l) := by
      have exponent : j + l + 1 = (j - l) + 2 * l + 1 := by
        omega
      rw [exponent, pow_succ, pow_add, pow_mul]
      simp
    rw [sum_cos_step (by omega : 0 < j - l) (by omega), odd]
    ring

theorem gram_eq
    {n j l : ℕ}
    (first : l < n)
    (second : j < n) :
    1 + 2 * ∑ k ∈ Ico 1 n, cos (k * angle n l) * cos (k * angle n j) =
      if l = j then (n : ℝ) else 0 := by
  rcases Nat.le_total l j with ordered | ordered
  · exact gram ordered second
  · have swapped := gram ordered first
    have turned :
        ∑ k ∈ Ico 1 n, cos (k * angle n l) * cos (k * angle n j) =
          ∑ k ∈ Ico 1 n, cos (k * angle n j) * cos (k * angle n l) :=
      sum_congr rfl fun k _ => mul_comm _ _
    rw [turned, swapped]
    simp only [eq_comm]

/-- The samples come back from their weights. -/
theorem synthesis_analysis
    {n j : ℕ}
    (v : ℕ → ℝ)
    (inside : j < n) :
    synthesis n (fun k => analysis n v k / n) j = v j := by
  have nonzero : (n : ℝ) ≠ 0 := by
    have := Nat.zero_lt_of_lt inside
    positivity
  have root : √2 * √2 = 2 :=
    mul_self_sqrt (by norm_num)
  have waves : ∀ k ∈ Ico 1 n,
      √2 * (analysis n v k / n * cos (k * angle n j)) =
        ∑ l ∈ range n, v l / n * (2 * (cos (k * angle n l) * cos (k * angle n j))) := by
    intro k member
    have later := (mem_Ico.1 member).1
    unfold analysis factor
    rw [if_neg (by omega), mul_div_assoc, sum_div, mul_assoc, ← mul_assoc, root, sum_mul,
      mul_sum]
    refine sum_congr rfl fun l _ => ?_
    ring
  have first : analysis n v 0 / n = ∑ l ∈ range n, v l / n := by
    unfold analysis factor
    rw [if_pos rfl, one_mul, sum_div]
    refine sum_congr rfl fun l _ => ?_
    simp
  unfold synthesis
  dsimp only
  rw [first, mul_sum, sum_congr rfl waves, sum_comm, ← sum_add_distrib]
  calc
    _ = ∑ l ∈ range n, v l / n * (if l = j then (n : ℝ) else 0) := by
      refine sum_congr rfl fun l member => ?_
      rw [← gram_eq (mem_range.1 member) inside, ← mul_sum, ← mul_sum]
      ring
    _ = v j := by
      simp only [mul_ite, mul_zero, sum_ite_eq', mem_range, inside, if_true]
      exact div_mul_cancel₀ _ nonzero

end CosineTransform
