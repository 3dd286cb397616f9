import Jxlz.Codec.Passes

namespace Jxlz.Passes

/-!
# The passes share out the shifts

The smallest shift that is decoded after a pass never grows, starts at three
and ends at zero.  The range of a pass is what lies between its own value and
the one before it, so every shift below three belongs to one pass.
-/

/-- The shift that a factor of a valid header leaves. -/
def level
    (self : Passes)
    (i : Nat) :
    Int :=
  (downsampleShift (self.downsample i)).toOption.getD 0

/-- The smallest shift decoded before a pass. -/
def minAfter
    (self : Passes) :
    Nat → Int
  | 0 => 3
  | pass + 1 =>
      if pass = self.num_passes - 1 then
        0
      else
        (List.range self.num_downsample).foldl
          (fun min i => if pass = self.last_pass i then self.level i else min)
          (self.minAfter pass)

variable {self : Passes}

theorem downsampleShift_level
    (valid : self.Valid)
    {i : Nat}
    (inside : i < self.num_downsample) :
    downsampleShift (self.downsample i) = .ok (self.level i) ∧
      0 ≤ self.level i ∧ self.level i ≤ 3 := by
  obtain ⟨shift, isShift, lower, upper⟩ := valid.factor i inside
  have isLevel : self.level i = shift := by
    unfold level
    rw [isShift]
    rfl
  rw [isLevel]
  exact ⟨isShift, lower, upper⟩

theorem passMin_ok
    (valid : self.Valid)
    (pass : Nat)
    (current : Int) :
    self.passMin pass current =
      .ok ((List.range self.num_downsample).foldl
        (fun min i => if pass = self.last_pass i then self.level i else min)
        current) := by
  refine foldlM_ok ?_ current
  intro i member state
  have isLevel := (downsampleShift_level valid (List.mem_range.1 member)).1
  by_cases here : pass = self.last_pass i
  · rw [if_pos here, if_pos here, isLevel]
  · rw [if_neg here, if_neg here]

/-- The range of a pass lies between two neighbouring values of `minAfter`. -/
theorem shiftRange_ok
    (valid : self.Valid)
    {pass_id : Nat}
    (inside : pass_id < self.num_passes) :
    self.shiftRange pass_id =
      .ok { min := self.minAfter (pass_id + 1)
            max := self.minAfter pass_id - 1 } := by
  have fewPasses := valid.fewPasses
  have fewFactors := valid.fewFactors
  unfold shiftRange
  rw [if_neg (by omega), List.range_succ, List.foldlM_append]
  have before :
      ∀ count,
        count ≤ pass_id →
        (List.range count).foldlM
            (fun (range : ShiftRange) pass => do
              let lowered ← self.passMin pass range.min
              let min := if pass = self.num_passes - 1 then 0 else lowered
              if pass ≠ pass_id then
                return { min, max := min - 1 }
              else
                return { range with min })
            { min := 3, max := 2 } =
          (.ok { min := self.minAfter count
                 max := self.minAfter count - 1 } : Checked ShiftRange) := by
    intro count
    induction count with
    | zero =>
        intro _
        rfl
    | succ count inductionHypothesis =>
        intro below
        have notLast : count ≠ pass_id := by
          omega
        rw [List.range_succ, List.foldlM_append,
          inductionHypothesis (by omega)]
        simp only [ok_bind, List.foldlM_cons, List.foldlM_nil,
          passMin_ok valid, notLast, ne_eq, not_false_eq_true, if_true,
          pure_eq_ok, minAfter]
  rw [before pass_id le_rfl]
  simp only [ok_bind, List.foldlM_cons, List.foldlM_nil, passMin_ok valid,
    ne_eq, not_true_eq_false, if_false, pure_eq_ok, minAfter]

/-- Later factors have later last passes. -/
theorem last_pass_lt
    (valid : self.Valid)
    {i j : Nat}
    (before : i < j)
    (inside : j < self.num_downsample) :
    self.last_pass i < self.last_pass j := by
  induction before with
  | refl =>
      exact valid.rising i inside
  | @step j _ inductionHypothesis =>
      exact Nat.lt_trans (inductionHypothesis (Nat.lt_of_succ_lt inside))
        (valid.rising j inside)

/-- Later factors leave smaller shifts. -/
theorem downsample_lt
    (valid : self.Valid)
    {i j : Nat}
    (before : i < j)
    (inside : j < self.num_downsample) :
    self.downsample j < self.downsample i := by
  induction before with
  | refl =>
      exact valid.falling i inside
  | @step j _ inductionHypothesis =>
      exact Nat.lt_trans (valid.falling j inside)
        (inductionHypothesis (Nat.lt_of_succ_lt inside))

/-- A smaller factor leaves a smaller shift. -/
theorem downsampleShift_le
    {small large : Nat}
    {smallShift largeShift : Int}
    (isSmall : downsampleShift small = .ok smallShift)
    (isLarge : downsampleShift large = .ok largeShift)
    (below : small ≤ large) :
    smallShift ≤ largeShift := by
  unfold downsampleShift at isSmall isLarge
  split at isSmall <;> split at isLarge <;> cases isSmall <;> cases isLarge <;>
    omega

theorem level_le
    (valid : self.Valid)
    {i j : Nat}
    (order : i ≤ j)
    (inside : j < self.num_downsample) :
    self.level j ≤ self.level i := by
  rcases Nat.eq_or_lt_of_le order with rfl | before
  · exact le_rfl
  · exact downsampleShift_le (downsampleShift_level valid inside).1
      (downsampleShift_level valid (Nat.lt_trans before inside)).1
      (Nat.le_of_lt (downsample_lt valid before inside))

/-- Where the value of the inner loop comes from. -/
theorem passMin_cases
    (pass : Nat)
    (current : Int)
    (count : Nat) :
    let result :=
      (List.range count).foldl
        (fun min i => if pass = self.last_pass i then self.level i else min)
        current
    result = current ∨
      ∃ i, i < count ∧ self.last_pass i = pass ∧ result = self.level i := by
  induction count with
  | zero =>
      exact .inl rfl
  | succ count inductionHypothesis =>
      rw [List.range_succ, List.foldl_append]
      by_cases here : pass = self.last_pass count
      · exact .inr ⟨count, Nat.lt_succ_self count, here.symm, if_pos here⟩
      · simp only [List.foldl_cons, List.foldl_nil, here, if_false]
        rcases inductionHypothesis with same | ⟨i, inside, isLast, isLevel⟩
        · exact .inl same
        · exact .inr ⟨i, Nat.lt_succ_of_lt inside, isLast, isLevel⟩

/-- Until the last pass, the value comes from a factor of an earlier pass. -/
theorem minAfter_cases
    {pass : Nat}
    (early : pass < self.num_passes) :
    self.minAfter pass = 3 ∨
      ∃ i, i < self.num_downsample ∧ self.last_pass i < pass ∧
        self.minAfter pass = self.level i := by
  induction pass with
  | zero =>
      exact .inl rfl
  | succ pass inductionHypothesis =>
      have notLast : pass ≠ self.num_passes - 1 := by
        omega
      have isNext :
          self.minAfter (pass + 1) =
            (List.range self.num_downsample).foldl
              (fun min i =>
                if pass = self.last_pass i then self.level i else min)
              (self.minAfter pass) :=
        if_neg notLast
      rcases passMin_cases pass (self.minAfter pass) self.num_downsample with
        same | ⟨i, inside, isLast, isLevel⟩
      · rw [isNext, same]
        rcases inductionHypothesis (Nat.lt_of_succ_lt early) with
          first | ⟨i, inside, earlier, isLevel⟩
        · exact .inl first
        · exact .inr ⟨i, inside, Nat.lt_succ_of_lt earlier, isLevel⟩
      · exact .inr ⟨i, inside, isLast ▸ Nat.lt_succ_self _,
          isNext.trans isLevel⟩

theorem minAfter_bounds
    (valid : self.Valid)
    {pass : Nat}
    (early : pass < self.num_passes) :
    0 ≤ self.minAfter pass ∧ self.minAfter pass ≤ 3 := by
  rcases minAfter_cases early with first | ⟨i, inside, _, isLevel⟩
  · rw [first]
    decide
  · rw [isLevel]
    exact (downsampleShift_level valid inside).2

/-- The value never grows from one pass to the next. -/
theorem minAfter_succ_le
    (valid : self.Valid)
    {pass : Nat}
    (early : pass < self.num_passes) :
    self.minAfter (pass + 1) ≤ self.minAfter pass := by
  by_cases final : pass = self.num_passes - 1
  · have isZero : self.minAfter (pass + 1) = 0 :=
      if_pos final
    rw [isZero]
    exact (minAfter_bounds valid early).1
  · have isNext :
        self.minAfter (pass + 1) =
          (List.range self.num_downsample).foldl
            (fun min i =>
              if pass = self.last_pass i then self.level i else min)
            (self.minAfter pass) :=
      if_neg final
    rcases passMin_cases pass (self.minAfter pass) self.num_downsample with
      same | ⟨i, inside, isLast, isLevel⟩
    · rw [isNext, same]
    · rw [isNext, isLevel]
      rcases minAfter_cases early with first | ⟨j, inFactors, earlier, isPrior⟩
      · rw [first]
        exact (downsampleShift_level valid inside).2.2
      · rw [isPrior]
        -- the factor of the earlier pass comes first in the list
        refine level_le valid (Nat.not_lt.1 ?_) inside
        intro after
        have later := last_pass_lt valid after inFactors
        omega

theorem minAfter_antitone
    (valid : self.Valid)
    {first second : Nat}
    (order : first ≤ second)
    (inside : second ≤ self.num_passes) :
    self.minAfter second ≤ self.minAfter first := by
  induction order with
  | refl =>
      exact le_rfl
  | @step second _ inductionHypothesis =>
      exact (minAfter_succ_le valid inside).trans
        (inductionHypothesis (Nat.le_of_lt inside))

theorem minAfter_num_passes
    (valid : self.Valid) :
    self.minAfter self.num_passes = 0 := by
  obtain ⟨last, isLast⟩ := Nat.exists_eq_succ_of_ne_zero
    (Nat.pos_iff_ne_zero.1 valid.somePass)
  rw [isLast]
  exact if_pos (by omega)

/-- A value below the start of a falling sequence is passed exactly once. -/
theorem exists_unique_crossing
    {values : Nat → Int}
    {count : Nat}
    (falls :
      ∀ first second,
        first ≤ second → second ≤ count → values second ≤ values first)
    {shift : Int}
    (above : shift < values 0)
    (below : values count ≤ shift) :
    ∃! pass, pass < count ∧ values (pass + 1) ≤ shift ∧
      shift < values pass := by
  have crossing : ∃ pass, values pass ≤ shift :=
    ⟨count, below⟩
  have least := Nat.find_spec crossing
  have notStart : Nat.find crossing ≠ 0 := by
    intro isStart
    rw [isStart] at least
    omega
  obtain ⟨pass, isPass⟩ := Nat.exists_eq_succ_of_ne_zero notStart
  have upTo : Nat.find crossing ≤ count :=
    Nat.find_le below
  have earlier : shift < values pass := by
    have notYet := Nat.find_min crossing (isPass ▸ Nat.lt_succ_self pass)
    omega
  rw [isPass] at least upTo
  refine ⟨pass, ⟨upTo, least, earlier⟩, ?_⟩
  rintro other ⟨inside, passed, notPassed⟩
  rcases Nat.lt_trichotomy other pass with less | same | greater
  · have atOther := falls (other + 1) pass less (by omega)
    omega
  · exact same
  · have atPass := falls (pass + 1) other greater (by omega)
    have reached : values (pass + 1) ≤ shift := least
    omega

/-- Every shift below three is in the range of exactly one pass. -/
theorem exists_unique_pass
    (valid : self.Valid)
    {hshift vshift : Int}
    (lower : 0 ≤ min hshift vshift)
    (upper : min hshift vshift < 3) :
    ∃! pass, pass < self.num_passes ∧
      ∃ range,
        self.shiftRange pass = .ok range ∧
          range.contains hshift vshift = true := by
  obtain ⟨pass, ⟨inside, reached, notBefore⟩, unique⟩ :=
    exists_unique_crossing
      (fun first second order inside =>
        minAfter_antitone valid order inside)
      (show min hshift vshift < self.minAfter 0 from upper)
      (show self.minAfter self.num_passes ≤ min hshift vshift by
        rw [minAfter_num_passes valid]
        exact lower)
  have contained :
      ∀ other,
        other < self.num_passes →
        ((∃ range,
            self.shiftRange other = .ok range ∧
              range.contains hshift vshift = true) ↔
          self.minAfter (other + 1) ≤ min hshift vshift ∧
            min hshift vshift < self.minAfter other) := by
    intro other isPass
    rw [shiftRange_ok valid isPass]
    constructor
    · rintro ⟨range, isRange, holds⟩
      cases isRange
      simp only [ShiftRange.contains, Bool.and_eq_true, decide_eq_true_eq]
        at holds
      exact ⟨holds.1, by omega⟩
    · rintro ⟨fromMin, toMax⟩
      refine ⟨_, rfl, ?_⟩
      simp only [ShiftRange.contains, Bool.and_eq_true, decide_eq_true_eq]
      exact ⟨fromMin, by omega⟩
  refine ⟨pass, ⟨inside, (contained pass inside).2 ⟨reached, notBefore⟩⟩, ?_⟩
  rintro other ⟨isPass, holds⟩
  obtain ⟨passed, notPassed⟩ := (contained other isPass).1 holds
  exact unique other ⟨isPass, passed, notPassed⟩

/-- No pass holds a shift of three or more. -/
theorem not_contains_of_three_le
    (valid : self.Valid)
    {hshift vshift : Int}
    (large : 3 ≤ min hshift vshift)
    {pass : Nat}
    {range : ShiftRange}
    (inside : pass < self.num_passes)
    (isRange : self.shiftRange pass = .ok range) :
    range.contains hshift vshift = false := by
  rw [shiftRange_ok valid inside] at isRange
  cases isRange
  have bounded := (minAfter_bounds valid inside).2
  simp only [ShiftRange.contains, Bool.and_eq_false_iff, decide_eq_false_iff_not]
  exact .inr (by omega)

end Jxlz.Passes
