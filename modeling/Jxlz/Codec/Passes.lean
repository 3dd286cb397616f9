import Jxlz.Codec.FieldCoders

namespace Jxlz

/-!
# Passes of a progressive frame

Mirrors `Passes` of `frame_header.zig`.  A modular channel is decoded in the
pass whose range holds the smaller of its two shifts; shifts from three on
belong to the DC groups.
-/

def kMaxNumPasses : Nat := 11

/--
The passes of a frame.  The three arrays have `kMaxNumPasses` entries, zero
where nothing was written.
-/
structure Passes where
  num_passes : Nat := 1
  num_downsample : Nat := 0
  downsample : Nat → Nat := fun _ => 0
  last_pass : Nat → Nat := fun _ => 0
  shift : Nat → Nat := fun _ => 0

namespace Passes

/-- The shifts of the channels that one section holds. -/
structure ShiftRange where
  min : Int
  max : Int
  deriving Repr, DecidableEq

def ShiftRange.contains
    (self : ShiftRange)
    (hshift vshift : Int) :
    Bool :=
  let shift := Min.min hshift vshift
  decide (self.min ≤ shift) && decide (shift ≤ self.max)

/-- The smallest shift that a downsampling factor leaves. -/
def downsampleShift : Nat → Checked Int
  | 8 => .ok 3
  | 4 => .ok 2
  | 2 => .ok 1
  | 1 => .ok 0
  | _ => fail .GenericError

/-- The inner loop of `shiftRange`: the factors whose last pass this is. -/
def passMin
    (self : Passes)
    (pass : Nat)
    (current : Int) :
    Checked Int :=
  (List.range self.num_downsample).foldlM
    (fun min i =>
      if pass = self.last_pass i then downsampleShift (self.downsample i)
      else .ok min)
    current

def shiftRange
    (self : Passes)
    (pass_id : Nat) :
    Checked ShiftRange := do
  if self.num_passes ≤ pass_id ∨ kMaxNumPasses < self.num_passes ∨
      4 < self.num_downsample then
    fail .GenericError
  else
    (List.range (pass_id + 1)).foldlM
      (fun (range : ShiftRange) pass => do
        let lowered ← self.passMin pass range.min
        let min := if pass = self.num_passes - 1 then 0 else lowered
        if pass ≠ pass_id then
          return { min, max := min - 1 }
        else
          return { range with min })
      { min := 3, max := 2 }

/-- `U32(Val(a), Val(b), Val(c), d)`. -/
def threeValues
    (a b c : Nat)
    (last : U32Distr) :
    U32Enc :=
  { d0 := val a, d1 := val b, d2 := val c, d3 := last }

/-- One round of the loop over the downsampling factors. -/
def readDownsample
    (state : Passes × BitReader)
    (i : Nat) :
    Checked (Passes × BitReader) := do
  let (p, br) := state
  let (factor, br) ← U32Coder.read (threeValues 1 2 4 (val 8)) br
  if 0 < i ∧ p.downsample (i - 1) ≤ factor then
    fail .GenericError
  else
    return ({ p with downsample := Function.update p.downsample i factor }, br)

/-- One round of the loop over the last pass of each factor. -/
def readLastPass
    (state : Passes × BitReader)
    (i : Nat) :
    Checked (Passes × BitReader) := do
  let (p, br) := state
  let (last, br) ← U32Coder.read (threeValues 0 1 2 (bits 3)) br
  if 0 < i ∧ last ≤ p.last_pass (i - 1) then
    fail .GenericError
  else if p.num_passes ≤ last then
    fail .GenericError
  else
    return ({ p with last_pass := Function.update p.last_pass i last }, br)

/-- One round of the loop over the shifts. -/
def readShift
    (state : Passes × BitReader)
    (i : Nat) :
    Checked (Passes × BitReader) := do
  let (p, br) := state
  let (shift, br) ← br.readBits 2
  return ({ p with shift := Function.update p.shift i shift }, br)

def readFromBitStream
    (br : BitReader) :
    Checked (Passes × BitReader) := do
  let (num_passes, br) ← U32Coder.read (threeValues 1 2 3 (bitsOffset 3 4)) br
  if kMaxNumPasses < num_passes then
    fail .GenericError
  else if num_passes = 1 then
    return ({ num_passes }, br)
  else
    let (num_downsample, br) ←
      U32Coder.read (threeValues 0 1 2 (bitsOffset 1 3)) br
    if 4 < num_downsample then
      fail .GenericError
    else if num_passes < num_downsample then
      fail .GenericError
    else
      let beforeLast ← subU num_passes 1
      let (p, br) ←
        (List.range beforeLast).foldlM readShift
          ({ num_passes, num_downsample }, br)
      let p := { p with shift := Function.update p.shift beforeLast 0 }
      let (p, br) ← (List.range num_downsample).foldlM readDownsample (p, br)
      (List.range num_downsample).foldlM readLastPass (p, br)

/-- What the reader establishes: factors fall while their last passes rise. -/
structure Valid
    (passes : Passes) :
    Prop where
  somePass : 0 < passes.num_passes
  fewPasses : passes.num_passes ≤ kMaxNumPasses
  fewFactors : passes.num_downsample ≤ 4
  factor :
    ∀ i,
      i < passes.num_downsample →
      ∃ level : Int,
        downsampleShift (passes.downsample i) = .ok level ∧
          0 ≤ level ∧ level ≤ 3
  falling :
    ∀ i,
      i + 1 < passes.num_downsample →
      passes.downsample (i + 1) < passes.downsample i
  rising :
    ∀ i,
      i + 1 < passes.num_downsample →
      passes.last_pass i < passes.last_pass (i + 1)

/-- Every factor that can be read has a shift. -/
theorem downsampleShift_of_read
    {reader after : BitReader}
    {factor : Nat}
    (read :
      U32Coder.read (threeValues 1 2 4 (val 8)) reader = .ok (factor, after)) :
    ∃ level : Int,
      downsampleShift factor = .ok level ∧ 0 ≤ level ∧ level ≤ 3 := by
  obtain ⟨selector, isFactor⟩ :=
    U32Coder.read_direct
      (by
        intro selector
        rcases U32Enc.getDistr_cases (threeValues 1 2 4 (val 8)) selector with
          is | is | is | is <;> rw [is] <;> rfl)
      read
  subst isFactor
  rcases U32Enc.getDistr_cases (threeValues 1 2 4 (val 8)) selector with
    is | is | is | is
  · rw [is]
    exact ⟨0, rfl, by decide, by decide⟩
  · rw [is]
    exact ⟨1, rfl, by decide, by decide⟩
  · rw [is]
    exact ⟨2, rfl, by decide, by decide⟩
  · rw [is]
    exact ⟨3, rfl, by decide, by decide⟩

/-- A frame has a pass. -/
theorem num_passes_pos_of_read
    {reader after : BitReader}
    {num_passes : Nat}
    (read :
      U32Coder.read (threeValues 1 2 3 (bitsOffset 3 4)) reader =
        .ok (num_passes, after)) :
    0 < num_passes := by
  obtain ⟨selector, ⟨isDirect, isValue⟩ | ⟨extra, small, notDirect, isValue⟩⟩ :=
    U32Coder.read_cases read
  · subst isValue
    rcases U32Enc.getDistr_cases _ selector with is | is | is | is <;>
      rw [is] at isDirect ⊢
    · decide
    · decide
    · decide
    · cases isDirect
  · rcases U32Enc.getDistr_cases _ selector with is | is | is | is <;>
      rw [is] at notDirect small isValue
    · cases notDirect
    · cases notDirect
    · cases notDirect
    · have offset : (threeValues 1 2 3 (bitsOffset 3 4)).d3.offset = 4 := rfl
      have bits : (threeValues 1 2 3 (bitsOffset 3 4)).d3.extraBits = 3 := rfl
      rw [bits] at small
      rw [offset] at isValue
      omega

/-- Two states of the reader that agree on the counts. -/
def SameCounts
    (first second : Passes) :
    Prop :=
  first.num_passes = second.num_passes ∧
    first.num_downsample = second.num_downsample

theorem sameCounts_readShift
    {p next : Passes × BitReader}
    {i : Nat}
    (step : readShift p i = .ok next) :
    SameCounts next.1 p.1 := by
  unfold readShift at step
  obtain ⟨⟨shift, br⟩, _, step⟩ := bind_eq_ok.1 step
  cases step
  exact ⟨rfl, rfl⟩

/-- The factors that the reader has checked before a position. -/
structure FactorsRead
    (start : Passes)
    (position : Nat)
    (p : Passes) :
    Prop where
  counts : SameCounts p start
  factor :
    ∀ i,
      i < position →
      ∃ level : Int,
        downsampleShift (p.downsample i) = .ok level ∧
          0 ≤ level ∧ level ≤ 3
  falling :
    ∀ i,
      i + 1 < position →
      p.downsample (i + 1) < p.downsample i

theorem factorsRead_readDownsample
    {start : Passes}
    {state next : Passes × BitReader}
    {position : Nat}
    (step : readDownsample state position = .ok next)
    (before : FactorsRead start position state.1) :
    FactorsRead start (position + 1) next.1 := by
  unfold readDownsample at step
  obtain ⟨⟨factor, br⟩, isFactor, step⟩ := bind_eq_ok.1 step
  by_cases rises : 0 < position ∧ state.1.downsample (position - 1) ≤ factor
  · simp only [rises, and_self, if_true] at step
    cases step
  · simp only [rises, if_false] at step
    cases step
    refine ⟨before.counts, ?_, ?_⟩
    · intro i inside
      by_cases last : i = position
      · subst last
        simpa using downsampleShift_of_read isFactor
      · simpa [Function.update_of_ne last] using
          before.factor i (by omega)
    · intro i inside
      have notLast : i ≠ position := by
        omega
      by_cases last : i + 1 = position
      · have falls : factor < state.1.downsample i := by
          have previous : position - 1 = i := by
            omega
          rw [previous] at rises
          omega
        simpa [last, Function.update_of_ne notLast] using falls
      · simpa [Function.update_of_ne notLast, Function.update_of_ne last] using
          before.falling i (by omega)

/-- The last passes that the reader has checked before a position. -/
structure LastPassesRead
    (start : Passes)
    (position : Nat)
    (p : Passes) :
    Prop where
  counts : SameCounts p start
  downsample : p.downsample = start.downsample
  rising :
    ∀ i,
      i + 1 < position →
      p.last_pass i < p.last_pass (i + 1)

theorem lastPassesRead_readLastPass
    {start : Passes}
    {state next : Passes × BitReader}
    {position : Nat}
    (step : readLastPass state position = .ok next)
    (before : LastPassesRead start position state.1) :
    LastPassesRead start (position + 1) next.1 := by
  unfold readLastPass at step
  obtain ⟨⟨last, br⟩, _, step⟩ := bind_eq_ok.1 step
  by_cases falls : 0 < position ∧ last ≤ state.1.last_pass (position - 1)
  · simp only [falls, and_self, if_true] at step
    cases step
  · by_cases late : state.1.num_passes ≤ last
    · simp only [falls, late, if_true, if_false] at step
      cases step
    · simp only [falls, late, if_false] at step
      cases step
      refine ⟨before.counts, before.downsample, ?_⟩
      intro i inside
      have notLast : i ≠ position := by
        omega
      by_cases final : i + 1 = position
      · have rises : state.1.last_pass i < last := by
          have previous : position - 1 = i := by
            omega
          rw [previous] at falls
          omega
        simpa [final, Function.update_of_ne notLast] using rises
      · simpa [Function.update_of_ne notLast, Function.update_of_ne final] using
          before.rising i (by omega)

theorem valid_of_readFromBitStream
    {br after : BitReader}
    {p : Passes}
    (read : readFromBitStream br = .ok (p, after)) :
    p.Valid := by
  unfold readFromBitStream at read
  obtain ⟨⟨num_passes, br1⟩, isPasses, read⟩ := bind_eq_ok.1 read
  have somePass := num_passes_pos_of_read isPasses
  by_cases many : kMaxNumPasses < num_passes
  · simp only [many, if_true] at read
    cases read
  by_cases single : num_passes = 1
  · subst single
    simp only [many, if_true, if_false] at read
    cases read
    refine ⟨Nat.one_pos, by decide, by decide, ?_, ?_, ?_⟩
    · intro i inside
      cases inside
    · intro i inside
      cases inside
    · intro i inside
      cases inside
  simp only [many, single, if_false] at read
  obtain ⟨⟨num_downsample, br2⟩, _, read⟩ := bind_eq_ok.1 read
  by_cases factors : 4 < num_downsample
  · simp only [factors, if_true] at read
    cases read
  by_cases tooMany : num_passes < num_downsample
  · simp only [factors, tooMany, if_true, if_false] at read
    cases read
  simp only [factors, tooMany, if_false] at read
  obtain ⟨beforeLast, _, read⟩ := bind_eq_ok.1 read
  obtain ⟨⟨shifted, br3⟩, isShifted, read⟩ := bind_eq_ok.1 read
  obtain ⟨⟨sampled, br4⟩, isSampled, read⟩ := bind_eq_ok.1 read
  have counts : SameCounts shifted { num_passes, num_downsample } :=
    foldlM_range_of_ok
      (fun _ state => SameCounts state.1 { num_passes, num_downsample })
      isShifted
      ⟨rfl, rfl⟩
      (fun _ _ _ _ step same =>
        ⟨(sameCounts_readShift step).1.trans same.1,
          (sameCounts_readShift step).2.trans same.2⟩)
  have factorsRead :=
    foldlM_range_of_ok
      (fun position state => FactorsRead shifted position state.1)
      isSampled
      ⟨⟨rfl, rfl⟩, fun _ inside => absurd inside (Nat.not_lt_zero _),
        fun _ inside => absurd inside (Nat.not_lt_zero _)⟩
      (fun _ _ _ _ step before => factorsRead_readDownsample step before)
  have lastRead :=
    foldlM_range_of_ok
      (fun position state => LastPassesRead sampled position state.1) read
      ⟨⟨rfl, rfl⟩, rfl, fun _ inside => absurd inside (Nat.not_lt_zero _)⟩
      (fun _ _ _ _ step before => lastPassesRead_readLastPass step before)
  have passesKept : p.num_passes = num_passes :=
    (lastRead.counts.1.trans factorsRead.counts.1).trans counts.1
  have factorsKept : p.num_downsample = num_downsample :=
    (lastRead.counts.2.trans factorsRead.counts.2).trans counts.2
  refine ⟨by omega, by omega, by omega, ?_, ?_, ?_⟩
  · intro i inside
    rw [lastRead.downsample]
    exact factorsRead.factor i (factorsKept ▸ inside)
  · intro i inside
    rw [lastRead.downsample]
    exact factorsRead.falling i (factorsKept ▸ inside)
  · intro i inside
    exact lastRead.rising i (factorsKept ▸ inside)

end Passes

end Jxlz
