import Jxlz.Base.Checked

namespace Jxlz

/-!
# Frame dimensions

Mirrors `FrameDimensions.set` of `frame_dimensions.zig`: the size of a frame in
pixels, blocks, groups and DC groups.
-/

/-- Ceiling division; the sum in front of the division is checked. -/
def divCeil
    (a b : Nat) :
    Checked Nat := do
  let sum ← addU 64 a b
  let top ← subU sum 1
  require (b ≠ 0)
  return top / b

def block_dim : Nat := 8

def group_dim : Nat := 256

/-- Dimensions of a frame, in pixels, and other derived dimensions. -/
structure FrameDimensions where
  xsize : Nat := 0
  ysize : Nat := 0
  xsize_upsampled : Nat := 0
  ysize_upsampled : Nat := 0
  xsize_upsampled_padded : Nat := 0
  ysize_upsampled_padded : Nat := 0
  xsize_padded : Nat := 0
  ysize_padded : Nat := 0
  xsize_blocks : Nat := 0
  ysize_blocks : Nat := 0
  xsize_groups : Nat := 0
  ysize_groups : Nat := 0
  xsize_dc_groups : Nat := 0
  ysize_dc_groups : Nat := 0
  num_groups : Nat := 0
  num_dc_groups : Nat := 0
  grp_dim : Nat := 0
  dc_group_dim : Nat := 0
  deriving Repr, DecidableEq

namespace FrameDimensions

/-- The block count of one side, a multiple of the largest subsampling. -/
def paddedBlocks
    (size max_shift : Nat) :
    Checked Nat := do
  let shift ← castU 6 max_shift
  let count ← divCeil size (shlU 64 block_dim shift)
  return shlU 64 count shift

def set
    (xsize_px ysize_px group_size_shift max_hshift max_vshift : Nat)
    (modular_mode : Bool)
    (upsampling : Nat) :
    Checked FrameDimensions := do
  let shift ← castU 6 group_size_shift
  let grp_dim := shlU 64 (group_dim >>> 1) shift
  let dc_group_dim ← mulU 64 grp_dim block_dim
  let xsize ← divCeil xsize_px upsampling
  let ysize ← divCeil ysize_px upsampling
  let xsize_blocks ← paddedBlocks xsize max_hshift
  let ysize_blocks ← paddedBlocks ysize max_vshift
  let xsize_in_blocks ← mulU 64 xsize_blocks block_dim
  let ysize_in_blocks ← mulU 64 ysize_blocks block_dim
  let xsize_padded := if modular_mode then xsize else xsize_in_blocks
  let ysize_padded := if modular_mode then ysize else ysize_in_blocks
  let xsize_upsampled_padded ← mulU 64 xsize_padded upsampling
  let ysize_upsampled_padded ← mulU 64 ysize_padded upsampling
  let xsize_groups ← divCeil xsize grp_dim
  let ysize_groups ← divCeil ysize grp_dim
  let xsize_dc_groups ← divCeil xsize_blocks grp_dim
  let ysize_dc_groups ← divCeil ysize_blocks grp_dim
  let num_groups ← mulU 64 xsize_groups ysize_groups
  let num_dc_groups ← mulU 64 xsize_dc_groups ysize_dc_groups
  return {
    xsize, ysize
    xsize_upsampled := xsize_px
    ysize_upsampled := ysize_px
    xsize_upsampled_padded, ysize_upsampled_padded
    xsize_padded, ysize_padded
    xsize_blocks, ysize_blocks
    xsize_groups, ysize_groups
    xsize_dc_groups, ysize_dc_groups
    num_groups, num_dc_groups
    grp_dim, dc_group_dim }

end FrameDimensions

theorem divCeil_eq_ok
    {a b result : Nat}
    (computed : divCeil a b = .ok result) :
    0 < b ∧ result = (a + b - 1) / b := by
  unfold divCeil at computed
  obtain ⟨sum, isSum, computed⟩ := bind_eq_ok.1 computed
  obtain ⟨top, isTop, computed⟩ := bind_eq_ok.1 computed
  obtain ⟨_, nonzero, computed⟩ := bind_eq_ok.1 computed
  have positive := require_eq_ok.1 nonzero
  unfold addU at isSum
  split at isSum
  · cases isSum
    unfold subU at isTop
    split at isTop
    · cases isTop
      cases computed
      exact ⟨Nat.pos_of_ne_zero positive, rfl⟩
    · cases isTop
  · cases isSum

/-- The dividend of a ceiling quotient is a machine number. -/
theorem divCeil_fits
    {a b result : Nat}
    (computed : divCeil a b = .ok result) :
    a < 2 ^ 64 := by
  unfold divCeil at computed
  obtain ⟨sum, isSum, _⟩ := bind_eq_ok.1 computed
  unfold addU at isSum
  split at isSum
  · omega
  · cases isSum

/-- A ceiling quotient covers its dividend. -/
theorem divCeil_covers
    {a b result : Nat}
    (computed : divCeil a b = .ok result) :
    a ≤ result * b := by
  obtain ⟨positive, rfl⟩ := divCeil_eq_ok computed
  have division := Nat.div_add_mod (a + b - 1) b
  have remainder := Nat.mod_lt (a + b - 1) positive
  rw [Nat.mul_comm] at division
  omega

/-- A left shift of a power of two keeps it or loses it. -/
theorem shlU_two_pow
    {exponent amount : Nat}
    (kept : 0 < shlU 64 (2 ^ exponent) amount) :
    shlU 64 (2 ^ exponent) amount = 2 ^ (exponent + amount) := by
  unfold shlU at kept ⊢
  rw [Nat.shiftLeft_eq, ← Nat.pow_add] at kept ⊢
  by_cases fits : exponent + amount < 64
  · exact Nat.mod_eq_of_lt (Nat.pow_lt_pow_right (by decide) fits)
  · have multiple : 2 ^ 64 ∣ 2 ^ (exponent + amount) :=
      Nat.pow_dvd_pow 2 (Nat.not_lt.1 fits)
    rw [Nat.mod_eq_zero_of_dvd multiple] at kept
    cases kept

namespace FrameDimensions

/-- The blocks cover the frame. -/
theorem paddedBlocks_covers
    {size max_shift blocks : Nat}
    (computed : paddedBlocks size max_shift = .ok blocks) :
    size ≤ blocks * block_dim := by
  unfold paddedBlocks at computed
  obtain ⟨shift, isShift, computed⟩ := bind_eq_ok.1 computed
  obtain ⟨count, isCount, computed⟩ := bind_eq_ok.1 computed
  cases computed
  have covered := divCeil_covers isCount
  have positive : 0 < shlU 64 (2 ^ 3) shift :=
    (divCeil_eq_ok isCount).1
  have unit : shlU 64 block_dim shift = 2 ^ (3 + shift) :=
    shlU_two_pow positive
  have quotient := (divCeil_eq_ok isCount).2
  rw [unit] at covered quotient
  have sumFits : size + 2 ^ (3 + shift) < 2 ^ 64 := by
    unfold divCeil at isCount
    obtain ⟨sum, isSum, _⟩ := bind_eq_ok.1 isCount
    rw [unit] at isSum
    unfold addU at isSum
    split at isSum
    · assumption
    · cases isSum
  have noLoss : count * 2 ^ shift < 2 ^ 64 := by
    have bounded : count * 2 ^ (3 + shift) ≤ size + 2 ^ (3 + shift) - 1 := by
      rw [quotient]
      exact Nat.div_mul_le_self _ _
    have eightfold : count * 2 ^ (3 + shift) = 8 * (count * 2 ^ shift) := by
      rw [Nat.pow_add]
      ring
    omega
  rw [shlU_eq noLoss]
  calc
    size ≤ count * 2 ^ (3 + shift) := covered
    _ = count * 2 ^ shift * block_dim := by
      rw [Nat.pow_add, block_dim]
      ring

/-- What `set` establishes: its groups and its DC groups cover the frame. -/
structure Laid
    (dimensions : FrameDimensions) :
    Prop where
  power : ∃ exponent, 7 ≤ exponent ∧ dimensions.grp_dim = 2 ^ exponent
  groupsX : dimensions.xsize ≤ dimensions.xsize_groups * dimensions.grp_dim
  groupsY : dimensions.ysize ≤ dimensions.ysize_groups * dimensions.grp_dim
  dcGroupsX : dimensions.xsize ≤ dimensions.xsize_dc_groups * (8 * dimensions.grp_dim)
  dcGroupsY : dimensions.ysize ≤ dimensions.ysize_dc_groups * (8 * dimensions.grp_dim)
  groups :
    dimensions.num_groups = dimensions.xsize_groups * dimensions.ysize_groups
  dcGroups :
    dimensions.num_dc_groups =
      dimensions.xsize_dc_groups * dimensions.ysize_dc_groups
  fitsX : dimensions.xsize < 2 ^ 64
  fitsY : dimensions.ysize < 2 ^ 64
  fitsDcGroup : dimensions.grp_dim * 8 < 2 ^ 64

/-- DC groups cover the frame, because they cover its blocks. -/
private theorem dcGroups_cover
    {size max_shift blocks grp_dim groups : Nat}
    (isBlocks : paddedBlocks size max_shift = .ok blocks)
    (isGroups : divCeil blocks grp_dim = .ok groups) :
    size ≤ groups * (8 * grp_dim) := by
  have frame := paddedBlocks_covers isBlocks
  have inGroups := divCeil_covers isGroups
  calc
    size ≤ blocks * 8 := frame
    _ ≤ groups * grp_dim * 8 := Nat.mul_le_mul_right 8 inGroups
    _ = groups * (8 * grp_dim) := by ring

theorem laid_of_set
    {xsize_px ysize_px group_size_shift max_hshift max_vshift : Nat}
    {modular_mode : Bool}
    {upsampling : Nat}
    {self : FrameDimensions}
    (computed :
      set xsize_px ysize_px group_size_shift max_hshift max_vshift
        modular_mode upsampling = .ok self) :
    self.Laid := by
  unfold set at computed
  obtain ⟨shift, isShift, computed⟩ := bind_eq_ok.1 computed
  obtain ⟨dc_group_dim, isDcDim, computed⟩ := bind_eq_ok.1 computed
  obtain ⟨xsize, isX, computed⟩ := bind_eq_ok.1 computed
  obtain ⟨ysize, isY, computed⟩ := bind_eq_ok.1 computed
  obtain ⟨xsize_blocks, isXBlocks, computed⟩ := bind_eq_ok.1 computed
  obtain ⟨ysize_blocks, isYBlocks, computed⟩ := bind_eq_ok.1 computed
  obtain ⟨_, _, computed⟩ := bind_eq_ok.1 computed
  obtain ⟨_, _, computed⟩ := bind_eq_ok.1 computed
  obtain ⟨_, _, computed⟩ := bind_eq_ok.1 computed
  obtain ⟨_, _, computed⟩ := bind_eq_ok.1 computed
  obtain ⟨xsize_groups, isXGroups, computed⟩ := bind_eq_ok.1 computed
  obtain ⟨ysize_groups, isYGroups, computed⟩ := bind_eq_ok.1 computed
  obtain ⟨xsize_dc_groups, isXDc, computed⟩ := bind_eq_ok.1 computed
  obtain ⟨ysize_dc_groups, isYDc, computed⟩ := bind_eq_ok.1 computed
  obtain ⟨num_groups, isNum, computed⟩ := bind_eq_ok.1 computed
  obtain ⟨num_dc_groups, isNumDc, computed⟩ := bind_eq_ok.1 computed
  cases computed
  have kept : 0 < shlU 64 (2 ^ 7) shift :=
    (divCeil_eq_ok isXGroups).1
  exact {
    power := ⟨7 + shift, Nat.le_add_right _ _, shlU_two_pow kept⟩
    groupsX := divCeil_covers isXGroups
    groupsY := divCeil_covers isYGroups
    dcGroupsX := dcGroups_cover isXBlocks isXDc
    dcGroupsY := dcGroups_cover isYBlocks isYDc
    groups := (mulU_eq_ok isNum).1
    dcGroups := (mulU_eq_ok isNumDc).1
    fitsX := divCeil_fits isXGroups
    fitsY := divCeil_fits isYGroups
    fitsDcGroup := (mulU_eq_ok isDcDim).2 }

end FrameDimensions

end Jxlz
