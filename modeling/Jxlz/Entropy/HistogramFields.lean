import Jxlz.Base.ReadBack
import Jxlz.Entropy.HybridUint

namespace Jxlz

open BitString

/-!
# The small fields in front of a histogram

Variable-length integers and uint configurations, as the encoder stores them
and as the decoder reads them back.
-/

/-- The least exponent of a power of two that is not below the value. -/
def ceilLog2Nonzero
    (value : Nat) :
    Nat :=
  if value &&& (value - 1) = 0 then value.log2 else value.log2 + 1

/-- A number after its bit length, which takes `lengthBits` bits. -/
def storeVarLen
    (lengthBits value : Nat)
    (writer : BitWriter) :
    Checked BitWriter := do
  if value = 0 then
    writer.write 1 0
  else
    let writer ← writer.write 1 1
    let nbits := value.log2
    let writer ← writer.write lengthBits nbits
    if nbits ≠ 0 then
      writer.write nbits (value - 1 <<< nbits)
    else
      return writer

/-- Encodes a `u8`. -/
def storeVarLenUint8
    (value : Nat)
    (writer : BitWriter) :
    Checked BitWriter :=
  storeVarLen 3 value writer

/-- The integer that `storeVarLen` stores. -/
def decodeVarLen
    (lengthBits : Nat)
    (br : BitReader) :
    Checked (Nat × BitReader) := do
  let (present, br) ← br.readBits 1
  if present ≠ 0 then
    let (nbits, br) ← br.readBits lengthBits
    if nbits = 0 then
      return (1, br)
    else
      let (rest, br) ← br.readBits nbits
      return (rest + 1 <<< nbits, br)
  else
    return (0, br)

/-- Decodes an integer in the range [0..255]. -/
def decodeVarLenUint8
    (br : BitReader) :
    Checked (Nat × BitReader) :=
  decodeVarLen 3 br

/-- Decodes an integer in the range [0..65535]. -/
def decodeVarLenUint16
    (br : BitReader) :
    Checked (Nat × BitReader) :=
  decodeVarLen 4 br

/-- The digits of a token, which follow a split exponent that leaves room. -/
def encodeTokenDigits
    (logAlphaSize : Nat)
    (cfg : HybridUintConfig)
    (writer : BitWriter) :
    Checked BitWriter := do
  if cfg.splitExponent = logAlphaSize then
    return writer
  else
    let writer ←
      writer.write (ceilLog2Nonzero (cfg.splitExponent + 1)) cfg.msbInToken
    writer.write (ceilLog2Nonzero (cfg.splitExponent - cfg.msbInToken + 1))
      cfg.lsbInToken

/-- Writes a uint configuration. -/
def encodeUintConfig
    (logAlphaSize : Nat)
    (cfg : HybridUintConfig)
    (writer : BitWriter) :
    Checked BitWriter := do
  let writer ←
    writer.write (ceilLog2Nonzero (logAlphaSize + 1)) cfg.splitExponent
  encodeTokenDigits logAlphaSize cfg writer

/-- Writes the uint configurations of all histograms. -/
def encodeUintConfigs
    (logAlphaSize : Nat)
    (configs : List HybridUintConfig)
    (writer : BitWriter) :
    Checked BitWriter :=
  configs.foldlM (fun writer cfg => encodeUintConfig logAlphaSize cfg writer)
    writer

/-- The digits that `encodeTokenDigits` writes. -/
def decodeTokenDigits
    (logAlphaSize splitExponent : Nat)
    (br : BitReader) :
    Checked ((Nat × Nat) × BitReader) := do
  if splitExponent ≠ logAlphaSize then
    let (msbInToken, br) ← br.readBits (ceilLog2Nonzero (splitExponent + 1))
    if splitExponent < msbInToken then
      fail .GenericError
    else
      let (lsbInToken, br) ←
        br.readBits (ceilLog2Nonzero (splitExponent - msbInToken + 1))
      return ((msbInToken, lsbInToken), br)
  else
    return ((0, 0), br)

/-- Decodes a uint configuration. -/
def decodeUintConfig
    (logAlphaSize : Nat)
    (br : BitReader) :
    Checked (HybridUintConfig × BitReader) := do
  let br := br.refill
  let (splitExponent, br) ← br.readBits (ceilLog2Nonzero (logAlphaSize + 1))
  let ((msbInToken, lsbInToken), br) ←
    decodeTokenDigits logAlphaSize splitExponent br
  if splitExponent < lsbInToken + msbInToken then
    fail .GenericError
  else
    let config ← HybridUintConfig.init splitExponent msbInToken lsbInToken
    return (config, br)

/-- Decodes the given number of uint configurations. -/
def decodeUintConfigs
    (logAlphaSize : Nat) :
    Nat → BitReader → Checked (List HybridUintConfig × BitReader)
  | 0, br => return ([], br)
  | count + 1, br => do
      let (config, br) ← decodeUintConfig logAlphaSize br
      let (configs, br) ← decodeUintConfigs logAlphaSize count br
      return (config :: configs, br)

/-- A value is below the power of two that has room for all up to its bound. -/
private theorem lt_two_pow_ceilLog2
    {value bound : Nat}
    (inBound : value ≤ bound)
    (small : bound < 32) :
    value < 2 ^ ceilLog2Nonzero (bound + 1) := by
  refine Nat.lt_of_le_of_lt inBound ?_
  clear inBound
  revert bound
  decide

private theorem ceilLog2_short
    {bound : Nat}
    (small : bound < 32) :
    ceilLog2Nonzero (bound + 1) ≤ 5 := by
  revert bound
  decide

private theorem ceilLog2_inCall
    {bound : Nat}
    (small : bound < 32) :
    ceilLog2Nonzero (bound + 1) ≤ BitReader.kMaxBitsPerCall :=
  Nat.le_trans (ceilLog2_short small) (by decide)

/-- A variable-length integer is read back. -/
theorem storeVarLen_roundTrips
    {lengthBits value : Nat}
    (shortLength : lengthBits ≤ 5)
    (fits : value.log2 < 2 ^ lengthBits) :
    RoundTrips (storeVarLen lengthBits value) (decodeVarLen lengthBits)
      value := by
  have wide : 2 ^ lengthBits ≤ 2 ^ 5 :=
    Nat.pow_le_pow_right (by decide) shortLength
  unfold storeVarLen decodeVarLen
  by_cases zero : value = 0
  · simp only [if_pos zero]
    rw [zero]
    refine (RoundTrips.patch (by decide) (show 0 < 2 ^ 1 by decide)).last ?_
    intro br
    rfl
  · simp only [if_neg zero]
    refine (RoundTrips.patch (by decide) (show 1 < 2 ^ 1 by decide)).bind ?_
    have lengthFits : lengthBits ≤ BitReader.kMaxBitsPerCall :=
      Nat.le_trans shortLength (by decide)
    simp only [ne_eq, one_ne_zero, not_false_eq_true, if_true]
    refine (RoundTrips.patch lengthFits fits).bind ?_
    have lower : 2 ^ value.log2 ≤ value := Nat.log2_self_le zero
    have upper : value < 2 ^ (value.log2 + 1) := Nat.lt_log2_self
    by_cases short : value.log2 = 0
    · have one : value = 1 := by
        rw [short] at upper
        omega
      simp only [short, not_true_eq_false, if_false, if_true]
      rw [one]
      exact RoundTrips.nothing 1
    · simp only [short, not_false_eq_true, if_true, if_false, Nat.one_shiftLeft]
      have restFits : value.log2 ≤ BitReader.kMaxBitsPerCall := by
        simp only [BitReader.kMaxBitsPerCall]
        omega
      have below : value - 2 ^ value.log2 < 2 ^ value.log2 := by
        rw [Nat.pow_succ] at upper
        omega
      refine (RoundTrips.patch restFits below).last ?_
      intro br
      have whole : value - 2 ^ value.log2 + 2 ^ value.log2 = value :=
        Nat.sub_add_cancel lower
      rw [whole]
      rfl

theorem storeVarLenUint8_roundTrips
    {value : Nat}
    (fits : value < 2 ^ 8) :
    RoundTrips (storeVarLenUint8 value) decodeVarLenUint8 value := by
  have short : value.log2 < 2 ^ 3 := by
    by_cases zero : value = 0
    · rw [zero]
      decide
    · exact (Nat.log2_lt zero).2 fits
  exact storeVarLen_roundTrips (by decide) short

/-- The configurations that an alphabet of this size can be sent with. -/
structure UintConfigFits
    (logAlphaSize : Nat)
    (cfg : HybridUintConfig) :
    Prop where
  exponentInRange :
    cfg.splitExponent ≤ logAlphaSize
  /-- Nothing is sent about the digits of a token that has none. -/
  noDigits :
    cfg.splitExponent = logAlphaSize → cfg.msbInToken = 0 ∧ cfg.lsbInToken = 0

theorem HybridUintConfig.init_fields
    (cfg : HybridUintConfig) :
    HybridUintConfig.init cfg.splitExponent cfg.msbInToken cfg.lsbInToken =
      .ok cfg := by
  rw [HybridUintConfig.init, dif_pos cfg.digitsFit, dif_pos cfg.exponentFits]

theorem encodeTokenDigits_roundTrips
    {logAlphaSize : Nat}
    {cfg : HybridUintConfig}
    (fits : UintConfigFits logAlphaSize cfg) :
    RoundTrips (encodeTokenDigits logAlphaSize cfg)
      (decodeTokenDigits logAlphaSize cfg.splitExponent)
      (cfg.msbInToken, cfg.lsbInToken) := by
  have exponentSmall := cfg.exponentFits
  have digitsFit := cfg.digitsFit
  unfold encodeTokenDigits decodeTokenDigits
  by_cases noDigits : cfg.splitExponent = logAlphaSize
  · obtain ⟨noMsb, noLsb⟩ := fits.noDigits noDigits
    simp only [if_pos noDigits, if_neg (not_not.2 noDigits)]
    rw [noMsb, noLsb]
    exact RoundTrips.nothing (0, 0)
  · simp only [ne_eq, noDigits, not_false_eq_true, if_true]
    have msbSmall : cfg.msbInToken ≤ cfg.splitExponent := by
      omega
    refine
      (RoundTrips.patch (ceilLog2_inCall exponentSmall)
        (lt_two_pow_ceilLog2 msbSmall exponentSmall)).bind ?_
    simp only [if_neg (Nat.not_lt.2 msbSmall)]
    have restSmall : cfg.splitExponent - cfg.msbInToken < 32 := by
      omega
    have lsbSmall :
        cfg.lsbInToken ≤ cfg.splitExponent - cfg.msbInToken := by
      omega
    refine
      (RoundTrips.patch (ceilLog2_inCall restSmall)
        (lt_two_pow_ceilLog2 lsbSmall restSmall)).last ?_
    intro br
    rfl

/-- A uint configuration is read back. -/
theorem encodeUintConfig_roundTrips
    {logAlphaSize : Nat}
    {cfg : HybridUintConfig}
    (small : logAlphaSize < 32)
    (fits : UintConfigFits logAlphaSize cfg) :
    RoundTrips (encodeUintConfig logAlphaSize cfg)
      (decodeUintConfig logAlphaSize) cfg := by
  have digitsFit := cfg.digitsFit
  have checked :
      ¬ cfg.splitExponent < cfg.lsbInToken + cfg.msbInToken := by
    omega
  have exponentBack :=
    RoundTrips.patch (ceilLog2_inCall small)
      (lt_two_pow_ceilLog2 fits.exponentInRange small)
  unfold encodeUintConfig decodeUintConfig
  refine RoundTrips.bind exponentBack.refill ?_
  refine (encodeTokenDigits_roundTrips fits).last ?_
  intro br
  dsimp only
  rw [if_neg checked, cfg.init_fields]
  rfl

/-- The uint configurations of all histograms are read back. -/
theorem encodeUintConfigs_roundTrips
    {logAlphaSize : Nat}
    (small : logAlphaSize < 32)
    {configs : List HybridUintConfig}
    (fits : ∀ cfg ∈ configs, UintConfigFits logAlphaSize cfg) :
    RoundTrips (encodeUintConfigs logAlphaSize configs)
      (decodeUintConfigs logAlphaSize configs.length) configs := by
  induction configs with
  | nil =>
      exact RoundTrips.nothing []
  | cons cfg others inductionHypothesis =>
      have firstBack :=
        encodeUintConfig_roundTrips small (fits cfg List.mem_cons_self)
      have othersBack :=
        inductionHypothesis
          (fun other member => fits other (List.mem_cons_of_mem _ member))
      refine firstBack.bind (othersBack.last ?_)
      intro br
      rfl

/-- The two configurations that the encoder starts from. -/
theorem encodeUintConfigs_roundTrips_initial :
    RoundTrips (encodeUintConfigs 5 [.initDefault, .initZero]) (decodeUintConfigs 5 2)
      [.initDefault, .initZero] :=
  encodeUintConfigs_roundTrips (by decide) fun cfg member => by
    rcases List.mem_cons.1 member with rfl | member
    · exact ⟨by decide, by decide⟩
    · rcases List.mem_singleton.1 member with rfl
      exact ⟨by decide, by decide⟩

end Jxlz
