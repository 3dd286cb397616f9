import Jxlz.Base.Checked

namespace Jxlz

/-!
# Hybrid unsigned integers

A value below `splitToken` is its own token.  For a larger value the token
holds the bit length, the `msbInToken` digits after the leading one and the
`lsbInToken` lowest digits; the digits between them are extra bits.
-/

/-- Split-exponent scheme for variable-length integers. -/
structure HybridUintConfig where
  splitExponent : Nat
  msbInToken : Nat
  lsbInToken : Nat
  /-- Asserted by `init`. -/
  digitsFit : msbInToken + lsbInToken ≤ splitExponent
  /-- The exponent is a shift amount of a `u32`. -/
  exponentFits : splitExponent < 32
  deriving Repr, DecidableEq

namespace HybridUintConfig

/-- `HybridUintConfig.init`: the assertion and the shift-amount cast may stop it. -/
def init
    (splitExponent msbInToken lsbInToken : Nat) :
    Checked HybridUintConfig :=
  if digitsFit : msbInToken + lsbInToken ≤ splitExponent then
    if exponentFits : splitExponent < 32 then
      .ok { splitExponent, msbInToken, lsbInToken, digitsFit, exponentFits }
    else
      .error .trap
  else
    .error .trap

/-- The configuration of `initDefault`. -/
def initDefault : HybridUintConfig where
  splitExponent := 4
  msbInToken := 2
  lsbInToken := 0
  digitsFit := by decide
  exponentFits := by decide

/-- The configuration of `initZero`. -/
def initZero : HybridUintConfig where
  splitExponent := 0
  msbInToken := 0
  lsbInToken := 0
  digitsFit := by decide
  exponentFits := by decide

/-- The first token that has extra bits. -/
def splitToken
    (self : HybridUintConfig) :
    Nat :=
  1 <<< self.splitExponent

/-- What `encode` returns for a value. -/
structure EncodeResult where
  token : Nat
  nbits : Nat
  bits : Nat
  deriving Repr, DecidableEq

/-- Split a `u32` value into a token and extra bits. -/
def encode
    (self : HybridUintConfig)
    (value : Nat) :
    EncodeResult :=
  if value < self.splitToken then
    { token := value, nbits := 0, bits := 0 }
  else
    let n := value.log2
    let m := value - 1 <<< n
    let token :=
      self.splitToken +
        (n - self.splitExponent) <<< (self.msbInToken + self.lsbInToken) +
        (m >>> (n - self.msbInToken)) <<< self.lsbInToken +
        (m &&& (1 <<< self.lsbInToken - 1))
    let nbits := n - self.msbInToken - self.lsbInToken
    let extraBits := (value >>> self.lsbInToken) &&& (1 <<< nbits - 1)
    { token, nbits, bits := extraBits }

/-- Number of extra bits after a token. -/
def extraBits
    (self : HybridUintConfig)
    (token : Nat) :
    Nat :=
  if token < self.splitToken then
    0
  else
    (self.splitExponent - (self.msbInToken + self.lsbInToken) +
      (token - self.splitToken) >>> (self.msbInToken + self.lsbInToken)) &&& 31

/-- The value of a token with its extra bits. -/
def assemble
    (self : HybridUintConfig)
    (token bitsVal : Nat) :
    Nat :=
  if token < self.splitToken then
    token
  else
    let nbits := self.extraBits token
    let low := token &&& (1 <<< self.lsbInToken - 1)
    let shiftedToken := token >>> self.lsbInToken
    let msbMask := 1 <<< self.msbInToken - 1
    shlU 32
        (shlU 32 (1 <<< self.msbInToken ||| (shiftedToken &&& msbMask)) nbits |||
          bitsVal)
        self.lsbInToken |||
      low

/-- Decode a token from peeked bits; returns the value and the bits consumed. -/
def decode
    (self : HybridUintConfig)
    (token peekBits : Nat) :
    Nat × Nat :=
  (self.assemble token (peekBits &&& (1 <<< self.extraBits token - 1)),
    self.extraBits token)

variable {value : Nat} (self : HybridUintConfig)

/--
The digits of a value with extra bits: `high` are the ones below the leading
digit that go into the token, `low` the lowest ones.
-/
private theorem encode_large
    (large : ¬ value < self.splitToken) :
    ∃ high low,
      high < 2 ^ self.msbInToken ∧
        low < 2 ^ self.lsbInToken ∧
        self.splitExponent ≤ value.log2 ∧
        value / 2 ^ (value.log2 - self.msbInToken) =
          2 ^ self.msbInToken + high ∧
        value % 2 ^ self.lsbInToken = low ∧
        (self.encode value).token =
          2 ^ self.splitExponent +
            ((value.log2 - self.splitExponent) * 2 ^ self.msbInToken + high) *
              2 ^ self.lsbInToken +
            low := by
  have digits := self.digitsFit
  have positive : value ≠ 0 := by
    rintro rfl
    simp [splitToken, Nat.one_shiftLeft] at large
  have splitLe : 2 ^ self.splitExponent ≤ value := by
    simpa [splitToken, Nat.one_shiftLeft] using large
  have exponentLe : self.splitExponent ≤ value.log2 :=
    (Nat.le_log2 positive).2 splitLe
  have valueLt : value < 2 ^ (value.log2 + 1) :=
    Nat.lt_log2_self
  obtain ⟨rest, valueEq⟩ :=
    Nat.exists_eq_add_of_le (Nat.log2_self_le positive)
  have tokenEq :
      (self.encode value).token =
        2 ^ self.splitExponent +
          (value.log2 - self.splitExponent) *
            2 ^ (self.msbInToken + self.lsbInToken) +
          (value - 2 ^ value.log2) / 2 ^ (value.log2 - self.msbInToken) *
            2 ^ self.lsbInToken +
          (value - 2 ^ value.log2) % 2 ^ self.lsbInToken := by
    unfold encode
    rw [if_neg large]
    simp only [splitToken, Nat.shiftLeft_eq, Nat.one_mul,
      Nat.shiftRight_eq_div_pow, Nat.and_two_pow_sub_one_eq_mod]
  have restEq : value - 2 ^ value.log2 = rest := by
    omega
  rw [tokenEq, restEq]
  generalize value.log2 = n at exponentLe valueLt valueEq
  have leading : 2 ^ n = 2 ^ self.msbInToken * 2 ^ (n - self.msbInToken) := by
    rw [← Nat.pow_add]
    congr 1
    omega
  have trailing : 2 ^ n = 2 ^ self.lsbInToken * 2 ^ (n - self.lsbInToken) := by
    rw [← Nat.pow_add]
    congr 1
    omega
  refine ⟨rest / 2 ^ (n - self.msbInToken), rest % 2 ^ self.lsbInToken,
    ?_, Nat.mod_lt _ (by positivity), exponentLe, ?_, ?_, ?_⟩
  · rw [Nat.div_lt_iff_lt_mul (by positivity), ← leading]
    rw [Nat.pow_succ] at valueLt
    omega
  · rw [valueEq, leading, Nat.mul_comm, Nat.mul_add_div (by positivity)]
  · rw [valueEq, trailing, Nat.mul_add_mod]
  · rw [Nat.pow_add]
    ring

/-- The tokens of the values of one length. -/
private theorem encode_token_within
    (large : ¬ value < self.splitToken) :
    self.splitExponent ≤ value.log2 ∧
      2 ^ self.splitExponent +
          (value.log2 - self.splitExponent) *
            2 ^ (self.msbInToken + self.lsbInToken) ≤
        (self.encode value).token ∧
      (self.encode value).token + 1 ≤
        2 ^ self.splitExponent +
          (value.log2 - self.splitExponent + 1) *
            2 ^ (self.msbInToken + self.lsbInToken) := by
  obtain ⟨high, low, highLt, lowLt, exponentLe, _, _, tokenEq⟩ :=
    self.encode_large large
  refine ⟨exponentLe, ?_, ?_⟩
  · rw [tokenEq, Nat.pow_add]
    nlinarith
  · have highLe :
        (high + 1) * 2 ^ self.lsbInToken ≤
          2 ^ self.msbInToken * 2 ^ self.lsbInToken :=
      Nat.mul_le_mul_right _ highLt
    rw [tokenEq, Nat.pow_add]
    nlinarith

/-- No step of the `u32` computation of a token overflows. -/
theorem encode_token_lt
    (fits : value < 2 ^ 32) :
    (self.encode value).token < 2 ^ 32 := by
  by_cases large : value < self.splitToken
  · simpa [encode, large] using fits
  · obtain ⟨exponentLe, _, tokenLe⟩ := self.encode_token_within large
    have digits := self.digitsFit
    have exponentFits := self.exponentFits
    have positive : value ≠ 0 := by
      rintro rfl
      simp [splitToken, Nat.one_shiftLeft] at large
    have log2Lt : value.log2 < 32 :=
      (Nat.log2_lt positive).2 fits
    have digitsPower :
        2 ^ (self.msbInToken + self.lsbInToken) ≤ 2 ^ self.splitExponent :=
      Nat.pow_le_pow_right (by decide) digits
    have bound :
        (value.log2 - self.splitExponent + 1) *
            2 ^ (self.msbInToken + self.lsbInToken) ≤
          (32 - self.splitExponent) * 2 ^ self.splitExponent :=
      Nat.mul_le_mul (by omega) digitsPower
    have total :
        2 ^ self.splitExponent +
            (32 - self.splitExponent) * 2 ^ self.splitExponent ≤
          2 ^ 32 := by
      generalize self.splitExponent = splitExponent at exponentFits
      interval_cases splitExponent <;> norm_num
    omega

/-- A longer value has a higher token. -/
theorem encode_token_lt_of_size
    {value other : Nat}
    (longer : value.size < other.size) :
    (self.encode value).token < (self.encode other).token := by
  have below : value < 2 ^ value.size := Nat.lt_size_self value
  have above : 2 ^ value.size ≤ other := Nat.lt_size.1 longer
  have less : value < other := Nat.lt_of_lt_of_le below above
  by_cases large : value < self.splitToken
  · have token : (self.encode value).token = value := by
      simp [encode, large]
    rw [token]
    by_cases large' : other < self.splitToken
    · simpa [encode, large'] using less
    · have reached := (self.encode_token_within large').2.1
      rw [splitToken, Nat.one_shiftLeft] at large
      omega
  · have large' : ¬ other < self.splitToken := by
      omega
    obtain ⟨_, _, tokenLe⟩ := self.encode_token_within large
    obtain ⟨exponentLe, reached, _⟩ := self.encode_token_within large'
    have positive : value ≠ 0 := by
      rintro rfl
      simp [splitToken, Nat.one_shiftLeft] at large
    have shorter : value.log2 < other.log2 := by
      have least : value.log2 < value.size :=
        (Nat.log2_lt positive).2 below
      exact Nat.lt_of_lt_of_le least ((Nat.le_log2 (by omega)).2 above)
    have steps :
        (value.log2 - self.splitExponent + 1) *
            2 ^ (self.msbInToken + self.lsbInToken) ≤
          (other.log2 - self.splitExponent) *
            2 ^ (self.msbInToken + self.lsbInToken) :=
      Nat.mul_le_mul_right _ (by omega)
    omega

/-- The token of a value determines how many extra bits follow it. -/
theorem extraBits_encode
    (fits : value < 2 ^ 32) :
    self.extraBits (self.encode value).token = (self.encode value).nbits := by
  by_cases large : value < self.splitToken
  · simp [encode, extraBits, large]
  · obtain ⟨high, low, highLt, lowLt, exponentLe, _, _, tokenEq⟩ :=
      self.encode_large large
    have digits := self.digitsFit
    have positive : value ≠ 0 := by
      rintro rfl
      simp [splitToken, Nat.one_shiftLeft] at large
    have log2Lt : value.log2 < 32 :=
      (Nat.log2_lt positive).2 fits
    have nbitsEq :
        (self.encode value).nbits =
          value.log2 - self.msbInToken - self.lsbInToken := by
      simp [encode, large]
    have notDirect : ¬ (self.encode value).token < self.splitToken := by
      rw [tokenEq, splitToken, Nat.one_shiftLeft]
      omega
    have lengthPart :
        ((self.encode value).token - self.splitToken) >>>
            (self.msbInToken + self.lsbInToken) =
          value.log2 - self.splitExponent := by
      have lowDigits :
          high * 2 ^ self.lsbInToken + low <
            2 ^ (self.msbInToken + self.lsbInToken) := by
        have highLe :
            (high + 1) * 2 ^ self.lsbInToken ≤
              2 ^ self.msbInToken * 2 ^ self.lsbInToken :=
          Nat.mul_le_mul_right _ highLt
        rw [Nat.pow_add]
        nlinarith
      have difference :
          (self.encode value).token - self.splitToken =
            2 ^ (self.msbInToken + self.lsbInToken) *
                (value.log2 - self.splitExponent) +
              (high * 2 ^ self.lsbInToken + low) := by
        have expanded :
            (self.encode value).token =
              2 ^ self.splitExponent +
                (2 ^ (self.msbInToken + self.lsbInToken) *
                    (value.log2 - self.splitExponent) +
                  (high * 2 ^ self.lsbInToken + low)) := by
          rw [tokenEq, Nat.pow_add]
          ring
        rw [expanded, splitToken, Nat.one_shiftLeft]
        omega
      rw [Nat.shiftRight_eq_div_pow, difference,
        Nat.mul_add_div (by positivity), Nat.div_eq_of_lt lowDigits,
        Nat.add_zero]
    have small : value.log2 - self.msbInToken - self.lsbInToken < 2 ^ 5 := by
      omega
    have total :
        self.splitExponent - (self.msbInToken + self.lsbInToken) +
            (value.log2 - self.splitExponent) =
          value.log2 - self.msbInToken - self.lsbInToken := by
      omega
    rw [extraBits, if_neg notDirect, lengthPart, total, nbitsEq]
    exact (Nat.and_two_pow_sub_one_eq_mod _ 5).trans (Nat.mod_eq_of_lt small)

/-- The extra bits of a value fit their count. -/
theorem encode_bits_lt
    (value : Nat) :
    (self.encode value).bits < 2 ^ (self.encode value).nbits := by
  unfold encode
  split
  · simp
  · simp only [Nat.one_shiftLeft, Nat.and_two_pow_sub_one_eq_mod]
    exact Nat.mod_lt _ (by positivity)

/-- A `u32` value has at most 31 extra bits. -/
theorem encode_nbits_lt
    (fits : value < 2 ^ 32) :
    (self.encode value).nbits < 32 := by
  unfold encode
  split
  · simp
  next large =>
    have positive : value ≠ 0 := by
      rintro rfl
      simp [splitToken, Nat.one_shiftLeft] at large
    have log2Lt : value.log2 < 32 :=
      (Nat.log2_lt positive).2 fits
    simp only
    omega

/-- A number is put together from its digits below, at and above two places. -/
private theorem digits_eq
    (value low middle : Nat) :
    (((value / 2 ^ (low + middle)) * 2 ^ middle +
        value / 2 ^ low % 2 ^ middle) * 2 ^ low +
      value % 2 ^ low) = value := by
  have split : value / 2 ^ (low + middle) = value / 2 ^ low / 2 ^ middle := by
    rw [Nat.pow_add, Nat.div_div_eq_div_mul]
  rw [split, Nat.mul_comm (value / 2 ^ low / 2 ^ middle), Nat.div_add_mod,
    Nat.mul_comm, Nat.div_add_mod]

/-- Decoding the token and the extra bits of a value returns the value. -/
theorem assemble_encode
    (fits : value < 2 ^ 32) :
    self.assemble (self.encode value).token (self.encode value).bits =
      value := by
  by_cases large : value < self.splitToken
  · simp [encode, assemble, large]
  · obtain ⟨high, low, highLt, lowLt, exponentLe, highEq, lowEq, tokenEq⟩ :=
      self.encode_large large
    have digits := self.digitsFit
    have nbitsEq :
        (self.encode value).nbits =
          value.log2 - self.msbInToken - self.lsbInToken := by
      simp [encode, large]
    have bitsEq :
        (self.encode value).bits =
          value / 2 ^ self.lsbInToken % 2 ^ (self.encode value).nbits := by
      simp only [encode, large, if_false, Nat.one_shiftLeft,
        Nat.and_two_pow_sub_one_eq_mod, Nat.shiftRight_eq_div_pow]
    have notDirect : ¬ (self.encode value).token < self.splitToken := by
      rw [tokenEq, splitToken, Nat.one_shiftLeft]
      omega
    have splitPower :
        2 ^ self.splitExponent =
          2 ^ (self.splitExponent - self.msbInToken - self.lsbInToken) *
            2 ^ self.msbInToken * 2 ^ self.lsbInToken := by
      rw [← Nat.pow_add, ← Nat.pow_add]
      congr 1
      omega
    have tokenDigits :
        (self.encode value).token =
          2 ^ self.lsbInToken *
              (2 ^ self.msbInToken *
                  (2 ^ (self.splitExponent - self.msbInToken -
                      self.lsbInToken) +
                    (value.log2 - self.splitExponent)) +
                high) +
            low := by
      rw [tokenEq, splitPower]
      ring
    have lowPart :
        (self.encode value).token &&& (1 <<< self.lsbInToken - 1) = low := by
      rw [Nat.one_shiftLeft, Nat.and_two_pow_sub_one_eq_mod, tokenDigits,
        Nat.mul_add_mod, Nat.mod_eq_of_lt lowLt]
    have highPart :
        1 <<< self.msbInToken |||
            ((self.encode value).token >>> self.lsbInToken &&&
              (1 <<< self.msbInToken - 1)) =
          2 ^ self.msbInToken + high := by
      rw [Nat.shiftRight_eq_div_pow, tokenDigits,
        Nat.mul_add_div (by positivity), Nat.div_eq_of_lt lowLt, Nat.add_zero,
        Nat.one_shiftLeft, Nat.and_two_pow_sub_one_eq_mod, Nat.mul_add_mod,
        Nat.mod_eq_of_lt highLt, ← Nat.one_shiftLeft,
        ← Nat.shiftLeft_add_eq_or_of_lt highLt 1]
    -- The three groups of digits of the value, from the top.
    have places :
        value.log2 - self.msbInToken =
          self.lsbInToken + (self.encode value).nbits := by
      omega
    rw [places] at highEq
    have together := digits_eq value self.lsbInToken (self.encode value).nbits
    rw [highEq, ← bitsEq, lowEq] at together
    have bitsLt := self.encode_bits_lt value
    have headFits :
        ((2 ^ self.msbInToken + high) * 2 ^ (self.encode value).nbits +
            (self.encode value).bits) * 2 ^ self.lsbInToken <
          2 ^ 32 := by
      omega
    have innerFits :
        (2 ^ self.msbInToken + high) * 2 ^ (self.encode value).nbits <
          2 ^ 32 := by
      have grows :=
        Nat.le_mul_of_pos_right
          ((2 ^ self.msbInToken + high) * 2 ^ (self.encode value).nbits +
            (self.encode value).bits)
          (show 0 < 2 ^ self.lsbInToken by positivity)
      omega
    rw [assemble, if_neg notDirect]
    simp only [self.extraBits_encode fits, lowPart, highPart]
    rw [shlU_eq innerFits, ← Nat.shiftLeft_eq,
      ← Nat.shiftLeft_add_eq_or_of_lt bitsLt, Nat.shiftLeft_eq,
      shlU_eq headFits, ← Nat.shiftLeft_eq _ self.lsbInToken,
      ← Nat.shiftLeft_add_eq_or_of_lt lowLt, Nat.shiftLeft_eq]
    exact together

end HybridUintConfig

end Jxlz
