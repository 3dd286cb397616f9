import Jxlz.Base.BitReader
import Jxlz.Base.ReadBack

namespace Jxlz

/-!
# Field coders

Mirrors the reading side of `field_coders.zig`: a selector of two bits picks
one of four distributions, each a fixed value or an offset plus extra bits.
-/

/-- A distribution of values for one selector, packed into 32 bits. -/
structure U32Distr where
  d : Nat
  deriving Repr, DecidableEq

namespace U32Distr

def k_direct : Nat := 0x80000000

def isDirect
    (self : U32Distr) :
    Bool :=
  self.d &&& k_direct != 0

def direct
    (self : U32Distr) :
    Nat :=
  self.d &&& (k_direct - 1)

def extraBits
    (self : U32Distr) :
    Nat :=
  (self.d &&& 0x1F) + 1

def offset
    (self : U32Distr) :
    Nat :=
  (self.d >>> 5) &&& 0x3FFFFFF

end U32Distr

/-- A value that takes no bits beyond the selector. -/
def val
    (value : Nat) :
    U32Distr :=
  { d := value ||| U32Distr.k_direct }

/-- A value from `offset_val` on, in `nbits` bits. -/
def bitsOffset
    (nbits offset_val : Nat) :
    U32Distr :=
  { d := ((nbits - 1) &&& 0x1F) + shlU 32 (offset_val &&& 0x3FFFFFF) 5 }

def bits
    (nbits : Nat) :
    U32Distr :=
  bitsOffset nbits 0

/-- The four distributions that a two-bit selector picks from. -/
structure U32Enc where
  d0 : U32Distr
  d1 : U32Distr
  d2 : U32Distr
  d3 : U32Distr
  deriving Repr, DecidableEq

def U32Enc.getDistr
    (self : U32Enc) :
    Nat → U32Distr
  | 0 => self.d0
  | 1 => self.d1
  | 2 => self.d2
  | _ => self.d3

theorem U32Enc.getDistr_cases
    (self : U32Enc)
    (selector : Nat) :
    self.getDistr selector = self.d0 ∨ self.getDistr selector = self.d1 ∨
      self.getDistr selector = self.d2 ∨ self.getDistr selector = self.d3 := by
  unfold U32Enc.getDistr
  split <;> simp

/-- `U32Coder.read`; the sum with the offset wraps. -/
def U32Coder.read
    (enc : U32Enc)
    (reader : BitReader) :
    Checked (Nat × BitReader) := do
  let (selector, reader) ← reader.readBits 2
  let d := enc.getDistr selector
  if d.isDirect then
    return (d.direct, reader)
  let (extra, reader) ← reader.readBits d.extraBits
  return ((extra + d.offset) % 2 ^ 32, reader)

/-- What a reader returns: a fixed value, or extra bits above an offset. -/
theorem U32Coder.read_cases
    {enc : U32Enc}
    {reader after : BitReader}
    {value : Nat}
    (read : U32Coder.read enc reader = .ok (value, after)) :
    ∃ selector,
      ((enc.getDistr selector).isDirect = true ∧
        value = (enc.getDistr selector).direct) ∨
      ∃ extra,
        extra < 2 ^ (enc.getDistr selector).extraBits ∧
          (enc.getDistr selector).isDirect = false ∧
          value = (extra + (enc.getDistr selector).offset) % 2 ^ 32 := by
  unfold U32Coder.read at read
  obtain ⟨⟨selector, inner⟩, _, read⟩ := bind_eq_ok.1 read
  refine ⟨selector, ?_⟩
  cases isDirect : (enc.getDistr selector).isDirect with
  | true =>
      simp only [isDirect, if_true] at read
      cases read
      exact .inl ⟨rfl, rfl⟩
  | false =>
      simp only [isDirect, Bool.false_eq_true, if_false] at read
      obtain ⟨⟨extra, rest⟩, isExtra, read⟩ := bind_eq_ok.1 read
      cases read
      exact .inr ⟨extra, BitReader.readBits_lt isExtra, rfl, rfl⟩

/-- A reader of four fixed values returns one of them. -/
theorem U32Coder.read_direct
    {enc : U32Enc}
    {reader after : BitReader}
    {value : Nat}
    (direct : ∀ selector, (enc.getDistr selector).isDirect = true)
    (read : U32Coder.read enc reader = .ok (value, after)) :
    ∃ selector, value = (enc.getDistr selector).direct := by
  obtain ⟨selector, ⟨_, isValue⟩ | ⟨_, _, notDirect, _⟩⟩ :=
    U32Coder.read_cases read
  · exact ⟨selector, isValue⟩
  · rw [direct selector] at notDirect
    cases notDirect

end Jxlz

namespace Jxlz

open BitString

/-!
# Writing 32-bit fields

Mirrors `U32Coder.write` of `field_coders.zig`.  The writer of a 32-bit field
tries all four distributions and keeps the shortest form; what is written is
read back, and no other reading of the same value takes fewer bits.
-/

/-- Bits that are written for a value, read back as it, and as few as can be. -/
structure ShortestForm
    (write : BitWriter → Checked BitWriter)
    (read : BitReader → Checked (Nat × BitReader))
    (value : Nat)
    (bits : List Bool) :
    Prop where
  writes :
    Writes write bits
  reads :
    Reads read bits value
  shortest :
    ∀ reader after,
      read reader = .ok (value, after) →
      reader.totalBitsConsumed + bits.length ≤ after.totalBitsConsumed

/-- A successful read takes the bits it was asked for, and its value fits them. -/
theorem BitReader.readBits_took
    {self after : BitReader}
    {nbits value : Nat}
    (read : self.readBits nbits = .ok (value, after)) :
    after.totalBitsConsumed = self.totalBitsConsumed + nbits ∧
      value < 2 ^ nbits := by
  refine ⟨?_, readBits_lt read⟩
  have parts := read
  unfold readBits at parts
  obtain ⟨_, isOpen, parts⟩ := bind_eq_ok.1 parts
  obtain ⟨_, peeked, _⟩ := bind_eq_ok.1 parts
  unfold peekBits at peeked
  obtain ⟨_, short, _⟩ := bind_eq_ok.1 peeked
  obtain ⟨after', read', advanced⟩ :=
    readBits_ok (require_eq_ok.1 isOpen) (require_eq_ok.1 short)
  rw [read] at read'
  cases read'
  exact advanced.consumedBits

namespace U32Distr

/-- The width and the value of the extra bits that spell a value. -/
def payload
    (self : U32Distr)
    (value : Nat) :
    Option (Nat × Nat) :=
  if self.isDirect then
    if value ≠ self.direct then none else some (0, 0)
  else if value < self.offset then
    none
  else
    let candidate := value - self.offset
    let range := 1 <<< self.extraBits
    if range ≤ candidate then none else some (self.extraBits, candidate)

/-- The number of bits after the selector. -/
def width
    (self : U32Distr) :
    Nat :=
  if self.isDirect then 0 else self.extraBits

/-- The value that the extra bits are added to. -/
def base
    (self : U32Distr) :
    Nat :=
  if self.isDirect then self.direct else self.offset

/-- The distribution has the value, without a wrap past 32 bits. -/
def Represents
    (self : U32Distr)
    (value : Nat) :
    Prop :=
  ∃ extra, extra < 2 ^ self.width ∧ value = self.base + extra

theorem extraBits_le
    (self : U32Distr) :
    self.extraBits ≤ 32 := by
  have low : self.d &&& 0x1F ≤ 0x1F :=
    Nat.and_le_right
  rw [extraBits]
  omega

theorem offset_lt
    (self : U32Distr) :
    self.offset < 2 ^ 26 := by
  have low : (self.d >>> 5) &&& 0x3FFFFFF ≤ 0x3FFFFFF :=
    Nat.and_le_right
  rw [offset]
  omega

/-- A payload spells the value, above the base. -/
theorem payload_eq_some
    {self : U32Distr}
    {value nbits extra : Nat}
    (chosen : self.payload value = some (nbits, extra)) :
    nbits = self.width ∧ extra < 2 ^ self.width ∧ value = self.base + extra := by
  cases direct : self.isDirect with
  | true =>
      simp only [payload, direct, if_true] at chosen
      split at chosen
      · cases chosen
      next same =>
        cases chosen
        simp only [width, base, direct, if_true, Nat.pow_zero, Nat.add_zero]
        exact ⟨trivial, by decide, not_not.1 same⟩
  | false =>
      simp only [payload, direct, Bool.false_eq_true, if_false] at chosen
      split at chosen
      · cases chosen
      next above =>
        split at chosen
        · cases chosen
        next inRange =>
          cases chosen
          rw [Nat.one_shiftLeft] at inRange
          simp only [width, base, direct, Bool.false_eq_true, if_false]
          exact ⟨trivial, by omega, by omega⟩

theorem payload_eq_none
    {self : U32Distr}
    {value : Nat} :
    self.payload value = none ↔ ¬ self.Represents value := by
  cases direct : self.isDirect with
  | true =>
      simp [payload, Represents, width, base, direct]
  | false =>
      simp only [payload, Represents, width, base, direct, Bool.false_eq_true,
        if_false, Nat.one_shiftLeft]
      constructor
      · rintro missing ⟨extra, fits, rfl⟩
        rw [if_neg (by omega), Nat.add_sub_cancel_left, if_neg (by omega)]
          at missing
        cases missing
      · intro missing
        split
        · rfl
        next above =>
          rw [if_pos]
          by_contra inRange
          exact missing ⟨value - self.offset, by omega, by omega⟩

theorem width_le
    (self : U32Distr) :
    self.width ≤ 32 := by
  rw [width]
  split
  · omega
  · exact self.extraBits_le

/-- Only 32 extra bits can reach past 32 bits with the offset. -/
theorem wraps_wide
    {self : U32Distr}
    (ranged : self.isDirect = false)
    {extra : Nat}
    (fits : extra < 2 ^ self.extraBits)
    (wraps : 2 ^ 32 ≤ extra + self.offset) :
    self.width = 32 := by
  have small := self.offset_lt
  have short := self.extraBits_le
  have full : ¬ self.extraBits ≤ 31 := by
    intro narrow
    have below : 2 ^ self.extraBits ≤ 2 ^ 31 :=
      Nat.pow_le_pow_right (by decide) narrow
    omega
  simp only [width, ranged, Bool.false_eq_true, if_false]
  omega

end U32Distr

namespace U32Coder

/-- One round of the search: a shorter form replaces the one found so far. -/
def consider
    (enc : U32Enc)
    (value : Nat)
    (best : Option (Nat × Nat × Nat))
    (selector : Nat) :
    Option (Nat × Nat × Nat) :=
  match (enc.getDistr selector).payload value with
  | none => best
  | some (extra_bits, extra_value) =>
      match best with
      | none => some (selector, extra_bits, extra_value)
      | some (best_selector, best_extra_bits, best_extra_value) =>
          if 2 + extra_bits < 2 + best_extra_bits then
            some (selector, extra_bits, extra_value)
          else
            some (best_selector, best_extra_bits, best_extra_value)

/-- The selector, the width and the extra value of the shortest form. -/
def choose
    (enc : U32Enc)
    (value : Nat) :
    Option (Nat × Nat × Nat) :=
  [0, 1, 2, 3].foldl (consider enc value) none

def write
    (enc : U32Enc)
    (value : Nat)
    (writer : BitWriter) :
    Checked BitWriter :=
  match choose enc value with
  | none => fail .GenericError
  | some (best_selector, best_extra_bits, best_extra_value) => do
      let writer ← writer.write 2 best_selector
      if best_extra_bits ≠ 0 then
        writer.write best_extra_bits best_extra_value
      else
        return writer

/-- What the search knows after the selectors considered so far. -/
def Best
    (enc : U32Enc)
    (value : Nat)
    (considered : List Nat)
    (best : Option (Nat × Nat × Nat)) :
    Prop :=
  match best with
  | none =>
      ∀ selector ∈ considered, (enc.getDistr selector).payload value = none
  | some (selector, extra_bits, extra_value) =>
      selector ∈ considered ∧
        (enc.getDistr selector).payload value =
          some (extra_bits, extra_value) ∧
        ∀ other ∈ considered,
          ∀ nbits extra,
            (enc.getDistr other).payload value = some (nbits, extra) →
            extra_bits ≤ nbits

variable {enc : U32Enc} {value : Nat}

/-- A round keeps the best form of the selectors considered. -/
theorem consider_best
    {considered : List Nat}
    {best : Option (Nat × Nat × Nat)}
    (isBest : Best enc value considered best)
    (selector : Nat) :
    Best enc value (considered ++ [selector])
      (consider enc value best selector) := by
  unfold consider
  cases new : (enc.getDistr selector).payload value with
  | none =>
      cases best with
      | none =>
          intro other member
          rcases List.mem_append.1 member with old | isNew
          · exact isBest other old
          · rw [List.mem_singleton.1 isNew]
            exact new
      | some found =>
          obtain ⟨member, chosen, shortest⟩ := isBest
          refine ⟨List.mem_append_left _ member, chosen, ?_⟩
          intro other member' nbits extra isPayload
          rcases List.mem_append.1 member' with old | isNew
          · exact shortest other old nbits extra isPayload
          · rw [List.mem_singleton.1 isNew, new] at isPayload
            cases isPayload
  | some form =>
      obtain ⟨extra_bits, extra_value⟩ := form
      have here : selector ∈ considered ++ [selector] := by
        simp
      cases best with
      | none =>
          refine ⟨here, new, ?_⟩
          intro other member nbits extra isPayload
          rcases List.mem_append.1 member with old | isNew
          · rw [isBest other old] at isPayload
            cases isPayload
          · rw [List.mem_singleton.1 isNew, new] at isPayload
            cases isPayload
            exact Nat.le_refl _
      | some found =>
          obtain ⟨best_selector, best_extra_bits, best_extra_value⟩ := found
          obtain ⟨member, chosen, shortest⟩ := isBest
          dsimp only
          split
          next shorter =>
            refine ⟨here, new, ?_⟩
            intro other member' nbits extra isPayload
            rcases List.mem_append.1 member' with old | isNew
            · have := shortest other old nbits extra isPayload
              omega
            · rw [List.mem_singleton.1 isNew, new] at isPayload
              cases isPayload
              exact Nat.le_refl _
          next notShorter =>
            refine ⟨List.mem_append_left _ member, chosen, ?_⟩
            intro other member' nbits extra isPayload
            rcases List.mem_append.1 member' with old | isNew
            · exact shortest other old nbits extra isPayload
            · rw [List.mem_singleton.1 isNew, new] at isPayload
              cases isPayload
              omega

theorem choose_best
    (enc : U32Enc)
    (value : Nat) :
    Best enc value [0, 1, 2, 3] (choose enc value) := by
  have none : Best enc value [] none := by
    intro selector member
    cases member
  exact
    consider_best
      (consider_best (consider_best (consider_best none 0) 1) 2) 3

/-- The bits of a form: the selector, then the extra bits. -/
def formBits
    (enc : U32Enc)
    (selector extra : Nat) :
    List Bool :=
  bitsOf 2 selector ++ bitsOf (enc.getDistr selector).width extra

theorem write_writes
    {value selector nbits extra : Nat}
    (chosen : choose enc value = some (selector, nbits, extra))
    (width : nbits = (enc.getDistr selector).width) :
    Writes (write enc value) (formBits enc selector extra) := by
  have short : nbits ≤ BitWriter.kMaxBitsPerCall := by
    have := (enc.getDistr selector).width_le
    rw [BitWriter.kMaxBitsPerCall]
    omega
  have shape :
      write enc value = fun writer => do
        let writer ← writer.write 2 selector
        if nbits ≠ 0 then
          writer.write nbits extra
        else
          return writer := by
    funext writer
    simp only [write, chosen]
  rw [shape, formBits, ← width]
  refine (Writes.patch (by decide) selector).bind ?_
  by_cases empty : nbits = 0
  · simp only [empty, ne_eq, not_true_eq_false, if_false, bitsOf_zero]
    exact Writes.nothing
  · simp only [empty, ne_eq, not_false_eq_true, if_true]
    exact Writes.patch short extra

theorem read_reads
    {value selector extra : Nat}
    (small : selector < 4)
    (fits : extra < 2 ^ (enc.getDistr selector).width)
    (isValue : value = (enc.getDistr selector).base + extra)
    (inRange : value < 2 ^ 32) :
    Reads (read enc) (formBits enc selector extra) value := by
  have short := (enc.getDistr selector).width_le
  have selected :
      Reads (fun reader => reader.readBits 2) (bitsOf 2 selector) selector :=
    Reads.readBits (by decide) small
  cases direct : (enc.getDistr selector).isDirect with
  | true =>
      refine selected.bind ?_
      have noWidth : (enc.getDistr selector).width = 0 := by
        simp [U32Distr.width, direct]
      have base :
          (enc.getDistr selector).base = (enc.getDistr selector).direct := by
        simp [U32Distr.base, direct]
      rw [noWidth, Nat.pow_zero] at fits
      have same : value = (enc.getDistr selector).direct := by
        omega
      rw [noWidth, bitsOf_zero, same]
      simp only [direct, if_true]
      exact Reads.nothing _
  | false =>
      refine selected.bind ?_
      have width :
          (enc.getDistr selector).width = (enc.getDistr selector).extraBits := by
        simp [U32Distr.width, direct]
      have base :
          (enc.getDistr selector).base = (enc.getDistr selector).offset := by
        simp [U32Distr.base, direct]
      have same :
          (extra + (enc.getDistr selector).offset) % 2 ^ 32 = value := by
        rw [Nat.mod_eq_of_lt] <;> omega
      simp only [direct, Bool.false_eq_true, if_false]
      rw [width] at fits ⊢
      refine
        (Reads.readBits (by rw [BitReader.kMaxBitsPerCall]; omega) fits).last ?_
      intro reader
      rw [← same]
      rfl

/-- What a reading of a value takes: the bits of a selector that has the value. -/
theorem read_took
    {reader after : BitReader}
    (read : U32Coder.read enc reader = .ok (value, after)) :
    ∃ selector,
      selector < 4 ∧
        after.totalBitsConsumed =
          reader.totalBitsConsumed + (2 + (enc.getDistr selector).width) ∧
        ((enc.getDistr selector).Represents value ∨
          (enc.getDistr selector).width = 32) := by
  unfold U32Coder.read at read
  obtain ⟨⟨selector, middle⟩, isSelector, read⟩ := bind_eq_ok.1 read
  obtain ⟨took, small⟩ := BitReader.readBits_took isSelector
  refine ⟨selector, small, ?_⟩
  cases direct : (enc.getDistr selector).isDirect with
  | true =>
      simp only [direct, if_true] at read
      cases read
      refine ⟨by simp [U32Distr.width, direct, took], .inl ⟨0, ?_, ?_⟩⟩
      · exact Nat.two_pow_pos _
      · simp [U32Distr.base, direct]
  | false =>
      simp only [direct, Bool.false_eq_true, if_false] at read
      obtain ⟨⟨extra, rest⟩, isExtra, read⟩ := bind_eq_ok.1 read
      obtain ⟨took', fits⟩ := BitReader.readBits_took isExtra
      cases read
      have width :
          (enc.getDistr selector).width = (enc.getDistr selector).extraBits := by
        simp [U32Distr.width, direct]
      refine ⟨by rw [took', took, width, Nat.add_assoc], ?_⟩
      by_cases wraps : 2 ^ 32 ≤ extra + (enc.getDistr selector).offset
      · exact .inr (U32Distr.wraps_wide direct fits wraps)
      · refine .inl ⟨extra, by rw [width]; exact fits, ?_⟩
        rw [Nat.mod_eq_of_lt (by omega), Nat.add_comm]
        simp [U32Distr.base, direct]

/-- The search gives up exactly when no selector has the value. -/
theorem choose_eq_none
    {value : Nat} :
    choose enc value = none ↔
      ∀ selector, selector < 4 → ¬ (enc.getDistr selector).Represents value := by
  have best := choose_best enc value
  constructor
  · intro missing selector small
    rw [missing] at best
    refine U32Distr.payload_eq_none.1 (best selector ?_)
    simp only [List.mem_cons, List.not_mem_nil, or_false]
    omega
  · intro missing
    cases found : choose enc value with
    | none => rfl
    | some form =>
        obtain ⟨selector, nbits, extra⟩ := form
        rw [found] at best
        obtain ⟨member, chosen, _⟩ := best
        have small : selector < 4 := by
          simp only [List.mem_cons, List.not_mem_nil, or_false] at member
          omega
        rw [U32Distr.payload_eq_none.2 (missing selector small)] at chosen
        cases chosen

/-- A value that some selector has is written in its shortest form. -/
theorem write_shortest
    (inRange : value < 2 ^ 32)
    (represented :
      ∃ selector, selector < 4 ∧ (enc.getDistr selector).Represents value) :
    ∃ selector extra,
      selector < 4 ∧ extra < 2 ^ (enc.getDistr selector).width ∧
        value = (enc.getDistr selector).base + extra ∧
        ShortestForm (write enc value) (read enc) value
          (formBits enc selector extra) := by
  have best := choose_best enc value
  cases found : choose enc value with
  | none =>
      obtain ⟨selector, small, represents⟩ := represented
      exact absurd represents (choose_eq_none.1 found selector small)
  | some form =>
      obtain ⟨selector, nbits, extra⟩ := form
      rw [found] at best
      obtain ⟨member, chosen, shortest⟩ := best
      obtain ⟨width, fits, isValue⟩ := U32Distr.payload_eq_some chosen
      have small : selector < 4 := by
        simp only [List.mem_cons, List.not_mem_nil, or_false] at member
        omega
      refine
        ⟨selector, extra, small, fits, isValue, write_writes found width,
          read_reads small fits isValue inRange, ?_⟩
      intro reader after read
      obtain ⟨other, small', took, has⟩ := read_took read
      have least :
          (enc.getDistr selector).width ≤ (enc.getDistr other).width := by
        rcases has with represents | wide
        · cases isPayload : (enc.getDistr other).payload value with
          | none =>
              exact absurd represents (U32Distr.payload_eq_none.1 isPayload)
          | some form =>
              obtain ⟨nbits', extra'⟩ := form
              rw [← width, ← (U32Distr.payload_eq_some isPayload).1]
              refine shortest other ?_ nbits' extra' isPayload
              simp only [List.mem_cons, List.not_mem_nil, or_false]
              omega
        · rw [wide]
          exact (enc.getDistr selector).width_le
      rw [took, formBits, List.length_append, length_bitsOf, length_bitsOf]
      omega

theorem write_fails_iff
    (inRange : value < 2 ^ 32)
    (writer : BitWriter) :
    write enc value writer = fail .GenericError ↔
      ∀ selector, selector < 4 → ¬ (enc.getDistr selector).Represents value := by
  constructor
  · intro failed selector small represents
    obtain ⟨_, _, _, _, _, form⟩ :=
      write_shortest inRange ⟨selector, small, represents⟩
    obtain ⟨written, wrote, _⟩ := form.writes writer
    rw [failed] at wrote
    cases wrote
  · intro missing
    rw [write, choose_eq_none.2 missing]

end U32Coder

end Jxlz
