import Jxlz.Base.Checked

namespace Jxlz.Binary32

/-!
# Fused multiply-add on binary32 words

Mirrors `fma` of `binary32.zig`, which keeps 61 bits of the terms, and the `fma`
of `binary32_wide_control.zig`, which adds them up in 576 bits.  Significands and
magnitudes are the naturals of their words, exponents and shifts plain integers.
-/

/-- The number of zero bits in front of a value of the given width. -/
def clz
    (width value : Nat) :
    Nat :=
  if value = 0 then width else width - 1 - value.log2

/-- `@intCast` of a shift amount to an unsigned type of the given width. -/
def castShift
    (width : Nat)
    (shift : Int) :
    Checked Nat :=
  if 0 ≤ shift then castU width shift.toNat else .error .trap

/-- A signed result of the given width. -/
def castS
    (width : Nat)
    (value : Int) :
    Checked Int :=
  if -2 ^ (width - 1) ≤ value ∧ value < 2 ^ (width - 1) then
    .ok value
  else
    .error .trap

/-- Left shift of a signed integer of the given width. -/
def shlS
    (width value amount : Nat) :
    Int :=
  ((value <<< amount : Nat) : Int).bmod (2 ^ width)

def isNan
    (value : UInt32) :
    Bool :=
  0x7f800000 < value &&& 0x7fffffff

/-- A finite word without its sign. -/
structure FiniteTerm where
  significand : UInt32
  exponent : Int
  deriving Repr, DecidableEq

def finiteTerm
    (value : UInt32) :
    FiniteTerm :=
  let exponent := (value >>> 23) &&& 255
  { significand :=
      (value &&& 0x7fffff) ||| if exponent = 0 then 0 else 0x800000
    exponent := if exponent = 0 then -149 else (exponent.toNat : Int) - 150 }

/-- A significand at another place; what is shifted out sets the lowest bit. -/
def alignFused
    (significand : Nat)
    (shift : Int) :
    Checked Nat :=
  if 0 ≤ shift then do
    let amount ← castShift 6 shift
    return shlU 64 significand amount
  else if shift ≤ -64 then
    return 1
  else do
    let count ← castShift 6 (-shift)
    let sticky := if significand &&& (1 <<< count - 1) ≠ 0 then 1 else 0
    return significand >>> count ||| sticky

/-- The bits above a shift, rounded to nearest even. -/
def roundedSignificand
    (magnitude shift : Nat) :
    Checked Nat := do
  let significand ← castU 32 (magnitude >>> shift)
  let remainder := magnitude &&& (1 <<< shift - 1)
  let halfway := 1 <<< (shift - 1)
  if halfway < remainder ∨ (remainder = halfway ∧ significand &&& 1 ≠ 0) then
    addU 32 significand 1
  else
    return significand

/--
The word of a rounded significand.  `exponent` is the one that goes with the
shift of the rounding; a significand that was rounded up to 25 bits raises it.
-/
def packFinite
    (sign : UInt32)
    (significand : Nat)
    (exponent : Int) :
    Checked UInt32 := do
  if significand < 0x800000 then
    return sign ||| UInt32.ofNat significand
  let carried : Bool := significand = 0x1000000
  let significand := if carried then significand >>> 1 else significand
  let exponent := if carried then exponent + 1 else exponent
  if 255 ≤ exponent then
    return sign ||| 0x7f800000
  let biased ← castShift 32 exponent
  return sign ||| (UInt32.ofNat biased <<< 23) |||
    (UInt32.ofNat significand &&& 0x7fffff)

/-- The end of `fma`: the word of a sum of aligned terms that is not zero. -/
def roundSum
    (sum unit : Int) :
    Checked UInt32 := do
  let sign : UInt32 := if sum < 0 then 0x80000000 else 0
  let magnitude ← castU 64 sum.natAbs
  let high : Int := 63 - clz 64 magnitude
  let shiftCount := max (high - 23) (-149 - unit)
  if 64 ≤ shiftCount then
    return sign
  else if shiftCount ≤ 0 then
    let amount ← castShift 6 (-shiftCount)
    let significand ← castU 32 (shlU 64 magnitude amount)
    packFinite sign significand (unit + shiftCount + 150)
  else
    let count ← castShift 6 shiftCount
    let significand ← roundedSignificand magnitude count
    packFinite sign significand (unit + shiftCount + 150)

/-- The end of `fma`, once no word is infinite and both terms have a value. -/
def addFused
    (productSign a b c : UInt32) :
    Checked UInt32 := do
  let left := finiteTerm a
  let right := finiteTerm b
  let extra := finiteTerm c
  let product ← mulU 64 left.significand.toNat right.significand.toNat
  let productExp := left.exponent + right.exponent
  let productHigh := productExp + 63 - clz 64 product
  let extraHigh := extra.exponent + 31 - clz 32 extra.significand.toNat
  let unit := max productHigh extraHigh - 60
  let aligned ← alignFused product (productExp - unit)
  let p ← castU 63 aligned
  let aligned ← alignFused extra.significand.toNat (extra.exponent - unit)
  let z ← castU 63 aligned
  let sum ←
    addI64 (if productSign ≠ 0 then -p else p) (if c >>> 31 ≠ 0 then -z else z)
  if sum = 0 then
    return 0
  else
    roundSum sum unit

/-- `a · b + c`; `mul` is the multiplication of the runtime. -/
def fma
    (mul : UInt32 → UInt32 → UInt32)
    (a b c : UInt32) :
    Checked UInt32 :=
  let aa := a &&& 0x7fffffff
  let bb := b &&& 0x7fffffff
  let cc := c &&& 0x7fffffff
  let productSign := (a ^^^ b) &&& 0x80000000
  if isNan a then
    return a ||| 0x400000
  else if isNan b then
    return b ||| 0x400000
  else if isNan c then
    return c ||| 0x400000
  else if aa = 0x7f800000 ∨ bb = 0x7f800000 then
    if aa = 0 ∨ bb = 0 ∨ (cc = 0x7f800000 ∧ productSign ≠ c &&& 0x80000000) then
      return 0x7fc00000
    else
      return productSign ||| 0x7f800000
  else if cc = 0x7f800000 then
    return c
  else if (aa = 0 ∨ bb = 0) ∧ cc = 0 then
    return productSign &&& c
  else if aa = 0 ∨ bb = 0 then
    return c
  else if cc = 0 then
    return mul a b
  else
    addFused productSign a b c

namespace WideControl

/-- The end of the wide `fma`: the word of a sum that is not zero. -/
def roundSum
    (sum : Int) :
    Checked UInt32 := do
  let sign : UInt32 := if sum < 0 then 0x80000000 else 0
  let magnitude ← castU 576 sum.natAbs
  let high : Int := 575 - clz 576 magnitude
  let shift ← castShift 10 (max (high - 23) 149)
  let significand ← roundedSignificand magnitude shift
  packFinite sign significand (shift - 148)

/-- The exact sum of product and addend, rounded once. -/
def addExact
    (productSign a b c : UInt32) :
    Checked UInt32 := do
  let left := finiteTerm a
  let right := finiteTerm b
  let extra := finiteTerm c
  let product ← mulU 64 left.significand.toNat right.significand.toNat
  let amount ← castShift 10 (left.exponent + right.exponent + 298)
  let product := shlS 576 product amount
  let amount ← castShift 10 (extra.exponent + 298)
  let addend := shlS 576 extra.significand.toNat amount
  let sum ←
    castS 576
      ((if productSign ≠ 0 then -product else product) +
        if c >>> 31 ≠ 0 then -addend else addend)
  if sum = 0 then
    return 0
  else
    roundSum sum

/-- `a · b + c` in an exact accumulator. -/
def fma
    (a b c : UInt32) :
    Checked UInt32 :=
  let aa := a &&& 0x7fffffff
  let bb := b &&& 0x7fffffff
  let cc := c &&& 0x7fffffff
  let productSign := (a ^^^ b) &&& 0x80000000
  if isNan a then
    return a ||| 0x400000
  else if isNan b then
    return b ||| 0x400000
  else if isNan c then
    return c ||| 0x400000
  else if aa = 0x7f800000 ∨ bb = 0x7f800000 then
    if aa = 0 ∨ bb = 0 ∨ (cc = 0x7f800000 ∧ productSign ≠ c &&& 0x80000000) then
      return 0x7fc00000
    else
      return productSign ||| 0x7f800000
  else if cc = 0x7f800000 then
    return c
  else if (aa = 0 ∨ bb = 0) ∧ cc = 0 then
    return productSign &&& c
  else
    addExact productSign a b c

end WideControl

end Jxlz.Binary32
