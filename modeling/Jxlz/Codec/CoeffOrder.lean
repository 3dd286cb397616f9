import Jxlz.Codec.AcStrategy
import Jxlz.Codec.Toc

namespace Jxlz.CoeffOrder

open AcStrategy

/-!
# Coefficient orders

Mirrors `coeff_order.zig`.  Strategies of one shape share a class.  The order
of a class is the natural one, or a permutation of it that the stream has for
each channel; permutations of classes that no block uses are only checked.
-/

def kNumOrders : Nat := 13

def kStrategyOrder : List Nat := [
  0, 1, 1, 1, 2, 3, 4, 4, 5, 5, 6, 6, 1, 1, 1, 1, 1, 1, 7, 8, 8, 9, 10, 10, 11,
  12, 12]

/-- The orders of the classes; the three channels of a class are contiguous. -/
structure Orders where
  classes : List (List Nat)

/-- The order of a strategy in a channel. -/
def Orders.get
    (self : Orders)
    (raw channel : Nat) :
    Checked (List Nat) := do
  if kStrategyOrder.length ≤ raw ∨ 3 ≤ channel then
    fail .GenericError
  else
    let bucket ← index kStrategyOrder raw
    let data ← index self.classes bucket
    if data.length = 0 then
      fail .GenericError
    else
      let size := data.length / 3
      return (data.drop (channel * size)).take size

/-- The classes so far, the strategies' classes seen, and the readers. -/
structure Decoding where
  classes : List (List Nat)
  computed : Nat := 0
  reader : Option ANSSymbolReader
  br : BitReader

/-- The classes of the strategies that are used. -/
def usedClasses
    (usedAcs : Nat) :
    Nat :=
  kStrategyOrder.zipIdx.foldl
    (fun classes (bucket, raw) =>
      if usedAcs.testBit raw then classes ||| 1 <<< bucket else classes)
    0

/-- The order of one channel, which is empty where nobody uses it. -/
def decodeChannel
    (used custom : Bool)
    (llf size : Nat)
    (natural contexts : List Nat)
    (self : Decoding) :
    Checked (List Nat × Decoding) :=
  if custom then
    match self.reader with
    | none => .error .trap
    | some reader => do
        let (permutation, reader, br) ←
          Toc.readPermutation llf size (if used then some size else none) self.br
            reader contexts
        let order ← (permutation.getD []).mapM (index natural)
        return (order, { self with reader := some reader, br })
  else
    return (if used then natural else [], self)

/-- The orders of the class that a strategy is the first one of. -/
def decodeClass
    (raw bucket : Nat)
    (used custom : Bool)
    (contexts : List Nat)
    (self : Decoding) :
    Checked Decoding := do
  let extent ← strategyExtent raw
  let llf := extent.x * extent.y
  let size := 64 * llf
  let natural ←
    (if used then naturalOrder raw (List.replicate size 0) else return [])
  let (order0, self) ← decodeChannel used custom llf size natural contexts self
  let (order1, self) ← decodeChannel used custom llf size natural contexts self
  let (order2, self) ← decodeChannel used custom llf size natural contexts self
  if used then
    let classes ← store self.classes bucket (order0 ++ order1 ++ order2)
    return { self with classes }
  else
    return self

/-- The round of one strategy. -/
def decodeStrategy
    (usedOrders usedClasses : Nat)
    (contexts : List Nat)
    (self : Decoding)
    (item : Nat × Nat) :
    Checked Decoding :=
  let (bucket, raw) := item
  if self.computed.testBit bucket then
    return self
  else
    let self := { self with computed := self.computed ||| 1 <<< bucket }
    let used := usedClasses.testBit bucket
    let custom := usedOrders.testBit bucket
    if !used && !custom then
      return self
    else
      decodeClass raw bucket used custom contexts self

/-- The histograms and the reader of the permutations, if there are any. -/
def openPermutations
    (usedOrders : Nat)
    (br : BitReader) :
    Checked (List Nat × Option ANSSymbolReader × BitReader) := do
  if usedOrders = 0 then
    return ([], none, br)
  else
    let (contexts, code, br) ← decodeHistograms Toc.kPermutationContexts br
    let (reader, br) ← ANSSymbolReader.create code br 0
    return (contexts, some reader, br)

/--
Decode the orders of the classes that are used or custom.  The code of an error
may be exchanged by `decode` around this; what it accepts is the same.
-/
def decodeInner
    (usedOrders usedAcs : Nat)
    (br : BitReader) :
    Checked (Orders × BitReader) := do
  if usedOrders >>> kNumOrders ≠ 0 ∨ usedAcs >>> kNumValidStrategies ≠ 0 then
    fail .GenericError
  else
    let (contexts, reader, br) ← openPermutations usedOrders br
    let decoding ←
      kStrategyOrder.zipIdx.foldlM
        (decodeStrategy usedOrders (usedClasses usedAcs) contexts)
        { classes := List.replicate kNumOrders [], reader, br }
    let (within, br) := decoding.br.allReadsWithinBounds
    if within = false then
      fail .NotEnoughBytes
    else if decoding.reader.any fun reader => !reader.checkANSFinalState then
      fail .GenericError
    else
      return ({ classes := decoding.classes }, br)

end Jxlz.CoeffOrder
