import Jxlz.Modular.NoRefsMask

namespace Jxlz.Modular

open ContextPredict

/-!
# The fast tracks decode what the general loop decodes

The two tracks for a single leaf and the loops for a fixed property set are
observationally the general property loop: same samples, same symbol reads, same
failures.
-/

/-- A wide value that a sample could hold. -/
def FitsI32
    (value : Int) :
    Prop :=
  -2 ^ 31 ≤ value ∧ value < 2 ^ 31

theorem fitsI32_toInt
    (sample : Int32) :
    FitsI32 sample.toInt :=
  ⟨Int32.le_toInt sample, Int32.toInt_lt sample⟩

/-- All neighbours have a property. -/
structure AllNeighbors
    (holds : Int → Prop)
    (n : Neighbors) :
    Prop where
  left : holds n.left
  top : holds n.top
  topleft : holds n.topleft
  topright : holds n.topright
  leftleft : holds n.leftleft
  toptop : holds n.toptop
  toprightright : holds n.toprightright

/-- Every neighbour is a sample of the plane or zero. -/
theorem allNeighbors_at
    {holds : Int → Prop}
    {sample : Nat → Nat → Int32}
    {w y x : Nat}
    (zero : holds 0)
    (samples :
      ∀ row ≤ y,
        ∀ column, (x < w → column < w) → holds (sample row column).toInt) :
    AllNeighbors holds (Neighbors.at sample w y x) := by
  have left : holds (Neighbors.at sample w y x).left := by
    dsimp only [Neighbors.at]
    split
    · exact samples _ (Nat.le_refl y) _ (by omega)
    · split
      · exact samples _ (Nat.sub_le y 1) _ id
      · exact zero
  have top : holds (Neighbors.at sample w y x).top := by
    dsimp only [Neighbors.at] at left ⊢
    split
    · exact samples _ (Nat.sub_le y 1) _ id
    · simpa [*] using left
  have topright : holds (Neighbors.at sample w y x).topright := by
    dsimp only [Neighbors.at] at top ⊢
    split
    next inside =>
      exact samples _ (Nat.sub_le y 1) _ (fun _ => inside.1)
    · exact top
  constructor
  case left => exact left
  case top => exact top
  case topright => exact topright
  case topleft =>
    dsimp only [Neighbors.at] at left ⊢
    split
    · exact samples _ (Nat.sub_le y 1) _ (by omega)
    · exact left
  case leftleft =>
    dsimp only [Neighbors.at] at left ⊢
    split
    · exact samples _ (Nat.le_refl y) _ (by omega)
    · exact left
  case toptop =>
    dsimp only [Neighbors.at] at top ⊢
    split
    · exact samples _ (Nat.sub_le y 2) _ id
    · exact top
  case toprightright =>
    dsimp only [Neighbors.at] at topright ⊢
    split
    next inside =>
      exact samples _ (Nat.sub_le y 1) _ (fun _ => inside.1)
    · exact topright

theorem allNeighbors_fitsI32
    (sample : Nat → Nat → Int32)
    (w y x : Nat) :
    AllNeighbors FitsI32 (Neighbors.at sample w y x) :=
  allNeighbors_at ⟨by decide, by decide⟩ (fun _ _ _ _ => fitsI32_toInt _)

/-- The clamped gradient never wraps at 32 bits or more. -/
theorem clampedGradient_eq
    {width : Nat}
    {n w l : Int}
    (nFits : FitsI32 n)
    (wFits : FitsI32 w)
    (wide : 32 ≤ width) :
    clampedGradient width n w l =
      if max n w < l then
        min n w
      else if l < min n w then
        max n w
      else
        n + w - l := by
  have inWord : (2 : Int) ^ 32 ≤ 2 ^ width :=
    pow_le_pow_right₀ (by decide) wide
  obtain ⟨nLarge, nSmall⟩ := nFits
  obtain ⟨wLarge, wSmall⟩ := wFits
  rw [clampedGradient]
  by_cases above : max n w < l
  · rw [if_pos above, if_pos above]
  · by_cases below : l < min n w
    · rw [if_neg above, if_pos below, if_neg above, if_pos below]
    · rw [if_neg above, if_neg below, if_neg above, if_neg below]
      apply Int.bmod_eq_of_le
      · push_cast
        omega
      · push_cast
        omega

/-- The gradients of the two widths are the same. -/
theorem clampedGradient_narrow
    {n w : Int}
    (nFits : FitsI32 n)
    (wFits : FitsI32 w)
    (l : Int) :
    clampedGradient 64 n w l = clampedGradient 32 n w l := by
  rw [clampedGradient_eq nFits wFits (by decide),
    clampedGradient_eq nFits wFits (Nat.le_refl 32)]

/-- The clamped gradient lies between its first two arguments. -/
theorem fitsI32_clampedGradient
    {width : Nat}
    {n w : Int}
    (nFits : FitsI32 n)
    (wFits : FitsI32 w)
    (wide : 32 ≤ width)
    (l : Int) :
    FitsI32 (clampedGradient width n w l) := by
  rw [clampedGradient_eq nFits wFits wide]
  obtain ⟨nLarge, nSmall⟩ := nFits
  obtain ⟨wLarge, wSmall⟩ := wFits
  split
  · exact ⟨by omega, by omega⟩
  · split
    · exact ⟨by omega, by omega⟩
    · exact ⟨by omega, by omega⟩

section SingleLeaf

variable {σ : Type}
variable {source : SymbolSource σ}
variable {filtered : FilteredTree}
variable {leaf : FlatDecisionNode}
variable {image : Image}
variable {chan : Nat}

/-- A filtered tree of one leaf needs no properties and no weighted predictor. -/
structure NeedsNothing
    (filtered : FilteredTree) :
    Prop where
  noProperties :
    ∀ property, filtered.propertyUse.uses property = false
  noReferences :
    filtered.propertyUse.referenceProps = []
  noWeighted :
    filtered.useWp = false

/-- The variables of the general loop beside those of a track. -/
structure SameTrack
    (general : PixelLoop σ)
    (track : Channel × σ) :
    Prop where
  channel :
    general.channel = track.1
  input :
    general.input = track.2
  wp :
    general.wp = none

theorem NeedsNothing.numExtraProps_eq
    (needs : NeedsNothing filtered) :
    numExtraProps filtered = 0 := by
  simp [numExtraProps, needs.noReferences]

theorem NeedsNothing.row_agree
    {y : Nat}
    {general : PixelLoop σ}
    {track : Channel × σ}
    (needs : NeedsNothing filtered)
    (same : SameTrack general track) :
    Agree SameTrack
      (generalRow filtered image chan y general)
      (.ok track) := by
  rw [generalRow]
  simp only [needs.numExtraProps_eq, if_true, pure_eq_ok, ok_bind,
    needs.noProperties, setProperty_unused]
  exact .ok ⟨same.channel, same.input, same.wp⟩

/-- A pixel of the general loop over one leaf. -/
theorem NeedsNothing.generalPixel_eq
    {clampGradient : Bool}
    {y x : Nat}
    {general : PixelLoop σ}
    (needs : NeedsNothing filtered)
    (isLeaf : leaf.property0 < 0)
    (noWp : general.wp = none) :
    generalPixel source filtered clampGradient (MATreeLookup.lookup [leaf]) y x
        general =
      (do
        let n :=
          Neighbors.at general.channel.sample general.channel.w y x
        let (v, input) ← readNext source leaf.childID general.input
        let guess ←
          addI64 (predictOne leaf.predictor n 0) leaf.predictorOffset.toInt
        return {
          general with
          channel := general.channel.set y x (makePixel v leaf.multiplier guess)
          input }) := by
  have noHistory : filtered.propertyUse.needsLocalGradientHistory = false := by
    simp [PropertyUsePlan.needsLocalGradientHistory, needs.noProperties]
  have found :
      ∀ properties,
        MATreeLookup.lookup [leaf] properties =
          .ok
            { context := leaf.childID
              predictor := leaf.predictor
              offset := leaf.predictorOffset
              multiplier := leaf.multiplier } := by
    intro properties
    simp [MATreeLookup.lookup, MATreeLookup.lookupFrom, index, isLeaf]
  rw [generalPixel]
  simp only [setProperties, pixelProperties, List.foldlM_cons,
    List.foldlM_nil, needs.noProperties, setProperty_unused, ok_bind,
    needs.numExtraProps_eq, if_true, noWp, predictWeighted, decodePixel, found,
    updateWeighted, Option.map_none, noHistory, Bool.false_eq_true, if_false,
    pure_eq_ok]

theorem makePixel_plain
    (v : UInt32) :
    makePixel v 1 0 = unpackSigned v := by
  rw [makePixel]
  simp

/-- The zero track decodes what the general loop decodes. -/
theorem decodeZeroTrack_eq
    {wpHeader : Weighted.Header}
    {channel : Channel}
    {input : σ}
    (needs : NeedsNothing filtered)
    (isLeaf : leaf.property0 < 0)
    (isZero : leaf.predictor = .zero) :
    decodeZeroTrack source leaf channel input =
      decodeGeneral source filtered [leaf] wpHeader chan image channel input
    := by
  symm
  apply Agree.eq
  rw [decodeGeneral, decodeZeroTrack, needs.noWeighted,
    ← bind_pure (forPixels _ _ _ _ (channel, input))]
  refine Agree.bind (?_ : Agree SameTrack _ _) ?_
  · apply Agree.forPixels_agree
    case startRow =>
      exact fun _ _ _ _ same => needs.row_agree same
    case pixel =>
      intro y _ x _ general track same
      rw [needs.generalPixel_eq isLeaf same.wp, same.channel, same.input]
      apply Agree.bind_same
      rintro ⟨v, next⟩ _
      have noGuess :
          addI64 (predictOne leaf.predictor
              (Neighbors.at track.1.sample track.1.w y x) 0)
              leaf.predictorOffset.toInt =
            .ok leaf.predictorOffset.toInt := by
        have large := Int64.le_toInt leaf.predictorOffset
        have small := Int64.toInt_lt leaf.predictorOffset
        rw [isZero, predictOne, addI64_ok (by omega) (by omega), Int.zero_add]
      dsimp only
      rw [noGuess, ok_bind]
      refine .ok ⟨?_, rfl, same.wp⟩
      dsimp only
      split
      next plain =>
        rw [plain.1, plain.2, ← makePixel_plain]
        rfl
      next => rfl
    case endRow =>
      exact fun _ _ same => same
    case start =>
      exact ⟨rfl, rfl, rfl⟩
  · intro general track same
    rw [same.channel, same.input]
    exact .ok rfl

/-- The gradient track decodes what the general loop decodes. -/
theorem decodeGradientTrack_eq
    {wpHeader : Weighted.Header}
    {channel : Channel}
    {input : σ}
    (needs : NeedsNothing filtered)
    (isLeaf : leaf.property0 < 0)
    (isGradient : leaf.predictor = .gradient)
    (noOffset : leaf.predictorOffset = 0)
    (noMultiplier : leaf.multiplier = 1) :
    decodeGradientTrack source leaf channel input =
      decodeGeneral source filtered [leaf] wpHeader chan image channel input
    := by
  symm
  apply Agree.eq
  rw [decodeGeneral, decodeGradientTrack, needs.noWeighted,
    ← bind_pure (forPixels _ _ _ _ (channel, input))]
  refine Agree.bind (?_ : Agree SameTrack _ _) ?_
  · apply Agree.forPixels_agree
    case startRow =>
      exact fun _ _ _ _ same => needs.row_agree same
    case pixel =>
      intro y _ x _ general track same
      rw [needs.generalPixel_eq isLeaf same.wp, same.channel, same.input]
      apply Agree.bind_same
      rintro ⟨v, next⟩ _
      have fits := allNeighbors_fitsI32 track.1.sample track.1.w y x
      have sameGuess :
          addI64 (predictOne leaf.predictor
              (Neighbors.at track.1.sample track.1.w y x) 0)
              leaf.predictorOffset.toInt =
            .ok
              (clampedGradient 32
                (Neighbors.at track.1.sample track.1.w y x).left
                (Neighbors.at track.1.sample track.1.w y x).top
                (Neighbors.at track.1.sample track.1.w y x).topleft) := by
        have narrowed :=
          clampedGradient_narrow fits.left fits.top
            (Neighbors.at track.1.sample track.1.w y x).topleft
        obtain ⟨large, small⟩ :=
          fitsI32_clampedGradient fits.left fits.top (Nat.le_refl 32)
            (Neighbors.at track.1.sample track.1.w y x).topleft
        rw [isGradient, noOffset, predictOne, narrowed, Int64.toInt_zero,
          addI64_ok (by omega) (by omega), Int.add_zero]
      dsimp only
      rw [sameGuess, ok_bind, noMultiplier]
      exact .ok ⟨rfl, rfl, same.wp⟩
    case endRow =>
      exact fun _ _ same => same
    case start =>
      exact ⟨rfl, rfl, rfl⟩
  · intro general track same
    rw [same.channel, same.input]
    exact .ok rfl

end SingleLeaf

/-- Mapping the contexts changes nothing but the contexts of leaves. -/
theorem mapContext_same
    {contextMap : List Nat}
    {node mapped : FlatDecisionNode}
    (isMapped : mapContext contextMap node = .ok mapped) :
    mapped.property0 = node.property0 ∧
      mapped.reads = node.reads ∧
      mapped.predictor = node.predictor := by
  rw [mapContext] at isMapped
  split at isMapped
  · obtain ⟨childID, _, isMapped⟩ := bind_eq_ok.1 isMapped
    cases isMapped
    exact ⟨rfl, rfl, rfl⟩
  · cases isMapped
    exact ⟨rfl, rfl, rfl⟩

variable {globalTree : List PropertyDecisionNode} {filtered : FilteredTree}
  {node : FlatDecisionNode}

/-- The only node of a filtered tree is a leaf. -/
theorem leaf_of_wellFormed
    (wellFormed : filtered.WellFormed globalTree)
    (single : filtered.flatTree = [node]) :
    node.property0 < 0 := by
  by_contra isSplit
  obtain ⟨_, inside⟩ :=
    wellFormed.childrenBehind 0 node (by rw [single]; rfl)
      (Int.not_lt.1 isSplit)
  rw [single, List.length_singleton] at inside
  omega

/-- A filtered tree of a single leaf that is not weighted needs nothing. -/
theorem needsNothing_of_wellFormed
    (wellFormed : filtered.WellFormed globalTree)
    (single : filtered.flatTree = [node])
    (notWeighted : node.predictor ≠ .weighted) :
    node.property0 < 0 ∧ NeedsNothing filtered := by
  have isLeaf := leaf_of_wellFormed wellFormed single
  obtain ⟨unused, noReferences, weighted⟩ :=
    wellFormed.leavesOnly (by simp [single, isLeaf])
  refine ⟨isLeaf, ?_, noReferences, ?_⟩
  · intro property
    simp [PropertyUsePlan.uses, unused]
  · by_contra useWp
    obtain ⟨other, member, isWeighted⟩ :=
      weighted (Bool.eq_true_of_not_eq_false useWp)
    rw [single] at member
    rw [List.mem_singleton.1 member] at isWeighted
    exact notWeighted isWeighted

/-- A filtered tree reads only properties of its mask. -/
theorem knownToMask_of_wellFormed
    {mask : Nat}
    (inPlan : ∀ node ∈ globalTree, node.property < kMaxPropertyIndex)
    (wellFormed : filtered.WellFormed globalTree)
    (usesMask : UsesMask filtered.propertyUse mask)
    (member : node ∈ filtered.flatTree)
    (isSplit : 0 ≤ node.property0) :
    ∀ property ∈ node.reads, KnownToMask mask property := by
  intro property isRead
  rcases (wellFormed.planned node member isSplit property isRead).1 with zero |
    ⟨dynamic, ⟨source, inTree, isProperty⟩, used⟩
  · exact .inl zero
  · have small := inPlan source inTree
    rw [isProperty] at small
    have used := used small
    have uses : filtered.propertyUse.uses property.toNat = true := by
      have inArray : property.toNat < kMaxPropertyIndex := by
        omega
      simp [PropertyUsePlan.uses, inArray, used]
    have nonref : property.toNat < kNumNonrefProperties := by
      by_contra isReference
      have listed :=
        wellFormed.listed property.toNat used (Nat.not_lt.1 isReference)
      rw [usesMask.noReferences] at listed
      cases listed
    obtain ⟨bit, isBit⟩ :=
      usesMask.haveBits property.toNat (by omega) nonref uses
    refine .inr ⟨bit, isBit, ?_⟩
    rw [usesMask.bits property.toNat bit isBit] at uses
    exact of_decide_eq_true uses

/-- Whatever track a filtered tree takes, it decodes what the general loop decodes. -/
theorem decodeFiltered_eq
    {σ : Type}
    {source : SymbolSource σ}
    {flatTree : List FlatDecisionNode}
    {contextMap : List Nat}
    (inPlan : ∀ node ∈ globalTree, node.property < kMaxPropertyIndex)
    (wellFormed : filtered.WellFormed globalTree)
    (mapped : filtered.flatTree.mapM (mapContext contextMap) = .ok flatTree)
    (wpHeader : Weighted.Header)
    (chan : Nat)
    (image : Image)
    (channel : Channel)
    (input : σ) :
    decodeFiltered source filtered flatTree wpHeader chan image channel input =
      decodeGeneral source filtered flatTree wpHeader chan image channel input
    := by
  have withProperties :
      decodeWithProperties source filtered flatTree wpHeader chan image channel
          input =
        decodeGeneral source filtered flatTree wpHeader chan image channel
          input := by
    rw [decodeWithProperties]
    split
    next mask isMask =>
      split
      next dispatched =>
        have usesMask := usesMask_of_specializedPropertyMask isMask
        have allHaveWp :
            ∀ mask ∈ dispatchedMasks, mask &&& kMaskProp15 ≠ 0 := by
          decide
        have hasWp := allHaveWp mask dispatched
        have usesWp : filtered.propertyUse.uses kWPProp = true := by
          rw [usesMask.bits kWPProp kMaskProp15 rfl]
          exact decide_eq_true hasWp
        apply decodeModularChannelNoRefsMask_eq dispatched usesMask
        · apply wellFormed.gradient kWPProp _ (by decide)
          simp only [PropertyUsePlan.uses, Bool.and_eq_true] at usesWp
          exact usesWp.2
        · intro mappedNode member isSplit
          obtain ⟨node, inFiltered, isMapped⟩ :=
            exists_of_mapM_eq_ok mapped member
          obtain ⟨sameProperty, sameReads, _⟩ := mapContext_same isMapped
          rw [sameReads]
          rw [sameProperty] at isSplit
          exact
            knownToMask_of_wellFormed inPlan wellFormed usesMask inFiltered
              isSplit
      next => rfl
    next => rfl
  unfold decodeFiltered
  split
  next leaf =>
    obtain ⟨node, rest, isMapped, noRest, isFlat⟩ :=
      List.forall₂_cons_right_iff.1 (forall₂_of_mapM_eq_ok mapped)
    rw [List.forall₂_nil_right_iff.1 noRest] at isFlat
    obtain ⟨sameProperty, _, samePredictor⟩ := mapContext_same isMapped
    split
    next isZero =>
      obtain ⟨isLeaf, needs⟩ :=
        needsNothing_of_wellFormed wellFormed isFlat
          (by rw [← samePredictor, isZero]; decide)
      rw [← sameProperty] at isLeaf
      exact decodeZeroTrack_eq needs isLeaf isZero
    next =>
      split
      next isGradient =>
        obtain ⟨isGradient, noOffset, noMultiplier⟩ := isGradient
        obtain ⟨isLeaf, needs⟩ :=
          needsNothing_of_wellFormed wellFormed isFlat
            (by rw [← samePredictor, isGradient]; decide)
        rw [← sameProperty] at isLeaf
        exact
          decodeGradientTrack_eq needs isLeaf isGradient noOffset noMultiplier
      next => exact withProperties
  next => exact withProperties

/-- Decode one channel with the general property loop, whatever the tree. -/
def decodeModularChannelGeneral
    {σ : Type}
    (source : SymbolSource σ)
    (contextMap : List Nat)
    (globalTree : List PropertyDecisionNode)
    (wpHeader : Weighted.Header)
    (chan groupId : Nat)
    (image : Image)
    (input : σ) :
    Checked (Image × σ) :=
  decodeChannelWith
    (fun filtered flatTree image channel input =>
      decodeGeneral source filtered flatTree wpHeader chan image channel input)
    contextMap globalTree chan groupId image input

/-- A source that also keeps the contexts it was asked for. -/
def recorded
    {σ : Type}
    (source : SymbolSource σ) :
    SymbolSource (σ × List Nat) :=
  fun context input => do
    let (symbol, rest) ← source context input.1
    return (symbol, rest, input.2 ++ [context])

/-- The tracks agree for every source of symbols. -/
theorem decodeModularChannelImpl_eq
    {σ : Type}
    (inPlan : ∀ node ∈ globalTree, node.property < kMaxPropertyIndex)
    (source : SymbolSource σ)
    (contextMap : List Nat)
    (wpHeader : Weighted.Header)
    (chan groupId : Nat)
    (image : Image)
    (input : σ) :
    decodeModularChannelImpl source contextMap globalTree wpHeader chan groupId
        image input =
      decodeModularChannelGeneral source contextMap globalTree wpHeader chan
        groupId image input := by
  apply Agree.eq
  rw [decodeModularChannelImpl, decodeModularChannelGeneral, decodeChannelWith,
    decodeChannelWith]
  apply Agree.bind_same
  intro channel _
  split
  · exact .ok rfl
  · apply Agree.bind_same
    intro chanProp _
    apply Agree.bind_same
    intro groupProp _
    apply Agree.bind_same
    intro filtered isFiltered
    apply Agree.bind_same
    intro flatTree mapped
    dsimp only
    rw [decodeFiltered_eq inPlan (wellFormed_of_filterTree isFiltered) mapped]
    exact Agree.refl (fun _ => rfl) _

/--
The specialized decoding of a channel is its general property loop: for every
accepted tree over the properties that the plan has room for, every symbol
source and every image, both return the same samples, leave the source in the
same state and ask it for the same contexts in the same order, or fail alike.
The filter they share ends.
-/
theorem specialized_eq_general
    {σ : Type}
    {globalTree : List PropertyDecisionNode}
    (accepted : validateTree globalTree = .ok ())
    (inPlan : ∀ node ∈ globalTree, node.property < kMaxPropertyIndex)
    (source : SymbolSource σ)
    (contextMap : List Nat)
    (wpHeader : Weighted.Header)
    (chan groupId : Nat)
    (image : Image)
    (input : σ) :
    (∀ chanProp groupProp,
        filterTree globalTree [chanProp, groupProp] ≠ .error .running) ∧
      decodeModularChannelImpl source contextMap globalTree wpHeader chan
          groupId image input =
        decodeModularChannelGeneral source contextMap globalTree wpHeader chan
          groupId image input ∧
      decodeModularChannelImpl (recorded source) contextMap globalTree wpHeader
          chan groupId image (input, []) =
        decodeModularChannelGeneral (recorded source) contextMap globalTree
          wpHeader chan groupId image (input, []) := by
  refine ⟨?_, ?_, ?_⟩
  · intro chanProp groupProp
    exact FilterTree.filterTree_ne_running accepted rfl
  · exact
      decodeModularChannelImpl_eq inPlan source contextMap wpHeader chan groupId
        image input
  · exact
      decodeModularChannelImpl_eq inPlan (recorded source) contextMap wpHeader
        chan groupId image (input, [])

/-- A tree on the weighted property: both decoders read the same two symbols. -/
theorem specialized_eq_general_weightedSplit :
    decodeModularChannelImpl
        (recorded (fun _ (count : Nat) => .ok (2, count + 1)))
        [5, 6]
        [.split 15 0 1 2, .leaf .weighted 0 1, .leaf .left 0 1]
        {} 0 0 { channels := [.create 2 1 0 0] } (0, []) =
      decodeModularChannelGeneral
        (recorded (fun _ (count : Nat) => .ok (2, count + 1)))
        [5, 6]
        [.split 15 0 1 2, .leaf .weighted 0 1, .leaf .left 0 1]
        {} 0 0 { channels := [.create 2 1 0 0] } (0, []) :=
  (specialized_eq_general (by decide +kernel) (by decide)
    (fun _ (count : Nat) => .ok (2, count + 1)) [5, 6] {} 0 0
    { channels := [.create 2 1 0 0] } 0).2.2

/--
Beyond the plan the tracks differ: the accepted tree also splits on property
300, which the mask loop cannot remap and the general loop reads as zero.
-/
theorem specialized_ne_general_beyondPlan :
    validateTree
        [.split 15 0 1 2, .leaf .zero 0 1, .split 300 0 3 4, .leaf .zero 0 1,
          .leaf .gradient 0 1] =
        .ok () ∧
      decodeModularChannelImpl (fun _ (count : Nat) => .ok (0, count + 1))
          [0]
          [.split 15 0 1 2, .leaf .zero 0 1, .split 300 0 3 4,
            .leaf .zero 0 1, .leaf .gradient 0 1]
          {} 0 0 { channels := [.create 1 1 0 0] } 0 =
        .error .trap ∧
      (decodeModularChannelGeneral (fun _ (count : Nat) => .ok (0, count + 1))
          [0]
          [.split 15 0 1 2, .leaf .zero 0 1, .split 300 0 3 4,
            .leaf .zero 0 1, .leaf .gradient 0 1]
          {} 0 0 { channels := [.create 1 1 0 0] } 0).isOk := by
  refine ⟨by decide +kernel, rfl, by decide +kernel⟩

end Jxlz.Modular
