import Jxlz.Modular.Encoding
import Jxlz.Modular.FilterTree

namespace Jxlz.Modular

open ContextPredict

/-!
# Loops for a fixed property set

The loops for a fixed property set keep their properties in the slots of the
set's mask and look pixels up in a remapped tree.  They agree pixel by pixel
with the general loop: `Mirrors` relates the two property arrays.
-/

/-- A property that the trees of a mask may read. -/
def KnownToMask
    (mask : Nat)
    (property : Int) :
    Prop :=
  property = 0 ∨
    ∃ bit,
      propertyMaskBit property.toNat = some bit ∧ mask &&& bit ≠ 0

/-- The slots hold the mask's properties; slot zero holds the constant one. -/
structure Mirrors
    (mask : Nat)
    (general compact : Nat → Int32) :
    Prop where
  constant :
    general 0 = compact 0
  inMask :
    ∀ property bit,
      propertyMaskBit property = some bit →
      mask &&& bit ≠ 0 →
      general property = compact (compactPropertySlot mask bit)

/-- Two properties of a mask have two slots, and none has slot zero. -/
private theorem slots_distinct :
    ∀ mask ∈ dispatchedMasks,
      ∀ first < 16,
        ∀ second < 16,
          ∀ firstBit ∈ propertyMaskBit first,
            ∀ secondBit ∈ propertyMaskBit second,
              mask &&& firstBit ≠ 0 →
              mask &&& secondBit ≠ 0 →
              compactPropertySlot mask firstBit ≠ 0 ∧
                (first ≠ second →
                  compactPropertySlot mask firstBit ≠
                    compactPropertySlot mask secondBit) := by
  decide +kernel

/-- Properties with a mask bit are among the first sixteen. -/
theorem lt_of_propertyMaskBit
    {property bit : Nat}
    (isBit : propertyMaskBit property = some bit) :
    9 ≤ property ∧ property < 16 := by
  unfold propertyMaskBit at isBit
  split at isBit <;> simp at isBit ⊢

variable {general compact : Nat → Int32}

/-- Setting a property of the mask on both sides. -/
theorem Mirrors.update
    {mask property bit : Nat}
    (mirrors : Mirrors mask general compact)
    (dispatched : mask ∈ dispatchedMasks)
    (isBit : propertyMaskBit property = some bit)
    (inMask : mask &&& bit ≠ 0)
    (value : Int32) :
    Mirrors mask
      (Function.update general property value)
      (Function.update compact (compactPropertySlot mask bit) value) := by
  obtain ⟨large, small⟩ := lt_of_propertyMaskBit isBit
  obtain ⟨notZero, _⟩ :=
    slots_distinct mask dispatched property small property small bit isBit bit
      isBit inMask inMask
  constructor
  case constant =>
    have notConstant : (0 : Nat) ≠ property := by
      omega
    rw [Function.update_of_ne notConstant, Function.update_of_ne notZero.symm]
    exact mirrors.constant
  case inMask =>
    intro other otherBit isOther otherInMask
    obtain ⟨_, otherSmall⟩ := lt_of_propertyMaskBit isOther
    by_cases same : other = property
    · subst same
      obtain rfl : bit = otherBit := by
        rw [isBit] at isOther
        exact Option.some.inj isOther
      rw [Function.update_self, Function.update_self]
    · obtain ⟨_, distinct⟩ :=
        slots_distinct mask dispatched other otherSmall property small otherBit
          isOther bit isBit otherInMask inMask
      rw [Function.update_of_ne same, Function.update_of_ne (distinct same)]
      exact mirrors.inMask other otherBit isOther otherInMask

@[simp]
theorem setProperty_unused
    (property : Nat)
    (value : Checked Int32)
    (properties : Nat → Int32) :
    setProperty false property value properties = .ok properties :=
  rfl

/-- Both loops set a property of the mask, or both leave it out. -/
theorem Mirrors.setProperty
    {mask property bit : Nat}
    {used : Bool}
    (mirrors : Mirrors mask general compact)
    (dispatched : mask ∈ dispatchedMasks)
    (isBit : propertyMaskBit property = some bit)
    (sameUse : used = decide (mask &&& bit ≠ 0))
    (value : Int) :
    Agree (Mirrors mask)
      (setProperty used property (truncate value) general)
      (setProperty (decide (mask &&& bit ≠ 0)) (compactPropertySlot mask bit)
        (truncate value) compact) := by
  rw [sameUse]
  by_cases inMask : mask &&& bit ≠ 0
  · rw [decide_eq_true inMask]
    exact .ok (mirrors.update dispatched isBit inMask (Int32.ofInt value))
  · rw [decide_eq_false inMask]
    exact .ok mirrors

/-! Remapping and compacting a tree. -/

variable {mask : Nat}

/-- A remapped property is read from the slot of its property. -/
theorem remapPropertyIndex_ok
    {property : Int}
    (known : KnownToMask mask property) :
    ∃ slot : Nat,
      remapPropertyIndex mask property = .ok slot ∧
        slot < kCompactNoRefLeaf ∧
        ∀ general compact,
          Mirrors mask general compact →
          general property.toNat = compact slot := by
  rcases known with isZero | ⟨bit, isBit, inMask⟩
  · refine ⟨0, ?_, by decide, ?_⟩
    · simp [remapPropertyIndex, isZero]
    · intro general compact mirrors
      rw [isZero]
      exact mirrors.constant
  · refine ⟨compactPropertySlot mask bit, ?_, ?_, ?_⟩
    · have notZero : property ≠ 0 := by
        rintro rfl
        simp [propertyMaskBit] at isBit
      simp [remapPropertyIndex, notZero, isBit]
    · have few : popCount (mask &&& (bit - 1)) ≤ 8 := by
        refine (List.length_filter_le _ _).trans ?_
        rw [List.length_range]
      rw [compactPropertySlot, if_neg inMask, kCompactNoRefLeaf]
      omega
    · intro general compact mirrors
      exact mirrors.inMask _ bit isBit inMask

/-- A node and its remapped form read the same values. -/
structure Remapped
    (mask : Nat)
    (node remapped : FlatDecisionNode) :
    Prop where
  leaf :
    node.property0 < 0 → remapped = node
  split :
    0 ≤ node.property0 →
      ∃ slot0 slot1 slot2 : Nat,
        remapped =
            { node with
              property0 := slot0
              properties := ((slot1 : Int), (slot2 : Int)) } ∧
          slot0 < kCompactNoRefLeaf ∧
          ∀ general compact,
            Mirrors mask general compact →
            general node.property0.toNat = compact slot0 ∧
              general node.properties.1.toNat = compact slot1 ∧
              general node.properties.2.toNat = compact slot2

/-- Nodes over the mask's properties are remapped. -/
theorem remapNoRefMaskNode_ok
    {node : FlatDecisionNode}
    (known :
      0 ≤ node.property0 → ∀ property ∈ node.reads, KnownToMask mask property) :
    ∃ remapped,
      remapNoRefMaskNode mask node = .ok remapped ∧
        Remapped mask node remapped := by
  by_cases isLeaf : node.property0 < 0
  · refine ⟨node, ?_, ⟨fun _ => rfl, fun isSplit => ?_⟩⟩
    · rw [remapNoRefMaskNode, if_pos isLeaf]
      rfl
    · omega
  · have known := known (Int.not_lt.1 isLeaf)
    obtain ⟨slot0, isSlot0, small, reads0⟩ :=
      remapPropertyIndex_ok (known node.property0 (by simp [FlatDecisionNode.reads]))
    obtain ⟨slot1, isSlot1, _, reads1⟩ :=
      remapPropertyIndex_ok
        (known node.properties.1 (by simp [FlatDecisionNode.reads]))
    obtain ⟨slot2, isSlot2, _, reads2⟩ :=
      remapPropertyIndex_ok
        (known node.properties.2 (by simp [FlatDecisionNode.reads]))
    refine
      ⟨{ node with
          property0 := slot0
          properties := ((slot1 : Int), (slot2 : Int)) },
        ?_, ⟨fun isLeaf' => absurd isLeaf' isLeaf, fun _ => ?_⟩⟩
    · simp only [remapNoRefMaskNode, isLeaf, if_false, isSlot0, isSlot1,
        isSlot2, ok_bind, pure_eq_ok]
    · refine ⟨slot0, slot1, slot2, rfl, small, ?_⟩
      intro general compact mirrors
      exact
        ⟨reads0 general compact mirrors, reads1 general compact mirrors,
          reads2 general compact mirrors⟩

variable {flatTree : List FlatDecisionNode}

/-- Trees over the mask's properties are remapped node by node. -/
theorem remapNoRefMaskTree_ok
    (known :
      ∀ node ∈ flatTree,
        0 ≤ node.property0 →
        ∀ property ∈ node.reads, KnownToMask mask property) :
    ∃ remapped,
      remapNoRefMaskTree mask flatTree = .ok remapped ∧
        List.Forall₂ (Remapped mask) flatTree remapped := by
  induction flatTree with
  | nil =>
      exact ⟨[], rfl, .nil⟩
  | cons node rest inductionHypothesis =>
      obtain ⟨first, isFirst, firstRemapped⟩ :=
        remapNoRefMaskNode_ok (known node List.mem_cons_self)
      obtain ⟨others, areOthers, othersRemapped⟩ :=
        inductionHypothesis
          (fun other member => known other (List.mem_cons_of_mem _ member))
      refine ⟨first :: others, ?_, .cons firstRemapped othersRemapped⟩
      rw [remapNoRefMaskTree] at areOthers ⊢
      simp only [List.mapM_cons, isFirst, areOthers, ok_bind, pure_eq_ok]

/-- Slots are smaller than the mark of a dense leaf. -/
theorem small_of_remapped
    {flatTree remapped : List FlatDecisionNode}
    (allRemapped : List.Forall₂ (Remapped mask) flatTree remapped) :
    ∀ node ∈ remapped, node.property0 < (kCompactNoRefLeaf : Int) := by
  induction allRemapped with
  | nil =>
      simp
  | @cons node node' _ _ isRemapped _ inductionHypothesis =>
      intro other member
      rcases List.mem_cons.1 member with rfl | inRest
      · by_cases isLeaf : node.property0 < 0
        · rw [isRemapped.leaf isLeaf, kCompactNoRefLeaf]
          omega
        · obtain ⟨slot0, _, _, rfl, small, _⟩ :=
            isRemapped.split (Int.not_lt.1 isLeaf)
          exact Int.ofNat_lt.2 small
      · exact inductionHypothesis other inRest

/-- Indexing two lists that are related place by place. -/
theorem index_agree
    {α β : Type}
    {related : α → β → Prop}
    {left : List α}
    {right : List β}
    (allRelated : List.Forall₂ related left right)
    (position : Nat) :
    Agree related (index left position) (index right position) := by
  induction allRelated generalizing position with
  | nil =>
      exact .error Fault.trap
  | cons first _ inductionHypothesis =>
      cases position with
      | zero =>
          exact .ok first
      | succ position =>
          exact inductionHypothesis position

/-- The lookup in a remapped tree finds what the general lookup finds. -/
theorem lookup_remapped
    {flatTree remapped : List FlatDecisionNode}
    (allRemapped : List.Forall₂ (Remapped mask) flatTree remapped)
    (mirrors : Mirrors mask general compact) :
    MATreeLookup.lookup flatTree general =
      MATreeLookup.lookup remapped compact := by
  have fromAny :
      ∀ fuel position,
        MATreeLookup.lookupFrom flatTree general fuel position =
          MATreeLookup.lookupFrom remapped compact fuel position := by
    intro fuel
    induction fuel with
    | zero =>
        intro position
        rfl
    | succ fuel inductionHypothesis =>
        intro position
        apply Agree.eq
        rw [MATreeLookup.lookupFrom, MATreeLookup.lookupFrom]
        apply (index_agree allRemapped position).bind
        intro node node' isRemapped
        by_cases isLeaf : node.property0 < 0
        · rw [isRemapped.leaf isLeaf]
          simp only [isLeaf, if_true]
          exact .ok rfl
        · obtain ⟨slot0, slot1, slot2, rfl, _, reads⟩ :=
            isRemapped.split (Int.not_lt.1 isLeaf)
          obtain ⟨reads0, reads1, reads2⟩ := reads general compact mirrors
          have isSplit : ¬ (slot0 : Int) < 0 := by
            omega
          simp only [isLeaf, isSplit, if_false, reads0, reads1, reads2,
            Int.toNat_natCast, inductionHypothesis]
          exact Agree.refl (fun _ => rfl) _
  rw [MATreeLookup.lookup, MATreeLookup.lookup, allRemapped.length_eq]
  exact fromAny _ 0

/-- The dense form of a remapped node. -/
structure Compacted
    (node : FlatDecisionNode)
    (compact : CompactNoRefNode) :
    Prop where
  leaf :
    node.property0 < 0 →
      compact.property0 = kCompactNoRefLeaf ∧
        compact.predictorTag = node.predictor.tag ∧
        compact.childId = node.childID ∧
        compact.multiplier = node.multiplier ∧
        compact.predictorOffset = node.predictorOffset
  split :
    0 ≤ node.property0 →
      compact.property0 = node.property0.toNat ∧
        compact.property1 = node.properties.1.toNat ∧
        compact.property2 = node.properties.2.toNat ∧
        compact.childId = node.childID ∧
        compact.splitval0 = node.splitval0 ∧
        compact.splitval1 = node.splitvals.1 ∧
        compact.splitval2 = node.splitvals.2

theorem compacted_of_compactNoRefNode
    {node : FlatDecisionNode}
    {compact : CompactNoRefNode}
    (isCompact : compactNoRefNode node = some compact) :
    Compacted node compact := by
  rw [compactNoRefNode] at isCompact
  split at isCompact
  next isLeaf =>
    split at isCompact
    · cases isCompact
    · cases isCompact
      exact
        ⟨fun _ => ⟨rfl, rfl, rfl, rfl, rfl⟩,
          fun isSplit => absurd isLeaf (Int.not_lt.2 isSplit)⟩
  next isSplit =>
    split at isCompact
    · cases isCompact
      exact
        ⟨fun isLeaf => absurd isLeaf isSplit,
          fun _ => ⟨rfl, rfl, rfl, rfl, rfl, rfl, rfl⟩⟩
    · cases isCompact

/-- A dense tree is dense node by node. -/
theorem compacted_of_compactNoRefTree
    {storage : Nat}
    {compactTree : List CompactNoRefNode}
    (isCompact : compactNoRefTree flatTree storage = some compactTree) :
    List.Forall₂ Compacted flatTree compactTree := by
  rw [compactNoRefTree] at isCompact
  split at isCompact
  · cases isCompact
  · induction flatTree generalizing compactTree with
    | nil =>
        cases isCompact
        exact .nil
    | cons node rest inductionHypothesis =>
        rw [List.mapM_cons] at isCompact
        obtain ⟨first, isFirst, isCompact⟩ :=
          Option.bind_eq_some_iff.1 isCompact
        obtain ⟨others, areOthers, isCompact⟩ :=
          Option.bind_eq_some_iff.1 isCompact
        cases isCompact
        refine .cons (compacted_of_compactNoRefNode isFirst) ?_
        apply inductionHypothesis _ areOthers
        simp only [List.length_cons] at *
        omega

/-- The lookup in the dense tree finds what the lookup in the remapped tree finds. -/
theorem lookup_compacted
    {nodes : List FlatDecisionNode}
    {compactTree : List CompactNoRefNode}
    (compacted : List.Forall₂ Compacted nodes compactTree)
    (small :
      ∀ node ∈ nodes, node.property0 < (kCompactNoRefLeaf : Int))
    (properties : Nat → Int32) :
    MATreeLookup.lookup nodes properties =
      compactNoRefLookup compactTree properties := by
  have compacted' := (List.forall₂_and_left _ _).2 ⟨small, compacted⟩
  have fromAny :
      ∀ fuel position,
        MATreeLookup.lookupFrom nodes properties fuel position =
          compactNoRefLookupFrom compactTree properties fuel position := by
    intro fuel
    induction fuel with
    | zero =>
        intro position
        rfl
    | succ fuel inductionHypothesis =>
        intro position
        apply Agree.eq
        rw [MATreeLookup.lookupFrom, compactNoRefLookupFrom]
        apply (index_agree compacted' position).bind
        intro node compact isCompacted
        obtain ⟨small, isCompacted⟩ := isCompacted
        by_cases isLeaf : node.property0 < 0
        · obtain ⟨leaf, predictor, child, multiplier, offset⟩ :=
            isCompacted.leaf isLeaf
          simp only [isLeaf, if_true, leaf, predictor, child, multiplier,
            offset, Predictor.ofTag_tag]
          exact .ok rfl
        · obtain ⟨read0, read1, read2, child, split0, split1, split2⟩ :=
            isCompacted.split (Int.not_lt.1 isLeaf)
          have notLeaf : node.property0.toNat ≠ kCompactNoRefLeaf := by
            omega
          simp only [isLeaf, if_false, read0, read1, read2, child, split0,
            split1, split2, notLeaf, inductionHypothesis]
          exact Agree.refl (fun _ => rfl) _
  rw [MATreeLookup.lookup, compactNoRefLookup, compacted.length_eq]
  exact fromAny _ 0

/-! The mask of a plan. -/

/-- The bits of two properties meet only where the properties are one. -/
private theorem maskBits_meet :
    ∀ first < 16,
      ∀ second < 16,
        ∀ firstBit ∈ propertyMaskBit first,
          ∀ secondBit ∈ propertyMaskBit second,
            firstBit &&& secondBit ≠ 0 ↔ first = second := by
  decide

variable {propertyUse : PropertyUsePlan}

/-- The bits that a mask collects from a list of properties. -/
private theorem foldlM_mask
    {properties : List Nat}
    {start mask : Nat}
    (collected :
      properties.foldlM
          (fun mask propertyIndex =>
            if propertyUse.uses propertyIndex then
              (propertyMaskBit propertyIndex).map (mask ||| ·)
            else
              some mask)
          start =
        some mask) :
    (∀ property ∈ properties,
        propertyUse.uses property = true →
        ∃ bit, propertyMaskBit property = some bit) ∧
      ∀ property bit,
        propertyMaskBit property = some bit →
        (mask &&& bit ≠ 0 ↔
          start &&& bit ≠ 0 ∨
            (property ∈ properties ∧ propertyUse.uses property = true)) := by
  induction properties generalizing start with
  | nil =>
      cases collected
      simp
  | cons first rest inductionHypothesis =>
      rw [List.foldlM_cons] at collected
      obtain ⟨next, isNext, collected⟩ :=
        Option.bind_eq_some_iff.1 collected
      obtain ⟨haveBits, bits⟩ := inductionHypothesis collected
      by_cases used : propertyUse.uses first = true
      · rw [if_pos used] at isNext
        obtain ⟨firstBit, isFirstBit, rfl⟩ := Option.map_eq_some_iff.1 isNext
        constructor
        · intro property member usesProperty
          rcases List.mem_cons.1 member with isFirst | inRest
          · exact ⟨firstBit, by rw [isFirst, isFirstBit]⟩
          · exact haveBits property inRest usesProperty
        · intro property bit isBit
          have meets :=
            maskBits_meet first (lt_of_propertyMaskBit isFirstBit).2 property
              (lt_of_propertyMaskBit isBit).2 firstBit isFirstBit bit isBit
          rw [bits property bit isBit, Nat.and_or_distrib_right, ne_eq,
            Nat.or_eq_zero_iff, not_and_or, ← ne_eq, ← ne_eq, meets,
            List.mem_cons]
          constructor
          · rintro ((old | isFirst) | ⟨inRest, usesProperty⟩)
            · exact .inl old
            · exact .inr ⟨.inl isFirst.symm, isFirst ▸ used⟩
            · exact .inr ⟨.inr inRest, usesProperty⟩
          · rintro (old | ⟨isFirst | inRest, usesProperty⟩)
            · exact .inl (.inl old)
            · exact .inl (.inr isFirst.symm)
            · exact .inr ⟨inRest, usesProperty⟩
      · rw [if_neg used] at isNext
        cases isNext
        constructor
        · intro property member usesProperty
          rcases List.mem_cons.1 member with isFirst | inRest
          · exact absurd (isFirst ▸ usesProperty) used
          · exact haveBits property inRest usesProperty
        · intro property bit isBit
          rw [bits property bit isBit, List.mem_cons]
          constructor
          · rintro (old | ⟨inRest, usesProperty⟩)
            · exact .inl old
            · exact .inr ⟨.inr inRest, usesProperty⟩
          · rintro (old | ⟨isFirst | inRest, usesProperty⟩)
            · exact .inl old
            · exact absurd (isFirst ▸ usesProperty) used
            · exact .inr ⟨inRest, usesProperty⟩

/-- What a plan with a mask uses. -/
structure UsesMask
    (propertyUse : PropertyUsePlan)
    (mask : Nat) :
    Prop where
  noReferences :
    propertyUse.referenceProps = []
  haveBits :
    ∀ property,
      kNumStaticProperties ≤ property →
      property < kNumNonrefProperties →
      propertyUse.uses property = true →
      ∃ bit, propertyMaskBit property = some bit
  bits :
    ∀ property bit,
      propertyMaskBit property = some bit →
      propertyUse.uses property = decide (mask &&& bit ≠ 0)

theorem usesMask_of_specializedPropertyMask
    (isMask : specializedPropertyMask propertyUse = some mask) :
    UsesMask propertyUse mask := by
  rw [specializedPropertyMask] at isMask
  split at isMask
  · cases isMask
  next noReferences =>
    obtain ⟨haveBits, bits⟩ := foldlM_mask isMask
    constructor
    case noReferences =>
      simpa [PropertyUsePlan.usesReferenceProps] using noReferences
    case haveBits =>
      intro property dynamic nonref usesProperty
      apply haveBits property _ usesProperty
      apply List.mem_iff_getElem.2
      simp only [kNumStaticProperties, kNumNonrefProperties] at dynamic nonref ⊢
      refine ⟨property - 2, ?_, ?_⟩
      · rw [List.length_drop, List.length_range]
        omega
      · rw [List.getElem_drop, List.getElem_range]
        omega
    case bits =>
      intro property bit isBit
      obtain ⟨large, small⟩ := lt_of_propertyMaskBit isBit
      have inRange :
          property ∈
            (List.range kNumNonrefProperties).drop kNumStaticProperties := by
        apply List.mem_iff_getElem.2
        simp only [kNumStaticProperties, kNumNonrefProperties]
        refine ⟨property - 2, ?_, ?_⟩
        · rw [List.length_drop, List.length_range]
          omega
        · rw [List.getElem_drop, List.getElem_range]
          omega
      have usesBit := bits property bit isBit
      simp only [Nat.zero_and, ne_eq, not_true_eq_false, false_or, inRange,
        true_and] at usesBit
      rw [Bool.eq_iff_iff, decide_eq_true_eq]
      exact usesBit.symm

/-- Properties without a bit are unused. -/
theorem UsesMask.unused
    {mask property : Nat}
    (usesMask : UsesMask propertyUse mask)
    (dynamic : kNumStaticProperties ≤ property)
    (nonref : property < kNumNonrefProperties)
    (noBit : propertyMaskBit property = none) :
    propertyUse.uses property = false := by
  by_contra used
  obtain ⟨bit, isBit⟩ :=
    usesMask.haveBits property dynamic nonref (Bool.eq_true_of_not_eq_false used)
  rw [noBit] at isBit
  cases isBit

variable {filtered : FilteredTree}

theorem UsesMask.numExtraProps_eq
    (usesMask : UsesMask filtered.propertyUse mask) :
    numExtraProps filtered = 0 := by
  simp [numExtraProps, usesMask.noReferences]

/-! The loops. -/

/-- The variables of the two loops, side by side. -/
structure SameLoop {σ : Type}
    (mask : Nat)
    (general compact : PixelLoop σ) :
    Prop where
  channel :
    general.channel = compact.channel
  input :
    general.input = compact.input
  wp :
    general.wp = compact.wp
  mirrors :
    Mirrors mask general.properties compact.properties

variable {σ : Type}
variable {source : SymbolSource σ}

/-- The end of a pixel is the same where the lookups are. -/
theorem decodePixel_agree
    {mask y x : Nat}
    {n : Neighbors}
    {wpPred : Int}
    {generalLookup compactLookup : (Nat → Int32) → Checked LookupResult}
    {general compact : PixelLoop σ}
    (sameLookup :
      ∀ first second,
        Mirrors mask first second →
        generalLookup first = compactLookup second)
    (same : SameLoop mask general compact) :
    Agree (SameLoop mask)
      (decodePixel source generalLookup y x n wpPred general)
      (decodePixel source compactLookup y x n wpPred compact) := by
  rw [decodePixel, decodePixel, sameLookup _ _ same.mirrors, same.input,
    same.channel, same.wp]
  apply Agree.bind_same
  intro lr _
  apply Agree.bind_same
  intro next _
  apply Agree.bind_same
  intro guess _
  exact .ok ⟨rfl, rfl, rfl, same.mirrors⟩

/-- The weighted prediction is the same, and its property is in its slot. -/
theorem Mirrors.predictWeighted
    {used : Bool}
    (mirrors : Mirrors mask general compact)
    (dispatched : mask ∈ dispatchedMasks)
    (sameUse : used = decide (mask &&& kMaskProp15 ≠ 0))
    (y x w : Nat)
    (n : Neighbors)
    (wp : Option Weighted.State) :
    let first := Modular.predictWeighted used kWPProp y x w n wp general
    let second :=
      Modular.predictWeighted (decide (mask &&& kMaskProp15 ≠ 0))
        (compactPropertySlot mask kMaskProp15) y x w n wp compact
    first.1 = second.1 ∧
      first.2.1 = second.2.1 ∧
      Mirrors mask first.2.2 second.2.2 := by
  rw [sameUse]
  cases wp with
  | none =>
      exact ⟨rfl, rfl, mirrors⟩
  | some state =>
      by_cases inMask : mask &&& kMaskProp15 ≠ 0
      · rw [decide_eq_true inMask]
        exact ⟨rfl, rfl, mirrors.update dispatched rfl inMask _⟩
      · rw [decide_eq_false inMask]
        exact ⟨rfl, rfl, mirrors⟩

/-- One pixel of the two loops. -/
theorem maskPixel_agree
    {mask y x : Nat}
    {generalLookup compactLookup : (Nat → Int32) → Checked LookupResult}
    {general compact : PixelLoop σ}
    (dispatched : mask ∈ dispatchedMasks)
    (usesMask : UsesMask filtered.propertyUse mask)
    (sameLookup :
      ∀ first second,
        Mirrors mask first second →
        generalLookup first = compactLookup second)
    (same : SameLoop mask general compact) :
    Agree (SameLoop mask)
      (generalPixel source filtered false generalLookup y x general)
      (maskPixel source mask compactLookup y x compact) := by
  have unused :
      ∀ property,
        kNumStaticProperties ≤ property →
        property < kNumNonrefProperties →
        propertyMaskBit property = none →
        filtered.propertyUse.uses property = false :=
    fun _ => usesMask.unused
  have plain : narrowGradient false = truncate := rfl
  rw [generalPixel, maskPixel]
  simp only [setProperties, pixelProperties, List.foldlM_cons,
    List.foldlM_nil, unused 3 (by decide) (by decide) rfl,
    unused 4 (by decide) (by decide) rfl, unused 5 (by decide) (by decide) rfl,
    unused 6 (by decide) (by decide) rfl, unused 7 (by decide) (by decide) rfl,
    unused 8 (by decide) (by decide) rfl,
    unused 14 (by decide) (by decide) rfl, setProperty_unused, ok_bind,
    usesMask.numExtraProps_eq, if_true, same.channel, same.wp, plain,
    bind_assoc, pure_eq_ok]
  apply (same.mirrors.setProperty dispatched rfl (usesMask.bits 9 _ rfl) _).bind
  intro general9 compact9 mirrors
  apply (mirrors.setProperty dispatched rfl (usesMask.bits 10 _ rfl) _).bind
  intro general10 compact10 mirrors
  apply (mirrors.setProperty dispatched rfl (usesMask.bits 11 _ rfl) _).bind
  intro general11 compact11 mirrors
  apply (mirrors.setProperty dispatched rfl (usesMask.bits 12 _ rfl) _).bind
  intro general12 compact12 mirrors
  apply (mirrors.setProperty dispatched rfl (usesMask.bits 13 _ rfl) _).bind
  intro general13 compact13 mirrors
  obtain ⟨sameWp, samePred, mirrors⟩ :=
    mirrors.predictWeighted dispatched (usesMask.bits kWPProp _ rfl) y x
      compact.channel.w
      (Neighbors.at compact.channel.sample compact.channel.w y x) compact.wp
  rw [samePred]
  exact decodePixel_agree sameLookup ⟨rfl, same.input, sameWp, mirrors⟩

/-- The start of a row of the general loop changes nothing that the mask reads. -/
theorem generalRow_agree
    {image : Image}
    {mask chan y : Nat}
    {general compact : PixelLoop σ}
    (usesMask : UsesMask filtered.propertyUse mask)
    (same : SameLoop mask general compact) :
    Agree (SameLoop mask)
      (generalRow filtered image chan y general)
      (.ok compact) := by
  rw [generalRow]
  simp only [usesMask.numExtraProps_eq, if_true, pure_eq_ok, ok_bind,
    usesMask.unused (show 2 ≤ 2 by decide) (by decide) rfl,
    setProperty_unused]
  exact .ok ⟨same.channel, same.input, same.wp, same.mirrors⟩

/-- The loop for a mask decodes what the general loop decodes. -/
theorem maskLoop_eq_general
    {wpHeader : Weighted.Header}
    {mask chan : Nat}
    {image : Image}
    {channel : Channel}
    {input : σ}
    {compactLookup : (Nat → Int32) → Checked LookupResult}
    (dispatched : mask ∈ dispatchedMasks)
    (usesMask : UsesMask filtered.propertyUse mask)
    (notGradient : filtered.gradientOnly = false)
    (sameLookup :
      ∀ first second,
        Mirrors mask first second →
        MATreeLookup.lookup flatTree first = compactLookup second) :
    decodeModularChannelNoRefsMaskLoop source mask compactLookup wpHeader
        filtered.useWp channel input =
      decodeGeneral source filtered flatTree wpHeader chan image channel
        input := by
  symm
  apply Agree.eq
  rw [decodeGeneral, decodeModularChannelNoRefsMaskLoop, notGradient,
    Bool.false_and]
  refine Agree.bind (?_ : Agree (SameLoop mask) _ _) ?_
  · apply Agree.forPixels_agree
    case startRow =>
      intro y _ general compact same
      exact generalRow_agree usesMask same
    case pixel =>
      intro y _ x _ general compact same
      exact maskPixel_agree dispatched usesMask sameLookup same
    case endRow =>
      exact fun _ _ same => same
    case start =>
      exact ⟨rfl, rfl, rfl, ⟨rfl, fun _ _ _ _ => rfl⟩⟩
  · intro general compact same
    rw [same.channel, same.input]
    exact .ok rfl

/-- Decoding for a mask decodes what the general loop decodes. -/
theorem decodeModularChannelNoRefsMask_eq
    {wpHeader : Weighted.Header}
    {mask chan : Nat}
    {image : Image}
    {channel : Channel}
    {input : σ}
    (dispatched : mask ∈ dispatchedMasks)
    (usesMask : UsesMask filtered.propertyUse mask)
    (notGradient : filtered.gradientOnly = false)
    (known :
      ∀ node ∈ flatTree,
        0 ≤ node.property0 →
        ∀ property ∈ node.reads, KnownToMask mask property) :
    decodeModularChannelNoRefsMask source mask flatTree wpHeader
        filtered.useWp channel input =
      decodeGeneral source filtered flatTree wpHeader chan image channel
        input := by
  obtain ⟨remapped, isRemapped, allRemapped⟩ := remapNoRefMaskTree_ok known
  rw [decodeModularChannelNoRefsMask, isRemapped, ok_bind]
  split
  next compactTree isCompact =>
    apply maskLoop_eq_general dispatched usesMask notGradient
    intro first second mirrors
    rw [lookup_remapped allRemapped mirrors]
    apply lookup_compacted (compacted_of_compactNoRefTree isCompact)
    exact small_of_remapped allRemapped
  next =>
    apply maskLoop_eq_general dispatched usesMask notGradient
    intro first second mirrors
    exact lookup_remapped allRemapped mirrors

end Jxlz.Modular
