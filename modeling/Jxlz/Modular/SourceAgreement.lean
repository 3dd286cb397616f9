import Jxlz.Modular.SpecializedPaths

namespace Jxlz.Modular

open ContextPredict

/-!
# Channels of agreeing sources

Two symbol sources agree up to a relation of their states, if in every context
that matters they fail alike or read one symbol into related states.  Decoding a
channel only passes its source on, so it decodes the same samples from both.
-/

section Relation

variable {σ τ : Type}

/-- One value, and related inputs behind it. -/
structure SameRead {α : Type}
    (same : σ → τ → Prop)
    (left : α × σ)
    (right : α × τ) :
    Prop where
  value : left.1 = right.1
  input : same left.2 right.2

/-- In the contexts that matter, both sources read the same. -/
def SourcesAgree
    (contexts : Nat → Prop)
    (same : σ → τ → Prop)
    (left : SymbolSource σ)
    (right : SymbolSource τ) :
    Prop :=
  ∀ context,
    contexts context →
    ∀ first second,
      same first second →
      Agree (SameRead same) (left context first) (right context second)

/-- The variables of two loops over one channel, but for related inputs. -/
structure SameState
    (same : σ → τ → Prop)
    (left : PixelLoop σ)
    (right : PixelLoop τ) :
    Prop where
  channel : left.channel = right.channel
  input : same left.input right.input
  properties : left.properties = right.properties
  wp : left.wp = right.wp
  localGradient : left.localGradient = right.localGradient
  references : left.references = right.references

/-- The channel and the input of a loop. -/
theorem SameState.result
    {same : σ → τ → Prop}
    {left : PixelLoop σ}
    {right : PixelLoop τ}
    (sameState : SameState same left right) :
    SameRead same (left.channel, left.input) (right.channel, right.input) :=
  ⟨sameState.channel, sameState.input⟩

end Relation

/-- Every leaf that a lookup finds has a context that matters. -/
def FindsContexts
    (contexts : Nat → Prop)
    (lookup : (Nat → Int32) → Checked LookupResult) :
    Prop :=
  ∀ properties found,
    lookup properties = .ok found → contexts found.context

/-- Every leaf of a tree has a context that matters. -/
def LeafContexts
    (contexts : Nat → Prop)
    (nodes : List FlatDecisionNode) :
    Prop :=
  ∀ node ∈ nodes, node.property0 < 0 → contexts node.childID

/-! The contexts that the lookups find are those of the leaves. -/

section Contexts

variable {contexts : Nat → Prop}

/-- The lookup ends at a leaf. -/
theorem LeafContexts.finds
    {nodes : List FlatDecisionNode}
    (leaves : LeafContexts contexts nodes) :
    FindsContexts contexts (MATreeLookup.lookup nodes) := by
  intro properties found
  have fromAny :
      ∀ fuel position,
        MATreeLookup.lookupFrom nodes properties fuel position = .ok found →
        contexts found.context := by
    intro fuel
    induction fuel with
    | zero =>
        intro position isFound
        cases isFound
    | succ fuel inductionHypothesis =>
        intro position isFound
        obtain ⟨node, isNode, isFound⟩ := bind_eq_ok.1 isFound
        split at isFound
        next isLeaf =>
          cases isFound
          exact
            leaves node (List.mem_of_getElem? (index_eq_ok.1 isNode)) isLeaf
        next =>
          exact inductionHypothesis _ isFound
  exact fromAny nodes.length 0

theorem remapPropertyIndex_small
    {mask : Nat}
    {property slot : Int}
    (remaps : remapPropertyIndex mask property = .ok slot) :
    0 ≤ slot ∧ slot < (kCompactNoRefLeaf : Int) := by
  unfold remapPropertyIndex at remaps
  split at remaps
  · cases remaps
    exact ⟨Int.le_refl 0, by decide⟩
  · split at remaps
    next bit _ =>
      cases remaps
      have few : popCount (mask &&& (bit - 1)) ≤ 8 := by
        refine (List.length_filter_le _ _).trans ?_
        rw [List.length_range]
      refine ⟨Int.natCast_nonneg _, Int.ofNat_lt.2 ?_⟩
      unfold compactPropertySlot kCompactNoRefLeaf
      split
      · decide
      · omega
    next =>
      cases remaps

/-- Remapping keeps the leaves, and its slots are smaller than the mark of a leaf. -/
theorem remapNoRefMaskNode_keeps
    {mask : Nat}
    {node remapped : FlatDecisionNode}
    (remaps : remapNoRefMaskNode mask node = .ok remapped) :
    (remapped.property0 < 0 → remapped = node) ∧
      remapped.property0 < (kCompactNoRefLeaf : Int) := by
  unfold remapNoRefMaskNode at remaps
  split at remaps
  next isLeaf =>
    cases remaps
    exact ⟨fun _ => rfl, Int.lt_trans isLeaf (by decide)⟩
  next =>
    obtain ⟨slot, isSlot, remaps⟩ := bind_eq_ok.1 remaps
    obtain ⟨_, _, remaps⟩ := bind_eq_ok.1 remaps
    obtain ⟨_, _, remaps⟩ := bind_eq_ok.1 remaps
    obtain ⟨nonneg, small⟩ := remapPropertyIndex_small isSlot
    cases remaps
    exact ⟨fun isLeaf => (Int.not_lt.2 nonneg isLeaf).elim, small⟩

/-- The leaves of a remapped tree are leaves of the tree. -/
theorem LeafContexts.remapped
    {mask : Nat}
    {flatTree remapped : List FlatDecisionNode}
    (leaves : LeafContexts contexts flatTree)
    (remaps : remapNoRefMaskTree mask flatTree = .ok remapped) :
    LeafContexts contexts remapped := by
  intro node member isLeaf
  obtain ⟨original, inTree, isNode⟩ := exists_of_mapM_eq_ok remaps member
  have same : node = original :=
    (remapNoRefMaskNode_keeps isNode).1 isLeaf
  rw [same] at isLeaf ⊢
  exact leaves original inTree isLeaf

/-- The lookup in the dense form of a remapped tree finds the same leaves. -/
theorem LeafContexts.finds_compact
    {mask storage : Nat}
    {flatTree remapped : List FlatDecisionNode}
    {compactTree : List CompactNoRefNode}
    (leaves : LeafContexts contexts flatTree)
    (remaps : remapNoRefMaskTree mask flatTree = .ok remapped)
    (compacts : compactNoRefTree remapped storage = some compactTree) :
    FindsContexts contexts (compactNoRefLookup compactTree) := by
  intro properties found isFound
  have small (node : FlatDecisionNode)
      (member : node ∈ remapped) :
      node.property0 < (kCompactNoRefLeaf : Int) := by
    obtain ⟨original, _, isNode⟩ := exists_of_mapM_eq_ok remaps member
    exact (remapNoRefMaskNode_keeps isNode).2
  rw [← lookup_compacted (compacted_of_compactNoRefTree compacts) small] at isFound
  exact (leaves.remapped remaps).finds properties found isFound

/-- The contexts of a mapped tree are entries of the context map. -/
theorem leafContexts_mapContext
    {contextMap : List Nat}
    {nodes mapped : List FlatDecisionNode}
    (isMapped : nodes.mapM (mapContext contextMap) = .ok mapped) :
    LeafContexts (· ∈ contextMap) mapped := by
  intro node member isLeaf
  obtain ⟨original, _, isNode⟩ := exists_of_mapM_eq_ok isMapped member
  unfold mapContext at isNode
  split at isNode
  · obtain ⟨childID, isChild, isNode⟩ := bind_eq_ok.1 isNode
    cases isNode
    exact List.mem_of_getElem? (index_eq_ok.1 isChild)
  next isSplit =>
    cases isNode
    exact (isSplit isLeaf).elim

end Contexts

/-! What the loops over pixels pass on, one function after the other. -/

section Loops

variable {σ τ : Type}
variable {contexts : Nat → Prop}
variable {same : σ → τ → Prop}
variable {left : SymbolSource σ}
variable {right : SymbolSource τ}

variable {second : τ} {first : σ}

theorem SourcesAgree.readNext
    (agree : SourcesAgree contexts same left right)
    {context : Nat}
    (matters : contexts context)
    (related : same first second) :
    Agree (SameRead same)
      (Modular.readNext left context first)
      (Modular.readNext right context second) := by
  unfold Modular.readNext
  apply (agree context matters first second related).bind
  rintro ⟨symbol, next⟩ ⟨symbol', next'⟩ ⟨sameSymbol, sameNext⟩
  dsimp only at sameSymbol sameNext ⊢
  rw [sameSymbol]
  apply Agree.bind_same
  intro v _
  exact .ok ⟨rfl, sameNext⟩

variable {lookup : (Nat → Int32) → Checked LookupResult}

/-- The end of a pixel. -/
theorem SourcesAgree.decodePixel
    (agree : SourcesAgree contexts same left right)
    (finds : FindsContexts contexts lookup)
    {first : PixelLoop σ}
    {second : PixelLoop τ}
    (related : SameState same first second)
    (y x : Nat)
    (n : Neighbors)
    (wpPred : Int) :
    Agree (SameState same)
      (Modular.decodePixel left lookup y x n wpPred first)
      (Modular.decodePixel right lookup y x n wpPred second) := by
  unfold Modular.decodePixel
  rw [related.properties, related.channel, related.wp]
  apply Agree.bind_same
  intro lr found
  apply (agree.readNext (finds _ lr found) related.input).bind
  rintro ⟨v, next⟩ ⟨v', next'⟩ ⟨sameValue, sameNext⟩
  dsimp only at sameValue sameNext ⊢
  rw [sameValue]
  apply Agree.bind_same
  intro guess _
  exact .ok ⟨rfl, sameNext, rfl, rfl, related.localGradient, related.references⟩

/-- One pixel of the loops for a fixed property set. -/
theorem SourcesAgree.maskPixel
    (agree : SourcesAgree contexts same left right)
    (finds : FindsContexts contexts lookup)
    {first : PixelLoop σ}
    {second : PixelLoop τ}
    (related : SameState same first second)
    (propertyMask y x : Nat) :
    Agree (SameState same)
      (Modular.maskPixel left propertyMask lookup y x first)
      (Modular.maskPixel right propertyMask lookup y x second) := by
  unfold Modular.maskPixel
  rw [related.properties, related.channel, related.wp]
  dsimp only
  iterate 5
    apply Agree.bind_same
    intro properties _
  apply agree.decodePixel finds
  exact ⟨rfl, related.input, rfl, rfl, related.localGradient, related.references⟩

/-- The start of a row of the general loop reads no symbol. -/
theorem SameState.generalRow
    {first : PixelLoop σ}
    {second : PixelLoop τ}
    (related : SameState same first second)
    (filtered : FilteredTree)
    (image : Image)
    (chan y : Nat) :
    Agree (SameState same)
      (Modular.generalRow filtered image chan y first)
      (Modular.generalRow filtered image chan y second) := by
  unfold Modular.generalRow
  rw [related.properties, related.channel, related.references]
  dsimp only
  split
  · apply Agree.bind_same
    intro references _
    apply Agree.bind_same
    intro properties _
    exact .ok ⟨rfl, related.input, rfl, related.wp, rfl, rfl⟩
  · apply Agree.bind_same
    intro references _
    apply Agree.bind_same
    intro properties _
    exact .ok ⟨rfl, related.input, rfl, related.wp, rfl, rfl⟩

/-- One pixel of the general loop. -/
theorem SourcesAgree.generalPixel
    (agree : SourcesAgree contexts same left right)
    (finds : FindsContexts contexts lookup)
    {first : PixelLoop σ}
    {second : PixelLoop τ}
    (related : SameState same first second)
    (filtered : FilteredTree)
    (clampGradient : Bool)
    (y x : Nat) :
    Agree (SameState same)
      (Modular.generalPixel left filtered clampGradient lookup y x first)
      (Modular.generalPixel right filtered clampGradient lookup y x second) := by
  unfold Modular.generalPixel
  rw [related.properties, related.channel, related.wp, related.localGradient,
    related.references]
  apply Agree.bind_same
  intro properties _
  apply agree.decodePixel finds
  exact ⟨rfl, related.input, rfl, rfl, rfl, rfl⟩

/-- The loops for the fixed property sets. -/
theorem SourcesAgree.noRefsMaskLoop
    (agree : SourcesAgree contexts same left right)
    (finds : FindsContexts contexts lookup)
    (propertyMask : Nat)
    (wpHeader : Weighted.Header)
    (useWp : Bool)
    (channel : Channel)
    (related : same first second) :
    Agree (SameRead same)
      (decodeModularChannelNoRefsMaskLoop left propertyMask lookup wpHeader useWp
        channel first)
      (decodeModularChannelNoRefsMaskLoop right propertyMask lookup wpHeader useWp
        channel second) := by
  unfold decodeModularChannelNoRefsMaskLoop
  refine Agree.bind (?_ : Agree (SameState same) _ _) ?_
  · apply Agree.forPixels_agree
    case startRow =>
      exact fun _ _ _ _ between => .ok between
    case pixel =>
      exact fun y _ x _ _ _ within => agree.maskPixel finds within propertyMask y x
    case endRow =>
      exact fun _ _ within => within
    case start =>
      exact ⟨rfl, related, rfl, rfl, rfl, rfl⟩
  · exact fun _ _ ended => .ok ended.result

variable {flatTree : List FlatDecisionNode}

/-- So do both forms of the tree for a fixed property set. -/
theorem SourcesAgree.noRefsMask
    (agree : SourcesAgree contexts same left right)
    (leaves : LeafContexts contexts flatTree)
    (propertyMask : Nat)
    (wpHeader : Weighted.Header)
    (useWp : Bool)
    (channel : Channel)
    (related : same first second) :
    Agree (SameRead same)
      (decodeModularChannelNoRefsMask left propertyMask flatTree wpHeader useWp
        channel first)
      (decodeModularChannelNoRefsMask right propertyMask flatTree wpHeader useWp
        channel second) := by
  unfold decodeModularChannelNoRefsMask
  apply Agree.bind_same
  intro remapped isRemapped
  cases isCompact : compactNoRefTree remapped kInlineCompactNoRefTreeNodes with
  | some compactTree =>
      exact agree.noRefsMaskLoop (leaves.finds_compact isRemapped isCompact)
        propertyMask wpHeader useWp channel related
  | none =>
      exact agree.noRefsMaskLoop (leaves.remapped isRemapped).finds propertyMask
        wpHeader useWp channel related

/-- The general property loop. -/
theorem SourcesAgree.decodeGeneral
    (agree : SourcesAgree contexts same left right)
    (leaves : LeafContexts contexts flatTree)
    (filtered : FilteredTree)
    (wpHeader : Weighted.Header)
    (chan : Nat)
    (image : Image)
    (channel : Channel)
    (related : same first second) :
    Agree (SameRead same)
      (Modular.decodeGeneral left filtered flatTree wpHeader chan image channel
        first)
      (Modular.decodeGeneral right filtered flatTree wpHeader chan image channel
        second) := by
  unfold Modular.decodeGeneral
  refine Agree.bind (?_ : Agree (SameState same) _ _) ?_
  · apply Agree.forPixels_agree
    case startRow =>
      exact fun y _ _ _ between => between.generalRow filtered image chan y
    case pixel =>
      exact fun y _ x _ _ _ within =>
        agree.generalPixel leaves.finds within filtered _ y x
    case endRow =>
      exact fun _ _ within => within
    case start =>
      exact ⟨rfl, related, rfl, rfl, rfl, rfl⟩
  · exact fun _ _ ended => .ok ended.result

/-- The track for one leaf with the zero predictor. -/
theorem SourcesAgree.decodeZeroTrack
    (agree : SourcesAgree contexts same left right)
    {leaf : FlatDecisionNode}
    (matters : contexts leaf.childID)
    (channel : Channel)
    (related : same first second) :
    Agree (SameRead same)
      (Modular.decodeZeroTrack left leaf channel first)
      (Modular.decodeZeroTrack right leaf channel second) := by
  apply Agree.forPixels_agree
  case startRow =>
    exact fun _ _ _ _ between => .ok between
  case pixel =>
    rintro y _ x _ ⟨channel₁, first⟩ ⟨channel₂, second⟩ ⟨sameChannel, sameInput⟩
    dsimp only at sameChannel sameInput ⊢
    apply (agree.readNext matters sameInput).bind
    rintro ⟨v, next⟩ ⟨v', next'⟩ ⟨sameValue, sameNext⟩
    dsimp only at sameValue sameNext ⊢
    rw [sameValue, sameChannel]
    exact .ok ⟨rfl, sameNext⟩
  case endRow =>
    exact fun _ _ within => within
  case start =>
    exact ⟨rfl, related⟩

/-- The track for one leaf with the plain gradient predictor. -/
theorem SourcesAgree.decodeGradientTrack
    (agree : SourcesAgree contexts same left right)
    {leaf : FlatDecisionNode}
    (matters : contexts leaf.childID)
    (channel : Channel)
    (related : same first second) :
    Agree (SameRead same)
      (Modular.decodeGradientTrack left leaf channel first)
      (Modular.decodeGradientTrack right leaf channel second) := by
  apply Agree.forPixels_agree
  case startRow =>
    exact fun _ _ _ _ between => .ok between
  case pixel =>
    rintro y _ x _ ⟨channel₁, first⟩ ⟨channel₂, second⟩ ⟨sameChannel, sameInput⟩
    dsimp only at sameChannel sameInput ⊢
    apply (agree.readNext matters sameInput).bind
    rintro ⟨v, next⟩ ⟨v', next'⟩ ⟨sameValue, sameNext⟩
    dsimp only at sameValue sameNext ⊢
    rw [sameValue, sameChannel]
    exact .ok ⟨rfl, sameNext⟩
  case endRow =>
    exact fun _ _ within => within
  case start =>
    exact ⟨rfl, related⟩

/-- The loops after the single leaf tracks. -/
theorem SourcesAgree.decodeWithProperties
    (agree : SourcesAgree contexts same left right)
    (leaves : LeafContexts contexts flatTree)
    (filtered : FilteredTree)
    (wpHeader : Weighted.Header)
    (chan : Nat)
    (image : Image)
    (channel : Channel)
    (related : same first second) :
    Agree (SameRead same)
      (Modular.decodeWithProperties left filtered flatTree wpHeader chan image
        channel first)
      (Modular.decodeWithProperties right filtered flatTree wpHeader chan image
        channel second) := by
  have general :=
    agree.decodeGeneral leaves filtered wpHeader chan image channel related
  unfold Modular.decodeWithProperties
  cases specializedPropertyMask filtered.propertyUse with
  | some propertyMask =>
      dsimp only
      split
      · exact agree.noRefsMask leaves propertyMask wpHeader filtered.useWp channel
          related
      · exact general
  | none =>
      exact general

/-- Whatever track a filtered tree takes. -/
theorem SourcesAgree.decodeFiltered
    (agree : SourcesAgree contexts same left right)
    (leaves : LeafContexts contexts flatTree)
    (onlyLeaf : ∀ leaf, flatTree = [leaf] → leaf.property0 < 0)
    (filtered : FilteredTree)
    (wpHeader : Weighted.Header)
    (chan : Nat)
    (image : Image)
    (channel : Channel)
    (related : same first second) :
    Agree (SameRead same)
      (Modular.decodeFiltered left filtered flatTree wpHeader chan image channel
        first)
      (Modular.decodeFiltered right filtered flatTree wpHeader chan image channel
        second) := by
  have withProperties :=
    agree.decodeWithProperties leaves filtered wpHeader chan image channel related
  unfold Modular.decodeFiltered
  split
  next leaf =>
    have matters : contexts leaf.childID :=
      leaves leaf List.mem_cons_self (onlyLeaf leaf rfl)
    split
    · exact agree.decodeZeroTrack matters channel related
    · split
      · exact agree.decodeGradientTrack matters channel related
      · exact withProperties
  next =>
    exact withProperties

/--
Decoding a channel: from sources that agree in the contexts of the context map
it decodes one image, or fails alike.
-/
theorem SourcesAgree.decodeModularChannelImpl
    {contextMap : List Nat}
    (agree : SourcesAgree (· ∈ contextMap) same left right)
    (globalTree : List PropertyDecisionNode)
    (wpHeader : Weighted.Header)
    (chan groupId : Nat)
    (image : Image)
    (related : same first second) :
    Agree (SameRead same)
      (Modular.decodeModularChannelImpl left contextMap globalTree wpHeader chan
        groupId image first)
      (Modular.decodeModularChannelImpl right contextMap globalTree wpHeader chan
        groupId image second) := by
  unfold Modular.decodeModularChannelImpl decodeChannelWith
  apply Agree.bind_same
  intro channel _
  split
  · exact .ok ⟨rfl, related⟩
  · apply Agree.bind_same
    intro chanProp _
    apply Agree.bind_same
    intro groupProp _
    apply Agree.bind_same
    intro filtered isFiltered
    apply Agree.bind_same
    intro flatTree isMapped
    have onlyLeaf (leaf : FlatDecisionNode)
        (single : flatTree = [leaf]) :
        leaf.property0 < 0 := by
      rw [single] at isMapped
      obtain ⟨node, rest, isNode, noRest, isFlat⟩ :=
        List.forall₂_cons_right_iff.1 (forall₂_of_mapM_eq_ok isMapped)
      rw [List.forall₂_nil_right_iff.1 noRest] at isFlat
      rw [(mapContext_same isNode).1]
      exact leaf_of_wellFormed (wellFormed_of_filterTree isFiltered) isFlat
    apply
      (agree.decodeFiltered (leafContexts_mapContext isMapped) onlyLeaf filtered
        wpHeader chan image channel related).bind
    rintro ⟨decoded, next⟩ ⟨decoded', next'⟩ ⟨sameChannel, sameNext⟩
    dsimp only at sameChannel sameNext ⊢
    rw [sameChannel]
    exact .ok ⟨rfl, sameNext⟩

end Loops

end Jxlz.Modular
