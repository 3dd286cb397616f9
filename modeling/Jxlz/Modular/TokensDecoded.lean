import Jxlz.Base.Raster
import Jxlz.Lib.Replay
import Jxlz.Modular.AlikeLookups
import Jxlz.Modular.EncEncoding
import Jxlz.Modular.ReaderDispatch
import Jxlz.Modular.SpecializedPaths

namespace Jxlz.Modular

open ContextPredict

/-!
# What is tokenized is decoded

The decoder goes through a rectangle as the tokenizer did: both see the same neighbours,
so each token is asked for where it was emitted, and the sample comes out of it.
-/

/-- A prediction only depends on samples of the plane that a scan has passed. -/
theorem neighbors_congr
    {sample other : Nat → Nat → Int32}
    {w y x : Nat}
    (inside : x < w)
    (same :
      ∀ row column,
        Passed y x row column → column < w → sample row column = other row column) :
    Neighbors.at sample w y x = Neighbors.at other w y x := by
  have before {column : Nat} (earlier : column < x) : sample y column = other y column :=
    same y column (.inr ⟨rfl, earlier⟩) (earlier.trans inside)
  have above {row column : Nat} (higher : row < y) (inWidth : column < w) :
      sample row column = other row column :=
    same row column (.inl higher) inWidth
  unfold Neighbors.at
  have left :
      (if 0 < x then (sample y (x - 1)).toInt
        else if 0 < y then (sample (y - 1) x).toInt else 0) =
        if 0 < x then (other y (x - 1)).toInt
        else if 0 < y then (other (y - 1) x).toInt else 0 := by
    split
    · rw [before (by omega)]
    · split
      · rw [above (by omega) inside]
      · rfl
  have guarded {condition : Prop} [Decidable condition] {row column : Nat} {rest : Int}
      (known : condition → sample row column = other row column) :
      (if condition then (sample row column).toInt else rest) =
        if condition then (other row column).toInt else rest := by
    split
    · next holds => rw [known holds]
    · rfl
  dsimp only
  rw [left, guarded fun below => above (by omega) inside,
    guarded fun inner => above (by omega) (by omega),
    guarded fun inner => above (by omega) (by omega), guarded fun inner => before (by omega),
    guarded fun below => above (by omega) inside,
    guarded fun inner => above (by omega) (by omega)]

/-- The properties of an earlier channel only depend on its samples in the plane. -/
theorem fillReferences_congr
    {sample other : Nat → Nat → Int32}
    {w h y : Nat}
    (inside : y < h)
    (same : ∀ row column, row < h → column < w → sample row column = other row column)
    (propertyUse : PropertyUsePlan)
    (narrow : Int → Int32)
    (offset : Nat)
    (references : References) :
    fillReferences propertyUse narrow sample y w offset references =
      fillReferences propertyUse narrow other y w offset references := by
  funext x property
  unfold fillReferences
  by_cases filled :
      x < w ∧ offset ≤ property ∧ property < offset + kExtraPropsPerChannel ∧
        propertyUse.uses (kNumNonrefProperties + property) = true
  · have inWidth := filled.1
    rw [if_pos filled, if_pos filled]
    have values : referenceValues sample y x = referenceValues other y x := by
      unfold referenceValues
      rw [same y x inside inWidth, same y (x - 1) inside (by omega),
        same (y - 1) x (by omega) inWidth, same (y - 1) (x - 1) (by omega) (by omega)]
    rw [values]
  · rw [if_neg filled, if_neg filled]

/-- A token's value becomes the sample that it was made of. -/
theorem makePixel_residual
    {lr : LookupResult}
    {sample : Int32}
    {pred : Int}
    {token : Token}
    (made : residualToken lr sample pred = .ok token) :
    makePixel token.value lr.multiplier pred = sample ∧ token.context.toNat = lr.context := by
  unfold residualToken at made
  obtain ⟨_, _, made⟩ := bind_eq_ok.1 made
  split at made
  · cases made
  · next divides =>
      obtain ⟨value, isValue, made⟩ := bind_eq_ok.1 made
      obtain ⟨context, isContext, made⟩ := bind_eq_ok.1 made
      obtain ⟨isContext, fits⟩ := castU_eq_ok isContext
      cases made
      constructor
      · have whole := Int.ediv_mul_cancel (Int.dvd_of_emod_eq_zero (not_not.1 divides))
        unfold makePixel
        rw [unpackSigned_packSigned, toI32_eq_ok isValue, whole, Int.sub_add_cancel,
          Int32.ofInt_toInt]
      · rw [isContext, UInt32.toNat_ofNat_of_lt' fits]

/-- The part of a channel that a rectangle covers, as a channel of its own. -/
def ChannelRect.extract
    (self : ChannelRect)
    (channel : Channel) :
    Channel :=
  { Channel.create self.rw self.rh channel.hshift channel.vshift with
    sample := self.sample channel }

/-- A source with tokens left gives back the first, in the cluster of its context. -/
def GivesBack
    {σ : Type}
    (contextMap : List Nat)
    (source : SymbolSource σ)
    (left : σ → List Token → Prop) :
    Prop :=
  ∀ token tokens cluster input,
    left input (token :: tokens) →
    contextMap[token.context.toNat]? = some cluster →
    ∃ next, source cluster input = .ok (token.value.toNat, next) ∧ left next tokens

/-- What the tokenizer and the decoder share in front of a pixel. -/
structure InStep
    {σ : Type}
    (clamps : Bool)
    (target : Channel)
    (y x : Nat)
    (written : TokenizeLoop)
    (read : PixelLoop σ) :
    Prop where
  size : read.channel.SameSize target
  passed :
    ∀ row column,
      Passed y x row column →
      column < target.w → read.channel.sample row column = target.sample row column
  properties : SameProperties clamps written.properties read.properties
  gradient : read.localGradient = written.prevGradient
  wp : read.wp = written.wp
  references : read.references = written.references

section Channel

variable {σ : Type} {source : SymbolSource σ} {left : σ → List Token → Prop}
  {tree : List PropertyDecisionNode} {staticProps : List Int32} {filtered : FilteredTree}
  {flatTree : List FlatDecisionNode} {contextMap : List Nat} {channel : Channel}
  {area : ChannelRect}

/-- A tree that the decoder has room for, and a context map with all of its leaves. -/
structure TreeFits
    (contextMap : List Nat)
    (tree : List PropertyDecisionNode) :
    Prop where
  inPlan : ∀ node ∈ tree, node.property < kMaxPropertyIndex
  /-- No split on the gradient lies below the range of its lookup. -/
  gradient :
    ∀ node ∈ tree,
      node.property = kGradientProp → -kGradientLookupRange ≤ node.splitval.toInt
  contexts : ∀ node ∈ tree, node.property = -1 → node.lchild < contextMap.length

theorem withReferences_alike
    {clamps : Bool}
    {written read : Nat → Int32}
    (references : References)
    (x : Nat)
    (isFiltered : filterTree tree staticProps = .ok filtered)
    (same : SameProperties clamps written read) :
    SameProperties clamps
      (if numExtraProps filtered = 0 then written
        else copyReferences filtered.propertyUse.referenceProps references x written)
      (if numExtraProps filtered = 0 then read
        else copyReferences filtered.propertyUse.referenceProps references x read) := by
  split
  · exact same
  · exact copyReferences_alike (references_large isFiltered) same

theorem pixel_replayed
    (givesBack : GivesBack contextMap source left)
    (isFiltered : filterTree tree staticProps = .ok filtered)
    (mapped : filtered.flatTree.mapM (mapContext contextMap) = .ok flatTree)
    (fits : TreeFits contextMap tree)
    {y x : Nat}
    (inWidth : x < area.rw) :
    let clamps := filtered.gradientOnly && gradientLookupCompatible flatTree
    Replays TokenizeLoop.tokens (fun read => left read.input)
      (InStep clamps (area.extract channel) y x)
      (InStep clamps (area.extract channel) y (x + 1))
      (tokenizePixel filtered channel area y x)
      (generalPixel source filtered clamps (MATreeLookup.lookup flatTree) y x) := by
  intro clamps written written' wrote
  unfold tokenizePixel at wrote
  obtain ⟨_, _, wrote⟩ := bind_eq_ok.1 wrote
  dsimp only at wrote
  obtain ⟨properties, isSet, wrote⟩ := bind_eq_ok.1 wrote
  obtain ⟨lr, found, wrote⟩ := bind_eq_ok.1 wrote
  obtain ⟨pred, isPred, wrote⟩ := bind_eq_ok.1 wrote
  obtain ⟨token, isToken, wrote⟩ := bind_eq_ok.1 wrote
  cases wrote
  refine ⟨[token], rfl, fun read rest same isLeft => ?_⟩
  have width : read.channel.w = area.rw := same.size.w
  have sameNeighbors :
      Neighbors.at read.channel.sample read.channel.w y x =
        Neighbors.at (area.sample channel) area.rw y x := by
    rw [width]
    exact neighbors_congr inWidth same.passed
  unfold generalPixel
  dsimp only
  rw [sameNeighbors, same.gradient, same.wp, width]
  obtain ⟨set, isSet', sameSet⟩ :=
    setProperties_alike (pixelProperties_alike x _ _) same.properties isSet
  rw [isSet', ok_bind]
  obtain ⟨sameWp, samePred, sameWeighted⟩ :=
    @predictWeighted_alike clamps properties set
      (filtered.propertyUse.uses kWPProp) y x area.rw
      (Neighbors.at (area.sample channel) area.rw y x) written.wp sameSet
  rw [sameWp, samePred, same.references]
  have sameProperties :=
    withReferences_alike written.references x isFiltered sameWeighted
  obtain ⟨cluster, isCluster, found'⟩ :=
    lookup_alike isFiltered mapped fits.gradient sameProperties found
  obtain ⟨isSample, isContext⟩ := makePixel_residual isToken
  obtain ⟨next, isRead, isLeft'⟩ :=
    givesBack token rest cluster read.input isLeft (by rw [isContext]; exact isCluster)
  unfold decodePixel
  rw [found', ok_bind]
  unfold readNext
  dsimp only
  rw [isRead, ok_bind]
  dsimp only
  rw [castU_ok token.value.toNat_lt, ok_bind, UInt32.ofNat_toNat,
    pure_eq_ok, ok_bind, isPred, ok_bind, isSample]
  refine ⟨_, rfl, ?_, isLeft'⟩
  have size := same.size
  refine ⟨⟨size.w, size.h, size.hshift, size.vshift⟩, ?_, sameProperties, rfl, ?_, rfl⟩
  · intro row column isPassed inTarget
    show (if row = y ∧ column = x then area.sample channel y x
      else read.channel.sample row column) = area.sample channel row column
    split
    · next here => rw [here.1, here.2]
    · next elsewhere =>
        exact same.passed row column ((passed_succ.1 isPassed).resolve_right elsewhere)
          inTarget
  · dsimp only
    rw [width]

/-- Channels of one shift are of one size. -/
def SizedByShift
    (image : Image) :
    Prop :=
  ∀ first ∈ image.channels,
    ∀ second ∈ image.channels,
      first.hshift = second.hshift →
      first.vshift = second.vshift → first.w = second.w ∧ first.h = second.h

/-- The channels have their sizes on a rectangle, and the first of them are decoded. -/
def DecodedBefore
    (rect : Rect)
    (image decoded : Image)
    (count : Nat) :
    Prop :=
  decoded.channels.length = image.channels.length ∧
    ∀ j channel,
      image.channels[j]? = some channel →
      ∃ area shown,
        channelRect channel rect = .ok area ∧
          decoded.channels[j]? = some shown ∧
          shown.SameSize (area.extract channel) ∧
          (j < count → shown.Same (area.extract channel))

variable {image decoded : Image} {rect : Rect} {chan : Nat}

/-- Channels with the same shifts are covered alike. -/
theorem channelRect_congr
    {refChan : Channel}
    (hshift : refChan.hshift = channel.hshift)
    (vshift : refChan.vshift = channel.vshift) :
    channelRect refChan rect = channelRect channel rect := by
  unfold channelRect
  rw [hshift, vshift]

/-- An earlier channel is a reference on both sides, or on none. -/
theorem apart_iff
    (sized : SizedByShift image)
    {refChan shown target : Channel}
    {refArea : ChannelRect}
    (isRefChan : refChan ∈ image.channels)
    (isChannel : channel ∈ image.channels)
    (isRefArea : channelRect refChan rect = .ok refArea)
    (isArea : channelRect channel rect = .ok area)
    (sameShown : shown.SameSize (refArea.extract refChan))
    (sameTarget : target.SameSize (area.extract channel)) :
    (shown.w ≠ target.w ∨ shown.h ≠ target.h ∨ shown.hshift ≠ target.hshift ∨
        shown.vshift ≠ target.vshift) ↔
      refChan.w ≠ channel.w ∨ refChan.h ≠ channel.h ∨
        refChan.hshift ≠ channel.hshift ∨ refChan.vshift ≠ channel.vshift := by
  rw [sameShown.w, sameShown.h, sameShown.hshift, sameShown.vshift, sameTarget.w,
    sameTarget.h, sameTarget.hshift, sameTarget.vshift]
  dsimp only [ChannelRect.extract, Channel.create]
  by_cases shifts : refChan.hshift = channel.hshift ∧ refChan.vshift = channel.vshift
  · rw [channelRect_congr shifts.1 shifts.2, isArea] at isRefArea
    cases isRefArea
    have sizes := sized refChan isRefChan channel isChannel shifts.1 shifts.2
    simp [shifts, sizes]
  · omega

theorem precompute_same
    (sized : SizedByShift image)
    (isChannel : image.channels[chan]? = some channel)
    (isArea : channelRect channel rect = .ok area)
    {target : Channel}
    (sameSize : target.SameSize (area.extract channel))
    (before : DecodedBefore rect image decoded chan)
    {y : Nat}
    (inHeight : y < area.rh)
    {propertyUse : PropertyUsePlan}
    {extra count offset : Nat}
    {references result : References}
    (few : count ≤ chan)
    (computed :
      precomputeReferencesRect channel area y image propertyUse extra count offset
          references =
        .ok result) :
    precomputeReferences target y decoded propertyUse extra count offset references =
      .ok result := by
  induction count generalizing offset references with
  | zero =>
      exact computed
  | succ j inductionHypothesis =>
      have others {offset : Nat} {references : References} :=
        @inductionHypothesis offset references (Nat.le_of_succ_le few)
      unfold precomputeReferencesRect at computed
      unfold precomputeReferences
      split at computed
      · next more =>
          rw [if_pos more]
          obtain ⟨refChan, isRefChan, computed⟩ := bind_eq_ok.1 computed
          have isRefChan := index_eq_ok.1 isRefChan
          obtain ⟨refArea, shown, isRefArea, isShown, _, same⟩ :=
            before.2 j refChan isRefChan
          have same := same few
          rw [index_eq_ok.2 isShown, ok_bind]
          have apart :=
            apart_iff sized (List.mem_of_getElem? isRefChan)
              (List.mem_of_getElem? isChannel) isRefArea isArea same.toSameSize sameSize
          split at computed
          · next isApart =>
              rw [if_pos (apart.2 isApart)]
              exact others computed
          · next alike =>
              obtain ⟨_, _, computed⟩ := bind_eq_ok.1 computed
              rw [if_neg fun isApart => alike (apart.1 isApart)]
              have shifts : refChan.hshift = channel.hshift ∧
                  refChan.vshift = channel.vshift := by
                omega
              rw [channelRect_congr shifts.1 shifts.2, isArea] at isRefArea
              cases isRefArea
              have width : target.w = area.rw := sameSize.w
              have filled :
                  fillReferences propertyUse Int32.ofInt shown.sample y area.rw offset
                      references =
                    fillReferences propertyUse Int32.ofInt (area.sample refChan) y area.rw
                      offset references :=
                fillReferences_congr inHeight same.sample _ _ _ _
              rw [width, filled]
              exact others computed
      · next done =>
          rw [if_neg done]
          exact computed

/-- The start of a row emits nothing. -/
theorem tokens_tokenizeRow
    {y : Nat}
    {written written' : TokenizeLoop}
    (wrote : tokenizeRow filtered image channel area chan y written = .ok written') :
    written'.tokens = written.tokens := by
  unfold tokenizeRow at wrote
  obtain ⟨_, _, wrote⟩ := bind_eq_ok.1 wrote
  split at wrote
  all_goals
    obtain ⟨references, _, wrote⟩ := bind_eq_ok.1 wrote
    obtain ⟨properties, _, wrote⟩ := bind_eq_ok.1 wrote
    cases wrote
    rfl

theorem row_replayed
    {clamps : Bool}
    (sized : SizedByShift image)
    (isChannel : image.channels[chan]? = some channel)
    (isArea : channelRect channel rect = .ok area)
    (before : DecodedBefore rect image decoded chan)
    {y : Nat}
    (inHeight : y < area.rh) :
    Replays TokenizeLoop.tokens (fun read : PixelLoop σ => left read.input)
      (InStep clamps (area.extract channel) y 0) (InStep clamps (area.extract channel) y 0)
      (tokenizeRow filtered image channel area chan y)
      (generalRow filtered decoded chan y) := by
  intro written written' wrote
  refine ⟨[], ?_, fun read rest same isLeft => ?_⟩
  · rw [tokens_tokenizeRow wrote, List.append_nil]
  unfold tokenizeRow at wrote
  obtain ⟨_, _, wrote⟩ := bind_eq_ok.1 wrote
  have setRow
      {properties : Nat → Int32}
      (isSet :
        setProperty (filtered.propertyUse.uses 2) 2 (toI32 y) written.properties =
          .ok properties) :=
    @setProperty_alike clamps written.properties properties read.properties
      filtered.propertyUse.uses 2 (toI32 y) (toI32 y) same.properties
      ⟨rfl, fun value isValue => by
        rw [clampedProperty_other (show 2 ≠ kGradientProp by decide)]
        exact isValue⟩ isSet
  unfold generalRow
  split at wrote
  · next none =>
      obtain ⟨references, areReferences, wrote⟩ := bind_eq_ok.1 wrote
      obtain ⟨properties, isSet, wrote⟩ := bind_eq_ok.1 wrote
      cases areReferences
      cases wrote
      obtain ⟨set, isSet', sameSet⟩ := setRow isSet
      rw [if_pos none, isSet']
      exact ⟨_, rfl,
        ⟨same.size, same.passed, sameSet, rfl, same.wp, same.references⟩, isLeft⟩
  · next some =>
      obtain ⟨references, areReferences, wrote⟩ := bind_eq_ok.1 wrote
      obtain ⟨properties, isSet, wrote⟩ := bind_eq_ok.1 wrote
      cases wrote
      obtain ⟨set, isSet', sameSet⟩ := setRow isSet
      rw [if_neg some,
        precompute_same sized isChannel isArea same.size before inHeight (Nat.le_refl _)
          areReferences, isSet']
      exact ⟨_, rfl, ⟨same.size, same.passed, sameSet, rfl, same.wp, rfl⟩, isLeft⟩

/-- The general loop restores the part of the channel that was tokenized. -/
theorem decodeGeneral_restores
    (givesBack : GivesBack contextMap source left)
    (isFiltered : filterTree tree staticProps = .ok filtered)
    (mapped : filtered.flatTree.mapM (mapContext contextMap) = .ok flatTree)
    (fits : TreeFits contextMap tree)
    (sized : SizedByShift image)
    (isChannel : image.channels[chan]? = some channel)
    (isArea : channelRect channel rect = .ok area)
    (before : DecodedBefore rect image decoded chan)
    {properties : Nat → Int32}
    (noOthers : ∀ property, kNumStaticProperties ≤ property → properties property = 0)
    {state : TokenizeLoop}
    (tokenized :
      forPixels area.rh area.rw (tokenizeRow filtered image channel area chan)
          (tokenizePixel filtered channel area)
          { properties
            wp := if filtered.useWp then some (Weighted.State.init .initial) else none } =
        .ok state)
    {blank : Channel}
    (sameSize : blank.SameSize (area.extract channel))
    {input : σ}
    {rest : List Token}
    (isLeft : left input (state.tokens ++ rest)) :
    ∃ shown next,
      decodeGeneral source filtered flatTree .initial chan decoded blank input =
          .ok (shown, next) ∧
        shown.Same (area.extract channel) ∧ left next rest := by
  generalize isClamp :
    (filtered.gradientOnly && gradientLookupCompatible flatTree) = clamps
  have replays :=
    @Replays.pixels _ _ _ _ TokenizeLoop.tokens (fun read : PixelLoop σ => left read.input)
      (fun y => InStep clamps (area.extract channel) y 0)
      (InStep clamps (area.extract channel)) area.rh area.rw
      (tokenizeRow filtered image channel area chan) (generalRow filtered decoded chan)
      (tokenizePixel filtered channel area)
      (generalPixel source filtered clamps (MATreeLookup.lookup flatTree))
      (fun y inHeight => row_replayed sized isChannel isArea before inHeight)
      (fun y x _ inWidth => isClamp ▸ pixel_replayed givesBack isFiltered mapped fits inWidth)
      (fun y written read same =>
        ⟨same.size, fun row column isPassed inWidth =>
          same.passed row column ((passed_next_row inWidth).1 isPassed) inWidth,
          same.properties, same.gradient, same.wp, same.references⟩)
  obtain ⟨items, isEmitted, takes⟩ := replays _ _ tokenized
  obtain rfl : state.tokens = items := isEmitted
  obtain ⟨read, ran, same, isLeft⟩ :=
    takes
      { channel := blank
        input
        wp := if filtered.useWp then some (Weighted.State.init .initial) else none }
      rest
      ⟨sameSize, fun row column isPassed => absurd isPassed (not_passed_start row column),
        fun property dynamic => by
          dsimp only
          rw [noOthers property dynamic, clampedProperty]
          split
          · decide
          · rfl, rfl, rfl, rfl⟩ isLeft
  refine ⟨read.channel, read.input, ?_, ⟨same.size, ?_⟩, isLeft⟩
  · unfold decodeGeneral
    dsimp only
    rw [isClamp, sameSize.h, sameSize.w]
    rw [show (area.extract channel).h = area.rh from rfl,
      show (area.extract channel).w = area.rw from rfl, ran]
    rfl
  · intro row column inHeight inWidth
    exact same.passed row column (passed_end.2 inHeight) inWidth

/-- The part of a channel that has no pixels has no tokens. -/
theorem tokens_of_empty
    {properties : Nat → Int32}
    {wp : Option Weighted.State}
    {state : TokenizeLoop}
    (empty : area.rw = 0 ∨ area.rh = 0)
    (tokenized :
      forPixels area.rh area.rw (tokenizeRow filtered image channel area chan)
          (tokenizePixel filtered channel area) { properties, wp } =
        .ok state) :
    state.tokens = [] := by
  unfold forPixels at tokenized
  rcases empty with noColumns | noRows
  · rw [noColumns] at tokenized
    refine
      foldlM_range_of_ok (fun _ (written : TokenizeLoop) => written.tokens = []) tokenized rfl
        fun y written written' _ wrote isEmpty => ?_
    obtain ⟨started, isStarted, wrote⟩ := bind_eq_ok.1 wrote
    cases wrote
    exact (tokens_tokenizeRow isStarted).trans isEmpty
  · rw [noRows] at tokenized
    cases tokenized
    rfl

/-- A context map with an entry for every leaf maps the filtered tree. -/
theorem mapContext_ok
    (fits : TreeFits contextMap tree)
    (isFiltered : filterTree tree staticProps = .ok filtered) :
    ∃ flatTree, filtered.flatTree.mapM (mapContext contextMap) = .ok flatTree := by
  refine
    ⟨filtered.flatTree.map fun node =>
      if node.property0 < 0 then { node with childID := contextMap.getD node.childID 0 }
      else node, mapM_ok fun node member => ?_⟩
  unfold mapContext
  split
  · next isLeaf =>
      obtain ⟨leaf, inTree, isLeaf', same⟩ := exists_leaf_of_filterTree isFiltered member isLeaf
      have inside := fits.contexts leaf inTree isLeaf'
      rw [same] at inside
      rw [index_eq_ok.2 (List.getElem?_eq_getElem inside), ok_bind,
        List.getD_eq_getElem _ _ inside]
      rfl
  · rfl

/-- One more channel is decoded. -/
theorem DecodedBefore.next
    (before : DecodedBefore rect image decoded chan)
    (isChannel : image.channels[chan]? = some channel)
    (isArea : channelRect channel rect = .ok area)
    {shown : Channel}
    (same : shown.Same (area.extract channel))
    {result : Image}
    (isShown : result.channels[chan]? = some shown)
    (length : result.channels.length = decoded.channels.length)
    (others :
      ∀ other, other ≠ chan → result.channels[other]? = decoded.channels[other]?) :
    DecodedBefore rect image result (chan + 1) := by
  refine ⟨length.trans before.1, fun other otherChannel isOther => ?_⟩
  by_cases atChan : other = chan
  · subst atChan
    obtain rfl : channel = otherChannel := Option.some.inj (isChannel.symm.trans isOther)
    exact ⟨area, shown, isArea, isShown, same.toSameSize, fun _ => same⟩
  · obtain ⟨otherArea, otherShown, isOtherArea, isOtherShown, sameSize, sameAgain⟩ :=
      before.2 other otherChannel isOther
    exact ⟨otherArea, otherShown, isOtherArea, (others other atChan).trans isOtherShown,
      sameSize, fun earlier => sameAgain (by omega)⟩

/-- Decoding a channel restores the part of it that was tokenized. -/
theorem decodeModularChannelImpl_restores
    (givesBack : GivesBack contextMap source left)
    (fits : TreeFits contextMap tree)
    (sized : SizedByShift image)
    (before : DecodedBefore rect image decoded chan)
    {groupId : Nat}
    {tokens rest : List Token}
    (tokenized :
      tokenizeGlobalTreeChannelRectImpl image chan groupId tree rect true true = .ok tokens)
    {blank : Channel}
    (isBlank : decoded.channels[chan]? = some blank)
    {input : σ}
    (isLeft : left input (tokens ++ rest)) :
    (blank.w = 0 ∨ blank.h = 0 →
      DecodedBefore rect image decoded (chan + 1) ∧ left input rest) ∧
      (¬ (blank.w = 0 ∨ blank.h = 0) →
        ∃ result next,
          decodeModularChannelImpl source contextMap tree .initial chan groupId decoded
              input =
              .ok (result, next) ∧
            DecodedBefore rect image result (chan + 1) ∧ left next rest) := by
  unfold tokenizeGlobalTreeChannelRectImpl at tokenized
  obtain ⟨channel, isChannel, tokenized⟩ := bind_eq_ok.1 tokenized
  have isChannel := index_eq_ok.1 isChannel
  split at tokenized
  · cases tokenized
  obtain ⟨chanProp, isChanProp, tokenized⟩ := bind_eq_ok.1 tokenized
  obtain ⟨groupProp, isGroupProp, tokenized⟩ := bind_eq_ok.1 tokenized
  obtain ⟨filtered, isFiltered, tokenized⟩ := bind_eq_ok.1 tokenized
  split at tokenized
  · cases tokenized
  obtain ⟨area, isArea, tokenized⟩ := bind_eq_ok.1 tokenized
  dsimp only at tokenized
  obtain ⟨state, scanned, isTokens⟩ := bind_eq_ok.1 tokenized
  cases isTokens
  obtain ⟨blankArea, shown, isBlankArea, isShown, sameSize, _⟩ :=
    before.2 chan channel isChannel
  obtain rfl : area = blankArea := Except.ok.inj (isArea.symm.trans isBlankArea)
  obtain rfl : blank = shown := Option.some.inj (isBlank.symm.trans isShown)
  constructor
  · intro empty
    have noPixels : area.rw = 0 ∨ area.rh = 0 :=
      empty.imp sameSize.w.symm.trans sameSize.h.symm.trans
    rw [tokens_of_empty noPixels scanned, List.nil_append] at isLeft
    refine ⟨before.next isChannel isArea ⟨sameSize, ?_⟩ isBlank rfl fun _ _ => rfl, isLeft⟩
    intro row column inHeight inWidth
    have inHeight : row < area.rh := inHeight
    have inWidth : column < area.rw := inWidth
    omega
  · intro nonempty
    obtain ⟨flatTree, mapped⟩ := mapContext_ok fits isFiltered
    obtain ⟨result, next, ran, same, isLeft'⟩ :=
      decodeGeneral_restores givesBack isFiltered mapped fits sized isChannel isArea before
        (fun property dynamic => by
          have dynamic : 2 ≤ property := dynamic
          rw [Function.update_of_ne (by omega), Function.update_of_ne (by omega)])
        scanned sameSize isLeft
    refine ⟨decoded.setChannel chan result, next, ?_, ?_, isLeft'⟩
    · rw [decodeModularChannelImpl_eq fits.inPlan]
      unfold decodeModularChannelGeneral decodeChannelWith
      rw [index_eq_ok.2 isBlank, ok_bind, if_neg nonempty, isChanProp, ok_bind, isGroupProp,
        ok_bind, isFiltered, ok_bind, mapped, ok_bind]
      dsimp only
      rw [ran]
      rfl
    · refine before.next isChannel isArea same ?_ (List.length_set) fun other elsewhere => ?_
      · exact List.getElem?_set_self (List.getElem?_eq_some_iff.1 isBlank).1
      · exact List.getElem?_set_ne (Ne.symm elsewhere)

end Channel

/-- What is left to read are the values of tokens, up to a last state of the reader. -/
def ReadsTokens
    (contextMap : List Nat)
    (last input : ReaderInput)
    (tokens : List Token) :
    Prop :=
  input.1.readHybridUints input.2 contextMap
      (tokens.map fun token => token.context.toNat) =
    .ok (tokens.map fun token => token.value.toNat, last)

theorem readsTokens_givesBack
    (contextMap : List Nat)
    (last : ReaderInput) :
    GivesBack contextMap readHybridUintClusteredReference (ReadsTokens contextMap last) := by
  intro token tokens cluster input reads isCluster
  unfold ReadsTokens at reads
  rw [List.map_cons, List.map_cons, ANSSymbolReader.readHybridUints] at reads
  obtain ⟨⟨value, self, br⟩, isRead, reads⟩ := bind_eq_ok.1 reads
  obtain ⟨⟨values, self', br'⟩, areRead, reads⟩ := bind_eq_ok.1 reads
  cases reads
  rw [ANSSymbolReader.readHybridUint, index_eq_ok.2 isCluster, ok_bind] at isRead
  exact ⟨(self, br), isRead, areRead⟩

section Image

variable {tree : List PropertyDecisionNode} {contextMap : List Nat} {image : Image}
  {rect : Rect} {groupId nbMetaChannels maxChanSize : Nat}

/-- The tokens of a channel behind the tokens of the channels before it. -/
def tokenizeChannel
    (image : Image)
    (rect : Rect)
    (groupId : Nat)
    (tree : List PropertyDecisionNode)
    (tokens : List Token)
    (chan : Nat) :
    Checked (List Token) := do
  let channelTokens ←
    tokenizeGlobalTreeChannelRectImpl image chan groupId tree rect true true
  return tokens ++ channelTokens

/-- The channels from one on are decoded from the tokens that they were made to. -/
theorem decodeModularChannels_restores
    (fits : TreeFits contextMap tree)
    (sized : SizedByShift image)
    (small :
      ∀ chan channel area,
        nbMetaChannels ≤ chan →
        image.channels[chan]? = some channel →
        channelRect channel rect = .ok area →
        area.rw ≤ maxChanSize ∧ area.rh ≤ maxChanSize)
    {last : ReaderInput}
    {count : Nat} :
    ∀ {chan : Nat} {tokens tokens' : List Token},
      chan + count = image.channels.length →
      (List.range' chan count).foldlM (tokenizeChannel image rect groupId tree) tokens =
        .ok tokens' →
      ∃ items,
        tokens' = tokens ++ items ∧
          ∀ decoded input,
            DecodedBefore rect image decoded chan →
            ReadsTokens contextMap last input items →
            ∃ result,
              decodeModularChannels .reference contextMap tree .initial nbMetaChannels
                  maxChanSize groupId (List.range' chan count) decoded input =
                  .ok (result, last) ∧
                DecodedBefore rect image result (chan + count) := by
  induction count with
  | zero =>
      intro chan tokens tokens' _ ran
      cases ran
      refine ⟨[], (List.append_nil _).symm, fun decoded input before reads => ?_⟩
      cases reads
      exact ⟨decoded, rfl, before⟩
  | succ count inductionHypothesis =>
      intro chan tokens tokens' isLength ran
      rw [List.range'_succ, List.foldlM_cons] at ran
      obtain ⟨_, first, ran⟩ := bind_eq_ok.1 ran
      obtain ⟨channelTokens, tokenized, isMore⟩ := bind_eq_ok.1 first
      cases isMore
      obtain ⟨items, isTokens, decodes⟩ := inductionHypothesis (by omega) ran
      refine ⟨channelTokens ++ items, ?_, fun decoded input before reads => ?_⟩
      · rw [isTokens, List.append_assoc]
      have inImage : chan < image.channels.length := by omega
      obtain ⟨area, blank, isArea, isBlank, sameSize, _⟩ :=
        before.2 chan _ (List.getElem?_eq_getElem inImage)
      have limited (behindMeta : nbMetaChannels ≤ chan) :=
        small chan _ area behindMeta (List.getElem?_eq_getElem inImage) isArea
      obtain ⟨skipped, decodesChannel⟩ :=
        decodeModularChannelImpl_restores (readsTokens_givesBack contextMap last) fits sized
          before tokenized isBlank reads
      rw [List.range'_succ, decodeModularChannels, index_eq_ok.2 isBlank, ok_bind, if_neg]
      · split
        · next empty =>
            obtain ⟨before', reads'⟩ := skipped empty
            obtain ⟨result, isResult, restored⟩ := decodes decoded input before' reads'
            exact ⟨result, isResult, by rwa [Nat.add_right_comm] at restored⟩
        · next nonempty =>
            obtain ⟨next, input', isNext, before', reads'⟩ := decodesChannel nonempty
            obtain ⟨result, isResult, restored⟩ := decodes next input' before' reads'
            refine ⟨result, ?_, by rwa [Nat.add_right_comm] at restored⟩
            rw [decodeModularChannelWithReaderStrategy, if_pos rfl,
              decodeModularChannelReference, isNext]
            exact isResult
      · rintro ⟨behindMeta, large⟩
        have width : blank.w = area.rw := sameSize.w
        have height : blank.h = area.rh := sameSize.h
        have limited := limited behindMeta
        omega

variable {extracted decoded : Image}

/-- An extracted rectangle has the parts of all channels. -/
theorem extracted_parts
    (isExtracted : extractImageRect image rect = .ok extracted) :
    List.Forall₂
      (fun channel part =>
        ∃ area, channelRect channel rect = .ok area ∧ part = area.extract channel)
      image.channels extracted.channels := by
  unfold extractImageRect at isExtracted
  obtain ⟨channels, areChannels, isExtracted⟩ := bind_eq_ok.1 isExtracted
  cases isExtracted
  refine (forall₂_of_mapM_eq_ok areChannels).imp fun channel part isPart => ?_
  obtain ⟨area, isArea, isPart⟩ := bind_eq_ok.1 isPart
  obtain ⟨_, _, isPart⟩ := bind_eq_ok.1 isPart
  exact ⟨area, isArea, (Except.ok.inj isPart).symm⟩

theorem extracted_channel
    (isExtracted : extractImageRect image rect = .ok extracted)
    {chan : Nat}
    {channel : Channel}
    (isChannel : image.channels[chan]? = some channel) :
    ∃ area,
      channelRect channel rect = .ok area ∧
        extracted.channels[chan]? = some (area.extract channel) := by
  have parts := extracted_parts isExtracted
  obtain ⟨inImage, rfl⟩ := List.getElem?_eq_some_iff.1 isChannel
  have inExtracted := parts.length_eq ▸ inImage
  obtain ⟨area, isArea, isPart⟩ := parts.get inImage inExtracted
  exact ⟨area, isArea, List.getElem?_eq_some_iff.2 ⟨inExtracted, isPart⟩⟩

/-- An image of the rectangle's sizes is one to start from. -/
theorem decodedBefore_blank
    (isExtracted : extractImageRect image rect = .ok extracted)
    {blank : Image}
    (sameSizes : blank.SameSizes extracted) :
    DecodedBefore rect image blank 0 := by
  have length := sameSizes.length_eq
  refine ⟨length.trans (extracted_parts isExtracted).length_eq.symm,
    fun chan channel isChannel => ?_⟩
  obtain ⟨area, isArea, isPart⟩ := extracted_channel isExtracted isChannel
  obtain ⟨inExtracted, isPart⟩ := List.getElem?_eq_some_iff.1 isPart
  have inBlank : chan < blank.channels.length := length ▸ inExtracted
  refine ⟨area, _, isArea, List.getElem?_eq_getElem inBlank, ?_, fun none => by omega⟩
  rw [← isPart]
  exact sameSizes.get inBlank inExtracted

/-- An image with all channels decoded is the rectangle. -/
theorem DecodedBefore.same
    (isExtracted : extractImageRect image rect = .ok extracted)
    (restored : DecodedBefore rect image decoded image.channels.length) :
    decoded.Same extracted := by
  have length := (extracted_parts isExtracted).length_eq
  refine Image.same_of_chan (restored.1.trans length) fun chan inExtracted => ?_
  have inImage : chan < image.channels.length := length ▸ inExtracted
  have isChannel := List.getElem?_eq_getElem inImage
  obtain ⟨area, isArea, isPart⟩ := extracted_channel isExtracted isChannel
  obtain ⟨area', shown, isArea', isShown, _, same⟩ := restored.2 chan _ isChannel
  obtain rfl : area = area' := Except.ok.inj (isArea.symm.trans isArea')
  unfold Image.chan
  rw [List.getD_eq_getElem?_getD, List.getD_eq_getElem?_getD, isShown, isPart]
  exact same inImage

/--
A rectangle of an image comes back from its tokens.  If a symbol reader gives back the values
of the tokens in the order of their contexts and ends in the checksum state, then decoding
the channels into any image of the rectangle's sizes gives the samples of the rectangle,
whatever tracks the decoder chooses, and leaves the bits where the reader left them.
-/
theorem imageRectTokens_roundTrip
    (fits : TreeFits contextMap tree)
    (sized : SizedByShift image)
    (isExtracted : extractImageRect image rect = .ok extracted)
    {tokens : List Token}
    (tokenized :
      appendGlobalTreeImageRectTokensWPRefs image rect groupId tree [] = .ok tokens)
    {code : ANSCode}
    {br start : BitReader}
    {distanceMultiplier : Nat}
    {reader : ANSSymbolReader}
    (created : ANSSymbolReader.create code br distanceMultiplier = .ok (reader, start))
    {last : ReaderInput}
    (reads :
      reader.readHybridUints start contextMap
          (tokens.map fun token => token.context.toNat) =
        .ok (tokens.map fun token => token.value.toNat, last))
    (ended : last.1.checkANSFinalState = true)
    (small :
      ∀ chan channel,
        nbMetaChannels ≤ chan →
        extracted.channels[chan]? = some channel →
        channel.w ≤ maxChanSize ∧ channel.h ≤ maxChanSize)
    {blank : Image}
    (sameSizes : blank.SameSizes extracted) :
    ∃ decoded,
      decodeChannelData .reference code contextMap tree .initial nbMetaChannels maxChanSize
          distanceMultiplier groupId blank br =
          .ok (decoded, last.2) ∧
        decoded.Same extracted := by
  have blankSizes := decodedBefore_blank isExtracted sameSizes
  unfold appendGlobalTreeImageRectTokensWPRefs at tokenized
  split at tokenized
  · cases tokenized
  rw [List.range_eq_range'] at tokenized
  obtain ⟨items, isTokens, decodes⟩ :=
    decodeModularChannels_restores fits sized
      (fun chan channel area behindMeta isChannel isArea => by
        obtain ⟨area', isArea', isPart⟩ := extracted_channel isExtracted isChannel
        obtain rfl : area = area' := Except.ok.inj (isArea.symm.trans isArea')
        exact small chan _ behindMeta isPart)
      (Nat.zero_add _) tokenized
  obtain rfl : tokens = items := isTokens
  obtain ⟨decoded, ran, restored⟩ := decodes blank (reader, start) blankSizes reads
  rw [Nat.zero_add] at restored
  refine ⟨decoded, ?_, restored.same isExtracted⟩
  unfold decodeChannelData
  rw [created, ok_bind, blankSizes.1, List.range_eq_range', ran, ok_bind]
  dsimp only
  rw [if_pos ended]
  rfl

end Image

section TwoSymbols

/-- A tree that predicts from the left or by the gradient. -/
def twoPredictors : List PropertyDecisionNode :=
  [.split kGradientProp (-1) 1 2, .leaf .left 0 1,
    { PropertyDecisionNode.leaf .gradient 0 1 with lchild := 1 }]

/-- A channel whose last two columns have residuals of a code of two symbols. -/
def threeColumns : Channel :=
  { Channel.create 3 2 0 0 with
    sample := fun y x => if y = 0 then -1 else if x = 1 then -2 else -3 }

/-- The last two columns come back from their tokens. -/
theorem imageRectTokens_roundTrip_twoSymbols :
    ∃ code br decoded after,
      decodeHistograms 1 (BitReader.init twoSymbols) = .ok ([0], code, br) ∧
        decodeChannelData .reference code [0, 0] twoPredictors .initial 0 8 0 0
            { channels := [.create 2 2 0 0] } br =
            .ok (decoded, after) ∧
          (decoded.chan 0).sample 1 1 = -3 := by
  have ran :
      (do
          let read ← decodeHistograms 1 (BitReader.init twoSymbols)
          let created ← ANSSymbolReader.create read.2.1 read.2.2 0
          let tokens ←
            appendGlobalTreeImageRectTokensWPRefs { channels := [threeColumns] }
              { x0 := 1, y0 := 0, xsize := 2, ysize := 2 } 0 twoPredictors []
          let values ←
            created.1.readHybridUints created.2 [0, 0]
              (tokens.map fun token => token.context.toNat)
          return (read.1, decide (values.1 = tokens.map fun token => token.value.toNat),
            values.2.1.checkANSFinalState)) =
        (.ok ([0], true, true) : Checked (List Nat × Bool × Bool)) := by
    decide +kernel
  obtain ⟨⟨contextMap, code, br⟩, isCode, ran⟩ := bind_eq_ok.1 ran
  obtain ⟨⟨reader, start⟩, created, ran⟩ := bind_eq_ok.1 ran
  obtain ⟨tokens, tokenized, ran⟩ := bind_eq_ok.1 ran
  obtain ⟨⟨values, last⟩, reads, ran⟩ := bind_eq_ok.1 ran
  simp only [pure_eq_ok, Except.ok.injEq, Prod.mk.injEq, decide_eq_true_eq] at ran
  obtain ⟨rfl, rfl, ended⟩ := ran
  have isExtracted :
      extractImageRect { channels := [threeColumns] }
          { x0 := 1, y0 := 0, xsize := 2, ysize := 2 } =
        .ok { channels := [ChannelRect.extract ⟨1, 0, 2, 2⟩ threeColumns] } :=
    rfl
  obtain ⟨decoded, isDecoded, same⟩ :=
    imageRectTokens_roundTrip ⟨by decide, by decide, by decide⟩
      (by
        intro first inFirst second inSecond _ _
        rw [List.mem_singleton.1 inFirst, List.mem_singleton.1 inSecond]
        exact ⟨rfl, rfl⟩)
      isExtracted tokenized created reads ended
      (by
        intro chan channel _ isChannel
        rw [List.mem_singleton.1 (List.mem_of_getElem? isChannel)]
        exact (show 2 ≤ 8 ∧ 2 ≤ 8 by decide))
      (show Image.SameSizes { channels := [.create 2 2 0 0] } _ from
        .cons ⟨rfl, rfl, rfl, rfl⟩ .nil)
  exact ⟨code, br, decoded, last.2, isCode, isDecoded,
    ((same.chan (show 0 < 1 by decide)).sample 1 1 (by decide) (by decide))⟩

end TwoSymbols

end Jxlz.Modular
