import Jxlz.Codec.GroupAssembly

namespace Jxlz.ModularFrameDecoder

/-!
# Exactness of `decodeGroup`

The sections of a frame are assembled exactly whatever they decode to, unless
a channel that a group misses comes before one that it covers.
-/

/-- Decoding and undoing the transforms of a group keeps its channel sizes. -/
def KeepsSizes
    (decompress : Nat → ModularImage → Checked ModularImage) :
    Prop :=
  ∀ stream image decoded,
    decompress stream image = .ok decoded →
    decoded.SameSizes image.toImage

/-- The channels that are tiled across sections. -/
def tiled
    (self : ModularFrameDecoder) :
    List Channel :=
  self.full_image.channels.drop self.firstLarge

/-- The stream id of a section. -/
def sectionId
    (self : ModularFrameDecoder)
    (group_id pass_id : Nat)
    (is_dc : Bool) :
    Checked Nat :=
  (if is_dc then ModularStreamId.modularDC group_id
    else ModularStreamId.modularAC group_id pass_id).id self.frame_dim

/-- The empty group image of a section. -/
def groupImage
    (self : ModularFrameDecoder)
    (area : GroupArea)
    (range : Passes.ShiftRange) :
    ModularImage :=
  { channels := self.tiled.filterMap (groupChannel area range)
    bitdepth := self.full_image.bitdepth }

/-- The frame after a section was decoded into some of its channels. -/
def withTiled
    (self : ModularFrameDecoder)
    (channels : List Channel) :
    ModularFrameDecoder :=
  { self with
    full_image.channels :=
      self.full_image.channels.take self.firstLarge ++ channels }

/--
A section is assembled exactly: its decoded channels are stored where they
belong, and every other sample of the frame is as before.
-/
structure GroupExact
    (decompress : Nat → ModularImage → Checked ModularImage)
    (before : ModularFrameDecoder)
    (group_id pass_id : Nat)
    (is_dc : Bool)
    (after : ModularFrameDecoder) :
    Prop where
  beyond :
    groupArea before.frame_dim group_id is_dc = .ok none →
      after = before
  within :
    ∀ area range,
      groupArea before.frame_dim group_id is_dc = .ok (some area) →
      sectionRange before.passes pass_id is_dc = .ok range →
      ∃ decoded result,
        after = before.withTiled result ∧
          Assembled area range before.tiled decoded result ∧
          ((before.groupImage area range).channels ≠ [] →
            ∃ stream gi,
              before.sectionId group_id pass_id is_dc = .ok stream ∧
                decompress stream (before.groupImage area range) =
                  .ok gi ∧
                decoded = gi.channels)

theorem withTiled_tiled
    (self : ModularFrameDecoder) :
    self.withTiled self.tiled = self := by
  unfold withTiled tiled
  rw [List.take_append_drop]

/-- A group without an extent covers no channel. -/
theorem groupChannel_empty
    {area : GroupArea}
    (empty : area.size = 0)
    (range : Passes.ShiftRange)
    (fch : Channel) :
    groupChannel area range fch = none := by
  cases created : groupChannel area range fch with
  | none =>
      rfl
  | some channel =>
      obtain ⟨_, isChannel, wide, _⟩ := groupChannel_eq_some created
      have noWidth :
          groupChannelExtent fch.w area.x0 area.size fch.hshift = 0 := by
        unfold groupChannelExtent
        rw [empty]
        split_ifs <;> simp
      rw [isChannel] at wide
      simp only [Channel.create, noWidth] at wide
      cases wide

/-- How a section succeeds. -/
inductive GroupRun
    (decompress : Nat → ModularImage → Checked ModularImage)
    (self : ModularFrameDecoder)
    (group_id pass_id : Nat)
    (is_dc : Bool)
    (after : ModularFrameDecoder) :
    Prop where
  | beyond
      (area : groupArea self.frame_dim group_id is_dc = .ok none)
      (same : after = self)
  | uncovered
      (area : GroupArea)
      (range : Passes.ShiftRange)
      (isArea : groupArea self.frame_dim group_id is_dc = .ok (some area))
      (isRange : sectionRange self.passes pass_id is_dc = .ok range)
      (none : (self.groupImage area range).channels = [])
      (same : after = self)
  | decoded
      (area : GroupArea)
      (range : Passes.ShiftRange)
      (stream : Nat)
      (gi : ModularImage)
      (result : List Channel)
      (isArea : groupArea self.frame_dim group_id is_dc = .ok (some area))
      (isRange : sectionRange self.passes pass_id is_dc = .ok range)
      (inImage : self.firstLarge ≤ self.full_image.channels.length)
      (isStream : self.sectionId group_id pass_id is_dc = .ok stream)
      (isDecoded :
        decompress stream (self.groupImage area range) = .ok gi)
      (isCopied : copyBack area range self.tiled gi.channels = .ok result)
      (isAfter : after = self.withTiled result)

variable {decompress : Nat → ModularImage → Checked ModularImage}

theorem groupRun_of_decodeGroup
    {self after : ModularFrameDecoder}
    {group_id pass_id : Nat}
    {is_dc : Bool}
    (run : decodeGroup decompress self group_id pass_id is_dc = .ok after) :
    GroupRun decompress self group_id pass_id is_dc after := by
  unfold decodeGroup at run
  obtain ⟨found, isArea, run⟩ := bind_eq_ok.1 run
  cases found with
  | none =>
      cases run
      exact .beyond isArea rfl
  | some area =>
      obtain ⟨range, isRange, run⟩ := bind_eq_ok.1 run
      by_cases empty : area.size = 0
      · simp only [empty, if_true] at run
        cases run
        refine .uncovered area range isArea isRange ?_ rfl
        refine List.filterMap_eq_nil_iff.2 ?_
        intro fch _
        exact groupChannel_empty empty range fch
      · simp only [empty, if_false] at run
        obtain ⟨_, inImage, run⟩ := bind_eq_ok.1 run
        by_cases none :
            (self.full_image.channels.drop self.firstLarge).filterMap
              (groupChannel area range) = []
        · simp only [none, if_true] at run
          cases run
          exact .uncovered area range isArea isRange none rfl
        · simp only [none, if_false] at run
          obtain ⟨stream, isStream, run⟩ := bind_eq_ok.1 run
          obtain ⟨gi, isDecoded, run⟩ := bind_eq_ok.1 run
          obtain ⟨result, isCopied, run⟩ := bind_eq_ok.1 run
          cases run
          exact .decoded area range stream gi result isArea isRange
            (subU_eq_ok inImage).2 isStream isDecoded isCopied rfl

/-- A section whose parts all succeed. -/
theorem decodeGroup_ok
    {self : ModularFrameDecoder}
    {group_id pass_id : Nat}
    {is_dc : Bool}
    {area : GroupArea}
    {range : Passes.ShiftRange}
    {stream : Nat}
    {gi : ModularImage}
    {result : List Channel}
    (isArea : groupArea self.frame_dim group_id is_dc = .ok (some area))
    (isRange : sectionRange self.passes pass_id is_dc = .ok range)
    (inImage : self.firstLarge ≤ self.full_image.channels.length)
    (some : (self.groupImage area range).channels ≠ [])
    (isStream : self.sectionId group_id pass_id is_dc = .ok stream)
    (isDecoded : decompress stream (self.groupImage area range) = .ok gi)
    (isCopied : copyBack area range self.tiled gi.channels = .ok result) :
    decodeGroup decompress self group_id pass_id is_dc =
      .ok (self.withTiled result) := by
  have notEmpty : area.size ≠ 0 := by
    intro empty
    refine some (List.filterMap_eq_nil_iff.2 ?_)
    intro fch _
    exact groupChannel_empty empty range fch
  unfold groupImage at some isDecoded
  unfold tiled at some isDecoded isCopied
  unfold sectionId at isStream
  unfold decodeGroup
  simp only [isArea, isRange, notEmpty, subU_ok inImage, some, isStream,
    isDecoded, isCopied, ok_bind, if_false]
  rfl

/-- A group image has a channel for every channel that the group covers. -/
theorem length_groupImage
    (self : ModularFrameDecoder)
    (area : GroupArea)
    (range : Passes.ShiftRange) :
    (self.groupImage area range).channels.length =
      self.tiled.countP (covered area range) :=
  List.length_filterMap_eq_countP

/--
The channels that the copy loop serves are covered by the group, or one of
them stops the loop with a shift of 64 or more.
-/
def Aligned
    (area : GroupArea)
    (range : Passes.ShiftRange)
    (tiled : List Channel) :
    Prop :=
  let reached := served range tiled (tiled.countP (covered area range))
  (∀ fch ∈ reached, covered area range fch = true) ∨
    ∃ fch ∈ reached, 64 ≤ fch.hshift ∨ 64 ≤ fch.vshift

theorem groupExact_of_aligned
    {self after : ModularFrameDecoder}
    {group_id pass_id : Nat}
    {is_dc : Bool}
    (keeps : KeepsSizes decompress)
    (aligned :
      ∀ area range stream,
        groupArea self.frame_dim group_id is_dc = .ok (some area) →
        sectionRange self.passes pass_id is_dc = .ok range →
        self.firstLarge ≤ self.full_image.channels.length →
        self.sectionId group_id pass_id is_dc = .ok stream →
        Aligned area range self.tiled)
    (run : decodeGroup decompress self group_id pass_id is_dc = .ok after) :
    GroupExact decompress self group_id pass_id is_dc after := by
  cases groupRun_of_decodeGroup run with
  | beyond isArea same =>
      refine ⟨fun _ => same, ?_⟩
      intro area range isOther
      rw [isArea] at isOther
      cases isOther
  | uncovered area range isArea isRange none same =>
      refine ⟨?_, ?_⟩
      · intro _
        exact same
      · intro otherArea otherRange isOther isOtherRange
        rw [isArea] at isOther
        rw [isRange] at isOtherRange
        cases isOther
        cases isOtherRange
        exact ⟨[], self.tiled, by rw [withTiled_tiled, same],
          assembled_unchanged none [], fun some => absurd none some⟩
  | decoded area range stream gi result isArea isRange inImage isStream
      isDecoded isCopied isAfter =>
      refine ⟨?_, ?_⟩
      · intro isOther
        rw [isArea] at isOther
        cases isOther
      · intro otherArea otherRange isOther isOtherRange
        rw [isArea] at isOther
        rw [isRange] at isOtherRange
        cases isOther
        cases isOtherRange
        have sizes := keeps stream _ gi isDecoded
        have count :
            gi.channels.length = self.tiled.countP (covered area range) :=
          (List.Forall₂.length_eq sizes).trans
            (self.length_groupImage area range)
        have short := shift_lt_of_copyBack isCopied
        rw [count] at short
        refine ⟨gi.channels, result, isAfter, ?_,
          fun _ => ⟨stream, gi, isStream, isDecoded, rfl⟩⟩
        refine assembled_of_copyBack sizes ?_ isCopied
        rw [count]
        rcases aligned area range stream isArea isRange inImage isStream with
          allCovered | ⟨fch, isServed, long⟩
        · exact allCovered
        · have fits := short fch isServed
          omega

/-- A section that decodes to one value everywhere. -/
def constantSection
    (value : Int32)
    (_stream : Nat)
    (image : ModularImage) :
    Checked ModularImage :=
  .ok { image with
    channels :=
      image.channels.map ({ · with sample := fun _ _ => value }) }

theorem keepsSizes_constantSection
    (value : Int32) :
    KeepsSizes (constantSection value) := by
  intro stream image decoded isDecoded
  cases isDecoded
  refine List.forall₂_map_left_iff.2 (List.forall₂_same.2 ?_)
  intro channel _
  exact ⟨rfl, rfl, rfl, rfl⟩

/-- A decoded value that is lost if the copy loop serves an empty channel. -/
theorem exists_not_exact
    {self : ModularFrameDecoder}
    {group_id pass_id : Nat}
    {is_dc : Bool}
    {area : GroupArea}
    {range : Passes.ShiftRange}
    {stream : Nat}
    (isArea : groupArea self.frame_dim group_id is_dc = .ok (some area))
    (isRange : sectionRange self.passes pass_id is_dc = .ok range)
    (inImage : self.firstLarge ≤ self.full_image.channels.length)
    (isStream : self.sectionId group_id pass_id is_dc = .ok stream)
    (misaligned : ¬ Aligned area range self.tiled) :
    ∃ value after,
      decodeGroup (constantSection value) self group_id pass_id is_dc =
          .ok after ∧
        ¬ GroupExact (constantSection value) self group_id pass_id is_dc
          after := by
  unfold Aligned at misaligned
  simp only [not_or, not_forall, not_exists, not_and, not_le] at misaligned
  obtain ⟨⟨skipped, isServed, notCovered⟩, short⟩ := misaligned
  have covers : 0 < self.tiled.countP (covered area range) := by
    rw [Nat.pos_iff_ne_zero]
    intro zero
    rw [zero, served, List.take_zero] at isServed
    cases isServed
  obtain ⟨before, fch, after, split, isCovered, last⟩ :=
    exists_last_covered covers
  obtain ⟨created, isCreated⟩ := Option.isSome_iff_exists.1 isCovered
  obtain ⟨_, isChannel, wide, tall⟩ := groupChannel_eq_some isCreated
  have width :
      created.w = groupChannelExtent fch.w area.x0 area.size fch.hshift := by
    rw [isChannel]
    rfl
  have height :
      created.h = groupChannelExtent fch.h area.y0 area.size fch.vshift := by
    rw [isChannel]
    rfl
  obtain ⟨_, insideX, _⟩ := groupChannelExtent_pos (width ▸ wide)
  obtain ⟨_, insideY, _⟩ := groupChannelExtent_pos (height ▸ tall)
  let old :=
    fch.sample (area.y0 >>> fch.vshift.toNat) (area.x0 >>> fch.hshift.toNat)
  let gi :=
    (self.groupImage area range).channels.map
      ({ · with sample := fun _ _ => old + 1 })
  have length : gi.length = self.tiled.countP (covered area range) :=
    (List.length_map _).trans (self.length_groupImage area range)
  obtain ⟨result, isCopied⟩ :=
    @copyBack_ok area range self.tiled gi (by
      rw [length]
      intro channel member
      exact short channel member)
  have someChannel : (self.groupImage area range).channels ≠ [] := by
    intro none
    rw [← self.length_groupImage, none] at covers
    cases covers
  refine ⟨old + 1, _,
    decodeGroup_ok isArea isRange inImage someChannel isStream rfl isCopied,
    ?_⟩
  intro exact
  obtain ⟨decoded, other, sameAfter, assembled, fromSection⟩ :=
    exact.within area range isArea isRange
  obtain ⟨_, _, _, isDecoded, sameDecoded⟩ := fromSection someChannel
  cases isDecoded
  have sameResult : result = other := by
    unfold withTiled at sameAfter
    simp only [ModularFrameDecoder.mk.injEq, ModularImage.mk.injEq,
      Image.mk.injEq, true_and, and_true] at sameAfter
    exact List.append_cancel_left sameAfter
  subst sameResult
  -- the last covered channel is never reached, yet it should hold the value
  have unreached : result[before.length]? = some fch := by
    rw [split] at isCopied
    refine copyBack_unreached ?_ isCopied
    rw [length, split]
    rw [split] at isServed
    exact exhausted_before_last isCovered last isServed
      (Bool.eq_false_iff.2 notCovered)
  have isLast : self.tiled[before.length]? = some fch := by
    rw [split]
    simp
  obtain ⟨stored, isStored, _, sample⟩ :=
    assembled.2 before.length fch isLast
  rw [unreached] at isStored
  cases isStored
  have position : rank area range self.tiled before.length < gi.length := by
    rw [length, rank, split, List.take_left', List.countP_append,
      List.countP_cons_of_pos isCovered]
    · omega
    · rfl
  have value :=
    sample (area.y0 >>> fch.vshift.toNat) (area.x0 >>> fch.hshift.toNat)
      insideY insideX
  rw [isCreated, sameDecoded] at value
  have decodedValue :
      (gi.getD (rank area range self.tiled before.length) created).sample 0 0 =
        old + 1 := by
    rw [List.getD_eq_getElem _ _ position, List.getElem_map]
  have isOld : old = old + 1 := by
    refine value.trans ?_
    simp only [placed, le_refl, Nat.lt_add_right_iff_pos, tall, wide, and_self,
      if_true, Nat.sub_self]
    exact decodedValue
  exact absurd isOld (by grind)

/--
`decodeGroup` is exact on every section content exactly if no channel in range
that the group misses comes before one that it covers, or the copy loop stops
at the shift of such a channel.
-/
theorem decodeGroup_exact_iff
    (self : ModularFrameDecoder)
    (group_id pass_id : Nat)
    (is_dc : Bool) :
    (∀ decompress,
      KeepsSizes decompress →
      ∀ after,
        decodeGroup decompress self group_id pass_id is_dc = .ok after →
        GroupExact decompress self group_id pass_id is_dc after) ↔
      ∀ area range stream,
        groupArea self.frame_dim group_id is_dc = .ok (some area) →
        sectionRange self.passes pass_id is_dc = .ok range →
        self.firstLarge ≤ self.full_image.channels.length →
        self.sectionId group_id pass_id is_dc = .ok stream →
        Aligned area range self.tiled := by
  constructor
  · intro exact area range stream isArea isRange inImage isStream
    by_contra misaligned
    obtain ⟨value, after, run, notExact⟩ :=
      exists_not_exact isArea isRange inImage isStream misaligned
    exact notExact
      (exact (constantSection value) (keepsSizes_constantSection value) after
        run)
  · intro aligned decompress keeps after run
    exact groupExact_of_aligned keeps aligned run

/-- A frame whose first channel was squeezed: 129 columns make 65 and 64. -/
def squeezedFrame : ModularFrameDecoder where
  frame_dim :=
    { xsize := 129, ysize := 200
      xsize_upsampled := 129, ysize_upsampled := 200
      xsize_upsampled_padded := 129, ysize_upsampled_padded := 200
      xsize_padded := 129, ysize_padded := 200
      xsize_blocks := 17, ysize_blocks := 25
      xsize_groups := 2, ysize_groups := 2
      xsize_dc_groups := 1, ysize_dc_groups := 1
      num_groups := 4, num_dc_groups := 1
      grp_dim := 128, dc_group_dim := 1024 }
  passes := {}
  full_image :=
    { channels :=
        [Channel.create 65 200 1 0, Channel.create 64 200 1 0,
          Channel.create 129 200 0 0] }

/-- The second group covers no column of the residual, but one of the last. -/
theorem not_exact_squeezedFrame :
    ¬ ∀ decompress,
      KeepsSizes decompress →
      ∀ after,
        decodeGroup decompress squeezedFrame 1 0 false = .ok after →
        GroupExact decompress squeezedFrame 1 0 false after := by
  intro exact
  have misaligned :
      ¬ Aligned { x0 := 128, y0 := 0, size := 128 } { min := 0, max := 2 }
        squeezedFrame.tiled := by
    unfold Aligned
    decide
  obtain ⟨value, after, run, notExact⟩ :=
    @exists_not_exact squeezedFrame 1 0 false
      { x0 := 128, y0 := 0, size := 128 } { min := 0, max := 2 } 22 (by decide)
      (by decide) (by decide) (by decide) misaligned
  exact notExact
    (exact (constantSection value) (keepsSizes_constantSection value) after
      run)

end Jxlz.ModularFrameDecoder
