import Jxlz.Codec.DecGroup

namespace Jxlz.ModularFrameDecoder

/-!
# When a decoded group is assembled exactly

One loop creates the channels of a group image and a second one copies them
back.  The second loop takes a decoded channel for every channel whose shifts
are in range, the first one creates a channel only where the group's rectangle
is not empty; the two agree as long as no empty channel comes in between.
-/

/-- A channel whose shifts a section holds. -/
def held
    (range : Passes.ShiftRange)
    (fch : Channel) :
    Bool :=
  range.contains fch.hshift fch.vshift

/-- A channel for which the group image gets a channel. -/
def covered
    (area : GroupArea)
    (range : Passes.ShiftRange)
    (fch : Channel) :
    Bool :=
  (groupChannel area range fch).isSome

/-- The position of a channel among those that the group covers. -/
def rank
    (area : GroupArea)
    (range : Passes.ShiftRange)
    (tiled : List Channel)
    (c : Nat) :
    Nat :=
  (tiled.take c).countP (covered area range)

/-- What a channel holds after one of its rectangles was decoded. -/
def placed
    (area : GroupArea)
    (created fch gch : Channel) :
    Nat → Nat → Int32 :=
  fun row column =>
    let rx0 := area.x0 >>> fch.hshift.toNat
    let ry0 := area.y0 >>> fch.vshift.toNat
    if (ry0 ≤ row ∧ row < ry0 + created.h) ∧
        rx0 ≤ column ∧ column < rx0 + created.w then
      gch.sample (row - ry0) (column - rx0)
    else
      fch.sample row column

/--
Every decoded channel is in its rectangle of the channel it was created for,
and no other sample has changed.
-/
def Assembled
    (area : GroupArea)
    (range : Passes.ShiftRange)
    (tiled decoded result : List Channel) :
    Prop :=
  result.length = tiled.length ∧
    ∀ c fch,
      tiled[c]? = some fch →
      ∃ after,
        result[c]? = some after ∧
          after.SameSize fch ∧
          ∀ row column,
            row < fch.h →
            column < fch.w →
            after.sample row column =
              match groupChannel area range fch with
              | none => fch.sample row column
              | some created =>
                  placed area created fch
                    (decoded.getD (rank area range tiled c) created)
                    row column

variable {area : GroupArea}
variable {fch : Channel}
variable {range : Passes.ShiftRange}

/-- What a created channel says about the channel it was created for. -/
theorem groupChannel_eq_some
    {fch created : Channel}
    (isCreated : groupChannel area range fch = some created) :
    held range fch = true ∧
      created =
        Channel.create
          (groupChannelExtent fch.w area.x0 area.size fch.hshift)
          (groupChannelExtent fch.h area.y0 area.size fch.vshift)
          fch.hshift fch.vshift ∧
      0 < created.w ∧ 0 < created.h := by
  unfold groupChannel at isCreated
  by_cases inRange : range.contains fch.hshift fch.vshift = true
  · rw [if_pos inRange] at isCreated
    by_cases empty :
        groupChannelExtent fch.w area.x0 area.size fch.hshift = 0 ∨
          groupChannelExtent fch.h area.y0 area.size fch.vshift = 0
    · simp only [empty, if_true] at isCreated
      cases isCreated
    · simp only [empty, if_false] at isCreated
      cases isCreated
      rw [not_or] at empty
      exact ⟨inRange, rfl, Nat.pos_of_ne_zero empty.1,
        Nat.pos_of_ne_zero empty.2⟩
  · rw [if_neg inRange] at isCreated
    cases isCreated

/-- A channel in range with a rectangle in the group gets a group channel. -/
theorem groupChannel_of_pos
    (inRange : range.contains fch.hshift fch.vshift = true)
    (wide : 0 < groupChannelExtent fch.w area.x0 area.size fch.hshift)
    (tall : 0 < groupChannelExtent fch.h area.y0 area.size fch.vshift) :
    groupChannel area range fch =
      some
        (Channel.create
          (groupChannelExtent fch.w area.x0 area.size fch.hshift)
          (groupChannelExtent fch.h area.y0 area.size fch.vshift)
          fch.hshift fch.vshift) := by
  unfold groupChannel
  rw [if_pos inRange, if_neg (by omega)]

theorem held_of_covered
    (isCovered : covered area range fch = true) :
    held range fch = true := by
  obtain ⟨created, isCreated⟩ := Option.isSome_iff_exists.1 isCovered
  exact (groupChannel_eq_some isCreated).1

/-- A group that covers part of a side starts inside it, at a short shift. -/
theorem groupChannelExtent_pos
    {full_size group_start group_size : Nat}
    {shift : Int}
    (positive :
      0 < groupChannelExtent full_size group_start group_size shift) :
    groupChannelStart group_start shift =
        .ok (group_start >>> shift.toNat) ∧
      group_start >>> shift.toNat < full_size ∧
      groupChannelExtent full_size group_start group_size shift ≤
        full_size - group_start >>> shift.toNat := by
  unfold groupChannelExtent at positive ⊢
  by_cases unshifted : shift ≤ 0
  · have noShift : shift.toNat = 0 :=
      Int.toNat_of_nonpos unshifted
    have start : groupChannelStart group_start shift = .ok group_start := by
      unfold groupChannelStart
      by_cases zero : 0 ≤ shift
      · rw [if_pos zero, noShift]
        rfl
      · rw [if_neg zero]
    by_cases outside : full_size ≤ group_start
    · rw [if_pos unshifted, if_pos outside] at positive
      cases positive
    · rw [if_pos unshifted, if_neg outside, noShift, Nat.shiftRight_zero]
      exact ⟨start, Nat.not_le.1 outside, Nat.min_le_right _ _⟩
  · by_cases long : 64 ≤ shift
    · rw [if_neg unshifted, if_pos long] at positive
      cases positive
    · have short : shift.toNat < 2 ^ 6 := by
        omega
      have start :
          groupChannelStart group_start shift =
            .ok (group_start >>> shift.toNat) := by
        unfold groupChannelStart
        rw [if_pos (by omega), castU_ok short]
        rfl
      rw [if_neg unshifted, if_neg long] at positive ⊢
      by_cases outside : full_size ≤ group_start >>> shift.toNat
      · simp only [outside, if_true] at positive
        cases positive
      · simp only [outside, if_false]
        exact ⟨start, Nat.not_le.1 outside, Nat.min_le_right _ _⟩

/-- A shift that the copy loop can use. -/
theorem groupChannelStart_eq_ok
    {group_start start : Nat}
    {shift : Int}
    (computed : groupChannelStart group_start shift = .ok start) :
    shift < 64 := by
  unfold groupChannelStart at computed
  by_cases unsigned : 0 ≤ shift
  · rw [if_pos unsigned] at computed
    obtain ⟨amount, isAmount, _⟩ := bind_eq_ok.1 computed
    have fits := (castU_eq_ok isAmount).2
    omega
  · omega

theorem groupChannelStart_ok
    (group_start : Nat)
    {shift : Int}
    (short : shift < 64) :
    ∃ start, groupChannelStart group_start shift = .ok start := by
  unfold groupChannelStart
  by_cases unsigned : 0 ≤ shift
  · have fits : shift.toNat < 2 ^ 6 := by
      omega
    rw [if_pos unsigned, castU_ok fits]
    exact ⟨_, rfl⟩
  · rw [if_neg unsigned]
    exact ⟨_, rfl⟩

/-- One round of the copy loop for a channel that the group covers. -/
theorem copyBack_covered
    {fch gch created : Channel}
    (full gi : List Channel)
    (isCreated : groupChannel area range fch = some created)
    (size : gch.SameSize created) :
    copyBack area range (fch :: full) (gch :: gi) =
      (do
        let rest ← copyBack area range full gi
        return copyRect fch gch (area.x0 >>> fch.hshift.toNat)
          (area.y0 >>> fch.vshift.toNat) created.w created.h :: rest) := by
  obtain ⟨inRange, isChannel, wide, tall⟩ := groupChannel_eq_some isCreated
  have width :
      created.w = groupChannelExtent fch.w area.x0 area.size fch.hshift := by
    rw [isChannel]
    rfl
  have height :
      created.h = groupChannelExtent fch.h area.y0 area.size fch.vshift := by
    rw [isChannel]
    rfl
  obtain ⟨startX, insideX, extentX⟩ := groupChannelExtent_pos (width ▸ wide)
  obtain ⟨startY, insideY, extentY⟩ := groupChannelExtent_pos (height ▸ tall)
  have fullWidth :
      min gch.w
          (if area.x0 >>> fch.hshift.toNat < fch.w then
            fch.w - area.x0 >>> fch.hshift.toNat
          else 0) = created.w := by
    rw [if_pos insideX, size.w, width]
    exact Nat.min_eq_left extentX
  have fullHeight :
      min gch.h
          (if area.y0 >>> fch.vshift.toNat < fch.h then
            fch.h - area.y0 >>> fch.vshift.toNat
          else 0) = created.h := by
    rw [if_pos insideY, size.h, height]
    exact Nat.min_eq_left extentY
  have notEmpty : ¬ (created.w = 0 ∨ created.h = 0) := by
    omega
  unfold held at inRange
  rw [copyBack]
  simp only [inRange, if_true, startX, startY, ok_bind, fullWidth, fullHeight,
    notEmpty, if_false]

/-- The channels that a section holds and takes a decoded channel for. -/
def served
    (range : Passes.ShiftRange)
    (tiled : List Channel)
    (count : Nat) :
    List Channel :=
  (tiled.filter (held range)).take count

theorem served_cons_held
    (inRange : range.contains fch.hshift fch.vshift = true)
    (full : List Channel)
    (count : Nat) :
    served range (fch :: full) (count + 1) = fch :: served range full count := by
  have isHeld : held range fch = true :=
    inRange
  rw [served, List.filter_cons_of_pos isHeld, List.take_succ_cons]
  rfl

theorem served_cons_not_held
    (outOfRange : ¬ range.contains fch.hshift fch.vshift = true)
    (full : List Channel)
    (count : Nat) :
    served range (fch :: full) count = served range full count := by
  have notHeld : ¬ held range fch = true :=
    outOfRange
  rw [served, List.filter_cons_of_neg notHeld]
  rfl

/-- The copy loop stops at a shift of 64 or more. -/
theorem shift_lt_of_copyBack
    {tiled gi result : List Channel}
    (copied : copyBack area range tiled gi = .ok result) :
    ∀ fch ∈ served range tiled gi.length,
      fch.hshift < 64 ∧ fch.vshift < 64 := by
  fun_induction copyBack area range tiled gi generalizing result with
  | case1 gi =>
      intro fch member
      cases List.mem_of_mem_take member
  | case2 full notNil =>
      intro fch member
      simp only [served, List.length_nil, List.take_zero] at member
      cases member
  | case3 head full gch gi inRange inductionHypothesis =>
      obtain ⟨rx0, isX, copied⟩ := bind_eq_ok.1 copied
      obtain ⟨ry0, isY, copied⟩ := bind_eq_ok.1 copied
      obtain ⟨rest, isRest, _⟩ := bind_eq_ok.1 copied
      intro fch member
      rw [List.length_cons, served_cons_held inRange] at member
      rcases List.mem_cons.1 member with rfl | later
      · exact ⟨groupChannelStart_eq_ok isX, groupChannelStart_eq_ok isY⟩
      · exact inductionHypothesis isRest fch later
  | case4 head full gch gi outOfRange inductionHypothesis =>
      obtain ⟨rest, isRest, _⟩ := bind_eq_ok.1 copied
      intro fch member
      rw [served_cons_not_held outOfRange] at member
      exact inductionHypothesis isRest fch member

/-- The copy loop succeeds on short shifts. -/
theorem copyBack_ok
    {tiled gi : List Channel}
    (short :
      ∀ fch ∈ served range tiled gi.length,
        fch.hshift < 64 ∧ fch.vshift < 64) :
    ∃ result, copyBack area range tiled gi = .ok result := by
  fun_induction copyBack area range tiled gi with
  | case1 gi =>
      exact ⟨[], rfl⟩
  | case2 full notNil =>
      exact ⟨full, rfl⟩
  | case3 head full gch gi inRange inductionHypothesis =>
      rw [List.length_cons, served_cons_held inRange] at short
      have ⟨shortX, shortY⟩ := short head List.mem_cons_self
      obtain ⟨rx0, isX⟩ := groupChannelStart_ok area.x0 shortX
      obtain ⟨ry0, isY⟩ := groupChannelStart_ok area.y0 shortY
      obtain ⟨rest, isRest⟩ :=
        inductionHypothesis
          (fun fch member => short fch (List.mem_cons_of_mem _ member))
      rw [isX, ok_bind, isY, ok_bind, isRest]
      exact ⟨_, rfl⟩
  | case4 head full gch gi outOfRange inductionHypothesis =>
      rw [served_cons_not_held outOfRange] at short
      obtain ⟨rest, isRest⟩ := inductionHypothesis short
      rw [isRest]
      exact ⟨_, rfl⟩

theorem rank_cons_succ
    (fch : Channel)
    (full : List Channel)
    (c : Nat) :
    rank area range (fch :: full) (c + 1) =
      rank area range full c + if covered area range fch then 1 else 0 := by
  unfold rank
  rw [List.take_succ_cons, List.countP_cons]

/-- A channel that the group does not cover stays as it was. -/
theorem assembled_cons_none
    {full decoded rest : List Channel}
    (none : groupChannel area range fch = none)
    (assembled : Assembled area range full decoded rest) :
    Assembled area range (fch :: full) decoded (fch :: rest) := by
  obtain ⟨length, places⟩ := assembled
  have notCovered : covered area range fch = false := by
    unfold covered
    rw [none]
    rfl
  refine ⟨by rw [List.length_cons, List.length_cons, length], ?_⟩
  intro c head isHead
  cases c with
  | zero =>
      cases isHead
      refine ⟨fch, rfl, .refl fch, ?_⟩
      intro row column _ _
      rw [none]
  | succ c =>
      obtain ⟨after, isAfter, size, sample⟩ := places c head isHead
      refine ⟨after, isAfter, size, ?_⟩
      rw [rank_cons_succ, notCovered]
      exact sample

/-- A channel that the group covers takes the next decoded channel. -/
theorem assembled_cons_some
    {fch gch created : Channel}
    {full gi rest : List Channel}
    (isCreated : groupChannel area range fch = some created)
    (assembled : Assembled area range full gi rest) :
    Assembled area range (fch :: full) (gch :: gi)
      (copyRect fch gch (area.x0 >>> fch.hshift.toNat)
        (area.y0 >>> fch.vshift.toNat) created.w created.h :: rest) := by
  obtain ⟨length, places⟩ := assembled
  have isCovered : covered area range fch = true := by
    unfold covered
    rw [isCreated]
    rfl
  refine ⟨by rw [List.length_cons, List.length_cons, length], ?_⟩
  intro c head isHead
  cases c with
  | zero =>
      cases isHead
      refine ⟨_, rfl, ⟨rfl, rfl, rfl, rfl⟩, ?_⟩
      intro row column _ _
      rw [isCreated]
      rfl
  | succ c =>
      obtain ⟨after, isAfter, size, sample⟩ := places c head isHead
      refine ⟨after, isAfter, size, ?_⟩
      rw [rank_cons_succ, isCovered]
      exact sample

/-- Where the group covers no channel, nothing changes. -/
theorem assembled_unchanged
    {tiled : List Channel}
    (none : tiled.filterMap (groupChannel area range) = [])
    (decoded : List Channel) :
    Assembled area range tiled decoded tiled := by
  induction tiled with
  | nil =>
      exact ⟨rfl, fun c fch isChannel => by cases isChannel⟩
  | cons fch full inductionHypothesis =>
      cases created : groupChannel area range fch with
      | none =>
          rw [List.filterMap_cons_none created] at none
          exact assembled_cons_none created (inductionHypothesis none)
      | some gch =>
          rw [List.filterMap_cons_some created] at none
          cases none

/-- The copy loop is exact if it serves covered channels only. -/
theorem assembled_of_copyBack
    {tiled gi result : List Channel}
    (sizes :
      List.Forall₂ Channel.SameSize gi
        (tiled.filterMap (groupChannel area range)))
    (aligned :
      ∀ fch ∈ served range tiled gi.length, covered area range fch = true)
    (copied : copyBack area range tiled gi = .ok result) :
    Assembled area range tiled gi result := by
  induction tiled generalizing gi result with
  | nil =>
      rw [copyBack] at copied
      cases copied
      exact assembled_unchanged rfl gi
  | cons fch full inductionHypothesis =>
      cases created : groupChannel area range fch with
      | some channel =>
          rw [List.filterMap_cons_some created] at sizes
          cases sizes with
          | @cons gch _ gi _ size sizes =>
              rw [copyBack_covered full gi created size] at copied
              obtain ⟨rest, isRest, copied⟩ := bind_eq_ok.1 copied
              cases copied
              refine assembled_cons_some created
                (inductionHypothesis sizes ?_ isRest)
              intro later member
              refine aligned later ?_
              rw [List.length_cons,
                served_cons_held (groupChannel_eq_some created).1]
              exact List.mem_cons_of_mem _ member
      | none =>
          rw [List.filterMap_cons_none created] at sizes
          cases gi with
          | nil =>
              rw [copyBack] at copied
              · cases copied
                refine assembled_unchanged ?_ []
                rw [List.filterMap_cons_none created]
                exact List.forall₂_nil_left_iff.1 sizes
              · intro impossible
                cases impossible
          | cons gch gi =>
              by_cases inRange :
                  range.contains fch.hshift fch.vshift = true
              · -- the loop would take a decoded channel for an empty one
                have isCovered := aligned fch (by
                  rw [List.length_cons, served_cons_held inRange]
                  exact List.mem_cons_self)
                unfold covered at isCovered
                rw [created] at isCovered
                cases isCovered
              · rw [copyBack] at copied
                simp only [inRange] at copied
                obtain ⟨rest, isRest, copied⟩ := bind_eq_ok.1 copied
                cases copied
                refine assembled_cons_none created
                  (inductionHypothesis sizes ?_ isRest)
                intro later member
                refine aligned later ?_
                rw [served_cons_not_held inRange]
                exact member

/-- A channel that the loop reaches with nothing left stays as it was. -/
theorem copyBack_unreached
    {before after gi result : List Channel}
    (exhausted : gi.length ≤ before.countP (held range))
    (copied :
      copyBack area range (before ++ fch :: after) gi = .ok result) :
    result[before.length]? = some fch := by
  induction before generalizing gi result with
  | nil =>
      have isNil : gi = [] :=
        List.eq_nil_of_length_eq_zero (Nat.le_zero.1 exhausted)
      subst isNil
      rw [List.nil_append, copyBack] at copied
      · cases copied
        rfl
      · intro impossible
        cases impossible
  | cons head before inductionHypothesis =>
      cases gi with
      | nil =>
          rw [List.cons_append, copyBack] at copied
          · cases copied
            simp
          · intro impossible
            cases impossible
      | cons gch gi =>
          rw [List.cons_append, copyBack] at copied
          by_cases inRange : range.contains head.hshift head.vshift = true
          · have isHeld : held range head = true :=
              inRange
            simp only [inRange, if_true] at copied
            obtain ⟨rx0, _, copied⟩ := bind_eq_ok.1 copied
            obtain ⟨ry0, _, copied⟩ := bind_eq_ok.1 copied
            obtain ⟨rest, isRest, copied⟩ := bind_eq_ok.1 copied
            rw [List.countP_cons_of_pos isHeld, List.length_cons,
              Nat.add_le_add_iff_right] at exhausted
            have unreached := inductionHypothesis exhausted isRest
            cases copied
            exact unreached
          · have notHeld : ¬ held range head = true :=
              inRange
            simp only [inRange] at copied
            obtain ⟨rest, isRest, copied⟩ := bind_eq_ok.1 copied
            cases copied
            rw [List.countP_cons_of_neg notHeld] at exhausted
            exact inductionHypothesis exhausted isRest

/-- The last channel that the group covers, if there is any. -/
theorem exists_last_covered
    {tiled : List Channel}
    (some : 0 < tiled.countP (covered area range)) :
    ∃ before fch after,
      tiled = before ++ fch :: after ∧ covered area range fch = true ∧
        after.countP (covered area range) = 0 := by
  induction tiled with
  | nil =>
      cases some
  | cons head full inductionHypothesis =>
      by_cases later : 0 < full.countP (covered area range)
      · obtain ⟨before, fch, after, split, isCovered, none⟩ :=
          inductionHypothesis later
        exact ⟨head :: before, fch, after, by rw [split]; rfl, isCovered, none⟩
      · have noneLater := Nat.eq_zero_of_not_pos later
        refine ⟨[], head, full, rfl, ?_, noneLater⟩
        by_contra notCovered
        rw [List.countP_cons_of_neg notCovered] at some
        exact later some

theorem countP_covered_le
    (channels : List Channel) :
    channels.countP (covered area range) ≤ channels.countP (held range) :=
  List.countP_mono_left (fun _ _ isCovered => held_of_covered isCovered)

/--
If the loop serves a channel that the group does not cover, then it runs out
of decoded channels before the last one that the group covers.
-/
theorem exhausted_before_last
    {before after : List Channel}
    {fch skipped : Channel}
    (isCovered : covered area range fch = true)
    (last : after.countP (covered area range) = 0)
    (isServed :
      skipped ∈ served range (before ++ fch :: after)
        ((before ++ fch :: after).countP (covered area range)))
    (notCovered : covered area range skipped = false) :
    (before ++ fch :: after).countP (covered area range) ≤
      before.countP (held range) := by
  have total :
      (before ++ fch :: after).countP (covered area range) =
        before.countP (covered area range) + 1 := by
    rw [List.countP_append, List.countP_cons_of_pos isCovered, last]
  rw [total] at isServed ⊢
  by_contra enough
  have sameCount :
      before.countP (covered area range) = before.countP (held range) :=
    Nat.le_antisymm (countP_covered_le before) (by omega)
  have isHeld : held range fch = true :=
    held_of_covered isCovered
  have first :
      served range (before ++ fch :: after)
          (before.countP (covered area range) + 1) =
        before.filter (held range) ++ [fch] := by
    rw [served, List.filter_append, List.filter_cons_of_pos isHeld, sameCount,
      List.countP_eq_length_filter, List.take_length_add_append]
    rfl
  rw [first] at isServed
  rcases List.mem_append.1 isServed with inBefore | isLast
  · -- before the last one every held channel is covered
    obtain ⟨member, skippedHeld⟩ := List.mem_filter.1 inBefore
    have fewer :
        before.countP (covered area range) < before.countP (held range) := by
      obtain ⟨left, right, split⟩ := List.append_of_mem member
      rw [split, List.countP_append, List.countP_append,
        List.countP_cons_of_pos skippedHeld,
        List.countP_cons_of_neg (by rw [notCovered]; exact Bool.false_ne_true)]
      have leftLe := @countP_covered_le area range left
      have rightLe := @countP_covered_le area range right
      omega
    omega
  · rw [List.mem_singleton.1 isLast, isCovered] at notCovered
    cases notCovered

end Jxlz.ModularFrameDecoder
