import Jxlz.Icc.IccCommands

namespace Jxlz.Icc

open FuelLoop
open Container (slice)

/-!
# The body of a profile

Whatever shapes the encoder finds, a decoder that executes the commands of the
body has put together the profile up to `insert_start`.  That is the invariant
of the loop over the body, and each shape keeps it.
-/

section Body

variable {icc commands data : List UInt8}
variable {start : Nat}

/-- The decoder gets to a place by what the body has added to the streams. -/
def Follows
    (icc commands data : List UInt8)
    (start : Nat)
    (body : Body)
    (produced : Nat) :
    Prop :=
  ∃ more moreData,
    body.commands = commands ++ more ∧ body.data = data ++ moreData ∧
      Written icc start more moreData produced

/-- The invariant of the loop over the body. -/
structure Placed
    (icc commands data : List UInt8)
    (start : Nat)
    (body : Body) :
    Prop where
  follows : Follows icc commands data start body body.insert_start
  header : kICCHeaderSize ≤ body.insert_start
  behind : body.insert_start ≤ body.pos
  inside : body.pos ≤ icc.length

/-- A command more in the streams of the body. -/
theorem Follows.snoc
    {body next : Body}
    {middle later : Nat}
    {command : UInt8}
    {arguments bytes : List UInt8}
    (follows : Follows icc commands data start body middle)
    (executes : Executes icc middle command arguments bytes later)
    (isCommands : next.commands = body.commands ++ command :: arguments)
    (isData : next.data = body.data ++ bytes) :
    Follows icc commands data start next later := by
  obtain ⟨more, moreData, ofCommands, ofData, written⟩ := follows
  refine ⟨more ++ command :: arguments, moreData ++ bytes, ?_, ?_,
    written.snoc executes⟩
  · rw [isCommands, ofCommands, List.append_assoc]
  · rw [isData, ofData, List.append_assoc]

/-- The bytes up to a place are inserted. -/
theorem insertTo_follows
    {body next : Body}
    {stop : Nat}
    (follows : Follows icc commands data start body body.insert_start)
    (ordered : body.insert_start ≤ stop)
    (inserted : body.insertTo icc stop = .ok next) :
    Follows icc commands data start next stop := by
  unfold Body.insertTo at inserted
  split at inserted
  next before =>
    obtain ⟨bytes, isSlice, inserted⟩ := bind_eq_ok.1 inserted
    cases inserted
    refine follows.snoc (executes_insert isSlice) ?_ rfl
    rw [List.append_assoc]
    rfl
  next reached =>
    cases inserted
    rwa [show body.insert_start = stop by omega] at follows

theorem typeStart_follows
    {body : Body}
    {pos i : Nat}
    (follows : Follows icc commands data start body pos)
    (inside : pos + 8 ≤ icc.length)
    (zero : decodeUint32 icc (pos + 4) = 0)
    (known : kTypeStrings[i]? = some (decodeKeyword icc pos)) :
    Follows icc commands data start (body.typeStart i) (pos + 8) :=
  follows.snoc (executes_typeStart inside zero known) rfl
    (List.append_nil _).symm

theorem shuffled_follows
    {body next : Body}
    {pos num width : Nat}
    {command : UInt8}
    (follows : Follows icc commands data start body pos)
    (isCommand :
      command = kCommandShuffle2 ∧ width = 2 ∨
        command = kCommandShuffle4 ∧ width = 4)
    (emitted : body.shuffled icc command pos num width = .ok next) :
    Follows icc commands data start next (pos + num) := by
  unfold Body.shuffled at emitted
  obtain ⟨bytes, isSlice, emitted⟩ := bind_eq_ok.1 emitted
  cases emitted
  refine follows.snoc (executes_shuffled isCommand isSlice) ?_ rfl
  rw [Nat.add_sub_cancel_left, List.append_assoc]
  rfl

theorem predicted_follows
    {body next : Body}
    {pos num stride width order : Nat}
    (follows : Follows icc commands data start body pos)
    (emitted : body.predicted icc pos num stride width order = .ok next)
    (lane : width = 1 ∨ width = 2 ∨ width = 4)
    (low : order ≤ 1)
    (apart : width ≤ stride)
    (far : stride * 4 < pos)
    (inside : pos + num ≤ icc.length)
    (fits : icc.length < 2 ^ 64) :
    Follows icc commands data start next (pos + num) := by
  unfold Body.predicted at emitted
  obtain ⟨residuals, mapped, emitted⟩ := bind_eq_ok.1 emitted
  obtain ⟨count, areResiduals⟩ := residuals_of_mapM mapped
  subst count
  cases emitted
  refine follows.snoc
    (executes_predict areResiduals lane low apart far inside fits) ?_ rfl
  simp only [List.append_assoc, List.cons_append, List.nil_append]

/-- Behind a shape the loop goes on with nothing left to insert. -/
theorem Follows.placed
    {body : Body}
    {pos : Nat}
    (follows : Follows icc commands data start body pos)
    (header : kICCHeaderSize ≤ pos)
    (inside : pos ≤ icc.length) :
    Placed icc commands data start (body.jumpTo pos) where
  follows := follows
  header := header
  behind := Nat.le_refl pos
  inside := inside

variable {body next : Body}
variable {options : PredictOptions}
variable {tags : TagList}

theorem mabCurvPredict_placed
    (placed : Placed icc commands data start body)
    (fits : icc.length < 2 ^ 64)
    (found : body.mabCurvPredict icc options = .ok (some next)) :
    Placed icc commands data start next := by
  have header := placed.header
  have behind := placed.behind
  unfold kICCHeaderSize at header
  unfold Body.mabCurvPredict at found
  dsimp only at found
  split at found
  next shape =>
    obtain ⟨inserted, isInserted, found⟩ := bind_eq_ok.1 found
    obtain ⟨after, isAfter, found⟩ := bind_eq_ok.1 found
    cases found
    have inside := shape.2.2.2.2.2.2.2
    have atPayload := insertTo_follows placed.follows (by omega) isInserted
    have whole :=
      predicted_follows atPayload isAfter (.inr (.inl rfl)) (Nat.le_refl 1)
        (Nat.le_refl 2) (by omega) inside fits
    exact whole.placed (by unfold kICCHeaderSize; omega) inside
  next other =>
    cases found

theorem noteClut_placed
    (placed : Placed icc commands data start body) :
    Placed icc commands data start (body.noteClut icc) := by
  unfold Body.noteClut
  split
  · exact ⟨placed.follows, placed.header, placed.behind, placed.inside⟩
  · exact placed

/-- A table without outputs has no bytes. -/
theorem noPoints
    {pos num : Nat}
    {places : List Nat}
    (counted :
      places.foldlM
          (fun num i => do
            let points ← index icc (pos + i)
            mulU 64 num points.toNat) 0 =
        .ok num) :
    num = 0 := by
  induction places with
  | nil =>
      cases counted
      rfl
  | cons first others inductionHypothesis =>
      rw [List.foldlM_cons] at counted
      obtain ⟨product, isProduct, counted⟩ := bind_eq_ok.1 counted
      obtain ⟨points, _, isProduct⟩ := bind_eq_ok.1 isProduct
      obtain ⟨isProduct, _⟩ := mulU_eq_ok isProduct
      rw [isProduct, Nat.zero_mul] at counted
      exact inductionHypothesis counted

theorem mabClutPredict_placed
    (placed : Placed icc commands data start body)
    (fits : icc.length < 2 ^ 64)
    (found : body.mabClutPredict icc options = .ok (some next)) :
    Placed icc commands data start next := by
  have header := placed.header
  have behind := placed.behind
  unfold Body.mabClutPredict at found
  split at found
  next shape =>
    obtain ⟨numi, _, found⟩ := bind_eq_ok.1 found
    obtain ⟨numo, _, found⟩ := bind_eq_ok.1 found
    obtain ⟨width, _, found⟩ := bind_eq_ok.1 found
    obtain ⟨num, isNum, found⟩ := bind_eq_ok.1 found
    split at found
    next block =>
      obtain ⟨lane, large, _, inside, far⟩ := block
      obtain ⟨inserted, isInserted, found⟩ := bind_eq_ok.1 found
      obtain ⟨after, isAfter, found⟩ := bind_eq_ok.1 found
      cases found
      have atBlock := insertTo_follows placed.follows behind isInserted
      -- Without an output there is no point in the table.
      have outputs : 0 < numo.toNat := by
        by_contra none
        have isZero : numo.toNat = 0 := by
          omega
        rw [isZero, Nat.mul_zero] at isNum
        rw [noPoints isNum] at large
        omega
      have lane : width.toNat = 1 ∨ width.toNat = 2 ∨ width.toNat = 4 := by
        rcases lane with rfl | rfl
        · exact .inl rfl
        · exact .inr (.inl rfl)
      have whole :=
        predicted_follows atBlock isAfter lane (Nat.le_refl 1)
          (Nat.le_mul_of_pos_right _ outputs) far inside fits
      exact whole.placed (by omega) inside
    next other =>
      cases found
  next other =>
    cases found

theorem gbdPredict_placed
    (placed : Placed icc commands data start body)
    (fits : icc.length < 2 ^ 64)
    (found : body.gbdPredict icc options tags = .ok (some next)) :
    Placed icc commands data start next := by
  have header := placed.header
  have behind := placed.behind
  unfold kICCHeaderSize at header
  unfold Body.gbdPredict at found
  split at found
  next shape =>
    split at found
    next absent =>
      cases found
    next tag_size isSize =>
      obtain ⟨num, isNum, found⟩ := bind_eq_ok.1 found
      obtain ⟨isNum, large⟩ := subU_eq_ok isNum
      split at found
      next block =>
        obtain ⟨inside, _⟩ := block
        obtain ⟨inserted, isInserted, found⟩ := bind_eq_ok.1 found
        obtain ⟨after, isAfter, found⟩ := bind_eq_ok.1 found
        cases found
        have within : body.pos + num ≤ icc.length := by
          omega
        have atBlock := insertTo_follows placed.follows behind isInserted
        have whole :=
          predicted_follows atBlock isAfter (.inr (.inr rfl)) (Nat.zero_le 1)
            (Nat.le_refl 4) (by omega) within fits
        exact whole.placed (by unfold kICCHeaderSize; omega) within
      next other =>
        cases found
  next other =>
    cases found

/-- A tag that starts with a keyword, if its payload is followed. -/
theorem wholeTag_placed
    {enabled : Bool}
    {keyword : Tag}
    {fit : Nat → Bool}
    {emit : Nat → Body → Checked Body}
    (placed : Placed icc commands data start body)
    (followed :
      ∀ num inserted after,
        body.pos + 8 + num ≤ icc.length →
        decodeKeyword icc body.pos = keyword →
        decodeUint32 icc (body.pos + 4) = 0 →
        Follows icc commands data start inserted body.pos →
        emit num inserted = .ok after →
        Follows icc commands data start after (body.pos + 8 + num))
    (found :
      body.wholeTag icc tags enabled keyword fit emit = .ok (some next)) :
    Placed icc commands data start next := by
  have header := placed.header
  have behind := placed.behind
  unfold Body.wholeTag at found
  split at found
  next shape =>
    obtain ⟨_, room, isKeyword, zero⟩ := shape
    split at found
    next absent =>
      cases found
    next tag_size isSize =>
      obtain ⟨num, isNum, found⟩ := bind_eq_ok.1 found
      obtain ⟨isNum, large⟩ := subU_eq_ok isNum
      split at found
      next block =>
        obtain ⟨inside, _⟩ := block
        obtain ⟨inserted, isInserted, found⟩ := bind_eq_ok.1 found
        obtain ⟨after, isAfter, found⟩ := bind_eq_ok.1 found
        cases found
        have stop : body.pos + tag_size = body.pos + 8 + num := by
          omega
        rw [stop] at inside ⊢
        have atTag := insertTo_follows placed.follows behind isInserted
        have whole :=
          followed num inserted after inside isKeyword zero atTag isAfter
        exact whole.placed (by omega) inside
      next other =>
        cases found
  next other =>
    cases found

theorem curvPredict_placed
    (placed : Placed icc commands data start body)
    (fits : icc.length < 2 ^ 64)
    (found : body.curvPredict icc options tags = .ok (some next)) :
    Placed icc commands data start next := by
  have header := placed.header
  have behind := placed.behind
  unfold kICCHeaderSize at header
  refine wholeTag_placed placed ?_ found
  intro num inserted after inside isKeyword zero follows emitted
  have typed :=
    @typeStart_follows icc commands data start inserted body.pos 5 follows
      (by omega) zero (by rw [isKeyword]; rfl)
  exact predicted_follows typed emitted (.inr (.inl rfl)) (Nat.le_refl 1)
    (Nat.le_refl 2) (by omega) inside fits

theorem mlucShuffle_placed
    (placed : Placed icc commands data start body)
    (found : body.mlucShuffle icc options tags = .ok (some next)) :
    Placed icc commands data start next := by
  refine wholeTag_placed placed ?_ found
  intro num inserted after inside isKeyword zero follows emitted
  have typed :=
    @typeStart_follows icc commands data start inserted body.pos 3 follows
      (by omega) zero (by rw [isKeyword]; rfl)
  exact shuffled_follows typed (.inl ⟨rfl, rfl⟩) emitted

theorem sf32Shuffle_placed
    (placed : Placed icc commands data start body)
    (found : body.sf32Shuffle icc options tags = .ok (some next)) :
    Placed icc commands data start next := by
  refine wholeTag_placed placed ?_ found
  intro num inserted after inside isKeyword zero follows emitted
  have typed :=
    @typeStart_follows icc commands data start inserted body.pos 6 follows
      (by omega) zero (by rw [isKeyword]; rfl)
  exact shuffled_follows typed (.inr ⟨rfl, rfl⟩) emitted

theorem xyz_placed
    (placed : Placed icc commands data start body)
    (found : body.xyz icc options = .ok (some next)) :
    Placed icc commands data start next := by
  have header := placed.header
  have behind := placed.behind
  unfold Body.xyz at found
  split at found
  next shape =>
    obtain ⟨_, inside, isKeyword, zero⟩ := shape
    obtain ⟨inserted, isInserted, found⟩ := bind_eq_ok.1 found
    obtain ⟨bytes, isSlice, found⟩ := bind_eq_ok.1 found
    cases found
    have atPoint := insertTo_follows placed.follows behind isInserted
    have whole :=
      @Follows.snoc icc commands data start inserted
        { inserted with
          commands := inserted.commands ++ [kCommandXYZ]
          data := inserted.data ++ bytes } _ _ _ _ _ atPoint
        (executes_xyz isKeyword zero isSlice) rfl rfl
    exact whole.placed (by omega) inside
  next other =>
    cases found

theorem typeStarts_placed
    (placed : Placed icc commands data start body)
    (found : body.typeStarts icc options = .ok (some next)) :
    Placed icc commands data start next := by
  have header := placed.header
  have behind := placed.behind
  unfold Body.typeStarts at found
  split at found
  next shape =>
    obtain ⟨_, inside, zero⟩ := shape
    split at found
    next unknown =>
      cases found
    next i isKnown =>
      obtain ⟨inserted, isInserted, found⟩ := bind_eq_ok.1 found
      cases found
      have atType := insertTo_follows placed.follows behind isInserted
      have known : kTypeStrings[i]? = some (decodeKeyword icc body.pos) := by
        obtain ⟨within, same, _⟩ := List.idxOf?_eq_some_iff.1 isKnown
        rw [List.getElem?_eq_getElem within, same]
      exact (typeStart_follows atType inside zero known).placed (by omega) inside
  next other =>
    cases found

theorem firstMatch_mem
    {shapes : List (Checked (Option Body))}
    (found : Body.firstMatch shapes = .ok (some next)) :
    .ok (some next) ∈ shapes := by
  induction shapes with
  | nil =>
      cases found
  | cons shape shapes inductionHypothesis =>
      unfold Body.firstMatch at found
      obtain ⟨outcome, isOutcome, found⟩ := bind_eq_ok.1 found
      cases outcome with
      | some body =>
          cases found
          rw [isOutcome]
          exact List.mem_cons_self
      | none =>
          exact List.mem_cons_of_mem _ (inductionHypothesis found)

/-- What the loop notes about a position does not move it. -/
theorem enterTag_placed
    (placed : Placed icc commands data start body)
    (entered : body.enterTag tags = .ok next) :
    Placed icc commands data start next ∧ next.pos = body.pos := by
  unfold Body.enterTag at entered
  dsimp only at entered
  have kept :
      ∀ left : Body,
        left = (if body.current_tag ≠ none ∧
            body.current_tag_start + body.current_tag_size < body.pos then
          { body with current_tag := none }
        else
          body) →
          Placed icc commands data start left ∧ left.pos = body.pos := by
    intro left isLeft
    split at isLeft <;> subst isLeft
    · exact ⟨⟨placed.follows, placed.header, placed.behind, placed.inside⟩, rfl⟩
    · exact ⟨placed, rfl⟩
  generalize isLeft :
    (if body.current_tag ≠ none ∧
        body.current_tag_start + body.current_tag_size < body.pos then
      { body with current_tag := none }
    else
      body) = left at entered
  obtain ⟨placed, samePos⟩ := kept left isLeft.symm
  split at entered
  next outside =>
    cases entered
    exact ⟨placed, samePos⟩
  next tag isTag =>
    split at entered
    next absent =>
      cases entered
    next size isSize =>
      cases entered
      exact ⟨⟨placed.follows, placed.header, placed.behind, placed.inside⟩,
        samePos⟩

/-- A round of the loop over the body keeps its invariant. -/
theorem round_placed
    (placed : Placed icc commands data start body)
    (fits : icc.length < 2 ^ 64)
    (stepped : body.round icc options tags = .ok (.inl next)) :
    Placed icc commands data start next := by
  unfold Body.round at stepped
  split at stepped
  next before =>
    obtain ⟨entered, isEntered, stepped⟩ := bind_eq_ok.1 stepped
    obtain ⟨outcome, isOutcome, stepped⟩ := bind_eq_ok.1 stepped
    obtain ⟨inTag, samePos⟩ := enterTag_placed placed isEntered
    have noted := noteClut_placed inTag
    have notedPos : (entered.noteClut icc).pos = body.pos := by
      unfold Body.noteClut
      split <;> exact samePos
    cases outcome with
    | none =>
        cases stepped
        have behind := noted.behind
        refine ⟨noted.follows, noted.header, ?_, ?_⟩
        · exact Nat.le_succ_of_le behind
        · show (entered.noteClut icc).pos + 1 ≤ icc.length
          rw [notedPos]
          exact before
    | some body =>
        cases stepped
        have member := firstMatch_mem isOutcome
        simp only [List.mem_cons, List.not_mem_nil, or_false] at member
        rcases member with found | found | found | found | found | found |
          found | found
        · exact mabCurvPredict_placed inTag fits found.symm
        · exact mabClutPredict_placed noted fits found.symm
        · exact gbdPredict_placed noted fits found.symm
        · exact curvPredict_placed noted fits found.symm
        · exact mlucShuffle_placed noted found.symm
        · exact sf32Shuffle_placed noted found.symm
        · exact xyz_placed noted found.symm
        · exact typeStarts_placed noted found.symm
  next reached =>
    cases stepped

end Body

/-- The commands of the whole body take the decoder to the end. -/
theorem predictBody_follows
    {icc : List UInt8}
    {fuel : Nat}
    {options : PredictOptions}
    {tags : TagList}
    {body : Body}
    (header : kICCHeaderSize ≤ tags.tail_pos)
    (inside : tags.tail_pos ≤ icc.length)
    (fits : icc.length < 2 ^ 64)
    (ran : predictBody fuel icc options tags = .ok body) :
    Follows icc tags.commands tags.data tags.tail_pos body icc.length := by
  unfold predictBody at ran
  obtain ⟨last, isLast, ran⟩ := bind_eq_ok.1 ran
  obtain ⟨final, placed, ends⟩ :=
    run_invariant (Placed icc tags.commands tags.data tags.tail_pos) isLast
      ⟨⟨[], [], (List.append_nil _).symm, (List.append_nil _).symm,
          .nil icc tags.tail_pos⟩, header, Nat.le_refl _, inside⟩
      (fun before after placed stepped => round_placed placed fits stepped)
  have same : final = last := by
    unfold Body.round at ends
    split at ends
    next before =>
      obtain ⟨entered, _, ends⟩ := bind_eq_ok.1 ends
      obtain ⟨outcome, _, ends⟩ := bind_eq_ok.1 ends
      cases outcome <;> cases ends
    next reached =>
      cases ends
      rfl
  subst same
  have behind := placed.behind
  have inside := placed.inside
  exact insertTo_follows placed.follows (Nat.le_trans behind inside) ran

end Jxlz.Icc
