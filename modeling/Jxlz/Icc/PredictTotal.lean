import Jxlz.Icc.PredictShapes

namespace Jxlz.Icc

open FuelLoop
open Container (slice)

/-!
# When a profile is taken apart

The encoder returns on a profile exactly when each round of its two loops finds
what it needs: numbers of the tag list that 32 bits can compare, listed tags
that hold their own keywords, and colour tables whose points can be counted.
Every other access and sum is in range for any bytes whatever.
-/

namespace Body

section Rounds

variable {icc : List UInt8}
variable {options : PredictOptions}
variable {tags : TagList}

/-- What the shapes need, each where the ones before it are not there. -/
def Fits
    (icc : List UInt8)
    (options : PredictOptions)
    (tags : TagList)
    (entered : Body) :
    Prop :=
  entered.mabCurvPredict icc options = .ok none →
    let noted := entered.noteClut icc
    noted.ClutFits icc options ∧
      (noted.mabClutPredict icc options = .ok none →
        noted.GbdFits icc options tags ∧
          (noted.gbdPredict icc options tags = .ok none →
            noted.TagFits icc tags options.model_curv_predict kCurvTag ∧
              noted.TagFits icc tags options.model_mluc_shuffle kMlucTag ∧
              noted.TagFits icc tags options.model_sf32_shuffle kSf32Tag))

/-- What a round of the loop over the body needs. -/
def RoundFits
    (icc : List UInt8)
    (options : PredictOptions)
    (tags : TagList)
    (self : Body) :
    Prop :=
  self.pos < icc.length →
    ∀ entered, self.enterTag tags = .ok entered → entered.Fits icc options tags

/-- A shape that is not there, or takes the loop to a later place. -/
def Leads
    (icc : List UInt8)
    (pos : Nat)
    (shape : Checked (Option Body)) :
    Prop :=
  shape = .ok none ∨
    ∃ next, shape = .ok (some next) ∧ next.Sited icc ∧ pos < next.pos

variable {self : Body} {shape : Checked (Option Body)}

theorem Settles.leads
    (settles : self.Settles icc shape)
    (sited : self.Sited icc) :
    Leads icc self.pos shape := by
  rcases settles with absent | ⟨next, found, advances⟩
  · exact .inl absent
  · have later := advances.sited sited
    obtain ⟨commands, data, pos, rfl, ahead, _⟩ := advances
    exact .inr ⟨_, found, later, ahead⟩

variable {shapes : List (Checked (Option Body))}

theorem firstMatch_none
    (absent : shape = .ok none) :
    firstMatch (shape :: shapes) = firstMatch shapes := by
  rw [firstMatch, absent]
  rfl

theorem firstMatch_error
    {fault : Fault}
    (failed : shape = .error fault) :
    firstMatch (shape :: shapes) = .error fault := by
  rw [firstMatch, failed]
  rfl

theorem firstMatch_some
    {next : Body}
    (found : shape = .ok (some next)) :
    firstMatch (shape :: shapes) = .ok (some next) := by
  rw [firstMatch, found]
  rfl

theorem firstMatch_leads
    {pos : Nat}
    (first : Leads icc pos shape)
    (others : shape = .ok none → Leads icc pos (firstMatch shapes)) :
    Leads icc pos (firstMatch (shape :: shapes)) := by
  rcases first with absent | ⟨next, found, later⟩
  · rw [firstMatch_none absent]
    exact others absent
  · exact .inr ⟨next, firstMatch_some found, later⟩

theorem noteClut_eq
    (self : Body) :
    ∃ clut_start, self.noteClut icc = { self with clut_start } := by
  unfold noteClut
  split
  · exact ⟨_, rfl⟩
  · exact ⟨self.clut_start, rfl⟩

theorem noteClut_sited
    (sited : self.Sited icc) :
    (self.noteClut icc).Sited icc ∧ (self.noteClut icc).pos = self.pos := by
  obtain ⟨clut_start, noted⟩ := @noteClut_eq icc self
  rw [noted]
  exact ⟨⟨sited.header, sited.behind, sited.inside, sited.entered⟩, rfl⟩

/-- The tag behind its end is left. -/
def leaveTag
    (self : Body) :
    Body :=
  if self.current_tag ≠ none ∧
      self.current_tag_start + self.current_tag_size < self.pos then
    { self with current_tag := none }
  else
    self

theorem enterTag_eq
    (self : Body) :
    self.enterTag tags =
      match tags.tag_types.lookup self.leaveTag.pos with
      | none => .ok self.leaveTag
      | some tag =>
          match tags.tag_sizes.lookup self.leaveTag.pos with
          | none => .error .trap
          | some size =>
              .ok {
                self.leaveTag with
                current_tag := some tag
                current_tag_start := self.leaveTag.pos
                current_tag_size := size
                clut_start := none } :=
  rfl

theorem leaveTag_eq
    (self : Body) :
    ∃ current_tag, self.leaveTag = { self with current_tag } := by
  unfold leaveTag
  split
  · exact ⟨none, rfl⟩
  · exact ⟨self.current_tag, rfl⟩

/-- A tag that is entered is found with its size. -/
theorem enterTag_ok
    (listed :
      ∀ pos tag,
        tags.tag_types.lookup pos = some tag →
        ∃ size, tags.tag_sizes.lookup pos = some size)
    (sited : self.Sited icc) :
    ∃ entered,
      self.enterTag tags = .ok entered ∧ entered.Sited icc ∧
        entered.pos = self.pos := by
  obtain ⟨header, behind, inside, before⟩ := sited
  obtain ⟨current_tag, left⟩ := self.leaveTag_eq
  rw [enterTag_eq, left]
  dsimp only
  cases isTag : tags.tag_types.lookup self.pos with
  | none =>
      exact ⟨_, rfl, ⟨header, behind, inside, before⟩, rfl⟩
  | some tag =>
      obtain ⟨size, isSize⟩ := listed self.pos tag isTag
      rw [isSize]
      exact ⟨_, rfl, ⟨header, behind, inside, Nat.le_refl _⟩, rfl⟩

theorem noteClut_again
    {entered : Body}
    {commands data : List UInt8}
    {insert_start : Nat} :
    { entered.noteClut icc with commands, data, insert_start }.noteClut icc =
      { entered.noteClut icc with commands, data, insert_start } := by
  by_cases here :
      entered.isMab ∧ entered.pos = entered.current_tag_start + 24 ∧
        entered.pos + 4 ≤ icc.length
  · have noted :
        entered.noteClut icc =
          { entered with
            clut_start :=
              some (entered.current_tag_start + decodeUint32 icc entered.pos) } :=
      if_pos here
    rw [noted]
    exact if_pos here
  · have noted : entered.noteClut icc = entered :=
      if_neg here
    rw [noted]
    exact if_neg here

variable {self entered : Body}

/-- A tag that was entered or left here is not entered or left anew. -/
theorem enterTag_again
    {commands data : List UInt8}
    {insert_start : Nat}
    (isEntered : self.enterTag tags = .ok entered) :
    { entered.noteClut icc with commands, data, insert_start }.enterTag tags =
      .ok { entered.noteClut icc with commands, data, insert_start } := by
  obtain ⟨clut_start, noted⟩ := @noteClut_eq icc entered
  rw [enterTag_eq] at isEntered
  cases isTag : tags.tag_types.lookup self.leaveTag.pos with
  | none =>
      rw [isTag] at isEntered
      cases isEntered
      have stays :
          { self.leaveTag with commands, data, insert_start, clut_start }.leaveTag =
            { self.leaveTag with commands, data, insert_start, clut_start } := by
        refine if_neg ?_
        rintro ⟨inTag, behind⟩
        by_cases left :
            self.current_tag ≠ none ∧
              self.current_tag_start + self.current_tag_size < self.pos
        · have isLeft : self.leaveTag = { self with current_tag := none } :=
            if_pos left
          rw [isLeft] at inTag
          exact inTag rfl
        · have isLeft : self.leaveTag = self :=
            if_neg left
          rw [isLeft] at inTag behind
          exact left ⟨inTag, behind⟩
      rw [noted, enterTag_eq, stays]
      dsimp only
      rw [isTag]
  | some tag =>
      rw [isTag] at isEntered
      cases isSize : tags.tag_sizes.lookup self.leaveTag.pos with
      | none =>
          rw [isSize] at isEntered
          cases isEntered
      | some size =>
          rw [isSize] at isEntered
          cases isEntered
          have unnoted :
              noteClut icc
                  { self.leaveTag with
                    current_tag := some tag
                    current_tag_start := self.leaveTag.pos
                    current_tag_size := size
                    clut_start := none } =
                { self.leaveTag with
                  current_tag := some tag
                  current_tag_start := self.leaveTag.pos
                  current_tag_size := size
                  clut_start := none } := by
            refine if_neg ?_
            rintro ⟨_, place, _⟩
            dsimp only at place
            omega
          rw [unnoted, enterTag_eq]
          obtain ⟨current_tag, left⟩ :=
            leaveTag_eq
              { self.leaveTag with
                commands
                data
                insert_start
                current_tag := some tag
                current_tag_start := self.leaveTag.pos
                current_tag_size := size
                clut_start := none }
          rw [left]
          dsimp only
          rw [isTag, isSize]

/-- The rounds of a loop that the tag list has no stop for. -/
theorem round_eq
    (before : self.pos < icc.length)
    (isEntered : self.enterTag tags = .ok entered) :
    self.round icc options tags =
      firstMatch
          [entered.mabCurvPredict icc options,
            (entered.noteClut icc).mabClutPredict icc options,
            (entered.noteClut icc).gbdPredict icc options tags,
            (entered.noteClut icc).curvPredict icc options tags,
            (entered.noteClut icc).mlucShuffle icc options tags,
            (entered.noteClut icc).sf32Shuffle icc options tags,
            (entered.noteClut icc).xyz icc options,
            (entered.noteClut icc).typeStarts icc options] >>=
        fun found =>
          match found with
          | some next => .ok (.inl next)
          | none =>
              .ok (.inl
                { entered.noteClut icc with pos := (entered.noteClut icc).pos + 1 }) := by
  unfold round
  rw [if_pos before, isEntered, ok_bind]
  rfl

/-- A round that finds what it needs takes the loop to a later place. -/
theorem round_leads
    (listed :
      ∀ pos tag,
        tags.tag_types.lookup pos = some tag →
        ∃ size, tags.tag_sizes.lookup pos = some size)
    (sited : self.Sited icc)
    (before : self.pos < icc.length)
    (fits : self.RoundFits icc options tags) :
    ∃ next,
      self.round icc options tags = .ok (.inl next) ∧ next.Sited icc ∧
        self.pos < next.pos := by
  obtain ⟨entered, isEntered, inTag, samePos⟩ := enterTag_ok listed sited
  obtain ⟨noted, notedPos⟩ := noteClut_sited inTag
  have needs := fits before entered isEntered
  rw [round_eq before isEntered]
  have atNoted :
      ∀ shape,
        (entered.noteClut icc).Settles icc shape → Leads icc self.pos shape := by
    intro shape settles
    rw [← samePos, ← notedPos]
    exact settles.leads noted
  have found :
      Leads icc self.pos
        (firstMatch
          [entered.mabCurvPredict icc options,
            (entered.noteClut icc).mabClutPredict icc options,
            (entered.noteClut icc).gbdPredict icc options tags,
            (entered.noteClut icc).curvPredict icc options tags,
            (entered.noteClut icc).mlucShuffle icc options tags,
            (entered.noteClut icc).sf32Shuffle icc options tags,
            (entered.noteClut icc).xyz icc options,
            (entered.noteClut icc).typeStarts icc options]) := by
    have curve := (@mabCurvPredict_settles icc options entered inTag).leads inTag
    rw [samePos] at curve
    refine firstMatch_leads curve fun noCurve => ?_
    obtain ⟨counted, needs⟩ := needs noCurve
    refine firstMatch_leads (atNoted _ (mabClutPredict_settles noted counted))
      fun noTable => ?_
    obtain ⟨holds, needs⟩ := needs noTable
    refine firstMatch_leads (atNoted _ (gbdPredict_settles noted holds))
      fun noBoundary => ?_
    obtain ⟨curv, mluc, sf32⟩ := needs noBoundary
    refine firstMatch_leads (atNoted _ (curvPredict_settles noted curv))
      fun _ => ?_
    refine firstMatch_leads (atNoted _ (mlucShuffle_settles noted mluc))
      fun _ => ?_
    refine firstMatch_leads (atNoted _ (sf32Shuffle_settles noted sf32))
      fun _ => ?_
    refine firstMatch_leads (atNoted _ (xyz_settles noted)) fun _ => ?_
    refine firstMatch_leads (atNoted _ (typeStarts_settles noted)) fun _ => ?_
    exact .inl rfl
  rcases found with absent | ⟨next, isNext, later, ahead⟩
  · rw [absent, ok_bind]
    refine ⟨_, rfl, ⟨noted.header, ?_, ?_, ?_⟩, ?_⟩
    · exact Nat.le_succ_of_le noted.behind
    · dsimp only
      omega
    · exact Nat.le_succ_of_le noted.entered
    · dsimp only
      omega
  · rw [isNext, ok_bind]
    exact ⟨next, rfl, later, ahead⟩

/-- A place that the loop comes back to for ever. -/
structure Held
    (icc : List UInt8)
    (options : PredictOptions)
    (tags : TagList)
    (body : Body) :
    Prop where
  sited : body.Sited icc
  before : body.pos < icc.length
  entered : body.enterTag tags = .ok body
  noted : body.noteClut icc = body
  noCurve : body.mabCurvPredict icc options = .ok none
  noTable : body.mabClutPredict icc options = .ok none
  empty : body.GbdEmpty icc options tags

/-- A round at an empty boundary takes the loop to such a place. -/
theorem round_holds
    (before : self.pos < icc.length)
    (isEntered : self.enterTag tags = .ok entered)
    (sited : (entered.noteClut icc).Sited icc)
    (samePos : (entered.noteClut icc).pos = self.pos)
    (noCurve : entered.mabCurvPredict icc options = .ok none)
    (noTable : (entered.noteClut icc).mabClutPredict icc options = .ok none)
    (empty : (entered.noteClut icc).GbdEmpty icc options tags) :
    ∃ next,
      self.round icc options tags = .ok (.inl next) ∧
        next.Held icc options tags := by
  obtain ⟨commands, data, holds⟩ := gbdPredict_holds sited empty
  rw [round_eq before isEntered, firstMatch_none noCurve,
    firstMatch_none noTable, firstMatch_some holds, ok_bind]
  refine ⟨_, rfl, ?_⟩
  obtain ⟨clut_start, noted⟩ := @noteClut_eq icc entered
  constructor
  · have header := Nat.le_trans sited.header sited.behind
    exact ⟨header, Nat.le_refl _, sited.inside, sited.entered⟩
  · dsimp only
    rw [samePos]
    exact before
  · exact enterTag_again isEntered
  · exact noteClut_again
  · rw [noted]
    exact
      @mabCurvPredict_none icc options entered commands data _ clut_start noCurve
  · exact mabClutPredict_none noTable
  · exact ⟨empty.enabled, empty.keyword, empty.zero, empty.empty⟩

/-- From there the loop never ends. -/
theorem Held.run_eq
    (held : self.Held icc options tags)
    (fuel : Nat) :
    run (Body.round icc options tags) .running fuel self = .error .running := by
  induction fuel generalizing self with
  | zero =>
      rfl
  | succ fuel inductionHypothesis =>
      have same := held.noted
      obtain ⟨next, isNext, later⟩ :=
        @round_holds icc options tags self self held.before held.entered
          (by rw [same]; exact held.sited) (by rw [same]) held.noCurve
          (by rw [same]; exact held.noTable) (by rw [same]; exact held.empty)
      rw [run, isNext]
      exact inductionHypothesis later

/-- A tag that is too short is there with its keyword. -/
theorem keyword_of_short
    {enabled : Bool}
    {keyword : Tag}
    (short : ¬self.TagFits icc tags enabled keyword) :
    decodeKeyword icc self.pos = keyword := by
  unfold TagFits at short
  push Not at short
  exact short.2.2.1

/-- One of three listed tags that is too short stops the encoder. -/
theorem firstMatch_short
    (unfit :
      ¬(self.TagFits icc tags options.model_curv_predict kCurvTag ∧
        self.TagFits icc tags options.model_mluc_shuffle kMlucTag ∧
        self.TagFits icc tags options.model_sf32_shuffle kSf32Tag)) :
    firstMatch
        (self.curvPredict icc options tags ::
          self.mlucShuffle icc options tags ::
            self.sf32Shuffle icc options tags :: shapes) =
      .error .trap := by
  by_cases curv : self.TagFits icc tags options.model_curv_predict kCurvTag
  · by_cases mluc : self.TagFits icc tags options.model_mluc_shuffle kMlucTag
    · have sf32 : ¬self.TagFits icc tags options.model_sf32_shuffle kSf32Tag :=
        fun fits => unfit ⟨curv, mluc, fits⟩
      have isSf32 := keyword_of_short sf32
      have noCurv : self.curvPredict icc options tags = .ok none :=
        wholeTag_none isSf32 (by decide)
      have noMluc : self.mlucShuffle icc options tags = .ok none :=
        wholeTag_none isSf32 (by decide)
      rw [firstMatch_none noCurv, firstMatch_none noMluc]
      exact firstMatch_error (wholeTag_traps sf32)
    · have isMluc := keyword_of_short mluc
      have noCurv : self.curvPredict icc options tags = .ok none :=
        wholeTag_none isMluc (by decide)
      rw [firstMatch_none noCurv]
      exact firstMatch_error (wholeTag_traps mluc)
  · exact firstMatch_error (wholeTag_traps curv)

/-- A round that does not find what it needs spoils the loop. -/
theorem round_spoils
    (listed :
      ∀ pos tag,
        tags.tag_types.lookup pos = some tag →
        ∃ size, tags.tag_sizes.lookup pos = some size)
    (sited : self.Sited icc)
    (unfit : ¬self.RoundFits icc options tags) :
    self.round icc options tags = .error .trap ∨
      ∃ next,
        self.round icc options tags = .ok (.inl next) ∧
          next.Held icc options tags := by
  unfold RoundFits at unfit
  push Not at unfit
  obtain ⟨before, entered, isEntered, unfit⟩ := unfit
  obtain ⟨found, isFound, inTag, samePos⟩ := enterTag_ok listed sited
  cases isFound.symm.trans isEntered
  obtain ⟨noted, notedPos⟩ := noteClut_sited inTag
  unfold Fits at unfit
  dsimp only at unfit
  push Not at unfit
  obtain ⟨noCurve, unfit⟩ := unfit
  have traps :
      firstMatch
            [(entered.noteClut icc).mabClutPredict icc options,
              (entered.noteClut icc).gbdPredict icc options tags,
              (entered.noteClut icc).curvPredict icc options tags,
              (entered.noteClut icc).mlucShuffle icc options tags,
              (entered.noteClut icc).sf32Shuffle icc options tags,
              (entered.noteClut icc).xyz icc options,
              (entered.noteClut icc).typeStarts icc options] =
          .error .trap →
        self.round icc options tags = .error .trap := by
    intro stopped
    rw [round_eq before isEntered, firstMatch_none noCurve, stopped]
    rfl
  by_cases counted : (entered.noteClut icc).ClutFits icc options
  · obtain ⟨noTable, unfit⟩ := unfit counted
    by_cases holds : (entered.noteClut icc).GbdFits icc options tags
    · obtain ⟨noBoundary, unfit⟩ := unfit holds
      refine .inl (traps ?_)
      rw [firstMatch_none noTable, firstMatch_none noBoundary]
      exact firstMatch_short fun fits => unfit fits.1 fits.2.1 fits.2.2
    · rcases gbdPredict_traps noted holds with stopped | empty
      · refine .inl (traps ?_)
        rw [firstMatch_none noTable]
        exact firstMatch_error stopped
      · exact .inr
          (round_holds before isEntered noted (notedPos.trans samePos) noCurve
            noTable empty)
  · exact .inl (traps (firstMatch_error (mabClutPredict_traps noted counted)))

end Rounds

end Body

namespace TagList

section Rounds

variable {icc : List UInt8}
variable {numtags : Nat}

/-- Three points are compared by sums of 32 bits. -/
def PointsFit
    (icc : List UInt8)
    (tag : Tag)
    (offsetr sizer tail_pos : Nat) :
    Prop :=
  tag = kRxyzTag ∧ tail_pos + 24 < icc.length ∧
      decodeKeyword icc tail_pos = kGxyzTag ∧
      decodeKeyword icc (tail_pos + 12) = kBxyzTag ∧ sizer = 20 ∧
      decodeUint32 icc (tail_pos + 8) = 20 ∧
      decodeUint32 icc (tail_pos + 20) = 20 →
    offsetr + 20 < 2 ^ 32 ∧
      (decodeUint32 icc (tail_pos + 4) = offsetr + 20 → offsetr + 40 < 2 ^ 32)

theorem isTagXYZ_ok
    {tag : Tag}
    {offsetr sizer tail_pos : Nat}
    (fits : PointsFit icc tag offsetr sizer tail_pos) :
    ∃ xyz,
      isTagXYZ icc tag offsetr sizer tail_pos = .ok xyz ∧
        (xyz → tail_pos + 24 < icc.length) := by
  unfold isTagXYZ
  split
  next shape =>
    obtain ⟨green, blue⟩ := fits shape
    rw [addU_ok green, ok_bind]
    split
    next isGreen =>
      rw [addU_ok (blue isGreen), ok_bind]
      exact ⟨_, rfl, fun _ => shape.2.1⟩
    next other =>
      exact ⟨_, rfl, fun _ => shape.2.1⟩
  next other =>
    exact ⟨false, rfl, fun isTrue => by cases isTrue⟩

theorem isTagXYZ_traps
    {tag : Tag}
    {offsetr sizer tail_pos : Nat}
    (unfit : ¬PointsFit icc tag offsetr sizer tail_pos) :
    isTagXYZ icc tag offsetr sizer tail_pos = .error .trap := by
  unfold PointsFit at unfit
  rw [Classical.not_imp] at unfit
  obtain ⟨shape, unfit⟩ := unfit
  unfold isTagXYZ
  rw [if_pos shape, addU]
  by_cases green : offsetr + 20 < 2 ^ 32
  · rw [if_pos green, ok_bind]
    rw [not_and, Classical.not_imp] at unfit
    obtain ⟨isGreen, large⟩ := unfit green
    rw [if_pos isGreen, addU, if_neg large]
    rfl
  · rw [if_neg green]
    rfl

/-- What a round of the loop over the tag list needs. -/
def RoundFits
    (icc : List UInt8)
    (numtags : Nat)
    (tags : TagList) :
    Prop :=
  tags.i < numtags →
    tags.tail_pos + 12 ≤ icc.length →
    PointsFit icc (decodeKeyword icc tags.tail_pos)
      (decodeUint32 icc (tags.tail_pos + 4))
      (decodeUint32 icc (tags.tail_pos + 8)) (tags.tail_pos + 12)

/-- Every listed tag has its size listed. -/
def Listed
    (tags : TagList) :
    Prop :=
  ∀ pos tag,
    tags.tag_types.lookup pos = some tag →
    ∃ size, tags.tag_sizes.lookup pos = some size

/-- The invariant of the loop over the tag list. -/
structure Counted
    (icc : List UInt8)
    (tags : TagList) :
    Prop where
  entries : tags.tail_pos = kICCHeaderSize + 4 + 12 * tags.i
  inside : tags.tail_pos ≤ icc.length
  listed : tags.Listed

theorem Listed.cons
    {tags next : TagList}
    {tagstart tagsize : Nat}
    {tag : Tag}
    (listed : tags.Listed)
    (sizes : next.tag_sizes = (tagstart, tagsize) :: tags.tag_sizes)
    (types : next.tag_types = (tagstart, tag) :: tags.tag_types) :
    next.Listed := by
  intro pos found isFound
  rw [types, List.lookup_cons] at isFound
  rw [sizes, List.lookup_cons]
  cases same : pos == tagstart with
  | true =>
      exact ⟨tagsize, rfl⟩
  | false =>
      rw [same] at isFound
      exact listed pos found isFound

/-- A round of the loop over the tag list takes the loop to a later entry. -/
theorem tagRound_leads
    {tags : TagList}
    (counted : tags.Counted icc)
    (small : icc.length ≤ kSizeLimit)
    (more : tags.i < numtags ∧ tags.tail_pos + 12 ≤ icc.length)
    (fits : tags.RoundFits icc numtags) :
    ∃ next,
      tagRound icc numtags tags = .ok (.inl next) ∧ next.Counted icc ∧
        tags.tail_pos < next.tail_pos := by
  have entries := counted.entries
  have limit : kSizeLimit < 2 ^ 30 := by
    decide
  obtain ⟨xyz, isXyz, xyzRoom⟩ := isTagXYZ_ok (fits more.1 more.2)
  unfold tagRound
  rw [if_pos more]
  unfold predictTag
  dsimp only
  rw [isXyz, ok_bind]
  generalize isTrc :
    isTagTRC icc (decodeKeyword icc tags.tail_pos) (tags.tail_pos + 12) = trc
  have trcRoom : trc → tags.tail_pos + 12 + 24 < icc.length := by
    intro holds
    rw [← isTrc] at holds
    unfold isTagTRC at holds
    exact (of_decide_eq_true holds).2.1
  have few : tags.i + (if (trc || xyz) = true then 3 else 1) < 2 ^ 32 := by
    split <;> omega
  rw [addU_ok few, ok_bind]
  refine ⟨_, rfl, ⟨?_, ?_, counted.listed.cons rfl rfl⟩, ?_⟩
  · dsimp only
    split <;> omega
  · dsimp only
    split
    next grouped =>
      rcases Bool.or_eq_true_iff.1 grouped with isTrue | isTrue
      · exact Nat.le_of_lt (trcRoom isTrue)
      · exact Nat.le_of_lt (xyzRoom isTrue)
    next alone =>
      exact more.2
  · dsimp only
    split <;> omega

theorem tagRound_traps
    {tags : TagList}
    (unfit : ¬tags.RoundFits icc numtags) :
    tagRound icc numtags tags = .error .trap := by
  unfold RoundFits at unfit
  rw [Classical.not_imp, Classical.not_imp] at unfit
  obtain ⟨more, room, unfit⟩ := unfit
  unfold tagRound
  rw [if_pos ⟨more, room⟩]
  unfold predictTag
  dsimp only
  rw [isTagXYZ_traps unfit]
  rfl

/-- The loop over the tag list returns if each round finds what it needs. -/
theorem run_returns
    {fuel : Nat}
    {tags : TagList}
    (counted : tags.Counted icc)
    (small : icc.length ≤ kSizeLimit)
    (enough : icc.length < fuel) :
    Returns (run (tagRound icc numtags) .running fuel tags) ↔
      ∀ count last,
        Rounds (tagRound icc numtags) count tags last →
        last.RoundFits icc numtags := by
  refine
    @run_iff Fault TagList TagList (tagRound icc numtags) .running Returns
      (Counted icc) (RoundFits icc numtags)
      (fun tags => icc.length - tags.tail_pos) ?_ ?_ ?_ ?_ fuel tags counted
      (by omega)
  · intro before after counted fits stepped
    by_cases more : before.i < numtags ∧ before.tail_pos + 12 ≤ icc.length
    · obtain ⟨next, isNext, kept, ahead⟩ :=
        tagRound_leads counted small more fits
      cases isNext.symm.trans stepped
      have inside := kept.inside
      exact ⟨kept, by omega⟩
    · unfold tagRound at stepped
      rw [if_neg more] at stepped
      cases stepped
  · intro last result _ _ _
    exact within_ok result
  · intro last fault counted fits stepped
    by_cases more : last.i < numtags ∧ last.tail_pos + 12 ≤ icc.length
    · obtain ⟨next, isNext, _⟩ := tagRound_leads counted small more fits
      cases isNext.symm.trans stepped
    · unfold tagRound at stepped
      rw [if_neg more] at stepped
      cases stepped
  · intro last fuel counted unfit returns
    cases fuel with
    | zero =>
        exact not_returns_running returns
    | succ fuel =>
        rw [run, tagRound_traps unfit] at returns
        exact not_returns_trap returns

theorem counted_of_run
    {fuel : Nat}
    {tags result : TagList}
    (counted : tags.Counted icc)
    (small : icc.length ≤ kSizeLimit)
    (ran : run (tagRound icc numtags) .running fuel tags = .ok result) :
    result.Counted icc := by
  obtain ⟨last, counted, ends⟩ :=
    run_invariant (Counted icc) ran counted fun before after counted stepped => by
      by_cases fits : before.RoundFits icc numtags
      · by_cases more : before.i < numtags ∧ before.tail_pos + 12 ≤ icc.length
        · obtain ⟨next, isNext, kept, _⟩ :=
            tagRound_leads counted small more fits
          cases isNext.symm.trans stepped
          exact kept
        · unfold tagRound at stepped
          rw [if_neg more] at stepped
          cases stepped
      · rw [tagRound_traps fits] at stepped
        cases stepped
  unfold tagRound at ends
  split at ends
  next more =>
    obtain ⟨next, _, ends⟩ := bind_eq_ok.1 ends
    cases ends
  next done =>
    cases ends
    exact counted

end Rounds

end TagList

/-- The loop over the body returns if each round finds what it needs. -/
theorem Body.run_returns
    {icc : List UInt8}
    {options : PredictOptions}
    {tags : TagList}
    {fuel : Nat}
    {body : Body}
    (listed : tags.Listed)
    (sited : body.Sited icc)
    (enough : icc.length < fuel) :
    Returns (run (Body.round icc options tags) .running fuel body) ↔
      ∀ count last,
        Rounds (Body.round icc options tags) count body last →
        last.RoundFits icc options tags := by
  refine
    @run_iff Fault Body Body (Body.round icc options tags) .running Returns
      (Body.Sited icc) (Body.RoundFits icc options tags)
      (fun body => icc.length - body.pos) ?_ ?_ ?_ ?_ fuel body sited
      (by omega)
  · intro before after sited fits stepped
    by_cases more : before.pos < icc.length
    · obtain ⟨next, isNext, kept, ahead⟩ :=
        Body.round_leads listed sited more fits
      cases isNext.symm.trans stepped
      have inside := kept.inside
      exact ⟨kept, by omega⟩
    · unfold Body.round at stepped
      rw [if_neg more] at stepped
      cases stepped
  · intro last result _ _ _
    exact within_ok result
  · intro last fault sited fits stepped
    by_cases more : last.pos < icc.length
    · obtain ⟨next, isNext, _⟩ := Body.round_leads listed sited more fits
      cases isNext.symm.trans stepped
    · unfold Body.round at stepped
      rw [if_neg more] at stepped
      cases stepped
  · intro last fuel sited unfit returns
    rcases Body.round_spoils listed sited unfit with stopped | ⟨next, isNext, held⟩
    · cases fuel with
      | zero =>
          exact not_returns_running returns
      | succ fuel =>
          rw [run, stopped] at returns
          exact not_returns_trap returns
    · cases fuel with
      | zero =>
          exact not_returns_running returns
      | succ fuel =>
          rw [run, isNext] at returns
          dsimp only at returns
          rw [held.run_eq fuel] at returns
          exact not_returns_running returns

theorem length_storeHeader
    {header bytes : List UInt8}
    {pos : Nat}
    (inside : pos + bytes.length ≤ header.length) :
    (storeHeader header pos bytes).length = header.length := by
  unfold storeHeader
  rw [List.length_append, List.length_append, List.length_take,
    List.length_drop]
  omega

/-- What is known about a header does not change its length. -/
theorem length_predictHeader
    {icc header : List UInt8}
    (pos : Nat)
    (whole : header.length = kICCHeaderSize) :
    (predictHeader icc header pos).length = kICCHeaderSize := by
  unfold kICCHeaderSize at whole
  have stored :
      ∀ (place : Nat) (bytes : List UInt8),
        place + bytes.length ≤ 128 →
        (storeHeader header place bytes).length = kICCHeaderSize := by
    intro place bytes inside
    rw [length_storeHeader (by omega), whole]
    rfl
  have few : ((icc.drop 4).take 4).length ≤ 4 := List.length_take_le _ _
  unfold predictHeader
  split_ifs
  · exact stored 80 _ (by omega)
  · exact stored 41 _ (by decide)
  · exact stored 41 _ (by decide)
  · exact whole
  · exact stored 42 _ (by decide)
  · exact stored 42 _ (by decide)
  · exact whole
  · exact whole

/-- The header is always predicted. -/
theorem header_ok
    (icc : List UInt8) :
    ∃ state,
      (List.range (min icc.length kICCHeaderSize)).foldlM
          (predictHeaderByte icc) (initialHeaderPrediction icc.length, []) =
        .ok state := by
  obtain ⟨state, ran, _⟩ :=
    @foldlM_range_ok (List UInt8 × List UInt8) (predictHeaderByte icc)
      (fun _ state => state.1.length = kICCHeaderSize)
      (initialHeaderPrediction icc.length, []) (min icc.length kICCHeaderSize)
      (length_initialHeaderPrediction icc.length) fun i state before whole => by
        have header := @length_predictHeader icc state.1 i whole
        have inHeader : i < (predictHeader icc state.1 i).length := by
          omega
        unfold predictHeaderByte
        dsimp only
        rw [index_ok (by omega), ok_bind, index_ok inHeader, ok_bind]
        exact ⟨_, rfl, header⟩
  exact ⟨state, ran⟩

/-- The tag list before its first entry. -/
def firstTag
    (icc data : List UInt8) :
    TagList where
  tail_pos := kICCHeaderSize + 4
  prevtagstart := kICCHeaderSize + decodeUint32 icc kICCHeaderSize * 12
  commands := varInt (decodeUint32 icc kICCHeaderSize + 1)
  data := data

/-- The body before its first round. -/
def firstBody
    (tags : TagList) :
    Body where
  pos := tags.tail_pos
  insert_start := tags.tail_pos
  commands := tags.commands
  data := tags.data

/-- What all rounds of the two loops behind the header need. -/
structure TailFits
    (fuel : Nat)
    (icc : List UInt8)
    (options : PredictOptions)
    (data : List UInt8) :
    Prop where
  tags :
    options.model_tag_list →
      kICCHeaderSize + 4 ≤ icc.length →
      ∀ count last,
        Rounds (tagRound icc (decodeUint32 icc kICCHeaderSize)) count
            (firstTag icc data) last →
        last.RoundFits icc (decodeUint32 icc kICCHeaderSize)
  body :
    ∀ tags,
      predictTagList fuel icc options data = .ok tags →
      ∀ count last,
        Rounds (Body.round icc options tags) count (firstBody tags) last →
        last.RoundFits icc options tags

section Tail

variable {fuel : Nat}
variable {icc data : List UInt8}
variable {options : PredictOptions}

theorem firstTag_counted
    (room : kICCHeaderSize + 4 ≤ icc.length) :
    (firstTag icc data).Counted icc where
  entries := rfl
  inside := room
  listed := by
    intro pos tag isTag
    cases isTag

theorem predictTagList_returns
    (small : icc.length ≤ kSizeLimit)
    (enough : icc.length < fuel) :
    Returns (predictTagList fuel icc options data) ↔
      (options.model_tag_list →
        kICCHeaderSize + 4 ≤ icc.length →
        ∀ count last,
          Rounds (tagRound icc (decodeUint32 icc kICCHeaderSize)) count
              (firstTag icc data) last →
          last.RoundFits icc (decodeUint32 icc kICCHeaderSize)) := by
  unfold predictTagList
  by_cases listed : options.model_tag_list ∧ kICCHeaderSize + 4 ≤ icc.length
  · have counted := @firstTag_counted icc data listed.2
    have loop :=
      @TagList.run_returns icc (decodeUint32 icc kICCHeaderSize) fuel
        (firstTag icc data) counted small enough
    rw [if_pos listed]
    constructor
    · intro returns _ _
      exact loop.1 (within_bind.1 returns).1
    · intro fits
      exact (loop.2 (fits listed.1 listed.2)).bind fun tags _ => within_ok _
  · rw [if_neg listed]
    exact ⟨fun _ modelled room => (listed ⟨modelled, room⟩).elim,
      fun _ => within_ok _⟩

/-- Behind the tag list the body starts inside of the profile. -/
theorem predictTagList_listed
    {tags : TagList}
    (small : icc.length ≤ kSizeLimit)
    (behind : kICCHeaderSize < icc.length)
    (read : predictTagList fuel icc options data = .ok tags) :
    tags.Listed ∧ (firstBody tags).Sited icc := by
  unfold predictTagList at read
  split at read
  next listed =>
    obtain ⟨last, ran, read⟩ := bind_eq_ok.1 read
    cases read
    have counted :=
      TagList.counted_of_run (@firstTag_counted icc data listed.2) small ran
    have entries := counted.entries
    refine ⟨counted.listed, ⟨?_, Nat.le_refl _, counted.inside, Nat.zero_le _⟩⟩
    show kICCHeaderSize ≤ last.tail_pos
    omega
  next other =>
    cases read
    refine ⟨?_, ⟨Nat.le_refl _, Nat.le_refl _, Nat.le_of_lt behind,
      Nat.zero_le _⟩⟩
    intro pos tag isTag
    cases isTag

theorem predictBody_returns
    {tags : TagList}
    (listed : tags.Listed)
    (sited : (firstBody tags).Sited icc)
    (enough : icc.length < fuel) :
    Returns (predictBody fuel icc options tags) ↔
      ∀ count last,
        Rounds (Body.round icc options tags) count (firstBody tags) last →
        last.RoundFits icc options tags := by
  have loop := @Body.run_returns icc options tags fuel _ listed sited enough
  unfold predictBody
  constructor
  · intro returns
    exact loop.1 (within_bind.1 returns).1
  · intro fits
    refine (loop.2 fits).bind fun last ran => ?_
    obtain ⟨final, sited, ends⟩ :=
      run_invariant (Body.Sited icc) ran sited
        fun before after sited stepped => by
          by_cases more : before.pos < icc.length
          · by_cases fit : before.RoundFits icc options tags
            · obtain ⟨next, isNext, kept, _⟩ :=
                Body.round_leads listed sited more fit
              cases isNext.symm.trans stepped
              exact kept
            · rcases Body.round_spoils listed sited fit with
                stopped | ⟨next, isNext, held⟩
              · cases stopped.symm.trans stepped
              · cases isNext.symm.trans stepped
                exact held.sited
          · unfold Body.round at stepped
            rw [if_neg more] at stepped
            cases stepped
    have same : final = last := by
      unfold Body.round at ends
      split at ends
      next before =>
        obtain ⟨entered, _, ends⟩ := bind_eq_ok.1 ends
        obtain ⟨outcome, _, ends⟩ := bind_eq_ok.1 ends
        cases outcome <;> cases ends
      next reached =>
        cases ends
        rfl
    subst same
    obtain ⟨commands, data, inserted⟩ :=
      @Body.insertTo_ok icc final icc.length
        (Nat.le_trans sited.behind sited.inside) (Nat.le_refl _)
    exact .of_eq_ok inserted

/-- Behind the header both loops have to return. -/
theorem predictTail_returns
    (small : icc.length ≤ kSizeLimit)
    (enough : icc.length < fuel) :
    Returns (predictTail fuel icc options data) ↔
      (kICCHeaderSize < icc.length → TailFits fuel icc options data) := by
  unfold predictTail
  by_cases behind : kICCHeaderSize < icc.length
  · rw [if_pos behind]
    constructor
    · intro returns _
      obtain ⟨list, body⟩ := within_bind.1 returns
      refine ⟨(predictTagList_returns small enough).1 list, ?_⟩
      intro tags read
      obtain ⟨listed, sited⟩ := predictTagList_listed small behind read
      exact (predictBody_returns listed sited enough).1
        (within_bind.1 (body tags read)).1
    · intro fits
      obtain ⟨list, body⟩ := fits behind
      refine ((predictTagList_returns small enough).2 list).bind ?_
      intro tags read
      obtain ⟨listed, sited⟩ := predictTagList_listed small behind read
      exact ((predictBody_returns listed sited enough).2 (body tags read)).bind
        fun last _ => within_ok _
  · rw [if_neg behind]
    exact ⟨fun _ longer => (behind longer).elim, fun _ => within_ok _⟩

end Tail

/-- The shapes that the encoder looks for. -/
def allShapes : PredictOptions where
  model_tag_list := true
  model_type_starts := true
  model_xyz := true
  model_mluc_shuffle := true
  model_sf32_shuffle := true
  model_curv_predict := true
  model_gbd_predict := true
  model_mab_curv_predict := true
  model_mab_clut_predict := true

/-- What the encoder needs to take a profile apart. -/
def PredictFits
    (fuel : Nat)
    (icc : List UInt8) :
    Prop :=
  icc.length ≤ kSizeLimit →
    kICCHeaderSize < icc.length →
    ∀ header data,
      (List.range (min icc.length kICCHeaderSize)).foldlM
          (predictHeaderByte icc) (initialHeaderPrediction icc.length, []) =
          .ok (header, data) →
      TailFits fuel icc allShapes data

/--
With rounds enough for its bytes, a profile is taken apart or rejected exactly
when every round of the encoder finds what it needs, and the blocks that it
shuffles are walked inside of their bounds.
-/
theorem predictICC_returns_iff
    {fuel : Nat}
    {icc : List UInt8}
    (enough : icc.length < fuel) :
    (Returns (predictICC fuel icc) ↔ PredictFits fuel icc) ∧
      ∀ len width,
        0 < width → ∀ place ∈ blockPlaces len width, place < len := by
  refine ⟨?_, fun len width positive => (blockPlaces_nodup positive).2⟩
  unfold predictICC predictICCImpl PredictFits
  by_cases large : kSizeLimit < icc.length
  · rw [if_pos large]
    exact ⟨fun _ small => absurd large (Nat.not_lt_of_le small),
      fun _ => returns_fail _⟩
  · rw [if_neg large]
    have small := Nat.le_of_not_lt large
    obtain ⟨⟨header, data⟩, isHeader⟩ := header_ok icc
    rw [isHeader, ok_bind]
    have tail := @predictTail_returns fuel icc data allShapes small enough
    constructor
    · intro returns _ behind _ _ isState
      cases isState
      exact tail.1 (within_bind.1 returns).1 behind
    · intro fits
      refine (tail.2 fun behind => fits small behind header data rfl).bind ?_
      intro streams _
      exact within_ok _

/-- A profile with one listed tag of a size, and a keyword where it starts. -/
def oneTag
    (size : UInt8)
    (keyword : Tag)
    (payload : List UInt8) :
    List UInt8 :=
  List.replicate 128 0 ++ [0, 0, 0, 1] ++ kDescTag.bytes ++ [0, 0, 0, 144] ++
    [0, 0, 0, size] ++ keyword.bytes ++ [0, 0, 0, 0] ++ payload

theorem predictICC_returns_iff_curve :
    PredictFits 160 (oneTag 9 kCurvTag [7]) := by
  refine (predictICC_returns_iff (by decide +kernel)).1.1 ?_
  have returned : (predictICC 160 (oneTag 9 kCurvTag [7])).toOption.isSome := by
    decide +kernel
  cases isEncoding : predictICC 160 (oneTag 9 kCurvTag [7]) with
  | ok encoding =>
      exact within_ok encoding
  | error fault =>
      rw [isEncoding] at returned
      cases returned

/-- A curve in a listed tag of four bytes stops the encoder. -/
theorem predictICC_short_curve :
    (oneTag 4 kCurvTag []).length ≤ kSizeLimit ∧
      ¬Returns (predictICC 160 (oneTag 4 kCurvTag [])) := by
  refine ⟨by decide +kernel, ?_⟩
  have stopped : predictICC 160 (oneTag 4 kCurvTag []) = .error .trap := by
    decide +kernel
  rw [stopped]
  exact not_returns_trap

end Jxlz.Icc
