import Jxlz.Modular.FilterTreeDecisions
import Jxlz.Modular.GradientLookup

namespace Jxlz.Modular

open ContextPredict FilterTree

/-!
# Property vectors that are looked up alike

The tokenizer keeps the static properties and the gradient itself, the decoder keeps zeros
and, for some trees, a clamped gradient.  A lookup does not tell the two apart: the
constant property is only compared where both branches hold one leaf.
-/

section Lookup

variable {tree : List PropertyDecisionNode} {staticProps : List Int32}
  {filtered : FilteredTree} {flatTree : List FlatDecisionNode} {contextMap : List Nat}
  {first second : Nat → Int32}

/-- Two vectors are on the same side of all splits, but for the constant property. -/
def LookAlike
    (nodes : List FlatDecisionNode)
    (first second : Nat → Int32) :
    Prop :=
  ∀ node ∈ nodes,
    0 ≤ node.property0 →
    ∀ property splitval,
      (property, splitval) ∈ node.comparisons →
      property ≠ 0 →
      (first property.toNat ≤ splitval ↔ second property.toNat ≤ splitval)

/-- What the filter queued for every place of its output. -/
structure HistoryOf
    (tree : List PropertyDecisionNode)
    (staticProps : List Int32)
    (filtered : FilteredTree)
    (history : List Nat) :
    Prop where
  length : history.length = filtered.flatTree.length
  stands :
    ∀ (place : Nat) (flat : FlatDecisionNode),
      filtered.flatTree[place]? = some flat →
      ∃ position,
        history[place]? = some position ∧ Stands tree staticProps history position flat

theorem exists_history
    (isFiltered : filterTree tree staticProps = .ok filtered) :
    ∃ history, HistoryOf tree staticProps filtered history := by
  rw [filterTree] at isFiltered
  obtain ⟨state, looped, isFiltered⟩ := bind_eq_ok.1 isFiltered
  obtain ⟨⟨history, _, linked⟩, emptied⟩ :=
    loop_invariant
      (fun _ _ _ _ rootFirst isQueue stepped => rootFirst.step isQueue stepped)
      (rootFirst_initial tree staticProps) looped
  cases isFiltered
  obtain ⟨past, isHistory, length⟩ := linked.queue
  rw [emptied, List.append_nil] at isHistory
  subst isHistory
  exact ⟨history, length, linked.stands⟩

/-- A padded child queues its leaf twice. -/
theorem queued_of_padded
    {position : Nat}
    {side : Child}
    (isChild : child tree staticProps position = .ok side)
    (padded : side.property = 0) :
    side.queued[0]? = side.queued[1]? := by
  rw [child] at isChild
  obtain ⟨cur, skips, isChild⟩ := bind_eq_ok.1 isChild
  obtain ⟨node, found, isChild⟩ := bind_eq_ok.1 isChild
  split at isChild
  · cases isChild
    rfl
  · next isSplit =>
      obtain ⟨_, nonneg, isChild⟩ := bind_eq_ok.1 isChild
      have nonneg := require_eq_ok.1 nonneg
      obtain ⟨node', found', notStatic⟩ := skipStatic_found skips
      rw [index_eq_ok.1 found] at found'
      cases found'
      cases isChild
      change node.property = 0 at padded
      exact absurd ⟨nonneg, by rw [padded]; decide⟩ notStatic

/-- Vectors that look alike choose the same node of those that a child queues. -/
theorem queued_same
    {position : Nat}
    {side : Child}
    {splitval : Int32}
    (isChild : child tree staticProps position = .ok side)
    (alike :
      side.property ≠ 0 →
      (first side.property.toNat ≤ splitval ↔ second side.property.toNat ≤ splitval)) :
    side.queued[if first side.property.toNat ≤ splitval then 1 else 0]? =
      side.queued[if second side.property.toNat ≤ splitval then 1 else 0]? := by
  by_cases padded : side.property = 0
  · have same := queued_of_padded isChild padded
    split <;> split
    · rfl
    · exact same.symm
    · exact same
    · rfl
  · rw [if_congr (alike padded) rfl rfl]

/-- The places that a split goes on with are those of its children. -/
theorem goes_on
    {history : List Nat}
    {childID place place' : Nat}
    {left right : Child}
    (isLeft : child tree staticProps place = .ok left)
    (isRight : child tree staticProps place' = .ok right)
    (queued :
      ∀ ahead next,
        (left.queued ++ right.queued)[ahead]? = some next →
        history[childID + ahead]? = some next) :
    (∀ (condition : Prop) [Decidable condition],
        history[childID + if condition then 1 else 0]? =
          left.queued[if condition then 1 else 0]?) ∧
      ∀ (condition : Prop) [Decidable condition],
        history[childID + (2 ||| if condition then 1 else 0)]? =
          right.queued[if condition then 1 else 0]? := by
  have leftLength := (child_found isLeft).1
  have rightLength := (child_found isRight).1
  constructor
  · intro condition _
    obtain ⟨next, isNext⟩ := exists_queued leftLength condition
    rw [isNext, queued _ next (getElem?_append_of_some isNext _)]
  · intro condition _
    obtain ⟨next, isNext⟩ := exists_queued rightLength condition
    rw [isNext]
    apply queued
    rw [← isNext, List.getElem?_append_right]
    · rw [leftLength]
      split <;> rfl
    · rw [leftLength]
      split <;> decide

/-- A node of the tree whose contexts are mapped. -/
theorem mapped_at
    {nodes mapped : List FlatDecisionNode}
    {place : Nat}
    {flat : FlatDecisionNode}
    (isMapped : nodes.mapM (mapContext contextMap) = .ok mapped)
    (found : nodes[place]? = some flat) :
    ∃ node, mapped[place]? = some node ∧ mapContext contextMap flat = .ok node := by
  obtain ⟨inside, isFlat⟩ := List.getElem?_eq_some_iff.1 found
  have pairs := forall₂_of_mapM_eq_ok isMapped
  have inside' : place < mapped.length := by
    rw [← pairs.length_eq]
    exact inside
  refine ⟨mapped[place], List.getElem?_eq_getElem inside', ?_⟩
  rw [← isFlat]
  exact pairs.get inside inside'

/-- Lookups from two places that stand for one node of the tree end alike. -/
theorem lookupFrom_mapContext
    {history : List Nat}
    (mapped : filtered.flatTree.mapM (mapContext contextMap) = .ok flatTree)
    (alike : LookAlike filtered.flatTree first second)
    (isHistory : HistoryOf tree staticProps filtered history)
    {fuel place place' : Nat}
    {lr : LookupResult}
    (same : history[place]? = history[place']?)
    (found : MATreeLookup.lookupFrom filtered.flatTree first fuel place = .ok lr) :
    ∃ cluster,
      contextMap[lr.context]? = some cluster ∧
        MATreeLookup.lookupFrom flatTree second fuel place' =
          .ok { lr with context := cluster } := by
  induction fuel generalizing place place' with
  | zero =>
      cases found
  | succ fuel inductionHypothesis =>
      rw [MATreeLookup.lookupFrom] at found
      obtain ⟨flat, isFlat, found⟩ := bind_eq_ok.1 found
      have isFlat := index_eq_ok.1 isFlat
      obtain ⟨position, isPosition, stand⟩ := isHistory.stands place flat isFlat
      rw [isPosition] at same
      have inside : place' < filtered.flatTree.length := by
        rw [← isHistory.length]
        exact (List.getElem?_eq_some_iff.1 same.symm).1
      have isFlat' := List.getElem?_eq_getElem inside
      generalize filtered.flatTree[place'] = flat' at isFlat'
      obtain ⟨position', isPosition', stand'⟩ := isHistory.stands place' flat' isFlat'
      rw [← same] at isPosition'
      cases isPosition'
      obtain ⟨node, isNode, isMapped⟩ := mapped_at mapped isFlat'
      rw [MATreeLookup.lookupFrom, index_eq_ok.2 isNode, ok_bind]
      unfold mapContext at isMapped
      cases stand with
      | leaf skips isSource isLeaf isMultiplier =>
          cases stand' with
          | split skips' isSource' dynamic =>
              cases skips.symm.trans skips'
              cases isSource.symm.trans isSource'
              rw [isLeaf] at dynamic
              exact absurd dynamic (by decide)
          | leaf skips' isSource' _ isMultiplier' =>
              cases skips.symm.trans skips'
              cases isSource.symm.trans isSource'
              cases isMultiplier.symm.trans isMultiplier'
              rw [if_pos (by exact (by decide : (-1 : Int) < 0))] at isMapped
              obtain ⟨cluster, isCluster, isMapped⟩ := bind_eq_ok.1 isMapped
              cases isMapped
              cases found
              exact ⟨cluster, index_eq_ok.1 isCluster, rfl⟩
      | @split _ source _ _ flat skips isSource dynamic isLeft isRight property0 splitval0
          properties splitvals queued =>
          cases stand' with
          | leaf skips' isSource' isLeaf =>
              cases skips.symm.trans skips'
              cases isSource.symm.trans isSource'
              rw [isLeaf] at dynamic
              exact absurd dynamic (by decide)
          | split skips' isSource' _ isLeft' isRight' property0' splitval0' properties'
              splitvals' queued' =>
              cases skips.symm.trans skips'
              cases isSource.symm.trans isSource'
              cases isLeft.symm.trans isLeft'
              cases isRight.symm.trans isRight'
              have isSplit : 0 ≤ flat.property0 := by
                rw [property0]
                exact Int.le_trans (by decide) dynamic
              have isSplit' : ¬flat'.property0 < 0 := by
                rw [property0', ← property0]
                exact Int.not_lt.2 isSplit
              rw [if_neg isSplit'] at isMapped
              cases isMapped
              rw [if_neg (Int.not_lt.2 isSplit)] at found
              rw [if_neg isSplit', property0', splitval0', properties', splitvals']
              rw [property0, splitval0, properties, splitvals] at found
              dsimp only at found ⊢
              have compares := alike flat (List.mem_of_getElem? isFlat) isSplit
              unfold FlatDecisionNode.comparisons at compares
              rw [property0, splitval0, properties, splitvals] at compares
              have root := compares _ _ List.mem_cons_self (by
                intro zero
                rw [zero] at dynamic
                exact absurd dynamic (by decide))
              have left := queued_same isLeft
                (compares _ _ (List.mem_cons_of_mem _ List.mem_cons_self))
              have right := queued_same isRight
                (compares _ _ (List.mem_cons_of_mem _
                  (List.mem_cons_of_mem _ List.mem_cons_self)))
              refine inductionHypothesis ?_ found
              obtain ⟨toLeft, toRight⟩ := goes_on isLeft isRight queued
              obtain ⟨toLeft', toRight'⟩ := goes_on isLeft isRight queued'
              by_cases atMost : first source.property.toNat ≤ source.splitval
              · rw [if_pos atMost, if_pos (root.1 atMost), toRight, toRight']
                exact right
              · rw [if_neg atMost, if_neg (fun small => atMost (root.2 small)), toLeft,
                  toLeft']
                exact left

end Lookup

section Properties

/-- A sample that is raised and lowered to the range of the gradient lookup. -/
def clampedProperty
    (clamps : Bool)
    (property : Nat)
    (value : Int32) :
    Int32 :=
  if clamps = true ∧ property = kGradientProp then
    Int32.ofInt (max (-kGradientLookupRange) (min value.toInt (kGradientLookupRange - 1)))
  else
    value

/-- The decoder has the tokenizer's properties, with the gradient clamped. -/
def SameProperties
    (clamps : Bool)
    (written read : Nat → Int32) :
    Prop :=
  ∀ property,
    kNumStaticProperties ≤ property →
    read property = clampedProperty clamps property (written property)

variable {clamps : Bool} {written written' read : Nat → Int32} {uses : Nat → Bool}

theorem SameProperties.update
    (same : SameProperties clamps written read)
    (property : Nat)
    (value : Int32) :
    SameProperties clamps (Function.update written property value)
      (Function.update read property (clampedProperty clamps property value)) := by
  intro other dynamic
  by_cases isOther : other = property
  · subst isOther
    rw [Function.update_self, Function.update_self]
  · rw [Function.update_of_ne isOther, Function.update_of_ne isOther]
    exact same other dynamic

theorem clampedProperty_other
    {property : Nat}
    (other : property ≠ kGradientProp)
    (value : Int32) :
    clampedProperty clamps property value = value :=
  if_neg fun isGradient => other isGradient.2

/-- The cast of the decoder gives what that of the tokenizer gives. -/
def CastAlike
    (clamps : Bool)
    (written read : Nat × Checked Int32) :
    Prop :=
  written.1 = read.1 ∧
    ∀ value,
      written.2 = .ok value → read.2 = .ok (clampedProperty clamps written.1 value)

theorem truncate_of_toI32
    {value : Int}
    {result : Int32}
    (cast : toI32 value = .ok result) :
    truncate value = .ok result := by
  rw [← toI32_eq_ok cast, truncate, Int32.ofInt_toInt]

theorem pixelProperties_alike
    (x : Nat)
    (n : Neighbors)
    (prevGradient : Int) :
    List.Forall₂ (CastAlike clamps) (pixelProperties toI32 toI32 x n prevGradient)
      (pixelProperties truncate (narrowGradient clamps) x n prevGradient) := by
  have same (property : Nat) (run : Checked Int32) (other : property ≠ kGradientProp) :
      CastAlike clamps (property, run) (property, run) :=
    ⟨rfl, fun value isValue => by rw [clampedProperty_other other]; exact isValue⟩
  have cast (property : Nat) (value : Int) (other : property ≠ kGradientProp) :
      CastAlike clamps (property, toI32 value) (property, truncate value) :=
    ⟨rfl, fun result isCast => by
      rw [clampedProperty_other other]
      exact truncate_of_toI32 isCast⟩
  have gradient (value : Int) :
      CastAlike clamps (9, toI32 value) (9, narrowGradient clamps value) := by
    refine ⟨rfl, fun result isCast => ?_⟩
    cases clamps with
    | false =>
        exact truncate_of_toI32 isCast
    | true =>
        obtain ⟨clamped, narrowed, isClamped⟩ := narrowGradient_ok value
        dsimp only
        rw [narrowed, clampedProperty, if_pos ⟨rfl, rfl⟩, toI32_eq_ok isCast, ← isClamped,
          Int32.ofInt_toInt]
  unfold pixelProperties
  exact
    .cons (same 3 _ (by decide)) <| .cons (cast 4 _ (by decide)) <|
    .cons (cast 5 _ (by decide)) <| .cons (same 6 _ (by decide)) <|
    .cons (same 7 _ (by decide)) <| .cons (cast 8 _ (by decide)) <|
    .cons (gradient _) <| .cons (cast 10 _ (by decide)) <|
    .cons (cast 11 _ (by decide)) <| .cons (cast 12 _ (by decide)) <|
    .cons (cast 13 _ (by decide)) <| .cons (cast 14 _ (by decide)) .nil

theorem setProperty_alike
    {property : Nat}
    {value value' : Checked Int32}
    (same : SameProperties clamps written read)
    (alike : CastAlike clamps (property, value) (property, value'))
    (set : setProperty (uses property) property value written = .ok written') :
    ∃ read',
      setProperty (uses property) property value' read = .ok read' ∧
        SameProperties clamps written' read' := by
  unfold setProperty at set ⊢
  split at set
  · next used =>
      obtain ⟨result, isResult, set⟩ := bind_eq_ok.1 set
      cases set
      have cast : value' = .ok (clampedProperty clamps property result) :=
        alike.2 result isResult
      rw [if_pos used, cast, ok_bind]
      exact ⟨_, rfl, same.update property result⟩
  · next unused =>
      cases set
      rw [if_neg unused]
      exact ⟨read, rfl, same⟩

theorem setProperties_alike
    {values values' : List (Nat × Checked Int32)}
    (alike : List.Forall₂ (CastAlike clamps) values values')
    (same : SameProperties clamps written read)
    (set : setProperties uses values written = .ok written') :
    ∃ read',
      setProperties uses values' read = .ok read' ∧
        SameProperties clamps written' read' := by
  unfold setProperties at set ⊢
  induction alike generalizing written read with
  | nil =>
      cases set
      exact ⟨read, rfl, same⟩
  | @cons value value' values values' first _ inductionHypothesis =>
      obtain ⟨property, run⟩ := value
      obtain ⟨property', run'⟩ := value'
      obtain rfl : property = property' := first.1
      rw [List.foldlM_cons] at set ⊢
      obtain ⟨middle, isMiddle, set⟩ := bind_eq_ok.1 set
      obtain ⟨middle', isMiddle', same'⟩ := setProperty_alike same first isMiddle
      rw [isMiddle', ok_bind]
      exact inductionHypothesis same' set

/-- The weighted predictor sees the same neighbours on both sides. -/
theorem predictWeighted_alike
    {usesWP : Bool}
    {y x w : Nat}
    {n : Neighbors}
    {wp : Option Weighted.State}
    (same : SameProperties clamps written read) :
    let first := predictWeighted usesWP kWPProp y x w n wp written
    let second := predictWeighted usesWP kWPProp y x w n wp read
    second.1 = first.1 ∧ second.2.1 = first.2.1 ∧
      SameProperties clamps first.2.2 second.2.2 := by
  dsimp only
  unfold predictWeighted
  cases wp with
  | none =>
      exact ⟨rfl, rfl, same⟩
  | some state =>
      cases usesWP with
      | false =>
          exact ⟨rfl, rfl, same⟩
      | true =>
          have updated :=
            same.update kWPProp
              (state.predictNoProps x y w n.top n.left n.topright n.topleft n.toptop).1.wpProp
          rw [clampedProperty_other (by decide)] at updated
          exact ⟨rfl, rfl, updated⟩

theorem copyReferences_alike
    {referenceProps : List Nat}
    {references : References}
    {x : Nat}
    (large : ∀ property ∈ referenceProps, kNumNonrefProperties ≤ property)
    (same : SameProperties clamps written read) :
    SameProperties clamps (copyReferences referenceProps references x written)
      (copyReferences referenceProps references x read) := by
  unfold copyReferences
  induction referenceProps generalizing written read with
  | nil =>
      exact same
  | cons property referenceProps inductionHypothesis =>
      have isLarge := large property List.mem_cons_self
      have updated :=
        same.update property (references x (property - kNumNonrefProperties))
      rw [clampedProperty_other (by
        intro isGradient
        rw [isGradient] at isLarge
        exact absurd isLarge (by decide))] at updated
      exact
        inductionHypothesis
          (fun other isOther => large other (List.mem_cons_of_mem _ isOther)) updated

end Properties

section

variable {tree : List PropertyDecisionNode} {staticProps : List Int32}
  {filtered : FilteredTree} {flatTree : List FlatDecisionNode} {contextMap : List Nat}

/-- Only properties behind those of the pixel itself are listed as references. -/
theorem references_large
    (isFiltered : filterTree tree staticProps = .ok filtered) :
    ∀ property ∈ filtered.propertyUse.referenceProps, kNumNonrefProperties ≤ property := by
  have marked
      {plan : PropertyUsePlan}
      (large : ∀ property ∈ plan.referenceProps, kNumNonrefProperties ≤ property)
      (noted : Int) :
      ∀ property ∈ (plan.mark noted).referenceProps, kNumNonrefProperties ≤ property := by
    unfold PropertyUsePlan.mark
    intro property isListed
    split at isListed
    · exact large property isListed
    · dsimp only at isListed
      split at isListed
      · exact large property isListed
      · dsimp only at isListed
        split at isListed
        · rename_i isReference
          rcases List.mem_append.1 isListed with old | new
          · exact large property old
          · rw [List.mem_singleton.1 new]
            exact isReference
        · exact large property isListed
  rw [filterTree] at isFiltered
  obtain ⟨state, looped, isFiltered⟩ := bind_eq_ok.1 isFiltered
  obtain ⟨large, _⟩ :=
    @loop_invariant tree staticProps _ _
      (fun state =>
        ∀ property ∈ state.propertyUse.referenceProps, kNumNonrefProperties ≤ property)
      _ (fun _ _ _ _ large _ stepped => by
        cases stepped with
        | leaf => exact large
        | split => exact marked (marked (marked large _) _) _)
      (fun _ isListed => absurd isListed List.not_mem_nil) looped
  cases isFiltered
  exact fun property isListed => large property ((List.mem_insertionSort _).1 isListed)

/-- A split of the filtered tree is one of the tree, or the padding of a leaf. -/
theorem comparison_of_tree
    (isFiltered : filterTree tree staticProps = .ok filtered)
    {flat : FlatDecisionNode}
    (isMember : flat ∈ filtered.flatTree)
    {property : Int}
    {splitval : Int32}
    (isSplit : 0 ≤ flat.property0)
    (compares : (property, splitval) ∈ flat.comparisons)
    (real : property ≠ 0) :
    ∃ node ∈ tree, node.property = property ∧ node.splitval = splitval := by
  have ofChild
      {position : Nat}
      {side : Child}
      (isChild : child tree staticProps position = .ok side)
      (real : side.property ≠ 0) :
      ∃ node ∈ tree, node.property = side.property ∧ node.splitval = side.splitval := by
    rw [child] at isChild
    obtain ⟨cur, _, isChild⟩ := bind_eq_ok.1 isChild
    obtain ⟨node, found, isChild⟩ := bind_eq_ok.1 isChild
    split at isChild
    · cases isChild
      exact absurd rfl real
    · obtain ⟨_, _, isChild⟩ := bind_eq_ok.1 isChild
      cases isChild
      exact ⟨node, List.mem_of_getElem? (index_eq_ok.1 found), rfl, rfl⟩
  obtain ⟨history, isHistory⟩ := exists_history isFiltered
  obtain ⟨place, inside, isFlat⟩ := List.mem_iff_getElem.1 isMember
  obtain ⟨_, _, stand⟩ :=
    isHistory.stands place flat (by rw [List.getElem?_eq_getElem inside, isFlat])
  cases stand with
  | leaf => exact absurd isSplit (by exact (by decide : ¬(0 : Int) ≤ -1))
  | @split _ source _ _ flat _ isSource _ isLeft isRight property0 splitval0 properties
      splitvals =>
      unfold FlatDecisionNode.comparisons at compares
      rw [property0, splitval0, properties, splitvals] at compares
      rcases List.mem_cons.1 compares with isRoot | isChild
      · cases isRoot
        exact ⟨source, List.mem_of_getElem? isSource, rfl, rfl⟩
      · rcases List.mem_cons.1 isChild with isFirst | isSecond
        · cases isFirst
          exact ofChild isLeft real
        · cases List.mem_singleton.1 isSecond
          exact ofChild isRight real

/-- Mapping the contexts leaves the splits as they are. -/
theorem split_mapped
    (mapped : filtered.flatTree.mapM (mapContext contextMap) = .ok flatTree)
    {flat : FlatDecisionNode}
    (isMember : flat ∈ filtered.flatTree)
    (isSplit : 0 ≤ flat.property0) :
    flat ∈ flatTree := by
  obtain ⟨place, inside, isFlat⟩ := List.mem_iff_getElem.1 isMember
  obtain ⟨node, isNode, isMapped⟩ :=
    mapped_at mapped (by rw [List.getElem?_eq_getElem inside, isFlat])
  unfold mapContext at isMapped
  rw [if_neg (Int.not_lt.2 isSplit)] at isMapped
  cases isMapped
  exact List.mem_of_getElem? isNode

/-- The decoder looks up the leaf of the tokenizer, in the cluster of its context. -/
theorem lookup_alike
    {written read : Nat → Int32}
    {lr : LookupResult}
    (isFiltered : filterTree tree staticProps = .ok filtered)
    (mapped : filtered.flatTree.mapM (mapContext contextMap) = .ok flatTree)
    (inside :
      ∀ node ∈ tree,
        node.property = kGradientProp → -kGradientLookupRange ≤ node.splitval.toInt)
    (same :
      SameProperties (filtered.gradientOnly && gradientLookupCompatible flatTree) written
        read)
    (found : MATreeLookup.lookup filtered.flatTree written = .ok lr) :
    ∃ cluster,
      contextMap[lr.context]? = some cluster ∧
        MATreeLookup.lookup flatTree read = .ok { lr with context := cluster } := by
  obtain ⟨history, isHistory⟩ := exists_history isFiltered
  have alike : LookAlike filtered.flatTree written read := by
    intro flat isMember isSplit property splitval compares real
    obtain ⟨node, inTree, isProperty, isSplitval⟩ :=
      comparison_of_tree isFiltered isMember isSplit compares real
    have isRead := FlatDecisionNode.reads_of_comparisons compares
    have wellFormed := wellFormed_of_filterTree isFiltered
    obtain ⟨planned, _⟩ := wellFormed.planned flat isMember isSplit property isRead
    obtain ⟨dynamic, _⟩ := planned.resolve_left real
    have atLeast : kNumStaticProperties ≤ property.toNat := by
      omega
    rw [same property.toNat atLeast, clampedProperty]
    split
    · next clamps =>
        obtain ⟨clamps, isGradient⟩ := clamps
        obtain ⟨_, admitted⟩ := Bool.and_eq_true_iff.1 clamps
        have isNine : property = kGradientProp := by
          omega
        have room := inside node inTree (isProperty.trans isNine)
        rw [isSplitval] at room
        obtain ⟨root, left, right⟩ :=
          inLookupRange_of_compatible admitted (split_mapped mapped isMember isSplit) isSplit
        have inRange : inLookupRange splitval = true := by
          rcases List.mem_cons.1 compares with isRoot | isChild
          · cases isRoot
            exact root
          · rcases List.mem_cons.1 isChild with isFirst | isSecond
            · cases isFirst
              exact left isNine
            · cases List.mem_singleton.1 isSecond
              exact right isNine
        obtain ⟨toEnd, toOther⟩ := @clamp_le_iff (written property.toNat).toInt _ inRange
        have range : kGradientLookupRange = 8192 := rfl
        have cast :=
          toI32_eq_ok
            (@toI32_ok
              (max (-kGradientLookupRange)
                (min (written property.toNat).toInt (kGradientLookupRange - 1)))
              (by omega) (by omega))
        rw [Int32.le_iff_toInt_le, Int32.le_iff_toInt_le, cast]
        exact (toEnd.trans (toOther room)).symm
    · exact Iff.rfl
  have sameLength := (forall₂_of_mapM_eq_ok mapped).length_eq
  unfold MATreeLookup.lookup at found ⊢
  rw [← sameLength]
  exact lookupFrom_mapContext mapped alike isHistory rfl found

end

end Jxlz.Modular
