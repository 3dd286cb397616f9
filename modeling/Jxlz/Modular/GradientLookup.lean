import Jxlz.Modular.Encoding

namespace Jxlz.Modular

open ContextPredict

/-!
# The clamped gradient of the lookup

The decoder clamps the gradient property to the range of a lookup table when all splits
fit the table.  No split lies above the range, but one may lie right below it: then a
gradient that is as small is raised above the split.
-/

/-- The lookup of properties that are numbers of any size. -/
def wideLookupFrom
    (nodes : List FlatDecisionNode)
    (properties : Nat → Int) :
    Nat → Nat → Checked LookupResult
  | 0, _ => .error .running
  | fuel + 1, pos => do
      let node ← index nodes pos
      if node.property0 < 0 then
        return {
          context := node.childID
          predictor := node.predictor
          offset := node.predictorOffset
          multiplier := node.multiplier }
      else
        let p0 := properties node.property0.toNat ≤ node.splitval0.toInt
        let off0 :=
          if properties node.properties.1.toNat ≤ node.splitvals.1.toInt then 1 else 0
        let off1 :=
          2 |||
            if properties node.properties.2.toNat ≤ node.splitvals.2.toInt then 1 else 0
        wideLookupFrom nodes properties fuel
          (node.childID + if p0 then off1 else off0)

def wideLookup
    (nodes : List FlatDecisionNode)
    (properties : Nat → Int) :
    Checked LookupResult :=
  wideLookupFrom nodes properties nodes.length 0

/-- Property 9 has a value, the others are as they are. -/
def withGradient
    {α : Type}
    (properties : Nat → α)
    (gradient : α) :
    Nat → α :=
  Function.update properties kGradientProp gradient

variable {nodes : List FlatDecisionNode}

theorem lookup_eq_wideLookup
    (properties : Nat → Int32) :
    MATreeLookup.lookup nodes properties =
      wideLookup nodes fun property => (properties property).toInt := by
  have each (fuel : Nat) :
      ∀ pos,
        MATreeLookup.lookupFrom nodes properties fuel pos =
          wideLookupFrom nodes (fun property => (properties property).toInt) fuel pos := by
    induction fuel with
    | zero =>
        intro pos
        rfl
    | succ fuel inductionHypothesis =>
        intro pos
        rw [MATreeLookup.lookupFrom, wideLookupFrom]
        simp only [inductionHypothesis, Int32.le_iff_toInt_le]
  exact each nodes.length 0

/-- Two vectors of properties lie on the same side of a split. -/
def SameSide
    (first second : Nat → Int)
    (property : Int)
    (splitval : Int32) :
    Prop :=
  first property.toNat ≤ splitval.toInt ↔ second property.toNat ≤ splitval.toInt

/-- Properties on the same side of every split lead to the same leaf. -/
theorem wideLookup_congr
    {first second : Nat → Int}
    (same :
      ∀ node ∈ nodes,
        0 ≤ node.property0 →
        SameSide first second node.property0 node.splitval0 ∧
          SameSide first second node.properties.1 node.splitvals.1 ∧
          SameSide first second node.properties.2 node.splitvals.2) :
    wideLookup nodes first = wideLookup nodes second := by
  have each (fuel : Nat) :
      ∀ pos,
        wideLookupFrom nodes first fuel pos = wideLookupFrom nodes second fuel pos := by
    induction fuel with
    | zero =>
        intro pos
        rfl
    | succ fuel inductionHypothesis =>
        intro pos
        rw [wideLookupFrom, wideLookupFrom]
        cases found : index nodes pos with
        | error fault =>
            rfl
        | ok node =>
            rw [ok_bind, ok_bind]
            by_cases leaf : node.property0 < 0
            · rw [if_pos leaf, if_pos leaf]
            · have isMember := List.mem_of_getElem? (index_eq_ok.1 found)
              obtain ⟨root, left, right⟩ := same node isMember (Int.not_lt.1 leaf)
              unfold SameSide at root left right
              rw [if_neg leaf, if_neg leaf]
              simp only [inductionHypothesis, root, left, right]
  exact each nodes.length 0

/-- No split on the gradient lies below the range. -/
def SplitsInside
    (nodes : List FlatDecisionNode) :
    Prop :=
  ∀ node ∈ nodes,
    0 ≤ node.property0 →
    -kGradientLookupRange ≤ node.splitval0.toInt ∧
      (node.properties.1 = kGradientProp →
        -kGradientLookupRange ≤ node.splitvals.1.toInt) ∧
      (node.properties.2 = kGradientProp →
        -kGradientLookupRange ≤ node.splitvals.2.toInt)

theorem inLookupRange_iff
    {splitval : Int32} :
    inLookupRange splitval = true ↔
      -kGradientLookupRange - 1 ≤ splitval.toInt ∧
        splitval.toInt < kGradientLookupRange - 1 := by
  unfold inLookupRange
  rw [Bool.and_eq_true, decide_eq_true_iff, decide_eq_true_iff]

/-- The splits of an admitted tree. -/
theorem splits_of_compatible
    (admitted : gradientLookupCompatible nodes = true)
    {node : FlatDecisionNode}
    (isMember : node ∈ nodes)
    (isSplit : 0 ≤ node.property0) :
    (node.property0 = kGradientProp ∧ inLookupRange node.splitval0 = true) ∧
      (node.properties.1 < kNumStaticProperties ∨
        node.properties.1 = kGradientProp ∧ inLookupRange node.splitvals.1 = true) ∧
      (node.properties.2 < kNumStaticProperties ∨
        node.properties.2 = kGradientProp ∧ inLookupRange node.splitvals.2 = true) := by
  have here := List.all_eq_true.1 admitted node isMember
  rw [if_neg (Int.not_lt.2 isSplit)] at here
  simpa [and_assoc] using here

/-- Another gradient does not matter where no split tells it from the first one. -/
theorem wideLookup_withGradient
    (admitted : gradientLookupCompatible nodes = true)
    (properties : Nat → Int)
    {first second : Int}
    (same :
      ∀ node ∈ nodes,
        0 ≤ node.property0 →
        (first ≤ node.splitval0.toInt ↔ second ≤ node.splitval0.toInt) ∧
          (node.properties.1 = kGradientProp →
            (first ≤ node.splitvals.1.toInt ↔ second ≤ node.splitvals.1.toInt)) ∧
          (node.properties.2 = kGradientProp →
            (first ≤ node.splitvals.2.toInt ↔ second ≤ node.splitvals.2.toInt))) :
    wideLookup nodes (withGradient properties first) =
      wideLookup nodes (withGradient properties second) := by
  have gradient (value : Int) :
      withGradient properties value (kGradientProp : Int).toNat = value :=
    Function.update_self _ _ _
  have static {property : Int} {splitval : Int32}
      (isStatic : property < kNumStaticProperties) :
      SameSide (withGradient properties first) (withGradient properties second)
        property splitval := by
    have other : property.toNat ≠ kGradientProp := by
      unfold kNumStaticProperties at isStatic
      unfold kGradientProp
      omega
    unfold SameSide withGradient
    rw [Function.update_of_ne other, Function.update_of_ne other]
  refine wideLookup_congr fun node isMember isSplit => ?_
  obtain ⟨⟨isGradient, _⟩, left, right⟩ := splits_of_compatible admitted isMember isSplit
  obtain ⟨sameRoot, sameLeft, sameRight⟩ := same node isMember isSplit
  refine ⟨?_, ?_, ?_⟩
  · unfold SameSide
    rw [isGradient, gradient, gradient]
    exact sameRoot
  · rcases left with isStatic | ⟨isGradient', _⟩
    · exact static isStatic
    · unfold SameSide
      rw [isGradient', gradient, gradient]
      exact sameLeft isGradient'
  · rcases right with isStatic | ⟨isGradient', _⟩
    · exact static isStatic
    · unfold SameSide
      rw [isGradient', gradient, gradient]
      exact sameRight isGradient'

/-- The decoder's gradient is in the range. -/
theorem narrowGradient_ok
    (gradient : Int) :
    ∃ clamped,
      narrowGradient true gradient = .ok clamped ∧
        clamped.toInt =
          max (-kGradientLookupRange) (min gradient (kGradientLookupRange - 1)) := by
  have range : kGradientLookupRange = 8192 := rfl
  have cast :=
    @toI32_ok (max (-kGradientLookupRange) (min gradient (kGradientLookupRange - 1)))
      (by omega) (by omega)
  exact ⟨_, cast, toI32_eq_ok cast⟩

/-- A split inside the range does not notice the clamp, one below it only the lower end. -/
theorem clamp_le_iff
    {gradient : Int}
    {splitval : Int32}
    (inRange : inLookupRange splitval = true) :
    (max (-kGradientLookupRange) (min gradient (kGradientLookupRange - 1)) ≤
        splitval.toInt ↔
      max (-kGradientLookupRange) gradient ≤ splitval.toInt) ∧
      (-kGradientLookupRange ≤ splitval.toInt →
        (max (-kGradientLookupRange) gradient ≤ splitval.toInt ↔
          gradient ≤ splitval.toInt)) := by
  have range : kGradientLookupRange = 8192 := rfl
  obtain ⟨above, below⟩ := inLookupRange_iff.1 inRange
  constructor
  · omega
  · intro inside
    omega

/-- The comparisons with the gradient of an admitted tree have splits in the range. -/
theorem inLookupRange_of_compatible
    (admitted : gradientLookupCompatible nodes = true)
    {node : FlatDecisionNode}
    (isMember : node ∈ nodes)
    (isSplit : 0 ≤ node.property0) :
    inLookupRange node.splitval0 = true ∧
      (node.properties.1 = kGradientProp → inLookupRange node.splitvals.1 = true) ∧
      (node.properties.2 = kGradientProp → inLookupRange node.splitvals.2 = true) := by
  obtain ⟨⟨_, root⟩, left, right⟩ := splits_of_compatible admitted isMember isSplit
  have dynamic : ¬((kGradientProp : Nat) : Int) < kNumStaticProperties := by
    decide
  refine ⟨root, ?_, ?_⟩
  · intro isGradient
    exact (left.resolve_left (isGradient ▸ dynamic)).2
  · intro isGradient
    exact (right.resolve_left (isGradient ▸ dynamic)).2

/-- The lookup with a gradient that has been cast to a sample. -/
theorem lookup_withGradient
    (properties : Nat → Int32)
    (gradient : Int32) :
    MATreeLookup.lookup nodes (withGradient properties gradient) =
      wideLookup nodes
        (withGradient (fun property => (properties property).toInt) gradient.toInt) := by
  rw [lookup_eq_wideLookup]
  exact congrArg _ (Function.comp_update Int32.toInt properties kGradientProp gradient)

/--
The clamped gradient leads where the gradient raised to the range does.  Unless a split
lies below the range, that is where the gradient itself leads, and the sample that the
tokenizer makes of it.
-/
theorem clamped_lookup
    (admitted : gradientLookupCompatible nodes = true)
    (properties : Nat → Int32)
    (gradient : Int) :
    ∃ clamped,
      narrowGradient true gradient = .ok clamped ∧
        MATreeLookup.lookup nodes (withGradient properties clamped) =
            wideLookup nodes
              (withGradient (fun property => (properties property).toInt)
                (max (-kGradientLookupRange) gradient)) ∧
        (SplitsInside nodes →
          MATreeLookup.lookup nodes (withGradient properties clamped) =
              wideLookup nodes
                (withGradient (fun property => (properties property).toInt) gradient) ∧
            ∀ exact,
              toI32 gradient = .ok exact →
              MATreeLookup.lookup nodes (withGradient properties clamped) =
                MATreeLookup.lookup nodes (withGradient properties exact)) := by
  obtain ⟨clamped, isClamped, isValue⟩ := narrowGradient_ok gradient
  have raised :
      MATreeLookup.lookup nodes (withGradient properties clamped) =
        wideLookup nodes
          (withGradient (fun property => (properties property).toInt)
            (max (-kGradientLookupRange) gradient)) := by
    rw [lookup_withGradient, isValue]
    refine wideLookup_withGradient admitted _ fun node isMember isSplit => ?_
    obtain ⟨root, left, right⟩ := inLookupRange_of_compatible admitted isMember isSplit
    exact
      ⟨(clamp_le_iff root).1,
        fun isGradient => (clamp_le_iff (left isGradient)).1,
        fun isGradient => (clamp_le_iff (right isGradient)).1⟩
  refine ⟨clamped, isClamped, raised, fun inside => ?_⟩
  have unclamped :
      MATreeLookup.lookup nodes (withGradient properties clamped) =
        wideLookup nodes
          (withGradient (fun property => (properties property).toInt) gradient) := by
    refine raised.trans ?_
    refine wideLookup_withGradient admitted _ fun node isMember isSplit => ?_
    obtain ⟨root, left, right⟩ := inLookupRange_of_compatible admitted isMember isSplit
    obtain ⟨insideRoot, insideLeft, insideRight⟩ := inside node isMember isSplit
    exact
      ⟨(clamp_le_iff root).2 insideRoot,
        fun isGradient => (clamp_le_iff (left isGradient)).2 (insideLeft isGradient),
        fun isGradient => (clamp_le_iff (right isGradient)).2 (insideRight isGradient)⟩
  refine ⟨unclamped, ?_⟩
  intro exact isExact
  rw [unclamped, lookup_withGradient, toI32_eq_ok isExact]

/-- A tree with a split at each end of the range, and a gradient far beyond it. -/
theorem clamped_lookup_ends :
    let nodes : List FlatDecisionNode :=
      [{ property0 := 9, splitval0 := 8190, properties := (9, 0),
         splitvals := (-8192, 0), childID := 1 },
        { predictor := .gradient, childID := 0 },
        { predictor := .gradient, childID := 1 },
        { predictor := .gradient, childID := 2 },
        { predictor := .gradient, childID := 2 }]
    ∃ clamped,
      narrowGradient true (-(2 ^ 33)) = .ok clamped ∧
        MATreeLookup.lookup nodes (withGradient (fun _ => 0) clamped) =
          wideLookup nodes (withGradient (fun _ => 0) (-(2 ^ 33))) := by
  intro nodes
  have admitted : gradientLookupCompatible nodes = true := by
    decide
  obtain ⟨clamped, isClamped, _, unclamped⟩ :=
    clamped_lookup admitted (fun _ => 0) (-(2 ^ 33))
  exact ⟨clamped, isClamped, (unclamped (by unfold SplitsInside; decide)).1⟩

/-- Below a split right under the range, the clamped gradient takes the other branch. -/
theorem clamped_lookup_not_below :
    ∃ filtered clamped exact,
      filterTree
            [.split 9 (-8193) 1 2, .leaf .gradient 0 1,
              { PropertyDecisionNode.leaf .gradient 0 1 with lchild := 1 }]
            [0, 0] =
          .ok filtered ∧
        filtered.gradientOnly = true ∧
        gradientLookupCompatible filtered.flatTree = true ∧
        narrowGradient true (-8193) = .ok clamped ∧
        toI32 (-8193) = .ok exact ∧
        MATreeLookup.lookup filtered.flatTree (withGradient (fun _ => 0) clamped) ≠
          MATreeLookup.lookup filtered.flatTree (withGradient (fun _ => 0) exact) := by
  refine ⟨_, -8192, -8193, rfl, ?_, ?_, rfl, rfl, ?_⟩
  · rfl
  · decide
  · decide

end Jxlz.Modular
