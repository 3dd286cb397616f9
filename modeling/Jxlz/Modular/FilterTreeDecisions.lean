import Jxlz.Modular.FilterTree
import Jxlz.Modular.ValidateTreeExact

namespace Jxlz.ContextPredict

open BreadthFirst

/-!
# The decisions of a filtered tree

A lookup in a filtered tree goes down two levels of the tree in one step and
passes over the splits that the static properties decide.  It ends in the leaf
that a walk through the tree from node to node ends in: every place of the
output stands for a node of the tree, the one that was queued for it.
-/

/--
A tree whose splits have children behind them and properties that the plan has
room for, and whose leaves have multipliers that fit a sample.
-/
structure Forward
    (tree : List PropertyDecisionNode) :
    Prop where
  nonempty :
    0 < tree.length
  property :
    ∀ node ∈ tree, node.property ≠ -1 → 0 ≤ node.property ∧ node.property < 256
  children :
    ∀ (place : Nat) (node : PropertyDecisionNode),
      tree[place]? = some node →
      node.property ≠ -1 →
      (place < node.lchild ∧ node.lchild < tree.length) ∧
        place < node.rchild ∧ node.rchild < tree.length
  multiplier :
    ∀ node ∈ tree, node.multiplier < 2 ^ 31

/-- The number of nodes below a place, counted once for each path to them. -/
inductive Unfolds
    (tree : List PropertyDecisionNode) :
    Nat → Nat → Prop where
  | leaf
      {place : Nat}
      {node : PropertyDecisionNode}
      (found : tree[place]? = some node)
      (isLeaf : node.property = -1) :
      Unfolds tree place 1
  | split
      {place left right : Nat}
      {node : PropertyDecisionNode}
      (found : tree[place]? = some node)
      (isSplit : node.property ≠ -1)
      (leftSize : Unfolds tree node.lchild left)
      (rightSize : Unfolds tree node.rchild right) :
      Unfolds tree place (left + right + 1)

/-- A vector of property values that has the given static ones. -/
def Extends
    (staticProps : List Int32)
    (properties : Nat → Int32) :
    Prop :=
  ∀ property value,
    staticProps[property]? = some value → properties property = value

/-- The leaf that a walk from a place ends in. -/
def Reaches
    (tree : List PropertyDecisionNode)
    (properties : Nat → Int32)
    (place : Nat)
    (node : PropertyDecisionNode) :
    Prop :=
  ∃ edges leaf,
    Walk (Follows tree properties) place edges leaf ∧
      tree[leaf]? = some node ∧ node.property = -1

variable {tree : List PropertyDecisionNode}
variable {staticProps : List Int32}

theorem Reaches.follows
    {properties : Nat → Int32}
    {place next : Nat}
    {node : PropertyDecisionNode}
    (reaches : Reaches tree properties next node)
    (follows : Follows tree properties place next) :
    Reaches tree properties place node := by
  obtain ⟨edges, leaf, walk, isLeaf⟩ := reaches
  exact ⟨edges + 1, leaf, .head follows walk, isLeaf⟩

theorem Unfolds.positive
    {place size : Nat}
    (unfolds : Unfolds tree place size) :
    0 < size := by
  cases unfolds <;> omega

namespace FilterTree

/-- Where children lie behind their parents all paths are short. -/
theorem descends_of_forward
    (forward : Forward tree)
    {place : Nat}
    (inside : place < tree.length) :
    Descends tree (tree.length - 1 - place) place := by
  induction ahead : tree.length - place using Nat.strong_induction_on
    generalizing place with
  | _ ahead inductionHypothesis =>
      have found : tree[place]? = some tree[place] :=
        List.getElem?_eq_getElem inside
      generalize tree[place] = node at found
      by_cases isLeaf : node.property = -1
      · exact .leaf found isLeaf
      · obtain ⟨⟨left, leftInside⟩, right, rightInside⟩ :=
          forward.children place node found isLeaf
        have nonneg :=
          (forward.property node (List.mem_of_getElem? found) isLeaf).1
        have leftDescends :=
          inductionHypothesis (tree.length - node.lchild) (by omega) leftInside
            rfl
        have rightDescends :=
          inductionHypothesis (tree.length - node.rchild) (by omega)
            rightInside rfl
        have oneLess :
            tree.length - 1 - place = tree.length - 1 - place - 1 + 1 := by
          omega
        rw [oneLess]
        exact
          .split found isLeaf nonneg (leftDescends.mono (by omega))
            (rightDescends.mono (by omega))

variable {properties : Nat → Int32}

/-- Skipping follows the walk. -/
theorem follows_of_skipStatic
    {fuel start cur : Nat}
    {node : PropertyDecisionNode}
    (isExtension : Extends staticProps properties)
    (skipped : skipStatic tree staticProps fuel start = .ok cur)
    (reaches : Reaches tree properties cur node) :
    Reaches tree properties start node := by
  induction fuel generalizing start with
  | zero =>
      cases skipped
  | succ fuel inductionHypothesis =>
      rw [skipStatic] at skipped
      obtain ⟨node', found, skipped⟩ := bind_eq_ok.1 skipped
      by_cases isStatic :
          0 ≤ node'.property ∧ node'.property < kNumStaticProperties
      · rw [if_pos isStatic] at skipped
        obtain ⟨value, isValue, skipped⟩ := bind_eq_ok.1 skipped
        apply (inductionHypothesis skipped).follows
        refine ⟨node', index_eq_ok.1 found, by omega, ?_⟩
        rw [isExtension _ _ (index_eq_ok.1 isValue)]
      · rw [if_neg isStatic] at skipped
        cases skipped
        exact reaches

/-- Skipping leaves no more nodes below. -/
theorem unfolds_of_skipStatic
    {fuel start cur size : Nat}
    (skipped : skipStatic tree staticProps fuel start = .ok cur)
    (unfolds : Unfolds tree start size) :
    ∃ size', size' ≤ size ∧ Unfolds tree cur size' := by
  induction fuel generalizing start size with
  | zero =>
      cases skipped
  | succ fuel inductionHypothesis =>
      rw [skipStatic] at skipped
      obtain ⟨node, found, skipped⟩ := bind_eq_ok.1 skipped
      by_cases isStatic :
          0 ≤ node.property ∧ node.property < kNumStaticProperties
      · rw [if_pos isStatic] at skipped
        obtain ⟨value, _, skipped⟩ := bind_eq_ok.1 skipped
        cases unfolds with
        | leaf found' isLeaf =>
            rw [index_eq_ok.1 found] at found'
            cases found'
            omega
        | split found' _ leftSize rightSize =>
            rw [index_eq_ok.1 found] at found'
            cases found'
            split at skipped
            · obtain ⟨size', less, unfolds'⟩ :=
                inductionHypothesis skipped leftSize
              exact ⟨size', by omega, unfolds'⟩
            · obtain ⟨size', less, unfolds'⟩ :=
                inductionHypothesis skipped rightSize
              exact ⟨size', by omega, unfolds'⟩
      · rw [if_neg isStatic] at skipped
        cases skipped
        exact ⟨size, Nat.le_refl size, unfolds⟩

/-- What a child of a split stands for: its two places lead on from it. -/
theorem reaches_of_child
    {position : Nat}
    {side : Child}
    {node : PropertyDecisionNode}
    (isExtension : Extends staticProps properties)
    (isChild : child tree staticProps position = .ok side)
    {next : Nat}
    (isNext :
      side.queued[if properties side.property.toNat ≤ side.splitval then
          1 else 0]? =
        some next)
    (reaches : Reaches tree properties next node) :
    Reaches tree properties position node := by
  rw [child] at isChild
  obtain ⟨cur, skips, isChild⟩ := bind_eq_ok.1 isChild
  obtain ⟨node', found, isChild⟩ := bind_eq_ok.1 isChild
  apply follows_of_skipStatic isExtension skips
  by_cases isLeaf : node'.property = -1
  · rw [if_pos isLeaf] at isChild
    cases isChild
    dsimp only at isNext
    have same : next = cur := by
      split at isNext
      · simpa using isNext.symm
      · simpa using isNext.symm
    rwa [← same]
  · rw [if_neg isLeaf] at isChild
    obtain ⟨_, nonneg, isChild⟩ := bind_eq_ok.1 isChild
    cases isChild
    dsimp only at isNext
    apply reaches.follows
    refine ⟨node', index_eq_ok.1 found, isLeaf, ?_⟩
    split at isNext
    next atMost =>
      rw [if_neg (Int32.not_lt.2 atMost)]
      simpa using isNext.symm
    next exceeds =>
      rw [if_pos (Int32.not_le.1 exceeds)]
      simpa using isNext.symm

/-- The flat nodes that a queued node can still become. -/
def weight
    (size : Nat) :
    Nat :=
  2 * size - 1

/-- The output and what the queue can still add to it are at most so many nodes. -/
def Sized
    (tree : List PropertyDecisionNode)
    (bound : Nat)
    (state : State) :
    Prop :=
  ∃ sizes,
    List.Forall₂ (Unfolds tree) state.queue sizes ∧
      state.output.length + (sizes.map weight).sum ≤ bound

theorem length_le_weights
    {queue sizes : List Nat}
    (unfold : List.Forall₂ (Unfolds tree) queue sizes) :
    queue.length ≤ (sizes.map weight).sum := by
  induction unfold with
  | nil =>
      exact Nat.le_refl 0
  | cons first _ inductionHypothesis =>
      have positive := first.positive
      rw [List.map_cons, List.sum_cons, List.length_cons, weight]
      omega

theorem Unfolds.inside
    {place size : Nat}
    (unfolds : Unfolds tree place size) :
    place < tree.length := by
  cases unfolds with
  | leaf found _ =>
      exact (List.getElem?_eq_some_iff.1 found).1
  | split found _ _ _ =>
      exact (List.getElem?_eq_some_iff.1 found).1

/-- The two nodes that a child queues weigh no more than two for each node below it. -/
theorem weight_of_child
    {position size : Nat}
    {side : Child}
    (isChild : child tree staticProps position = .ok side)
    (unfolds : Unfolds tree position size) :
    ∃ sizes,
      List.Forall₂ (Unfolds tree) side.queued sizes ∧
        (sizes.map weight).sum ≤ 2 * size := by
  rw [child] at isChild
  obtain ⟨cur, skips, isChild⟩ := bind_eq_ok.1 isChild
  obtain ⟨node, found, isChild⟩ := bind_eq_ok.1 isChild
  obtain ⟨size', less, unfolds'⟩ := unfolds_of_skipStatic skips unfolds
  by_cases isLeaf : node.property = -1
  · rw [if_pos isLeaf] at isChild
    cases isChild
    have one : Unfolds tree cur 1 := .leaf (index_eq_ok.1 found) isLeaf
    have positive := unfolds.positive
    refine ⟨[1, 1], .cons one (.cons one .nil), ?_⟩
    simp only [weight, List.map_cons, List.map_nil, List.sum_cons,
      List.sum_nil]
    omega
  · rw [if_neg isLeaf] at isChild
    obtain ⟨_, _, isChild⟩ := bind_eq_ok.1 isChild
    cases isChild
    cases unfolds' with
    | leaf found' isLeaf' =>
        rw [index_eq_ok.1 found] at found'
        cases found'
        exact absurd isLeaf' isLeaf
    | @split _ left right _ found' _ leftSize rightSize =>
        rw [index_eq_ok.1 found] at found'
        cases found'
        refine ⟨[left, right], .cons leftSize (.cons rightSize .nil), ?_⟩
        simp only [weight, List.map_cons, List.map_nil, List.sum_cons,
          List.sum_nil]
        omega

/-- A round of a loop of that size succeeds and keeps the size. -/
theorem step_total
    {bound first : Nat}
    (state : State)
    (forward : Forward tree)
    (twoProps : staticProps.length = kNumStaticProperties)
    (small : bound < 2 ^ 32)
    (sized : Sized tree bound { state with queue := first :: state.queue }) :
    ∃ after,
      step tree staticProps first state = .ok after ∧
        Sized tree bound after := by
  obtain ⟨sizes, unfold, within⟩ := sized
  cases unfold with
  | @cons _ size _ sizes unfolds unfold =>
      have room : 0 < tree.length := forward.nonempty
      have descends := descends_of_forward forward (Unfolds.inside unfolds)
      have skipping :
          ∃ cur,
            skipStatic tree staticProps tree.length first = .ok cur ∧
              Descends tree (tree.length - 1 - first) cur :=
        skipStatic_ok twoProps descends (by omega)
      obtain ⟨cur, skips, _⟩ := skipping
      obtain ⟨size', less, unfolds'⟩ := unfolds_of_skipStatic skips unfolds
      have positive := unfolds.positive
      rw [List.map_cons, List.sum_cons, weight] at within
      dsimp only at within
      cases unfolds' with
      | @leaf _ node found isLeaf =>
          have fits := forward.multiplier node (List.mem_of_getElem? found)
          refine ⟨leaf state node (Int32.ofInt node.multiplier), ?_, sizes, unfold, ?_⟩
          · simp only [step, skips, index_eq_ok.2 found, ok_bind, isLeaf,
              if_true]
            rw [toI32_ok (by omega) (by omega), ok_bind]
            rfl
          · simp only [leaf, List.length_append, List.length_singleton]
            omega
      | @split _ leftSize rightSize node found isSplit leftUnfolds
          rightUnfolds =>
          have nonneg :=
            (forward.property node (List.mem_of_getElem? found) isSplit).1
          obtain ⟨left, isLeft, _⟩ :=
            child_ok twoProps
              (descends_of_forward forward (Unfolds.inside leftUnfolds))
              (by omega)
          obtain ⟨right, isRight, _⟩ :=
            child_ok twoProps
              (descends_of_forward forward (Unfolds.inside rightUnfolds))
              (by omega)
          obtain ⟨leftSizes, leftQueued, leftWeight⟩ :=
            weight_of_child isLeft leftUnfolds
          obtain ⟨rightSizes, rightQueued, rightWeight⟩ :=
            weight_of_child isRight rightUnfolds
          have queued := length_le_weights unfold
          refine
            ⟨split state node (state.output.length + state.queue.length + 1)
                left right,
              ?_, sizes ++ (leftSizes ++ rightSizes), ?_, ?_⟩
          · simp only [step, skips, index_eq_ok.2 found, ok_bind, isSplit,
              if_false, require_ok nonneg, isLeft, isRight]
            rw [castU_ok (by omega), ok_bind]
            rfl
          · simp only [split, List.foldl_cons, List.foldl_nil,
              queue_noteProperty]
            exact
              List.rel_append unfold
                (List.rel_append leftQueued rightQueued)
          · simp only [split, List.foldl_cons, List.foldl_nil,
              output_noteProperty, List.length_append, List.length_singleton,
              List.map_append, List.sum_append]
            omega

/-- A loop of that size that ends returns. -/
theorem loop_total
    {bound fuel : Nat}
    {state : State}
    (forward : Forward tree)
    (twoProps : staticProps.length = kNumStaticProperties)
    (small : bound < 2 ^ 32)
    (sized : Sized tree bound state)
    (ends : loop tree staticProps fuel state ≠ .error .running) :
    ∃ after, loop tree staticProps fuel state = .ok after := by
  induction fuel generalizing state with
  | zero =>
      exact absurd rfl ends
  | succ fuel inductionHypothesis =>
      rw [loop] at ends ⊢
      cases isQueue : state.queue with
      | nil =>
          exact ⟨state, rfl⟩
      | cons first rest =>
          have sized' :
              Sized tree bound
                { ({ state with queue := rest } : State) with
                  queue := first :: rest } := by
            dsimp only
            rwa [← isQueue]
          obtain ⟨after, stepped, sized''⟩ :=
            step_total { state with queue := rest } forward twoProps small
              sized'
          rw [isQueue] at ends
          dsimp only at ends ⊢
          rw [stepped, ok_bind] at ends ⊢
          exact inductionHypothesis sized'' ends

/-- What a flat node takes from the tree node that was queued for it. -/
inductive Stands
    (tree : List PropertyDecisionNode)
    (staticProps : List Int32)
    (history : List Nat)
    (position : Nat) :
    FlatDecisionNode → Prop where
  | leaf
      {cur : Nat}
      {node : PropertyDecisionNode}
      {multiplier : Int32}
      (skips : skipStatic tree staticProps tree.length position = .ok cur)
      (found : tree[cur]? = some node)
      (isLeaf : node.property = -1)
      (isMultiplier : toI32 node.multiplier = .ok multiplier) :
      Stands tree staticProps history position (.ofLeaf node multiplier)
  | split
      {cur : Nat}
      {node : PropertyDecisionNode}
      {left right : Child}
      {flat : FlatDecisionNode}
      (skips : skipStatic tree staticProps tree.length position = .ok cur)
      (found : tree[cur]? = some node)
      (dynamic : kNumStaticProperties ≤ node.property)
      (isLeft : child tree staticProps node.lchild = .ok left)
      (isRight : child tree staticProps node.rchild = .ok right)
      (property0 : flat.property0 = node.property)
      (splitval0 : flat.splitval0 = node.splitval)
      (properties : flat.properties = (left.property, right.property))
      (splitvals : flat.splitvals = (left.splitval, right.splitval))
      (queued :
        ∀ ahead next,
          (left.queued ++ right.queued)[ahead]? = some next →
          history[flat.childID + ahead]? = some next) :
      Stands tree staticProps history position flat

/-- What the filter has queued so far: the queue's past and what is in it. -/
structure Linked
    (tree : List PropertyDecisionNode)
    (staticProps : List Int32)
    (history : List Nat)
    (state : State) :
    Prop where
  queue :
    ∃ past, history = past ++ state.queue ∧ past.length = state.output.length
  stands :
    ∀ (place : Nat) (flat : FlatDecisionNode),
      state.output[place]? = some flat →
      ∃ position,
        history[place]? = some position ∧
          Stands tree staticProps history position flat

theorem getElem?_append_of_some
    {α : Type}
    {items : List α}
    {place : Nat}
    {item : α}
    (found : items[place]? = some item)
    (more : List α) :
    (items ++ more)[place]? = some item := by
  rw [List.getElem?_append_left (List.getElem?_eq_some_iff.1 found).1, found]

variable {history : List Nat}

/-- A longer history keeps what is in it. -/
theorem Stands.append
    {position : Nat}
    {flat : FlatDecisionNode}
    (stands : Stands tree staticProps history position flat)
    (more : List Nat) :
    Stands tree staticProps (history ++ more) position flat := by
  cases stands with
  | leaf skips found isLeaf isMultiplier =>
      exact .leaf skips found isLeaf isMultiplier
  | split skips found dynamic isLeft isRight property0 splitval0 properties
      splitvals queued =>
      refine
        .split skips found dynamic isLeft isRight property0 splitval0
          properties splitvals ?_
      intro ahead next isNext
      exact getElem?_append_of_some (queued ahead next isNext) more

variable {first : Nat} {state after : State}

/-- Appending one flat node keeps the link. -/
theorem Linked.append
    {rest more : List Nat}
    {flat : FlatDecisionNode}
    (linked : Linked tree staticProps history state)
    (isQueue : state.queue = first :: rest)
    (isOutput : after.output = state.output ++ [flat])
    (isQueue' : after.queue = rest ++ more)
    (stands : Stands tree staticProps (history ++ more) first flat) :
    Linked tree staticProps (history ++ more) after := by
  obtain ⟨past, isHistory, length⟩ := linked.queue
  constructor
  case queue =>
    refine ⟨past ++ [first], ?_, ?_⟩
    · rw [isHistory, isQueue, isQueue']
      simp
    · rw [isOutput, List.length_append, List.length_append, length]
      rfl
  case stands =>
    intro place other found
    by_cases old : place < state.output.length
    · rw [isOutput, List.getElem?_append_left old] at found
      obtain ⟨position, isPosition, stands'⟩ := linked.stands place other found
      exact
        ⟨position, getElem?_append_of_some isPosition more,
          stands'.append more⟩
    · have inside := (List.getElem?_eq_some_iff.1 found).1
      rw [isOutput, List.length_append, List.length_singleton] at inside
      obtain rfl : place = state.output.length := by
        omega
      rw [isOutput] at found
      obtain rfl : flat = other := by
        simpa using found
      refine ⟨first, ?_, stands⟩
      rw [isHistory, isQueue, ← length]
      simp

/-- One round keeps the link. -/
theorem Linked.step
    {rest : List Nat}
    (linked : Linked tree staticProps history state)
    (isQueue : state.queue = first :: rest)
    (stepped :
      StepCases tree staticProps first { state with queue := rest } after) :
    ∃ more, Linked tree staticProps (history ++ more) after := by
  cases stepped with
  | leaf skips found isLeaf isMultiplier =>
      refine ⟨[], linked.append isQueue rfl ?_ ?_⟩
      · exact (List.append_nil rest).symm
      · exact .leaf skips found isLeaf isMultiplier
  | @split cur node left right skips found dynamic isLeft isRight =>
      refine
        ⟨left.queued ++ right.queued, linked.append isQueue rfl rfl ?_⟩
      refine .split skips found dynamic isLeft isRight rfl rfl rfl rfl ?_
      intro ahead next isNext
      obtain ⟨past, isHistory, length⟩ := linked.queue
      have behind :
          state.output.length + rest.length + 1 = history.length := by
        rw [isHistory, isQueue, List.length_append, length, List.length_cons]
        omega
      dsimp only
      rw [behind, List.getElem?_append_right (by omega), Nat.add_sub_cancel_left]
      exact isNext

theorem exists_queued
    {queued : List Nat}
    (two : queued.length = 2)
    (condition : Prop)
    [Decidable condition] :
    ∃ next, queued[if condition then 1 else 0]? = some next := by
  have inside : (if condition then 1 else 0) < queued.length := by
    rw [two]
    split <;> decide
  exact ⟨_, List.getElem?_eq_getElem inside⟩

/-- A lookup from a place ends in the leaf of the node that was queued for it. -/
theorem lookupFrom_reaches
    {output : List FlatDecisionNode}
    (isExtension : Extends staticProps properties)
    (behind :
      ∀ (place : Nat) (flat : FlatDecisionNode),
        output[place]? = some flat →
        0 ≤ flat.property0 →
        place < flat.childID ∧ flat.childID + 4 ≤ output.length)
    (stands :
      ∀ (place : Nat) (flat : FlatDecisionNode),
        output[place]? = some flat →
        ∃ position,
          history[place]? = some position ∧
            Stands tree staticProps history position flat)
    {fuel place position : Nat}
    (inside : place < output.length)
    (isPosition : history[place]? = some position)
    (enough : output.length - place ≤ fuel) :
    ∃ (node : PropertyDecisionNode) (multiplier : Int32),
      Reaches tree properties position node ∧
        toI32 node.multiplier = .ok multiplier ∧
        MATreeLookup.lookupFrom output properties fuel place =
          .ok
            { context := node.lchild
              predictor := node.predictor
              offset := node.predictorOffset
              multiplier } := by
  induction fuel generalizing place position with
  | zero =>
      omega
  | succ fuel inductionHypothesis =>
      have found : output[place]? = some output[place] :=
        List.getElem?_eq_getElem inside
      generalize output[place] = flat at found
      obtain ⟨position', isPosition', stand⟩ := stands place flat found
      rw [isPosition] at isPosition'
      cases isPosition'
      rw [MATreeLookup.lookupFrom, index_eq_ok.2 found, ok_bind]
      cases stand with
      | @leaf cur node multiplier skips found' isLeaf isMultiplier =>
          refine ⟨node, multiplier, ?_, isMultiplier, ?_⟩
          · apply follows_of_skipStatic isExtension skips
            exact ⟨0, cur, .refl cur, found', isLeaf⟩
          · rfl
      | @split cur node left right flat skips found' dynamic isLeft isRight
          property0 splitval0 isProperties splitvals queued =>
          have isSplit : 0 ≤ flat.property0 := by
            rw [property0]
            omega
          obtain ⟨ahead, within⟩ := behind place flat found isSplit
          have leftLength := (child_found isLeft).1
          have rightLength := (child_found isRight).1
          rw [if_neg (Int.not_lt.2 isSplit), property0, splitval0,
            isProperties, splitvals]
          dsimp only
          -- The place that the lookup goes on with, among the four queued.
          have goesOn :
              ∀ offset next,
                (left.queued ++ right.queued)[offset]? = some next →
                ∃ (leaf : PropertyDecisionNode) (multiplier : Int32),
                  Reaches tree properties next leaf ∧
                    toI32 leaf.multiplier = .ok multiplier ∧
                    MATreeLookup.lookupFrom output properties fuel
                        (flat.childID + offset) =
                      .ok
                        { context := leaf.lchild
                          predictor := leaf.predictor
                          offset := leaf.predictorOffset
                          multiplier } := by
            intro offset next isNext
            have few := (List.getElem?_eq_some_iff.1 isNext).1
            rw [List.length_append, leftLength, rightLength] at few
            exact
              inductionHypothesis (by omega) (queued offset next isNext)
                (by omega)
          by_cases atMost : properties node.property.toNat ≤ node.splitval
          · rw [if_pos atMost]
            obtain ⟨next, isNext⟩ :=
              exists_queued rightLength
                (properties right.property.toNat ≤ right.splitval)
            obtain ⟨leaf, multiplier, reaches, isMultiplier, looksUp⟩ :=
              goesOn
                (2 |||
                  if properties right.property.toNat ≤ right.splitval then 1
                  else 0)
                next
                (by
                  rw [← isNext, List.getElem?_append_right]
                  · rw [leftLength]
                    split <;> rfl
                  · rw [leftLength]
                    split <;> decide)
            refine ⟨leaf, multiplier, ?_, isMultiplier, looksUp⟩
            apply follows_of_skipStatic isExtension skips
            apply
              (reaches_of_child isExtension isRight isNext reaches).follows
            exact
              ⟨node, found', by omega, by rw [if_neg (Int32.not_lt.2 atMost)]⟩
          · rw [if_neg atMost]
            obtain ⟨next, isNext⟩ :=
              exists_queued leftLength
                (properties left.property.toNat ≤ left.splitval)
            obtain ⟨leaf, multiplier, reaches, isMultiplier, looksUp⟩ :=
              goesOn
                (if properties left.property.toNat ≤ left.splitval then 1
                  else 0)
                next (getElem?_append_of_some isNext _)
            refine ⟨leaf, multiplier, ?_, isMultiplier, looksUp⟩
            apply follows_of_skipStatic isExtension skips
            apply (reaches_of_child isExtension isLeft isNext reaches).follows
            exact
              ⟨node, found', by omega,
                by rw [if_pos (Int32.not_le.1 atMost)]⟩

/-- Where the weighted predictor is read, the filter notes it. -/
def WeightedNoted
    (state : State) :
    Prop :=
  ∀ flat ∈ state.output,
    (0 ≤ flat.property0 → (kWPProp : Int) ∈ flat.reads → state.hasWp = true) ∧
      (flat.property0 < 0 → flat.predictor = .weighted → state.hasWp = true)

theorem WeightedNoted.step
    {rest : List Nat}
    (noted : WeightedNoted state)
    (stepped :
      StepCases tree staticProps first { state with queue := rest } after) :
    WeightedNoted after := by
  cases stepped with
  | @leaf cur node multiplier skips found isLeaf isMultiplier =>
      intro flat member
      rcases List.mem_append.1 member with old | isNew
      · obtain ⟨reads, isWeighted⟩ := noted flat old
        constructor
        · intro isSplit isRead
          simp [leaf, reads isSplit isRead]
        · intro isLeaf' weighted
          simp [leaf, isWeighted isLeaf' weighted]
      · rw [List.mem_singleton.1 isNew]
        constructor
        · intro isSplit
          simp [FlatDecisionNode.ofLeaf] at isSplit
        · intro _ weighted
          simp only [leaf, weighted, decide_true, Bool.or_true]
  | @split cur node left right skips found dynamic isLeft isRight =>
      intro flat member
      simp only [FilterTree.split, List.foldl_cons, List.foldl_nil,
        output_noteProperty, List.mem_append, List.mem_singleton] at member
      simp only [FilterTree.split, List.foldl_cons, List.foldl_nil,
        noteProperty, Bool.or_eq_true, decide_eq_true_eq]
      rcases member with old | isNew
      · obtain ⟨reads, isWeighted⟩ := noted flat old
        exact
          ⟨fun isSplit isRead => .inl (.inl (.inl (reads isSplit isRead))),
            fun isLeaf weighted =>
              .inl (.inl (.inl (isWeighted isLeaf weighted)))⟩
      · subst isNew
        refine ⟨fun _ isRead => ?_, fun isLeaf => absurd isLeaf ?_⟩
        · simp only [FlatDecisionNode.reads, List.mem_cons, List.not_mem_nil,
            or_false] at isRead
          rcases isRead with isFirst | isSecond | isThird
          · exact .inl (.inl (.inr isFirst.symm))
          · exact .inl (.inr isSecond.symm)
          · exact .inr isThird.symm
        · dsimp only
          omega

/-- What the loop has made sure of when it ends. -/
structure Finished
    (tree : List PropertyDecisionNode)
    (staticProps : List Int32)
    (filtered : FilteredTree) :
    Prop where
  wellFormed :
    filtered.WellFormed tree
  linked :
    ∃ history,
      history[0]? = some 0 ∧
        0 < filtered.flatTree.length ∧
        ∀ (place : Nat) (flat : FlatDecisionNode),
          filtered.flatTree[place]? = some flat →
          ∃ position,
            history[place]? = some position ∧
              Stands tree staticProps history position flat
  weighted :
    ∀ flat ∈ filtered.flatTree,
      (0 ≤ flat.property0 →
      (kWPProp : Int) ∈ flat.reads → filtered.useWp = true) ∧
      (flat.property0 < 0 →
        flat.predictor = .weighted → filtered.useWp = true)

/-- The root is queued first and stays the first. -/
def RootFirst
    (tree : List PropertyDecisionNode)
    (staticProps : List Int32)
    (state : State) :
    Prop :=
  ∃ history,
    history[0]? = some 0 ∧ Linked tree staticProps history state

theorem rootFirst_initial
    (tree : List PropertyDecisionNode)
    (staticProps : List Int32) :
    RootFirst tree staticProps { queue := [0] } := by
  refine ⟨[0], rfl, ⟨[], rfl, rfl⟩, ?_⟩
  intro place flat found
  simp at found

theorem RootFirst.step
    {rest : List Nat}
    (rootFirst : RootFirst tree staticProps state)
    (isQueue : state.queue = first :: rest)
    (stepped :
      StepCases tree staticProps first { state with queue := rest } after) :
    RootFirst tree staticProps after := by
  obtain ⟨history, isRoot, linked⟩ := rootFirst
  obtain ⟨more, linked'⟩ := linked.step isQueue stepped
  exact ⟨history ++ more, getElem?_append_of_some isRoot more, linked'⟩

/-- The filter returns on every forward tree of a size that its numbers hold. -/
theorem filterTree_total
    {size : Nat}
    (forward : Forward tree)
    (twoProps : staticProps.length = kNumStaticProperties)
    (unfolds : Unfolds tree 0 size)
    (small : size < 2 ^ 31) :
    ∃ filtered,
      filterTree tree staticProps = .ok filtered ∧
        Finished tree staticProps filtered := by
  have nonempty := forward.nonempty
  have descends := descends_of_forward forward nonempty
  rw [Nat.sub_zero] at descends
  have ends :=
    loop_ne_running_of_descends descends (Nat.ne_of_gt nonempty) twoProps
  have sized : Sized tree (weight size) { queue := [0] } :=
    ⟨[size], .cons unfolds .nil, by simp⟩
  have fits : weight size < 2 ^ 32 := by
    rw [weight]
    omega
  obtain ⟨state, looped⟩ := loop_total forward twoProps fits sized ends
  have isFiltered :
      ∃ filtered,
        filterTree tree staticProps = .ok filtered ∧
          filtered.flatTree = state.output ∧
          filtered.useWp = state.hasWp := by
    rw [filterTree, looped]
    exact ⟨_, rfl, rfl, rfl⟩
  obtain ⟨filtered, returned, isFlatTree, isUseWp⟩ := isFiltered
  refine ⟨filtered, returned, wellFormed_of_filterTree returned, ?_, ?_⟩
  · obtain ⟨⟨history, isRoot, linked⟩, emptied⟩ :=
      loop_invariant
        (fun _ _ _ _ rootFirst isQueue stepped =>
          rootFirst.step isQueue stepped)
        (rootFirst_initial tree staticProps) looped
    obtain ⟨past, isHistory, length⟩ := linked.queue
    rw [emptied, List.append_nil] at isHistory
    have inside := (List.getElem?_eq_some_iff.1 isRoot).1
    rw [isFlatTree]
    refine ⟨history, isRoot, ?_, linked.stands⟩
    rw [← length, ← isHistory]
    exact inside
  · obtain ⟨noted, _⟩ :=
      loop_invariant
        (fun _ _ _ _ noted _ stepped => WeightedNoted.step noted stepped)
        (show WeightedNoted { queue := [0] } by simp [WeightedNoted]) looped
    rw [isFlatTree, isUseWp]
    exact noted

end FilterTree

/-- The comparisons that a lookup makes at a split. -/
def FlatDecisionNode.comparisons
    (self : FlatDecisionNode) :
    List (Int × Int32) :=
  [(self.property0, self.splitval0),
    (self.properties.1, self.splitvals.1),
    (self.properties.2, self.splitvals.2)]

theorem FlatDecisionNode.reads_of_comparisons
    {flat : FlatDecisionNode}
    {property : Int}
    {splitval : Int32}
    (compares : (property, splitval) ∈ flat.comparisons) :
    property ∈ flat.reads := by
  simp only [comparisons, List.mem_cons, Prod.mk.injEq, List.not_mem_nil,
    or_false] at compares
  simp only [reads, List.mem_cons, List.not_mem_nil, or_false]
  rcases compares with ⟨isFirst, _⟩ | ⟨isSecond, _⟩ | ⟨isThird, _⟩
  · exact .inl isFirst
  · exact .inr (.inl isSecond)
  · exact .inr (.inr isThird)

/--
Filtering keeps the decisions of a tree whose children lie behind their
parents, whose properties are below 256 and whose multipliers fit a sample.  For
every vector with the static values the lookup ends in the leaf of the walk from
the root.  A comparison at a flat split is one of the constant property, whose
outcome the static values fix, or reads a property that is marked as used and
kept; what needs the weighted predictor is noted.
-/
theorem filterTree_decides
    {tree : List PropertyDecisionNode}
    {size : Nat}
    (forward : Forward tree)
    (unfolds : Unfolds tree 0 size)
    (small : size < 2 ^ 31)
    (chan group : Int32) :
    ∃ filtered,
      filterTree tree [chan, group] = .ok filtered ∧
        (∀ properties : Nat → Int32,
          properties 0 = chan →
          properties 1 = group →
          ∃ (node : PropertyDecisionNode) (multiplier : Int32),
            Reaches tree properties 0 node ∧
              multiplier.toInt = node.multiplier ∧
              MATreeLookup.lookup filtered.flatTree properties =
                .ok
                  { context := node.lchild
                    predictor := node.predictor
                    offset := node.predictorOffset
                    multiplier }) ∧
        (∀ flat ∈ filtered.flatTree,
          0 ≤ flat.property0 →
          ∀ property splitval,
            (property, splitval) ∈ flat.comparisons →
            (property = 0 ∧
                (∀ properties : Nat → Int32,
                  properties 0 = chan →
                  (properties 0 ≤ splitval ↔ chan ≤ splitval)) ∨
              kNumStaticProperties ≤ property ∧
                filtered.propertyUse.uses property.toNat = true) ∧
              property < filtered.numProps ∧
              (property = kWPProp → filtered.useWp = true)) ∧
        ∀ flat ∈ filtered.flatTree,
          flat.property0 < 0 →
          flat.predictor = .weighted → filtered.useWp = true := by
  have twoProps : [chan, group].length = kNumStaticProperties :=
    rfl
  obtain ⟨filtered, returned, finished⟩ :=
    FilterTree.filterTree_total forward twoProps unfolds small
  obtain ⟨history, isRoot, nonempty, stands⟩ := finished.linked
  refine ⟨filtered, returned, ?_, ?_, ?_⟩
  · intro properties isChan isGroup
    have isExtension : Extends [chan, group] properties := by
      intro property value isValue
      match property with
      | 0 =>
          cases isValue
          exact isChan
      | 1 =>
          cases isValue
          exact isGroup
      | property + 2 =>
          cases isValue
    obtain ⟨node, multiplier, reaches, isMultiplier, looksUp⟩ :=
      FilterTree.lookupFrom_reaches isExtension
        finished.wellFormed.childrenBehind stands nonempty isRoot
        (Nat.sub_le _ _)
    exact ⟨node, multiplier, reaches, toI32_eq_ok isMultiplier, looksUp⟩
  · intro flat member isSplit property splitval compares
    have isRead := FlatDecisionNode.reads_of_comparisons compares
    obtain ⟨planned, kept⟩ :=
      finished.wellFormed.planned flat member isSplit property isRead
    refine ⟨?_, kept, ?_⟩
    · rcases planned with zero | ⟨dynamic, ⟨node, inTree, isProperty⟩, used⟩
      · left
        refine ⟨zero, ?_⟩
        intro properties isChan
        rw [isChan]
      · right
        have inPlan : property < kMaxPropertyIndex := by
          have bound :=
            (forward.property node inTree (by rw [isProperty]; omega)).2
          rw [← isProperty]
          exact bound
        refine ⟨dynamic, ?_⟩
        rw [PropertyUsePlan.uses, used inPlan, Bool.and_true,
          decide_eq_true_eq]
        omega
    · intro isWeighted
      rw [isWeighted] at isRead
      exact (finished.weighted flat member).1 isSplit isRead
  · intro flat member isLeaf weighted
    exact (finished.weighted flat member).2 isLeaf weighted

/-- A split on the channel over a split on the gradient. -/
theorem filterTree_decides_gradient :
    let tree : List PropertyDecisionNode :=
      [.split 0 0 1 2, .leaf .weighted 0 1, .split 9 5 3 4, .leaf .left 1 2,
        .leaf .gradient 2 1]
    ∃ filtered,
      filterTree tree [0, 7] = .ok filtered ∧
        ∀ properties : Nat → Int32,
          properties 0 = 0 →
          properties 1 = 7 →
          ∃ (node : PropertyDecisionNode) (multiplier : Int32),
            Reaches tree properties 0 node ∧
              multiplier.toInt = node.multiplier ∧
              MATreeLookup.lookup filtered.flatTree properties =
                .ok
                  { context := node.lchild
                    predictor := node.predictor
                    offset := node.predictorOffset
                    multiplier } := by
  intro tree
  have forward : Forward tree := by
    constructor
    case nonempty =>
      decide
    case property =>
      decide
    case children =>
      intro place node found isSplit
      match place with
      | 0 =>
          cases found
          decide
      | 2 =>
          cases found
          decide
      | 1 | 3 | 4 =>
          cases found
          exact absurd rfl isSplit
      | place + 5 =>
          cases found
    case multiplier =>
      decide
  have leafAt :
      ∀ (place : Nat) (node : PropertyDecisionNode),
        tree[place]? = some node →
        node.property = -1 → Unfolds tree place 1 :=
    fun _ _ found isLeaf => .leaf found isLeaf
  have below : Unfolds tree 2 3 :=
    @Unfolds.split tree 2 1 1 (.split 9 5 3 4) rfl (by decide)
      (leafAt 3 _ rfl rfl) (leafAt 4 _ rfl rfl)
  have unfolds : Unfolds tree 0 5 :=
    @Unfolds.split tree 0 1 3 (.split 0 0 1 2) rfl (by decide)
      (leafAt 1 _ rfl rfl) below
  obtain ⟨filtered, returned, decides, _⟩ :=
    filterTree_decides forward unfolds (by decide) 0 7
  exact ⟨filtered, returned, decides⟩

/--
A split on a property from 256 on is read without being marked as used, and the
multiplier of a leaf may not fit a sample.
-/
theorem filterTree_decides_not_large :
    (∃ filtered,
      filterTree [.split 256 0 1 2, .leaf .zero 0 1, .leaf .zero 0 1]
            [0, 0] =
          .ok filtered ∧
        (∃ flat ∈ filtered.flatTree, flat.property0 = 256) ∧
        filtered.propertyUse.uses 256 = false) ∧
      filterTree [.leaf .zero 0 (2 ^ 31)] [0, 0] = .error .trap := by
  constructor
  · refine ⟨_, rfl, ⟨_, List.mem_cons_self, rfl⟩, rfl⟩
  · rfl

end Jxlz.ContextPredict
