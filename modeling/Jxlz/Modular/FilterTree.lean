import Jxlz.Modular.ContextPredict

namespace Jxlz.ContextPredict

/-!
# Filtered trees

What the filter guarantees about its output: the loop ends, the children of a
node lie behind it and inside the tree, and every property a node reads is in
the plan of used properties.
-/

namespace PropertyUsePlan

variable {plan : PropertyUsePlan}

/-- Marking keeps what was marked. -/
theorem used_mark_of_used
    {idx : Nat}
    (property : Int)
    (used : plan.used idx = true) :
    (plan.mark property).used idx = true := by
  rw [mark]
  split
  · exact used
  · dsimp only
    split
    · exact used
    · by_cases same : idx = property.toNat
      · rw [same]
        exact Function.update_self _ _ _
      · exact (Function.update_of_ne same _ _).trans used

/-- A dynamic property is used once it is marked. -/
theorem used_mark
    (plan : PropertyUsePlan)
    {property : Int}
    (dynamic : kNumStaticProperties ≤ property)
    (inPlan : property < kMaxPropertyIndex) :
    (plan.mark property).used property.toNat = true := by
  have inArray : ¬ kMaxPropertyIndex ≤ property.toNat := by
    omega
  rw [mark, if_neg (not_lt.2 dynamic)]
  dsimp only
  split
  next already =>
    exact already.resolve_left inArray
  next =>
    exact Function.update_self _ _ _

/-- Marking uses at most the property marked. -/
theorem used_of_used_mark
    {property : Int}
    {idx : Nat}
    (used : (plan.mark property).used idx = true) :
    plan.used idx = true ∨
      (property = idx ∧ kNumStaticProperties ≤ property) := by
  rw [mark] at used
  split at used
  · exact .inl used
  next dynamic =>
    dsimp only at used
    split at used
    · exact .inl used
    · by_cases same : idx = property.toNat
      · right
        simp only [kNumStaticProperties] at dynamic ⊢
        omega
      · left
        exact (Function.update_of_ne same _ _).symm.trans used

/-- The reference properties are those used beyond the first sixteen. -/
def ReferencesListed
    (plan : PropertyUsePlan) :
    Prop :=
  ∀ idx,
    plan.used idx = true →
    kNumNonrefProperties ≤ idx →
    idx ∈ plan.referenceProps

theorem ReferencesListed.mark
    (listed : plan.ReferencesListed)
    (property : Int) :
    (plan.mark property).ReferencesListed := by
  intro idx used isReference
  rw [PropertyUsePlan.mark] at used ⊢
  split at used
  next isStatic =>
    rw [if_pos isStatic]
    exact listed idx used isReference
  next dynamic =>
    rw [if_neg dynamic]
    dsimp only at used ⊢
    split at used
    next already =>
      rw [if_pos already]
      exact listed idx used isReference
    next fresh =>
      rw [if_neg fresh]
      by_cases same : idx = property.toNat
      · subst same
        simp [isReference]
      · have old := listed idx ((Function.update_of_ne same _ _).symm.trans used)
          isReference
        dsimp only
        split
        · exact List.mem_append_left _ old
        · exact old

end PropertyUsePlan

namespace FilterTree

variable {globalTree : List PropertyDecisionNode}
variable {staticProps : List Int32}

/-- Skipping stops at a node that static properties do not decide. -/
theorem skipStatic_found
    {fuel start cur : Nat}
    (skipped : skipStatic globalTree staticProps fuel start = .ok cur) :
    ∃ node,
      globalTree[cur]? = some node ∧
        ¬ (0 ≤ node.property ∧ node.property < kNumStaticProperties) := by
  induction fuel generalizing start with
  | zero =>
      simp [skipStatic] at skipped
  | succ fuel inductionHypothesis =>
      rw [skipStatic] at skipped
      obtain ⟨node, found, skipped⟩ := bind_eq_ok.1 skipped
      by_cases isStatic :
          0 ≤ node.property ∧ node.property < kNumStaticProperties
      · rw [if_pos isStatic] at skipped
        obtain ⟨value, _, skipped⟩ := bind_eq_ok.1 skipped
        exact inductionHypothesis skipped
      · rw [if_neg isStatic] at skipped
        cases skipped
        exact ⟨node, index_eq_ok.1 found, isStatic⟩

/-- Where all paths are short, skipping ends. -/
theorem skipStatic_ok
    {fuel room start : Nat}
    (twoProps : staticProps.length = kNumStaticProperties)
    (descends : Descends globalTree room start)
    (enough : room < fuel) :
    ∃ cur,
      skipStatic globalTree staticProps fuel start = .ok cur ∧
        Descends globalTree room cur := by
  induction descends generalizing fuel with
  | leaf found isLeaf =>
      obtain ⟨less, rfl⟩ := Nat.exists_eq_add_of_lt enough
      refine ⟨_, ?_, .leaf found isLeaf⟩
      simp [skipStatic, index_eq_ok.2 found, isLeaf]
  | @split room position node found isSplit nonneg left right leftSkips
      rightSkips =>
      obtain ⟨less, rfl⟩ := Nat.exists_eq_add_of_lt enough
      have enough' : room < room + 1 + less := by
        omega
      by_cases isStatic : node.property < kNumStaticProperties
      · have inProps : node.property.toNat < staticProps.length := by
          omega
        rw [skipStatic, index_eq_ok.2 found, ok_bind, if_pos ⟨nonneg, isStatic⟩,
          index_ok inProps, ok_bind]
        split
        · obtain ⟨cur, skips, descends⟩ := leftSkips enough'
          exact ⟨cur, skips, descends.mono (Nat.le_succ room)⟩
        · obtain ⟨cur, skips, descends⟩ := rightSkips enough'
          exact ⟨cur, skips, descends.mono (Nat.le_succ room)⟩
      · refine ⟨position, ?_, .split found isSplit nonneg left right⟩
        rw [skipStatic, index_eq_ok.2 found, ok_bind,
          if_neg (fun isStatic' => isStatic isStatic'.2)]
        rfl

/-- Where all paths are short, a child of a split queues two nodes. -/
theorem child_ok
    {room position : Nat}
    (twoProps : staticProps.length = kNumStaticProperties)
    (descends : Descends globalTree room position)
    (short : room < globalTree.length) :
    ∃ side,
      child globalTree staticProps position = .ok side ∧
        side.queued.length = 2 ∧
        ∀ queued ∈ side.queued, Descends globalTree room queued := by
  obtain ⟨cur, skips, descends⟩ := skipStatic_ok twoProps descends short
  cases descends with
  | leaf found isLeaf =>
      refine
        ⟨{ property := 0, splitval := 0, queued := [cur, cur], numProps := 0 },
          ?_, rfl, ?_⟩
      · simp only [child, skips, index_eq_ok.2 found, isLeaf, ok_bind, if_true,
          pure_eq_ok]
      · intro queued member
        have same : queued = cur := by
          simpa using member
        rw [same]
        exact .leaf found isLeaf
  | @split room _ node found isSplit nonneg left right =>
      refine
        ⟨{ property := node.property
           splitval := node.splitval
           queued := [node.lchild, node.rchild]
           numProps := node.property.toNat + 1 },
          ?_, rfl, ?_⟩
      · simp only [child, skips, index_eq_ok.2 found, isSplit, ok_bind,
          if_false, require_ok nonneg, pure_eq_ok]
      · intro queued member
        have isChild : queued = node.lchild ∨ queued = node.rchild := by
          simpa using member
        rcases isChild with isLeft | isRight
        · rw [isLeft]
          exact left.mono (Nat.le_succ room)
        · rw [isRight]
          exact right.mono (Nat.le_succ room)

/-- Rounds enough for a queue whose nodes have short paths. -/
inductive Rounds
    (globalTree : List PropertyDecisionNode) :
    List Nat → Nat → Prop where
  | nil : Rounds globalTree [] 1
  | cons {room first rounds : Nat} {rest : List Nat} :
      room < globalTree.length →
        Descends globalTree room first →
        Rounds globalTree rest rounds →
        Rounds globalTree (first :: rest) (maxRounds room + rounds)

theorem Rounds.append
    {room rounds : Nat}
    {queue more : List Nat}
    (short : room < globalTree.length)
    (descends : ∀ position ∈ more, Descends globalTree room position)
    (queued : Rounds globalTree queue rounds) :
    Rounds globalTree (queue ++ more)
      (more.length * maxRounds room + rounds) := by
  induction queued with
  | nil =>
      induction more with
      | nil =>
          simpa using Rounds.nil
      | cons first rest inductionHypothesis =>
          have counted :
              (first :: rest).length * maxRounds room + 1 =
                maxRounds room + (rest.length * maxRounds room + 1) := by
            rw [List.length_cons, Nat.succ_mul]
            omega
          rw [counted]
          exact
            .cons short (descends first List.mem_cons_self)
              (inductionHypothesis
                (fun position member =>
                  descends position (List.mem_cons_of_mem _ member)))
  | @cons room' first rounds rest short' descends' _ inductionHypothesis =>
      rw [Nat.add_left_comm]
      exact .cons short' descends' inductionHypothesis

variable (state : State)

@[simp]
theorem queue_noteProperty
    (prop : Int) :
    (noteProperty state prop).queue = state.queue :=
  rfl

@[simp]
theorem output_noteProperty
    (prop : Int) :
    (noteProperty state prop).output = state.output :=
  rfl

@[simp]
theorem numProps_noteProperty
    (prop : Int) :
    (noteProperty state prop).numProps = state.numProps :=
  rfl

/-- A round never runs out of fuel, and queues no more than it has rounds for. -/
theorem step_ok
    {room first : Nat}
    (twoProps : staticProps.length = kNumStaticProperties)
    (short : room < globalTree.length)
    (descends : Descends globalTree room first) :
    step globalTree staticProps first state ≠ .error .running ∧
      ∀ after,
        step globalTree staticProps first state = .ok after →
        after.queue = state.queue ∨
          ∃ less more,
            room = less + 1 ∧
              after.queue = state.queue ++ more ∧
              more.length = 4 ∧
              ∀ position ∈ more, Descends globalTree less position := by
  obtain ⟨cur, skips, descends⟩ := skipStatic_ok twoProps descends short
  cases descends with
  | leaf found isLeaf =>
      simp only [step, skips, index_eq_ok.2 found, isLeaf, ok_bind, if_true]
      unfold toI32
      split
      · simp [leaf]
      · simp
  | @split room _ node found isSplit nonneg left right =>
      have short' : room < globalTree.length :=
        Nat.lt_of_succ_lt short
      obtain ⟨leftSide, isLeft, leftLength, leftQueued⟩ :=
        child_ok twoProps left short'
      obtain ⟨rightSide, isRight, rightLength, rightQueued⟩ :=
        child_ok twoProps right short'
      simp only [step, skips, index_eq_ok.2 found, isSplit, ok_bind, if_false,
        require_ok nonneg, isLeft, isRight]
      unfold castU
      split
      · simp only [ok_bind, pure_eq_ok]
        refine ⟨by simp, ?_⟩
        intro after isAfter
        cases isAfter
        right
        refine
          ⟨room, leftSide.queued ++ rightSide.queued, rfl, by simp [split],
            by simp [leftLength, rightLength], ?_⟩
        intro position member
        rcases List.mem_append.1 member with inLeft | inRight
        · exact leftQueued position inLeft
        · exact rightQueued position inRight
      · simp

/-- With enough rounds the loop ends. -/
theorem loop_ne_running
    {fuel rounds : Nat}
    {state : State}
    (twoProps : staticProps.length = kNumStaticProperties)
    (queued : Rounds globalTree state.queue rounds)
    (enough : rounds ≤ fuel) :
    loop globalTree staticProps fuel state ≠ .error .running := by
  induction fuel generalizing state rounds with
  | zero =>
      generalize state.queue = queue at queued
      cases queued with
      | nil =>
          omega
      | @cons room _ rounds rest short _ queued =>
          cases room <;> simp [maxRounds] at enough
  | succ fuel inductionHypothesis =>
      rw [loop]
      generalize isQueue : state.queue = queue at queued
      cases queued with
      | nil =>
          simp
      | @cons room first rounds rest short descends queued =>
          obtain ⟨ends, next⟩ :=
            step_ok { state with queue := rest } twoProps short descends
          dsimp only
          cases stepped : step globalTree staticProps first
              { state with queue := rest } with
          | error fault =>
              rw [stepped] at ends
              exact ends
          | ok after =>
              rw [ok_bind]
              rcases next after stepped with sameQueue |
                ⟨less, more, isRoom, longerQueue, moreLength, moreDescends⟩
              · replace sameQueue : after.queue = rest := sameQueue
                rw [← sameQueue] at queued
                have positive : 0 < maxRounds room := by
                  cases room <;> simp [maxRounds]
                exact inductionHypothesis queued (by omega)
              · subst isRoom
                replace longerQueue : after.queue = rest ++ more := longerQueue
                have queued' :=
                  queued.append (Nat.lt_of_succ_lt short) moreDescends
                rw [← longerQueue, moreLength] at queued'
                rw [maxRounds] at enough
                exact inductionHypothesis queued' (by omega)

/-- The filter's loop ends where no path is longer than the tree. -/
theorem loop_ne_running_of_descends
    (descends : Descends globalTree (globalTree.length - 1) 0)
    (nonempty : globalTree.length ≠ 0)
    (twoProps : staticProps.length = kNumStaticProperties) :
    loop globalTree staticProps (maxRounds globalTree.length)
        { queue := [0] } ≠
      .error .running := by
  obtain ⟨room, isRoom⟩ := Nat.exists_eq_succ_of_ne_zero nonempty
  apply loop_ne_running twoProps (.cons (by omega) descends .nil)
  rw [isRoom, maxRounds, Nat.succ_sub_one]
  omega

/-- The filter ends on every accepted tree. -/
theorem filterTree_ne_running
    (accepted : validateTree globalTree = .ok ())
    (twoProps : staticProps.length = kNumStaticProperties) :
    filterTree globalTree staticProps ≠ .error .running := by
  have descends := descends_of_validateTree accepted
  have nonempty : globalTree.length ≠ 0 := by
    intro empty
    simp [validateTree, empty, fail] at accepted
  have ends := loop_ne_running_of_descends descends nonempty twoProps
  rw [filterTree]
  cases looped : loop globalTree staticProps (maxRounds globalTree.length)
      { queue := [0] } with
  | error fault =>
      rw [looped] at ends
      rw [error_bind]
      simpa using ends
  | ok state =>
      simp

end FilterTree

/-- The properties that a lookup reads at a split. -/
def FlatDecisionNode.reads
    (self : FlatDecisionNode) :
    List Int :=
  [self.property0, self.properties.1, self.properties.2]

/--
A property that a split may read: the constant first one, or a dynamic property
of the tree, which the plan has as used wherever it has room for it.
-/
def Planned
    (globalTree : List PropertyDecisionNode)
    (plan : PropertyUsePlan)
    (property : Int) :
    Prop :=
  property = 0 ∨
    kNumStaticProperties ≤ property ∧
      (∃ node ∈ globalTree, node.property = property) ∧
      (property < kMaxPropertyIndex → plan.used property.toNat = true)

theorem Planned.mark
    {globalTree : List PropertyDecisionNode}
    {plan : PropertyUsePlan}
    {property : Int}
    (planned : Planned globalTree plan property)
    (other : Int) :
    Planned globalTree (plan.mark other) property := by
  rcases planned with zero | ⟨dynamic, occurs, used⟩
  · exact .inl zero
  · refine .inr ⟨dynamic, occurs, ?_⟩
    intro inPlan
    exact PropertyUsePlan.used_mark_of_used other (used inPlan)

namespace FilterTree

variable {globalTree : List PropertyDecisionNode}
variable {staticProps : List Int32}

/-- A tree that reads another property is not a gradient tree. -/
def GradientKnown
    (state : State) :
    Prop :=
  ∀ idx,
    state.propertyUse.used idx = true →
    idx ≠ kGradientProp →
    state.gradientOnly = false

theorem GradientKnown.noteProperty
    {state : State}
    (known : GradientKnown state)
    (prop : Int) :
    GradientKnown (noteProperty state prop) := by
  intro idx used other
  simp only [FilterTree.noteProperty]
  rcases PropertyUsePlan.used_of_used_mark used with before |
    ⟨isProp, dynamic⟩
  · rw [known idx before other]
    rfl
  · have notGradient : prop ≠ kGradientProp := by
      rw [isProp]
      exact_mod_cast other
    simp [dynamic, notGradient]

/-- What the loop keeps true of its variables. -/
structure Filtered
    (globalTree : List PropertyDecisionNode)
    (state : State) :
    Prop where
  childrenBehind :
    ∀ (position : Nat) (node : FlatDecisionNode),
      state.output[position]? = some node →
      0 ≤ node.property0 →
      position < node.childID ∧
        node.childID + 4 ≤ state.output.length + state.queue.length
  dynamic :
    ∀ node ∈ state.output,
      0 ≤ node.property0 → kNumStaticProperties ≤ node.property0
  planned :
    ∀ node ∈ state.output,
      0 ≤ node.property0 →
      ∀ property ∈ node.reads,
        Planned globalTree state.propertyUse property ∧
          property < state.numProps
  leavesOnly :
    (∀ node ∈ state.output, node.property0 < 0) →
      state.propertyUse = {} ∧
        (state.hasWp = true →
          ∃ node ∈ state.output, node.predictor = .weighted)
  gradient :
    GradientKnown state
  listed :
    state.propertyUse.ReferencesListed

/-- A child that is read is a dynamic property of the tree. -/
theorem child_found
    {position : Nat}
    {side : Child}
    (isChild : child globalTree staticProps position = .ok side) :
    side.queued.length = 2 ∧
      (side.property = 0 ∨
        kNumStaticProperties ≤ side.property ∧
          (∃ node ∈ globalTree, node.property = side.property) ∧
          side.property < side.numProps) := by
  rw [child] at isChild
  obtain ⟨cur, skips, isChild⟩ := bind_eq_ok.1 isChild
  obtain ⟨node, found, isChild⟩ := bind_eq_ok.1 isChild
  obtain ⟨node', found', notStatic⟩ := skipStatic_found skips
  obtain rfl : node' = node := by
    rw [index_eq_ok.1 found] at found'
    exact (Option.some.inj found').symm
  by_cases isLeaf : node'.property = -1
  · rw [if_pos isLeaf] at isChild
    cases isChild
    exact ⟨rfl, .inl rfl⟩
  · rw [if_neg isLeaf] at isChild
    obtain ⟨_, nonneg, isChild⟩ := bind_eq_ok.1 isChild
    have nonneg := require_eq_ok.1 nonneg
    cases isChild
    refine ⟨rfl, .inr ⟨?_, ⟨node', List.mem_of_getElem? found', rfl⟩, ?_⟩⟩
    · by_contra isStatic
      exact notStatic ⟨nonneg, Int.not_le.1 isStatic⟩
    · dsimp only
      omega

variable {first : Nat}

/-- Appending a leaf keeps the invariant. -/
theorem Filtered.leaf
    {state : State}
    (filtered :
      Filtered globalTree { state with queue := first :: state.queue })
    (node : PropertyDecisionNode)
    (multiplier : Int32) :
    Filtered globalTree (FilterTree.leaf state node multiplier) where
  childrenBehind := by
    intro position flat found isSplit
    simp only [FilterTree.leaf, List.getElem?_append,
      List.length_append] at found ⊢
    split at found
    · obtain ⟨behind, inside⟩ :=
        filtered.childrenBehind position flat found isSplit
      simp only [List.length_cons] at inside
      exact ⟨behind, by simp only [List.length_cons, List.length_nil]; omega⟩
    · have isLeaf := List.mem_of_getElem? found
      simp only [List.mem_singleton] at isLeaf
      simp [isLeaf, FlatDecisionNode.ofLeaf] at isSplit
  dynamic := by
    intro flat member isSplit
    simp only [FilterTree.leaf, List.mem_append, List.mem_singleton] at member
    rcases member with old | isLeaf
    · exact filtered.dynamic flat old isSplit
    · simp [isLeaf, FlatDecisionNode.ofLeaf] at isSplit
  planned := by
    intro flat member isSplit
    simp only [FilterTree.leaf, List.mem_append, List.mem_singleton] at member
    rcases member with old | isLeaf
    · exact filtered.planned flat old isSplit
    · simp [isLeaf, FlatDecisionNode.ofLeaf] at isSplit
  leavesOnly := by
    intro onlyLeaves
    simp only [FilterTree.leaf, List.mem_append, List.mem_singleton]
      at onlyLeaves ⊢
    obtain ⟨unused, weighted⟩ :=
      filtered.leavesOnly (fun flat old => onlyLeaves flat (.inl old))
    refine ⟨unused, ?_⟩
    intro hasWp
    simp only [Bool.or_eq_true, decide_eq_true_eq] at hasWp
    rcases hasWp with before | isWeighted
    · obtain ⟨flat, old, isWeighted⟩ := weighted before
      exact ⟨flat, .inl old, isWeighted⟩
    · exact ⟨_, .inr rfl, isWeighted⟩
  gradient := by
    intro idx used other
    have notOnly : state.gradientOnly = false :=
      filtered.gradient idx used other
    simp [FilterTree.leaf, notOnly]
  listed :=
    filtered.listed

/-- Appending a split keeps the invariant. -/
theorem Filtered.split
    {state : State}
    {node : PropertyDecisionNode}
    {left right : Child}
    {leftPosition rightPosition : Nat}
    (filtered :
      Filtered globalTree { state with queue := first :: state.queue })
    (occurs : node ∈ globalTree)
    (dynamic : kNumStaticProperties ≤ node.property)
    (isLeft : child globalTree staticProps leftPosition = .ok left)
    (isRight : child globalTree staticProps rightPosition = .ok right) :
    Filtered globalTree
      (FilterTree.split state node
        (state.output.length + state.queue.length + 1) left right) := by
  obtain ⟨leftQueued, leftRead⟩ := child_found isLeft
  obtain ⟨rightQueued, rightRead⟩ := child_found isRight
  have isPlanned :
      ∀ property : Int,
        kNumStaticProperties ≤ property →
        (∃ node ∈ globalTree, node.property = property) →
        ∀ plan : PropertyUsePlan,
          Planned globalTree (plan.mark property) property := by
    intro property dynamic occurs plan
    exact
      .inr ⟨dynamic, occurs,
        fun inPlan => PropertyUsePlan.used_mark plan dynamic inPlan⟩
  constructor
  case childrenBehind =>
    intro position flat found isSplit
    simp only [FilterTree.split, List.foldl_cons, List.foldl_nil,
      output_noteProperty, queue_noteProperty, List.getElem?_append,
      List.length_append, leftQueued, rightQueued] at found ⊢
    split at found
    · obtain ⟨behind, inside⟩ :=
        filtered.childrenBehind position flat found isSplit
      simp only [List.length_cons] at inside
      exact ⟨behind, by simp only [List.length_cons, List.length_nil]; omega⟩
    next notOld =>
      have inside := (List.getElem?_eq_some_iff.1 found).1
      have isNew := List.mem_of_getElem? found
      simp only [List.mem_singleton] at isNew
      simp only [List.length_cons, List.length_nil] at inside ⊢
      rw [isNew]
      dsimp only
      omega
  case dynamic =>
    intro flat member isSplit
    simp only [FilterTree.split, List.foldl_cons, List.foldl_nil,
      output_noteProperty, List.mem_append, List.mem_singleton] at member
    rcases member with old | isNew
    · exact filtered.dynamic flat old isSplit
    · rw [isNew]
      exact dynamic
  case planned =>
    intro flat member isSplit property isRead
    simp only [FilterTree.split, List.foldl_cons, List.foldl_nil,
      output_noteProperty, List.mem_append, List.mem_singleton] at member
    simp only [FilterTree.split, List.foldl_cons, List.foldl_nil,
      numProps_noteProperty]
    rcases member with old | isNew
    · obtain ⟨planned, inProps⟩ :=
        filtered.planned flat old isSplit property isRead
      dsimp only at inProps
      exact ⟨((planned.mark _).mark _).mark _, by omega⟩
    · subst isNew
      simp only [FlatDecisionNode.reads, List.mem_cons, List.not_mem_nil,
        or_false] at isRead
      rcases isRead with rfl | rfl | rfl
      · refine ⟨((isPlanned _ dynamic ⟨node, occurs, rfl⟩ _).mark _).mark _, ?_⟩
        omega
      · rcases leftRead with zero | ⟨leftDynamic, leftOccurs, inLeft⟩
        · rw [zero]
          exact ⟨.inl rfl, by omega⟩
        · exact ⟨(isPlanned _ leftDynamic leftOccurs _).mark _, by omega⟩
      · rcases rightRead with zero | ⟨rightDynamic, rightOccurs, inRight⟩
        · rw [zero]
          exact ⟨.inl rfl, by omega⟩
        · exact ⟨isPlanned _ rightDynamic rightOccurs _, by omega⟩
  case leavesOnly =>
    intro onlyLeaves
    have isLeaf :=
      onlyLeaves
        { childID := state.output.length + state.queue.length + 1
          property0 := node.property
          splitval0 := node.splitval
          properties := (left.property, right.property)
          splitvals := (left.splitval, right.splitval) }
        (by simp [FilterTree.split])
    dsimp only at isLeaf
    omega
  case gradient =>
    simp only [FilterTree.split, List.foldl_cons, List.foldl_nil]
    have known : GradientKnown state :=
      filtered.gradient
    apply GradientKnown.noteProperty
    apply GradientKnown.noteProperty
    apply GradientKnown.noteProperty
    exact known
  case listed =>
    exact ((filtered.listed.mark _).mark _).mark _

/-- What one round can do. -/
inductive StepCases
    (globalTree : List PropertyDecisionNode)
    (staticProps : List Int32)
    (first : Nat)
    (state : State) :
    State → Prop where
  | leaf {cur : Nat} {node : PropertyDecisionNode} {multiplier : Int32} :
      skipStatic globalTree staticProps globalTree.length first = .ok cur →
        globalTree[cur]? = some node →
        node.property = -1 →
        toI32 node.multiplier = .ok multiplier →
        StepCases globalTree staticProps first state
          (FilterTree.leaf state node multiplier)
  | split {cur : Nat} {node : PropertyDecisionNode} {left right : Child} :
      skipStatic globalTree staticProps globalTree.length first = .ok cur →
        globalTree[cur]? = some node →
        kNumStaticProperties ≤ node.property →
        child globalTree staticProps node.lchild = .ok left →
        child globalTree staticProps node.rchild = .ok right →
        StepCases globalTree staticProps first state
          (FilterTree.split state node
            (state.output.length + state.queue.length + 1) left right)

variable {state after : State}

theorem step_cases
    (stepped : step globalTree staticProps first state = .ok after) :
    StepCases globalTree staticProps first state after := by
  rw [FilterTree.step] at stepped
  obtain ⟨cur, skips, stepped⟩ := bind_eq_ok.1 stepped
  obtain ⟨node, found, stepped⟩ := bind_eq_ok.1 stepped
  obtain ⟨node', found', notStatic⟩ := skipStatic_found skips
  obtain rfl : node' = node := by
    rw [index_eq_ok.1 found] at found'
    exact (Option.some.inj found').symm
  by_cases isLeaf : node'.property = -1
  · rw [if_pos isLeaf] at stepped
    obtain ⟨multiplier, isMultiplier, stepped⟩ := bind_eq_ok.1 stepped
    cases stepped
    exact .leaf skips found' isLeaf isMultiplier
  · rw [if_neg isLeaf] at stepped
    obtain ⟨childID, isChildID, stepped⟩ := bind_eq_ok.1 stepped
    obtain ⟨_, nonneg, stepped⟩ := bind_eq_ok.1 stepped
    obtain ⟨left, isLeft, stepped⟩ := bind_eq_ok.1 stepped
    obtain ⟨right, isRight, stepped⟩ := bind_eq_ok.1 stepped
    have nonneg := require_eq_ok.1 nonneg
    have dynamic : kNumStaticProperties ≤ node'.property := by
      by_contra isStatic
      exact notStatic ⟨nonneg, Int.not_le.1 isStatic⟩
    have sameID : childID = state.output.length + state.queue.length + 1 := by
      unfold castU at isChildID
      split at isChildID
      · cases isChildID
        rfl
      · cases isChildID
    cases stepped
    rw [sameID]
    exact .split skips found' dynamic isLeft isRight

/-- One round keeps the invariant. -/
theorem Filtered.step
    {rest : List Nat}
    (filtered : Filtered globalTree state)
    (isQueue : state.queue = first :: rest)
    (stepped :
      StepCases globalTree staticProps first { state with queue := rest }
        after) :
    Filtered globalTree after := by
  have filtered' :
      Filtered globalTree
        { ({ state with queue := rest } : State) with queue := first :: rest }
      := by
    dsimp only
    rw [← isQueue]
    exact filtered
  cases stepped with
  | leaf _ _ _ _ =>
      exact filtered'.leaf _ _
  | split _ found dynamic isLeft isRight =>
      exact
        filtered'.split (List.mem_of_getElem? found) dynamic isLeft isRight

/-- What every round keeps true holds at the end, where the queue is empty. -/
theorem loop_invariant
    {holds : State → Prop}
    {fuel : Nat}
    (step :
      ∀ first rest state after,
        holds state →
        state.queue = first :: rest →
        StepCases globalTree staticProps first { state with queue := rest }
          after →
        holds after)
    (start : holds state)
    (looped : loop globalTree staticProps fuel state = .ok after) :
    holds after ∧ after.queue = [] := by
  induction fuel generalizing state with
  | zero =>
      simp [FilterTree.loop] at looped
  | succ fuel inductionHypothesis =>
      rw [FilterTree.loop] at looped
      split at looped
      next isEmpty =>
        cases looped
        exact ⟨start, isEmpty⟩
      next first rest isQueue =>
        obtain ⟨next, stepped, looped⟩ := bind_eq_ok.1 looped
        exact
          inductionHypothesis
            (step first rest state next start isQueue (step_cases stepped))
            looped

theorem filtered_initial
    (globalTree : List PropertyDecisionNode) :
    Filtered globalTree { queue := [0] } where
  childrenBehind := by simp
  dynamic := by simp
  planned := by simp
  leavesOnly := by simp
  gradient := by simp [GradientKnown]
  listed := by simp [PropertyUsePlan.ReferencesListed]

end FilterTree

/-- The guarantees about a filtered tree. -/
structure FilteredTree.WellFormed
    (globalTree : List PropertyDecisionNode)
    (filtered : FilteredTree) :
    Prop where
  childrenBehind :
    ∀ (position : Nat) (node : FlatDecisionNode),
      filtered.flatTree[position]? = some node →
      0 ≤ node.property0 →
      position < node.childID ∧ node.childID + 4 ≤ filtered.flatTree.length
  dynamic :
    ∀ node ∈ filtered.flatTree,
      0 ≤ node.property0 → kNumStaticProperties ≤ node.property0
  planned :
    ∀ node ∈ filtered.flatTree,
      0 ≤ node.property0 →
      ∀ property ∈ node.reads,
        Planned globalTree filtered.propertyUse property ∧
          property < filtered.numProps
  leavesOnly :
    (∀ node ∈ filtered.flatTree, node.property0 < 0) →
      (∀ idx, filtered.propertyUse.used idx = false) ∧
        filtered.propertyUse.referenceProps = [] ∧
        (filtered.useWp = true →
          ∃ node ∈ filtered.flatTree, node.predictor = .weighted)
  gradient :
    ∀ idx,
      filtered.propertyUse.used idx = true →
      idx ≠ kGradientProp →
      filtered.gradientOnly = false
  listed :
    filtered.propertyUse.ReferencesListed

/-- What the filter returns is well formed. -/
theorem wellFormed_of_filterTree
    {globalTree : List PropertyDecisionNode}
    {staticProps : List Int32}
    {filtered : FilteredTree}
    (isFiltered : filterTree globalTree staticProps = .ok filtered) :
    filtered.WellFormed globalTree := by
  rw [filterTree] at isFiltered
  obtain ⟨state, looped, isFiltered⟩ := bind_eq_ok.1 isFiltered
  obtain ⟨invariant, emptied⟩ :=
    FilterTree.loop_invariant
      (fun _ _ _ _ filtered isQueue stepped => filtered.step isQueue stepped)
      (FilterTree.filtered_initial globalTree) looped
  cases isFiltered
  constructor
  case childrenBehind =>
    intro position node found isSplit
    have behind := invariant.childrenBehind position node found isSplit
    rw [emptied] at behind
    exact behind
  case dynamic =>
    exact invariant.dynamic
  case planned =>
    intro node member isSplit property isRead
    obtain ⟨planned, inProps⟩ :=
      invariant.planned node member isSplit property isRead
    refine ⟨planned, ?_⟩
    dsimp only
    split
    next large =>
      simp only [kNumNonrefProperties, kExtraPropsPerChannel] at large ⊢
      omega
    next small =>
      omega
  case leavesOnly =>
    intro onlyLeaves
    obtain ⟨unused, weighted⟩ := invariant.leavesOnly onlyLeaves
    rw [unused]
    exact ⟨fun _ => rfl, rfl, weighted⟩
  case gradient =>
    exact invariant.gradient
  case listed =>
    intro idx used isReference
    exact
      (List.mem_insertionSort _).2 (invariant.listed idx used isReference)

end Jxlz.ContextPredict
