import Jxlz.Modular.ValidateTreeExact

namespace Jxlz

open BreadthFirst

/-!
# The table of bounds

The traversal has one table for all nodes.  In every state that it reaches the
table says what the splits above the node on top of the stack allow, and nothing
that a sibling's subtree has left behind.
-/

namespace ValidateTree

variable {tree : List PropertyDecisionNode}

/-- The splits above a place allow a value of a property. -/
def Allows
    (tree : List PropertyDecisionNode)
    (place property : Nat)
    (value : Int32) :
    Prop :=
  ∀ (above : Nat) (node : PropertyDecisionNode),
    tree[above]? = some node →
    node.property = property →
    (∀ edges,
      Walk (Child treeShape tree) node.lchild edges place →
      node.splitval < value) ∧
      ∀ edges,
        Walk (Child treeShape tree) node.rchild edges place →
        value ≤ node.splitval

/-- Nothing is above the root. -/
theorem allows_root
    (complete : Complete treeShape tree)
    (property : Nat)
    (value : Int32) :
    Allows tree 0 property value := by
  intro above node found isProperty
  have splits : treeShape.isSplit node = true :=
    isSplit_iff.2 (by omega)
  constructor
  · intro edges walk
    have far := walk.add_le complete.up
    have behind := complete.up above node.lchild ⟨node, found, splits, .inl rfl⟩
    omega
  · intro edges walk
    have far := walk.add_le complete.up
    have behind := complete.up above node.rchild ⟨node, found, splits, .inr rfl⟩
    omega

/-- A walk to a child ends there, or goes on from its parent. -/
theorem walk_to_child
    (complete : Complete treeShape tree)
    {place child start edges : Nat}
    (isChild : Child treeShape tree place child)
    (walk : Walk (Child treeShape tree) start edges child) :
    start = child ∨ ∃ edges, Walk (Child treeShape tree) start edges place := by
  cases edges with
  | zero =>
      exact .inl walk.eq_of_zero
  | succ edges =>
      obtain ⟨middle, before, last⟩ := walk.exists_last
      obtain rfl := complete.oneParent _ _ _ isChild last
      exact .inr ⟨edges, before⟩

variable {node : PropertyDecisionNode}

/-- A left child is above nothing but itself that its parent is not above. -/
theorem allows_left
    (complete : Complete treeShape tree)
    {place property : Nat}
    {value : Int32}
    (found : tree[place]? = some node)
    (isSplit : node.property ≠ -1) :
    Allows tree node.lchild property value ↔
      Allows tree place property value ∧
        (node.property = property → node.splitval < value) := by
  have splits := isSplit_iff.2 isSplit
  have isLeft : Child treeShape tree place node.lchild :=
    ⟨node, found, splits, .inl rfl⟩
  constructor
  · intro allows
    refine ⟨fun above other found' isProperty => ?_, fun isProperty => ?_⟩
    · obtain ⟨left, right⟩ := allows above other found' isProperty
      exact
        ⟨fun edges walk => left _ (walk.tail isLeft),
          fun edges walk => right _ (walk.tail isLeft)⟩
    · exact (allows place node found isProperty).1 0 (.refl _)
  · rintro ⟨allows, here⟩ above other found' isProperty
    obtain ⟨left, right⟩ := allows above other found' isProperty
    have splits' : treeShape.isSplit other = true :=
      isSplit_iff.2 (by omega)
    constructor
    · intro edges walk
      rcases walk_to_child complete isLeft walk with same | ⟨edges', walk'⟩
      · obtain rfl : above = place :=
          complete.parent_unique ⟨other, found', splits', .inl same.symm⟩ isLeft
        rw [found] at found'
        cases found'
        exact here isProperty
      · exact left edges' walk'
    · intro edges walk
      rcases walk_to_child complete isLeft walk with same | ⟨edges', walk'⟩
      · obtain rfl : above = place :=
          complete.parent_unique ⟨other, found', splits', .inr same.symm⟩ isLeft
        rw [found] at found'
        cases found'
        obtain ⟨isLeft', isRight'⟩ := complete.children above node found splits
        replace isLeft' : node.lchild = _ := isLeft'
        replace isRight' : node.rchild = _ := isRight'
        omega
      · exact right edges' walk'

/-- A right child is above nothing but itself that its parent is not above. -/
theorem allows_right
    (complete : Complete treeShape tree)
    {place property : Nat}
    {value : Int32}
    (found : tree[place]? = some node)
    (isSplit : node.property ≠ -1) :
    Allows tree node.rchild property value ↔
      Allows tree place property value ∧
        (node.property = property → value ≤ node.splitval) := by
  have splits := isSplit_iff.2 isSplit
  have isRight : Child treeShape tree place node.rchild :=
    ⟨node, found, splits, .inr rfl⟩
  constructor
  · intro allows
    refine ⟨fun above other found' isProperty => ?_, fun isProperty => ?_⟩
    · obtain ⟨left, right⟩ := allows above other found' isProperty
      exact
        ⟨fun edges walk => left _ (walk.tail isRight),
          fun edges walk => right _ (walk.tail isRight)⟩
    · exact (allows place node found isProperty).2 0 (.refl _)
  · rintro ⟨allows, here⟩ above other found' isProperty
    obtain ⟨left, right⟩ := allows above other found' isProperty
    have splits' : treeShape.isSplit other = true :=
      isSplit_iff.2 (by omega)
    constructor
    · intro edges walk
      rcases walk_to_child complete isRight walk with same | ⟨edges', walk'⟩
      · obtain rfl : above = place :=
          complete.parent_unique ⟨other, found', splits', .inl same.symm⟩ isRight
        rw [found] at found'
        cases found'
        obtain ⟨isLeft', isRight'⟩ := complete.children above node found splits
        replace isLeft' : node.lchild = _ := isLeft'
        replace isRight' : node.rchild = _ := isRight'
        omega
      · exact left edges' walk'
    · intro edges walk
      rcases walk_to_child complete isRight walk with same | ⟨edges', walk'⟩
      · obtain rfl : above = place :=
          complete.parent_unique ⟨other, found', splits', .inr same.symm⟩ isRight
        rw [found] at found'
        cases found'
        exact here isProperty
      · exact right edges' walk'

/-- The frames above a place, and the bounds that hold there. -/
inductive OnPath
    (tree : List PropertyDecisionNode) :
    List Frame → Nat → List Range → Prop where
  | root : OnPath tree [] 0 (initialRanges tree)
  | left
      {below : List Frame}
      {place : Nat}
      {node : PropertyDecisionNode}
      {range : Range}
      {ranges : List Range}
      (above : OnPath tree below place ranges)
      (found : tree[place]? = some node)
      (nonneg : 0 ≤ node.property)
      (bounds : ranges[node.property.toNat]? = some range)
      (fits : ¬ (node.splitval < range.lower ∨ range.upper ≤ node.splitval)) :
      OnPath tree
        ({ index := place, phase := .right, saved := range } :: below)
        node.lchild
        (ranges.set node.property.toNat
          { range with lower := node.splitval + 1 })
  | right
      {below : List Frame}
      {place : Nat}
      {node : PropertyDecisionNode}
      {range : Range}
      {ranges : List Range}
      (above : OnPath tree below place ranges)
      (found : tree[place]? = some node)
      (nonneg : 0 ≤ node.property)
      (bounds : ranges[node.property.toNat]? = some range)
      (fits : ¬ (node.splitval < range.lower ∨ range.upper ≤ node.splitval)) :
      OnPath tree
        ({ index := place, phase := .restore, saved := range } :: below)
        node.rchild
        (ranges.set node.property.toNat { range with upper := node.splitval })

variable {below : List Frame} {place : Nat} {ranges : List Range}

/-- The frames are as many as the edges above the place. -/
theorem OnPath.walk
    (onPath : OnPath tree below place ranges) :
    Walk (Child treeShape tree) 0 below.length place := by
  induction onPath with
  | root =>
      exact .refl 0
  | left above found nonneg _ _ walk =>
      exact walk.tail ⟨_, found, isSplit_iff.2 (by omega), .inl rfl⟩
  | right above found nonneg _ _ walk =>
      exact walk.tail ⟨_, found, isSplit_iff.2 (by omega), .inr rfl⟩

/-- The bounds at a place are those of the splits above it, and no others. -/
theorem OnPath.allows_iff
    (complete : Complete treeShape tree)
    (onPath : OnPath tree below place ranges)
    {property : Nat}
    {range : Range}
    (bounds : ranges[property]? = some range)
    (value : Int32) :
    range.lower ≤ value ∧ value ≤ range.upper ↔
      Allows tree place property value := by
  induction onPath generalizing range with
  | root =>
      rw [initialRanges, List.getElem?_replicate] at bounds
      split at bounds
      · cases bounds
        exact
          ⟨fun _ => allows_root complete property value,
            fun _ => ⟨Int32.minValue_le value, Int32.le_maxValue value⟩⟩
      · cases bounds
  | @left below place node saved ranges above found nonneg bounds' fits
      inductionHypothesis =>
      rw [not_or, Int32.not_lt, Int32.not_le] at fits
      obtain ⟨lower, upper⟩ := fits
      rw [allows_left complete found (by omega)]
      by_cases same : node.property.toNat = property
      · subst same
        have inTable := (List.getElem?_eq_some_iff.1 bounds').1
        rw [List.getElem?_set_self inTable] at bounds
        cases bounds
        rw [← inductionHypothesis bounds']
        dsimp only
        rw [succ_le_iff upper]
        constructor
        · rintro ⟨exceeds, high⟩
          exact
            ⟨⟨Int32.le_of_lt (Int32.lt_of_le_of_lt lower exceeds), high⟩,
              fun _ => exceeds⟩
        · rintro ⟨⟨_, high⟩, exceeds⟩
          exact ⟨exceeds (by omega), high⟩
      · rw [List.getElem?_set_ne same] at bounds
        rw [inductionHypothesis bounds]
        constructor
        · intro allows
          exact ⟨allows, fun isProperty => absurd isProperty (by omega)⟩
        · exact And.left
  | @right below place node saved ranges above found nonneg bounds' fits
      inductionHypothesis =>
      rw [not_or, Int32.not_lt, Int32.not_le] at fits
      obtain ⟨lower, upper⟩ := fits
      rw [allows_right complete found (by omega)]
      by_cases same : node.property.toNat = property
      · subst same
        have inTable := (List.getElem?_eq_some_iff.1 bounds').1
        rw [List.getElem?_set_self inTable] at bounds
        cases bounds
        rw [← inductionHypothesis bounds']
        dsimp only
        constructor
        · rintro ⟨low, atMost⟩
          exact
            ⟨⟨low, Int32.le_of_lt (Int32.lt_of_le_of_lt atMost upper)⟩,
              fun _ => atMost⟩
        · rintro ⟨⟨low, _⟩, atMost⟩
          exact ⟨low, atMost (by omega)⟩
      · rw [List.getElem?_set_ne same] at bounds
        rw [inductionHypothesis bounds]
        constructor
        · intro allows
          exact ⟨allows, fun isProperty => absurd isProperty (by omega)⟩
        · exact And.left

theorem OnPath.length_eq
    (onPath : OnPath tree below place ranges) :
    ranges.length = numProperties tree := by
  induction onPath with
  | root =>
      exact length_initialRanges tree
  | left _ _ _ _ _ length =>
      rw [List.length_set, length]
  | right _ _ _ _ _ length =>
      rw [List.length_set, length]

/-- The states that the traversal goes through. -/
inductive OnTraversal
    (tree : List PropertyDecisionNode) :
    Traversal → Prop where
  | done : OnTraversal tree { ranges := initialRanges tree, stack := [] }
  | enter
      {below : List Frame}
      {place : Nat}
      {ranges : List Range}
      (onPath : OnPath tree below place ranges) :
      OnTraversal tree { ranges, stack := { index := place } :: below }
  | right
      {below : List Frame}
      {place : Nat}
      {node : PropertyDecisionNode}
      {range : Range}
      {ranges : List Range}
      (onPath : OnPath tree below place ranges)
      (found : tree[place]? = some node)
      (nonneg : 0 ≤ node.property)
      (bounds : ranges[node.property.toNat]? = some range)
      (fits : ¬ (node.splitval < range.lower ∨ range.upper ≤ node.splitval)) :
      OnTraversal tree
        { ranges :=
            ranges.set node.property.toNat
              { range with lower := node.splitval + 1 }
          stack :=
            { index := place, phase := .right, saved := range } :: below }
  | restore
      {below : List Frame}
      {place : Nat}
      {node : PropertyDecisionNode}
      {range : Range}
      {ranges : List Range}
      (onPath : OnPath tree below place ranges)
      (found : tree[place]? = some node)
      (nonneg : 0 ≤ node.property)
      (bounds : ranges[node.property.toNat]? = some range)
      (fits : ¬ (node.splitval < range.lower ∨ range.upper ≤ node.splitval)) :
      OnTraversal tree
        { ranges :=
            ranges.set node.property.toNat { range with upper := node.splitval }
          stack :=
            { index := place, phase := .restore, saved := range } :: below }

/-- Taking the top of the stack away leaves a state of the traversal. -/
theorem OnPath.pop
    (onPath : OnPath tree below place ranges) :
    OnTraversal tree { ranges, stack := below } := by
  cases onPath with
  | root =>
      exact .done
  | left above found nonneg bounds fits =>
      exact .right above found nonneg bounds fits
  | right above found nonneg bounds fits =>
      exact .restore above found nonneg bounds fits

/-- A split on the path leaves room for one more frame. -/
theorem OnPath.room
    (complete : Complete treeShape tree)
    (shallow : Shallow tree)
    (onPath : OnPath tree below place ranges)
    (found : tree[place]? = some node)
    (isSplit : node.property ≠ -1) :
    below.length + 1 < stackCapacity tree := by
  have walk :=
    onPath.walk.tail ⟨node, found, isSplit_iff.2 isSplit, .inl rfl⟩
  have low := shallow _ _ walk
  have far := walk.add_le complete.up
  have inside := walk_lt complete walk
  rw [stackCapacity]
  omega

/-- Every round ends the traversal, finds a contradiction or goes on to such a state. -/
theorem OnTraversal.round
    (complete : Complete treeShape tree)
    (hasProperties : HasProperties tree)
    (shallow : Shallow tree)
    {state : Traversal}
    (onTraversal : OnTraversal tree state) :
    ValidateTree.round tree (stackCapacity tree) state = .ok (.inr ()) ∨
      ValidateTree.round tree (stackCapacity tree) state =
          fail .InvalidMaTree ∨
        ∃ next,
          ValidateTree.round tree (stackCapacity tree) state =
              .ok (.inl next) ∧
            OnTraversal tree next := by
  cases onTraversal with
  | done =>
      exact .inl rfl
  | @enter below place ranges onPath =>
      have inside := walk_lt complete onPath.walk
      have found : tree[place]? = some tree[place] :=
        List.getElem?_eq_getElem inside
      generalize tree[place] = node at found
      by_cases isLeaf : node.property = -1
      · right
        right
        exact ⟨_, round_leaf found isLeaf _ _, onPath.pop⟩
      · have member := List.mem_of_getElem? found
        have nonneg := hasProperties node member isLeaf
        have inTable : node.property.toNat < ranges.length := by
          rw [onPath.length_eq]
          exact lt_numProperties member nonneg
        have bounds :
            ranges[node.property.toNat]? = some ranges[node.property.toNat] :=
          List.getElem?_eq_getElem inTable
        generalize ranges[node.property.toNat] = range at bounds
        right
        by_cases contradicts :
            node.splitval < range.lower ∨ range.upper ≤ node.splitval
        · left
          exact round_contradiction found nonneg bounds contradicts _ _
        · right
          have room := onPath.room complete shallow found isLeaf
          refine ⟨_, ?_, .enter (.left onPath found nonneg bounds contradicts)⟩
          rw [round_enter found nonneg bounds contradicts]
          exact push_ok room _
  | @right below place node range ranges onPath found nonneg bounds fits =>
      have inTable := (List.getElem?_eq_some_iff.1 bounds).1
      have room := onPath.room complete shallow found (by omega)
      right
      right
      refine ⟨_, ?_, .enter (.right onPath found nonneg bounds fits)⟩
      rw [round_right found nonneg (by rwa [List.length_set]), List.set_set]
      exact push_ok room _
  | @restore below place node range ranges onPath found nonneg bounds fits =>
      have inTable := (List.getElem?_eq_some_iff.1 bounds).1
      right
      right
      refine ⟨_, ?_, onPath.pop⟩
      rw [round_restore found nonneg (by rwa [List.length_set]), List.set_set,
        set_of_getElem? bounds]

/-- Whatever the traversal does, it goes from one of its states to another. -/
theorem onTraversal_of_rounds
    (complete : Complete treeShape tree)
    (hasProperties : HasProperties tree)
    (shallow : Shallow tree)
    {count : Nat}
    {first last : Traversal}
    (rounds :
      FuelLoop.Rounds (ValidateTree.round tree (stackCapacity tree)) count
        first last)
    (onTraversal : OnTraversal tree first) :
    OnTraversal tree last := by
  induction rounds with
  | refl _ =>
      exact onTraversal
  | head stepped _ inductionHypothesis =>
      apply inductionHypothesis
      rcases onTraversal.round complete hasProperties shallow with
        ends | contradiction | ⟨next, isNext, onTraversal'⟩
      · rw [ends] at stepped
        cases stepped
      · rw [contradiction] at stepped
        cases stepped
      · rw [isNext] at stepped
        cases stepped
        exact onTraversal'

/-- The stack of a state fits its memory. -/
theorem OnTraversal.fits
    (complete : Complete treeShape tree)
    (shallow : Shallow tree)
    {state : Traversal}
    (onTraversal : OnTraversal tree state) :
    state.stack.length ≤ stackCapacity tree := by
  have onStack :
      ∀ {below : List Frame} {place : Nat} {ranges : List Range},
        OnPath tree below place ranges →
        below.length + 1 ≤ stackCapacity tree := by
    intro below place ranges onPath
    have low := shallow _ _ onPath.walk
    have far := onPath.walk.add_le complete.up
    have inside := walk_lt complete onPath.walk
    rw [stackCapacity]
    omega
  cases onTraversal with
  | done =>
      exact Nat.zero_le _
  | enter onPath =>
      exact onStack onPath
  | right onPath _ _ _ _ =>
      exact onStack onPath
  | restore onPath _ _ _ _ =>
      exact onStack onPath

end ValidateTree

open ValidateTree in
/--
For a full binary tree in breadth-first order whose splits read properties, the
validation succeeds exactly if no path has more than 2048 edges and every leaf
is reached by some vector of property values.  In every state that the second
pass reaches the stack fits its memory and the next round does not overflow it,
and at a node the table allows exactly the values that the splits above the node
allow.
-/
theorem validateTreeOnStack_exact
    {tree : List PropertyDecisionNode}
    (complete : Complete treeShape tree)
    (hasProperties : HasProperties tree) :
    (validateTreeOnStack tree = .ok () ↔
      (∀ edges place,
        Walk (Child treeShape tree) 0 edges place → edges ≤ 2048) ∧
        ∀ leaf node,
          tree[leaf]? = some node →
          node.property = -1 →
          ∃ properties edges,
            Walk (Follows tree properties) 0 edges leaf) ∧
      ((∀ edges place,
        Walk (Child treeShape tree) 0 edges place → edges ≤ 2048) →
        ∀ count state,
          FuelLoop.Rounds (round tree (stackCapacity tree)) count
              { ranges := initialRanges tree, stack := [{ index := 0 }] }
              state →
          state.stack.length ≤ stackCapacity tree ∧
            (∀ fault,
              round tree (stackCapacity tree) state = .error fault →
              fault = .error .InvalidMaTree) ∧
            ∀ frame below,
              state.stack = frame :: below →
              frame.phase = .enter →
              ∀ (property : Nat) (range : Range),
                state.ranges[property]? = some range →
                ∀ value,
                  range.lower ≤ value ∧ value ≤ range.upper ↔
                    Allows tree frame.index property value) := by
  refine ⟨validateTreeOnStack_iff complete hasProperties, ?_⟩
  intro shallow count state rounds
  have onTraversal :=
    onTraversal_of_rounds complete hasProperties shallow rounds (.enter .root)
  refine ⟨onTraversal.fits complete shallow, ?_, ?_⟩
  · intro fault failed
    rcases onTraversal.round complete hasProperties shallow with
      ends | contradiction | ⟨next, isNext, _⟩
    · rw [ends] at failed
      cases failed
    · rw [contradiction] at failed
      cases failed
      rfl
    · rw [isNext] at failed
      cases failed
  · intro frame below isStack enters property range bounds value
    cases onTraversal with
    | done =>
        cases isStack
    | enter onPath =>
        cases isStack
        exact onPath.allows_iff complete bounds value
    | right onPath _ _ _ _ =>
        cases isStack
        cases enters
    | restore onPath _ _ _ _ =>
        cases isStack
        cases enters

/-- Two splits on one property: every leaf is reached. -/
theorem validateTreeOnStack_exact_twoSplits :
    let tree : List PropertyDecisionNode :=
      [.split 0 0 1 2, .split 0 1 3 4, .leaf .zero 0 1, .leaf .zero 1 1,
        .leaf .zero 2 1]
    validateTreeOnStack tree = .ok () ∧
      ∀ leaf node,
        tree[leaf]? = some node →
        node.property = -1 →
        ∃ properties edges,
          Walk (Follows tree properties) 0 edges leaf := by
  intro tree
  have complete : Complete treeShape tree :=
    (((((growing_nil treeShape).split rfl rfl rfl).split rfl rfl rfl).leaf
      rfl).leaf rfl).leaf rfl
  have hasProperties : HasProperties tree := by
    unfold HasProperties
    decide
  have accepted : validateTreeOnStack tree = .ok () := by
    decide +kernel
  obtain ⟨exact, _⟩ := validateTreeOnStack_exact complete hasProperties
  exact ⟨accepted, (exact.1 accepted).2⟩

end Jxlz
