import Jxlz.Modular.DecodeTree
import Jxlz.Modular.ValidateTree

namespace Jxlz

open BreadthFirst

/-!
# Which trees the validation accepts

For a full binary tree in breadth-first order the two passes of `validateTree`
together say that no path is too long and that every leaf is reached by some
vector of property values.  The table of bounds always says what the splits
above the current node allow.
-/

/-- A split leads to its left child where the property exceeds the split value. -/
def Follows
    (tree : List PropertyDecisionNode)
    (properties : Nat → Int32)
    (place next : Nat) :
    Prop :=
  ∃ node,
    tree[place]? = some node ∧
      node.property ≠ -1 ∧
      next =
        if node.splitval < properties node.property.toNat then
          node.lchild
        else
          node.rchild

/-- Every split reads a property. -/
def HasProperties
    (tree : List PropertyDecisionNode) :
    Prop :=
  ∀ node ∈ tree, node.property ≠ -1 → 0 ≤ node.property

/-- No path from the root has more than the allowed number of edges. -/
def Shallow
    (tree : List PropertyDecisionNode) :
    Prop :=
  ∀ edges place,
    Walk (Child treeShape tree) 0 edges place →
    edges ≤ ValidateTree.kHeightLimit

variable {tree : List PropertyDecisionNode}

theorem child_of_follows
    {properties : Nat → Int32}
    {place next : Nat}
    (follows : Follows tree properties place next) :
    Child treeShape tree place next := by
  obtain ⟨node, found, isSplit, isNext⟩ := follows
  refine ⟨node, found, isSplit_iff.2 isSplit, ?_⟩
  rw [isNext]
  split
  · exact .inl rfl
  · exact .inr rfl

namespace ValidateTree

/-- The heights that the first pass has written when it gets to a place. -/
structure Heights
    (tree : List PropertyDecisionNode)
    (count : Nat)
    (heights : List Nat) :
    Prop where
  length :
    heights.length = tree.length
  depth :
    ∀ place edges,
      place ≤ 2 * splitsBefore treeShape tree count →
      Walk (Child treeShape tree) 0 edges place →
      heights[place]? = some edges

/-- A walk from the root ends inside the tree. -/
theorem walk_lt
    (complete : Complete treeShape tree)
    {edges place : Nat}
    (walk : Walk (Child treeShape tree) 0 edges place) :
    place < tree.length := by
  cases edges with
  | zero =>
      rw [← walk.eq_of_zero]
      have balance := complete.balance
      omega
  | succ edges =>
      obtain ⟨middle, _, last⟩ := walk.exists_last
      exact (complete.child_bounds last).2

variable {count edges : Nat} {heights : List Nat}

/-- The first pass knows the height of the node that it gets to. -/
theorem Heights.atNode
    (complete : Complete treeShape tree)
    (known : Heights tree count heights)
    (walk : Walk (Child treeShape tree) 0 edges count) :
    index heights count = .ok edges := by
  rw [index_eq_ok]
  exact
    known.depth count edges (complete.reached count (walk_lt complete walk))
      walk

variable {node : PropertyDecisionNode}

/-- A leaf adds no heights. -/
theorem Heights.leaf
    {count : Nat}
    (known : Heights tree count heights)
    (found : tree[count]? = some node)
    (isLeaf : node.property = -1) :
    Heights tree (count + 1) heights where
  length := known.length
  depth := by
    intro place edges early walk
    rw [splitsBefore_succ found, isSplit_eq_false_iff.2 isLeaf] at early
    exact known.depth place edges early walk

/-- A split adds the heights of its children. -/
theorem Heights.split
    (complete : Complete treeShape tree)
    (known : Heights tree count heights)
    (found : tree[count]? = some node)
    (isSplit : node.property ≠ -1)
    (walk : Walk (Child treeShape tree) 0 edges count) :
    Heights tree (count + 1)
      ((heights.set node.lchild (edges + 1)).set node.rchild (edges + 1)) where
  length := by
    rw [List.length_set, List.length_set, known.length]
  depth := by
    intro place edges' early walk'
    have splits := isSplit_iff.2 isSplit
    rw [splitsBefore_succ found, if_pos splits] at early
    obtain ⟨left, right⟩ := complete.children count node found splits
    have inside := walk_lt complete walk'
    have sameEdges :
        Child treeShape tree count place → edges' = edges + 1 :=
      fun child =>
        Walk.length_unique complete.up complete.oneParent walk'
          (walk.tail child)
    replace left : node.lchild = _ := left
    replace right : node.rchild = _ := right
    rw [List.getElem?_set, List.length_set, known.length, List.getElem?_set,
      known.length]
    split
    next isRight =>
      rw [if_pos (by omega)]
      rw [sameEdges ⟨node, found, splits, .inr isRight.symm⟩]
    next notRight =>
      split
      next isLeft =>
        rw [if_pos (by omega)]
        rw [sameEdges ⟨node, found, splits, .inl isLeft.symm⟩]
      next notLeft =>
        exact known.depth place edges' (by omega) walk'

theorem heights_initial
    (complete : Complete treeShape tree) :
    Heights tree 0 (List.replicate tree.length 0) where
  length := List.length_replicate
  depth := by
    intro place edges early walk
    obtain rfl : place = 0 := by
      simpa [splitsBefore] using early
    have none : edges = 0 :=
      Walk.length_unique complete.up complete.oneParent walk (.refl 0)
    have inside := walk_lt complete walk
    rw [none, List.getElem?_replicate, if_pos inside]

/-- One round of the first pass. -/
theorem checkHeight_eq
    (complete : Complete treeShape tree)
    (known : Heights tree count heights)
    (walk : Walk (Child treeShape tree) 0 edges count) :
    (edges ≤ kHeightLimit →
      ∃ heights',
        checkHeight tree heights count = .ok heights' ∧
          Heights tree (count + 1) heights') ∧
      (kHeightLimit < edges →
        checkHeight tree heights count = fail .GenericError) := by
  have inside := walk_lt complete walk
  have found : tree[count]? = some tree[count] :=
    List.getElem?_eq_getElem inside
  generalize tree[count] = node at found
  constructor
  · intro low
    have notHigh : ¬ kHeightLimit < edges :=
      Nat.not_lt.2 low
    rw [checkHeight, known.atNode complete walk, ok_bind, if_neg notHigh,
      index_eq_ok.2 found, ok_bind]
    by_cases isLeaf : node.property = -1
    · rw [if_pos isLeaf]
      exact ⟨heights, rfl, known.leaf found isLeaf⟩
    · have splits := isSplit_iff.2 isLeaf
      have leftInside :=
        (complete.child_bounds ⟨node, found, splits, .inl rfl⟩).2
      have rightInside :=
        (complete.child_bounds ⟨node, found, splits, .inr rfl⟩).2
      have childrenInside :
          ¬ (tree.length ≤ node.lchild ∨ tree.length ≤ node.rchild) := by
        rw [not_or, Nat.not_le, Nat.not_le]
        exact ⟨leftInside, rightInside⟩
      rw [if_neg isLeaf, if_neg childrenInside]
      exact ⟨_, rfl, known.split complete found isLeaf walk⟩
  · intro high
    rw [checkHeight, known.atNode complete walk, ok_bind, if_pos high]

/-- The first pass accepts the trees without long paths. -/
theorem checkHeights_iff
    (complete : Complete treeShape tree) :
    (∃ heights,
      (List.range tree.length).foldlM (checkHeight tree)
          (List.replicate tree.length 0) =
        .ok heights) ↔
      Shallow tree := by
  constructor
  · rintro ⟨heights, ran⟩
    have checked :=
      foldlM_range_of_ok
        (fun count heights =>
          Heights tree count heights ∧
            ∀ place edges,
              place < count →
              Walk (Child treeShape tree) 0 edges place →
              edges ≤ kHeightLimit)
        ran ⟨heights_initial complete, by simp⟩
        (by
          intro count heights next inside stepped holds
          obtain ⟨known, low⟩ := holds
          obtain ⟨edges, walk⟩ := complete.exists_walk inside
          obtain ⟨accepts, rejects⟩ := checkHeight_eq complete known walk
          by_cases high : kHeightLimit < edges
          · rw [rejects high] at stepped
            cases stepped
          · obtain ⟨heights', stepped', known'⟩ :=
              accepts (Nat.le_of_not_lt high)
            rw [stepped'] at stepped
            cases stepped
            refine ⟨known', ?_⟩
            intro place edges' early walk'
            rcases Nat.lt_succ_iff_lt_or_eq.1 early with before | rfl
            · exact low place edges' before walk'
            · rw [Walk.length_unique complete.up complete.oneParent walk' walk]
              exact Nat.le_of_not_lt high)
    intro edges place walk
    exact checked.2 place edges (walk_lt complete walk) walk
  · intro shallow
    have checks :
        ∀ count heights,
          count < tree.length →
          Heights tree count heights →
          ∃ next,
            checkHeight tree heights count = .ok next ∧
              Heights tree (count + 1) next := by
      intro count heights inside known
      obtain ⟨edges, walk⟩ := complete.exists_walk inside
      exact (checkHeight_eq complete known walk).1 (shallow edges count walk)
    obtain ⟨heights, ran, _⟩ :=
      foldlM_range_ok (Heights tree) tree.length (heights_initial complete)
        checks
    exact ⟨heights, ran⟩

/-- Without long paths the stack has room for every path. -/
theorem descends_of_shallow
    (complete : Complete treeShape tree)
    (hasProperties : HasProperties tree)
    (shallow : Shallow tree)
    {edges place : Nat}
    (walk : Walk (Child treeShape tree) 0 edges place) :
    Descends tree (stackCapacity tree - 1 - edges) place := by
  induction ahead : tree.length - place using Nat.strong_induction_on
    generalizing edges place with
  | _ ahead inductionHypothesis =>
      have inside := walk_lt complete walk
      have found : tree[place]? = some tree[place] :=
        List.getElem?_eq_getElem inside
      generalize tree[place] = node at found
      by_cases isLeaf : node.property = -1
      · exact .leaf found isLeaf
      · have splits := isSplit_iff.2 isLeaf
        have below :
            ∀ child,
              Child treeShape tree place child →
              edges + 1 ≤ stackCapacity tree - 1 ∧
                Descends tree (stackCapacity tree - 1 - (edges + 1))
                  child := by
          intro child isChild
          have walk' := walk.tail isChild
          have low := shallow (edges + 1) child walk'
          have far := walk'.add_le complete.up
          obtain ⟨above, inside'⟩ := complete.child_bounds isChild
          refine ⟨?_, inductionHypothesis _ (by omega) walk' rfl⟩
          rw [stackCapacity]
          omega
        obtain ⟨room, left⟩ :=
          below node.lchild ⟨node, found, splits, .inl rfl⟩
        obtain ⟨_, right⟩ :=
          below node.rchild ⟨node, found, splits, .inr rfl⟩
        have oneLess :
            stackCapacity tree - 1 - edges =
              stackCapacity tree - 1 - (edges + 1) + 1 := by
          omega
        rw [oneLess]
        exact
          .split found isLeaf
            (hasProperties node (List.mem_of_getElem? found) isLeaf) left right

/-- A vector of property values that the bounds allow. -/
def InRanges
    (ranges : List Range)
    (properties : Nat → Int32) :
    Prop :=
  ∀ property range,
    ranges[property]? = some range →
    range.lower ≤ properties property ∧ properties property ≤ range.upper

/-- Some vector that the bounds allow leads from a place to a leaf. -/
def Reachable
    (tree : List PropertyDecisionNode)
    (ranges : List Range)
    (place leaf : Nat) :
    Prop :=
  ∃ properties,
    InRanges ranges properties ∧
      ∃ edges, Walk (Follows tree properties) place edges leaf

/-- The place of a leaf below another place. -/
def LeafBelow
    (tree : List PropertyDecisionNode)
    (place leaf : Nat) :
    Prop :=
  (∃ edges, Walk (Child treeShape tree) place edges leaf) ∧
    ∃ node, tree[leaf]? = some node ∧ node.property = -1

theorem exists_leafBelow
    {room place : Nat}
    (descends : Descends tree room place) :
    ∃ leaf, LeafBelow tree place leaf := by
  induction descends with
  | @leaf room place node found isLeaf =>
      exact ⟨place, ⟨0, .refl place⟩, node, found, isLeaf⟩
  | split found isSplit _ _ _ left _ =>
      obtain ⟨leaf, ⟨edges, walk⟩, isLeaf⟩ := left
      exact
        ⟨leaf, ⟨edges + 1, .head ⟨_, found, isSplit_iff.2 isSplit, .inl rfl⟩ walk⟩,
          isLeaf⟩

theorem LeafBelow.head
    {place child leaf : Nat}
    (below : LeafBelow tree child leaf)
    (isChild : Child treeShape tree place child) :
    LeafBelow tree place leaf := by
  obtain ⟨⟨edges, walk⟩, isLeaf⟩ := below
  exact ⟨⟨edges + 1, .head isChild walk⟩, isLeaf⟩

variable {place leaf : Nat}

/-- Below a split a leaf is below one of its children. -/
theorem LeafBelow.cases
    (below : LeafBelow tree place leaf)
    (found : tree[place]? = some node)
    (isSplit : node.property ≠ -1) :
    LeafBelow tree node.lchild leaf ∨ LeafBelow tree node.rchild leaf := by
  obtain ⟨⟨edges, walk⟩, isLeaf⟩ := below
  cases walk with
  | refl =>
      obtain ⟨node', found', isLeaf⟩ := isLeaf
      rw [found] at found'
      cases found'
      exact absurd isLeaf isSplit
  | head first rest =>
      obtain ⟨node', found', _, isChild⟩ := first
      rw [found] at found'
      cases found'
      rcases isChild with rfl | rfl
      · exact .inl ⟨⟨_, rest⟩, isLeaf⟩
      · exact .inr ⟨⟨_, rest⟩, isLeaf⟩

/-- The successor of a value that is not the largest one. -/
theorem succ_le_iff
    {value above other : Int32}
    (notLargest : value < above) :
    value + 1 ≤ other ↔ value < other := by
  have bound := Int32.toInt_lt above
  have large := Int32.le_toInt value
  rw [Int32.lt_iff_toInt_lt] at notLargest
  have isSucc : (value + 1).toInt = value.toInt + 1 := by
    rw [Int32.toInt_add]
    apply Int.bmod_eq_of_le
    · simp
      omega
    · simp
      omega
  rw [Int32.le_iff_toInt_le, Int32.lt_iff_toInt_lt, isSucc]
  omega

variable {ranges : List Range} {properties : Nat → Int32}

/-- The vectors that narrowed bounds allow. -/
theorem inRanges_set
    {property : Nat}
    {range narrowed : Range}
    (bounds : ranges[property]? = some range)
    (narrows :
      narrowed.lower ≤ properties property ∧
          properties property ≤ narrowed.upper →
        range.lower ≤ properties property ∧
          properties property ≤ range.upper) :
    InRanges (ranges.set property narrowed) properties ↔
      InRanges ranges properties ∧
        narrowed.lower ≤ properties property ∧
        properties property ≤ narrowed.upper := by
  have inTable := (List.getElem?_eq_some_iff.1 bounds).1
  constructor
  · intro allowed
    have here := allowed property narrowed (by simp [inTable])
    refine ⟨?_, here⟩
    intro other range' bounds'
    by_cases same : property = other
    · subst same
      rw [bounds] at bounds'
      cases bounds'
      exact narrows here
    · apply allowed other range'
      rwa [List.getElem?_set_ne same]
  · rintro ⟨allowed, here⟩ other range' bounds'
    by_cases same : property = other
    · subst same
      rw [List.getElem?_set_self inTable] at bounds'
      cases bounds'
      exact here
    · rw [List.getElem?_set_ne same] at bounds'
      exact allowed other range' bounds'

/-- The vectors that lead to the left child of a split. -/
theorem inRanges_left
    {range : Range}
    (bounds : ranges[node.property.toNat]? = some range)
    (fits : ¬ (node.splitval < range.lower ∨ range.upper ≤ node.splitval)) :
    InRanges
        (ranges.set node.property.toNat
          { range with lower := node.splitval + 1 })
        properties ↔
      InRanges ranges properties ∧
        node.splitval < properties node.property.toNat := by
  rw [not_or, Int32.not_lt, Int32.not_le] at fits
  obtain ⟨lower, upper⟩ := fits
  have isSucc := @succ_le_iff node.splitval range.upper
    (properties node.property.toNat) upper
  rw [inRanges_set bounds]
  · dsimp only
    rw [isSucc]
    constructor
    · rintro ⟨allowed, above, _⟩
      exact ⟨allowed, above⟩
    · rintro ⟨allowed, above⟩
      exact ⟨allowed, above, (allowed _ range bounds).2⟩
  · dsimp only
    rw [isSucc]
    rintro ⟨above, below⟩
    exact ⟨Int32.le_of_lt (Int32.lt_of_le_of_lt lower above), below⟩

/-- The vectors that lead to the right child of a split. -/
theorem inRanges_right
    {range : Range}
    (bounds : ranges[node.property.toNat]? = some range)
    (fits : ¬ (node.splitval < range.lower ∨ range.upper ≤ node.splitval)) :
    InRanges
        (ranges.set node.property.toNat { range with upper := node.splitval })
        properties ↔
      InRanges ranges properties ∧
        ¬ node.splitval < properties node.property.toNat := by
  rw [not_or, Int32.not_lt, Int32.not_le] at fits
  obtain ⟨lower, upper⟩ := fits
  rw [inRanges_set bounds]
  · dsimp only
    rw [Int32.not_lt]
    constructor
    · rintro ⟨allowed, _, below⟩
      exact ⟨allowed, below⟩
    · rintro ⟨allowed, below⟩
      exact ⟨allowed, (allowed _ range bounds).1, below⟩
  · dsimp only
    rintro ⟨above, below⟩
    exact ⟨above, Int32.le_of_lt (Int32.lt_of_le_of_lt below upper)⟩

/-- Below the left child of a split only vectors that go left reach a leaf. -/
theorem reachable_left
    (complete : Complete treeShape tree)
    (found : tree[place]? = some node)
    (isSplit : node.property ≠ -1)
    (below : LeafBelow tree node.lchild leaf) :
    Reachable tree ranges place leaf ↔
      ∃ properties,
        (InRanges ranges properties ∧
          node.splitval < properties node.property.toNat) ∧
          ∃ edges, Walk (Follows tree properties) node.lchild edges leaf := by
  constructor
  · rintro ⟨properties, allowed, edges, walk⟩
    obtain ⟨⟨edges', below⟩, node', found', isLeaf⟩ := below
    cases walk with
    | refl =>
        rw [found] at found'
        cases found'
        exact absurd isLeaf isSplit
    | @head _ next edges _ first rest =>
        obtain ⟨node'', found'', _, isNext⟩ := first
        rw [found] at found''
        cases found''
        by_cases above : node.splitval < properties node.property.toNat
        · rw [if_pos above] at isNext
          rw [isNext] at rest
          exact ⟨properties, ⟨allowed, above⟩, edges, rest⟩
        · rw [if_neg above] at isNext
          rw [isNext] at rest
          have right := rest.mono (fun _ _ => child_of_follows)
          exact
            (complete.disjoint found (isSplit_iff.2 isSplit) below right).elim
  · rintro ⟨properties, ⟨allowed, above⟩, edges, walk⟩
    refine ⟨properties, allowed, edges + 1, .head ⟨node, found, isSplit, ?_⟩ walk⟩
    rw [if_pos above]

/-- Below the right child only vectors that go right do. -/
theorem reachable_right
    (complete : Complete treeShape tree)
    (found : tree[place]? = some node)
    (isSplit : node.property ≠ -1)
    (below : LeafBelow tree node.rchild leaf) :
    Reachable tree ranges place leaf ↔
      ∃ properties,
        (InRanges ranges properties ∧
          ¬ node.splitval < properties node.property.toNat) ∧
          ∃ edges, Walk (Follows tree properties) node.rchild edges leaf := by
  constructor
  · rintro ⟨properties, allowed, edges, walk⟩
    obtain ⟨⟨edges', below⟩, node', found', isLeaf⟩ := below
    cases walk with
    | refl =>
        rw [found] at found'
        cases found'
        exact absurd isLeaf isSplit
    | @head _ next edges _ first rest =>
        obtain ⟨node'', found'', _, isNext⟩ := first
        rw [found] at found''
        cases found''
        by_cases above : node.splitval < properties node.property.toNat
        · rw [if_pos above] at isNext
          rw [isNext] at rest
          have left := rest.mono (fun _ _ => child_of_follows)
          exact
            (complete.disjoint found (isSplit_iff.2 isSplit) left below).elim
        · rw [if_neg above] at isNext
          rw [isNext] at rest
          exact ⟨properties, ⟨allowed, above⟩, edges, rest⟩
  · rintro ⟨properties, ⟨allowed, notAbove⟩, edges, walk⟩
    refine ⟨properties, allowed, edges + 1, .head ⟨node, found, isSplit, ?_⟩ walk⟩
    rw [if_neg notAbove]

/-- Bounds that allow some value of every property. -/
def Possible
    (ranges : List Range) :
    Prop :=
  ∀ (property : Nat) (range : Range),
    ranges[property]? = some range → range.lower ≤ range.upper

theorem Possible.exists_inRanges
    (possible : Possible ranges) :
    ∃ properties, InRanges ranges properties := by
  refine
    ⟨fun property => (ranges.getD property { lower := 0, upper := 0 }).lower, ?_⟩
  intro property range bounds
  have isRange : ranges.getD property { lower := 0, upper := 0 } = range := by
    rw [List.getD_eq_getElem?_getD, bounds]
    rfl
  dsimp only
  rw [isRange]
  exact ⟨Int32.le_refl _, possible property range bounds⟩

/-- Narrowed bounds that still allow some value. -/
theorem Possible.set
    (possible : Possible ranges)
    (property : Nat)
    (narrowed : Range)
    (possible' : narrowed.lower ≤ narrowed.upper) :
    Possible (ranges.set property narrowed) := by
  intro other range bounds
  rw [List.getElem?_set] at bounds
  split at bounds
  · split at bounds
    · cases bounds
      exact possible'
    · cases bounds
  · exact possible other range bounds

/-- The second pass accepts the trees all of whose leaves can be reached. -/
theorem visit_iff
    (complete : Complete treeShape tree)
    {room place : Nat}
    (descends : Descends tree room place)
    (inTable :
      ∀ node ∈ tree,
        node.property ≠ -1 → node.property.toNat < ranges.length)
    (possible : Possible ranges) :
    visit tree room place ranges = .ok () ↔
      ∀ leaf, LeafBelow tree place leaf → Reachable tree ranges place leaf := by
  induction descends generalizing ranges with
  | @leaf room place node found isLeaf =>
      have accepted : visit tree room place ranges = .ok () := by
        cases room with
        | zero =>
            rw [visit, index_eq_ok.2 found, ok_bind, if_pos isLeaf]
            rfl
        | succ room =>
            rw [visit, index_eq_ok.2 found, ok_bind, if_pos isLeaf]
            rfl
      refine ⟨fun _ => ?_, fun _ => accepted⟩
      rintro leaf ⟨⟨edges, walk⟩, _⟩
      cases walk with
      | refl =>
          obtain ⟨properties, allowed⟩ := possible.exists_inRanges
          exact ⟨properties, allowed, 0, .refl place⟩
      | head first rest =>
          obtain ⟨node', found', isSplit, _⟩ := first
          rw [found] at found'
          cases found'
          exact absurd isLeaf (isSplit_iff.1 isSplit)
  | @split room place node found isSplit nonneg left right leftVisit
      rightVisit =>
      have member := List.mem_of_getElem? found
      have inside := inTable node member isSplit
      have bounds :
          ranges[node.property.toNat]? = some ranges[node.property.toNat] :=
        List.getElem?_eq_getElem inside
      generalize ranges[node.property.toNat] = range at bounds
      have isLeft : Child treeShape tree place node.lchild :=
        ⟨node, found, isSplit_iff.2 isSplit, .inl rfl⟩
      have isRight : Child treeShape tree place node.rchild :=
        ⟨node, found, isSplit_iff.2 isSplit, .inr rfl⟩
      rw [visit, index_eq_ok.2 found, ok_bind, if_neg isSplit,
        require_ok nonneg, ok_bind]
      dsimp only
      rw [index_eq_ok.2 bounds, ok_bind]
      by_cases contradicts :
          node.splitval < range.lower ∨ range.upper ≤ node.splitval
      · rw [if_pos contradicts]
        constructor
        · intro accepted
          cases accepted
        · -- The leaves below the child that the bounds exclude are out of reach.
          intro reachable
          exfalso
          obtain ⟨leftLeaf, underLeft⟩ := exists_leafBelow left
          obtain ⟨rightLeaf, underRight⟩ := exists_leafBelow right
          obtain ⟨properties, ⟨allowed, above⟩, _⟩ :=
            (reachable_left complete found isSplit underLeft).1
              (reachable leftLeaf (underLeft.head isLeft))
          obtain ⟨properties', ⟨allowed', notAbove⟩, _⟩ :=
            (reachable_right complete found isSplit underRight).1
              (reachable rightLeaf (underRight.head isRight))
          have upper := (allowed _ range bounds).2
          have lower := (allowed' _ range bounds).1
          rw [Int32.not_lt] at notAbove
          rcases contradicts with tooLow | tooHigh
          · exact
              Int32.not_lt.2 (Int32.le_trans lower notAbove) tooLow
          · exact
              Int32.not_le.2 (Int32.lt_of_lt_of_le above upper) tooHigh
      · rw [if_neg contradicts]
        have inTable' :
            ∀ (narrowed : Range) (other : PropertyDecisionNode),
              other ∈ tree →
              other.property ≠ -1 →
              other.property.toNat <
                (ranges.set node.property.toNat narrowed).length := by
          intro narrowed other member' isSplit'
          rw [List.length_set]
          exact inTable other member' isSplit'
        have fits := contradicts
        rw [not_or, Int32.not_lt, Int32.not_le] at fits
        obtain ⟨lower, upper⟩ := fits
        have leftIff :=
          leftVisit (inTable' { range with lower := node.splitval + 1 })
            (possible.set node.property.toNat
              { range with lower := node.splitval + 1 }
              ((succ_le_iff upper).2 upper))
        have rightIff :=
          rightVisit (inTable' { range with upper := node.splitval })
            (possible.set node.property.toNat
              { range with upper := node.splitval } lower)
        have leftReach :
            ∀ leaf,
              LeafBelow tree node.lchild leaf →
              (Reachable tree
                  (ranges.set node.property.toNat
                    { range with lower := node.splitval + 1 })
                  node.lchild leaf ↔
                Reachable tree ranges place leaf) := by
          intro leaf below
          rw [reachable_left complete found isSplit below]
          simp only [Reachable, inRanges_left bounds contradicts]
        have rightReach :
            ∀ leaf,
              LeafBelow tree node.rchild leaf →
              (Reachable tree
                  (ranges.set node.property.toNat
                    { range with upper := node.splitval })
                  node.rchild leaf ↔
                Reachable tree ranges place leaf) := by
          intro leaf below
          rw [reachable_right complete found isSplit below]
          simp only [Reachable, inRanges_right bounds contradicts]
        constructor
        · intro accepted
          obtain ⟨_, leftOk, rightOk⟩ := bind_eq_ok.1 accepted
          intro leaf below
          rcases below.cases found isSplit with underLeft | underRight
          · exact (leftReach leaf underLeft).1 (leftIff.1 leftOk leaf underLeft)
          · exact
              (rightReach leaf underRight).1
                (rightIff.1 rightOk leaf underRight)
        · intro reachable
          have leftOk :=
            leftIff.2
              (fun leaf below =>
                (leftReach leaf below).2 (reachable leaf (below.head isLeft)))
          have rightOk :=
            rightIff.2
              (fun leaf below =>
                (rightReach leaf below).2 (reachable leaf (below.head isRight)))
          rw [leftOk, ok_bind, rightOk]

/-- The table has an entry for every property of the tree. -/
theorem lt_numProperties
    (member : node ∈ tree)
    (nonneg : 0 ≤ node.property) :
    node.property.toNat < numProperties tree := by
  have grows :
      ∀ (nodes : List PropertyDecisionNode) (count : Nat),
        count ≤
            nodes.foldl
              (fun count node => max count (node.property + 1).toNat) count ∧
          ∀ node ∈ nodes,
            (node.property + 1).toNat ≤
              nodes.foldl
                (fun count node => max count (node.property + 1).toNat)
                count := by
    intro nodes
    induction nodes with
    | nil =>
        intro count
        simp
    | cons first rest inductionHypothesis =>
        intro count
        obtain ⟨start, others⟩ :=
          inductionHypothesis (max count (first.property + 1).toNat)
        rw [List.foldl_cons]
        refine ⟨Nat.le_trans (Nat.le_max_left _ _) start, ?_⟩
        intro node member
        rcases List.mem_cons.1 member with rfl | inRest
        · exact Nat.le_trans (Nat.le_max_right _ _) start
        · exact others node inRest
  have large := (grows tree 0).2 node member
  rw [numProperties]
  omega

theorem length_initialRanges
    (tree : List PropertyDecisionNode) :
    (initialRanges tree).length = numProperties tree :=
  List.length_replicate

/-- At the root every vector is possible. -/
theorem inRanges_initial
    (tree : List PropertyDecisionNode)
    (properties : Nat → Int32) :
    InRanges (initialRanges tree) properties := by
  intro property range bounds
  rw [initialRanges, List.getElem?_replicate] at bounds
  split at bounds
  · cases bounds
    exact ⟨Int32.minValue_le _, Int32.le_maxValue _⟩
  · cases bounds

/-- The second pass, where the first one has succeeded. -/
theorem traverse_iff
    (complete : Complete treeShape tree)
    (hasProperties : HasProperties tree)
    (shallow : Shallow tree) :
    traverse tree = .ok () ↔
      ∀ leaf node,
        tree[leaf]? = some node →
        node.property = -1 →
        ∃ properties edges,
          Walk (Follows tree properties) 0 edges leaf := by
  have nonempty : tree.length ≠ 0 := by
    have balance := complete.balance
    omega
  have descends := descends_of_shallow complete hasProperties shallow (.refl 0)
  rw [Nat.sub_zero] at descends
  have possible : Possible (initialRanges tree) := by
    intro property range bounds
    obtain ⟨lower, upper⟩ :=
      inRanges_initial tree (fun _ => 0) property range bounds
    exact Int32.le_trans lower upper
  have inTable :
      ∀ node ∈ tree,
        node.property ≠ -1 →
        node.property.toNat < (initialRanges tree).length := by
    intro node member isSplit
    rw [length_initialRanges]
    exact lt_numProperties member (hasProperties node member isSplit)
  rw [traverse_eq nonempty, visit_iff complete descends inTable possible]
  constructor
  · intro reachable leaf node found isLeaf
    have walk :=
      complete.exists_walk (List.getElem?_eq_some_iff.1 found).1
    obtain ⟨properties, _, edges, follows⟩ :=
      reachable leaf ⟨walk, node, found, isLeaf⟩
    exact ⟨properties, edges, follows⟩
  · rintro reachable leaf ⟨_, node, found, isLeaf⟩
    obtain ⟨properties, edges, follows⟩ := reachable leaf node found isLeaf
    exact ⟨properties, inRanges_initial tree properties, edges, follows⟩

end ValidateTree

/-- The validation accepts exactly the shallow trees whose leaves are all reached. -/
theorem validateTreeOnStack_iff
    (complete : Complete treeShape tree)
    (hasProperties : HasProperties tree) :
    validateTreeOnStack tree = .ok () ↔
      Shallow tree ∧
        ∀ leaf node,
          tree[leaf]? = some node →
          node.property = -1 →
          ∃ properties edges,
            Walk (Follows tree properties) 0 edges leaf := by
  have nonempty : tree.length ≠ 0 := by
    have balance := complete.balance
    omega
  rw [validateTreeOnStack, if_neg nonempty,
    ← ValidateTree.checkHeights_iff complete]
  constructor
  · intro accepted
    obtain ⟨heights, ran, traversed⟩ := bind_eq_ok.1 accepted
    have shallow := (ValidateTree.checkHeights_iff complete).1 ⟨heights, ran⟩
    exact
      ⟨⟨heights, ran⟩,
        (ValidateTree.traverse_iff complete hasProperties shallow).1 traversed⟩
  · rintro ⟨⟨heights, ran⟩, reachable⟩
    have shallow := (ValidateTree.checkHeights_iff complete).1 ⟨heights, ran⟩
    rw [ran, ok_bind]
    exact
      (ValidateTree.traverse_iff complete hasProperties shallow).2 reachable

end Jxlz
