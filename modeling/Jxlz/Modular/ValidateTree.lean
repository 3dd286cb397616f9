import Jxlz.Lib.FuelLoop
import Jxlz.Modular.DecMa

namespace Jxlz

/-!
# The stack of the tree validation

The traversal of `validateTree` as the source runs it: a loop over an explicit
stack of frames and one table of property bounds, which every frame narrows for
its left child, then for its right child, and restores at its end.  It accepts
the same trees, with the same errors, as the recursion `ValidateTree.visit`.
-/

namespace ValidateTree

/-- What a frame does when it is on top of the stack next. -/
inductive Phase where
  | enter
  | right
  | restore
  deriving Repr, DecidableEq

/-- A node of the current path, with the bounds to restore after it. -/
structure Frame where
  index : Nat
  phase : Phase := .enter
  saved : Range := { lower := 0, upper := 0 }
  deriving Repr, DecidableEq

/-- The table of bounds and the stack, top first. -/
structure Traversal where
  ranges : List Range
  stack : List Frame
  deriving Repr, DecidableEq

/-- Puts a child on the stack, which has `capacity` places. -/
def push
    (capacity : Nat)
    (state : Traversal)
    (child : Nat) :
    Checked (Traversal ⊕ Unit) :=
  if state.stack.length = capacity then
    fail .GenericError
  else
    return .inl { state with stack := { index := child } :: state.stack }

/-- One round of the traversal. -/
def round
    (tree : List PropertyDecisionNode)
    (capacity : Nat)
    (state : Traversal) :
    Checked (Traversal ⊕ Unit) :=
  match state.stack with
  | [] => return .inr ()
  | frame :: below => do
      let node ← index tree frame.index
      if node.property = -1 then
        return .inl { state with stack := below }
      else
        require (0 ≤ node.property)
        let property := node.property.toNat
        match frame.phase with
        | .enter =>
            let range ← index state.ranges property
            if node.splitval < range.lower ∨ range.upper ≤ node.splitval then
              fail .InvalidMaTree
            else
              push capacity
                { ranges :=
                    state.ranges.set property
                      { range with lower := node.splitval + 1 }
                  stack := { frame with phase := .right, saved := range } :: below }
                node.lchild
        | .right =>
            require (property < state.ranges.length)
            push capacity
              { ranges :=
                  state.ranges.set property
                    { lower := frame.saved.lower, upper := node.splitval }
                stack := { frame with phase := .restore } :: below }
              node.rchild
        | .restore =>
            require (property < state.ranges.length)
            return .inl {
              ranges := state.ranges.set property frame.saved
              stack := below }

/-- Enough rounds for a stack of the given capacity. -/
def maxRounds : Nat → Nat
  | 0 => 1
  | room + 1 => 3 + 2 * maxRounds room

/-- The bounds before the traversal: every value is possible. -/
def initialRanges
    (tree : List PropertyDecisionNode) :
    List Range :=
  List.replicate (numProperties tree)
    { lower := Int32.minValue, upper := Int32.maxValue }

/-- The number of frames that the stack has room for. -/
def stackCapacity
    (tree : List PropertyDecisionNode) :
    Nat :=
  min tree.length (kHeightLimit + 1)

/-- The traversal from the root. -/
def traverse
    (tree : List PropertyDecisionNode) :
    Checked Unit :=
  FuelLoop.run (round tree (stackCapacity tree)) .running
    (maxRounds (stackCapacity tree))
    { ranges := initialRanges tree, stack := [{ index := 0 }] }

end ValidateTree

/-- The validation with its explicit stack. -/
def validateTreeOnStack
    (tree : List PropertyDecisionNode) :
    Checked Unit := do
  if tree.length = 0 then
    fail .GenericError
  else
    let _ ←
      (List.range tree.length).foldlM (ValidateTree.checkHeight tree)
        (List.replicate tree.length 0)
    ValidateTree.traverse tree

namespace ValidateTree

variable {tree : List PropertyDecisionNode}
variable {capacity : Nat}

variable {position : Nat} {node : PropertyDecisionNode} {ranges : List Range}

/-- A leaf is taken from the stack. -/
theorem round_leaf
    (found : tree[position]? = some node)
    (isLeaf : node.property = -1)
    (capacity : Nat)
    (below : List Frame) :
    round tree capacity { ranges, stack := { index := position } :: below } =
      .ok (.inl { ranges, stack := below }) := by
  simp only [round, index_eq_ok.2 found, ok_bind, isLeaf, if_true, pure_eq_ok]

variable {range : Range}

/-- A split whose bounds contradict those above it ends the traversal. -/
theorem round_contradiction
    (found : tree[position]? = some node)
    (nonneg : 0 ≤ node.property)
    (bounds : ranges[node.property.toNat]? = some range)
    (contradicts :
      node.splitval < range.lower ∨ range.upper ≤ node.splitval)
    (capacity : Nat)
    (below : List Frame) :
    round tree capacity { ranges, stack := { index := position } :: below } =
      fail .InvalidMaTree := by
  have isSplit : node.property ≠ -1 := by
    omega
  simp only [round, index_eq_ok.2 found, ok_bind, isSplit, if_false,
    require_ok nonneg, index_eq_ok.2 bounds, contradicts, if_true]

/-- A split narrows the bounds for its left child. -/
theorem round_enter
    (found : tree[position]? = some node)
    (nonneg : 0 ≤ node.property)
    (bounds : ranges[node.property.toNat]? = some range)
    (fits : ¬ (node.splitval < range.lower ∨ range.upper ≤ node.splitval))
    (capacity : Nat)
    (below : List Frame) :
    round tree capacity { ranges, stack := { index := position } :: below } =
      push capacity
        { ranges :=
            ranges.set node.property.toNat
              { range with lower := node.splitval + 1 }
          stack := { index := position, phase := .right, saved := range } :: below }
        node.lchild := by
  have isSplit : node.property ≠ -1 := by
    omega
  simp only [round, index_eq_ok.2 found, ok_bind, isSplit, if_false,
    require_ok nonneg, index_eq_ok.2 bounds, fits]

/-- After its left child it narrows the saved bounds for the right one. -/
theorem round_right
    (found : tree[position]? = some node)
    (nonneg : 0 ≤ node.property)
    (inTable : node.property.toNat < ranges.length)
    (range : Range)
    (capacity : Nat)
    (below : List Frame) :
    round tree capacity
        { ranges
          stack := { index := position, phase := .right, saved := range } :: below } =
      push capacity
        { ranges :=
            ranges.set node.property.toNat
              { range with upper := node.splitval }
          stack :=
            { index := position, phase := .restore, saved := range } :: below }
        node.rchild := by
  have isSplit : node.property ≠ -1 := by
    omega
  simp only [round, index_eq_ok.2 found, ok_bind, isSplit, if_false,
    require_ok nonneg, require_ok inTable]

/-- After its right child it puts the saved bounds back. -/
theorem round_restore
    (found : tree[position]? = some node)
    (nonneg : 0 ≤ node.property)
    (inTable : node.property.toNat < ranges.length)
    (range : Range)
    (capacity : Nat)
    (below : List Frame) :
    round tree capacity
        { ranges
          stack :=
            { index := position, phase := .restore, saved := range } :: below } =
      .ok
        (.inl
          { ranges := ranges.set node.property.toNat range
            stack := below }) := by
  have isSplit : node.property ≠ -1 := by
    omega
  simp only [round, index_eq_ok.2 found, ok_bind, isSplit, if_false,
    require_ok nonneg, require_ok inTable, pure_eq_ok]

theorem push_ok
    {state : Traversal}
    (room : state.stack.length < capacity)
    (child : Nat) :
    push capacity state child =
      .ok (.inl { state with stack := { index := child } :: state.stack }) := by
  rw [push, if_neg (Nat.ne_of_lt room)]
  rfl

theorem push_full
    {state : Traversal}
    (full : state.stack.length = capacity)
    (child : Nat) :
    push capacity state child = fail .GenericError := by
  rw [push, if_pos full]

theorem maxRounds_pos
    (room : Nat) :
    0 < maxRounds room := by
  cases room <;> simp [maxRounds]

/-- Rounds that end as the recursion does. -/
def Matches
    (tree : List PropertyDecisionNode)
    (capacity room : Nat)
    (start : Traversal)
    (below : List Frame) :
    Checked Unit → Prop
  | .ok _ =>
      ∃ count,
        count ≤ maxRounds room ∧
          FuelLoop.Rounds (round tree capacity) count start
            { ranges := start.ranges, stack := below }
  | .error fault =>
      ∃ count last,
        count < maxRounds room ∧
          FuelLoop.Rounds (round tree capacity) count start last ∧
          round tree capacity last = .error fault

/-- What ends the traversal at its first round ends the recursion. -/
theorem matches_of_round_error
    {room : Nat}
    {start : Traversal}
    {fault : Fault}
    (ends : round tree capacity start = .error fault)
    (below : List Frame) :
    Matches tree capacity room start below (.error fault) :=
  ⟨0, start, maxRounds_pos room, .refl start, ends⟩

/-- Putting back what is there changes nothing. -/
theorem set_of_getElem?
    {property : Nat}
    (bounds : ranges[property]? = some range) :
    ranges.set property range = ranges := by
  obtain ⟨inTable, isRange⟩ := List.getElem?_eq_some_iff.1 bounds
  rw [← isRange, List.set_getElem_self]

/-- The two children of a split, one after the other. -/
theorem matches_split
    {room position : Nat}
    {below : List Frame}
    (found : tree[position]? = some node)
    (nonneg : 0 ≤ node.property)
    (bounds : ranges[node.property.toNat]? = some range)
    (fits : ¬ (node.splitval < range.lower ∨ range.upper ≤ node.splitval))
    (isCapacity : capacity = below.length + 1 + (room + 1))
    (visits :
      ∀ child ranges (below : List Frame),
        capacity = below.length + 1 + room →
        Matches tree capacity room
          { ranges, stack := { index := child } :: below } below
          (visit tree room child ranges)) :
    Matches tree capacity (room + 1)
      { ranges, stack := { index := position } :: below } below
      (do
        visit tree room node.lchild
          (ranges.set node.property.toNat
            { range with lower := node.splitval + 1 })
        visit tree room node.rchild
          (ranges.set node.property.toNat
            { range with upper := node.splitval })) := by
  have inTable : node.property.toNat < ranges.length :=
    (List.getElem?_eq_some_iff.1 bounds).1
  have inTable' :
      ∀ narrowed : Range,
        node.property.toNat <
          (ranges.set node.property.toNat narrowed).length := by
    intro narrowed
    rwa [List.length_set]
  have enters := round_enter found nonneg bounds fits capacity below
  rw [push_ok (by simp only [List.length_cons]; omega)] at enters
  have leftVisit :=
    visits node.lchild
      (ranges.set node.property.toNat { range with lower := node.splitval + 1 })
      ({ index := position, phase := .right, saved := range } :: below)
      (by simp only [List.length_cons]; omega)
  cases left :
      visit tree room node.lchild
        (ranges.set node.property.toNat
          { range with lower := node.splitval + 1 }) with
  | error fault =>
      rw [left] at leftVisit
      obtain ⟨count, last, few, rounds, ends⟩ := leftVisit
      rw [error_bind]
      refine ⟨count + 1, last, ?_, .head enters rounds, ends⟩
      rw [maxRounds]
      omega
  | ok _ =>
      rw [left] at leftVisit
      obtain ⟨leftCount, leftFew, leftRounds⟩ := leftVisit
      have turns :=
        round_right found nonneg
          (inTable' { range with lower := node.splitval + 1 }) range capacity
          below
      rw [push_ok (by simp only [List.length_cons]; omega)] at turns
      dsimp only at turns
      rw [List.set_set] at turns
      have rightVisit :=
        visits node.rchild
          (ranges.set node.property.toNat { range with upper := node.splitval })
          ({ index := position, phase := .restore, saved := range } :: below)
          (by simp only [List.length_cons]; omega)
      have toRight :=
        FuelLoop.Rounds.head enters
          (leftRounds.trans (FuelLoop.Rounds.one turns))
      rw [ok_bind]
      cases right :
          visit tree room node.rchild
            (ranges.set node.property.toNat
              { range with upper := node.splitval }) with
      | error fault =>
          rw [right] at rightVisit
          obtain ⟨count, last, few, rounds, ends⟩ := rightVisit
          refine ⟨_, last, ?_, toRight.trans rounds, ends⟩
          rw [maxRounds]
          omega
      | ok _ =>
          rw [right] at rightVisit
          obtain ⟨rightCount, rightFew, rightRounds⟩ := rightVisit
          have restores :=
            round_restore found nonneg
              (inTable' { range with upper := node.splitval }) range capacity
              below
          rw [List.set_set, set_of_getElem? bounds] at restores
          refine
            ⟨_, ?_,
              (toRight.trans rightRounds).trans (FuelLoop.Rounds.one restores)⟩
          rw [maxRounds]
          omega

/-- The first round makes the checks that the recursion makes. -/
theorem matches_of_split
    {room position : Nat}
    {below : List Frame}
    {descend : PropertyDecisionNode → Range → Checked Unit}
    (splits :
      ∀ node range,
        tree[position]? = some node →
        0 ≤ node.property →
        ranges[node.property.toNat]? = some range →
        ¬ (node.splitval < range.lower ∨ range.upper ≤ node.splitval) →
        Matches tree capacity room
          { ranges, stack := { index := position } :: below } below
          (descend node range)) :
    Matches tree capacity room
      { ranges, stack := { index := position } :: below } below
      (do
        let node ← index tree position
        if node.property = -1 then
          return ()
        else
          require (0 ≤ node.property)
          let property := node.property.toNat
          let range ← index ranges property
          if node.splitval < range.lower ∨ range.upper ≤ node.splitval then
            fail .InvalidMaTree
          else
            descend node range) := by
  cases isNode : index tree position with
  | error fault =>
      apply matches_of_round_error
      simp only [round, isNode, error_bind]
  | ok node =>
      have found := index_eq_ok.1 isNode
      rw [ok_bind]
      by_cases isLeaf : node.property = -1
      · rw [if_pos isLeaf]
        refine ⟨1, maxRounds_pos room, FuelLoop.Rounds.one ?_⟩
        exact round_leaf found isLeaf capacity below
      · rw [if_neg isLeaf]
        by_cases nonneg : 0 ≤ node.property
        · rw [require_ok nonneg, ok_bind]
          dsimp only
          cases isRange : index ranges node.property.toNat with
          | error fault =>
              apply matches_of_round_error
              simp only [round, isNode, ok_bind, isLeaf, if_false,
                require_ok nonneg, isRange, error_bind]
          | ok range =>
              have bounds := index_eq_ok.1 isRange
              rw [ok_bind]
              by_cases contradicts :
                  node.splitval < range.lower ∨ range.upper ≤ node.splitval
              · rw [if_pos contradicts]
                apply matches_of_round_error
                exact
                  round_contradiction found nonneg bounds contradicts capacity
                    below
              · rw [if_neg contradicts]
                exact splits node range found nonneg bounds contradicts
        · have traps : require (0 ≤ node.property) = .error .trap := by
            rw [require, if_neg nonneg]
          rw [traps, error_bind]
          apply matches_of_round_error
          simp only [round, isNode, ok_bind, isLeaf, if_false, traps,
            error_bind]

/-- The rounds from a frame on do what the recursion does, and leave no trace. -/
theorem matches_visit
    (room position : Nat)
    (ranges : List Range)
    (below : List Frame)
    (isCapacity : capacity = below.length + 1 + room) :
    Matches tree capacity room
      { ranges, stack := { index := position } :: below } below
      (visit tree room position ranges) := by
  induction room generalizing position ranges below with
  | zero =>
      rw [visit]
      apply matches_of_split
      intro node range found nonneg bounds fits
      apply matches_of_round_error
      rw [round_enter found nonneg bounds fits]
      apply push_full
      rw [isCapacity]
      rfl
  | succ room inductionHypothesis =>
      rw [visit]
      apply matches_of_split
      intro node range found nonneg bounds fits
      exact
        matches_split found nonneg bounds fits isCapacity
          (fun child ranges below => inductionHypothesis child ranges below)

/-- The loop over the stack ends as the recursion does. -/
theorem traverse_eq
    (nonempty : tree.length ≠ 0) :
    traverse tree =
      visit tree (stackCapacity tree - 1) 0 (initialRanges tree) := by
  have positive : 0 < stackCapacity tree := by
    rw [stackCapacity]
    omega
  obtain ⟨room, isRoom⟩ := Nat.exists_eq_add_of_lt positive
  rw [Nat.zero_add] at isRoom
  have fewer : maxRounds room < maxRounds (room + 1) := by
    rw [maxRounds]
    omega
  have matched :
      Matches tree (stackCapacity tree) room
        { ranges := initialRanges tree, stack := [{ index := 0 }] } []
        (visit tree room 0 (initialRanges tree)) :=
    matches_visit room 0 (initialRanges tree) []
      (by simp only [List.length_nil]; omega)
  rw [traverse, isRoom, Nat.add_sub_cancel]
  rw [isRoom] at matched
  cases visits : visit tree room 0 (initialRanges tree) with
  | ok _ =>
      rw [visits] at matched
      obtain ⟨count, few, rounds⟩ := matched
      exact rounds.run_ok rfl (Nat.lt_of_le_of_lt few fewer)
  | error fault =>
      rw [visits] at matched
      obtain ⟨count, last, few, rounds, ends⟩ := matched
      exact rounds.run_error ends (Nat.lt_trans few fewer)

end ValidateTree

end Jxlz
