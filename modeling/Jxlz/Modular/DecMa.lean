import Jxlz.Base.Checked
import Jxlz.Modular.ModularImage

namespace Jxlz

/-!
# Decision trees

Mirrors the tree nodes and the tree validation of `dec_ma.zig`.  The stack of
the depth-first traversal is the recursion of `visit`; its free slots are the
argument that shrinks.
-/

/-- A node of a decision tree; a leaf has property minus one. -/
structure PropertyDecisionNode where
  splitval : Int32 := 0
  property : Int := -1
  lchild : Nat := 0
  rchild : Nat := 0
  predictor : Predictor := .zero
  predictorOffset : Int64 := 0
  multiplier : Nat := 1
  deriving Repr, DecidableEq

namespace PropertyDecisionNode

def leaf
    (predictor : Predictor)
    (predictorOffset : Int64)
    (multiplier : Nat) :
    PropertyDecisionNode :=
  { predictor, predictorOffset, multiplier }

/-- A split; a missing right child follows the left one. -/
def split
    (property : Int)
    (splitval : Int32)
    (lchild rchild : Nat) :
    PropertyDecisionNode :=
  { property, splitval, lchild
    rchild := if rchild = 0 ∧ lchild ≠ 0 then lchild + 1 else rchild }

end PropertyDecisionNode

namespace ValidateTree

def kHeightLimit : Nat := 2048

/-- The values that a property can still have at a node. -/
structure Range where
  lower : Int32
  upper : Int32
  deriving Repr, DecidableEq

/-- One more than the largest property. -/
def numProperties
    (tree : List PropertyDecisionNode) :
    Nat :=
  tree.foldl (fun count node => max count (node.property + 1).toNat) 0

/-- One round of the check of the tree's height. -/
def checkHeight
    (tree : List PropertyDecisionNode)
    (height : List Nat)
    (i : Nat) :
    Checked (List Nat) := do
  let atNode ← index height i
  if kHeightLimit < atNode then
    fail .GenericError
  else
    let node ← index tree i
    if node.property = -1 then
      return height
    else if tree.length ≤ node.lchild ∨ tree.length ≤ node.rchild then
      fail .GenericError
    else
      return (height.set node.lchild (atNode + 1)).set node.rchild (atNode + 1)

/-- The traversal below a node, with the property bounds that hold there. -/
def visit
    (tree : List PropertyDecisionNode)
    (room position : Nat)
    (ranges : List Range) :
    Checked Unit := do
  let node ← index tree position
  if node.property = -1 then
    return ()
  else
    require (0 ≤ node.property)
    let property := node.property.toNat
    let range ← index ranges property
    if node.splitval < range.lower ∨ range.upper ≤ node.splitval then
      fail .InvalidMaTree
    else
      match room with
      | 0 => fail .GenericError
      | room + 1 => do
          visit tree room node.lchild
            (ranges.set property { range with lower := node.splitval + 1 })
          visit tree room node.rchild
            (ranges.set property { range with upper := node.splitval })

end ValidateTree

/-- A tree is accepted when no path is too long and no split is vacuous. -/
def validateTree
    (tree : List PropertyDecisionNode) :
    Checked Unit := do
  if tree.length = 0 then
    fail .GenericError
  else
    let _ ←
      (List.range tree.length).foldlM (ValidateTree.checkHeight tree)
        (List.replicate tree.length 0)
    let ranges :=
      List.replicate (ValidateTree.numProperties tree)
        { lower := Int32.minValue, upper := Int32.maxValue }
    let stack := min tree.length (ValidateTree.kHeightLimit + 1)
    ValidateTree.visit tree (stack - 1) 0 ranges

/-- Every path down from a node ends in a leaf after at most `room` splits. -/
inductive Descends
    (tree : List PropertyDecisionNode) :
    Nat → Nat → Prop where
  | leaf {room position : Nat} {node : PropertyDecisionNode} :
      tree[position]? = some node →
        node.property = -1 →
        Descends tree room position
  | split {room position : Nat} {node : PropertyDecisionNode} :
      tree[position]? = some node →
        node.property ≠ -1 →
        0 ≤ node.property →
        Descends tree room node.lchild →
        Descends tree room node.rchild →
        Descends tree (room + 1) position

theorem Descends.mono
    {tree : List PropertyDecisionNode}
    {room more position : Nat}
    (descends : Descends tree room position)
    (enough : room ≤ more) :
    Descends tree more position := by
  induction descends generalizing more with
  | leaf found isLeaf =>
      exact .leaf found isLeaf
  | split found isSplit nonneg _ _ left right =>
      obtain ⟨less, rfl⟩ := Nat.exists_eq_add_of_lt enough
      exact
        .split found isSplit nonneg (left (Nat.le_add_right _ _))
          (right (Nat.le_add_right _ _))

namespace ValidateTree

/-- What the traversal accepts has short paths. -/
theorem descends_of_visit
    {tree : List PropertyDecisionNode}
    {room position : Nat}
    {ranges : List Range}
    (accepted : visit tree room position ranges = .ok ()) :
    Descends tree room position := by
  induction room generalizing position ranges with
  | zero =>
      rw [visit] at accepted
      obtain ⟨node, found, accepted⟩ := bind_eq_ok.1 accepted
      by_cases isLeaf : node.property = -1
      · exact .leaf (index_eq_ok.1 found) isLeaf
      · rw [if_neg isLeaf] at accepted
        obtain ⟨_, _, accepted⟩ := bind_eq_ok.1 accepted
        obtain ⟨range, _, accepted⟩ := bind_eq_ok.1 accepted
        split at accepted <;> simp [fail] at accepted
  | succ room inductionHypothesis =>
      rw [visit] at accepted
      obtain ⟨node, found, accepted⟩ := bind_eq_ok.1 accepted
      by_cases isLeaf : node.property = -1
      · exact .leaf (index_eq_ok.1 found) isLeaf
      · rw [if_neg isLeaf] at accepted
        obtain ⟨_, nonneg, accepted⟩ := bind_eq_ok.1 accepted
        obtain ⟨range, _, accepted⟩ := bind_eq_ok.1 accepted
        split at accepted
        · simp [fail] at accepted
        · obtain ⟨_, left, right⟩ := bind_eq_ok.1 accepted
          exact
            .split (index_eq_ok.1 found) isLeaf (require_eq_ok.1 nonneg)
              (inductionHypothesis left) (inductionHypothesis right)

end ValidateTree

/-- In an accepted tree no path is longer than the tree. -/
theorem descends_of_validateTree
    {tree : List PropertyDecisionNode}
    (accepted : validateTree tree = .ok ()) :
    Descends tree (tree.length - 1) 0 := by
  rw [validateTree] at accepted
  split at accepted
  · simp [fail] at accepted
  · obtain ⟨_, _, accepted⟩ := bind_eq_ok.1 accepted
    apply (ValidateTree.descends_of_visit accepted).mono
    exact Nat.sub_le_sub_right (Nat.min_le_left _ _) 1

end Jxlz
