import Mathlib

namespace BreadthFirst

/-!
# Full binary trees in breadth-first order

An array of nodes is a full binary tree in breadth-first order when the places
of the children follow from counting: the children of the split with `k` splits
before it are at the places `2 * k + 1` and `2 * k + 2`.  `Growing` is such an
array while it is being filled, `Complete` once no child is missing.
-/

/-- A number of steps of a relation between places. -/
inductive Walk
    (step : Nat → Nat → Prop) :
    Nat → Nat → Nat → Prop where
  | refl
      (place : Nat) :
      Walk step place 0 place
  | head
      {start next edges stop : Nat}
      (first : step start next)
      (rest : Walk step next edges stop) :
      Walk step start (edges + 1) stop

namespace Walk

variable {step : Nat → Nat → Prop}

theorem tail
    {start edges middle stop : Nat}
    (before : Walk step start edges middle)
    (last : step middle stop) :
    Walk step start (edges + 1) stop := by
  induction before with
  | refl place =>
      exact .head last (.refl stop)
  | head first rest inductionHypothesis =>
      exact .head first (inductionHypothesis last)

theorem eq_of_zero
    {start stop : Nat}
    (walk : Walk step start 0 stop) :
    start = stop := by
  cases walk
  rfl

variable {start edges stop : Nat}

/-- A walk of some steps has a last one. -/
theorem exists_last
    (walk : Walk step start (edges + 1) stop) :
    ∃ middle, Walk step start edges middle ∧ step middle stop := by
  induction edges generalizing start with
  | zero =>
      cases walk with
      | head first rest =>
          cases rest
          exact ⟨start, .refl start, first⟩
  | succ edges inductionHypothesis =>
      cases walk with
      | head first rest =>
          obtain ⟨middle, before, last⟩ := inductionHypothesis rest
          exact ⟨middle, .head first before, last⟩

/-- A walk of a relation is one of every weaker relation. -/
theorem mono
    {weaker : Nat → Nat → Prop}
    (implies : ∀ place next, step place next → weaker place next)
    (walk : Walk step start edges stop) :
    Walk weaker start edges stop := by
  induction walk with
  | refl place =>
      exact .refl place
  | head first _ inductionHypothesis =>
      exact .head (implies _ _ first) inductionHypothesis

/-- Steps that only go up take a walk at least as far as it is long. -/
theorem add_le
    (up : ∀ place next, step place next → place < next)
    (walk : Walk step start edges stop) :
    start + edges ≤ stop := by
  induction walk with
  | refl place =>
      exact Nat.le_refl place
  | head first _ inductionHypothesis =>
      have rises := up _ _ first
      omega

/-- Two walks to one place pass through one another if places have one parent. -/
theorem comparable
    {first second stop : Nat}
    {edges edges' : Nat}
    (oneParent :
      ∀ place place' next, step place next → step place' next → place = place')
    (walk : Walk step first edges stop)
    (walk' : Walk step second edges' stop) :
    (∃ between, Walk step first between second) ∨
      ∃ between, Walk step second between first := by
  induction edges generalizing stop edges' with
  | zero =>
      cases walk
      exact .inr ⟨edges', walk'⟩
  | succ edges inductionHypothesis =>
      cases edges' with
      | zero =>
          cases walk'
          exact .inl ⟨edges + 1, walk⟩
      | succ edges' =>
          obtain ⟨middle, before, last⟩ := walk.exists_last
          obtain ⟨middle', before', last'⟩ := walk'.exists_last
          obtain rfl := oneParent middle middle' stop last last'
          exact inductionHypothesis before before'

/-- Steps up to places with one parent each go one way, so in one number of steps. -/
theorem length_unique
    {start stop edges edges' : Nat}
    (up : ∀ place next, step place next → place < next)
    (oneParent :
      ∀ place place' next, step place next → step place' next → place = place')
    (walk : Walk step start edges stop)
    (walk' : Walk step start edges' stop) :
    edges = edges' := by
  induction edges generalizing stop edges' with
  | zero =>
      have same := walk.eq_of_zero
      have far := walk'.add_le up
      omega
  | succ edges inductionHypothesis =>
      cases edges' with
      | zero =>
          have same := walk'.eq_of_zero
          have far := walk.add_le up
          omega
      | succ edges' =>
          obtain ⟨middle, before, last⟩ := walk.exists_last
          obtain ⟨middle', before', last'⟩ := walk'.exists_last
          obtain rfl := oneParent middle middle' stop last last'
          rw [inductionHypothesis before before']

end Walk

/-- How nodes tell splits from leaves and name their children. -/
structure Shape (α : Type) where
  isSplit : α → Bool
  left : α → Nat
  right : α → Nat

variable {α : Type}

/-- The number of splits in front of a place. -/
def splitsBefore
    (shape : Shape α)
    (nodes : List α)
    (place : Nat) :
    Nat :=
  (nodes.take place).countP shape.isSplit

/-- Nodes in breadth-first order of which some children are still to come. -/
structure Growing
    (shape : Shape α)
    (nodes : List α)
    (pending : Nat) :
    Prop where
  balance :
    nodes.length + pending = 2 * nodes.countP shape.isSplit + 1
  reached :
    ∀ place,
      place < nodes.length → place ≤ 2 * splitsBefore shape nodes place
  children :
    ∀ place node,
      nodes[place]? = some node →
      shape.isSplit node = true →
      shape.left node = 2 * splitsBefore shape nodes place + 1 ∧
        shape.right node = 2 * splitsBefore shape nodes place + 2

/-- A full binary tree in breadth-first order. -/
def Complete
    (shape : Shape α)
    (nodes : List α) :
    Prop :=
  Growing shape nodes 0

/-- A place is that of a child of the split at another place. -/
def Child
    (shape : Shape α)
    (nodes : List α)
    (place next : Nat) :
    Prop :=
  ∃ node,
    nodes[place]? = some node ∧
      shape.isSplit node = true ∧
      (next = shape.left node ∨ next = shape.right node)

variable {shape : Shape α}
variable {nodes : List α}

theorem growing_nil
    (shape : Shape α) :
    Growing shape [] 1 where
  balance := rfl
  reached := by simp
  children := by simp

theorem splitsBefore_append
    {place : Nat}
    (inside : place ≤ nodes.length)
    (more : List α) :
    splitsBefore shape (nodes ++ more) place =
      splitsBefore shape nodes place := by
  rw [splitsBefore, splitsBefore, List.take_append_of_le_length inside]

theorem splitsBefore_length
    (nodes : List α) :
    splitsBefore shape nodes nodes.length = nodes.countP shape.isSplit := by
  rw [splitsBefore, List.take_length]

variable {node : α}

/-- What a new node at the end has to satisfy. -/
theorem Growing.append
    {pending pending' : Nat}
    (growing : Growing shape nodes (pending + 1))
    (balance :
      pending' + 1 =
        pending + 1 + 2 * (if shape.isSplit node = true then 1 else 0))
    (children :
      shape.isSplit node = true →
        shape.left node = nodes.length + pending + 1 ∧
          shape.right node = nodes.length + pending + 2) :
    Growing shape (nodes ++ [node]) pending' := by
  have whole := growing.balance
  constructor
  case balance =>
    rw [List.length_append, List.length_singleton, List.countP_append,
      List.countP_singleton]
    omega
  case reached =>
    intro place inside
    rw [List.length_append, List.length_singleton] at inside
    rw [splitsBefore_append (Nat.le_of_lt_succ inside)]
    rcases Nat.lt_succ_iff_lt_or_eq.1 inside with old | rfl
    · exact growing.reached place old
    · rw [splitsBefore_length]
      omega
  case children =>
    intro place other found isSplit
    by_cases old : place < nodes.length
    · rw [splitsBefore_append (Nat.le_of_lt old)]
      rw [List.getElem?_append_left old] at found
      exact growing.children place other found isSplit
    · have atEnd : place = nodes.length := by
        have inside := (List.getElem?_eq_some_iff.1 found).1
        rw [List.length_append, List.length_singleton] at inside
        omega
      subst atEnd
      obtain rfl : node = other := by
        simpa using found
      rw [splitsBefore_append (Nat.le_refl _), splitsBefore_length]
      obtain ⟨left, right⟩ := children isSplit
      omega

/-- A leaf takes one of the children that are to come. -/
theorem Growing.leaf
    {pending : Nat}
    (growing : Growing shape nodes (pending + 1))
    (isLeaf : shape.isSplit node = false) :
    Growing shape (nodes ++ [node]) pending :=
  growing.append (by simp [isLeaf]) (by simp [isLeaf])

/-- A split takes one and puts two behind the others. -/
theorem Growing.split
    {pending : Nat}
    (growing : Growing shape nodes (pending + 1))
    (isSplit : shape.isSplit node = true)
    (left : shape.left node = nodes.length + pending + 1)
    (right : shape.right node = nodes.length + pending + 2) :
    Growing shape (nodes ++ [node]) (pending + 2) :=
  growing.append (by simp [isSplit]) (fun _ => ⟨left, right⟩)

theorem splitsBefore_succ
    {place : Nat}
    (found : nodes[place]? = some node) :
    splitsBefore shape nodes (place + 1) =
      splitsBefore shape nodes place +
        if shape.isSplit node = true then 1 else 0 := by
  obtain ⟨inside, isNode⟩ := List.getElem?_eq_some_iff.1 found
  rw [splitsBefore, List.take_succ_eq_append_getElem inside,
    List.countP_append, isNode, List.countP_singleton]
  rfl

/-- Splits are counted up by the splits. -/
theorem splitsBefore_lt
    {place later : Nat}
    (found : nodes[place]? = some node)
    (isSplit : shape.isSplit node = true)
    (behind : place < later) :
    splitsBefore shape nodes place < splitsBefore shape nodes later := by
  have next :
      splitsBefore shape nodes (place + 1) =
        splitsBefore shape nodes place + 1 := by
    rw [splitsBefore_succ found, if_pos isSplit]
  have grows :
      splitsBefore shape nodes (place + 1) ≤
        splitsBefore shape nodes later := by
    have isPrefix : nodes.take (place + 1) <+: nodes.take later :=
      List.take_prefix_take_left behind
    exact isPrefix.sublist.countP_le
  omega

theorem splitsBefore_lt_countP
    {place : Nat}
    (found : nodes[place]? = some node)
    (isSplit : shape.isSplit node = true) :
    splitsBefore shape nodes place < nodes.countP shape.isSplit := by
  rw [← splitsBefore_length]
  exact
    splitsBefore_lt found isSplit (List.getElem?_eq_some_iff.1 found).1

/-- Every number of splits before is that of a split. -/
theorem exists_split
    (count : Nat)
    (few : count < nodes.countP shape.isSplit) :
    ∃ place node,
      nodes[place]? = some node ∧
        shape.isSplit node = true ∧
        splitsBefore shape nodes place = count := by
  induction nodes generalizing count with
  | nil =>
      simp at few
  | cons node rest inductionHypothesis =>
      have shifted :
          ∀ place,
            splitsBefore shape (node :: rest) (place + 1) =
              splitsBefore shape rest place +
                if shape.isSplit node = true then 1 else 0 := by
        intro place
        rw [splitsBefore, List.take_succ_cons, List.countP_cons]
        rfl
      rw [List.countP_cons] at few
      by_cases isSplit : shape.isSplit node = true
      · rw [if_pos isSplit] at few
        cases count with
        | zero =>
            exact ⟨0, node, rfl, isSplit, rfl⟩
        | succ count =>
            obtain ⟨place, other, found, isSplit', before⟩ :=
              inductionHypothesis count (by omega)
            refine ⟨place + 1, other, found, isSplit', ?_⟩
            rw [shifted, before, if_pos isSplit]
      · rw [if_neg isSplit] at few
        obtain ⟨place, other, found, isSplit', before⟩ :=
          inductionHypothesis count (by omega)
        refine ⟨place + 1, other, found, isSplit', ?_⟩
        rw [shifted, before, if_neg isSplit, Nat.add_zero]

namespace Complete

/-- The children lie behind their parent and inside the array. -/
theorem child_bounds
    (complete : Complete shape nodes)
    {place next : Nat}
    (child : Child shape nodes place next) :
    place < next ∧ next < nodes.length := by
  obtain ⟨node, found, isSplit, isChild⟩ := child
  have reached :=
    complete.reached place (List.getElem?_eq_some_iff.1 found).1
  have balance := complete.balance
  have few := splitsBefore_lt_countP found isSplit
  obtain ⟨left, right⟩ := complete.children place node found isSplit
  omega

/-- Every node but the root is the child of an earlier one. -/
theorem exists_parent
    (complete : Complete shape nodes)
    {next : Nat}
    (inside : next < nodes.length)
    (notRoot : 0 < next) :
    ∃ place, Child shape nodes place next := by
  have balance := complete.balance
  have few : (next - 1) / 2 < nodes.countP shape.isSplit := by
    omega
  obtain ⟨place, node, found, isSplit, before⟩ :=
    exists_split ((next - 1) / 2) few
  obtain ⟨left, right⟩ := complete.children place node found isSplit
  refine ⟨place, node, found, isSplit, ?_⟩
  rw [left, right, before]
  omega

/-- No node is the child of two others. -/
theorem parent_unique
    (complete : Complete shape nodes)
    {place place' next : Nat}
    (child : Child shape nodes place next)
    (child' : Child shape nodes place' next) :
    place = place' := by
  obtain ⟨node, found, isSplit, isChild⟩ := child
  obtain ⟨node', found', isSplit', isChild'⟩ := child'
  obtain ⟨left, right⟩ := complete.children place node found isSplit
  obtain ⟨left', right'⟩ := complete.children place' node' found' isSplit'
  rcases Nat.lt_trichotomy place place' with before | same | behind
  · have less := splitsBefore_lt found isSplit before
    omega
  · exact same
  · have less := splitsBefore_lt found' isSplit' behind
    omega

theorem up
    (complete : Complete shape nodes)
    (place next : Nat)
    (child : Child shape nodes place next) :
    place < next :=
  (complete.child_bounds child).1

theorem oneParent
    (complete : Complete shape nodes)
    (place place' next : Nat)
    (child : Child shape nodes place next)
    (child' : Child shape nodes place' next) :
    place = place' :=
  complete.parent_unique child child'

/-- Every node is below the root. -/
theorem exists_walk
    (complete : Complete shape nodes)
    {stop : Nat}
    (inside : stop < nodes.length) :
    ∃ edges, Walk (Child shape nodes) 0 edges stop := by
  induction stop using Nat.strong_induction_on with
  | _ stop inductionHypothesis =>
      rcases Nat.eq_zero_or_pos stop with rfl | notRoot
      · exact ⟨0, .refl 0⟩
      · obtain ⟨place, child⟩ := complete.exists_parent inside notRoot
        have above := complete.up _ _ child
        obtain ⟨edges, walk⟩ :=
          inductionHypothesis place above (Nat.lt_trans above inside)
        exact ⟨edges + 1, walk.tail child⟩

/-- No node is below both children of a split. -/
theorem disjoint
    (complete : Complete shape nodes)
    {place stop edges edges' : Nat}
    {node : α}
    (found : nodes[place]? = some node)
    (isSplit : shape.isSplit node = true)
    (underLeft : Walk (Child shape nodes) (shape.left node) edges stop)
    (underRight : Walk (Child shape nodes) (shape.right node) edges' stop) :
    False := by
  have isLeft : Child shape nodes place (shape.left node) :=
    ⟨node, found, isSplit, .inl rfl⟩
  have isRight : Child shape nodes place (shape.right node) :=
    ⟨node, found, isSplit, .inr rfl⟩
  obtain ⟨left, right⟩ := complete.children place node found isSplit
  rcases underLeft.comparable complete.oneParent underRight with
    ⟨between, walk⟩ | ⟨between, walk⟩
  · cases between with
    | zero =>
        have same := walk.eq_of_zero
        omega
    | succ between =>
        -- The parent of the right child is in front of the left one.
        obtain ⟨middle, before, last⟩ := walk.exists_last
        obtain rfl := complete.oneParent _ _ _ isRight last
        have far := before.add_le complete.up
        have behind := complete.up _ _ isLeft
        omega
  · have far := walk.add_le complete.up
    omega

/-- There is one leaf more than there are splits. -/
theorem countP_leaves
    (complete : Complete shape nodes) :
    nodes.countP (fun node => !shape.isSplit node) =
      (nodes.length + 1) / 2 := by
  have balance := complete.balance
  have whole :
      nodes.length =
        nodes.countP shape.isSplit +
          nodes.countP (fun node => !shape.isSplit node) := by
    simpa using List.length_eq_countP_add_countP shape.isSplit (l := nodes)
  omega

end Complete

end BreadthFirst
