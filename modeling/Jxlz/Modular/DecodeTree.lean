import Jxlz.Base.PackSigned
import Jxlz.Entropy.DecAns
import Jxlz.Lib.BreadthFirst
import Jxlz.Lib.FuelLoop
import Jxlz.Modular.Encoding
import Jxlz.Modular.FilterTree

namespace Jxlz

open ANSSymbolReader

/-!
# Reading a decision tree

The nodes come in breadth-first order and without child pointers: the decoder
derives the children of a split from the number of nodes that are still to
come.
-/

/-- The contexts of the symbols of a tree. -/
inductive MATreeContext where
  | split_val
  | property
  | predictor
  | offset
  | multiplier_log
  | multiplier_bits
  deriving Repr, DecidableEq

/-- The number that `@intFromEnum` gives. -/
def MATreeContext.tag
    (self : MATreeContext) :
    Nat :=
  self.ctorIdx

/-- The number of predictors that a leaf can have. -/
def kNumModularPredictors : Nat :=
  Predictor.tag .average4 + 1

namespace DecodeTree

/-- The variables of the loop over the nodes. -/
structure State where
  reader : ANSSymbolReader
  br : BitReader
  tree : List PropertyDecisionNode
  leafId : Nat
  toDecode : Nat

/-- Reads the rest of a leaf. -/
def readLeaf
    (contextMap : List Nat)
    (state : State) :
    Checked State := do
  let (predictorRaw, reader, br) ←
    state.reader.readHybridUint (MATreeContext.tag .predictor) state.br contextMap
  if kNumModularPredictors ≤ predictorRaw then
    fail .GenericError
  else
    let (offsetRaw, reader, br) ←
      reader.readHybridUint (MATreeContext.tag .offset) br contextMap
    let offsetRaw ← castU 32 offsetRaw
    let predictorOffset := (unpackSigned (UInt32.ofNat offsetRaw)).toInt64
    let (mulLog, reader, br) ←
      reader.readHybridUint (MATreeContext.tag .multiplier_log) br contextMap
    if 31 ≤ mulLog then
      fail .GenericError
    else
      let (mulBits, reader, br) ←
        reader.readHybridUint (MATreeContext.tag .multiplier_bits) br contextMap
      if 1 <<< (31 - mulLog) - 1 ≤ mulBits then
        fail .GenericError
      else
        let mulBits ← castU 32 mulBits
        let factor ← addU 32 mulBits 1
        let multiplier := shlU 32 factor mulLog
        let leafId ← addU 32 state.leafId 1
        match Predictor.ofTag predictorRaw with
        | none => .error .trap
        | some predictor =>
            return {
              reader
              br
              tree :=
                state.tree ++
                  [{ property := -1
                     splitval := 0
                     lchild := state.leafId
                     rchild := 0
                     predictor
                     predictorOffset
                     multiplier }]
              leafId
              toDecode := state.toDecode }

/-- Reads the rest of a split; its children come after the nodes to decode. -/
def readSplit
    (contextMap : List Nat)
    (property : Int)
    (state : State) :
    Checked State := do
  let (splitvalRaw, reader, br) ←
    state.reader.readHybridUint (MATreeContext.tag .split_val) state.br contextMap
  let splitvalRaw ← castU 32 splitvalRaw
  let splitval := unpackSigned (UInt32.ofNat splitvalRaw)
  let lchild ← castU 32 (state.tree.length + state.toDecode + 1)
  let rchild ← castU 32 (state.tree.length + state.toDecode + 2)
  return {
    reader
    br
    tree :=
      state.tree ++
        [{ property
           splitval
           lchild
           rchild
           predictor := .zero
           predictorOffset := 0
           multiplier := 1 }]
    leafId := state.leafId
    toDecode := state.toDecode + 2 }

/-- One round of the loop: the next node. -/
def step
    (contextMap : List Nat)
    (treeSizeLimit : Nat)
    (state : State) :
    Checked (State ⊕ State) :=
  match state.toDecode with
  | 0 => return .inr state
  | toDecode + 1 =>
      if treeSizeLimit < state.tree.length then
        fail .GenericError
      else do
        let (prop1, reader, br) ←
          state.reader.readHybridUint (MATreeContext.tag .property) state.br
            contextMap
        let state := { state with reader, br, toDecode }
        if 256 < prop1 then
          fail .GenericError
        else
          let property : Int := prop1 - 1
          if property = -1 then
            let next ← readLeaf contextMap state
            return .inl next
          else
            let next ← readSplit contextMap property state
            return .inl next

end DecodeTree

open DecodeTree in
/--
Appends the nodes of a tree to the tree given; every round either ends in an
error or appends a node, so that the limit on the nodes bounds the rounds.
-/
def decodeTreeInner
    (reader : ANSSymbolReader)
    (br : BitReader)
    (contextMap : List Nat)
    (tree : List PropertyDecisionNode)
    (treeSizeLimit : Nat) :
    Checked (List PropertyDecisionNode × ANSSymbolReader × BitReader) := do
  let last ←
    FuelLoop.run (step contextMap treeSizeLimit) .running (treeSizeLimit + 2)
      { reader, br, tree, leafId := 0, toDecode := 1 }
  validateTree last.tree
  return (last.tree, last.reader, last.br)

/-- The nodes of a tree: splits are the nodes with a property. -/
def treeShape : BreadthFirst.Shape PropertyDecisionNode where
  isSplit := fun node => node.property ≠ -1
  left := PropertyDecisionNode.lchild
  right := PropertyDecisionNode.rchild

/-- The contexts of the leaves, in the order of the leaves. -/
def leafContexts
    (tree : List PropertyDecisionNode) :
    List Nat :=
  (tree.filter (fun node => node.property = -1)).map
    PropertyDecisionNode.lchild

theorem isSplit_iff
    {node : PropertyDecisionNode} :
    treeShape.isSplit node = true ↔ node.property ≠ -1 := by
  simp [treeShape]

theorem isSplit_eq_false_iff
    {node : PropertyDecisionNode} :
    treeShape.isSplit node = false ↔ node.property = -1 := by
  simp [treeShape]

namespace DecodeTree

/-- What the loop keeps true of the nodes it has appended. -/
structure Decoded
    (state : State) :
    Prop where
  growing :
    BreadthFirst.Growing treeShape state.tree state.toDecode
  leaves :
    leafContexts state.tree = List.range state.leafId
  bounds :
    ∀ node ∈ state.tree,
      -1 ≤ node.property ∧ node.property < 256 ∧
        0 < node.multiplier ∧ node.multiplier < 2 ^ 31

/-- What one round can append. -/
inductive StepCases
    (state : State) :
    State → Prop where
  | leaf
      {toDecode : Nat}
      {node : PropertyDecisionNode}
      {next : State}
      (some : state.toDecode = toDecode + 1)
      (isLeaf : node.property = -1)
      (context : node.lchild = state.leafId)
      (positive : 0 < node.multiplier)
      (small : node.multiplier < 2 ^ 31)
      (isTree : next.tree = state.tree ++ [node])
      (isLeafId : next.leafId = state.leafId + 1)
      (isToDecode : next.toDecode = toDecode) :
      StepCases state next
  | split
      {toDecode : Nat}
      {node : PropertyDecisionNode}
      {next : State}
      (some : state.toDecode = toDecode + 1)
      (nonneg : 0 ≤ node.property)
      (inPlan : node.property < 256)
      (left : node.lchild = state.tree.length + toDecode + 1)
      (right : node.rchild = state.tree.length + toDecode + 2)
      (multiplier : node.multiplier = 1)
      (isTree : next.tree = state.tree ++ [node])
      (isLeafId : next.leafId = state.leafId)
      (isToDecode : next.toDecode = toDecode + 2) :
      StepCases state next

/-- The multiplier of a leaf is positive and fits 31 bits. -/
theorem multiplier_bounds
    {mulBits mulLog : Nat}
    (logSmall : mulLog < 31)
    (bitsSmall : mulBits < 1 <<< (31 - mulLog) - 1) :
    0 < shlU 32 (mulBits + 1) mulLog ∧
      shlU 32 (mulBits + 1) mulLog < 2 ^ 31 := by
  rw [Nat.one_shiftLeft] at bitsSmall
  have fits : (mulBits + 1) * 2 ^ mulLog < 2 ^ 31 := by
    calc
      (mulBits + 1) * 2 ^ mulLog < 2 ^ (31 - mulLog) * 2 ^ mulLog := by
        apply Nat.mul_lt_mul_of_pos_right
        · omega
        · positivity
      _ = 2 ^ 31 := by
        rw [← Nat.pow_add, Nat.sub_add_cancel (Nat.le_of_lt logSmall)]
  have positive : 0 < (mulBits + 1) * 2 ^ mulLog := by
    positivity
  rw [shlU, Nat.shiftLeft_eq, Nat.mod_eq_of_lt (by omega)]
  exact ⟨positive, fits⟩

variable {contextMap : List Nat} {state next : State}

theorem readLeaf_cases
    (read : readLeaf contextMap state = .ok next) :
    ∃ node : PropertyDecisionNode,
      node.property = -1 ∧
        node.lchild = state.leafId ∧
        0 < node.multiplier ∧
        node.multiplier < 2 ^ 31 ∧
        next.tree = state.tree ++ [node] ∧
        next.leafId = state.leafId + 1 ∧
        next.toDecode = state.toDecode := by
  rw [readLeaf] at read
  obtain ⟨⟨predictorRaw, reader, br⟩, _, read⟩ := bind_eq_ok.1 read
  dsimp only at read
  split at read
  · cases read
  obtain ⟨⟨offsetRaw, reader, br⟩, _, read⟩ := bind_eq_ok.1 read
  dsimp only at read
  obtain ⟨offsetRaw, _, read⟩ := bind_eq_ok.1 read
  obtain ⟨⟨mulLog, reader, br⟩, _, read⟩ := bind_eq_ok.1 read
  dsimp only at read
  split at read
  · cases read
  next logSmall =>
    obtain ⟨⟨mulBits, reader, br⟩, _, read⟩ := bind_eq_ok.1 read
    dsimp only at read
    split at read
    · cases read
    next bitsSmall =>
      obtain ⟨mulBits', isCast, read⟩ := bind_eq_ok.1 read
      obtain ⟨factor, isFactor, read⟩ := bind_eq_ok.1 read
      obtain ⟨leafId, isLeafId, read⟩ := bind_eq_ok.1 read
      obtain ⟨rfl, _⟩ := castU_eq_ok isCast
      obtain ⟨rfl, _⟩ := addU_eq_ok isFactor
      obtain ⟨rfl, _⟩ := addU_eq_ok isLeafId
      obtain ⟨positive, small⟩ :=
        multiplier_bounds (Nat.lt_of_not_le logSmall)
          (Nat.lt_of_not_le bitsSmall)
      split at read
      · cases read
      · cases read
        exact ⟨_, rfl, rfl, positive, small, rfl, rfl, rfl⟩

theorem readSplit_cases
    {property : Int}
    (read : readSplit contextMap property state = .ok next) :
    ∃ node : PropertyDecisionNode,
      node.property = property ∧
        node.lchild = state.tree.length + state.toDecode + 1 ∧
        node.rchild = state.tree.length + state.toDecode + 2 ∧
        node.multiplier = 1 ∧
        next.tree = state.tree ++ [node] ∧
        next.leafId = state.leafId ∧
        next.toDecode = state.toDecode + 2 := by
  rw [readSplit] at read
  obtain ⟨⟨splitvalRaw, reader, br⟩, _, read⟩ := bind_eq_ok.1 read
  dsimp only at read
  obtain ⟨splitvalRaw', _, read⟩ := bind_eq_ok.1 read
  obtain ⟨lchild, isLeft, read⟩ := bind_eq_ok.1 read
  obtain ⟨rchild, isRight, read⟩ := bind_eq_ok.1 read
  obtain ⟨rfl, _⟩ := castU_eq_ok isLeft
  obtain ⟨rfl, _⟩ := castU_eq_ok isRight
  cases read
  exact ⟨_, rfl, rfl, rfl, rfl, rfl, rfl, rfl⟩

/-- A round that goes on has appended a leaf or a split. -/
theorem step_cases
    {treeSizeLimit : Nat}
    (stepped : step contextMap treeSizeLimit state = .ok (.inl next)) :
    StepCases state next := by
  rw [step] at stepped
  split at stepped
  · cases stepped
  next toDecode some =>
    split at stepped
    · cases stepped
    obtain ⟨⟨prop1, reader, br⟩, _, stepped⟩ := bind_eq_ok.1 stepped
    dsimp only at stepped
    split at stepped
    · cases stepped
    next inPlan =>
      split at stepped
      · obtain ⟨next', read, stepped⟩ := bind_eq_ok.1 stepped
        cases stepped
        obtain
          ⟨node, isLeaf, context, positive, small, isTree, isLeafId,
            isToDecode⟩ :=
          readLeaf_cases read
        exact
          .leaf some isLeaf context positive small isTree isLeafId isToDecode
      next notLeaf =>
        obtain ⟨next', read, stepped⟩ := bind_eq_ok.1 stepped
        cases stepped
        obtain
          ⟨node, isProperty, left, right, multiplier, isTree, isLeafId,
            isToDecode⟩ :=
          readSplit_cases read
        exact
          .split some (by omega) (by omega) left right multiplier isTree
            isLeafId isToDecode

theorem leafContexts_append
    (tree : List PropertyDecisionNode)
    (node : PropertyDecisionNode) :
    leafContexts (tree ++ [node]) =
      leafContexts tree ++ leafContexts [node] := by
  simp [leafContexts]

/-- Every round keeps the invariant. -/
theorem Decoded.step
    (decoded : Decoded state)
    (stepped : StepCases state next) :
    Decoded next := by
  have growing := decoded.growing
  cases stepped with
  | leaf some isLeaf context positive small isTree isLeafId isToDecode =>
      rw [some] at growing
      constructor
      case growing =>
        rw [isTree, isToDecode]
        exact growing.leaf (isSplit_eq_false_iff.2 isLeaf)
      case leaves =>
        rw [isTree, isLeafId, leafContexts_append, decoded.leaves,
          List.range_succ, ← context]
        simp [leafContexts, isLeaf]
      case bounds =>
        rw [isTree]
        intro other member
        rcases List.mem_append.1 member with old | isNew
        · exact decoded.bounds other old
        · rw [List.mem_singleton.1 isNew]
          omega
  | split some nonneg inPlan left right multiplier isTree isLeafId
      isToDecode =>
      rw [some] at growing
      rename_i toDecode node
      have notLeaf : node.property ≠ -1 := by
        omega
      constructor
      case growing =>
        rw [isTree, isToDecode]
        exact growing.split (isSplit_iff.2 notLeaf) left right
      case leaves =>
        rw [isTree, isLeafId, leafContexts_append, decoded.leaves]
        simp [leafContexts, notLeaf]
      case bounds =>
        rw [isTree]
        intro other member
        rcases List.mem_append.1 member with old | isNew
        · exact decoded.bounds other old
        · rw [List.mem_singleton.1 isNew]
          omega

theorem decoded_initial
    (reader : ANSSymbolReader)
    (br : BitReader) :
    Decoded { reader, br, tree := [], leafId := 0, toDecode := 1 } where
  growing := BreadthFirst.growing_nil treeShape
  leaves := rfl
  bounds := by simp

end DecodeTree

/-- What a decoded tree keeps: its order, its leaf numbers and its bounds. -/
structure DecodedTree
    (tree : List PropertyDecisionNode) :
    Prop where
  breadthFirst :
    BreadthFirst.Complete treeShape tree
  leaves :
    leafContexts tree = List.range ((tree.length + 1) / 2)
  bounds :
    ∀ node ∈ tree,
      -1 ≤ node.property ∧ node.property < 256 ∧
        0 < node.multiplier ∧ node.multiplier < 2 ^ 31
  accepted :
    validateTree tree = .ok ()

theorem length_leafContexts
    (tree : List PropertyDecisionNode) :
    (leafContexts tree).length =
      tree.countP (fun node => !treeShape.isSplit node) := by
  rw [leafContexts, List.length_map, ← List.countP_eq_length_filter]
  simp [treeShape]

/-- What the decoder returns is a decoded tree. -/
theorem decodedTree_of_decodeTreeInner
    {reader finalReader : ANSSymbolReader}
    {br finalBr : BitReader}
    {contextMap : List Nat}
    {tree : List PropertyDecisionNode}
    {treeSizeLimit : Nat}
    (decoded :
      decodeTreeInner reader br contextMap [] treeSizeLimit =
        .ok (tree, finalReader, finalBr)) :
    DecodedTree tree := by
  rw [decodeTreeInner] at decoded
  obtain ⟨last, ran, decoded⟩ := bind_eq_ok.1 decoded
  obtain ⟨_, accepted, decoded⟩ := bind_eq_ok.1 decoded
  cases decoded
  obtain ⟨state, invariant, ends⟩ :=
    FuelLoop.run_invariant DecodeTree.Decoded ran
      (DecodeTree.decoded_initial reader br)
      (fun before after decoded stepped =>
        decoded.step (DecodeTree.step_cases stepped))
  have ended : state.toDecode = 0 ∧ state = last := by
    rw [DecodeTree.step] at ends
    split at ends
    next none =>
      cases ends
      exact ⟨none, rfl⟩
    next toDecode some =>
      split at ends
      · cases ends
      obtain ⟨⟨prop1, reader', br'⟩, _, ends⟩ := bind_eq_ok.1 ends
      dsimp only at ends
      split at ends
      · cases ends
      split at ends
      · obtain ⟨next, _, ends⟩ := bind_eq_ok.1 ends
        cases ends
      · obtain ⟨next, _, ends⟩ := bind_eq_ok.1 ends
        cases ends
  obtain ⟨none, rfl⟩ := ended
  have complete : BreadthFirst.Complete treeShape state.tree := by
    have growing := invariant.growing
    rwa [none] at growing
  refine ⟨complete, ?_, invariant.bounds, accepted⟩
  have leaves := complete.countP_leaves
  rw [← length_leafContexts, invariant.leaves, List.length_range] at leaves
  rw [invariant.leaves, leaves]

/-- The context of a leaf is less than the number of leaves. -/
theorem DecodedTree.context_lt
    {tree : List PropertyDecisionNode}
    (decoded : DecodedTree tree)
    {node : PropertyDecisionNode}
    (member : node ∈ tree)
    (isLeaf : node.property = -1) :
    node.lchild < (tree.length + 1) / 2 := by
  have listed : node.lchild ∈ leafContexts tree := by
    apply List.mem_map_of_mem
    simp [member, isLeaf]
  rw [decoded.leaves] at listed
  exact List.mem_range.1 listed

namespace ContextPredict

/-- The leaves of a filtered tree are leaves of the tree. -/
theorem exists_leaf_of_filterTree
    {tree : List PropertyDecisionNode}
    {staticProps : List Int32}
    {filtered : FilteredTree}
    (isFiltered : filterTree tree staticProps = .ok filtered)
    {flat : FlatDecisionNode}
    (member : flat ∈ filtered.flatTree)
    (isLeaf : flat.property0 < 0) :
    ∃ node ∈ tree, node.property = -1 ∧ node.lchild = flat.childID := by
  rw [filterTree] at isFiltered
  obtain ⟨state, looped, isFiltered⟩ := bind_eq_ok.1 isFiltered
  have step :
      ∀ (first : Nat) (rest : List Nat) (before after : FilterTree.State),
        (∀ flat ∈ before.output,
          flat.property0 < 0 →
          ∃ node ∈ tree, node.property = -1 ∧ node.lchild = flat.childID) →
        before.queue = first :: rest →
        FilterTree.StepCases tree staticProps first
            { before with queue := rest } after →
        ∀ flat ∈ after.output,
          flat.property0 < 0 →
          ∃ node ∈ tree,
            node.property = -1 ∧ node.lchild = flat.childID := by
    intro first rest before after holds isQueue stepped flat member isLeaf
    cases stepped with
    | leaf skips found isLeaf' isMultiplier =>
        rcases List.mem_append.1 member with old | isNew
        · exact holds flat old isLeaf
        · rw [List.mem_singleton.1 isNew]
          exact ⟨_, List.mem_of_getElem? found, isLeaf', rfl⟩
    | split skips found dynamic isLeft isRight =>
        simp only [FilterTree.split, List.foldl_cons, List.foldl_nil,
          FilterTree.output_noteProperty, List.mem_append,
          List.mem_singleton] at member
        rcases member with old | isNew
        · exact holds flat old isLeaf
        · rw [isNew] at isLeaf
          exact absurd isLeaf (by dsimp only; omega)
  obtain ⟨invariant, _⟩ :=
    FilterTree.loop_invariant step (by simp) looped
  cases isFiltered
  exact invariant flat member isLeaf

end ContextPredict

/--
A tree that the decoder accepts is full, binary and in breadth-first order:
every node but the root is a child of exactly one earlier node.  The leaves
have the contexts from zero up, each once, so that a context map with one entry
for each leaf has one for every leaf of a filtered tree.
-/
theorem decodeTreeInner_breadthFirst
    {reader finalReader : ANSSymbolReader}
    {br finalBr : BitReader}
    {contextMap : List Nat}
    {tree : List PropertyDecisionNode}
    {treeSizeLimit : Nat}
    (decoded :
      decodeTreeInner reader br contextMap [] treeSizeLimit =
        .ok (tree, finalReader, finalBr)) :
    BreadthFirst.Complete treeShape tree ∧
      (∀ place next,
        BreadthFirst.Child treeShape tree place next →
        place < next ∧ next < tree.length) ∧
      (∀ next,
        0 < next →
        next < tree.length →
        ∃! place, BreadthFirst.Child treeShape tree place next) ∧
      tree.countP (fun node => node.property = -1) = (tree.length + 1) / 2 ∧
      leafContexts tree = List.range ((tree.length + 1) / 2) ∧
      ∀ channelContextMap : List Nat,
        (tree.length + 1) / 2 ≤ channelContextMap.length →
        ∀ staticProps filtered,
          ContextPredict.filterTree tree staticProps = .ok filtered →
          ∃ flatTree,
            filtered.flatTree.mapM (Modular.mapContext channelContextMap) =
              .ok flatTree := by
  have isDecoded := decodedTree_of_decodeTreeInner decoded
  have complete := isDecoded.breadthFirst
  refine
    ⟨complete, fun _ _ child => complete.child_bounds child, ?_, ?_,
      isDecoded.leaves, ?_⟩
  · intro next notRoot inside
    obtain ⟨place, child⟩ := complete.exists_parent inside notRoot
    exact ⟨place, child, fun other child' => complete.parent_unique child' child⟩
  · rw [← complete.countP_leaves]
    congr
    funext node
    simp [treeShape]
  · intro channelContextMap large staticProps filtered isFiltered
    have maps :
        ∀ flat ∈ filtered.flatTree,
          Modular.mapContext channelContextMap flat =
            .ok
              (if flat.property0 < 0 then
                { flat with
                  childID := channelContextMap.getD flat.childID 0 }
              else
                flat) := by
      intro flat member
      rw [Modular.mapContext]
      split
      next isLeaf =>
        obtain ⟨node, inTree, isLeaf', context⟩ :=
          ContextPredict.exists_leaf_of_filterTree isFiltered member isLeaf
        have inMap := isDecoded.context_lt inTree isLeaf'
        rw [context] at inMap
        rw [index_getD (Nat.lt_of_lt_of_le inMap large) 0]
        rfl
      next =>
        rfl
    exact ⟨_, mapM_ok maps⟩

/-- A split and two leaves, read from the three bits of a prefix code. -/
theorem decodeTreeInner_breadthFirst_split :
    ∃ reader br tree finalReader finalBr,
      decodeTreeInner reader br [0, 1, 0, 0, 0, 0] [] 3 =
          .ok (tree, finalReader, finalBr) ∧
        tree.length = 3 ∧ leafContexts tree = List.range 2 := by
  let reader : ANSSymbolReader :=
    { aliasTables := []
      huffmanData :=
        [[], (List.range 256).map (fun i => { bits := 1, value := i % 2 })]
      degenerateSymbols := [0, -1]
      usePrefixCode := true
      configs := [HybridUintConfig.initDefault, HybridUintConfig.initDefault] }
  have computed :
      (decodeTreeInner reader (BitReader.init [1]) [0, 1, 0, 0, 0, 0] []
          3).map (fun result => result.1.length) =
        .ok 3 := by
    decide +kernel
  cases decoded :
      decodeTreeInner reader (BitReader.init [1]) [0, 1, 0, 0, 0, 0] [] 3 with
  | error fault =>
      rw [decoded] at computed
      cases computed
  | ok result =>
      obtain ⟨tree, finalReader, finalBr⟩ := result
      rw [decoded] at computed
      have length : tree.length = 3 :=
        Except.ok.inj computed
      obtain ⟨-, -, -, -, contexts, -⟩ := decodeTreeInner_breadthFirst decoded
      rw [length] at contexts
      exact ⟨reader, _, tree, finalReader, finalBr, decoded, length, contexts⟩

end Jxlz
