import Mathlib

namespace Jxlz

/-!
# Errors and checked machine arithmetic

The decoder and the encoder are written in a language whose safe builds stop
on an integer overflow, an out-of-range cast or index, an unwrapped null and a
failed assertion.  Such a stop is the fault `trap`; the errors that the code
itself returns are `JxlError`.  Shifts to the left drop the bits above the
width, so they are plain remainders.  A loop without a bound of its own takes
fuel; the fault `running` says that it has not ended yet.
-/

/-- The error set of `status.zig`, and the errors of the ICC codec and the encoder. -/
inductive JxlError where
  | GenericError
  | InvalidColorEncoding
  | InvalidContainer
  | InvalidJpegReconstruction
  | InvalidContextMap
  | InvalidMaTree
  | NonzeroPadding
  | Unsupported
  | NotEnoughBytes
  | OutOfMemory
  | BrotliDecoderFailure
  | OutOfBounds
  | Expected32BitValue
  | ProfileTooLarge
  | DecodedTooLarge
  | NotAllCommandsUsed
  | NotAllDataUsed
  | InvalidResultSize
  | UnknownTagCode
  | InvalidWidth
  | InvalidOrder
  | InvalidStride
  | InvalidArgs
  deriving Repr, DecidableEq

/--
How a call can fail: an error it returns, a safety check that stops it, or a
loop that is still running when its fuel is used up.
-/
inductive Fault where
  | error (code : JxlError)
  | trap
  | running
  deriving Repr, DecidableEq

/-- A computation that may fail. -/
abbrev Checked (α : Type) := Except Fault α

/-- `return error.<code>`. -/
def fail
    {α : Type}
    (code : JxlError) :
    Checked α :=
  .error (.error code)

/-- A safety check of the source language. -/
def require
    (condition : Prop)
    [Decidable condition] :
    Checked Unit :=
  if condition then .ok () else .error .trap

/-- Indexing a slice. -/
def index
    {α : Type}
    (items : List α)
    (position : Nat) :
    Checked α :=
  match items[position]? with
  | some item => .ok item
  | none => .error .trap

/-- Replacing one item of a slice. -/
def store
    {α : Type}
    (items : List α)
    (position : Nat)
    (item : α) :
    Checked (List α) :=
  if position < items.length then
    .ok (items.set position item)
  else
    .error .trap

/-- Unsigned addition at the given width. -/
def addU
    (width first second : Nat) :
    Checked Nat :=
  if first + second < 2 ^ width then .ok (first + second) else .error .trap

/-- Unsigned subtraction. -/
def subU
    (first second : Nat) :
    Checked Nat :=
  if second ≤ first then .ok (first - second) else .error .trap

/-- Unsigned multiplication at the given width. -/
def mulU
    (width first second : Nat) :
    Checked Nat :=
  if first * second < 2 ^ width then .ok (first * second) else .error .trap

/-- `@intCast` to an unsigned type of the given width. -/
def castU
    (width value : Nat) :
    Checked Nat :=
  if value < 2 ^ width then .ok value else .error .trap

/-- `@intCast` to `i32`. -/
def toI32
    (value : Int) :
    Checked Int32 :=
  if -2 ^ 31 ≤ value ∧ value < 2 ^ 31 then
    .ok (Int32.ofInt value)
  else
    .error .trap

/-- Signed addition at 32 bits. -/
def addI32
    (first second : Int) :
    Checked Int :=
  if -2 ^ 31 ≤ first + second ∧ first + second < 2 ^ 31 then
    .ok (first + second)
  else
    .error .trap

/-- Signed addition at 64 bits. -/
def addI64
    (first second : Int) :
    Checked Int :=
  if -2 ^ 63 ≤ first + second ∧ first + second < 2 ^ 63 then
    .ok (first + second)
  else
    .error .trap

/-- Left shift at the given width; the bits shifted out are dropped. -/
def shlU
    (width value amount : Nat) :
    Nat :=
  (value <<< amount) % 2 ^ width

variable {α β : Type} {items : List α} {position : Nat}

-- The parentheses keep `simp` from using these three by unfolding: inside a
-- long sequence of steps the kernel would have to unfold all of it.
@[simp]
theorem ok_bind
    (value : α)
    (next : α → Checked β) :
    ((Except.ok value : Checked α) >>= next) = next value :=
  (rfl)

@[simp]
theorem error_bind
    (fault : Fault)
    (next : α → Checked β) :
    ((Except.error fault : Checked α) >>= next) = .error fault :=
  (rfl)

@[simp]
theorem pure_eq_ok
    (value : α) :
    (pure value : Checked α) = .ok value :=
  (rfl)

/-- A sequenced computation succeeds exactly when both parts do. -/
theorem bind_eq_ok
    {first : Checked α}
    {next : α → Checked β}
    {result : β} :
    (first >>= next) = .ok result ↔
      ∃ value, first = .ok value ∧ next value = .ok result := by
  cases first with
  | error fault =>
      simp
  | ok value =>
      simp

theorem require_ok
    {condition : Prop}
    [Decidable condition]
    (holds : condition) :
    require condition = .ok () := by
  simp [require, holds]

theorem require_eq_ok
    {condition : Prop}
    [Decidable condition] :
    require condition = .ok () ↔ condition := by
  by_cases holds : condition <;> simp [require, holds]

theorem index_ok
    (inside : position < items.length) :
    index items position = .ok items[position] := by
  simp [index, inside]

theorem index_getD
    (inside : position < items.length)
    (default : α) :
    index items position = .ok (items.getD position default) := by
  simp [index, inside]

theorem index_eq_ok
    {item : α} :
    index items position = .ok item ↔ items[position]? = some item := by
  unfold index
  cases items[position]? <;> simp

theorem store_ok
    (inside : position < items.length)
    (item : α) :
    store items position item = .ok (items.set position item) := by
  rw [store, if_pos inside]

theorem addU_ok
    {width first second : Nat}
    (fits : first + second < 2 ^ width) :
    addU width first second = .ok (first + second) := by
  simp [addU, fits]

theorem subU_ok
    {first second : Nat}
    (fits : second ≤ first) :
    subU first second = .ok (first - second) := by
  simp [subU, fits]

theorem mulU_ok
    {width first second : Nat}
    (fits : first * second < 2 ^ width) :
    mulU width first second = .ok (first * second) := by
  simp [mulU, fits]

theorem castU_ok
    {width value : Nat}
    (fits : value < 2 ^ width) :
    castU width value = .ok value := by
  simp [castU, fits]

theorem addU_eq_ok
    {width first second result : Nat}
    (computed : addU width first second = .ok result) :
    result = first + second ∧ first + second < 2 ^ width := by
  unfold addU at computed
  split at computed
  · cases computed
    exact ⟨rfl, by assumption⟩
  · cases computed

theorem subU_eq_ok
    {first second result : Nat}
    (computed : subU first second = .ok result) :
    result = first - second ∧ second ≤ first := by
  unfold subU at computed
  split at computed
  · cases computed
    exact ⟨rfl, by assumption⟩
  · cases computed

theorem mulU_eq_ok
    {width first second result : Nat}
    (computed : mulU width first second = .ok result) :
    result = first * second ∧ first * second < 2 ^ width := by
  unfold mulU at computed
  split at computed
  · cases computed
    exact ⟨rfl, by assumption⟩
  · cases computed

theorem castU_eq_ok
    {width value result : Nat}
    (computed : castU width value = .ok result) :
    result = value ∧ value < 2 ^ width := by
  unfold castU at computed
  split at computed
  · cases computed
    exact ⟨rfl, by assumption⟩
  · cases computed

theorem addI32_ok
    {first second : Int}
    (large : -2 ^ 31 ≤ first + second)
    (small : first + second < 2 ^ 31) :
    addI32 first second = .ok (first + second) := by
  rw [addI32, if_pos ⟨large, small⟩]

theorem addI64_ok
    {first second : Int}
    (large : -2 ^ 63 ≤ first + second)
    (small : first + second < 2 ^ 63) :
    addI64 first second = .ok (first + second) := by
  rw [addI64, if_pos ⟨large, small⟩]

theorem toI32_ok
    {value : Int}
    (large : -2 ^ 31 ≤ value)
    (small : value < 2 ^ 31) :
    toI32 value = .ok (Int32.ofInt value) := by
  rw [toI32, if_pos ⟨large, small⟩]

theorem toI32_eq_ok
    {value : Int}
    {result : Int32}
    (computed : toI32 value = .ok result) :
    result.toInt = value := by
  unfold toI32 at computed
  split at computed
  next fits =>
    cases computed
    exact Int32.toInt_ofInt_of_le fits.1 fits.2
  next outside =>
    cases computed

/-- A wide value that is a sample's becomes that sample. -/
theorem toI32_toInt
    (sample : Int32) :
    toI32 sample.toInt = .ok sample := by
  rw [toI32_ok (Int32.le_toInt sample) (Int32.toInt_lt sample),
    Int32.ofInt_toInt]

theorem shlU_eq
    {width value amount : Nat}
    (fits : value * 2 ^ amount < 2 ^ width) :
    shlU width value amount = value * 2 ^ amount := by
  simp [shlU, Nat.shiftLeft_eq, Nat.mod_eq_of_lt fits]

/-- Mapping a computation maps item by item. -/
theorem forall₂_of_mapM_eq_ok
    {step : α → Checked β}
    {results : List β}
    (mapped : items.mapM step = .ok results) :
    List.Forall₂ (fun item result => step item = .ok result) items results := by
  induction items generalizing results with
  | nil =>
      cases mapped
      exact .nil
  | cons head tail inductionHypothesis =>
      rw [List.mapM_cons] at mapped
      obtain ⟨first, isFirst, mapped⟩ := bind_eq_ok.1 mapped
      obtain ⟨others, areOthers, mapped⟩ := bind_eq_ok.1 mapped
      cases mapped
      exact .cons isFirst (inductionHypothesis areOthers)

/-- Every result of a mapped computation comes from an item. -/
theorem exists_of_mapM_eq_ok
    {step : α → Checked β}
    {results : List β}
    {result : β}
    (mapped : items.mapM step = .ok results)
    (member : result ∈ results) :
    ∃ item ∈ items, step item = .ok result := by
  have allMapped := forall₂_of_mapM_eq_ok mapped
  clear mapped
  induction allMapped with
  | nil =>
      cases member
  | @cons head first _ _ isFirst _ inductionHypothesis =>
      rcases List.mem_cons.1 member with rfl | inOthers
      · exact ⟨head, List.mem_cons_self, isFirst⟩
      · obtain ⟨item, inTail, isResult⟩ := inductionHypothesis inOthers
        exact ⟨item, List.mem_cons_of_mem _ inTail, isResult⟩

/-- Mapping a computation that succeeds on every item. -/
theorem mapM_ok
    {step : α → Checked β}
    {result : α → β}
    (succeeds : ∀ item ∈ items, step item = .ok (result item)) :
    items.mapM step = .ok (items.map result) := by
  induction items with
  | nil =>
      rfl
  | cons head tail inductionHypothesis =>
      have headOk := succeeds head List.mem_cons_self
      have tailOk :=
        inductionHypothesis
          (fun item member => succeeds item (List.mem_cons_of_mem _ member))
      simp [List.mapM_cons, headOk, tailOk]

/-- A loop over `0 .. count` that keeps an invariant of its position succeeds. -/
theorem foldlM_range_ok
    {step : α → Nat → Checked α}
    (invariant : Nat → α → Prop)
    {start : α}
    (count : Nat)
    (initially : invariant 0 start)
    (preserved :
      ∀ position state,
        position < count →
        invariant position state →
        ∃ next,
          step state position = .ok next ∧
            invariant (position + 1) next) :
    ∃ result,
      (List.range count).foldlM step start = .ok result ∧
        invariant count result := by
  induction count with
  | zero =>
      exact ⟨start, rfl, initially⟩
  | succ count inductionHypothesis =>
      obtain ⟨before, run, holds⟩ :=
        inductionHypothesis
          (fun position state inside =>
            preserved position state (Nat.lt_succ_of_lt inside))
      obtain ⟨result, last, holds'⟩ :=
        preserved count before (Nat.lt_succ_self count) holds
      refine ⟨result, ?_, holds'⟩
      rw [List.range_succ, List.foldlM_append, run, ok_bind,
        List.foldlM_cons, last]
      rfl

/-- A loop over numbered items that keeps an invariant of its position succeeds. -/
theorem foldlM_zipIdx_ok
    {step : α → β × Nat → Checked α}
    (invariant : Nat → α → Prop)
    {start : α}
    (items : List β)
    (initially : invariant 0 start)
    (preserved :
      ∀ position item state,
        items[position]? = some item →
        invariant position state →
        ∃ next,
          step state (item, position) = .ok next ∧
            invariant (position + 1) next) :
    ∃ result,
      items.zipIdx.foldlM step start = .ok result ∧
        invariant items.length result := by
  induction items using List.reverseRecOn with
  | nil =>
      exact ⟨start, rfl, initially⟩
  | append_singleton items item inductionHypothesis =>
      have earlier :
          ∀ position item' state,
            items[position]? = some item' →
            invariant position state →
            ∃ next,
              step state (item', position) = .ok next ∧
                invariant (position + 1) next := by
        intro position item' state found
        apply preserved position item' state
        rw [List.getElem?_append_left (List.getElem?_eq_some_iff.1 found).1]
        exact found
      obtain ⟨before, ran, holds⟩ := inductionHypothesis earlier
      obtain ⟨result, last, holds'⟩ :=
        preserved items.length item before (by simp) holds
      refine ⟨result, ?_, by simpa using holds'⟩
      rw [List.zipIdx_append, List.foldlM_append, ran, ok_bind]
      simp [last]

/-- What every step of a loop over numbered items preserves. -/
theorem foldl_zipIdx
    {step : α → β × Nat → α}
    (invariant : Nat → α → Prop)
    {start : α}
    (items : List β)
    (initially : invariant 0 start)
    (preserved :
      ∀ position item state,
        items[position]? = some item →
        invariant position state →
        invariant (position + 1) (step state (item, position))) :
    invariant items.length (items.zipIdx.foldl step start) := by
  induction items using List.reverseRecOn with
  | nil =>
      exact initially
  | append_singleton items item inductionHypothesis =>
      have holds :=
        inductionHypothesis
          (fun position item' state found =>
            preserved position item' state
              (by
                rw [List.getElem?_append_left
                  (List.getElem?_eq_some_iff.1 found).1]
                exact found))
      have holds' := preserved items.length item _ (by simp) holds
      rw [List.zipIdx_append, List.foldl_append, List.length_append]
      simpa using holds'

/-- A loop whose steps all succeed is a fold. -/
theorem foldlM_ok
    {step : α → β → Checked α}
    {next : α → β → α}
    {items : List β}
    (succeeds :
      ∀ item ∈ items, ∀ state, step state item = .ok (next state item))
    (start : α) :
    items.foldlM step start = .ok (items.foldl next start) := by
  induction items generalizing start with
  | nil =>
      rfl
  | cons head tail inductionHypothesis =>
      rw [List.foldlM_cons, succeeds head List.mem_cons_self, ok_bind,
        List.foldl_cons]
      exact inductionHypothesis
        (fun item member => succeeds item (List.mem_cons_of_mem _ member)) _

/-- What every step of a successful loop over `0 .. count` preserves. -/
theorem foldlM_range_of_ok
    {step : α → Nat → Checked α}
    (invariant : Nat → α → Prop)
    {start result : α}
    {count : Nat}
    (run : (List.range count).foldlM step start = .ok result)
    (initially : invariant 0 start)
    (preserved :
      ∀ position state next,
        position < count →
        step state position = .ok next →
        invariant position state →
        invariant (position + 1) next) :
    invariant count result := by
  induction count generalizing result with
  | zero =>
      cases run
      exact initially
  | succ count inductionHypothesis =>
      rw [List.range_succ, List.foldlM_append] at run
      obtain ⟨before, first, last⟩ := bind_eq_ok.1 run
      rw [List.foldlM_cons] at last
      obtain ⟨next, isNext, done⟩ := bind_eq_ok.1 last
      cases done
      refine preserved count before result (Nat.lt_succ_self count) isNext ?_
      refine inductionHypothesis first ?_
      intro position state next inside
      exact preserved position state next (Nat.lt_succ_of_lt inside)

/-- What a list holds after one of its items was replaced. -/
theorem getD_set
    {default : α}
    (inside : position < items.length)
    (item : α)
    (other : Nat) :
    (items.set position item).getD other default =
      if other = position then item else items.getD other default := by
  by_cases same : other = position
  · subst same
    simp [inside]
  · have different : position ≠ other :=
      fun equal => same equal.symm
    simp [List.getD_eq_getElem?_getD, different, same]

theorem shlU_lt
    (width value amount : Nat) :
    shlU width value amount < 2 ^ width :=
  Nat.mod_lt _ (by positivity)

theorem testBit_shlU
    (width value amount position : Nat) :
    (shlU width value amount).testBit position =
      (decide (position < width) &&
        (decide (amount ≤ position) && value.testBit (position - amount))) := by
  simp only [shlU, Nat.testBit_mod_two_pow, Nat.testBit_shiftLeft, ge_iff_le]

end Jxlz
