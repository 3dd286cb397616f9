import Mathlib

namespace Except

/-!
# Postconditions of computations that may fail

`Meets allowed run post` says that a computation either fails in an allowed way
or returns a value with the postcondition.  With no failure allowed it is total
correctness.  Nothing here depends on what the failures are.
-/

variable {ε α β : Type}

/-- A computation fails as allowed, or its result has the postcondition. -/
def Meets
    (allowed : ε → Prop)
    (run : Except ε α)
    (post : α → Prop) :
    Prop :=
  match run with
  | .ok value => post value
  | .error fault => allowed fault

variable {allowed : ε → Prop}
variable {run : Except ε α} {value : α} {post : α → Prop}

theorem meets_ok
    (holds : post value) :
    Meets allowed (.ok value) post :=
  holds

theorem Meets.of_eq_ok
    (returned : run = .ok value)
    (holds : post value) :
    Meets allowed run post := by
  rw [returned]
  exact holds

/-- A sequence meets what its second part does after the first one. -/
theorem Meets.bind
    {next : α → Except ε β}
    {middle : α → Prop}
    {post : β → Prop}
    (first : Meets allowed run middle)
    (second : ∀ value, middle value → Meets allowed (next value) post) :
    Meets allowed (run >>= next) post := by
  cases run with
  | ok value =>
      exact second value first
  | error fault =>
      exact first

theorem Meets.mono
    {strong weak : α → Prop}
    (meets : Meets allowed run strong)
    (implies : ∀ value, strong value → weak value) :
    Meets allowed run weak := by
  cases run with
  | ok value =>
      exact implies value meets
  | error fault =>
      exact meets

/-- The postcondition of a computation that has returned. -/
theorem Meets.of_ok
    (meets : Meets allowed run post)
    (returned : run = .ok value) :
    post value := by
  rw [returned] at meets
  exact meets

/-- Where no failure is allowed, the computation returns. -/
theorem Meets.exists_ok
    (meets : Meets (fun _ => False) run post) :
    ∃ value, run = .ok value ∧ post value := by
  cases run with
  | ok value =>
      exact ⟨value, rfl, meets⟩
  | error fault =>
      exact meets.elim

end Except

namespace Except

/-!
# Conditions along a run, and runs that are undone

`Along` says that every step of a run meets a condition in the state that the
run has reached.  If each step can be undone from any state that looks like the
one after it, so can a run, from its last step to its first.
-/

variable {ε σ α : Type}
variable {step : σ → α → Except ε σ} {state : σ} {item : α} {items : List α}

/-- Every step of a run meets a condition when it is reached. -/
def Along
    (step : σ → α → Except ε σ)
    (holds : σ → α → Prop) :
    σ → List α → Prop
  | _, [] => True
  | state, item :: items =>
      holds state item ∧
        ∀ next, step state item = .ok next → Along step holds next items

/-- The first step of a run that goes on. -/
theorem along_cons_of_ok
    {holds : σ → α → Prop}
    {state next : σ}
    (stepped : step state item = .ok next) :
    Along step holds state (item :: items) ↔
      holds state item ∧ Along step holds next items := by
  refine and_congr_right fun _ => ⟨fun later => later next stepped, fun along other isOther => ?_⟩
  cases stepped.symm.trans isOther
  exact along

/-- The last step of a run. -/
theorem along_concat
    {holds : σ → α → Prop}
    (along : Along step holds state (items ++ [item])) :
    Along step holds state items ∧
      ∀ reached, items.foldlM step state = .ok reached → holds reached item := by
  induction items generalizing state with
  | nil =>
      refine ⟨trivial, ?_⟩
      intro reached isStart
      cases isStart
      exact along.1
  | cons first items inductionHypothesis =>
      obtain ⟨here, later⟩ := along
      refine ⟨⟨here, fun next isNext => ?_⟩, ?_⟩
      · exact (inductionHypothesis (later next isNext)).1
      · intro reached ran
        rw [List.foldlM_cons] at ran
        cases isNext : step state first with
        | error fault =>
            rw [isNext] at ran
            cases ran
        | ok next =>
            rw [isNext] at ran
            exact (inductionHypothesis (later next isNext)).2 reached ran

/-- Two conditions are the same along a run that keeps what makes them so. -/
theorem along_iff
    {first second : σ → α → Prop}
    (invariant : σ → Prop)
    (initially : invariant state)
    (same :
      ∀ state item,
        item ∈ items → invariant state → (first state item ↔ second state item))
    (kept :
      ∀ state item next,
        item ∈ items → invariant state → step state item = .ok next → invariant next) :
    Along step first state items ↔ Along step second state items := by
  induction items generalizing state with
  | nil =>
      exact Iff.rfl
  | cons item items inductionHypothesis =>
      refine and_congr (same state item List.mem_cons_self initially) ?_
      refine forall_congr' fun next => forall_congr' fun isNext => ?_
      refine inductionHypothesis (kept state item next List.mem_cons_self initially isNext)
        ?_ ?_
      · intro reached other member
        exact same reached other (List.mem_cons_of_mem _ member)
      · intro reached other after member
        exact kept reached other after (List.mem_cons_of_mem _ member)

/--
Two conditions are the same along a run if they are the same in the states that the
first one leads to.
-/
theorem along_congr
    {first second : σ → α → Prop}
    (invariant : σ → Prop)
    (initially : invariant state)
    (same : ∀ state item, invariant state → (first state item ↔ second state item))
    (kept :
      ∀ state item next,
        invariant state →
        first state item → step state item = .ok next → invariant next) :
    Along step first state items ↔ Along step second state items := by
  induction items generalizing state with
  | nil =>
      exact Iff.rfl
  | cons item items inductionHypothesis =>
      constructor
      · rintro ⟨here, later⟩
        refine ⟨(same state item initially).1 here, fun next isNext => ?_⟩
        exact (inductionHypothesis (kept state item next initially here isNext)).1
          (later next isNext)
      · rintro ⟨here, later⟩
        have isFirst := (same state item initially).2 here
        refine ⟨isFirst, fun next isNext => ?_⟩
        exact (inductionHypothesis (kept state item next initially isFirst isNext)).2
          (later next isNext)

/-- A step can be undone from any state that looks like the one after it. -/
def UndoneBy
    (undo : σ → α → Except ε σ)
    (same : σ → σ → Prop)
    (fits : σ → α → Prop)
    (item : α)
    (before after : σ) :
    Prop :=
  ∀ state,
    same state after →
    fits state item →
    ∃ restored, undo state item = .ok restored ∧ same restored before

/-- A run can be undone from any state that looks like the one after it. -/
def RunUndoneBy
    (undo : σ → α → Except ε σ)
    (same : σ → σ → Prop)
    (fits : σ → α → Prop)
    (items : List α)
    (before after : σ) :
    Prop :=
  ∀ state,
    same state after →
    Along undo fits state items.reverse →
    ∃ restored,
      items.reverse.foldlM undo state = .ok restored ∧
        same restored before

section

variable {undo : σ → α → Except ε σ}
variable {same : σ → σ → Prop}
variable {fits : σ → α → Prop}

/-- A run is undone after the runs behind its first step. -/
theorem RunUndoneBy.cons
    {before middle after : σ}
    (later : RunUndoneBy undo same fits items middle after)
    (first : UndoneBy undo same fits item before middle) :
    RunUndoneBy undo same fits (item :: items) before after := by
  intro state isSame along
  rw [List.reverse_cons] at along ⊢
  obtain ⟨alongLater, atFirst⟩ := along_concat along
  obtain ⟨reached, ran, sameMiddle⟩ := later state isSame alongLater
  obtain ⟨restored, undone, sameBefore⟩ :=
    first reached sameMiddle (atFirst reached ran)
  refine ⟨restored, ?_, sameBefore⟩
  rw [List.foldlM_append, ran]
  show List.foldlM undo reached [item] = _
  rw [List.foldlM_cons, undone]
  rfl

end

end Except
