import Mathlib

namespace Stateful

/-!
# Computations that may fail after they have changed the state

A failure does not undo what was done before it.  A computation is atomic when it
leaves the state alone whenever it fails; it is when it does everything that can
fail before its first change.
-/

/-- A computation on a state that is kept when it fails. -/
abbrev Action (ε σ α : Type) := ExceptT ε (StateM σ) α

variable {ε σ α β : Type}
variable {action : Action ε σ α} {next : α → Action ε σ β}

/-- The answer of a computation, and the state behind it. -/
def perform
    (action : Action ε σ α)
    (state : σ) :
    Except ε α × σ :=
  action.run.run state

/-- A computation that does not touch the state. -/
def fallible
    (run : Except ε α) :
    Action ε σ α :=
  ExceptT.mk (pure run)

/-- The state is the same afterwards. -/
def ReadOnly
    (action : Action ε σ α) :
    Prop :=
  ∀ state, (perform action state).2 = state

/-- The state is the same after a failure. -/
def Atomic
    (action : Action ε σ α) :
    Prop :=
  ∀ state fault, (perform action state).1 = .error fault → (perform action state).2 = state

/-- The computation does not fail. -/
def Total
    (action : Action ε σ α) :
    Prop :=
  ∀ state, ∃ value, (perform action state).1 = .ok value

/-- What the rest of a sequence makes of its first part. -/
@[simp]
def continued
    (next : α → Action ε σ β) :
    Except ε α × σ → Except ε β × σ
  | (.ok value, after) => perform (next value) after
  | (.error fault, after) => (.error fault, after)

theorem perform_bind
    (action : Action ε σ α)
    (next : α → Action ε σ β)
    (state : σ) :
    perform (action >>= next) state = continued next (perform action state) := by
  change
    (ExceptT.bindCont next (perform action state).1).run (perform action state).2 = _
  rcases perform action state with ⟨answer, after⟩
  cases answer with
  | ok value => rfl
  | error fault => rfl

theorem perform_pure
    (value : α)
    (state : σ) :
    perform (pure value : Action ε σ α) state = (.ok value, state) :=
  rfl

theorem perform_fallible
    (run : Except ε α)
    (state : σ) :
    perform (fallible run : Action ε σ α) state = (run, state) :=
  rfl

theorem perform_modify
    (change : σ → σ)
    (state : σ) :
    perform (modify change : Action ε σ PUnit) state = (.ok ⟨⟩, change state) :=
  rfl

/-- A sequence that has succeeded. -/
theorem bind_eq_ok
    {state after : σ}
    {result : β} :
    perform (action >>= next) state = (.ok result, after) ↔
      ∃ value middle,
        perform action state = (.ok value, middle) ∧
          perform (next value) middle = (.ok result, after) := by
  rw [perform_bind]
  rcases perform action state with ⟨answer, middle⟩
  cases answer with
  | ok value => simp
  | error fault => simp

/-- A sequence that starts without touching the state. -/
theorem fallible_bind_eq_ok
    {run : Except ε α}
    {state after : σ}
    {result : β} :
    perform (fallible run >>= next) state = (.ok result, after) ↔
      ∃ value, run = .ok value ∧ perform (next value) state = (.ok result, after) := by
  rw [perform_bind, perform_fallible]
  cases run with
  | ok value => simp
  | error fault => simp

theorem get_bind
    (next : σ → Action ε σ β)
    (state : σ) :
    perform (get >>= next) state = perform (next state) state :=
  rfl

theorem modify_bind
    (change : σ → σ)
    (next : PUnit → Action ε σ β)
    (state : σ) :
    perform (modify change >>= next) state = perform (next ⟨⟩) (change state) :=
  rfl

theorem readOnly_fallible
    (run : Except ε α) :
    ReadOnly (fallible run : Action ε σ α) :=
  fun _ => rfl

theorem readOnly_get : ReadOnly (get : Action ε σ σ) :=
  fun _ => rfl

theorem ReadOnly.atomic
    (readOnly : ReadOnly action) :
    Atomic action :=
  fun state _ _ => readOnly state

theorem Total.atomic
    (total : Total action) :
    Atomic action := by
  intro state fault failed
  obtain ⟨value, answered⟩ := total state
  rw [answered] at failed
  exact nomatch failed

theorem total_pure
    (value : α) :
    Total (pure value : Action ε σ α) :=
  fun _ => ⟨value, rfl⟩

theorem total_modify
    (change : σ → σ) :
    Total (modify change : Action ε σ PUnit) :=
  fun _ => ⟨⟨⟩, rfl⟩

theorem Total.bind
    (first : Total action)
    (second : ∀ value, Total (next value)) :
    Total (action >>= next) := by
  intro state
  rw [perform_bind]
  obtain ⟨value, answered⟩ := first state
  generalize perform action state = outcome at answered ⊢
  obtain ⟨answer, after⟩ := outcome
  obtain rfl : answer = .ok value := answered
  exact second value after

/-- What comes before the first change may fail. -/
theorem Atomic.afterReading
    (first : ReadOnly action)
    (second : ∀ value, Atomic (next value)) :
    Atomic (action >>= next) := by
  intro state fault failed
  have same := first state
  rw [perform_bind] at failed ⊢
  generalize perform action state = answered at same failed ⊢
  obtain ⟨answer, after⟩ := answered
  obtain rfl : after = state := same
  cases answer with
  | ok value => exact second value after fault failed
  | error fault' => rfl

/-- What comes behind a change does not fail. -/
theorem Atomic.beforeTotal
    (first : Atomic action)
    (second : ∀ value, Total (next value)) :
    Atomic (action >>= next) := by
  intro state fault failed
  have keeps := first state
  rw [perform_bind] at failed ⊢
  generalize perform action state = answered at keeps failed ⊢
  obtain ⟨answer, after⟩ := answered
  cases answer with
  | ok value =>
      obtain ⟨result, succeeded⟩ := second value after
      change (perform (next value) after).1 = _ at failed
      rw [succeeded] at failed
      exact nomatch failed
  | error fault' => exact keeps fault' rfl

theorem atomic_ite
    {condition : Prop}
    [Decidable condition]
    {first second : Action ε σ α}
    (isFirst : Atomic first)
    (isSecond : Atomic second) :
    Atomic (if condition then first else second) := by
  split
  · exact isFirst
  · exact isSecond

end Stateful
