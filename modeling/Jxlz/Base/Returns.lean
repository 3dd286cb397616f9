import Jxlz.Base.Checked
import Jxlz.Lib.FuelLoop
import Jxlz.Lib.Meets

namespace Jxlz

open Except (Meets Along)

/-!
# Computations that return

A computation returns when it ends with a value or with an error of the code:
no safety check stops it, and it does not run on for ever.  A sequence of steps
returns exactly when each step that it gets to does, so what a function needs
to return is put together from what its steps need.
-/

/-- A computation fails with allowed faults only. -/
def Within
    {α : Type}
    (allowed : Fault → Prop)
    (run : Checked α) :
    Prop :=
  Meets allowed run fun _ => True

/-- A value or an error of the code, neither a stop nor a loop without end. -/
def Returns
    {α : Type}
    (run : Checked α) :
    Prop :=
  Within (fun fault => ∃ code, fault = .error code) run

/-- A value, and no fault at all. -/
def Completes
    {α : Type}
    (run : Checked α) :
    Prop :=
  Within (fun _ => False) run

section

variable {α β σ : Type}
variable {allowed : Fault → Prop}
variable {run : Checked α} {items : List α} {check : α → Checked Unit}

theorem within_ok
    (value : α) :
    Within allowed (.ok value) :=
  trivial

theorem Within.of_eq_ok
    {value : α}
    (returned : run = .ok value) :
    Within allowed run := by
  rw [returned]
  exact within_ok value

/-- A sequence returns when its first part does, and its second one then. -/
theorem within_bind
    {next : α → Checked β} :
    Within allowed (run >>= next) ↔
      Within allowed run ∧
        ∀ value, run = .ok value → Within allowed (next value) := by
  cases run with
  | ok value =>
      constructor
      · intro within
        refine ⟨within_ok value, ?_⟩
        rintro _ ⟨⟩
        exact within
      · intro parts
        exact parts.2 value rfl
  | error fault =>
      constructor
      · intro within
        refine ⟨within, ?_⟩
        rintro _ ⟨⟩
      · intro parts
        exact parts.1

theorem Within.bind
    {next : α → Checked β}
    (first : Within allowed run)
    (second : ∀ value, run = .ok value → Within allowed (next value)) :
    Within allowed (run >>= next) :=
  within_bind.2 ⟨first, second⟩

theorem within_ite
    {condition : Prop}
    [Decidable condition]
    {first second : Checked α} :
    Within allowed (if condition then first else second) ↔
      (condition → Within allowed first) ∧
        (¬condition → Within allowed second) := by
  by_cases holds : condition
  · rw [if_pos holds]
    exact ⟨fun within => ⟨fun _ => within, fun fails => (fails holds).elim⟩,
      fun parts => parts.1 holds⟩
  · rw [if_neg holds]
    exact ⟨fun within => ⟨fun asked => (holds asked).elim, fun _ => within⟩,
      fun parts => parts.2 holds⟩

theorem within_require
    {condition : Prop}
    [Decidable condition]
    (holds : condition) :
    Within allowed (require condition) :=
  .of_eq_ok (require_ok holds)

theorem within_subU
    {first second : Nat}
    (fits : second ≤ first) :
    Within allowed (subU first second) :=
  .of_eq_ok (subU_ok fits)

theorem within_index
    {position : Nat}
    (inside : position < items.length) :
    Within allowed (index items position) :=
  .of_eq_ok (index_ok inside)

theorem within_mapM
    {step : α → Checked β}
    (each : ∀ item ∈ items, Within allowed (step item)) :
    Within allowed (items.mapM step) := by
  induction items with
  | nil =>
      exact within_ok []
  | cons item items inductionHypothesis =>
      rw [List.mapM_cons]
      refine (each item List.mem_cons_self).bind fun first _ => ?_
      have later :=
        inductionHypothesis fun other member =>
          each other (List.mem_cons_of_mem item member)
      exact later.bind fun others _ => within_ok (first :: others)

/-- What a loop over a list has checked of each item. -/
theorem forM_eq_ok
    (checked : items.forM check = .ok ()) :
    ∀ item ∈ items, check item = .ok () := by
  induction items with
  | nil =>
      exact fun item member => absurd member List.not_mem_nil
  | cons first items inductionHypothesis =>
      change (check first >>= fun _ => items.forM check) = .ok () at checked
      obtain ⟨_, isFirst, rest⟩ := bind_eq_ok.1 checked
      exact List.forall_mem_cons.2 ⟨isFirst, inductionHypothesis rest⟩

/-- What is known of a result when there is one. -/
theorem Within.meets
    {post : α → Prop}
    (within : Within allowed run)
    (holds : ∀ value, run = .ok value → post value) :
    Meets allowed run post := by
  cases run with
  | ok value => exact holds value rfl
  | error fault => exact within

/-- A fold returns when every step that it gets to does. -/
theorem within_foldlM
    {step : σ → α → Checked σ}
    {state : σ} :
    Within allowed (items.foldlM step state) ↔
      Along step (fun reached item => Within allowed (step reached item)) state
        items := by
  induction items generalizing state with
  | nil =>
      exact ⟨fun _ => trivial, fun _ => within_ok state⟩
  | cons item items inductionHypothesis =>
      rw [List.foldlM_cons, within_bind]
      simp only [inductionHypothesis]
      rfl

theorem Completes.exists_ok
    (completes : Completes run) :
    ∃ value, run = .ok value := by
  obtain ⟨value, returned, _⟩ := Except.Meets.exists_ok completes
  exact ⟨value, returned⟩

theorem returns_fail
    (code : JxlError) :
    Returns (fail code : Checked α) :=
  ⟨code, rfl⟩

theorem not_returns_trap :
    ¬Returns (.error .trap : Checked α) := by
  rintro ⟨code, stopped⟩
  cases stopped

theorem not_returns_running :
    ¬Returns (.error .running : Checked α) := by
  rintro ⟨code, stopped⟩
  cases stopped

end

end Jxlz
