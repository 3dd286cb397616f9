import Mathlib

namespace FuelLoop

/-!
# Loops that end by a step of their own

`run step` repeats a step that either goes on with a new state or ends with a
result.  The fuel only bounds the number of rounds: a run that ends does so
with any more fuel, too.  Nothing here depends on what the step does.
-/

variable {ε σ τ : Type}

/-- Rounds of a loop, at most as many as the fuel. -/
def run
    (step : σ → Except ε (σ ⊕ τ))
    (exhausted : ε) :
    Nat → σ → Except ε τ
  | 0, _ => .error exhausted
  | fuel + 1, state =>
      match step state with
      | .error fault => .error fault
      | .ok (.inl next) => run step exhausted fuel next
      | .ok (.inr result) => .ok result

/-- A number of rounds that all go on. -/
inductive Rounds
    (step : σ → Except ε (σ ⊕ τ)) :
    Nat → σ → σ → Prop where
  | refl
      (state : σ) :
      Rounds step 0 state state
  | head
      {count : Nat}
      {state next last : σ}
      (first : step state = .ok (.inl next))
      (rest : Rounds step count next last) :
      Rounds step (count + 1) state last

variable {step : σ → Except ε (σ ⊕ τ)}
variable {exhausted : ε}

theorem Rounds.one
    {state next : σ}
    (first : step state = .ok (.inl next)) :
    Rounds step 1 state next :=
  .head first (.refl next)

theorem Rounds.trans
    {first second : Nat}
    {state middle last : σ}
    (before : Rounds step first state middle)
    (later : Rounds step second middle last) :
    Rounds step (first + second) state last := by
  induction before with
  | refl state =>
      rwa [Nat.zero_add]
  | head first rest inductionHypothesis =>
      rw [Nat.add_right_comm]
      exact .head first (inductionHypothesis later)

/-- Rounds take their number off the fuel. -/
theorem Rounds.run_eq
    {count : Nat}
    {state last : σ}
    (rounds : Rounds step count state last)
    (fuel : Nat) :
    run step exhausted (fuel + count) state = run step exhausted fuel last := by
  induction rounds with
  | refl state =>
      rfl
  | head first rest inductionHypothesis =>
      rw [← Nat.add_assoc, run, first]
      exact inductionHypothesis

/-- A loop that gets to a step that ends it returns its result. -/
theorem Rounds.run_ok
    {count fuel : Nat}
    {state last : σ}
    {result : τ}
    (rounds : Rounds step count state last)
    (ends : step last = .ok (.inr result))
    (enough : count < fuel) :
    run step exhausted fuel state = .ok result := by
  obtain ⟨left, rfl⟩ := Nat.exists_eq_add_of_lt enough
  rw [show count + left + 1 = left + 1 + count by omega, rounds.run_eq, run,
    ends]

/-- A loop that gets to a step that fails fails with it. -/
theorem Rounds.run_error
    {count fuel : Nat}
    {state last : σ}
    {fault : ε}
    (rounds : Rounds step count state last)
    (ends : step last = .error fault)
    (enough : count < fuel) :
    run step exhausted fuel state = .error fault := by
  obtain ⟨left, rfl⟩ := Nat.exists_eq_add_of_lt enough
  rw [show count + left + 1 = left + 1 + count by omega, rounds.run_eq, run,
    ends]

/-- What every round preserves holds of the state that ends the loop. -/
theorem run_invariant
    {fuel : Nat}
    {state : σ}
    {result : τ}
    (invariant : σ → Prop)
    (ran : run step exhausted fuel state = .ok result)
    (initially : invariant state)
    (preserved :
      ∀ before after,
        invariant before → step before = .ok (.inl after) → invariant after) :
    ∃ last, invariant last ∧ step last = .ok (.inr result) := by
  induction fuel generalizing state with
  | zero =>
      cases ran
  | succ fuel inductionHypothesis =>
      rw [run] at ran
      cases stepped : step state with
      | error fault =>
          rw [stepped] at ran
          cases ran
      | ok outcome =>
          rw [stepped] at ran
          cases outcome with
          | inl next =>
              exact inductionHypothesis ran
                (preserved state next initially stepped)
          | inr final =>
              cases ran
              exact ⟨state, initially, stepped⟩

/--
A loop is good exactly when each state that it gets to allows the next round:
a round that is allowed comes closer to the end, and one that is not spoils the
whole run.
-/
theorem run_iff
    {good : Except ε τ → Prop}
    {invariant fits : σ → Prop}
    {measure : σ → Nat}
    (goesOn :
      ∀ before after,
        invariant before →
        fits before →
        step before = .ok (.inl after) →
        invariant after ∧ measure after < measure before)
    (ends :
      ∀ last result,
        invariant last →
        fits last → step last = .ok (.inr result) → good (.ok result))
    (fails :
      ∀ last fault,
        invariant last →
        fits last → step last = .error fault → good (.error fault))
    (spoils :
      ∀ last fuel,
        invariant last → ¬fits last → ¬good (run step exhausted fuel last))
    {fuel : Nat}
    {state : σ}
    (initially : invariant state)
    (enough : measure state < fuel) :
    good (run step exhausted fuel state) ↔
      ∀ count last, Rounds step count state last → fits last := by
  induction fuel generalizing state with
  | zero =>
      exact absurd enough (Nat.not_lt_zero _)
  | succ fuel inductionHypothesis =>
      by_cases here : fits state
      · rw [run]
        cases stepped : step state with
        | error fault =>
            refine ⟨fun _ => ?_, fun _ => fails _ fault initially here stepped⟩
            intro count last rounds
            cases rounds with
            | refl =>
                exact here
            | head first rest =>
                rw [stepped] at first
                cases first
        | ok outcome =>
            cases outcome with
            | inr result =>
                refine ⟨fun _ => ?_, fun _ => ends _ result initially here stepped⟩
                intro count last rounds
                cases rounds with
                | refl =>
                    exact here
                | head first rest =>
                    rw [stepped] at first
                    cases first
            | inl next =>
                obtain ⟨kept, closer⟩ := goesOn _ next initially here stepped
                have later : measure next < fuel := by
                  omega
                constructor
                · intro isGood count last rounds
                  cases rounds with
                  | refl =>
                      exact here
                  | head first rest =>
                      rw [stepped] at first
                      cases first
                      exact (inductionHypothesis kept later).1 isGood _ _ rest
                · intro always
                  refine (inductionHypothesis kept later).2 ?_
                  intro count last rounds
                  exact always _ _ (.head stepped rounds)
      · constructor
        · intro isGood
          exact (spoils state _ initially here isGood).elim
        · intro always
          exact (here (always 0 state (.refl state))).elim

end FuelLoop
