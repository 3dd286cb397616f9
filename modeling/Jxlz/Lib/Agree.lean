import Mathlib

/-!
# Two runs side by side

Two fallible computations agree up to a relation on their results when both
fail with the same error or both succeed with related results.  The rules below
follow the shape of a program: sequencing, and loops over a list or over the
rows and columns of a rectangle.
-/

/-- Both computations fail alike, or both succeed with related results. -/
inductive Agree {ε α β : Type}
    (related : α → β → Prop) :
    Except ε α → Except ε β → Prop where
  | ok {left : α} {right : β} :
      related left right → Agree related (.ok left) (.ok right)
  | error (fault : ε) :
      Agree related (.error fault) (.error fault)

/-- A loop over the columns of each row, with a step before every row. -/
def forPixels {ε α : Type}
    (height width : Nat)
    (startRow : Nat → α → Except ε α)
    (pixel : Nat → Nat → α → Except ε α)
    (start : α) :
    Except ε α :=
  (List.range height).foldlM
    (fun state y => do
      let state ← startRow y state
      (List.range width).foldlM (fun state x => pixel y x state) state)
    start

namespace Agree

variable {ε α β γ δ ι : Type}

/-- A computation agrees with itself. -/
theorem refl
    {related : α → α → Prop}
    (reflexive : ∀ value, related value value)
    (computation : Except ε α) :
    Agree related computation computation := by
  cases computation with
  | error fault =>
      exact .error fault
  | ok value =>
      exact .ok (reflexive value)

/-- Agreement up to equality is equality. -/
theorem eq
    {left right : Except ε α}
    (agree : Agree Eq left right) :
    left = right := by
  cases agree with
  | ok same =>
      rw [same]
  | error fault =>
      rfl

/-- A weaker relation. -/
theorem mono
    {related weaker : α → β → Prop}
    {left : Except ε α}
    {right : Except ε β}
    (agree : Agree related left right)
    (weaken : ∀ first second, related first second → weaker first second) :
    Agree weaker left right := by
  cases agree with
  | ok related =>
      exact .ok (weaken _ _ related)
  | error fault =>
      exact .error fault

/-- Sequencing. -/
theorem bind
    {related : α → β → Prop}
    {relatedAfter : γ → δ → Prop}
    {left : Except ε α}
    {right : Except ε β}
    {leftNext : α → Except ε γ}
    {rightNext : β → Except ε δ}
    (agree : Agree related left right)
    (next :
      ∀ first second,
        related first second →
        Agree relatedAfter (leftNext first) (rightNext second)) :
    Agree relatedAfter (left >>= leftNext) (right >>= rightNext) := by
  cases agree with
  | ok related =>
      exact next _ _ related
  | error fault =>
      exact .error fault

/-- Both sides do the same first. -/
theorem bind_same
    {relatedAfter : γ → δ → Prop}
    (first : Except ε α)
    {leftNext : α → Except ε γ}
    {rightNext : α → Except ε δ}
    (next :
      ∀ value,
        first = .ok value →
        Agree relatedAfter (leftNext value) (rightNext value)) :
    Agree relatedAfter (first >>= leftNext) (first >>= rightNext) := by
  cases first with
  | ok value =>
      exact next value rfl
  | error fault =>
      exact .error fault

/-- A loop over a list, whose steps agree. -/
theorem foldlM
    {related : α → β → Prop}
    {leftStep : α → ι → Except ε α}
    {rightStep : β → ι → Except ε β}
    (items : List ι)
    (step :
      ∀ item ∈ items,
        ∀ first second,
          related first second →
          Agree related (leftStep first item) (rightStep second item))
    {left : α}
    {right : β}
    (start : related left right) :
    Agree related
      (items.foldlM leftStep left)
      (items.foldlM rightStep right) := by
  induction items generalizing left right with
  | nil =>
      exact .ok start
  | cons item rest inductionHypothesis =>
      simp only [List.foldlM_cons]
      apply bind (step item List.mem_cons_self left right start)
      intro first second related
      exact
        inductionHypothesis
          (fun other member => step other (List.mem_cons_of_mem _ member))
          related

/-- A loop over rows and columns, whose steps agree. -/
theorem forPixels_agree
    {betweenRows withinRow : α → β → Prop}
    {height width : Nat}
    {leftStart : Nat → α → Except ε α}
    {rightStart : Nat → β → Except ε β}
    {leftPixel : Nat → Nat → α → Except ε α}
    {rightPixel : Nat → Nat → β → Except ε β}
    (startRow :
      ∀ y, y < height →
        ∀ first second,
          betweenRows first second →
          Agree withinRow (leftStart y first) (rightStart y second))
    (pixel :
      ∀ y, y < height →
        ∀ x, x < width →
        ∀ first second,
          withinRow first second →
          Agree withinRow (leftPixel y x first) (rightPixel y x second))
    (endRow :
      ∀ first second, withinRow first second → betweenRows first second)
    {left : α}
    {right : β}
    (start : betweenRows left right) :
    Agree betweenRows
      (forPixels height width leftStart leftPixel left)
      (forPixels height width rightStart rightPixel right) := by
  apply foldlM _ _ start
  intro y inHeight first second related
  apply bind (startRow y (List.mem_range.1 inHeight) first second related)
  intro first second related
  refine mono ?_ endRow
  apply foldlM _ _ related
  intro x inWidth first second related
  exact
    pixel y (List.mem_range.1 inHeight) x (List.mem_range.1 inWidth) first
      second related

end Agree

namespace Except

/-!
# Objects that answer calls

A step takes a state and a call and returns an answer and the next state, or
fails.  `answers` is the run of a list of calls.  `answers_lockstep` says that
two objects which answer every permitted call alike, and stay related, answer
every permitted run alike; `answers_agree` is for calls that may fail alike.
-/

variable {ε σ τ α β γ : Type}

/-- The answers to a list of calls, and the state behind the last one. -/
def answers
    (step : σ → α → Except ε (β × σ)) :
    σ → List α → Except ε (List β × σ)
  | state, [] => return ([], state)
  | state, call :: calls => do
      let (answer, next) ← step state call
      let (later, last) ← answers step next calls
      return (answer :: later, last)

/-- Every call of a run is permitted in the state that it meets. -/
def Permitted
    (step : σ → α → Except ε (β × σ))
    (allows : σ → α → Prop) :
    σ → List α → Prop
  | _, [] => True
  | state, call :: calls =>
      allows state call ∧
        ∀ answer next,
          step state call = .ok (answer, next) →
          Permitted step allows next calls

variable {step : σ → α → Except ε (β × σ)}

/-- A run whose first call succeeds is the first answer before the others. -/
theorem answers_cons
    {state next last : σ}
    {call : α}
    {calls : List α}
    {answer : β}
    {later : List β}
    (first : step state call = .ok (answer, next))
    (rest : answers step next calls = .ok (later, last)) :
    answers step state (call :: calls) = .ok (answer :: later, last) := by
  rw [answers, first]
  show (answers step next calls >>= _) = _
  rw [rest]
  rfl

/-- Calls that no state forbids make up a permitted run. -/
theorem permitted_of_forall
    {allows : σ → α → Prop}
    {calls : List α}
    (always : ∀ call ∈ calls, ∀ state, allows state call)
    (state : σ) :
    Permitted step allows state calls := by
  induction calls generalizing state with
  | nil =>
      trivial
  | cons call calls inductionHypothesis =>
      refine ⟨always call List.mem_cons_self state, ?_⟩
      intro answer next _
      exact inductionHypothesis
        (fun later isLater => always later (List.mem_cons_of_mem call isLater))
        next

/--
Two objects that answer permitted calls alike, in the sense of `agree`, answer
permitted runs alike.
-/
theorem answers_lockstep
    {reference : τ → α → Except ε (γ × τ)}
    {allows : σ → α → Prop}
    {related : σ → τ → Prop}
    {agree : β → γ → Prop}
    (alike :
      ∀ state other call,
        related state other →
        allows state call →
        ∃ answer next expected otherNext,
          step state call = .ok (answer, next) ∧
            reference other call = .ok (expected, otherNext) ∧
            agree answer expected ∧ related next otherNext)
    {state : σ}
    {other : τ}
    {calls : List α}
    (start : related state other)
    (permitted : Permitted step allows state calls) :
    ∃ given last expected otherLast,
      answers step state calls = .ok (given, last) ∧
        answers reference other calls = .ok (expected, otherLast) ∧
        List.Forall₂ agree given expected ∧ related last otherLast := by
  induction calls generalizing state other with
  | nil =>
      exact ⟨[], state, [], other, rfl, rfl, .nil, start⟩
  | cons call calls inductionHypothesis =>
      obtain ⟨here, later⟩ := permitted
      obtain ⟨answer, next, expected, otherNext, answered, otherAnswered,
        agrees, stillRelated⟩ :=
        alike state other call start here
      obtain ⟨given, last, others, otherLast, ran, otherRan, allAgree,
        related⟩ :=
        inductionHypothesis stillRelated (later answer next answered)
      exact ⟨answer :: given, last, expected :: others, otherLast,
        answers_cons answered ran, answers_cons otherAnswered otherRan,
        .cons agrees allAgree, related⟩

/--
Two objects whose calls agree, for as many calls as are left, answer a run of
that many calls alike or fail alike.
-/
theorem answers_agree
    {reference : τ → α → Except ε (β × τ)}
    {related : Nat → σ → τ → Prop}
    (alike :
      ∀ left state other call,
        related (left + 1) state other →
        Agree
          (fun first second =>
            first.1 = second.1 ∧ related left first.2 second.2)
          (step state call) (reference other call))
    {state : σ}
    {other : τ}
    {calls : List α}
    (start : related calls.length state other) :
    Agree
      (fun first second => first.1 = second.1 ∧ related 0 first.2 second.2)
      (answers step state calls) (answers reference other calls) := by
  induction calls generalizing state other with
  | nil =>
      exact .ok ⟨rfl, start⟩
  | cons call calls inductionHypothesis =>
      rw [answers, answers]
      refine (alike _ _ _ call start).bind ?_
      rintro ⟨answer, next⟩ ⟨sameAnswer, otherNext⟩ ⟨rfl, stillRelated⟩
      refine (inductionHypothesis stillRelated).bind ?_
      rintro ⟨later, last⟩ ⟨sameLater, otherLast⟩ ⟨rfl, atEnd⟩
      exact .ok ⟨rfl, atEnd⟩

end Except
