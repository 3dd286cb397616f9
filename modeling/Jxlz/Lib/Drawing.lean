import Jxlz.Lib.Meets

namespace Drawing

open Except (Meets)

/-!
# Computations that draw from a source

A computation draws values from a source, which is its state, and may fail.  What is
drawn is unknown; what is proved of the result holds for every sequence of draws.
-/

variable {ε σ α β ι : Type}

/--
From every good source the computation fails in an allowed way, or gives a value with
the postcondition and leaves a good source.
-/
def Draws
    (allowed : ε → Prop)
    (good : σ → Prop)
    (run : StateT σ (Except ε) α)
    (post : α → Prop) :
    Prop :=
  ∀ source,
    good source →
    Meets allowed (run.run source) fun result => post result.1 ∧ good result.2

variable {allowed : ε → Prop} {good : σ → Prop}

theorem Draws.bind
    {run : StateT σ (Except ε) α}
    {next : α → StateT σ (Except ε) β}
    {middle : α → Prop}
    {post : β → Prop}
    (first : Draws allowed good run middle)
    (second : ∀ value, middle value → Draws allowed good (next value) post) :
    Draws allowed good (run >>= next) post := by
  intro source isGood
  rw [StateT.run_bind]
  refine (first source isGood).bind fun result holds => ?_
  exact second result.1 holds.1 result.2 holds.2

theorem Draws.mono
    {run : StateT σ (Except ε) α}
    {strong weak : α → Prop}
    (draws : Draws allowed good run strong)
    (implies : ∀ value, strong value → weak value) :
    Draws allowed good run weak := by
  intro source isGood
  refine (draws source isGood).mono ?_
  rintro result ⟨holds, stays⟩
  exact ⟨implies result.1 holds, stays⟩

end Drawing
