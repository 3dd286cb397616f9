import Jxlz.Base.Checked

namespace Jxlz

/-!
# Searches

The loops that leave as soon as an item answers.  A test can fail, and the items
behind the answer are not tested.
-/

/-- Whether every item passes a test; the first that does not ends the loop. -/
def allOf
    {α : Type}
    (test : α → Checked Bool) :
    List α → Checked Bool
  | [] => .ok true
  | item :: rest => do
      let passed ← test item
      if passed then allOf test rest else return false

/-- The first item that passes a test. -/
def firstOf
    {α : Type}
    (test : α → Checked Bool) :
    List α → Checked (Option α)
  | [] => .ok none
  | item :: rest => do
      let passed ← test item
      if passed then return some item else firstOf test rest

/-- Every item of a successful loop passed. -/
theorem test_of_allOf
    {α : Type}
    {test : α → Checked Bool}
    {items : List α}
    (passed : allOf test items = .ok true) :
    ∀ item ∈ items, test item = .ok true := by
  induction items with
  | nil =>
      intro item member
      cases member
  | cons head rest inductionHypothesis =>
      obtain ⟨answer, isAnswer, ran⟩ := bind_eq_ok.1 passed
      cases answer with
      | false =>
          cases ran
      | true =>
          intro item member
          rcases List.mem_cons.1 member with rfl | inRest
          · exact isAnswer
          · exact inductionHypothesis ran item inRest

/-- The item that is found is one of the list and passes. -/
theorem test_of_firstOf
    {α : Type}
    {test : α → Checked Bool}
    {items : List α}
    {found : α}
    (searched : firstOf test items = .ok (some found)) :
    found ∈ items ∧ test found = .ok true := by
  induction items with
  | nil =>
      cases searched
  | cons head rest inductionHypothesis =>
      obtain ⟨answer, isAnswer, ran⟩ := bind_eq_ok.1 searched
      cases answer with
      | true =>
          cases ran
          exact ⟨List.mem_cons_self, isAnswer⟩
      | false =>
          obtain ⟨member, passed⟩ := inductionHypothesis ran
          exact ⟨List.mem_cons_of_mem _ member, passed⟩

end Jxlz
