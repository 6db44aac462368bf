import Mathlib.Data.List.Basic

/-!
# Searching with a test that may raise

A loop that returns the first item its test accepts. Items behind that one are not tested, so a
test that raises ends the loop only if nothing before it was accepted.
-/
namespace MegooPM.Lib

variable {α : Type} (test : α → Option Bool)

/-- The test answers of every item up to the first that it accepts. -/
def AnswersUntil (items : List α) : Prop :=
  ∀ before item after, items = before ++ item :: after →
    (∀ earlier ∈ before, test earlier ≠ some true) → test item ≠ none

variable {test} {item : α} {rest : List α}

/-- An item that raises is reached. -/
theorem not_answersUntil_cons (raises : test item = none) : ¬AnswersUntil test (item :: rest) :=
  fun answers => answers [] item rest rfl (List.forall_mem_nil _) raises

/-- Behind an accepted item nothing is tested. -/
theorem answersUntil_cons_accepted (accepted : test item = some true) :
    AnswersUntil test (item :: rest) := by
  intro before other after split passed
  cases before with
  | nil =>
    cases split
    rw [accepted]
    exact Option.some_ne_none _
  | cons first before =>
    cases split
    exact absurd accepted (passed item (List.mem_cons_self ..))

theorem answersUntil_cons_passed (passed : test item = some false) :
    AnswersUntil test (item :: rest) ↔ AnswersUntil test rest := by
  have declined : test item ≠ some true := by
    rw [passed]
    decide
  constructor
  · intro answers before other after split unmatched
    exact answers (item :: before) other after (by rw [split, List.cons_append])
      (List.forall_mem_cons.mpr ⟨declined, unmatched⟩)
  · intro answers before other after split unmatched
    cases before with
    | nil =>
      cases split
      rw [passed]
      exact Option.some_ne_none _
    | cons first before =>
      cases split
      exact answers before other after rfl (List.forall_mem_cons.mp unmatched).2

/-- The search returns exactly if the test answers as far as it goes. -/
theorem findM?_ne_none_iff (items : List α) :
    items.findM? test ≠ none ↔ AnswersUntil test items := by
  induction items with
  | nil =>
    refine iff_of_true (Option.some_ne_none _) fun before item after split => ?_
    exact absurd split.symm (List.append_ne_nil_of_right_ne_nil _ (List.cons_ne_nil _ _))
  | cons item rest ih =>
    rw [List.findM?]
    cases tested : test item with
    | none => exact iff_of_false (fun returns => returns rfl) (not_answersUntil_cons tested)
    | some accepts =>
      cases accepts with
      | true => exact iff_of_true (Option.some_ne_none _) (answersUntil_cons_accepted tested)
      | false => exact ih.trans (answersUntil_cons_passed tested).symm

/-- What is found is one of the items, and the test has accepted it. -/
theorem of_findM?_eq_some {items : List α} (found : items.findM? test = some (some item)) :
    item ∈ items ∧ test item = some true := by
  induction items with
  | nil => cases found
  | cons first rest ih =>
    rw [List.findM?] at found
    cases tested : test first with
    | none =>
      rw [tested] at found
      cases found
    | some accepts =>
      rw [tested] at found
      cases accepts with
      | true =>
        cases found
        exact ⟨List.mem_cons_self .., tested⟩
      | false => exact (ih found).imp_left (List.mem_cons_of_mem _)

end MegooPM.Lib
