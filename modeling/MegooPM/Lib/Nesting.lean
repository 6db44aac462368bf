import Mathlib.Data.List.Basic

/-!
# Marks that nest

Marks that open and close labels. A sequence of them nests when a grammar derives it, which
is when a stack reads it: every closing mark takes the label opened last, and at the end no
label is open.
-/
namespace MegooPM.Lib

variable {α : Type*}

inductive Mark (α : Type*) where
  | opening (label : α)
  | closing (label : α)
  deriving DecidableEq, Repr

/-- Balanced and properly nested. -/
inductive Nested : List (Mark α) → Prop where
  | nil : Nested []
  | element (label : α) {inside rest : List (Mark α)} : Nested inside → Nested rest →
      Nested (.opening label :: inside ++ .closing label :: rest)

/-- The labels left open, the last one first; `none` where a closing mark does not fit. -/
def unwind [DecidableEq α] : List α → List (Mark α) → Option (List α)
  | stack, [] => some stack
  | stack, .opening label :: rest => unwind (label :: stack) rest
  | [], .closing _ :: _ => none
  | top :: stack, .closing label :: rest => if top = label then unwind stack rest else none

theorem Nested.append {first second : List (Mark α)} (left : Nested first)
    (right : Nested second) : Nested (first ++ second) := by
  induction left with
  | nil => exact right
  | element label inner outer _ ih =>
    simpa [List.append_assoc] using Nested.element label inner ih

/-- The marks close the labels of a stack one after the other, with nested parts between. -/
inductive Closes : List α → List (Mark α) → Prop where
  | empty {marks : List (Mark α)} : Nested marks → Closes [] marks
  | label {label : α} {stack : List α} {inside rest : List (Mark α)} : Nested inside →
      Closes stack rest → Closes (label :: stack) (inside ++ .closing label :: rest)

theorem Closes.prepend {stack : List α} {first rest : List (Mark α)} (nested : Nested first)
    (closes : Closes stack rest) : Closes stack (first ++ rest) := by
  cases closes with
  | empty whole => exact .empty (nested.append whole)
  | label inside outer =>
    rw [← List.append_assoc]
    exact .label (nested.append inside) outer

section
variable [DecidableEq α]

/-- Nested marks leave the stack as it was. -/
theorem Nested.unwind_append {marks : List (Mark α)} (nested : Nested marks) (stack : List α)
    (rest : List (Mark α)) : unwind stack (marks ++ rest) = unwind stack rest := by
  induction nested generalizing stack rest with
  | nil => rfl
  | element label inner outer inside after =>
    rw [List.append_assoc, List.cons_append, List.cons_append, unwind, inside, unwind,
      if_pos rfl, after]

theorem Closes.of_unwind {stack : List α} {marks : List (Mark α)}
    (read : unwind stack marks = some []) : Closes stack marks := by
  induction marks generalizing stack with
  | nil =>
    obtain rfl : stack = [] := by simpa [unwind] using read
    exact .empty .nil
  | cons mark rest ih =>
    cases mark with
    | opening label =>
      -- the part that closes this label, with the label around it, is one more nested part
      have closes : Closes (label :: stack) rest := ih read
      cases closes with
      | @label _ _ inside after inner outer =>
        have nested := Nested.element label inner .nil
        simpa [List.append_assoc] using outer.prepend nested
    | closing label =>
      cases stack with
      | nil => simp [unwind] at read
      | cons top stack =>
        rw [unwind] at read
        split at read
        next same =>
          subst same
          exact Closes.label .nil (ih read)
        next => cases read

theorem nested_iff_unwind {marks : List (Mark α)} :
    Nested marks ↔ unwind [] marks = some [] := by
  constructor
  · intro nested
    simpa [unwind] using nested.unwind_append [] []
  · intro read
    cases Closes.of_unwind read with
    | empty nested => exact nested

end

end MegooPM.Lib
