import Mathlib.Data.List.Basic

/-!
# First fit

Spans of places are offered one after the other; a span is taken if it overlaps none that was
taken before.
-/
namespace MegooPM.Lib

/-- Some places in a row. -/
structure Span where
  start : Nat
  length : Nat
  deriving DecidableEq, Repr

namespace Span

def places (s : Span) : List Nat :=
  List.range' s.start s.length

theorem mem_places {s : Span} {i : Nat} : i ∈ s.places ↔ s.start ≤ i ∧ i < s.start + s.length :=
  List.mem_range'_1

/-- The spans share a place. -/
def overlaps (s t : Span) : Bool :=
  s.places.any fun i => i ∈ t.places

theorem overlaps_iff {s t : Span} : s.overlaps t = true ↔ ∃ i ∈ s.places, i ∈ t.places := by
  simp only [overlaps, List.any_eq_true, decide_eq_true_eq]

end Span

/-- One span is offered. -/
def fit (taken : List Span) (s : Span) : List Span :=
  if taken.any s.overlaps then taken else taken ++ [s]

/-- What is taken once all have been offered. -/
def firstFit (taken spans : List Span) : List Span :=
  spans.foldl fit taken

variable {taken spans later : List Span} {s t : Span}

theorem firstFit_append : firstFit taken (spans ++ later) = firstFit (firstFit taken spans) later :=
  List.foldl_append

theorem fit_apart (apart : ∀ t ∈ taken, s.overlaps t = false) : fit taken s = taken ++ [s] := by
  rw [fit, if_neg]
  intro any
  obtain ⟨t, member, both⟩ := List.any_eq_true.mp any
  rw [apart t member] at both
  cases both

theorem fit_overlapping (member : t ∈ taken) (both : s.overlaps t = true) : fit taken s = taken :=
  if_pos (List.any_eq_true.mpr ⟨t, member, both⟩)

/-- What is taken stays taken. -/
theorem subset_firstFit (member : t ∈ taken) : t ∈ firstFit taken spans := by
  induction spans generalizing taken with
  | nil => exact member
  | cons s spans ih =>
    refine ih ?_
    unfold fit
    split
    · exact member
    · exact List.mem_append_left _ member

theorem mem_firstFit (member : t ∈ firstFit taken spans) : t ∈ taken ∨ t ∈ spans := by
  induction spans generalizing taken with
  | nil => exact Or.inl member
  | cons s spans ih =>
    rcases ih member with before | after
    · unfold fit at before
      split at before
      · exact Or.inl before
      · rcases List.mem_append.mp before with old | new
        · exact Or.inl old
        · exact Or.inr (List.mem_singleton.mp new ▸ List.mem_cons_self ..)
    · exact Or.inr (List.mem_cons_of_mem _ after)

/-- No place of one is a place of the other. -/
def Span.Apart (s t : Span) : Prop :=
  ∀ i ∈ s.places, i ∉ t.places

instance : Std.Symm Span.Apart where
  symm _ _ apart i inside there := apart i there inside

/-- The spans that are taken share no place. -/
theorem pairwise_firstFit (apart : taken.Pairwise Span.Apart) :
    (firstFit taken spans).Pairwise Span.Apart := by
  induction spans generalizing taken with
  | nil => exact apart
  | cons s spans ih =>
    refine ih ?_
    unfold fit
    split
    · exact apart
    next free =>
      refine List.pairwise_append.mpr ⟨apart, List.pairwise_singleton .., fun t member u new => ?_⟩
      cases List.mem_singleton.mp new
      intro i inside there
      exact free (List.any_eq_true.mpr ⟨t, member, Span.overlaps_iff.mpr ⟨i, there, inside⟩⟩)

/-- Spans that have no place left change nothing. -/
theorem firstFit_overlapping (full : ∀ s ∈ spans, ∃ t ∈ taken, s.overlaps t = true) :
    firstFit taken spans = taken := by
  induction spans with
  | nil => rfl
  | cons s spans ih =>
    obtain ⟨t, member, both⟩ := full s (List.mem_cons_self ..)
    have others := ih fun other inside => full other (List.mem_cons_of_mem _ inside)
    rw [firstFit, List.foldl_cons, fit_overlapping member both]
    exact others

end MegooPM.Lib
