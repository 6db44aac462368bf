import Mathlib.Data.List.Infix

/-!
# Frames in a stream

A stream of frames, each ended by a separator, that is read in chunks which may end anywhere.
What is complete is taken off the front of a buffer; the rest waits for the next chunk.
-/
namespace MegooPM.Lib

variable {α : Type} [DecidableEq α]

/-- What stands before the first separator and what behind it. -/
def cutAt (sep : List α) : List α → Option (List α × List α)
  | [] => none
  | a :: rest =>
    if sep.isPrefixOf (a :: rest) then some ([], (a :: rest).drop sep.length)
    else (cutAt sep rest).map fun (frame, behind) => (a :: frame, behind)

/-- At most so many frames off the front of a buffer, and what is left of it. -/
def takeFramesFrom (sep : List α) : Nat → List α → List (List α) × List α
  | 0, buffer => ([], buffer)
  | fuel + 1, buffer =>
    match cutAt sep buffer with
    | none => ([], buffer)
    | some (frame, rest) =>
      let (frames, left) := takeFramesFrom sep fuel rest
      (frame :: frames, left)

/-- The complete frames of a buffer and the part of a frame behind them. -/
def takeFrames (sep buffer : List α) : List (List α) × List α :=
  takeFramesFrom sep buffer.length buffer

/-- The separator behind the frame is the first. -/
def Framable (sep frame : List α) : Prop :=
  cutAt sep (frame ++ sep) = some (frame, [])

section Cut

variable {sep buffer frame rest : List α}

theorem cutAt_eq (cut : cutAt sep buffer = some (frame, rest)) : buffer = frame ++ sep ++ rest := by
  induction buffer generalizing frame with
  | nil => cases cut
  | cons a buffer ih =>
    rw [cutAt] at cut
    split at cut
    next found =>
      obtain ⟨behind, split⟩ := List.isPrefixOf_iff_prefix.mp found
      cases cut
      rw [List.nil_append, ← split, List.drop_left]
    next =>
      obtain ⟨⟨front, behind⟩, cut, same⟩ := Option.map_eq_some_iff.mp cut
      cases same
      rw [ih cut]
      rfl

/-- What follows does not move the first separator. -/
theorem cutAt_append (cut : cutAt sep buffer = some (frame, rest)) (more : List α) :
    cutAt sep (buffer ++ more) = some (frame, rest ++ more) := by
  induction buffer generalizing frame with
  | nil => cases cut
  | cons a buffer ih =>
    rw [cutAt] at cut
    rw [List.cons_append, cutAt]
    split at cut
    next found =>
      have inside := List.isPrefixOf_iff_prefix.mp found
      have found' : sep.isPrefixOf (a :: (buffer ++ more)) = true :=
        List.isPrefixOf_iff_prefix.mpr (inside.trans (List.prefix_append (a :: buffer) more))
      cases cut
      rw [if_pos found', ← List.cons_append, List.drop_append_of_le_length inside.length_le]
    next other =>
      obtain ⟨⟨front, behind⟩, cut, same⟩ := Option.map_eq_some_iff.mp cut
      cases same
      -- the buffer holds a whole separator further on, so the one that begins here is inside it
      have other' : ¬sep.isPrefixOf (a :: (buffer ++ more)) = true := by
        intro found
        have inside : sep <+: a :: buffer := by
          refine List.prefix_of_prefix_length_le (List.isPrefixOf_iff_prefix.mp found)
            (List.prefix_append (a :: buffer) more) ?_
          rw [cutAt_eq cut]
          simp only [List.length_cons, List.length_append]
          omega
        exact other (List.isPrefixOf_iff_prefix.mpr inside)
      rw [if_neg other', ih cut]
      rfl

theorem length_of_cutAt (proper : sep ≠ []) (cut : cutAt sep buffer = some (frame, rest)) :
    rest.length < buffer.length := by
  have some_ := List.length_pos_iff.mpr proper
  rw [cutAt_eq cut]
  simp only [List.length_append]
  omega

theorem Framable.cutAt (framable : Framable sep frame) (rest : List α) :
    cutAt sep (frame ++ sep ++ rest) = some (frame, rest) :=
  cutAt_append framable rest

/-- A frame in which no separator can begin. -/
theorem framable_of_notMem {s : α} {others : List α} (absent : s ∉ frame) :
    Framable (s :: others) frame := by
  induction frame with
  | nil =>
    have found : (s :: others).isPrefixOf (s :: others) = true :=
      List.isPrefixOf_iff_prefix.mpr (List.prefix_refl _)
    rw [Framable, List.nil_append, Lib.cutAt, if_pos found, List.drop_length]
  | cons a frame ih =>
    have apart : s ≠ a := fun same => absent (same ▸ List.mem_cons_self ..)
    have other : ¬(s :: others).isPrefixOf (a :: (frame ++ s :: others)) = true := by
      rw [List.isPrefixOf_iff_prefix, List.cons_prefix_cons]
      exact fun found => apart found.1
    have later : Lib.cutAt (s :: others) (frame ++ s :: others) = some (frame, []) :=
      ih fun member => absent (List.mem_cons_of_mem _ member)
    rw [Framable, List.cons_append, Lib.cutAt, if_neg other, later]
    rfl

end Cut

section Frames

variable {sep buffer frame rest : List α}

theorem takeFramesFrom_of_none (fuel : Nat) (cut : cutAt sep buffer = none) :
    takeFramesFrom sep fuel buffer = ([], buffer) := by
  cases fuel with
  | zero => rfl
  | succ fuel => rw [takeFramesFrom, cut]

/-- The length of the buffer is enough fuel. -/
theorem takeFramesFrom_enough (proper : sep ≠ []) {fuel : Nat} (enough : buffer.length ≤ fuel) :
    takeFramesFrom sep fuel buffer = takeFrames sep buffer := by
  have more : ∀ n fuel, n ≤ fuel → ∀ buffer : List α, buffer.length ≤ n →
      takeFramesFrom sep fuel buffer = takeFramesFrom sep n buffer := by
    intro n
    induction n with
    | zero =>
      intro fuel _ buffer short
      rw [List.length_eq_zero_iff.mp (Nat.le_zero.mp short)]
      exact (takeFramesFrom_of_none fuel rfl).trans (takeFramesFrom_of_none 0 rfl).symm
    | succ n ih =>
      intro fuel enough buffer short
      obtain ⟨fuel, rfl⟩ : ∃ k, fuel = k + 1 := ⟨fuel - 1, by omega⟩
      rw [takeFramesFrom, takeFramesFrom]
      cases cut : cutAt sep buffer with
      | none => rfl
      | some parts =>
        have shorter := length_of_cutAt proper cut
        simp only [ih fuel (by omega) parts.2 (by omega)]
  exact more _ _ enough _ (Nat.le_refl _)

theorem takeFrames_of_none (cut : cutAt sep buffer = none) : takeFrames sep buffer = ([], buffer) :=
  takeFramesFrom_of_none _ cut

theorem takeFrames_of_some (proper : sep ≠ []) (cut : cutAt sep buffer = some (frame, rest)) :
    takeFrames sep buffer = (frame :: (takeFrames sep rest).1, (takeFrames sep rest).2) := by
  have shorter := length_of_cutAt proper cut
  obtain ⟨fuel, length⟩ : ∃ fuel, buffer.length = fuel + 1 := ⟨buffer.length - 1, by omega⟩
  rw [takeFrames, length, takeFramesFrom, cut]
  have enough : rest.length ≤ fuel := by omega
  simp only [takeFramesFrom_enough proper enough]

/-- No complete frame is left. -/
theorem cutAt_left (proper : sep ≠ []) (buffer : List α) :
    cutAt sep (takeFrames sep buffer).2 = none := by
  induction h : buffer.length using Nat.strongRecOn generalizing buffer with
  | _ n ih =>
    cases cut : cutAt sep buffer with
    | none =>
      rw [takeFrames_of_none cut]
      exact cut
    | some parts =>
      rw [takeFrames_of_some proper cut]
      exact ih _ (h ▸ length_of_cutAt proper cut) _ rfl

/-- The frames do not depend on where the stream was cut. -/
theorem takeFrames_append (proper : sep ≠ []) (buffer more : List α) :
    takeFrames sep (buffer ++ more) =
      ((takeFrames sep buffer).1 ++ (takeFrames sep ((takeFrames sep buffer).2 ++ more)).1,
        (takeFrames sep ((takeFrames sep buffer).2 ++ more)).2) := by
  induction h : buffer.length using Nat.strongRecOn generalizing buffer with
  | _ n ih =>
    cases cut : cutAt sep buffer with
    | none =>
      rw [takeFrames_of_none cut]
      rfl
    | some parts =>
      rw [takeFrames_of_some proper cut, takeFrames_of_some proper (cutAt_append cut more),
        ih _ (h ▸ length_of_cutAt proper cut) _ rfl, List.cons_append]

theorem takeFrames_frame (proper : sep ≠ []) (framable : Framable sep frame) :
    takeFrames sep (frame ++ sep) = ([frame], []) := by
  rw [takeFrames_of_some proper framable]
  rfl

end Frames

end MegooPM.Lib
