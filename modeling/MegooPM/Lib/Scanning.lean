import Mathlib.Data.List.TakeWhile
import Mathlib.Data.List.Basic

/-!
# Scanning for matches

A text is scanned from left to right for the matches of a pattern, which take up no empty
text: the search goes on behind each of them, as `replace` with a global pattern does. What a
scan finds is found by induction on its parts, and part by part where no match runs across a
boundary.
-/
namespace MegooPM.Lib

/-- A part of a scanned text: a character, or a match with what it captured. -/
inductive Piece (α β : Type*) where
  | plain (c : α)
  | found (taken : List α) (capture : β)
  deriving DecidableEq, Repr

variable {α β : Type*}

def Piece.text : Piece α β → List α
  | plain c => [c]
  | found taken _ => taken

section

variable (matchAt : List α → Option (β × List α))

/-- `skip` counts what is left of the last match. -/
def scanMatchesFrom : Nat → List α → List (Piece α β)
  | _, [] => []
  | skip + 1, _ :: s => scanMatchesFrom skip s
  | 0, c :: s =>
    match matchAt (c :: s) with
    | some (capture, rest) =>
      let taken := (c :: s).take (s.length + 1 - rest.length)
      .found taken capture :: scanMatchesFrom (taken.length - 1) s
    | none => .plain c :: scanMatchesFrom 0 s

def scanMatches (s : List α) : List (Piece α β) :=
  scanMatchesFrom matchAt 0 s

/-- What a match leaves is an end of the text, and shorter. -/
def Consumes : Prop :=
  ∀ s capture rest, matchAt s = some (capture, rest) → ∃ taken, taken ≠ [] ∧ s = taken ++ rest

end

variable {matchAt : List α → Option (β × List α)}

private theorem scanMatchesFrom_skip (taken rest : List α) :
    scanMatchesFrom matchAt taken.length (taken ++ rest) = scanMatches matchAt rest := by
  induction taken with
  | nil => rfl
  | cons c taken ih => exact ih

@[simp] theorem scanMatches_nil : scanMatches matchAt [] = [] :=
  rfl

theorem scanMatches_plain {c : α} {s : List α} (none_ : matchAt (c :: s) = none) :
    scanMatches matchAt (c :: s) = .plain c :: scanMatches matchAt s := by
  rw [scanMatches, scanMatchesFrom, none_]
  rfl

theorem scanMatches_found {taken rest : List α} {capture : β} (some_ : taken ≠ [])
    (found : matchAt (taken ++ rest) = some (capture, rest)) :
    scanMatches matchAt (taken ++ rest) = .found taken capture :: scanMatches matchAt rest := by
  obtain ⟨c, s, rfl⟩ := List.exists_cons_of_ne_nil some_
  have size : (s ++ rest).length + 1 - rest.length = (c :: s).length := by
    simp only [List.length_append, List.length_cons]
    omega
  have whole : (c :: (s ++ rest)).take ((s ++ rest).length + 1 - rest.length) = c :: s := by
    rw [size, ← List.cons_append, List.take_left]
  rw [List.cons_append] at found ⊢
  rw [scanMatches, scanMatchesFrom, found]
  simp only [whole, List.length_cons, Nat.add_sub_cancel, scanMatchesFrom_skip]

/-- A text is a match and what follows it, or a character that begins none. -/
theorem scanMatches_induction {motive : List α → Prop} (consumes : Consumes matchAt) (nil : motive [])
    (plain : ∀ c s, matchAt (c :: s) = none → motive s → motive (c :: s))
    (found : ∀ taken capture rest, taken ≠ [] → matchAt (taken ++ rest) = some (capture, rest) →
      motive rest → motive (taken ++ rest))
    (s : List α) : motive s := by
  induction size : s.length using Nat.strong_induction_on generalizing s with
  | _ n ih =>
    cases s with
    | nil => exact nil
    | cons c s =>
      cases matched : matchAt (c :: s) with
      | none => exact plain c s matched (ih s.length (by rw [← size]; simp) s rfl)
      | some m =>
        obtain ⟨capture, rest⟩ := m
        obtain ⟨taken, some_, whole⟩ := consumes _ _ _ matched
        have shorter : rest.length < n := by
          have lengths := congrArg List.length whole
          have positive := List.length_pos_of_ne_nil some_
          rw [List.length_append] at lengths
          omega
        rw [whole]
        rw [whole] at matched
        exact found taken capture rest some_ matched (ih rest.length shorter rest rfl)

/-- The parts of a scan are the text. -/
theorem scanMatches_text (consumes : Consumes matchAt) (s : List α) :
    (scanMatches matchAt s).flatMap Piece.text = s := by
  induction s using scanMatches_induction consumes with
  | nil => rfl
  | plain c s none_ ih => rw [scanMatches_plain none_, List.flatMap_cons, ih]; rfl
  | found taken capture rest some_ matched ih =>
    rw [scanMatches_found some_ matched, List.flatMap_cons, ih]
    rfl

/-- What a scan finds is a match where it stands. -/
theorem matched_of_mem_scanMatches (consumes : Consumes matchAt) {s taken : List α} {capture : β}
    (member : .found taken capture ∈ scanMatches matchAt s) :
    ∃ rest, matchAt (taken ++ rest) = some (capture, rest) := by
  induction s using scanMatches_induction consumes with
  | nil => cases member
  | plain c s none_ ih =>
    rw [scanMatches_plain none_] at member
    rcases List.mem_cons.mp member with same | behind
    · cases same
    · exact ih behind
  | found first captured rest some_ matched ih =>
    rw [scanMatches_found some_ matched] at member
    rcases List.mem_cons.mp member with same | behind
    · cases same
      exact ⟨rest, matched⟩
    · exact ih behind

/-- No match that begins before `x` runs into it or depends on it. -/
def Separates (matchAt : List α → Option (β × List α)) (x : List α) : Prop :=
  ∀ s, s ≠ [] → matchAt (s ++ x) = (matchAt s).map fun m => (m.1, m.2 ++ x)

/-- A scan goes on at a boundary as it begins there. -/
theorem scanMatches_append (consumes : Consumes matchAt) {x : List α} (apart : Separates matchAt x)
    (s : List α) : scanMatches matchAt (s ++ x) = scanMatches matchAt s ++ scanMatches matchAt x := by
  induction s using scanMatches_induction consumes with
  | nil => rfl
  | plain c s none_ ih =>
    have still : matchAt (c :: (s ++ x)) = none := by
      rw [← List.cons_append, apart _ (List.cons_ne_nil c s), none_]
      rfl
    rw [List.cons_append, scanMatches_plain still, scanMatches_plain none_, ih]
    rfl
  | found taken capture rest some_ matched ih =>
    have still : matchAt (taken ++ (rest ++ x)) = some (capture, rest ++ x) := by
      rw [← List.append_assoc, apart _ (by simp [some_]), matched]
      rfl
    rw [List.append_assoc, scanMatches_found some_ still, scanMatches_found some_ matched, ih]
    rfl

end MegooPM.Lib
