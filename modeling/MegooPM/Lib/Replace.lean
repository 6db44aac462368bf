import Mathlib.Data.List.Basic

/-!
# Replacing a text

Python's `str.replace` for a text that is not empty: from left to right, and behind a match it
goes on after it. The elements may be characters, or carry more than the character they show;
where they come from can then be read off the result.
-/
namespace MegooPM.Lib

variable {α : Type}

/-- `replace` with some elements of a match still to be passed over. -/
def replaceFrom (text : α → Char) (old : List Char) (new : List α) : Nat → List α → List α
  | _, [] => []
  | skip + 1, _ :: rest => replaceFrom text old new skip rest
  | 0, a :: rest =>
    if old.isPrefixOf ((a :: rest).map text) then
      new ++ replaceFrom text old new (old.length - 1) rest
    else a :: replaceFrom text old new 0 rest

/-- `s.replace(old, new)`, where `text` is what an element shows. -/
def replaceAll (text : α → Char) (old : List Char) (new : List α) (s : List α) : List α :=
  replaceFrom text old new 0 s

section Replace

variable {text : α → Char} {old : List Char} {new : List α}

@[simp] theorem replaceAll_nil : replaceAll text old new [] = [] :=
  rfl

theorem replaceFrom_append (front rest : List α) :
    replaceFrom text old new front.length (front ++ rest) = replaceAll text old new rest := by
  induction front with
  | nil => rfl
  | cons a front ih => exact ih

/-- A match is replaced, and the search goes on behind it. -/
theorem replaceAll_match {front rest : List α} (shows : front.map text = old) (some_ : old ≠ []) :
    replaceAll text old new (front ++ rest) = new ++ replaceAll text old new rest := by
  cases front with
  | nil => exact absurd shows.symm some_
  | cons a front =>
    have here : old.isPrefixOf ((a :: (front ++ rest)).map text) = true := by
      rw [List.isPrefixOf_iff_prefix, ← List.cons_append, List.map_append, shows]
      exact List.prefix_append ..
    have length : old.length - 1 = front.length := by
      rw [← shows, List.length_map, List.length_cons, Nat.add_sub_cancel]
    rw [replaceAll, List.cons_append, replaceFrom, if_pos here, length, replaceFrom_append]

/-- Where no match begins the element stays. -/
theorem replaceAll_cons {a : α} {rest : List α} (other : ¬old <+: (a :: rest).map text) :
    replaceAll text old new (a :: rest) = a :: replaceAll text old new rest := by
  rw [replaceAll, replaceFrom, if_neg (by rwa [List.isPrefixOf_iff_prefix])]
  rfl

/-- What the result shows depends on what the elements show. -/
theorem map_replaceFrom (skip : Nat) (s : List α) :
    (replaceFrom text old new skip s).map text =
      replaceFrom id old (new.map text) skip (s.map text) := by
  induction s generalizing skip with
  | nil => cases skip <;> rfl
  | cons a rest ih =>
    cases skip with
    | succ skip => exact ih skip
    | zero =>
      rw [replaceFrom, List.map_cons, replaceFrom, ← List.map_cons, List.map_id]
      split
      · rw [List.map_append, ih]
      · rw [List.map_cons, ih]

theorem map_replaceAll (s : List α) : (replaceAll text old new s).map text =
    replaceAll id old (new.map text) (s.map text) :=
  map_replaceFrom 0 s

end Replace

end MegooPM.Lib
