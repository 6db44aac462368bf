import Std.Data.ExtTreeMap
import Mathlib.Data.List.Induction

/-!
# Dictionaries

Finite maps with the reading of Python's `dict`: assigning a key overwrites it,
and two dictionaries are equal when every key reads the same in both.
-/
namespace MegooPM.Lib

variable {κ ν : Type} [Ord κ] [Std.TransOrd κ] [Std.LawfulEqOrd κ]

/-- A dictionary, iterated in key order. -/
abbrev Dict (κ ν : Type) [Ord κ] := Std.ExtTreeMap κ ν compare

namespace Dict

theorem get_insert [DecidableEq κ] (d : Dict κ ν) (k j : κ) (v : ν) :
    (d.insert k v)[j]? = if k = j then some v else d[j]? := by
  simp only [Std.ExtTreeMap.getElem?_insert, Std.compare_eq_iff_eq]

theorem get_erase [DecidableEq κ] (d : Dict κ ν) (k j : κ) :
    (d.erase k)[j]? = if k = j then none else d[j]? := by
  simp only [Std.ExtTreeMap.getElem?_erase, Std.compare_eq_iff_eq]

/-- The dictionary a sequence of assignments `d[k] = v` builds. -/
def ofPairs (pairs : List (κ × ν)) : Dict κ ν :=
  pairs.foldl (fun d p => d.insert p.1 p.2) ∅

omit [Std.LawfulEqOrd κ] in
@[simp] theorem ofPairs_nil : ofPairs ([] : List (κ × ν)) = ∅ := rfl

omit [Std.LawfulEqOrd κ] in
theorem ofPairs_concat (pairs : List (κ × ν)) (k : κ) (v : ν) :
    ofPairs (pairs ++ [(k, v)]) = (ofPairs pairs).insert k v := by
  simp only [ofPairs, List.foldl_append, List.foldl_cons, List.foldl_nil]

/-- What is read under a key was assigned to it. -/
theorem mem_of_get_ofPairs (pairs : List (κ × ν)) (k : κ) (v : ν)
    (found : (ofPairs pairs)[k]? = some v) : (k, v) ∈ pairs := by
  classical
  induction pairs using List.reverseRecOn with
  | nil => simp at found
  | append_singleton pairs p ih =>
    obtain ⟨j, w⟩ := p
    rw [ofPairs_concat, get_insert] at found
    split at found
    next same =>
      subst same
      cases found
      simp
    next other => exact List.mem_append_left _ (ih found)

/-- A key that was assigned is present. -/
theorem get_ofPairs_isSome (pairs : List (κ × ν)) (k : κ) (v : ν) (member : (k, v) ∈ pairs) :
    ∃ w, (ofPairs pairs)[k]? = some w := by
  classical
  induction pairs using List.reverseRecOn with
  | nil => simp at member
  | append_singleton pairs p ih =>
    obtain ⟨j, w⟩ := p
    rw [ofPairs_concat, get_insert]
    split
    next => exact ⟨w, rfl⟩
    next other =>
      rcases List.mem_append.mp member with earlier | last
      · exact ih earlier
      · simp only [List.mem_singleton, Prod.mk.injEq] at last
        exact absurd last.1.symm other

/-- A key assigned one value only reads that value. -/
theorem get_ofPairs (pairs : List (κ × ν)) (k : κ) (v : ν) (member : (k, v) ∈ pairs)
    (unique : ∀ w, (k, w) ∈ pairs → w = v) : (ofPairs pairs)[k]? = some v := by
  obtain ⟨w, found⟩ := get_ofPairs_isSome pairs k v member
  rw [found, unique w (mem_of_get_ofPairs pairs k w found)]

/-- A key that was never assigned is absent. -/
theorem get_ofPairs_none (pairs : List (κ × ν)) (k : κ) (absent : ∀ v, (k, v) ∉ pairs) :
    (ofPairs pairs)[k]? = none := by
  cases found : (ofPairs pairs)[k]? with
  | none => rfl
  | some v => exact absurd (mem_of_get_ofPairs pairs k v found) (absent v)

/-- Assignments that leave a key alone do not show under it, whether they come first or last. -/
theorem get_ofPairs_append {left right : List (κ × ν)} {k : κ} :
    ((∀ v, (k, v) ∉ right) → (ofPairs (left ++ right))[k]? = (ofPairs left)[k]?) ∧
    ((∀ v, (k, v) ∉ left) → (ofPairs (left ++ right))[k]? = (ofPairs right)[k]?) := by
  classical
  induction right using List.reverseRecOn with
  | nil =>
    rw [List.append_nil]
    exact ⟨fun _ => rfl, fun absent => get_ofPairs_none left k absent⟩
  | append_singleton right p ih =>
    obtain ⟨j, w⟩ := p
    rw [← List.append_assoc, ofPairs_concat, ofPairs_concat, get_insert, get_insert]
    constructor
    · intro absent
      have other : j ≠ k := by
        rintro rfl
        exact absent w (by simp)
      rw [if_neg other]
      exact ih.1 fun v member => absent v (List.mem_append_left _ member)
    · intro absent
      rw [ih.2 absent]

omit [Std.LawfulEqOrd κ] in
theorem nodup_toList (d : Dict κ ν) : d.toList.Nodup := by
  refine d.distinct_keys_toList.imp fun distinct same => distinct ?_
  rw [same]
  exact Std.ReflCmp.compare_self

end Dict

/-- Only one item of a list contributes a value, and does so once. -/
theorem count_flatMap_eq_one {α β : Type} [BEq β] [LawfulBEq β] {items : List α}
    (nodup : items.Nodup)
    {g : α → List β} {b : β} {a : α} (member : a ∈ items) (once : (g a).count b = 1)
    (others : ∀ c ∈ items, b ∈ g c → c = a) : (items.flatMap g).count b = 1 := by
  induction items with
  | nil => cases member
  | cons c rest ih =>
    rw [List.flatMap_cons, List.count_append]
    obtain ⟨fresh, distinct⟩ := List.nodup_cons.mp nodup
    rcases List.mem_cons.mp member with rfl | later
    · -- the rest contributes nothing
      have none : b ∉ rest.flatMap g := by
        intro inside
        obtain ⟨d, inRest, here⟩ := List.mem_flatMap.mp inside
        rw [others d (List.mem_cons_of_mem _ inRest) here] at inRest
        exact fresh inRest
      rw [once, List.count_eq_zero_of_not_mem none]
    · have none : b ∉ g c := by
        intro here
        rw [← others c (List.mem_cons_self ..) here] at later
        exact fresh later
      rw [List.count_eq_zero_of_not_mem none, Nat.zero_add]
      exact ih distinct later fun d inRest => others d (List.mem_cons_of_mem _ inRest)

end MegooPM.Lib
