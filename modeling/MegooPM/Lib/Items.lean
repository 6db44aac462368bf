import Mathlib.Data.List.Basic
import Mathlib.Data.List.Nodup

/-!
# Dictionaries in their order

A Python `dict` as the list of its items: an assignment to a key that is there keeps the key's
place, and any other one comes last.
-/
namespace MegooPM.Lib

variable {κ ν : Type} [DecidableEq κ]

abbrev Items (κ ν : Type) := List (κ × ν)

/-- `items.get(key)` -/
def itemAt (items : Items κ ν) (key : κ) : Option ν :=
  (items.find? (·.1 = key)).map (·.2)

/-- `items[key] = value` -/
def setItem (items : Items κ ν) (key : κ) (value : ν) : Items κ ν :=
  if items.any (·.1 = key) then
    items.map fun item => if item.1 = key then (key, value) else item
  else items ++ [(key, value)]

/-- `{**left, **right}` -/
def merged (left right : Items κ ν) : Items κ ν :=
  right.foldl (fun items item => setItem items item.1 item.2) left

/-- No key comes twice. -/
def Distinct (items : Items κ ν) : Prop :=
  (items.map (·.1)).Nodup

instance (items : Items κ ν) : Decidable (Distinct items) :=
  inferInstanceAs (Decidable (items.map (·.1)).Nodup)

@[simp] theorem itemAt_nil (key : κ) : itemAt ([] : Items κ ν) key = none := rfl

theorem itemAt_cons (item : κ × ν) (items : Items κ ν) (key : κ) :
    itemAt (item :: items) key = if item.1 = key then some item.2 else itemAt items key := by
  unfold itemAt
  by_cases same : item.1 = key
  · simp [same]
  · simp [same]

theorem itemAt_append (left right : Items κ ν) (key : κ) :
    itemAt (left ++ right) key = (itemAt left key).or (itemAt right key) := by
  induction left with
  | nil => rfl
  | cons item left ih =>
    rw [List.cons_append, itemAt_cons, itemAt_cons, ih]
    split <;> rfl

theorem itemAt_eq_none_iff {items : Items κ ν} {key : κ} :
    itemAt items key = none ↔ key ∉ items.map (·.1) := by
  unfold itemAt
  rw [Option.map_eq_none_iff, List.find?_eq_none]
  simp only [decide_eq_true_eq, List.mem_map, not_exists, not_and]

theorem itemAt_setItem (items : Items κ ν) (key other : κ) (value : ν) :
    itemAt (setItem items key value) other =
      if key = other then some value else itemAt items other := by
  unfold setItem
  split
  next present =>
    induction items with
    | nil => cases present
    | cons item items ih =>
      rw [List.map_cons, itemAt_cons, itemAt_cons]
      by_cases here : item.1 = key
      · -- the items behind the first one with this key are not read
        rw [if_pos here]
        by_cases same : key = other
        · rw [if_pos same, if_pos same]
        · rw [if_neg same, if_neg same, if_neg (here ▸ same)]
          by_cases again : items.any (·.1 = key) = true
          · rw [ih again, if_neg same]
          · congr 1
            refine (List.map_congr_left fun later member => ?_).trans (List.map_id _)
            have apart : later.1 ≠ key := by
              intro equal
              exact again (List.any_eq_true.mpr ⟨later, member, by simpa using equal⟩)
            rw [if_neg apart, id]
      · rw [if_neg here]
        have again : items.any (·.1 = key) = true := by simpa [here] using present
        rw [ih again]
        by_cases same : key = other
        · rw [if_pos same, if_neg (same ▸ here), if_pos same]
        · rw [if_neg same, if_neg same]
  next absent =>
    rw [itemAt_append, itemAt_cons, itemAt_nil]
    have fresh : itemAt items key = none := by
      rw [itemAt_eq_none_iff]
      intro member
      obtain ⟨item, inside, same⟩ := List.mem_map.mp member
      exact absent (List.any_eq_true.mpr ⟨item, inside, by simpa using same⟩)
    by_cases same : key = other
    · rw [if_pos same, if_pos same, ← same, fresh]
      rfl
    · rw [if_neg same, if_neg same, Option.or_none]

theorem keys_setItem (items : Items κ ν) (key : κ) (value : ν) :
    (setItem items key value).map (·.1) =
      if items.any (·.1 = key) then items.map (·.1) else items.map (·.1) ++ [key] := by
  unfold setItem
  split
  · rw [List.map_map]
    refine List.map_congr_left fun item _ => ?_
    simp only [Function.comp_apply]
    split
    next same => exact same.symm
    · rfl
  · rw [List.map_append]
    rfl

theorem Distinct.setItem {items : Items κ ν} (distinct : Distinct items) (key : κ) (value : ν) :
    Distinct (setItem items key value) := by
  unfold Distinct
  rw [keys_setItem]
  split
  · exact distinct
  next absent =>
    refine List.nodup_append.mpr ⟨distinct, List.nodup_singleton key, ?_⟩
    intro other member _ last same
    rw [List.mem_singleton.mp last] at same
    obtain ⟨item, inside, equal⟩ := List.mem_map.mp member
    exact absent (List.any_eq_true.mpr ⟨item, inside, by simpa using equal.trans same⟩)

/-- The items after an assignment: the other ones and the new one. -/
theorem forall_mem_setItem {P : κ × ν → Prop} {key : κ} {value : ν} (new : P (key, value))
    (items : Items κ ν) :
    (∀ item ∈ Lib.setItem items key value, P item) ↔ ∀ item ∈ items, item.1 ≠ key → P item := by
  unfold Lib.setItem
  split
  · constructor
    · intro all item member other
      have kept := all _ (List.mem_map_of_mem member)
      rwa [if_neg other] at kept
    · intro others item member
      obtain ⟨old, there, rfl⟩ := List.mem_map.mp member
      split
      · exact new
      next other => exact others old there other
  next absent =>
    constructor
    · exact fun all item member _ => all item (List.mem_append_left _ member)
    · intro others item member
      rcases List.mem_append.mp member with old | last
      · refine others item old fun same => absent ?_
        exact List.any_eq_true.mpr ⟨item, old, by simpa using same⟩
      · rw [List.mem_singleton.mp last]
        exact new

omit [DecidableEq κ] in
theorem distinct_nil : Distinct ([] : Items κ ν) := List.nodup_nil

theorem Distinct.merged {left : Items κ ν} (distinct : Distinct left) (right : Items κ ν) :
    Distinct (merged left right) := by
  unfold Lib.merged
  induction right generalizing left with
  | nil => exact distinct
  | cons item right ih => exact ih (distinct.setItem item.1 item.2)

/-- The right side wins. -/
theorem itemAt_merged (left : Items κ ν) {right : Items κ ν} (distinct : Distinct right)
    (key : κ) :
    itemAt (merged left right) key = (itemAt right key).or (itemAt left key) := by
  unfold merged
  induction right generalizing left with
  | nil => rfl
  | cons item right ih =>
    obtain ⟨fresh, others⟩ := List.nodup_cons.mp distinct
    rw [List.foldl_cons, ih _ others, itemAt_setItem, itemAt_cons]
    by_cases same : item.1 = key
    · rw [if_pos same, if_pos same, itemAt_eq_none_iff.mpr (same ▸ fresh)]
      rfl
    · rw [if_neg same, if_neg same]

end MegooPM.Lib
