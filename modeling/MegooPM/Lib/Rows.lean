import Mathlib.Data.List.Nodup

/-!
# Keyed rows

A table is a list of rows with a key. A row is appended, replaced in place or taken out;
what the other rows look like does not change.
-/
namespace MegooPM.Lib

variable {α κ : Type} [DecidableEq κ]

/-- The rows with key `k` replaced. -/
def updateAt (key : α → κ) (k : κ) (f : α → α) (rows : List α) : List α :=
  rows.map fun row => if key row = k then f row else row

/-- The rows without those with key `k`. -/
def removeAt (key : α → κ) (k : κ) (rows : List α) : List α :=
  rows.filter fun row => key row ≠ k

variable {key : α → κ} {k : κ} {rows : List α} {row : α}

theorem mem_updateAt {f : α → α} : row ∈ updateAt key k f rows ↔
    ∃ old ∈ rows, row = if key old = k then f old else old := by
  simp only [updateAt, List.mem_map]
  constructor
  · rintro ⟨old, member, rfl⟩
    exact ⟨old, member, rfl⟩
  · rintro ⟨old, member, rfl⟩
    exact ⟨old, member, rfl⟩

@[simp] theorem mem_removeAt : row ∈ removeAt key k rows ↔ row ∈ rows ∧ key row ≠ k := by
  simp [removeAt]

/-- What holds of every row, and of the replacement of one with the key, holds after the
update. -/
theorem forall_updateAt {P : α → Prop} {f : α → α} (before : ∀ row ∈ rows, P row)
    (changed : ∀ row ∈ rows, key row = k → P (f row)) : ∀ row ∈ updateAt key k f rows, P row := by
  intro row member
  obtain ⟨old, inside, rfl⟩ := mem_updateAt.mp member
  split
  next same => exact changed old inside same
  next => exact before old inside

/-- An update that keeps the keys keeps their list. -/
theorem map_updateAt {f : α → α} (keeps : ∀ row, key (f row) = key row) :
    (updateAt key k f rows).map key = rows.map key := by
  rw [updateAt, List.map_map]
  refine List.map_congr_left fun row _ => ?_
  simp only [Function.comp_apply]
  split
  · exact keeps row
  · rfl

/-- Two updates of one key are one. -/
theorem updateAt_updateAt {f g : α → α} (keeps : ∀ row, key (f row) = key row) :
    updateAt key k g (updateAt key k f rows) = updateAt key k (g ∘ f) rows := by
  rw [updateAt, updateAt, List.map_map]
  refine List.map_congr_left fun row _ => ?_
  by_cases here : key row = k
  · simp only [Function.comp_apply, if_pos here, keeps]
  · simp only [Function.comp_apply, if_neg here]

/-- What the rows hold together only gets fewer when each replacement holds fewer. -/
theorem flatMap_updateAt_sublist {β : Type} {part : α → List β} {f : α → α}
    (fewer : ∀ row, (part (f row)).Sublist (part row)) :
    ((updateAt key k f rows).flatMap part).Sublist (rows.flatMap part) := by
  induction rows with
  | nil => exact List.Sublist.refl _
  | cons first rest ih =>
    rw [updateAt, List.map_cons, List.flatMap_cons, List.flatMap_cons]
    refine List.Sublist.append ?_ ih
    split
    · exact fewer first
    · exact List.Sublist.refl _

/-- In a table with distinct keys, a row is found under its own key. -/
theorem find?_key (distinct : (rows.map key).Nodup) (member : row ∈ rows) :
    rows.find? (fun other => key other = key row) = some row := by
  induction rows with
  | nil => cases member
  | cons first rest ih =>
    rw [List.map_cons, List.nodup_cons] at distinct
    rcases List.mem_cons.mp member with rfl | later
    · exact List.find?_cons_of_pos (by simp)
    · have other : key first ≠ key row := fun same =>
        distinct.1 (same ▸ List.mem_map_of_mem later)
      rw [List.find?_cons_of_neg (by simpa using other)]
      exact ih distinct.2 later

/-- A lookup after an update that keeps the keys. -/
theorem find?_updateAt {f : α → α} (keeps : ∀ row, key (f row) = key row) (j : κ) :
    (updateAt key k f rows).find? (fun row => key row = j) =
      (rows.find? fun row => key row = j).map fun row => if key row = k then f row else row := by
  have same : ∀ row, key (if key row = k then f row else row) = key row := by
    intro row
    split
    · exact keeps row
    · rfl
  simp only [updateAt, List.find?_map, Function.comp_def, same]

/-- A lookup of the key that was updated. -/
theorem find?_updateAt_self {f : α → α} (keeps : ∀ row, key (f row) = key row) :
    (updateAt key k f rows).find? (fun row => key row = k) =
      (rows.find? fun row => key row = k).map f := by
  rw [find?_updateAt keeps]
  cases found : rows.find? (fun row => key row = k) with
  | none => rfl
  | some row =>
    have own : key row = k := by simpa using List.find?_some found
    rw [Option.map_some, Option.map_some, if_pos own]

/-- A lookup of another key after a removal. -/
theorem find?_removeAt {j : κ} (other : j ≠ k) :
    (removeAt key k rows).find? (fun row => key row = j) = rows.find? fun row => key row = j := by
  rw [removeAt, List.find?_filter]
  congr 1
  funext row
  by_cases here : key row = j
  · simp [here, other]
  · simp [here]

/-- A lookup that succeeds still does after a row is appended. -/
theorem find?_append_of_mem {j : κ} {last : List α} (found : ∃ row ∈ rows, key row = j) :
    (rows ++ last).find? (fun row => key row = j) = rows.find? fun row => key row = j := by
  obtain ⟨row, member, same⟩ := found
  rw [List.find?_append, Option.or_of_isSome]
  exact List.find?_isSome.mpr ⟨row, member, by simpa using same⟩

/-- In a table with distinct keys, an update replaces one row. -/
theorem mem_updateAt_of_mem (distinct : (rows.map key).Nodup) (member : row ∈ rows) {f : α → α}
    {other : α} : other ∈ updateAt key (key row) f rows ↔
      other ∈ removeAt key (key row) rows ∨ other = f row := by
  rw [mem_updateAt, mem_removeAt]
  constructor
  · rintro ⟨old, inside, rfl⟩
    by_cases same : key old = key row
    · rw [if_pos same, List.inj_on_of_nodup_map distinct inside member same]
      exact Or.inr rfl
    · rw [if_neg same]
      exact Or.inl ⟨inside, same⟩
  · rintro (⟨inside, apart⟩ | rfl)
    · exact ⟨other, inside, (if_neg apart).symm⟩
    · exact ⟨row, member, (if_pos rfl).symm⟩

/-- An update of a key that is not there changes nothing. -/
theorem updateAt_of_notMem {f : α → α} (absent : ∀ row ∈ rows, key row ≠ k) :
    updateAt key k f rows = rows := by
  have same : ∀ row ∈ rows, (if key row = k then f row else row) = id row := by
    intro row member
    exact if_neg (absent row member)
  rw [updateAt, List.map_congr_left same, List.map_id]

omit [DecidableEq κ] in
/-- Keys stay distinct when a row with a new key is appended. -/
theorem nodup_map_append (distinct : (rows.map key).Nodup) (fresh : ∀ old ∈ rows, key old ≠ key row) :
    ((rows ++ [row]).map key).Nodup := by
  rw [List.map_append, List.map_singleton]
  refine List.Nodup.append distinct (List.nodup_singleton _) ?_
  rw [List.disjoint_singleton]
  intro member
  obtain ⟨old, inside, same⟩ := List.mem_map.mp member
  exact fresh old inside same

/-- What the entry that is replaced counted for, and what the new one does. -/
theorem countP_set_add {β : Type} (p : β → Bool) {entries : List β} {i : Nat} {old : β}
    (here : entries[i]? = some old) (new : β) :
    (entries.set i new).countP p + (if p old then 1 else 0) =
      entries.countP p + (if p new then 1 else 0) := by
  obtain ⟨inside, get⟩ := List.getElem?_eq_some_iff.mp here
  have counted := @List.countP_set _ p _ _ new inside
  have one : (if p old then 1 else 0) ≤ entries.countP p := by
    split
    next found => exact List.countP_pos_iff.mpr ⟨old, List.mem_of_getElem? here, found⟩
    next => exact Nat.zero_le _
  rw [get] at counted
  omega

end MegooPM.Lib
