import Mathlib

/-!
# Tallies

Rows that each have a key of their own, and what the rows under some keys add up
to. A row is put in by merging it into the row of its key, if there is one; rows
are taken out by their keys.
-/
namespace MegooPM.Lib

variable {ρ κ : Type} [DecidableEq κ]

/-! ### Totals -/

/-- What the rows whose key meets `p` add up to. -/
def total (key : ρ → κ) (amount : ρ → Int) (p : κ → Bool) (rows : List ρ) : Int :=
  (rows.map fun row => if p (key row) then amount row else 0).sum

section Total

variable (key : ρ → κ) (amount : ρ → Int) (p : κ → Bool)

omit [DecidableEq κ] in
@[simp] theorem total_nil : total key amount p [] = 0 := rfl

omit [DecidableEq κ] in
@[simp] theorem total_cons (row : ρ) (rows : List ρ) : total key amount p (row :: rows) =
    (if p (key row) then amount row else 0) + total key amount p rows := rfl

omit [DecidableEq κ] in
@[simp] theorem total_append (left right : List ρ) : total key amount p (left ++ right) =
    total key amount p left + total key amount p right := by
  simp only [total, List.map_append, List.sum_append]

omit [DecidableEq κ] in
theorem total_eq_zero {rows : List ρ} (none : ∀ row ∈ rows, amount row = 0) :
    total key amount p rows = 0 := by
  induction rows with
  | nil => rfl
  | cons row rest ih =>
    obtain ⟨first, later⟩ := List.forall_mem_cons.mp none
    rw [total_cons, ih later, first, ite_self, zero_add]

/-- What stands under one key. -/
def valueOf (rows : List ρ) (k : κ) : Int :=
  total key amount (· = k) rows

theorem valueOf_eq_zero {rows : List ρ} {k : κ} (absent : k ∉ rows.map key) :
    valueOf key amount rows k = 0 := by
  induction rows with
  | nil => rfl
  | cons row rest ih =>
    simp only [List.map_cons, List.mem_cons, not_or] at absent
    have apart : ¬key row = k := fun same => absent.1 same.symm
    have later := ih absent.2
    simp only [valueOf] at later ⊢
    simp [apart, later]

/-- Without the rows of a key, the total is less by what stood under it. -/
theorem total_filter_ne (rows : List ρ) (k : κ) :
    total key amount p (rows.filter fun row => key row ≠ k) =
      total key amount p rows - if p k then valueOf key amount rows k else 0 := by
  induction rows with
  | nil => simp [valueOf]
  | cons row rest ih =>
    simp only [valueOf] at ih ⊢
    by_cases same : key row = k
    · subst same
      by_cases counted : p (key row) = true
      · simp [counted] at ih ⊢
        omega
      · simp [counted] at ih ⊢
        omega
    · by_cases counted : p k = true
      · simp [same, counted] at ih ⊢
        omega
      · simp [same, counted] at ih ⊢
        omega

/-- What stands under another key is left. -/
theorem valueOf_filter_ne {rows : List ρ} {k other : κ} (apart : other ≠ k) :
    valueOf key amount (rows.filter fun row => key row ≠ k) other =
      valueOf key amount rows other := by
  have less := total_filter_ne key amount (· = other) rows k
  have none : ¬k = other := fun same => apart same.symm
  simpa [valueOf, none] using less

/-- Taking out keys whose rows add up to other rows takes these off the total. -/
theorem total_filter_notMem {ρ' : Type} (key' : ρ' → κ) (amount' : ρ' → Int) {others : List ρ'}
    (nodup : (others.map key').Nodup) (rows : List ρ)
    (same : ∀ other ∈ others, valueOf key amount rows (key' other) = amount' other) :
    total key amount p (rows.filter fun row => key row ∉ others.map key') =
      total key amount p rows - total key' amount' p others := by
  induction others generalizing rows with
  | nil => simp
  | cons other rest ih =>
    obtain ⟨fresh, nodup⟩ := List.nodup_cons.mp nodup
    have first := total_filter_ne key amount p rows (key' other)
    rw [same other (List.mem_cons_self ..)] at first
    -- one key after the other
    have split : (rows.filter fun row => key row ∉ (other :: rest).map key') =
        (rows.filter fun row => key row ≠ key' other).filter
          fun row => key row ∉ rest.map key' := by
      rw [List.filter_filter]
      apply List.filter_congr
      intro row _
      rw [List.map_cons, ← Bool.decide_and, decide_eq_decide, List.mem_cons, not_or, and_comm]
    have later := ih nodup (rows.filter fun row => key row ≠ key' other) fun next member => by
      rw [valueOf_filter_ne]
      · exact same next (List.mem_cons_of_mem _ member)
      · rintro equal
        exact fresh (equal ▸ List.mem_map_of_mem member)
    rw [split, later, first, total_cons]
    omega

end Total

/-! ### Tallies -/

/-- Rows of which no two have the same key. -/
structure Tally (key : ρ → κ) where
  rows : List ρ
  nodup : (rows.map key).Nodup

namespace Tally

variable {key : ρ → κ}

instance [DecidableEq ρ] : DecidableEq (Tally key) := fun a b =>
  decidable_of_iff (a.rows = b.rows) ⟨fun same => by cases a; cases b; cases same; rfl,
    fun same => by rw [same]⟩

def empty : Tally key := ⟨[], List.nodup_nil⟩

/-- The merge keeps the key of the old row. -/
def Keeps (key : ρ → κ) (merge : ρ → ρ → ρ) : Prop :=
  ∀ old row, key (merge old row) = key old

/-- A row merged into the row of its key, if there is one. -/
def put (key : ρ → κ) (merge : ρ → ρ → ρ) : List ρ → ρ → List ρ
  | [], row => [row]
  | old :: rest, row =>
    if key old = key row then merge old row :: rest else old :: put key merge rest row

theorem map_key_put {merge : ρ → ρ → ρ} (keeps : Keeps key merge) (rows : List ρ) (row : ρ) :
    (put key merge rows row).map key =
      if key row ∈ rows.map key then rows.map key else rows.map key ++ [key row] := by
  induction rows with
  | nil => simp [put]
  | cons old rest ih =>
    by_cases same : key old = key row
    · simp [put, same, keeps old row]
    · have apart : ¬key row = key old := fun equal => same equal.symm
      rw [put, if_neg same, List.map_cons, ih, List.map_cons]
      by_cases here : key row ∈ rest.map key
      · rw [if_pos here, if_pos (List.mem_cons_of_mem _ here)]
      · have fresh : key row ∉ key old :: rest.map key := by simp [apart, here]
        rw [if_neg here, if_neg fresh, List.cons_append]

theorem nodup_put {merge : ρ → ρ → ρ} (keeps : Keeps key merge) {rows : List ρ}
    (nodup : (rows.map key).Nodup) (row : ρ) : ((put key merge rows row).map key).Nodup := by
  rw [map_key_put keeps]
  split
  next => exact nodup
  next fresh =>
    rw [List.nodup_append]
    refine ⟨nodup, by simp, fun k old k' new => ?_⟩
    rw [List.mem_singleton.mp new]
    rintro rfl
    exact fresh old

/-- Putting a row in adds its amount to the total. -/
theorem total_put {merge : ρ → ρ → ρ} (keeps : Keeps key merge) {amount : ρ → Int}
    (adds : ∀ old row, amount (merge old row) = amount old + amount row) (p : κ → Bool)
    (rows : List ρ) (row : ρ) : total key amount p (put key merge rows row) =
      total key amount p rows + if p (key row) then amount row else 0 := by
  induction rows with
  | nil => simp [put]
  | cons old rest ih =>
    by_cases same : key old = key row
    · rw [put, if_pos same, total_cons, total_cons, keeps, same, adds]
      split
      · omega
      · omega
    · rw [put, if_neg same, total_cons, total_cons, ih]
      omega

def upsert (l : Tally key) (merge : ρ → ρ → ρ) (keeps : Keeps key merge) (row : ρ) : Tally key :=
  ⟨put key merge l.rows row, nodup_put keeps l.nodup row⟩

/-- The rows of the keys are taken out. -/
def remove (l : Tally key) (keys : List κ) : Tally key :=
  ⟨l.rows.filter fun row => key row ∉ keys, l.nodup.sublist (List.filter_sublist.map key)⟩

end Tally

/-! ### Sums along a list -/

/-- Replacing an entry changes the sum by the difference. -/
theorem sum_map_set {α : Type} (f : α → Int) {items : List α} {i : Nat} {old : α}
    (here : items[i]? = some old) (new : α) :
    ((items.set i new).map f).sum = (items.map f).sum - f old + f new := by
  induction items generalizing i with
  | nil => cases here
  | cons first rest ih =>
    cases i with
    | zero =>
      cases here
      simp only [List.set_cons_zero, List.map_cons, List.sum_cons]
      omega
    | succ i =>
      simp only [List.set_cons_succ, List.map_cons, List.sum_cons, ih here]
      omega

end MegooPM.Lib
