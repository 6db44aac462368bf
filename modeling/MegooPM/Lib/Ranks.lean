import MegooPM.Lib.Text

/-!
# Ranks

The first items of a list sorted downward are those that few others sort above. Keys are
distinct, so an item's rank is the place it has in the sorted list.
-/
namespace MegooPM.Lib

variable {α κ : Type} [LinearOrder κ]

/-- `sorted(items, key=key, reverse=True)`: stable. -/
def sortedDown (key : α → κ) (items : List α) : List α :=
  sortedBy (fun a => OrderDual.toDual (key a)) items

/-- How many items sort above a key. -/
def rankIn (key : α → κ) (items : List α) (k : κ) : Nat :=
  items.countP fun a => k < key a

variable {key : α → κ} {items : List α} {a b : α}

theorem rankIn_perm {others : List α} (same : items.Perm others) (k : κ) :
    rankIn key items k = rankIn key others k :=
  same.countP_eq _

@[simp] theorem mem_sortedDown : a ∈ sortedDown key items ↔ a ∈ items :=
  mem_sortedBy _ _ _

theorem pairwise_sortedDown (distinct : (items.map key).Nodup) :
    (sortedDown key items).Pairwise fun a b => key b < key a := by
  have same : (sortedDown key items).Perm items := sortedBy_perm _ _
  have apart : ((sortedDown key items).map key).Nodup := (same.map key).nodup_iff.mpr distinct
  have ordered : (sortedDown key items).Pairwise fun a b => key b ≤ key a :=
    pairwise_sortedBy (fun a => OrderDual.toDual (key a)) items
  refine (ordered.and (List.pairwise_map.mp apart)).imp fun both => ?_
  exact lt_of_le_of_ne both.1 (Ne.symm both.2)

/-- The head of a list that goes down has nothing above it, and is above all others. -/
theorem rankIn_cons {first : α} {rest : List α} (below : ∀ b ∈ rest, key b < key first) :
    rankIn key (first :: rest) (key first) = 0 ∧
      ∀ a ∈ rest, rankIn key (first :: rest) (key a) = rankIn key rest (key a) + 1 := by
  constructor
  · refine List.countP_eq_zero.mpr fun b member => ?_
    rcases List.mem_cons.mp member with rfl | later
    · simp
    · simpa using (below b later).le
  · intro a member
    simp [rankIn, below a member]

/-- In a list that goes down, the first `n` items are those of a rank below `n`. -/
theorem mem_take_iff_rankIn {ordered : List α} {n : Nat}
    (down : ordered.Pairwise fun a b => key b < key a) :
    a ∈ ordered.take n ↔ a ∈ ordered ∧ rankIn key ordered (key a) < n := by
  induction ordered generalizing n with
  | nil => simp
  | cons first rest ih =>
    obtain ⟨below, down⟩ := List.pairwise_cons.mp down
    cases n with
    | zero => simp
    | succ n =>
      rw [List.take_succ_cons, List.mem_cons, List.mem_cons, ih down]
      by_cases head : a = first
      · subst head
        simp [(rankIn_cons below).1]
      · simp only [head, false_or]
        refine and_congr_right fun member => ?_
        rw [(rankIn_cons below).2 a member, Nat.add_lt_add_iff_right]

/-- What is kept and what is not, when all but the first `n` of the sorted items go. -/
theorem mem_drop_iff_rankIn {ordered : List α} {n : Nat}
    (down : ordered.Pairwise fun a b => key b < key a) :
    a ∈ ordered.drop n ↔ a ∈ ordered ∧ n ≤ rankIn key ordered (key a) := by
  induction ordered generalizing n with
  | nil => simp
  | cons first rest ih =>
    obtain ⟨below, down⟩ := List.pairwise_cons.mp down
    cases n with
    | zero => simp
    | succ n =>
      rw [List.drop_succ_cons, ih down]
      by_cases head : a = first
      · subst head
        have absent : a ∉ rest := fun member => lt_irrefl _ (below a member)
        simp [(rankIn_cons below).1, absent]
      · simp only [List.mem_cons, head, false_or]
        refine and_congr_right fun member => ?_
        rw [(rankIn_cons below).2 a member, Nat.add_le_add_iff_right]

/-- A larger key has a smaller rank. -/
theorem rankIn_lt_of_lt {k l : κ} (member : a ∈ items) (here : key a = l) (lower : k < l) :
    rankIn key items l < rankIn key items k := by
  subst here
  unfold rankIn
  rw [List.countP_eq_length_filter, List.countP_eq_length_filter]
  have fewer : (items.filter fun b => key a < key b).Sublist (items.filter fun b => k < key b) :=
    List.monotone_filter_right items fun b above => by
      simp only [decide_eq_true_eq] at above ⊢
      exact lower.trans above
  refine lt_of_le_of_ne fewer.length_le fun same => ?_
  have equal := fewer.eq_of_length same
  have inside : a ∈ items.filter fun b => k < key b := by
    simpa using ⟨member, lower⟩
  rw [← equal] at inside
  simp at inside

end MegooPM.Lib
