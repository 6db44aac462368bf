import Mathlib.Data.List.Nodup
import Mathlib.Data.List.Perm.Basic

/-!
# Rewriting ranges of a list

A patch replaces a range of a list. Several patches of ranges that keep apart can be
applied all at once, each to the list as it was, or one after the other from the last
range to the first: a replacement moves nothing that stands before it.
-/
namespace MegooPM.Lib

/-- What the items from `start` up to `stop`, which is left out, are replaced by. -/
structure Patch (α : Type*) where
  start : Nat
  stop : Nat
  replacement : List α

variable {α : Type*}

namespace Patch

/-- The patch replaces the item at an index. -/
def Touches (p : Patch α) (i : Nat) : Prop :=
  p.start ≤ i ∧ i < p.stop

instance (p : Patch α) (i : Nat) : Decidable (p.Touches i) :=
  inferInstanceAs (Decidable (_ ∧ _))

/-- One range ends where the other begins, or before. -/
def Apart (p q : Patch α) : Prop :=
  p.stop ≤ q.start ∨ q.stop ≤ p.start

/-- A nonempty range of a list of `n` items. -/
def Within (n : Nat) (p : Patch α) : Prop :=
  p.start < p.stop ∧ p.stop ≤ n

/-- One patch applied. -/
def splice (p : Patch α) (items : List α) : List α :=
  items.take p.start ++ p.replacement ++ items.drop p.stop

/-- Two ranges that keep apart do not start at one place. -/
theorem Apart.start_ne {n : Nat} {p q : Patch α} (apart : p.Apart q) (first : p.Within n)
    (second : q.Within n) : p.start ≠ q.start := by
  intro same
  rcases apart with before | after
  · have := first.1
    omega
  · have := second.1
    omega

end Patch

/-! ### All at once -/

/-- What the item at index `i` becomes: a range leaves its replacement where it begins. -/
def rewriteItem (patches : List (Patch α)) (i : Nat) (x : α) : List α :=
  (patches.filter (·.start = i)).flatMap (·.replacement) ++
    if patches.any (·.Touches i) then [] else [x]

/-- The items from index `i` on. -/
def rewriteFrom (patches : List (Patch α)) : Nat → List α → List α
  | _, [] => []
  | i, x :: rest => rewriteItem patches i x ++ rewriteFrom patches (i + 1) rest

/-- Every range replaced, each where it stands in the list as it was. -/
def rewrite (patches : List (Patch α)) (items : List α) : List α :=
  rewriteFrom patches 0 items

/-- The items from index `i` on that no patch replaces. -/
def untouchedFrom (patches : List (Patch α)) : Nat → List α → List α
  | _, [] => []
  | i, x :: rest =>
    if patches.any (·.Touches i) then untouchedFrom patches (i + 1) rest
    else x :: untouchedFrom patches (i + 1) rest

/-- The items that no patch replaces. -/
def untouched (patches : List (Patch α)) (items : List α) : List α :=
  untouchedFrom patches 0 items

theorem rewriteFrom_append (patches : List (Patch α)) (i : Nat) (left right : List α) :
    rewriteFrom patches i (left ++ right) =
      rewriteFrom patches i left ++ rewriteFrom patches (i + left.length) right := by
  induction left generalizing i with
  | nil => simp [rewriteFrom]
  | cons x rest ih =>
    simp only [List.cons_append, rewriteFrom, ih, List.append_assoc, List.length_cons]
    rw [Nat.add_assoc, Nat.add_comm 1]

/-- Where no range begins or goes on, the items stay. -/
theorem rewriteFrom_of_untouched {patches : List (Patch α)} {i : Nat} {items : List α}
    (free : ∀ p ∈ patches, ∀ j, i ≤ j → j < i + items.length → ¬p.Touches j ∧ p.start ≠ j) :
    rewriteFrom patches i items = items := by
  induction items generalizing i with
  | nil => rfl
  | cons x rest ih =>
    rw [List.length_cons] at free
    have here := fun p member => free p member i (Nat.le_refl i) (by omega)
    have none_starts : patches.filter (·.start = i) = [] := by
      rw [List.filter_eq_nil_iff]
      intro p member
      simpa using (here p member).2
    have none_touches : patches.any (·.Touches i) = false := by
      rw [List.any_eq_false]
      intro p member
      simpa using (here p member).1
    have item : rewriteItem patches i x = [x] := by
      rw [rewriteItem, none_starts, none_touches]
      rfl
    have later : rewriteFrom patches (i + 1) rest = rest :=
      ih fun p member j above below => free p member j (by omega) (by omega)
    rw [rewriteFrom, item, later, List.singleton_append]

/-- Inside a range, past its first item, nothing is left. -/
theorem rewriteFrom_inside {patches : List (Patch α)} {p : Patch α} (own : p ∈ patches) {i : Nat}
    {items : List α} (after : p.start < i) (before : i + items.length ≤ p.stop)
    (alone : ∀ q ∈ patches, ∀ j, p.start < j → j < p.stop → q.start ≠ j) :
    rewriteFrom patches i items = [] := by
  induction items generalizing i with
  | nil => rfl
  | cons x rest ih =>
    rw [List.length_cons] at before
    have none_starts : patches.filter (·.start = i) = [] := by
      rw [List.filter_eq_nil_iff]
      intro q member
      simpa using alone q member i after (by omega)
    have touched : patches.any (·.Touches i) = true := by
      refine List.any_eq_true.mpr ⟨p, own, ?_⟩
      exact decide_eq_true ⟨by omega, by omega⟩
    rw [rewriteFrom, rewriteItem, none_starts, if_pos touched, ih (by omega) (by omega)]
    rfl

/-- What the untouched items become, in order, is part of the result. -/
theorem untouched_sublist (patches : List (Patch α)) (items : List α) :
    (untouched patches items).Sublist (rewrite patches items) := by
  suffices all : ∀ i, (untouchedFrom patches i items).Sublist (rewriteFrom patches i items) from all 0
  induction items with
  | nil => exact fun _ => .slnil
  | cons x rest ih =>
    intro i
    rw [untouchedFrom, rewriteFrom, rewriteItem]
    split
    next => exact (ih (i + 1)).trans (List.sublist_append_right ..)
    next =>
      rw [List.append_assoc]
      exact ((ih (i + 1)).cons_cons x).trans (List.sublist_append_right ..)

/-! ### The order of the patches does not matter -/

/-- At most one range begins at an index. -/
private theorem filter_start_eq {n : Nat} {patches : List (Patch α)}
    (apart : patches.Pairwise Patch.Apart) (within : ∀ p ∈ patches, p.Within n) {p : Patch α}
    (member : p ∈ patches) : patches.filter (·.start = p.start) = [p] := by
  induction patches with
  | nil => cases member
  | cons q rest ih =>
    obtain ⟨first, others⟩ := List.pairwise_cons.mp apart
    rcases List.mem_cons.mp member with rfl | later
    · have none : rest.filter (·.start = p.start) = [] := by
        rw [List.filter_eq_nil_iff]
        intro r inside
        simpa using ((first r inside).start_ne (within p member)
          (within r (List.mem_cons_of_mem _ inside))).symm
      rw [List.filter_cons_of_pos (by simp), none]
    · have other : q.start ≠ p.start := (first p later).start_ne
        (within q (List.mem_cons_self ..)) (within p member)
      rw [List.filter_cons_of_neg (by simpa using other)]
      exact ih others (fun r inside => within r (List.mem_cons_of_mem _ inside)) later

/-- Two lists of the same patches, whose ranges keep apart, rewrite a list alike. -/
theorem rewrite_congr {n : Nat} {left right : List (Patch α)}
    (apart : left.Pairwise Patch.Apart) (apart' : right.Pairwise Patch.Apart)
    (within : ∀ p ∈ left, p.Within n) (same : ∀ p, p ∈ left ↔ p ∈ right) (items : List α) :
    rewrite left items = rewrite right items := by
  have within' : ∀ p ∈ right, p.Within n := fun p member => within p ((same p).mpr member)
  have starts : ∀ i, left.filter (·.start = i) = right.filter (·.start = i) := by
    intro i
    by_cases begins : ∃ p ∈ left, p.start = i
    · obtain ⟨p, member, rfl⟩ := begins
      rw [filter_start_eq apart within member, filter_start_eq apart' within' ((same p).mp member)]
    · have none : left.filter (·.start = i) = [] := by
        rw [List.filter_eq_nil_iff]
        intro p member
        simpa using fun start => begins ⟨p, member, start⟩
      have none' : right.filter (·.start = i) = [] := by
        rw [List.filter_eq_nil_iff]
        intro p member
        simpa using fun start => begins ⟨p, (same p).mpr member, start⟩
      rw [none, none']
  have touched : ∀ i, left.any (·.Touches i) = right.any (·.Touches i) := by
    intro i
    rw [Bool.eq_iff_iff, List.any_eq_true, List.any_eq_true]
    exact exists_congr fun p => and_congr_left fun _ => same p
  have item : ∀ i x, rewriteItem left i x = rewriteItem right i x := by
    intro i x
    rw [rewriteItem, rewriteItem, starts, touched]
  suffices all : ∀ i, rewriteFrom left i items = rewriteFrom right i items from all 0
  induction items with
  | nil => exact fun _ => rfl
  | cons x rest ih => exact fun i => by rw [rewriteFrom, rewriteFrom, item, ih]

/-! ### One after the other, from the last to the first -/

/-- A range that has ended does nothing to what follows. -/
private theorem rewriteFrom_past {p : Patch α} {rest : List (Patch α)} {i : Nat}
    (proper : p.start < p.stop) (past : p.stop ≤ i) (items : List α) :
    rewriteFrom (p :: rest) i items = rewriteFrom rest i items := by
  induction items generalizing i with
  | nil => rfl
  | cons x others ih =>
    have starts : (p :: rest).filter (·.start = i) = rest.filter (·.start = i) :=
      List.filter_cons_of_neg (by simp; omega)
    have touched : (p :: rest).any (·.Touches i) = rest.any (·.Touches i) := by
      rw [List.any_cons, decide_eq_false, Bool.false_or]
      exact fun touches => absurd touches.2 (by omega)
    rw [rewriteFrom, rewriteFrom, rewriteItem, rewriteItem, starts, touched, ih (by omega)]

/-- A whole range becomes its replacement, when the other ranges come later. -/
private theorem rewriteFrom_range {p : Patch α} {rest : List (Patch α)}
    (later : ∀ q ∈ rest, p.stop ≤ q.start) {range : List α} (proper : p.start < p.stop)
    (wide : p.start + range.length = p.stop) :
    rewriteFrom (p :: rest) p.start range = p.replacement := by
  cases range with
  | nil =>
    rw [List.length_nil] at wide
    omega
  | cons x others =>
    rw [List.length_cons] at wide
    have none : rest.filter (·.start = p.start) = [] := by
      rw [List.filter_eq_nil_iff]
      intro q member
      have above := later q member
      simp only [decide_eq_true_eq]
      omega
    have starts : (p :: rest).filter (·.start = p.start) = [p] := by
      rw [List.filter_cons_of_pos (by simp), none]
    have touched : (p :: rest).any (·.Touches p.start) = true :=
      List.any_eq_true.mpr ⟨p, List.mem_cons_self .., decide_eq_true ⟨Nat.le_refl _, proper⟩⟩
    have inner : rewriteFrom (p :: rest) (p.start + 1) others = [] := by
      apply rewriteFrom_inside (List.mem_cons_self ..) (by omega) (by omega)
      intro q member j above below
      rcases List.mem_cons.mp member with rfl | inside
      · omega
      · have := later q inside
        omega
    rw [rewriteFrom, rewriteItem, starts, if_pos touched, inner]
    simp

/-- A list cut at the two ends of a range. -/
private theorem cut_range {p : Patch α} {items : List α} (within : p.Within items.length) :
    ∃ before range after : List α, items = before ++ (range ++ after) ∧ before.length = p.start ∧
      p.start + range.length = p.stop := by
  obtain ⟨proper, inside⟩ := within
  refine ⟨items.take p.start, (items.drop p.start).take (p.stop - p.start), items.drop p.stop,
    ?_, by rw [List.length_take]; omega, ?_⟩
  · have rejoin : items.drop p.stop = (items.drop p.start).drop (p.stop - p.start) := by
      rw [List.drop_drop]
      congr 1
      omega
    rw [rejoin, List.take_append_drop, List.take_append_drop]
  · rw [List.length_take, List.length_drop]
    omega

/-- Patches in the order of their ranges, applied from the last to the first, rewrite the list
as all at once. -/
theorem foldr_splice {patches : List (Patch α)} {items : List α}
    (ordered : patches.Pairwise fun p q => p.stop ≤ q.start)
    (within : ∀ p ∈ patches, p.Within items.length) :
    patches.foldr Patch.splice items = rewrite patches items := by
  induction patches with
  | nil => exact (rewriteFrom_of_untouched (by simp)).symm
  | cons p rest ih =>
    obtain ⟨later, others⟩ := List.pairwise_cons.mp ordered
    have own := within p (List.mem_cons_self ..)
    have proper := own.1
    rw [List.foldr_cons, ih others fun q member => within q (List.mem_cons_of_mem _ member)]
    obtain ⟨before, range, after, rfl, long, wide⟩ := cut_range own
    have beyond : ∀ q ∈ rest, ∀ j, j < p.stop → ¬q.Touches j ∧ q.start ≠ j := by
      intro q member j below
      have above := later q member
      exact ⟨fun touches => absurd touches.1 (by omega), by omega⟩
    -- the later patches leave everything up to the end of the range
    have kept : rewrite rest (before ++ (range ++ after)) =
        before ++ (range ++ rewriteFrom rest p.stop after) := by
      rw [rewrite, rewriteFrom_append, rewriteFrom_append, Nat.zero_add, long, wide,
        rewriteFrom_of_untouched fun q member j _ below => beyond q member j (by omega),
        rewriteFrom_of_untouched fun q member j _ below => beyond q member j (by omega)]
    have head : rewriteFrom (p :: rest) 0 before = before := by
      apply rewriteFrom_of_untouched
      intro q member j _ below
      rcases List.mem_cons.mp member with rfl | inside
      · exact ⟨fun touches => absurd touches.1 (by omega), by omega⟩
      · exact beyond q inside j (by omega)
    calc p.splice (rewrite rest (before ++ (range ++ after)))
        = before ++ p.replacement ++ rewriteFrom rest p.stop after := by
          have end_ : p.stop = (before ++ range).length := by
            rw [List.length_append]
            omega
          rw [kept, Patch.splice, ← long, List.take_left, ← List.append_assoc, end_, List.drop_left]
      _ = rewriteFrom (p :: rest) 0 before ++ (rewriteFrom (p :: rest) p.start range ++
            rewriteFrom (p :: rest) p.stop after) := by
          rw [head, rewriteFrom_range later proper wide, rewriteFrom_past proper (Nat.le_refl _),
            List.append_assoc]
      _ = rewrite (p :: rest) (before ++ (range ++ after)) := by
          rw [rewrite, rewriteFrom_append, rewriteFrom_append, Nat.zero_add, long, wide]

end MegooPM.Lib
