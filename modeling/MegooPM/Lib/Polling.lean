import Mathlib.Data.List.Nodup

/-!
# Asking until all have answered

Items are asked in rounds until each has answered or it is time to stop. Who answered in a round
is not asked again. What is left is said by the answers alone, and how many rounds there are by
what is left and the moment to stop.
-/
namespace MegooPM.Lib.Polling

variable {ι : Type} (answered : Nat → ι → Bool) (stop : Nat → Bool)

/-- Those of the items that have not answered in the first rounds. -/
def remaining (items : List ι) : Nat → List ι
  | 0 => items
  | k + 1 => (remaining items k).filter fun i => !answered k i

/-- The number of rounds, from the round `k` on and for at most as many as the first number
says; `none` where there would be more. -/
def rounds (items : List ι) : Nat → Nat → Option Nat
  | 0, _ => none
  | bound + 1, k =>
    if (remaining answered items (k + 1)).isEmpty || stop (k + 1) then some (k + 1)
    else rounds items bound (k + 1)

variable {answered stop} {items : List ι}

theorem mem_remaining {k : Nat} {i : ι} :
    i ∈ remaining answered items k ↔ i ∈ items ∧ ∀ j < k, answered j i = false := by
  induction k with
  | zero => simp [remaining]
  | succ k ih =>
    rw [remaining, List.mem_filter, ih, Bool.not_eq_true']
    constructor
    · rintro ⟨⟨member, before⟩, last⟩
      refine ⟨member, fun j below => ?_⟩
      rcases Nat.lt_succ_iff_lt_or_eq.mp below with earlier | rfl
      · exact before j earlier
      · exact last
    · rintro ⟨member, all⟩
      exact ⟨⟨member, fun j below => all j (Nat.lt_succ_of_lt below)⟩, all k (Nat.lt_succ_self k)⟩

theorem nodup_remaining (distinct : items.Nodup) (k : Nat) :
    (remaining answered items k).Nodup := by
  induction k with
  | zero => exact distinct
  | succ k ih => exact ih.filter _

/-- The rounds end where nothing is left or it is time, and not before. -/
theorem rounds_spec {bound k n : Nat} (ran : rounds answered stop items bound k = some n) :
    k < n ∧ n ≤ k + bound ∧ (remaining answered items n = [] ∨ stop n = true) ∧
      ∀ j, k < j → j < n → remaining answered items j ≠ [] ∧ stop j = false := by
  induction bound generalizing k with
  | zero => cases ran
  | succ bound ih =>
    rw [rounds] at ran
    split at ran
    next ends =>
      cases ran
      rw [Bool.or_eq_true, List.isEmpty_iff] at ends
      exact ⟨Nat.lt_succ_self k, by omega, ends, fun j above below => by omega⟩
    next goes =>
      obtain ⟨later, within, ends, before⟩ := ih ran
      refine ⟨by omega, by omega, ends, fun j above below => ?_⟩
      rw [Bool.or_eq_true, not_or, List.isEmpty_iff, Bool.not_eq_true] at goes
      rcases Nat.lt_or_ge (k + 1) j with next | here
      · exact before j next below
      · have same : j = k + 1 := by omega
        exact same ▸ goes

end MegooPM.Lib.Polling
