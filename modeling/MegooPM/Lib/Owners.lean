import Mathlib.Data.Set.Finite.Lemmas
import Mathlib.Order.Bounds.Basic

/-!
# Least holders

Every name goes to the least of those that hold it. A reader may take different names for
one: who answers for a reading then depends on how its holders spell it. There is one
answer, from the least holder of all, exactly where that holder has every spelling.
-/
namespace MegooPM.Lib

variable {ι ν κ : Type} [LinearOrder ι] (holders : ν → Set ι) (fold : ν → κ)

/-- Who holds the reading in some spelling. -/
def foldedHolders (k : κ) : Set ι :=
  {i | ∃ n, fold n = k ∧ i ∈ holders n}

/-- Who answers for the reading, when each spelling goes to its least holder. -/
def answering (k : κ) : Set ι :=
  {i | ∃ n, fold n = k ∧ IsLeast (holders n) i}

variable {holders fold} {k : κ} {i : ι}

theorem exists_isLeast {s : Set ι} (finite : s.Finite) (some_ : s.Nonempty) : ∃ i, IsLeast s i := by
  obtain ⟨i, inside, least⟩ := Set.exists_min_image s id finite some_
  exact ⟨i, inside, least⟩

theorem answering_eq_singleton_iff (finite : ∀ n, (holders n).Finite)
    (least : IsLeast (foldedHolders holders fold k) i) :
    answering holders fold k = {i} ↔
      ∀ n, fold n = k → (holders n).Nonempty → i ∈ holders n := by
  constructor
  · intro only n reads some_
    obtain ⟨j, owns⟩ := exists_isLeast (finite n) some_
    have answers : j ∈ answering holders fold k := ⟨n, reads, owns⟩
    rw [only, Set.mem_singleton_iff] at answers
    exact answers ▸ owns.1
  · intro spells
    ext j
    rw [Set.mem_singleton_iff]
    constructor
    · rintro ⟨n, reads, owns⟩
      have below : j ≤ i := owns.2 (spells n reads ⟨j, owns.1⟩)
      exact le_antisymm below (least.2 ⟨n, reads, owns.1⟩)
    · rintro rfl
      obtain ⟨n, reads, holds⟩ := least.1
      exact ⟨n, reads, holds, fun e other => least.2 ⟨n, reads, other⟩⟩

end MegooPM.Lib
