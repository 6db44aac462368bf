import MegooPM.Lib.Transition
import Mathlib.Data.List.Nodup
import Mathlib.Logic.Function.Basic

/-!
# Entries that are used once

A shared store whose entries are put under fresh keys and read by taking them out. Whoever took an
entry may use it once or drop it; the store may lose entries at any time. What was taken or lost
does not come back, so no entry is used twice, whoever takes what and in any order.
-/
namespace MegooPM.Lib

/-- The store, what was ever put, what each taker holds, and the uses so far. -/
structure Ledger (κ ν ρ : Type) where
  entries : κ → Option ν := fun _ => none
  issued : List (κ × ν) := []
  held : ρ → Option (κ × ν) := fun _ => none
  used : List (ρ × κ × ν) := []

inductive Move (κ ν ρ : Type) where
  | put (k : κ) (v : ν)
  | lose (k : κ)
  | take (r : ρ) (k : κ)
  | drop (r : ρ)
  | use (r : ρ)

namespace Ledger

variable {κ ν ρ : Type} [DecidableEq κ] [DecidableEq ρ]

/-- One taker reads an entry and deletes it in the same step. -/
def take (s : Ledger κ ν ρ) (r : ρ) (k : κ) : Ledger κ ν ρ :=
  match s.entries k with
  | none => s
  | some v => { s with
      entries := Function.update s.entries k none
      held := Function.update s.held r (some (k, v)) }

/-- A taker uses what it holds. -/
def use (s : Ledger κ ν ρ) (r : ρ) : Ledger κ ν ρ :=
  match s.held r with
  | none => s
  | some (k, v) => { s with
      held := Function.update s.held r none, used := (r, k, v) :: s.used }

def apply (s : Ledger κ ν ρ) : Move κ ν ρ → Ledger κ ν ρ
  | .put k v => { s with
      entries := Function.update s.entries k (some v), issued := (k, v) :: s.issued }
  | .lose k => { s with entries := Function.update s.entries k none }
  | .take r k => s.take r k
  | .drop r => { s with held := Function.update s.held r none }
  | .use r => s.use r

/-- Entries are put under keys that were never put before. -/
def Fresh (s : Ledger κ ν ρ) : Move κ ν ρ → Prop
  | .put k _ => k ∉ s.issued.map Prod.fst
  | _ => True

def Step (s : Ledger κ ν ρ) (m : Move κ ν ρ) (t : Ledger κ ν ρ) : Prop :=
  s.Fresh m ∧ s.apply m = t

/-- An entry is in the store, with one taker, or gone. -/
structure Sound (s : Ledger κ ν ρ) : Prop where
  stored : ∀ k v, s.entries k = some v → (k, v) ∈ s.issued
  taken : ∀ r k v, s.held r = some (k, v) → (k, v) ∈ s.issued ∧ s.entries k = none
  single : ∀ r r' k v v', s.held r = some (k, v) → s.held r' = some (k, v') → r = r'
  spent : ∀ r k v, (r, k, v) ∈ s.used → (k, v) ∈ s.issued ∧ s.entries k = none ∧
    ∀ r' v', s.held r' ≠ some (k, v')
  fresh : (s.issued.map Prod.fst).Nodup
  once : (s.used.map (·.2.1)).Nodup

/-- Nobody can get at the entry any more. -/
def Gone (s : Ledger κ ν ρ) (k : κ) : Prop :=
  s.entries k = none ∧ ∀ r v, s.held r ≠ some (k, v)

omit [DecidableEq κ] [DecidableEq ρ] in
theorem sound_empty : ({} : Ledger κ ν ρ).Sound := by
  constructor <;> simp

section Steps

variable {s t : Ledger κ ν ρ}

omit [DecidableEq κ] [DecidableEq ρ] in
private theorem key_of_mem {k : κ} {v : ν} (member : (k, v) ∈ s.issued) :
    k ∈ s.issued.map Prod.fst :=
  List.mem_map.mpr ⟨_, member, rfl⟩

omit [DecidableEq ρ] in
theorem Sound.put (sound : s.Sound) {k : κ} (v : ν) (new : k ∉ s.issued.map Prod.fst) :
    ({ s with
      entries := Function.update s.entries k (some v), issued := (k, v) :: s.issued } :
      Ledger κ ν ρ).Sound := by
  -- what is held or used was issued, so it is another key
  have other : ∀ {j w}, (j, w) ∈ s.issued → j ≠ k := fun member same =>
    new (same ▸ key_of_mem member)
  refine ⟨fun j w here => ?_, fun r j w holds => ?_, sound.single, fun r j w member => ?_,
    List.nodup_cons.mpr ⟨new, sound.fresh⟩, sound.once⟩
  · by_cases same : j = k
    · subst same
      simp only [Function.update_self, Option.some.injEq] at here
      exact here ▸ List.mem_cons_self ..
    · simp only [Function.update_of_ne same] at here
      exact List.mem_cons_of_mem _ (sound.stored j w here)
  · obtain ⟨issued, absent⟩ := sound.taken r j w holds
    simp only [Function.update_of_ne (other issued)]
    exact ⟨List.mem_cons_of_mem _ issued, absent⟩
  · obtain ⟨issued, absent, free⟩ := sound.spent r j w member
    simp only [Function.update_of_ne (other issued)]
    exact ⟨List.mem_cons_of_mem _ issued, absent, free⟩

omit [DecidableEq ρ] in
private theorem absent_update {j k : κ} (absent : s.entries j = none) :
    Function.update s.entries k none j = none := by
  by_cases same : j = k
  · rw [same, Function.update_self]
  · rw [Function.update_of_ne same, absent]

omit [DecidableEq ρ] in
private theorem present_update {j k : κ} {v : ν}
    (here : Function.update s.entries k none j = some v) : s.entries j = some v := by
  by_cases same : j = k
  · rw [same, Function.update_self] at here
    cases here
  · rwa [Function.update_of_ne same] at here

omit [DecidableEq ρ] in
theorem Sound.lose (sound : s.Sound) (k : κ) :
    ({ s with entries := Function.update s.entries k none } : Ledger κ ν ρ).Sound where
  stored _ _ here := sound.stored _ _ (present_update here)
  taken r j v holds := (sound.taken r j v holds).imp_right absent_update
  single := sound.single
  spent r j v member := (sound.spent r j v member).imp_right (And.imp_left absent_update)
  fresh := sound.fresh
  once := sound.once

omit [DecidableEq κ] in
/-- What is held once a taker holds nothing. -/
private theorem held_update {r r' : ρ} {entry : κ × ν}
    (holds : Function.update s.held r none r' = some entry) : s.held r' = some entry := by
  by_cases same : r' = r
  · rw [same, Function.update_self] at holds
    cases holds
  · rwa [Function.update_of_ne same] at holds

omit [DecidableEq κ] in
theorem Sound.drop (sound : s.Sound) (r : ρ) :
    ({ s with held := Function.update s.held r none } : Ledger κ ν ρ).Sound where
  stored := sound.stored
  taken r' k v holds := sound.taken r' k v (held_update holds)
  single r' r'' k v v' holds holds' :=
    sound.single r' r'' k v v' (held_update holds) (held_update holds')
  spent r' k v member :=
    (sound.spent r' k v member).imp_right (And.imp_right fun free r'' v' holds =>
      free r'' v' (held_update holds))
  fresh := sound.fresh
  once := sound.once

theorem Sound.take (sound : s.Sound) (r : ρ) (k : κ) : (s.take r k).Sound := by
  unfold Ledger.take
  split
  next => exact sound
  next v here =>
    -- nobody holds or has used what is still in the store
    have unheld : ∀ r' v', s.held r' ≠ some (k, v') := by
      intro r' v' holds
      have absent := (sound.taken r' k v' holds).2
      rw [here] at absent
      cases absent
    have cases_held : ∀ {r' : ρ} {j : κ} {w : ν},
        Function.update s.held r (some (k, v)) r' = some (j, w) →
        (r' = r ∧ j = k ∧ w = v) ∨ s.held r' = some (j, w) := by
      intro r' j w holds
      by_cases same : r' = r
      · rw [same, Function.update_self] at holds
        cases holds
        exact Or.inl ⟨same, rfl, rfl⟩
      · rw [Function.update_of_ne same] at holds
        exact Or.inr holds
    refine ⟨fun j w there => sound.stored j w (present_update there), fun r' j w holds => ?_,
      fun r' r'' j w w' holds holds' => ?_, fun r' j w member => ?_, sound.fresh, sound.once⟩
    · rcases cases_held holds with ⟨rfl, rfl, rfl⟩ | before
      · exact ⟨sound.stored _ _ here, Function.update_self ..⟩
      · exact (sound.taken r' j w before).imp_right absent_update
    · rcases cases_held holds with ⟨rfl, rfl, rfl⟩ | before
      · rcases cases_held holds' with ⟨rfl, _, _⟩ | before'
        · rfl
        · exact absurd before' (unheld r'' w')
      · rcases cases_held holds' with ⟨rfl, rfl, rfl⟩ | before'
        · exact absurd before (unheld r' w)
        · exact sound.single r' r'' j w w' before before'
    · obtain ⟨issued, absent, free⟩ := sound.spent r' j w member
      refine ⟨issued, absent_update absent, fun r'' w' holds => ?_⟩
      rcases cases_held holds with ⟨_, rfl, _⟩ | before
      · rw [here] at absent
        cases absent
      · exact free r'' w' before

omit [DecidableEq κ] in
theorem Sound.use (sound : s.Sound) (r : ρ) : (s.use r).Sound := by
  unfold Ledger.use
  split
  next => exact sound
  next k v holds =>
    have dropped := sound.drop r
    obtain ⟨issued, absent⟩ := sound.taken r k v holds
    refine ⟨dropped.stored, dropped.taken, dropped.single, fun r' j w member => ?_, dropped.fresh,
      ?_⟩
    · rcases List.mem_cons.mp member with same | before
      · cases same
        refine ⟨issued, absent, fun r'' v' still => ?_⟩
        -- the one who held it is the only one, and has let go
        have own := sound.single r'' r k v' v (held_update still) holds
        subst own
        simp only [Function.update_self] at still
        cases still
      · exact dropped.spent r' j w before
    · refine List.nodup_cons.mpr ⟨fun member => ?_, sound.once⟩
      obtain ⟨⟨r', j, w⟩, before, rfl⟩ := List.mem_map.mp member
      exact (sound.spent r' j w before).2.2 r v holds

theorem Sound.step (sound : s.Sound) {m : Move κ ν ρ} (moved : s.Step m t) : t.Sound := by
  obtain ⟨fresh, rfl⟩ := moved
  cases m with
  | put k v => exact sound.put v fresh
  | lose k => exact sound.lose k
  | take r k => exact sound.take r k
  | drop r => exact sound.drop r
  | use r => exact sound.use r

/-- What is gone stays gone, and is not used any more. -/
theorem Gone.step {k : κ} (gone : s.Gone k) (old : k ∈ s.issued.map Prod.fst) {m : Move κ ν ρ}
    (moved : s.Step m t) :
    t.Gone k ∧ k ∈ t.issued.map Prod.fst ∧ ∀ use ∈ t.used, use.2.1 = k → use ∈ s.used := by
  obtain ⟨absent, unheld⟩ := gone
  obtain ⟨fresh, rfl⟩ := moved
  cases m with
  | put j v =>
    -- a key is put once, and this one was issued before
    have other : k ≠ j := fun same => fresh (same ▸ old)
    refine ⟨⟨?_, unheld⟩, List.mem_cons_of_mem _ old, fun use member _ => member⟩
    simp only [apply, Function.update_of_ne other]
    exact absent
  | lose j => exact ⟨⟨absent_update absent, unheld⟩, old, fun use member _ => member⟩
  | take r j =>
    simp only [apply, Ledger.take]
    split
    next => exact ⟨⟨absent, unheld⟩, old, fun use member _ => member⟩
    next v here =>
      refine ⟨⟨absent_update absent, fun r' w holds => ?_⟩, old, fun use member _ => member⟩
      by_cases same : r' = r
      · simp only [same, Function.update_self, Option.some.injEq, Prod.mk.injEq] at holds
        rw [holds.1, absent] at here
        cases here
      · simp only [Function.update_of_ne same] at holds
        exact unheld r' w holds
  | drop r =>
    exact ⟨⟨absent, fun r' w holds => unheld r' w (held_update holds)⟩, old,
      fun use member _ => member⟩
  | use r =>
    simp only [apply, Ledger.use]
    split
    next => exact ⟨⟨absent, unheld⟩, old, fun use member _ => member⟩
    next j v holds =>
      refine ⟨⟨absent, fun r' w still => unheld r' w (held_update still)⟩, old,
        fun use member same => ?_⟩
      rcases List.mem_cons.mp member with rfl | before
      · exact absurd (same ▸ holds) (unheld r v)
      · exact before

end Steps

theorem Sound.reaches {s t : Ledger κ ν ρ} (sound : s.Sound) (run : Reaches Step s t) : t.Sound :=
  run.invariant (fun _ _ _ before moved => before.step moved) sound

theorem Gone.reaches {s t : Ledger κ ν ρ} {k : κ} (gone : s.Gone k)
    (old : k ∈ s.issued.map Prod.fst) (run : Reaches Step s t) :
    t.Gone k ∧ k ∈ t.issued.map Prod.fst ∧ ∀ use ∈ t.used, use.2.1 = k → use ∈ s.used := by
  induction run with
  | refl => exact ⟨gone, old, fun use member _ => member⟩
  | tail _ last ih =>
    obtain ⟨m, moved⟩ := last
    obtain ⟨gone, old, uses⟩ := ih
    obtain ⟨gone', old', uses'⟩ := gone.step old moved
    exact ⟨gone', old', fun use member same => uses use (uses' use member same) same⟩

end Ledger

end MegooPM.Lib
