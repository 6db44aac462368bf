import Mathlib.Data.List.Basic

/-!
# Computations that may raise

Inverting a bind, and loops that stop at the first error.
-/
namespace MegooPM.Lib

variable {α β ε : Type}

/-- A bind that returns: both parts returned. -/
theorem bind_eq_ok {x : Except ε α} {f : α → Except ε β} {b : β} (ran : (x >>= f) = .ok b) :
    ∃ a, x = .ok a ∧ f a = .ok b := by
  cases x with
  | error e => cases ran
  | ok a => exact ⟨a, rfl, ran⟩

theorem bind_eq_ok_iff {x : Except ε α} {f : α → Except ε β} {b : β} :
    (x >>= f) = .ok b ↔ ∃ a, x = .ok a ∧ f a = .ok b := by
  refine ⟨bind_eq_ok, ?_⟩
  rintro ⟨a, rfl, ran⟩
  exact ran

theorem map_eq_ok {x : Except ε α} {f : α → β} {b : β} (ran : x.map f = .ok b) :
    ∃ a, x = .ok a ∧ f a = b := by
  cases x with
  | error e => cases ran
  | ok a =>
    cases ran
    exact ⟨a, rfl, rfl⟩

theorem mapError_eq_ok {ε' : Type} {x : Except ε α} {f : ε → ε'} {a : α}
    (ran : x.mapError f = .ok a) : x = .ok a := by
  cases x with
  | error e => cases ran
  | ok b =>
    cases ran
    rfl

theorem mapError_eq_ok_iff {ε' : Type} {x : Except ε α} {f : ε → ε'} {a : α} :
    x.mapError f = .ok a ↔ x = .ok a := by
  refine ⟨mapError_eq_ok, ?_⟩
  rintro rfl
  rfl

/-- The value, or the error where there is none. -/
def orRaise (o : Option α) (e : ε) : Except ε α :=
  match o with
  | some a => .ok a
  | none => .error e

theorem orRaise_eq_ok {o : Option α} {e : ε} {a : α} (ran : orRaise o e = .ok a) : o = some a := by
  cases o with
  | none => cases ran
  | some b =>
    cases ran
    rfl

/-- A loop none of whose items raises. -/
theorem mapM_eq_ok {f : α → Except ε β} {g : α → β} {items : List α}
    (each : ∀ a ∈ items, f a = .ok (g a)) : items.mapM f = .ok (items.map g) := by
  induction items with
  | nil => rfl
  | cons a rest ih =>
    have head := each a (List.mem_cons_self ..)
    have tail := ih fun b member => each b (List.mem_cons_of_mem _ member)
    rw [List.mapM_cons, head, tail]
    rfl

/-- A loop that returns, when an item that does not raise can only give `g` of it. -/
theorem eq_map_of_mapM_ok {f : α → Except ε β} {g : α → β} {items : List α} {results : List β}
    (only : ∀ a b, f a = .ok b → b = g a) (ran : items.mapM f = .ok results) :
    results = items.map g := by
  induction items generalizing results with
  | nil =>
    cases ran
    rfl
  | cons a rest ih =>
    rw [List.mapM_cons] at ran
    obtain ⟨b, first, ran⟩ := bind_eq_ok ran
    obtain ⟨bs, later, ran⟩ := bind_eq_ok ran
    cases ran
    rw [List.map_cons, only a b first, ih later]

/-- A loop that returns has raised at no item. -/
theorem ok_of_mapM_ok {f : α → Except ε β} {items : List α} {results : List β}
    (ran : items.mapM f = .ok results) : ∀ a ∈ items, ∃ b, f a = .ok b := by
  induction items generalizing results with
  | nil =>
    intro a member
    cases member
  | cons a rest ih =>
    rw [List.mapM_cons] at ran
    obtain ⟨b, first, ran⟩ := bind_eq_ok ran
    obtain ⟨bs, later, _⟩ := bind_eq_ok ran
    intro c member
    rcases List.mem_cons.mp member with rfl | member
    · exact ⟨b, first⟩
    · exact ih later c member

/-- What holds of each result of an item holds of every result of the loop. -/
theorem forall_of_mapM_ok {f : α → Except ε β} {P : β → Prop} {items : List α} {results : List β}
    (each : ∀ a b, f a = .ok b → P b) (ran : items.mapM f = .ok results) : ∀ b ∈ results, P b := by
  induction items generalizing results with
  | nil =>
    cases ran
    intro b member
    cases member
  | cons a rest ih =>
    rw [List.mapM_cons] at ran
    obtain ⟨first, head, ran⟩ := bind_eq_ok ran
    obtain ⟨others, later, ran⟩ := bind_eq_ok ran
    cases ran
    intro b member
    rcases List.mem_cons.mp member with rfl | member
    · exact each a b head
    · exact ih later b member

/-- A loop for its checks alone: where it returns, every check has passed. -/
theorem ok_of_forM_ok {f : α → Except ε Unit} {items : List α} (ran : items.forM f = .ok ()) :
    ∀ a ∈ items, f a = .ok () := by
  induction items with
  | nil =>
    intro a member
    cases member
  | cons a rest ih =>
    obtain ⟨_, first, later⟩ := bind_eq_ok ran
    intro b member
    rcases List.mem_cons.mp member with rfl | member
    · exact first
    · exact ih later b member

/-- A loop for its checks raises what one of them raises. -/
theorem error_of_forM_error {f : α → Except ε Unit} {items : List α} {e : ε}
    (ran : items.forM f = .error e) : ∃ a ∈ items, f a = .error e := by
  induction items with
  | nil => cases ran
  | cons a rest ih =>
    change (f a >>= fun _ => rest.forM f) = .error e at ran
    cases first : f a with
    | error raised =>
      rw [first] at ran
      cases ran
      exact ⟨a, List.mem_cons_self, first⟩
    | ok _ =>
      rw [first] at ran
      obtain ⟨b, member, raised⟩ := ih ran
      exact ⟨b, List.mem_cons_of_mem _ member, raised⟩

end MegooPM.Lib
