import Mathlib.Logic.Relation

/-!
# Transition systems

A system is given by a labelled step relation. A state is reachable when a
finite run of steps leads to it; under a guard on (state, label) pairs only the
steps that meet the guard count. Invariants are proved for one step and lifted
to whole runs here, once.
-/
namespace MegooPM.Lib

variable {σ ε : Type*}

/-- One unlabelled step: some label takes `s` to `s'`. -/
def AnyStep (step : σ → ε → σ → Prop) (s s' : σ) : Prop :=
  ∃ e, step s e s'

/-- States a finite run leads to. -/
def Reaches (step : σ → ε → σ → Prop) : σ → σ → Prop :=
  Relation.ReflTransGen (AnyStep step)

/-- Only the steps that meet the guard. -/
def Guarded (ok : σ → ε → Prop) (step : σ → ε → σ → Prop) (s : σ) (e : ε) (s' : σ) : Prop :=
  ok s e ∧ step s e s'

theorem Reaches.refl (step : σ → ε → σ → Prop) (s : σ) : Reaches step s s :=
  Relation.ReflTransGen.refl

theorem Reaches.tail {step : σ → ε → σ → Prop} {s t u : σ} (run : Reaches step s t) {e : ε}
    (last : step t e u) : Reaches step s u :=
  Relation.ReflTransGen.tail run ⟨e, last⟩

theorem Reaches.head {step : σ → ε → σ → Prop} {s t u : σ} {e : ε} (first : step s e t)
    (run : Reaches step t u) : Reaches step s u :=
  Relation.ReflTransGen.head ⟨e, first⟩ run

theorem Reaches.trans {step : σ → ε → σ → Prop} {s t u : σ} (left : Reaches step s t)
    (right : Reaches step t u) : Reaches step s u :=
  Relation.ReflTransGen.trans left right

/-- A property that every step keeps holds at the end of every run. -/
theorem Reaches.invariant {step : σ → ε → σ → Prop} {P : σ → Prop}
    (keeps : ∀ s e s', P s → step s e s' → P s') {s t : σ} (start : P s)
    (run : Reaches step s t) : P t := by
  induction run with
  | refl => exact start
  | tail _ last ih =>
    obtain ⟨e, moved⟩ := last
    exact keeps _ e _ ih moved

/-- A run is a run of every system with more steps. -/
theorem Reaches.mono {step step' : σ → ε → σ → Prop}
    (sub : ∀ s e t, step s e t → step' s e t) {s t : σ} (run : Reaches step s t) :
    Reaches step' s t := by
  induction run with
  | refl => exact Reaches.refl step' s
  | tail _ last ih =>
    obtain ⟨e, moved⟩ := last
    exact ih.tail (sub _ e _ moved)

/-- A guarded run is a run. -/
theorem Reaches.of_guarded {ok : σ → ε → Prop} {step : σ → ε → σ → Prop} {s t : σ}
    (run : Reaches (Guarded ok step) s t) : Reaches step s t :=
  run.mono fun _ _ _ moved => moved.2

/-- A step-by-step simulation carries whole runs. -/
theorem Reaches.simulate {ρ δ : Type*} {step : σ → ε → σ → Prop} {step' : ρ → δ → ρ → Prop}
    {R : σ → ρ → Prop}
    (follows : ∀ s e t u, R s u → step s e t → ∃ d v, step' u d v ∧ R t v) {s t : σ} {u : ρ}
    (related : R s u) (run : Reaches step s t) : ∃ v, Reaches step' u v ∧ R t v := by
  induction run with
  | refl => exact ⟨u, Reaches.refl step' u, related⟩
  | tail _ last ih =>
    obtain ⟨e, moved⟩ := last
    obtain ⟨v, run', there⟩ := ih
    obtain ⟨d, w, moved', after⟩ := follows _ e _ v there moved
    exact ⟨w, run'.tail moved', after⟩

/-- A system whose labels decide the next state, played along a list of labels. -/
def play (next : σ → ε → Option σ) : List ε → σ → Option σ
  | [], s => some s
  | e :: rest, s => (next s e).bind (play next rest)

/-- The labels meet the guard along the way. -/
def Fits (ok : σ → ε → Prop) (next : σ → ε → Option σ) : List ε → σ → Prop
  | [], _ => True
  | e :: rest, s => ok s e ∧ (next s e).elim True (Fits ok next rest)

theorem Reaches.of_fits {next : σ → ε → Option σ} {ok : σ → ε → Prop} {labels : List ε} {s t : σ}
    (fits : Fits ok next labels s) (played : play next labels s = some t) :
    Reaches (Guarded ok fun s e t => next s e = some t) s t := by
  induction labels generalizing s with
  | nil =>
    cases played
    exact Reaches.refl _ _
  | cons e rest ih =>
    obtain ⟨middle, step, later⟩ := Option.bind_eq_some_iff.mp played
    obtain ⟨first, others⟩ := fits
    rw [step] at others
    exact Reaches.head ⟨first, step⟩ (ih others later)

theorem Fits.of_forall {next : σ → ε → Option σ} {ok : σ → ε → Prop} {labels : List ε}
    (all : ∀ s, ∀ e ∈ labels, ok s e) (s : σ) : Fits ok next labels s := by
  induction labels generalizing s with
  | nil => trivial
  | cons e rest ih =>
    refine ⟨all s e (List.mem_cons_self ..), ?_⟩
    cases next s e with
    | none => trivial
    | some t => exact ih (fun s e member => all s e (List.mem_cons_of_mem _ member)) t

theorem Reaches.of_play {next : σ → ε → Option σ} {ok : σ → ε → Prop} {labels : List ε} {s t : σ}
    (fits : ∀ s, ∀ e ∈ labels, ok s e) (played : play next labels s = some t) :
    Reaches (Guarded ok fun s e t => next s e = some t) s t :=
  Reaches.of_fits (Fits.of_forall fits s) played

end MegooPM.Lib
