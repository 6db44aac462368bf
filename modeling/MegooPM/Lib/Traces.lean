import Mathlib.Data.List.Infix

/-!
# Traces

A trace lists what a system did, oldest first. A rule says what allows an event after
the ones before it.
-/
namespace MegooPM.Lib

variable {ε : Type*}

/-- Every event of the trace is allowed after the ones before it. -/
def Justified (rule : List ε → ε → Prop) (trace : List ε) : Prop :=
  ∀ before event later, trace = before ++ event :: later → rule before event

variable {rule : List ε → ε → Prop}

theorem Justified.nil : Justified rule [] := by
  intro before event later split
  cases before <;> cases split

theorem Justified.concat {trace : List ε} {event : ε} (justified : Justified rule trace)
    (allowed : rule trace event) : Justified rule (trace ++ [event]) := by
  intro before found later split
  -- the event is the last one, or stands in the trace
  rcases List.append_eq_append_iff.mp split with ⟨middle, rfl, tail⟩ | ⟨middle, rfl, tail⟩
  · cases middle with
    | nil =>
      cases tail
      rw [List.append_nil]
      exact allowed
    | cons first middle => simp at tail
  · cases middle with
    | nil =>
      cases tail
      rw [List.append_nil] at allowed
      exact allowed
    | cons first middle =>
      cases tail
      exact justified before found middle rfl

/-- A step that does one thing at most. -/
theorem Justified.append {trace events : List ε} (justified : Justified rule trace)
    (single : events.length ≤ 1) (allowed : ∀ event ∈ events, rule trace event) :
    Justified rule (trace ++ events) := by
  match events, single with
  | [], _ =>
    rw [List.append_nil]
    exact justified
  | [event], _ => exact justified.concat (allowed event (List.mem_singleton_self _))

end MegooPM.Lib
