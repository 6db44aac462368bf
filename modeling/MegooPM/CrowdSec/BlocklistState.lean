import MegooPM.CrowdSec.Consistency
import Mathlib.Data.List.Infix

/-!
# The reported state of the community blocklist

What `run_capi_apply` says of the switch against what `read_capi_enabled` reads from the file
it leaves. A call that fails reports the opposite of the request, whatever the text it puts
back says.
-/
namespace MegooPM.CrowdSec

open Lib

/-- `read_capi_enabled`; `none` where the file cannot be read. -/
def readCapiEnabled (path : Option ByteArray) : Option Bool :=
  (readFile path).map fun text => holds text "online_client:"

private theorem noCarriageReturn_configLocal (enabled : Bool) :
    NoCarriageReturn (renderConfigLocal enabled) := by
  unfold renderConfigLocal configLocalBase onlineClient credentialsPath
  cases enabled with
  | false =>
    simp only [noCarriageReturn_append, -String.reduceAppend, Bool.false_eq_true, if_false]
    and_intros
    all_goals exact noCarriageReturn_ofList (by decide)
  | true =>
    simp only [noCarriageReturn_append, -String.reduceAppend, if_true]
    and_intros
    all_goals exact noCarriageReturn_ofList (by decide)

/-- A text that does not span lines stands in one of them. -/
private theorem infix_lines {part xs ys : List Char} (single : '\n' ∉ part) :
    part <:+: xs ++ '\n' :: ys ↔ part <:+: xs ∨ part <:+: ys := by
  constructor
  · rintro ⟨front, back, whole⟩
    rcases List.append_eq_append_iff.mp whole with ⟨left, same, rest⟩ | ⟨left, same, rest⟩
    · exact Or.inl ⟨front, left, same.symm⟩
    · -- the line end is behind the part, or in it, or before it
      cases left with
      | nil =>
        rw [List.append_nil] at same
        exact Or.inl ⟨front, [], by rw [List.append_nil, same]⟩
      | cons c left =>
        obtain ⟨rfl, rfl⟩ := List.cons.inj rest
        rcases List.append_eq_append_iff.mp same with ⟨more, _, tail⟩ | ⟨more, _, tail⟩
        · have inside : '\n' ∈ part := by
            rw [tail]
            simp
          exact absurd inside single
        · cases more with
          | nil =>
            have inside : '\n' ∈ part := by
              rw [List.nil_append] at tail
              rw [← tail]
              simp
            exact absurd inside single
          | cons d more =>
            obtain ⟨rfl, rfl⟩ := List.cons.inj tail
            exact Or.inr ⟨more, back, by simp⟩
  · rintro (⟨front, back, rfl⟩ | ⟨front, back, rfl⟩)
    · exact ⟨front, back ++ '\n' :: ys, by simp⟩
    · exact ⟨xs ++ '\n' :: front, back, by simp⟩

private theorem holds_iff {text part : String} :
    holds text part = true ↔ part.toList <:+: text.toList := by
  simp only [holds, List.any_eq_true, List.mem_tails, List.isPrefixOf_iff_prefix,
    List.infix_iff_prefix_suffix, and_comm]

/-- A line that does not hold the part is passed over. -/
private theorem holds_skip {cs : List Char} {rest part : String} {answer : Bool}
    (single : '\n' ∉ part.toList) (ends : cs.getLast? = some '\n') (absent : ¬part.toList <:+: cs)
    (later : holds rest part = answer) : holds (String.ofList cs ++ rest) part = answer := by
  obtain ⟨front, rfl⟩ := List.getLast?_eq_some_iff.mp ends
  rw [← later, Bool.eq_iff_iff, holds_iff, holds_iff, String.toList_append, String.toList_ofList,
    List.append_assoc, List.singleton_append, infix_lines single]
  exact or_iff_right fun inside => absent (inside.trans (List.prefix_append ..).isInfix)

private theorem holds_configLocal (enabled : Bool) :
    holds (renderConfigLocal enabled) "online_client:" = enabled := by
  unfold renderConfigLocal configLocalBase onlineClient
  have single : '\n' ∉ "online_client:".toList := by decide
  cases enabled with
  | false =>
    simp only [Bool.false_eq_true, if_false, String.append_assoc]
    repeat refine holds_skip single (by decide) (by decide +kernel) ?_
    rfl
  | true =>
    simp only [if_true, String.append_assoc]
    repeat refine holds_skip single (by decide) (by decide +kernel) ?_
    rw [holds_iff, String.toList_append]
    exact ⟨"    ".toList, _, rfl⟩

/-- The text that is written says what was asked for. -/
theorem readCapiEnabled_written (enabled : Bool) :
    readCapiEnabled (some (renderConfigLocal enabled).toByteArray) = some enabled := by
  rw [readCapiEnabled, readFile_toByteArray, readText_of_clean (noCarriageReturn_configLocal _),
    Option.map_some, holds_configLocal]

/-- The text put back is read as before. -/
theorem readCapiEnabled_restored {path : Option ByteArray} {previous : String}
    (read : readFile path = some previous) :
    readCapiEnabled (some previous.toByteArray) = readCapiEnabled path := by
  rw [readCapiEnabled, readCapiEnabled, readFile_toByteArray, read,
    readText_of_clean (noCarriageReturn_of_readFile read)]

section

variable (enabled : Bool) (calls : Answers) (path : Option ByteArray)

/-- Every failure reports the opposite of the request. -/
theorem failed_enabled {result : CapiApplyResult}
    (returned : (runCapiApply enabled calls path).1 = some result) (failed : result.ok = false) :
    result.enabled = !enabled := by
  unfold runCapiApply at returned
  cases read : readFile path with
  | none =>
    simp only [read] at returned
    cases returned
  | some previous =>
    simp only [read] at returned
    split at returned
    · cases returned
      cases failed
    next changed =>
      split at returned
      next error refused =>
        cases returned
        -- only switching on asks the engine first
        cases enabled with
        | true => rfl
        | false => cases refused
      next done asked =>
        cases first : calls.restart 0 with
        | raised error started =>
          rw [first] at returned
          cases returned
          rfl
        | restarted =>
          rw [first] at returned
          cases fault : capiFault enabled calls with
          | none =>
            rw [fault] at returned
            cases returned
            cases failed
          | some reason =>
            rw [fault] at returned
            cases second : calls.restart 1 with
            | raised error started =>
              rw [second] at returned
              cases returned
              rfl
            | restarted =>
              rw [second] at returned
              cases returned
              rfl

/-- Whatever the call returns, its flag is what the file says that it leaves. -/
def ReportsState : Prop :=
  ∀ result, (runCapiApply enabled calls path).1 = some result →
    readCapiEnabled (runCapiApply enabled calls path).2 = some result.enabled

/-- The flag reported is the state on disk exactly when the file was left as asked for, by this
call or before it, or did not say before it what was requested. -/
theorem reported_eq_onDisk_iff :
    ReportsState enabled calls path ↔
      (readCapiEnabled path = some enabled →
        readFile path = some (renderConfigLocal enabled) ∨ CapiStays enabled calls path) := by
  unfold ReportsState
  rcases runCapiApply_cases enabled calls path with
    ⟨illegible, out⟩ | ⟨read, out⟩ | ⟨stays, out⟩ |
      ⟨back, previous, read, changed, result, failed, out⟩
  · -- nothing is returned, and the file says nothing
    rw [out]
    simp [readCapiEnabled, illegible]
  · have asked : readCapiEnabled path = some enabled := by
      rw [← readCapiEnabled_restored read, readCapiEnabled_written]
    rw [out, asked]
    simp [read]
  · rw [out]
    simp [readCapiEnabled_written, stays]
  · have flag := failed_enabled enabled calls path (by rw [out]) failed
    have other : ¬readFile path = some (renderConfigLocal enabled) := by
      rw [read]
      exact fun same => changed (Option.some.inj same).symm
    simp only [out, Option.some.injEq, forall_eq', flag, readCapiEnabled_restored read,
      or_iff_right other, iff_false_intro back, imp_false]
    unfold readCapiEnabled
    rw [read, Option.map_some, Option.some.injEq, Option.some.injEq]
    cases enabled with
    | true => simp
    | false => simp

end

/-- Switching off where the file is absent and the container cannot be restarted: the call says
that the blocklist is on. -/
theorem absent_reported_on :
    (runCapiApply false noDocker none).1 = some ⟨false, some "no docker", false, true⟩ ∧
    readCapiEnabled (runCapiApply false noDocker none).2 = some false := by
  decide +kernel

end MegooPM.CrowdSec
