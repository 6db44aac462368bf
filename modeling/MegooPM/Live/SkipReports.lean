import Mathlib
import MegooPM.Lib.Transition

/-!
# The relay's reports of skipped lines

`lua/megoopm_live_relay.lua`: `skip` and `report_skipped` for one host, in every worker. The
workers share a counter and a flag in a dict; each call of the dict is atomic, and between two
calls of one worker there may be any of the others. The dict has room.
-/
namespace MegooPM.Live

open Lib

/-- Where a call of `skip` stands. -/
inductive SkipCall where
  /-- its line is counted -/
  | counted
  /-- it has set the flag -/
  | flagged
  /-- it got no timer -/
  | refused
  | done
deriving DecidableEq

/-- Where the timer of a report stands. -/
inductive SkipReport where
  | scheduled
  /-- it has taken the flag away -/
  | cleared
  /-- it has read a positive count -/
  | read (n : Int)
  /-- it has subtracted what it read, and connects -/
  | taken (n : Int)
  | connected (n : Int)
  | ended
deriving DecidableEq

/-- What the workers share for a host, the calls and timers so far, and what was skipped and
published. -/
structure SkipRelay where
  /-- the value of `skipped_key(host)` -/
  counter : Option Int
  /-- `report_key(host)` is there -/
  flag : Bool
  calls : List SkipCall
  reports : List SkipReport
  skipped : Int
  published : List Int
deriving DecidableEq

inductive SkipEvent where
  /-- `shm:incr(skipped_key(host), 1, 0)` of a new call -/
  | skip
  /-- `shm:add` of the flag -/
  | add (call : Nat)
  /-- `ngx.timer.at(1, …)`, and whether it gives a timer -/
  | timer (call : Nat) (ok : Bool)
  /-- `shm:delete` of the flag after that -/
  | unflag (call : Nat)
  /-- the flag's 5 seconds are over -/
  | lapse
  /-- a timer runs up to its `shm:delete` -/
  | start (report : Nat)
  /-- a timer runs because its worker exits -/
  | premature (report : Nat)
  | get (report : Nat)
  /-- `shm:incr(skipped_key(host), -n)` -/
  | take (report : Nat)
  /-- `connect()`, and whether there is a connection -/
  | connect (report : Nat) (ok : Bool)
  /-- `red:publish`, and whether it gives a number -/
  | publish (report : Nat) (ok : Bool)
deriving DecidableEq

namespace SkipRelay

def empty : SkipRelay := ⟨none, false, [], [], 0, []⟩

/-- A call moves. -/
def setCall (w : SkipRelay) (i : Nat) (c : SkipCall) : SkipRelay :=
  { w with calls := w.calls.set i c }

/-- A report moves. -/
def setReport (w : SkipRelay) (i : Nat) (r : SkipReport) : SkipRelay :=
  { w with reports := w.reports.set i r }

section

variable (w : SkipRelay) (i : Nat) (r : SkipReport)

@[simp] theorem counter_setReport : (w.setReport i r).counter = w.counter := rfl

@[simp] theorem flag_setReport : (w.setReport i r).flag = w.flag := rfl

@[simp] theorem skipped_setReport : (w.setReport i r).skipped = w.skipped := rfl

@[simp] theorem published_setReport : (w.setReport i r).published = w.published := rfl

end

def next (w : SkipRelay) : SkipEvent → Option SkipRelay
  | .skip => some { w with
      counter := some (w.counter.getD 0 + 1), calls := w.calls ++ [.counted],
      skipped := w.skipped + 1 }
  | .add i =>
    if w.calls[i]? = some .counted then
      if w.flag then some (w.setCall i .done)
      else some { w.setCall i .flagged with flag := true }
    else none
  | .timer i ok =>
    if w.calls[i]? = some .flagged then
      if ok then some { w.setCall i .done with reports := w.reports ++ [.scheduled] }
      else some (w.setCall i .refused)
    else none
  | .unflag i =>
    if w.calls[i]? = some .refused then some { w.setCall i .done with flag := false } else none
  | .lapse => some { w with flag := false }
  | .start i =>
    if w.reports[i]? = some .scheduled then some { w.setReport i .cleared with flag := false }
    else none
  | .premature i =>
    if w.reports[i]? = some .scheduled then some (w.setReport i .ended) else none
  | .get i =>
    if w.reports[i]? = some .cleared then
      if w.counter.getD 0 ≤ 0 then some (w.setReport i .ended)
      else some (w.setReport i (.read (w.counter.getD 0)))
    else none
  | .take i =>
    match w.reports[i]? with
    | some (.read n) => some { w.setReport i (.taken n) with counter := w.counter.map (· - n) }
    | _ => none
  | .connect i ok =>
    match w.reports[i]? with
    | some (.taken n) => some (w.setReport i (if ok then .connected n else .ended))
    | _ => none
  | .publish i ok =>
    match w.reports[i]? with
    | some (.connected n) =>
      if ok then some { w.setReport i .ended with published := w.published ++ [n] }
      else some (w.setReport i .ended)
    | _ => none

def Step (w : SkipRelay) (e : SkipEvent) (w' : SkipRelay) : Prop :=
  w.next e = some w'

end SkipRelay

/-- What a report has subtracted and not published. -/
def SkipReport.underWay : SkipReport → Int
  | .taken n => n
  | .connected n => n
  | _ => 0

/-- The count a report has read. -/
def SkipReport.count : SkipReport → Option Int
  | .read n => some n
  | .taken n => some n
  | .connected n => some n
  | _ => none

namespace SkipRelay

def underWay (w : SkipRelay) : Int :=
  (w.reports.map SkipReport.underWay).sum

/-- Every skipped line is counted once: in the counter, or in a report that is published or
under way. -/
def Accounted (w : SkipRelay) : Prop :=
  0 ≤ w.counter.getD 0 ∧ w.skipped = w.counter.getD 0 + w.underWay + w.published.sum

/-- A report is scheduled, or a call is about to schedule it or to take the flag away. -/
def Attended (w : SkipRelay) : Prop :=
  .scheduled ∈ w.reports ∨ .flagged ∈ w.calls ∨ .refused ∈ w.calls

/-- A positive counter has a report, or the next call finds no flag and schedules one. -/
def Reported (w : SkipRelay) : Prop :=
  0 < w.counter.getD 0 → w.flag = false ∨ w.Attended

/-- The steps that lose no line. -/
def Keeps (w : SkipRelay) : SkipEvent → Prop
  -- no other report has taken lines since this one read the counter
  | .take i => ∀ n, w.reports[i]? = some (.read n) → n ≤ w.counter.getD 0
  | .connect _ ok => ok = true
  | .publish _ ok => ok = true
  -- the flag is not left behind without a report
  | .premature i => w.flag = false ∨ (w.setReport i .ended).Attended
  | _ => True

/-! ### One step -/

section

variable {α : Type} {l : List α} {i : Nat} {old new x : α}

private theorem mem_set_here (here : l[i]? = some old) : new ∈ l.set i new := by
  obtain ⟨inside, -⟩ := List.getElem?_eq_some_iff.mp here
  exact List.mem_iff_getElem?.mpr ⟨i, List.getElem?_set_self inside⟩

private theorem mem_set_other (here : l[i]? = some old) (other : old ≠ x) (member : x ∈ l) :
    x ∈ l.set i new := by
  obtain ⟨j, there⟩ := List.mem_iff_getElem?.mp member
  have apart : i ≠ j := by
    rintro rfl
    rw [here] at there
    exact other (Option.some.inj there)
  exact List.mem_iff_getElem?.mpr ⟨j, by rw [List.getElem?_set_ne apart, there]⟩

private theorem sum_map_set (f : α → Int) (here : l[i]? = some old) :
    ((l.set i new).map f).sum = (l.map f).sum - f old + f new := by
  induction l generalizing i with
  | nil => cases here
  | cons a l ih =>
    cases i with
    | zero =>
      cases here
      simp only [List.set_cons_zero, List.map_cons, List.sum_cons]
      omega
    | succ i =>
      simp only [List.set_cons_succ, List.map_cons, List.sum_cons, ih here]
      omega

end

section

variable {w w' : SkipRelay} {i : Nat}

theorem underWay_setReport {old : SkipReport} (here : w.reports[i]? = some old)
    (new : SkipReport) :
    (w.setReport i new).underWay = w.underWay - old.underWay + new.underWay :=
  sum_map_set SkipReport.underWay here

theorem Attended.setReport {old new : SkipReport} (attended : w.Attended)
    (here : w.reports[i]? = some old) (other : old ≠ .scheduled) :
    (w.setReport i new).Attended :=
  attended.imp_left (mem_set_other here other)

theorem Attended.setCall {old new : SkipCall} (attended : w.Attended)
    (here : w.calls[i]? = some old) (flagged : old ≠ .flagged) (refused : old ≠ .refused) :
    (w.setCall i new).Attended :=
  attended.imp_right (Or.imp (mem_set_other here flagged) (mem_set_other here refused))

/-- What every step that keeps the lines keeps. -/
structure Sound (w : SkipRelay) : Prop where
  accounted : w.Accounted
  /-- a report has read a count that is there -/
  positive : ∀ r ∈ w.reports, ∀ n, r.count = some n → 0 < n ∧ w.counter ≠ none
  attended : w.flag = true → w.Attended

theorem sound_empty : Sound empty where
  accounted := ⟨Int.le_refl 0, rfl⟩
  positive := by simp [empty]
  attended := by simp [empty]

theorem Sound.count {r : SkipReport} {n : Int} (sound : Sound w) (here : w.reports[i]? = some r)
    (read : r.count = some n) : 0 < n ∧ w.counter ≠ none :=
  sound.positive r (List.mem_iff_getElem?.mpr ⟨i, here⟩) n read

theorem counts_setReport {new : SkipReport} (sound : Sound w)
    (positive : ∀ n, new.count = some n → 0 < n ∧ w.counter ≠ none) :
    ∀ r ∈ (w.setReport i new).reports, ∀ n, r.count = some n → 0 < n ∧ w.counter ≠ none := by
  intro r member
  rcases List.mem_or_eq_of_mem_set member with before | rfl
  · exact sound.positive r before
  · exact positive

theorem Accounted.setReport {old new : SkipReport} (accounted : w.Accounted)
    (here : w.reports[i]? = some old) (same : new.underWay = old.underWay) :
    (w.setReport i new).Accounted := by
  refine ⟨accounted.1, ?_⟩
  rw [underWay_setReport here, same]
  simpa using accounted.2

/-- A report that moves between two calls of the dict. -/
theorem Sound.setReport (sound : Sound w) {old new : SkipReport} (here : w.reports[i]? = some old)
    (other : old ≠ .scheduled) (same : new.underWay = old.underWay)
    (positive : ∀ n, new.count = some n → 0 < n ∧ w.counter ≠ none) :
    Sound (w.setReport i new) where
  accounted := sound.accounted.setReport here same
  positive := counts_setReport sound positive
  attended flag := (sound.attended flag).setReport here other

/-! Each event by itself. -/

theorem Sound.skip (sound : Sound w) (moved : w.next .skip = some w') : Sound w' := by
  have nonneg := sound.accounted.1
  have balance := sound.accounted.2
  cases moved
  refine ⟨⟨?_, ?_⟩, fun r member n read => ?_, fun flag => ?_⟩
  · simp only [Option.getD_some]
    omega
  · simp only [Option.getD_some]
    change w.skipped + 1 = w.counter.getD 0 + 1 + w.underWay + w.published.sum
    omega
  · exact ⟨(sound.positive r member n read).1, Option.some_ne_none _⟩
  · exact (sound.attended flag).imp_right
      (Or.imp (List.mem_append_left _) (List.mem_append_left _))

theorem Sound.add (sound : Sound w) (moved : w.next (.add i) = some w') : Sound w' := by
  obtain ⟨here, moved⟩ := Option.ite_none_right_eq_some.mp moved
  split at moved
  next flag =>
    cases moved
    exact ⟨sound.accounted, sound.positive, fun flag =>
      (sound.attended flag).setCall here (by decide) (by decide)⟩
  · cases moved
    exact ⟨sound.accounted, sound.positive, fun _ => .inr (.inl (mem_set_here here))⟩

/-- A call that got a timer leaves its report behind, and one without goes on to the flag. -/
theorem Sound.timer {ok : Bool} (sound : Sound w) (moved : w.next (.timer i ok) = some w') :
    Sound w' := by
  obtain ⟨nonneg, balance⟩ := sound.accounted
  obtain ⟨here, moved⟩ := Option.ite_none_right_eq_some.mp moved
  split at moved
  · cases moved
    refine ⟨⟨nonneg, ?_⟩, fun r member n read => ?_, fun _ => ?_⟩
    · simpa [underWay, SkipReport.underWay, SkipRelay.setCall] using balance
    · rcases List.mem_append.mp member with before | now
      · exact sound.positive r before n read
      · rw [List.mem_singleton.mp now] at read
        cases read
    · exact .inl (List.mem_append_right _ (List.mem_singleton_self _))
  · cases moved
    exact ⟨sound.accounted, sound.positive, fun _ => .inr (.inr (mem_set_here here))⟩

/-- Without the flag nobody has to attend to it. -/
theorem Sound.noFlag (sound : Sound w) : Sound { w with flag := false } :=
  ⟨sound.accounted, sound.positive, fun flag => absurd flag (by simp)⟩

theorem Sound.unflag (sound : Sound w) (moved : w.next (.unflag i) = some w') : Sound w' := by
  obtain ⟨here, moved⟩ := Option.ite_none_right_eq_some.mp moved
  cases moved
  exact ⟨sound.accounted, sound.positive, fun flag => absurd flag (by simp)⟩

theorem Sound.start (sound : Sound w) (moved : w.next (.start i) = some w') : Sound w' := by
  obtain ⟨here, moved⟩ := Option.ite_none_right_eq_some.mp moved
  cases moved
  have positive := @counts_setReport w i .cleared sound (by simp [SkipReport.count])
  exact ⟨sound.accounted.setReport here rfl, positive, fun flag => absurd flag (by simp)⟩

theorem Sound.premature (sound : Sound w) (moved : w.next (.premature i) = some w')
    (keeps : w.Keeps (.premature i)) : Sound w' := by
  obtain ⟨here, moved⟩ := Option.ite_none_right_eq_some.mp moved
  cases moved
  have positive := @counts_setReport w i .ended sound (by simp [SkipReport.count])
  refine ⟨sound.accounted.setReport here rfl, positive, fun flag => ?_⟩
  exact (show _ ∨ _ from keeps).resolve_left (by simpa using flag)

theorem Sound.get (sound : Sound w) (moved : w.next (.get i) = some w') : Sound w' := by
  obtain ⟨here, moved⟩ := Option.ite_none_right_eq_some.mp moved
  split at moved
  · cases moved
    exact sound.setReport here (by decide) rfl (by simp [SkipReport.count])
  next some_ =>
    cases moved
    refine sound.setReport here (by decide) rfl ?_
    intro n same
    cases same
    refine ⟨by omega, ?_⟩
    intro none_
    rw [none_] at some_
    exact some_ (Int.le_refl 0)

/-- What a report takes off the counter is under way from now on. -/
theorem Sound.take (sound : Sound w) (moved : w.next (.take i) = some w')
    (keeps : w.Keeps (.take i)) : Sound w' := by
  have balance := sound.accounted.2
  simp only [SkipRelay.next] at moved
  split at moved
  next n here =>
    cases moved
    obtain ⟨positive, there⟩ := sound.count here rfl
    obtain ⟨count, known⟩ := Option.ne_none_iff_exists'.mp there
    have counted : ∀ m, (SkipReport.taken n).count = some m → 0 < m ∧ w.counter ≠ none := by
      rintro m ⟨⟩
      exact ⟨positive, there⟩
    have enough := keeps n here
    rw [known, Option.getD_some] at balance enough
    refine ⟨⟨?_, ?_⟩, fun r member m read => ?_, fun flag => ?_⟩
    · simp only [known, Option.map_some, Option.getD_some]
      omega
    · simp only [known, Option.map_some, Option.getD_some]
      have moves := underWay_setReport here (.taken n)
      simp only [SkipReport.underWay] at moves
      change w.skipped = count - n + (w.setReport i (.taken n)).underWay + w.published.sum
      omega
    · exact ⟨(counts_setReport sound counted r member m read).1, by simp [known]⟩
    · exact (sound.attended flag).setReport here (by simp)
  · cases moved

theorem Sound.connect (sound : Sound w) (moved : w.next (.connect i true) = some w') :
    Sound w' := by
  simp only [SkipRelay.next] at moved
  split at moved
  next n here =>
    cases moved
    refine sound.setReport here (by simp) rfl ?_
    rintro m ⟨⟩
    exact sound.count here rfl
  · cases moved

/-- What a report publishes is under way no more. -/
theorem Sound.publish (sound : Sound w) (moved : w.next (.publish i true) = some w') :
    Sound w' := by
  obtain ⟨nonneg, balance⟩ := sound.accounted
  simp only [SkipRelay.next] at moved
  split at moved
  next n here =>
    cases moved
    have positive := @counts_setReport w i .ended sound (by simp [SkipReport.count])
    refine ⟨⟨nonneg, ?_⟩, positive, fun flag => ?_⟩
    · have moves := underWay_setReport here .ended
      simp only [SkipReport.underWay] at moves
      change w.skipped = w.counter.getD 0 + (w.setReport i .ended).underWay +
        (w.published ++ [n]).sum
      rw [List.sum_append, List.sum_singleton]
      omega
    · exact (sound.attended flag).setReport here (by simp)
  · cases moved

theorem Sound.next (sound : Sound w) {e : SkipEvent} (moved : w.next e = some w')
    (keeps : w.Keeps e) : Sound w' := by
  cases e with
  | skip => exact sound.skip moved
  | add i => exact sound.add moved
  | timer i ok => exact sound.timer moved
  | unflag i => exact sound.unflag moved
  | lapse =>
    cases moved
    exact sound.noFlag
  | start i => exact sound.start moved
  | premature i => exact sound.premature moved keeps
  | get i => exact sound.get moved
  | take i => exact sound.take moved keeps
  | connect i ok =>
    cases (show ok = true from keeps)
    exact sound.connect moved
  | publish i ok =>
    cases (show ok = true from keeps)
    exact sound.publish moved

/-- A report that ends with lines under way has lost them. -/
theorem not_accounted_end {old : SkipReport} (sound : Sound w) (here : w.reports[i]? = some old)
    (some_ : 0 < old.underWay) : ¬(w.setReport i .ended).Accounted := by
  rintro ⟨-, lost⟩
  have balance := sound.accounted.2
  have none_ : SkipReport.underWay .ended = 0 := rfl
  rw [underWay_setReport here, none_] at lost
  simp only [counter_setReport, skipped_setReport, published_setReport] at lost
  omega

/-- A step that does not keep the lines loses some, or publishes some twice. -/
theorem not_accounted_next {e : SkipEvent} (sound : Sound w) (moved : w.next e = some w')
    (loses : ¬w.Keeps e) (timely : ∀ i, e ≠ .premature i) : ¬w'.Accounted := by
  cases e with
  | take i =>
    simp only [SkipRelay.next] at moved
    split at moved
    next n here =>
      cases moved
      rintro ⟨nonneg, -⟩
      apply loses
      intro m same
      rw [here] at same
      cases same
      obtain ⟨-, there⟩ := sound.count here rfl
      obtain ⟨count, known⟩ := Option.ne_none_iff_exists'.mp there
      simp only [known, Option.map_some, Option.getD_some] at nonneg ⊢
      -- the relay takes more than is left, and the rest falls below nothing
      omega
    · cases moved
  | connect i ok =>
    cases ok with
    | true => exact absurd rfl loses
    | false =>
      simp only [SkipRelay.next] at moved
      split at moved
      next n here =>
        cases moved
        -- what was taken is lost with the failure
        exact not_accounted_end sound here (sound.count here rfl).1
      · cases moved
  | publish i ok =>
    cases ok with
    | true => exact absurd rfl loses
    | false =>
      simp only [SkipRelay.next] at moved
      split at moved
      next n here =>
        cases moved
        exact not_accounted_end sound here (sound.count here rfl).1
      · cases moved
  | premature i => exact absurd rfl (timely i)
  | _ => exact absurd trivial loses

end

theorem sound_of_run {w : SkipRelay} (run : Reaches (Guarded Keeps Step) empty w) : Sound w :=
  run.invariant (P := Sound) (fun _ _ _ sound moved => sound.next moved.2 moved.1) sound_empty

/-- While every step keeps the lines, each skipped line is counted once and no count is left
without a report; and the first step that takes more than there is, does not connect or does not
publish miscounts. -/
theorem skips_accounted {w : SkipRelay} (run : Reaches (Guarded Keeps Step) empty w) :
    w.Accounted ∧ w.Reported ∧ ∀ e w', w.next e = some w' → ¬w.Keeps e →
      (∀ i, e ≠ .premature i) → ¬w'.Accounted := by
  have sound := sound_of_run run
  refine ⟨sound.accounted, fun _ => ?_, ?_⟩
  · cases flag : w.flag with
    | false => exact .inl rfl
    | true => exact .inr (sound.attended flag)
  · exact fun e w' moved loses timely => not_accounted_next sound moved loses timely

/-- Two lines are skipped, and one more while they are reported. -/
def reportedSkips : List SkipEvent :=
  [.skip, .add 0, .timer 0 true, .skip, .add 1, .start 0, .get 0, .skip, .add 2, .take 0,
    .timer 2 true, .connect 0 true, .publish 0 true]

theorem skips_accounted_reported :
    ∃ w, play next reportedSkips empty = some w ∧ w.published = [2] ∧ w.counter = some 1 ∧
      w.Accounted ∧ w.Reported := by
  have observed : (play next reportedSkips empty).map (fun w => (w.published, w.counter)) =
      some ([2], some 1) := by
    decide
  obtain ⟨w, played, seen⟩ := Option.map_eq_some_iff.mp observed
  obtain ⟨published, counter⟩ := Prod.mk.inj seen
  have keeps : Fits Keeps next reportedSkips empty := by
    refine ⟨trivial, trivial, trivial, trivial, trivial, trivial, trivial, trivial, trivial, ?_,
      trivial, rfl, rfl, trivial⟩
    -- one line came after the report had read two
    rintro n ⟨⟩
    decide
  obtain ⟨accounted, reported, -⟩ := skips_accounted (Reaches.of_fits keeps played)
  exact ⟨w, played, published, counter, accounted, reported⟩

/-- The report takes the count away before it connects. -/
theorem skips_lost : ¬ ∀ w, Reaches Step empty w → w.Accounted := by
  intro always
  have observed : (play next [.skip, .add 0, .timer 0 true, .start 0, .get 0, .take 0,
      .connect 0 false] empty).map (fun w => (w.skipped, w.counter, w.underWay, w.published)) =
      some (1, some 0, 0, []) := by
    decide
  obtain ⟨w, played, seen⟩ := Option.map_eq_some_iff.mp observed
  obtain ⟨skipped, counter, underWay, published⟩ := by
    simpa only [Prod.mk.injEq] using seen
  have run : Reaches (Guarded (fun _ _ => True) Step) empty w :=
    Reaches.of_play (fun _ _ _ => trivial) played
  have lost := (always w run.of_guarded).2
  rw [skipped, counter, underWay, published] at lost
  exact absurd lost (by decide)

end SkipRelay

end MegooPM.Live
