import Mathlib.Data.Rat.Defs
import Mathlib.Algebra.Order.Ring.Rat
import Mathlib.Data.List.Induction
import Mathlib.Tactic.Linarith

/-!
# A live-log session's limiter

`services/live_logs.py`: `RateLimiter`. Lines over the limit and lines the relay dropped are
counted in one number, which a tick hands over. The clock's readings are taken as exact.
-/
namespace MegooPM.Live

/-- `RateLimiter` -/
structure RateLimiter where
  perSecond : Int
  windowStart : ℚ
  inWindow : Nat
  skipped : Int
  reportAt : Option ℚ
  lastReport : Option ℚ
deriving DecidableEq

namespace RateLimiter

def new (perSecond : Int) : RateLimiter where
  perSecond := perSecond
  windowStart := 0
  inWindow := 0
  skipped := 0
  reportAt := none
  lastReport := none

/-- A report becomes due, unless one is; a second after the last one at the earliest. -/
def schedule (limiter : RateLimiter) (due : ℚ) : RateLimiter :=
  if limiter.reportAt = none then
    { limiter with reportAt := some (limiter.lastReport.elim due fun last => max due (last + 1)) }
  else limiter

/-- The window a call falls in. -/
def restart (limiter : RateLimiter) (now : ℚ) : RateLimiter :=
  if limiter.inWindow = 0 ∨ 1 ≤ now - limiter.windowStart then
    { limiter with windowStart := now, inWindow := 0 }
  else limiter

/-- `allow`, past `restart` -/
def grant (limiter : RateLimiter) : Bool × RateLimiter :=
  if (limiter.inWindow : Int) < limiter.perSecond then
    (true, { limiter with inWindow := limiter.inWindow + 1 })
  else
    (false, { limiter.schedule (limiter.windowStart + 1) with skipped := limiter.skipped + 1 })

def allow (limiter : RateLimiter) (now : ℚ) : Bool × RateLimiter :=
  (limiter.restart now).grant

def addSkipped (limiter : RateLimiter) (count : Int) (now : ℚ) : RateLimiter :=
  if count ≤ 0 then limiter
  else { limiter.schedule now with skipped := limiter.skipped + count }

def takeSkipped (limiter : RateLimiter) (now : ℚ) : Int × RateLimiter :=
  match limiter.reportAt with
  | none => (0, limiter)
  | some due =>
    if now < due then (0, limiter)
    else (limiter.skipped, { limiter with skipped := 0, reportAt := none, lastReport := some now })

end RateLimiter

/-! ### Calls and what they gave -/

inductive LimiterCall where
  | allow (now : ℚ)
  | addSkipped (count : Int) (now : ℚ)
  | takeSkipped (now : ℚ)
deriving DecidableEq

def LimiterCall.now : LimiterCall → ℚ
  | .allow now => now
  | .addSkipped _ now => now
  | .takeSkipped now => now

/-- A call beside what it gave; an allowed one beside the start of its window. -/
inductive LimiterOutcome where
  | allowed (now window : ℚ)
  | refused
  | added (count : Int)
  | took (now : ℚ) (count : Int)
deriving DecidableEq

/-- A limiter and what its calls gave, in order. -/
structure Limited where
  limiter : RateLimiter
  outcomes : List LimiterOutcome
deriving DecidableEq

namespace Limited

def call (s : Limited) : LimiterCall → Limited
  | .allow now =>
    let answer := s.limiter.allow now
    ⟨answer.2, s.outcomes ++
      [if answer.1 then .allowed now answer.2.windowStart else .refused]⟩
  | .addSkipped count now => ⟨s.limiter.addSkipped count now, s.outcomes ++ [.added count]⟩
  | .takeSkipped now =>
    let answer := s.limiter.takeSkipped now
    ⟨answer.2, s.outcomes ++ [.took now answer.1]⟩

/-- A session's calls, from a new limiter on. -/
def play (perSecond : Int) (calls : List LimiterCall) : Limited :=
  calls.foldl call ⟨.new perSecond, []⟩

theorem play_append (perSecond : Int) (calls : List LimiterCall) (last : LimiterCall) :
    play perSecond (calls ++ [last]) = (play perSecond calls).call last := by
  simp only [play, List.foldl_append, List.foldl_cons, List.foldl_nil]

end Limited

namespace LimiterOutcome

/-- How many lines an outcome has turned away. -/
def turnedAway : LimiterOutcome → Int
  | .refused => 1
  | .added count => if count ≤ 0 then 0 else count
  | _ => 0

def handedOver : LimiterOutcome → Int
  | .took _ count => count
  | _ => 0

/-- When an allowed line came, and the start of its window. -/
def admission : LimiterOutcome → Option (ℚ × ℚ)
  | .allowed now window => some (now, window)
  | _ => none

/-- When a count was reported. -/
def report : LimiterOutcome → Option ℚ
  | .took now count => if count = 0 then none else some now
  | _ => none

end LimiterOutcome

/-! What a session's outcomes come to. -/

def turnedAwayIn (outcomes : List LimiterOutcome) : Int := (outcomes.map (·.turnedAway)).sum

def handedOverIn (outcomes : List LimiterOutcome) : Int := (outcomes.map (·.handedOver)).sum

def admissionsIn (outcomes : List LimiterOutcome) : List (ℚ × ℚ) := outcomes.filterMap (·.admission)

def reportsIn (outcomes : List LimiterOutcome) : List ℚ := outcomes.filterMap (·.report)

section

variable (outcomes : List LimiterOutcome) (last : LimiterOutcome)

@[simp] theorem turnedAwayIn_append :
    turnedAwayIn (outcomes ++ [last]) = turnedAwayIn outcomes + last.turnedAway := by
  simp [turnedAwayIn]

@[simp] theorem handedOverIn_append :
    handedOverIn (outcomes ++ [last]) = handedOverIn outcomes + last.handedOver := by
  simp [handedOverIn]

@[simp] theorem admissionsIn_append :
    admissionsIn (outcomes ++ [last]) = admissionsIn outcomes ++ last.admission.toList := by
  rw [admissionsIn, List.filterMap_append]
  cases found : last.admission <;> simp [found, admissionsIn]

@[simp] theorem reportsIn_append :
    reportsIn (outcomes ++ [last]) = reportsIn outcomes ++ last.report.toList := by
  rw [reportsIn, List.filterMap_append]
  cases found : last.report <;> simp [found, reportsIn]

end

/-! ### What one call does -/

namespace RateLimiter

/-- When a report asked for at `due` comes. -/
def dueAt (limiter : RateLimiter) (due : ℚ) : ℚ :=
  limiter.lastReport.elim due fun last => max due (last + 1)

theorem schedule_eq (limiter : RateLimiter) (due : ℚ) :
    limiter.schedule due = { limiter with
      reportAt := some (limiter.reportAt.getD (limiter.dueAt due)) } := by
  cases set : limiter.reportAt with
  | none => simp [schedule, set, dueAt]
  | some other =>
    rw [schedule, if_neg (by simp [set])]
    cases limiter
    simp_all

/-- A call finds its window open, or opens one. -/
theorem restart_cases (limiter : RateLimiter) (now : ℚ) :
    (limiter.inWindow ≠ 0 ∧ now < limiter.windowStart + 1 ∧ limiter.restart now = limiter) ∨
    ((limiter.inWindow = 0 ∨ limiter.windowStart + 1 ≤ now) ∧
      limiter.restart now = { limiter with windowStart := now, inWindow := 0 }) := by
  by_cases ended : limiter.inWindow = 0 ∨ 1 ≤ now - limiter.windowStart
  · right
    refine ⟨ended.imp_right fun late => by linarith, ?_⟩
    rw [restart, if_pos ended]
  · left
    rw [not_or] at ended
    refine ⟨ended.1, by linarith [ended.2], ?_⟩
    rw [restart, if_neg (not_or.mpr ended)]

theorem grant_cases (limiter : RateLimiter) :
    ((limiter.inWindow : Int) < limiter.perSecond ∧
      limiter.grant = (true, { limiter with inWindow := limiter.inWindow + 1 })) ∨
    (limiter.perSecond ≤ limiter.inWindow ∧ limiter.grant = (false, { limiter with
      reportAt := some (limiter.reportAt.getD (limiter.dueAt (limiter.windowStart + 1))),
      skipped := limiter.skipped + 1 })) := by
  by_cases room : (limiter.inWindow : Int) < limiter.perSecond
  · exact .inl ⟨room, by rw [grant, if_pos room]⟩
  · refine .inr ⟨not_lt.mp room, ?_⟩
    rw [grant, if_neg room, schedule_eq]

theorem addSkipped_cases (limiter : RateLimiter) (count : Int) (now : ℚ) :
    (count ≤ 0 ∧ limiter.addSkipped count now = limiter) ∨
    (0 < count ∧ limiter.addSkipped count now = { limiter with
      reportAt := some (limiter.reportAt.getD (limiter.dueAt now)),
      skipped := limiter.skipped + count }) := by
  by_cases none : count ≤ 0
  · exact .inl ⟨none, by rw [addSkipped, if_pos none]⟩
  · refine .inr ⟨not_le.mp none, ?_⟩
    rw [addSkipped, if_neg none, schedule_eq]

theorem takeSkipped_cases (limiter : RateLimiter) (now : ℚ) :
    ((∀ due, limiter.reportAt = some due → now < due) ∧
      limiter.takeSkipped now = (0, limiter)) ∨
    ((∃ due, limiter.reportAt = some due ∧ due ≤ now) ∧
      limiter.takeSkipped now = (limiter.skipped,
        { limiter with skipped := 0, reportAt := none, lastReport := some now })) := by
  cases set : limiter.reportAt with
  | none => exact .inl ⟨by simp, by simp [takeSkipped, set]⟩
  | some due =>
    by_cases early : now < due
    · exact .inl ⟨by simpa using early, by simp [takeSkipped, set, early]⟩
    · exact .inr ⟨⟨due, rfl, not_lt.mp early⟩, by simp [takeSkipped, set, early]⟩

end RateLimiter

/-! ### What is held -/

namespace Limited

/-- The count beside what was turned away and handed over, when no call came after `latest`. -/
structure Held (s : Limited) (latest : ℚ) : Prop where
  balance : turnedAwayIn s.outcomes = handedOverIn s.outcomes + s.limiter.skipped
  nothing : s.limiter.reportAt = none → s.limiter.skipped = 0
  pending : ∀ due, s.limiter.reportAt = some due → 0 < s.limiter.skipped ∧ due ≤ latest + 1
  waited : ∀ due, s.limiter.reportAt = some due →
    ∀ last, s.limiter.lastReport = some last → last + 1 ≤ due
  past : ∀ last, s.limiter.lastReport = some last → last ≤ latest
  reported : ∀ t ∈ reportsIn s.outcomes, ∃ last, s.limiter.lastReport = some last ∧ t ≤ last
  spaced : (reportsIn s.outcomes).Pairwise fun t u => t + 1 ≤ u

theorem Held.new (perSecond : Int) (latest : ℚ) : Held ⟨.new perSecond, []⟩ latest where
  balance := rfl
  nothing _ := rfl
  pending := by simp [RateLimiter.new]
  waited := by simp [RateLimiter.new]
  past := by simp [RateLimiter.new]
  reported := by simp [reportsIn]
  spaced := List.Pairwise.nil

theorem Held.later {s : Limited} {latest now : ℚ} (held : Held s latest) (later : latest ≤ now) :
    Held s now :=
  { held with
    pending := fun due set => ⟨(held.pending due set).1, by linarith [(held.pending due set).2]⟩
    past := fun last set => (held.past last set).trans later }

theorem Held.nonneg {s : Limited} {latest : ℚ} (held : Held s latest) : 0 ≤ s.limiter.skipped := by
  cases set : s.limiter.reportAt with
  | none => exact (held.nothing set).ge
  | some due => exact (held.pending due set).1.le

/-- The window's fields are not looked at. -/
theorem Held.same {s : Limited} {latest : ℚ} (held : Held s latest) {limiter : RateLimiter}
    (skipped : limiter.skipped = s.limiter.skipped)
    (reportAt : limiter.reportAt = s.limiter.reportAt)
    (lastReport : limiter.lastReport = s.limiter.lastReport) :
    Held ⟨limiter, s.outcomes⟩ latest where
  balance := by simpa only [skipped] using held.balance
  nothing := by simpa only [skipped, reportAt] using held.nothing
  pending := by simpa only [skipped, reportAt] using held.pending
  waited := by simpa only [lastReport, reportAt] using held.waited
  past := by simpa only [lastReport] using held.past
  reported := by simpa only [lastReport] using held.reported
  spaced := held.spaced

/-- An outcome that counts nothing changes nothing. -/
theorem Held.silent {s : Limited} {latest : ℚ} {outcome : LimiterOutcome} (held : Held s latest)
    (away : outcome.turnedAway = 0) (none_ : outcome.handedOver = 0)
    (silent : outcome.report = none) : Held ⟨s.limiter, s.outcomes ++ [outcome]⟩ latest where
  balance := by simpa [away, none_] using held.balance
  nothing := held.nothing
  pending := held.pending
  waited := held.waited
  past := held.past
  reported := by simpa [silent] using held.reported
  spaced := by simpa [silent] using held.spaced

/-- Lines are counted, and their report is due within a second. -/
theorem Held.count {s : Limited} {latest due : ℚ} {count : Int} {outcome : LimiterOutcome}
    (held : Held s latest) (positive : 0 < count) (soon : due ≤ latest + 1)
    (away : outcome.turnedAway = count) (none_ : outcome.handedOver = 0)
    (silent : outcome.report = none) :
    Held ⟨{ s.limiter with
      reportAt := some (s.limiter.reportAt.getD (s.limiter.dueAt due)),
      skipped := s.limiter.skipped + count }, s.outcomes ++ [outcome]⟩ latest := by
  have nonneg := held.nonneg
  have balance := held.balance
  constructor
  · simp only [turnedAwayIn_append, handedOverIn_append, away, none_]
    omega
  · simp
  · intro other set
    refine ⟨by simp only; omega, ?_⟩
    simp only [Option.some.injEq] at set
    subst set
    cases first : s.limiter.reportAt with
    | some earlier => exact (held.pending earlier first).2
    | none =>
      simp only [Option.getD_none, RateLimiter.dueAt]
      cases reported : s.limiter.lastReport with
      | none => exact soon
      | some last => exact max_le soon (by linarith [held.past last reported])
  · intro other set last reported
    simp only [Option.some.injEq] at set
    subst set
    cases first : s.limiter.reportAt with
    | some earlier => exact held.waited earlier first last reported
    | none =>
      simp only at reported
      simp only [Option.getD_none, RateLimiter.dueAt, reported]
      exact le_max_right _ _
  · exact held.past
  · simpa [silent] using held.reported
  · simpa [silent] using held.spaced

theorem Held.take {s : Limited} {now : ℚ} (held : Held s now) :
    Held (s.call (.takeSkipped now)) now := by
  have balance := held.balance
  rcases s.limiter.takeSkipped_cases now with ⟨-, took⟩ | ⟨⟨due, set, late⟩, took⟩
  · simp only [call, took]
    exact held.silent rfl rfl rfl
  · have positive : s.limiter.skipped ≠ 0 := (held.pending due set).1.ne'
    have reports : reportsIn (s.outcomes ++ [.took now s.limiter.skipped]) =
        reportsIn s.outcomes ++ [now] := by
      simp [LimiterOutcome.report, positive]
    simp only [call, took]
    constructor
    · simp only [turnedAwayIn_append, handedOverIn_append, LimiterOutcome.turnedAway,
        LimiterOutcome.handedOver]
      omega
    · exact fun _ => rfl
    · simp
    · simp
    · simp
    · intro t member
      rw [reports, List.mem_append, List.mem_singleton] at member
      refine ⟨now, rfl, ?_⟩
      rcases member with earlier | rfl
      · obtain ⟨last, reported, before⟩ := held.reported t earlier
        exact before.trans (held.past last reported)
      · exact le_rfl
    · rw [reports, List.pairwise_append]
      refine ⟨held.spaced, List.pairwise_singleton _ _, ?_⟩
      intro t earlier u new
      rw [List.mem_singleton] at new
      subst new
      -- the earlier report is no later than the last, and this one waited a second after it
      obtain ⟨last, reported, before⟩ := held.reported t earlier
      linarith [held.waited due set last reported]

theorem Held.allow {s : Limited} {now : ℚ} (held : Held s now)
    (opened : s.limiter.inWindow ≠ 0 → s.limiter.windowStart ≤ now) :
    Held (s.call (.allow now)) now := by
  have restarted : Held ⟨s.limiter.restart now, s.outcomes⟩ now ∧
      (s.limiter.restart now).windowStart ≤ now := by
    rcases s.limiter.restart_cases now with ⟨busy, -, same⟩ | ⟨-, restarts⟩
    · rw [same]
      exact ⟨held, opened busy⟩
    · rw [restarts]
      exact ⟨held.same rfl rfl rfl, le_rfl⟩
  obtain ⟨held, started⟩ := restarted
  rcases (s.limiter.restart now).grant_cases with ⟨-, grants⟩ | ⟨-, refuses⟩
  · simp only [call, RateLimiter.allow, grants, if_true]
    have taken : Held ⟨{ s.limiter.restart now with
        inWindow := (s.limiter.restart now).inWindow + 1 }, s.outcomes⟩ now :=
      held.same rfl rfl rfl
    exact taken.silent rfl rfl rfl
  · simp only [call, RateLimiter.allow, refuses, Bool.false_eq_true, if_false]
    exact held.count one_pos (by simpa using started) rfl rfl rfl

theorem Held.addSkipped {s : Limited} {now : ℚ} (held : Held s now) (count : Int) :
    Held (s.call (.addSkipped count now)) now := by
  rcases s.limiter.addSkipped_cases count now with ⟨none, same⟩ | ⟨positive, adds⟩
  · simp only [call, same]
    exact held.silent (by simp [LimiterOutcome.turnedAway, none]) rfl rfl
  · simp only [call, adds]
    exact held.count positive (by linarith)
      (by simp [LimiterOutcome.turnedAway, not_le.mpr positive]) rfl rfl

theorem Held.handed {s : Limited} {latest now : ℚ} (held : Held s latest) (late : latest + 1 ≤ now) :
    (s.limiter.takeSkipped now).1 = s.limiter.skipped ∧
      (s.limiter.takeSkipped now).2.skipped = 0 := by
  rcases s.limiter.takeSkipped_cases now with ⟨early, took⟩ | ⟨-, took⟩
  · cases set : s.limiter.reportAt with
    | none => simp [took, held.nothing set]
    | some due => linarith [early due set, (held.pending due set).2]
  · simp [took]

theorem Held.scheduled {s : Limited} {latest : ℚ} (held : Held s latest)
    (counted : s.limiter.skipped ≠ 0) :
    ∃ due, s.limiter.reportAt = some due ∧ ∀ now, due ≤ now →
      (s.limiter.takeSkipped now).1 = s.limiter.skipped := by
  cases set : s.limiter.reportAt with
  | none => exact absurd (held.nothing set) counted
  | some due =>
    refine ⟨due, rfl, ?_⟩
    intro now late
    rcases s.limiter.takeSkipped_cases now with ⟨early, -⟩ | ⟨-, took⟩
    · exact absurd (early due set) (not_lt.mpr late)
    · rw [took]

/-! ### What is let through -/

/-- The window beside the lines that were allowed, when no call came after `latest`. -/
structure Windowed (perSecond : Int) (s : Limited) (latest : ℚ) : Prop where
  limit : s.limiter.perSecond = perSecond
  bounded : s.limiter.inWindow ≤ perSecond.toNat
  opened : s.limiter.inWindow ≠ 0 → s.limiter.windowStart ≤ latest
  idle : s.limiter.inWindow = 0 → admissionsIn s.outcomes = []
  current : (admissionsIn s.outcomes).countP (·.2 = s.limiter.windowStart) = s.limiter.inWindow
  before : ∀ a ∈ admissionsIn s.outcomes,
    a.2 = s.limiter.windowStart ∨ a.2 + 1 ≤ s.limiter.windowStart
  inside : ∀ a ∈ admissionsIn s.outcomes, a.2 ≤ a.1 ∧ a.1 < a.2 + 1
  full : ∀ window, (admissionsIn s.outcomes).countP (·.2 = window) ≤ perSecond.toNat
  apart : (admissionsIn s.outcomes).Pairwise fun a b => a.2 = b.2 ∨ a.2 + 1 ≤ b.2

theorem Windowed.new (perSecond : Int) (latest : ℚ) :
    Windowed perSecond ⟨.new perSecond, []⟩ latest := by
  constructor <;> simp [RateLimiter.new, admissionsIn]

theorem Windowed.later {perSecond : Int} {s : Limited} {latest now : ℚ}
    (windowed : Windowed perSecond s latest) (later : latest ≤ now) : Windowed perSecond s now :=
  { windowed with opened := fun busy => (windowed.opened busy).trans later }

/-- The fields of the count are not looked at, nor an outcome that lets nothing through. -/
theorem Windowed.same {perSecond : Int} {s : Limited} {latest : ℚ}
    (windowed : Windowed perSecond s latest) {limiter : RateLimiter} {outcome : LimiterOutcome}
    (limit : limiter.perSecond = s.limiter.perSecond)
    (inWindow : limiter.inWindow = s.limiter.inWindow)
    (windowStart : limiter.windowStart = s.limiter.windowStart)
    (silent : outcome.admission = none) :
    Windowed perSecond ⟨limiter, s.outcomes ++ [outcome]⟩ latest := by
  have same : admissionsIn (s.outcomes ++ [outcome]) = admissionsIn s.outcomes := by simp [silent]
  constructor <;> simp only [limit, inWindow, windowStart, same]
  · exact windowed.limit
  · exact windowed.bounded
  · exact windowed.opened
  · exact windowed.idle
  · exact windowed.current
  · exact windowed.before
  · exact windowed.inside
  · exact windowed.full
  · exact windowed.apart

/-- A line is let through in a window that is the last one or a second past it. -/
theorem Windowed.grant {perSecond : Int} {s : Limited} {now : ℚ} {limiter : RateLimiter}
    (windowed : Windowed perSecond s now) (limit : limiter.perSecond = perSecond)
    (room : (limiter.inWindow : Int) < perSecond) (started : limiter.windowStart ≤ now)
    (runs : now < limiter.windowStart + 1)
    (current : (admissionsIn s.outcomes).countP (·.2 = limiter.windowStart) = limiter.inWindow)
    (before : ∀ a ∈ admissionsIn s.outcomes,
      a.2 = limiter.windowStart ∨ a.2 + 1 ≤ limiter.windowStart) :
    Windowed perSecond ⟨{ limiter with inWindow := limiter.inWindow + 1 },
      s.outcomes ++ [.allowed now limiter.windowStart]⟩ now := by
  have admissions : admissionsIn (s.outcomes ++ [.allowed now limiter.windowStart]) =
      admissionsIn s.outcomes ++ [(now, limiter.windowStart)] := by
    simp [LimiterOutcome.admission]
  constructor <;> simp only [admissions]
  · exact limit
  · omega
  · exact fun _ => started
  · simp
  · rw [List.countP_append, current]
    simp
  · intro a member
    rw [List.mem_append, List.mem_singleton] at member
    rcases member with earlier | rfl
    · exact before a earlier
    · exact .inl rfl
  · intro a member
    rw [List.mem_append, List.mem_singleton] at member
    rcases member with earlier | rfl
    · exact windowed.inside a earlier
    · exact ⟨started, runs⟩
  · intro window
    rw [List.countP_append]
    -- the window of this admission has one more, within the limit; the others stay
    by_cases same : limiter.windowStart = window
    · subst same
      rw [current]
      simp only [List.countP_singleton, decide_true, if_true]
      omega
    · simpa [List.countP_singleton, same] using windowed.full window
  · rw [List.pairwise_append]
    refine ⟨windowed.apart, List.pairwise_singleton _ _, ?_⟩
    intro a earlier b new
    rw [List.mem_singleton] at new
    subst new
    exact before a earlier

theorem Windowed.allow {perSecond : Int} {s : Limited} {now : ℚ}
    (windowed : Windowed perSecond s now) : Windowed perSecond (s.call (.allow now)) now := by
  have limit := windowed.limit
  rcases s.limiter.restart_cases now with ⟨busy, runs, same⟩ | ⟨closed, restarts⟩
  · -- the window is still open
    simp only [call, RateLimiter.allow, same]
    rcases s.limiter.grant_cases with ⟨room, grants⟩ | ⟨-, refuses⟩
    · simp only [grants, if_true]
      exact windowed.grant limit (limit ▸ room) (windowed.opened busy) runs windowed.current
        windowed.before
    · simp only [refuses, Bool.false_eq_true, if_false]
      exact windowed.same rfl rfl rfl rfl
  · -- a new one: the others ended, or there were none
    have ended : ∀ a ∈ admissionsIn s.outcomes, a.2 + 1 ≤ now := by
      intro a member
      rcases closed with idle | late
      · simp [windowed.idle idle] at member
      · rcases windowed.before a member with same | earlier <;> linarith
    have fresh : (admissionsIn s.outcomes).countP (·.2 = now) = 0 := by
      rw [List.countP_eq_zero]
      intro a member equal
      linarith [ended a member, of_decide_eq_true equal]
    simp only [call, RateLimiter.allow, restarts]
    rcases RateLimiter.grant_cases { s.limiter with windowStart := now, inWindow := 0 } with
      ⟨room, grants⟩ | ⟨none, refuses⟩
    · simp only [grants, if_true]
      exact @Windowed.grant perSecond s now { s.limiter with windowStart := now, inWindow := 0 }
        windowed limit (by simpa only [limit] using room) le_rfl (by simp) fresh
        fun a member => .inr (ended a member)
    · -- only a limit of no lines refuses the first line of a window
      have empty : admissionsIn s.outcomes = [] := by
        apply windowed.idle
        have bounded := windowed.bounded
        simp only [limit] at none
        omega
      simp only [refuses, Bool.false_eq_true, if_false]
      constructor <;> simp [empty, LimiterOutcome.admission, limit]

/-! ### A session -/

/-- What holds between two calls. -/
structure Sound (perSecond : Int) (s : Limited) (latest : ℚ) : Prop where
  held : Held s latest
  windowed : Windowed perSecond s latest

theorem Sound.call {perSecond : Int} {s : Limited} {latest : ℚ} (sound : Sound perSecond s latest)
    (next : LimiterCall) (later : latest ≤ next.now) :
    Sound perSecond (s.call next) next.now := by
  have held := sound.held.later later
  have windowed := sound.windowed.later later
  cases next with
  | allow now => exact ⟨held.allow windowed.opened, windowed.allow⟩
  | addSkipped count now =>
    refine ⟨held.addSkipped count, ?_⟩
    rcases s.limiter.addSkipped_cases count now with ⟨-, same⟩ | ⟨-, adds⟩
    · simp only [Limited.call, same]
      exact windowed.same rfl rfl rfl rfl
    · simp only [Limited.call, adds]
      exact windowed.same rfl rfl rfl rfl
  | takeSkipped now =>
    refine ⟨held.take, ?_⟩
    rcases s.limiter.takeSkipped_cases now with ⟨-, took⟩ | ⟨-, took⟩
    · simp only [Limited.call, took]
      exact windowed.same rfl rfl rfl rfl
    · simp only [Limited.call, took]
      exact windowed.same rfl rfl rfl rfl

theorem play_sound (perSecond : Int) (calls : List LimiterCall)
    (ordered : calls.Pairwise fun call next => call.now ≤ next.now) :
    ∀ latest, (∀ call ∈ calls, call.now ≤ latest) →
      Sound perSecond (play perSecond calls) latest := by
  induction calls using List.reverseRecOn with
  | nil => exact fun latest _ => ⟨Held.new perSecond latest, Windowed.new perSecond latest⟩
  | append_singleton calls last ih =>
    intro latest past
    rw [List.pairwise_append] at ordered
    have before : ∀ call ∈ calls, call.now ≤ last.now :=
      fun call member => ordered.2.2 call member last (List.mem_singleton_self last)
    have sound := (ih ordered.1 last.now before).call last le_rfl
    rw [← play_append] at sound
    have now := past last (by simp)
    exact ⟨sound.held.later now, sound.windowed.later now⟩

/-- What a session can rely on. -/
structure Accounted (perSecond : Int) (calls : List LimiterCall) : Prop where
  /-- every line that was turned away is handed over once or still counted -/
  balance : turnedAwayIn (play perSecond calls).outcomes =
    handedOverIn (play perSecond calls).outcomes + (play perSecond calls).limiter.skipped
  /-- the lines of a window come within its second -/
  inside : ∀ a ∈ admissionsIn (play perSecond calls).outcomes, a.2 ≤ a.1 ∧ a.1 < a.2 + 1
  full : ∀ window,
    (admissionsIn (play perSecond calls).outcomes).countP (·.2 = window) ≤ perSecond.toNat
  apart : (admissionsIn (play perSecond calls).outcomes).Pairwise
    fun a b => a.2 = b.2 ∨ a.2 + 1 ≤ b.2
  spaced : (reportsIn (play perSecond calls).outcomes).Pairwise fun t u => t + 1 ≤ u
  /-- a count is due, and from then on the next tick takes it -/
  scheduled : (play perSecond calls).limiter.skipped ≠ 0 →
    ∃ due, (play perSecond calls).limiter.reportAt = some due ∧ ∀ now, due ≤ now →
      ((play perSecond calls).limiter.takeSkipped now).1 = (play perSecond calls).limiter.skipped
  /-- a second after the last call nothing is kept back -/
  handed : ∀ now, (∀ call ∈ calls, call.now + 1 ≤ now) →
    ((play perSecond calls).limiter.takeSkipped now).1 = (play perSecond calls).limiter.skipped ∧
    ((play perSecond calls).limiter.takeSkipped now).2.skipped = 0

private theorem exists_latest (calls : List LimiterCall) :
    ∃ latest, ∀ call ∈ calls, call.now ≤ latest := by
  induction calls with
  | nil => exact ⟨0, by simp⟩
  | cons call calls ih =>
    obtain ⟨latest, past⟩ := ih
    refine ⟨max call.now latest, ?_⟩
    intro other member
    rcases List.mem_cons.mp member with rfl | later
    · exact le_max_left _ _
    · exact (past other later).trans (le_max_right _ _)

theorem limiter_accounted (perSecond : Int) (calls : List LimiterCall)
    (ordered : calls.Pairwise fun call next => call.now ≤ next.now) :
    Accounted perSecond calls := by
  obtain ⟨latest, past⟩ := exists_latest calls
  have sound := play_sound perSecond calls ordered latest past
  exact {
    balance := sound.held.balance
    inside := sound.windowed.inside
    full := sound.windowed.full
    apart := sound.windowed.apart
    spaced := sound.held.spaced
    scheduled := sound.held.scheduled
    handed := fun now later => by
      have sound := play_sound perSecond calls ordered (now - 1)
        fun call member => by linarith [later call member]
      exact sound.held.handed (by linarith) }

/-- Two lines a second; the third waits for its report, and so does what the relay dropped. -/
theorem limiter_accounted_burst :
    handedOverIn (play 2 [.allow 0, .allow 0, .allow (1/2), .addSkipped 3 (3/4),
      .takeSkipped (3/4), .takeSkipped 1]).outcomes = 4 ∧
    Accounted 2 [.allow 0, .allow 0, .allow (1/2), .addSkipped 3 (3/4),
      .takeSkipped (3/4), .takeSkipped 1] :=
  ⟨by decide +kernel, limiter_accounted 2 _ (by decide +kernel)⟩

end Limited

end MegooPM.Live
