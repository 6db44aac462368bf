import MegooPM.Lib.Transition
import Mathlib.Logic.Function.Basic
import Mathlib.Tactic.Common

/-!
# The backup schedule

`services/backup/schedule.py` and the tasks of `tasks/backup.py` around `create_backup` and
`restore_backup`. A tick asks the settings row whether a backup is due and only then tries the
lock; what a run writes into the row afterwards is what later ticks ask. Ticks, manual runs and
restores are jobs of any number of workers, and a job may stop between any two of its steps.
-/
namespace MegooPM

open Lib

inductive BackupFrequency where
  | off | daily | weekly
  deriving DecidableEq, Repr

inductive BackupTrigger where
  | manual | auto
  deriving DecidableEq, Repr

/-- The hour of a moment, counted from 1970. Moments are microseconds of UTC, so two moments have
the same hour iff they are equal once minute, second and microsecond are cleared. -/
def hourOf (moment : Nat) : Nat :=
  moment / 3600000000

/-- `moment.hour` -/
def hourOfDay (moment : Nat) : Nat :=
  hourOf moment % 24

/-- `moment.weekday()`; the first day of 1970 was a Thursday. -/
def weekdayOf (moment : Nat) : Nat :=
  (hourOf moment / 24 + 3) % 7

/-- The columns of the settings row that the tasks read. -/
structure BackupSettings where
  frequency : BackupFrequency
  weekday : Nat
  hourUtc : Nat
  lastBackupAt : Option Nat := none
  deriving DecidableEq, Repr

def alreadyRan : String := "already ran this hour"

/-- Whether the tick at `now` should take a backup, and why not. -/
def isBackupDue (now : Nat) (config : BackupSettings) : Bool × String :=
  if config.frequency = .off then (false, "automatic backups are off")
  else if hourOfDay now ≠ config.hourUtc then (false, "not the configured hour")
  else if config.frequency = .weekly ∧ weekdayOf now ≠ config.weekday then
    (false, "not the configured weekday")
  else match config.lastBackupAt with
    | some last => if hourOf last = hourOf now then (false, alreadyRan) else (true, "due")
    | none => (true, "due")

/-! ### Jobs -/

/-- A backup file that was put into place; its name holds both. -/
structure BackupMade where
  trigger : BackupTrigger
  started : Nat
  deriving DecidableEq, Repr

/-- What a job does next. -/
inductive BackupJob where
  | idle
  /-- `backup_tick` has read the clock -/
  | ticking (now : Nat)
  /-- the tick has returned what is not due -/
  | answered (now : Nat) (reason : String)
  /-- the lock is next -/
  | waiting (trigger : BackupTrigger)
  /-- `create_backup_task` found the lock held -/
  | refused
  /-- it has read the clock for its record -/
  | noting (at_ : Nat)
  /-- `_create` is entered -/
  | locked (trigger : BackupTrigger)
  /-- `create_backup` runs -/
  | creating (trigger : BackupTrigger) (started : Nat)
  /-- `apply_retention` is next -/
  | sweeping (started : Nat)
  /-- `_record_outcome` is next -/
  | recording (ok : Bool) (trigger : BackupTrigger) (started : Nat)
  /-- `restore_backup_task`: the lock is next -/
  | restoreWaiting
  | restoring
  /-- the lock is released next -/
  | leaving
  deriving DecidableEq, Repr

/-- How `create_backup` ends; it may raise after the file was renamed into place. -/
inductive CreateEnd where
  | returned
  | raised (placed : Bool)
  deriving DecidableEq, Repr

inductive BackupEvent where
  | wait (microseconds : Nat)
  /-- the settings page -/
  | configure (frequency : BackupFrequency) (weekday hourUtc : Nat)
  | tick (job : Nat)
  | load (job : Nat)
  /-- the tick raises while it loads the row -/
  | loadRaises (job : Nat)
  | createTask (job : Nat)
  | restoreTask (job : Nat)
  | acquire (job : Nat)
  /-- the job reads the clock -/
  | stamp (job : Nat)
  /-- `sweep_interrupted` raises -/
  | sweepRaises (job : Nat)
  | finish (job : Nat) (how : CreateEnd)
  /-- `apply_retention` returns, or raises -/
  | retain (job : Nat) (returns : Bool)
  /-- `_record_outcome` writes the row, or only logs that it could not -/
  | record (job : Nat) (written : Bool)
  /-- the restore is over; the row it put into place, if it came to that -/
  | restored (job : Nat) (row : Option BackupSettings)
  | release (job : Nat)
  /-- Redis drops a lock that was held for `_LOCK_TIMEOUT_S` -/
  | expire
  deriving DecidableEq, Repr

def lockTimeout : Nat := 3600000000

/-- The clock, the settings row, the lock with the time it was taken, the jobs and the files that
were ever made. -/
structure BackupWorld where
  clock : Nat
  row : BackupSettings
  lock : Option (Nat × Nat) := none
  jobs : Nat → BackupJob := fun _ => .idle
  files : List BackupMade := []

namespace BackupWorld

def put (s : BackupWorld) (job : Nat) (next : BackupJob) : BackupWorld :=
  { s with jobs := Function.update s.jobs job next }

/-- `last_backup_at = at` -/
def recorded (s : BackupWorld) (moment : Nat) : BackupSettings :=
  { s.row with lastBackupAt := some moment }

def holder (s : BackupWorld) : Option Nat :=
  s.lock.map Prod.fst

/-- `lock.acquire(blocking=False)` of a job. -/
def acquire (s : BackupWorld) (job : Nat) : BackupJob → Option BackupWorld
  | .waiting trigger =>
    if s.lock = none then some { s.put job (.locked trigger) with lock := some (job, s.clock) }
    else some (s.put job (if trigger = .manual then .refused else .idle))
  | .restoreWaiting =>
    if s.lock = none then some { s.put job .restoring with lock := some (job, s.clock) }
    else some (s.put job .idle)
  | _ => none

/-- The end of `create_backup` of a job. -/
def finish (s : BackupWorld) (job : Nat) (how : CreateEnd) : BackupJob → Option BackupWorld
  | .creating trigger started =>
    let made : List BackupMade := { trigger := trigger, started := started } :: s.files
    match how with
    | .returned =>
      if trigger = .auto then some { s.put job (.sweeping started) with files := made }
      else some { s.put job (.recording true trigger started) with files := made }
    | .raised placed =>
      some { s.put job (.recording false trigger started) with
        files := if placed then made else s.files }
  | _ => none

/-- `_record_outcome` of a job. -/
def record (s : BackupWorld) (job : Nat) (written : Bool) : BackupJob → Option BackupWorld
  | .recording _ _ started =>
    some { s.put job .leaving with row := if written then s.recorded started else s.row }
  | .noting moment =>
    some { s.put job .idle with row := if written then s.recorded moment else s.row }
  | _ => none

/-- What one event does; `none` where the job is not at that point. -/
def next (s : BackupWorld) : BackupEvent → Option BackupWorld
  | .wait microseconds => some { s with clock := s.clock + microseconds }
  | .configure frequency weekday hourUtc =>
    some { s with row :=
      { s.row with frequency := frequency, weekday := weekday, hourUtc := hourUtc } }
  | .tick job => if s.jobs job = .idle then some (s.put job (.ticking s.clock)) else none
  | .load job =>
    match s.jobs job with
    | .ticking now =>
      if (isBackupDue now s.row).1 then some (s.put job (.waiting .auto))
      else some (s.put job (.answered now (isBackupDue now s.row).2))
    | _ => none
  | .loadRaises job =>
    match s.jobs job with
    | .ticking _ => some (s.put job .idle)
    | _ => none
  | .createTask job => if s.jobs job = .idle then some (s.put job (.waiting .manual)) else none
  | .restoreTask job => if s.jobs job = .idle then some (s.put job .restoreWaiting) else none
  | .acquire job => s.acquire job (s.jobs job)
  | .stamp job =>
    match s.jobs job with
    | .locked trigger => some (s.put job (.creating trigger s.clock))
    | .refused => some (s.put job (.noting s.clock))
    | _ => none
  | .sweepRaises job =>
    match s.jobs job with
    | .creating _ _ => some (s.put job .leaving)
    | _ => none
  | .finish job how => s.finish job how (s.jobs job)
  | .retain job returns =>
    match s.jobs job with
    | .sweeping started =>
      some (s.put job (if returns then .recording true .auto started else .leaving))
    | _ => none
  | .record job written => s.record job written (s.jobs job)
  | .restored job row =>
    match s.jobs job with
    | .restoring => some { s.put job .leaving with row := row.getD s.row }
    | _ => none
  | .release job =>
    match s.jobs job with
    | .leaving =>
      some { s.put job .idle with lock := if s.holder = some job then none else s.lock }
    | _ => none
  | .expire =>
    match s.lock with
    | some (_, taken) => if taken + lockTimeout ≤ s.clock then some { s with lock := none } else none
    | none => none

/-! ### Fair schedules -/

/-- A backup of that hour was made. -/
def MadeIn (s : BackupWorld) (hour : Nat) : Prop :=
  ∃ file ∈ s.files, hourOf file.started = hour

/-- An automatic backup of that hour was made. -/
def AutomaticIn (s : BackupWorld) (hour : Nat) : Prop :=
  ∃ file ∈ s.files, file.trigger = .auto ∧ hourOf file.started = hour

/-- No hour has two automatic backups, and a tick that is told a backup ran is told the truth. -/
structure Fair (s : BackupWorld) : Prop where
  single : s.files.Pairwise fun a b =>
    a.trigger = .auto → b.trigger = .auto → hourOf a.started ≠ hourOf b.started
  truthful : ∀ job now, s.jobs job = .answered now alreadyRan → s.MadeIn (hourOf now)

end BackupWorld

/-- The schedule asks for a backup in the hour of this moment. -/
def BackupSettings.Schedules (config : BackupSettings) (moment : Nat) : Prop :=
  config.frequency ≠ .off ∧ hourOfDay moment = config.hourUtc ∧
    (config.frequency = .weekly → weekdayOf moment = config.weekday)

/-- `last_backup_at` is in that hour. -/
def BackupSettings.Names (config : BackupSettings) (hour : Nat) : Prop :=
  ∃ last, config.lastBackupAt = some last ∧ hourOf last = hour

namespace BackupWorld

/-- A tick asks about that hour, or one still can. -/
def Open (s : BackupWorld) (hour : Nat) : Prop :=
  hourOf s.clock ≤ hour ∨ ∃ job now, s.jobs job = .ticking now ∧ hourOf now = hour

/-- If a tick can be told by this row that a backup ran, then one was made. -/
def Honest (s : BackupWorld) (config : BackupSettings) : Prop :=
  ∀ last, config.lastBackupAt = some last → config.Schedules last → s.Open (hourOf last) →
    s.MadeIn (hourOf last)

/-- If the current hour has its automatic backup, then the row says so. -/
def Mindful (s : BackupWorld) (config : BackupSettings) : Prop :=
  s.AutomaticIn (hourOf s.clock) → config.Names (hourOf s.clock)

/-- A run of this moment that made nothing would stand in for a backup: its hour is scheduled, a
tick asks about it or one still can, and no backup of it was made. -/
def StandsIn (s : BackupWorld) (moment : Nat) : Prop :=
  s.row.Schedules moment ∧ s.Open (hourOf moment) ∧ ¬ s.MadeIn (hourOf moment)

/-- The write of an outcome does no harm: a failed or skipped run is not written down as the run
of a scheduled hour without a backup, a late note does not push the current hour's backup out,
and the record of an automatic backup is not lost in its hour. -/
def recordSteady (s : BackupWorld) (written : Bool) : BackupJob → Prop
  | .recording ok trigger started =>
    if written then ok = false → ¬ s.StandsIn started
    else trigger = .auto → hourOf started = hourOf s.clock → ¬ s.AutomaticIn (hourOf s.clock)
  | .noting moment =>
    written = true → ¬ s.StandsIn moment ∧
      (s.AutomaticIn (hourOf s.clock) → hourOf moment = hourOf s.clock)
  | _ => True

/-- The step avoids what goes wrong: an automatic run takes the lock although the row already
names the hour, an outcome is written that does harm, retention raises in the backup's hour, the
settings page or a restore puts a row into place that does not fit the files, or a run outlasts
its lock. -/
def steady (s : BackupWorld) : BackupEvent → Prop
  | .configure frequency weekday hourUtc =>
    s.Honest { s.row with frequency := frequency, weekday := weekday, hourUtc := hourUtc }
  | .stamp job => s.jobs job = .locked .auto → ¬ s.row.Names (hourOf s.clock)
  | .retain job returns =>
    ∀ started, s.jobs job = .sweeping started → returns = false → hourOf started ≠ hourOf s.clock
  | .record job written => s.recordSteady written (s.jobs job)
  | .restored _ row => ∀ config, row = some config → s.Honest config ∧ s.Mindful config
  | .expire => False
  | _ => True

end BackupWorld

section Due

variable {config : BackupSettings}

theorem Schedules.of_hour {now last : Nat} (same : hourOf last = hourOf now)
    (scheduled : config.Schedules now) : config.Schedules last := by
  simpa only [BackupSettings.Schedules, hourOfDay, weekdayOf, same] using scheduled

/-- What a tick has seen that is told a backup ran. -/
theorem isBackupDue_alreadyRan {now : Nat} (told : (isBackupDue now config).2 = alreadyRan) :
    config.Schedules now ∧ config.Names (hourOf now) := by
  rw [isBackupDue] at told
  split at told
  next => exact absurd told (by decide)
  next on =>
    split at told
    next => exact absurd told (by decide)
    next hour =>
      split at told
      next => exact absurd told (by decide)
      next day =>
        have scheduled : config.Schedules now := by
          refine ⟨on, not_not.mp hour, fun weekly => ?_⟩
          by_contra other
          exact day ⟨weekly, other⟩
        split at told
        next last known =>
          split at told
          next same => exact ⟨scheduled, last, known, same⟩
          next => exact absurd told (by decide)
        next => exact absurd told (by decide)

end Due

theorem hourOf_mono {a b : Nat} (le : a ≤ b) : hourOf a ≤ hourOf b :=
  Nat.div_le_div_right le

/-! ### What the steps keep -/

/-- The stamp of a run whose automatic backup is not yet recorded. -/
def BackupJob.pending : BackupJob → Option Nat
  | .sweeping started => some started
  | .recording _ .auto started => some started
  | _ => none

namespace BackupWorld

/-- No automatic backup is of a later hour than this stamp. -/
def Latest (s : BackupWorld) (started : Nat) : Prop :=
  started ≤ s.clock ∧
    ∀ file ∈ s.files, file.trigger = .auto → hourOf file.started ≤ hourOf started

/-- What holds of a job by where it is. -/
def JobSound (s : BackupWorld) (job : Nat) : BackupJob → Prop
  | .answered now reason => reason = alreadyRan → s.MadeIn (hourOf now)
  | .locked _ => s.holder = some job
  | .creating trigger started =>
    s.holder = some job ∧ s.Latest started ∧ (trigger = .auto → ¬ s.AutomaticIn (hourOf started))
  | .sweeping started => s.holder = some job ∧ s.Latest started ∧ s.MadeIn (hourOf started)
  | .recording ok _ started =>
    s.holder = some job ∧ s.Latest started ∧ (ok = true → s.MadeIn (hourOf started))
  | .restoring => s.holder = some job
  | .leaving => s.holder = some job
  | _ => True

/-- The row names the current hour's automatic backup, or the run that made it will see to it. -/
def Remembered (s : BackupWorld) (config : BackupSettings) : Prop :=
  s.AutomaticIn (hourOf s.clock) → config.Names (hourOf s.clock) ∨
    ∃ job started, (s.jobs job).pending = some started ∧ hourOf started = hourOf s.clock

structure Sound (s : BackupWorld) : Prop where
  jobs : ∀ job, s.JobSound job (s.jobs job)
  past : ∀ file ∈ s.files, file.started ≤ s.clock
  single : s.files.Pairwise fun a b =>
    a.trigger = .auto → b.trigger = .auto → hourOf a.started ≠ hourOf b.started
  honest : s.Honest s.row
  remembered : s.Remembered s.row

theorem Sound.fair {s : BackupWorld} (sound : s.Sound) : s.Fair := by
  refine ⟨sound.single, fun job now told => ?_⟩
  have answered := sound.jobs job
  rw [told] at answered
  exact answered rfl

section Frame

variable {s t : BackupWorld} {job : Nat}

theorem MadeIn.mono {hour : Nat} (more : s.files ⊆ t.files) (made : s.MadeIn hour) :
    t.MadeIn hour := by
  obtain ⟨file, member, same⟩ := made
  exact ⟨file, more member, same⟩

/-- A job is not disturbed by the clock and by what others do outside the lock. -/
theorem JobSound.frame {at_ : BackupJob} (sound : s.JobSound job at_)
    (holder : t.holder = s.holder) (later : s.clock ≤ t.clock) (files : t.files = s.files) :
    t.JobSound job at_ := by
  have latest : ∀ {started}, s.Latest started → t.Latest started := fun known =>
    ⟨Nat.le_trans known.1 later, files ▸ known.2⟩
  have made : ∀ {hour}, s.MadeIn hour → t.MadeIn hour := MadeIn.mono (files ▸ List.Subset.refl _)
  have auto : ∀ {hour}, t.AutomaticIn hour → s.AutomaticIn hour := by
    intro hour found
    rwa [AutomaticIn, files] at found
  cases at_ with
  | answered now reason => exact fun told => made (sound told)
  | creating trigger started =>
    exact ⟨holder.trans sound.1, latest sound.2.1, fun is found => sound.2.2 is (auto found)⟩
  | sweeping started => exact ⟨holder.trans sound.1, latest sound.2.1, made sound.2.2⟩
  | recording ok trigger started =>
    exact ⟨holder.trans sound.1, latest sound.2.1, fun went => made (sound.2.2 went)⟩
  | locked trigger => exact holder.trans sound
  | restoring => exact holder.trans sound
  | leaving => exact holder.trans sound
  | _ => trivial

/-- A job without the lock is not disturbed by who has it and what they make. -/
theorem JobSound.outside {at_ : BackupJob} (sound : s.JobSound job at_)
    (apart : s.holder ≠ some job) (more : s.files ⊆ t.files) : t.JobSound job at_ := by
  cases at_ with
  | answered now reason => exact fun told => (sound told).mono more
  | creating trigger started => exact absurd sound.1 apart
  | sweeping started => exact absurd sound.1 apart
  | recording ok trigger started => exact absurd sound.1 apart
  | locked trigger => exact absurd sound apart
  | restoring => exact absurd sound apart
  | leaving => exact absurd sound apart
  | _ => trivial

theorem jobs_update {next : BackupJob} (moved : t.jobs = Function.update s.jobs job next)
    (mine : t.JobSound job next) (others : ∀ k, k ≠ job → t.JobSound k (s.jobs k)) (k : Nat) :
    t.JobSound k (t.jobs k) := by
  rw [moved]
  by_cases same : k = job
  · subst same
    rw [Function.update_self]
    exact mine
  · rw [Function.update_of_ne same]
    exact others k same

theorem Honest.frame {config : BackupSettings} (honest : s.Honest config)
    (opens : ∀ hour, t.Open hour → s.Open hour) (more : s.files ⊆ t.files) : t.Honest config :=
  fun last known scheduled asked => (honest last known scheduled (opens _ asked)).mono more

/-- A job's step opens no hour; a tick that starts asks about the current one. -/
theorem open_update {next : BackupJob} (clock : t.clock = s.clock)
    (moved : t.jobs = Function.update s.jobs job next)
    (starts : ∀ now, next = .ticking now → now = s.clock) (hour : Nat) (asked : t.Open hour) :
    s.Open hour := by
  rcases asked with current | ⟨k, now, ticks, same⟩
  · exact Or.inl (clock ▸ current)
  · rw [moved] at ticks
    by_cases mine : k = job
    · subst mine
      rw [Function.update_self] at ticks
      rw [starts now ticks] at same
      exact Or.inl (Nat.le_of_eq same)
    · rw [Function.update_of_ne mine] at ticks
      exact Or.inr ⟨k, now, ticks, same⟩

/-- A pending run of the current hour stays pending through the step. -/
def Carries (s : BackupWorld) (job : Nat) (next : BackupJob) : Prop :=
  s.AutomaticIn (hourOf s.clock) → ∀ started, (s.jobs job).pending = some started →
    hourOf started = hourOf s.clock → next.pending = some started

theorem Carries.of_none {at_ next : BackupJob} (here : s.jobs job = at_)
    (none : at_.pending = none) : s.Carries job next := by
  intro _ started pending
  rw [here, none] at pending
  exact absurd pending (by simp)

theorem Remembered.update {config : BackupSettings} {next : BackupJob}
    (known : s.Remembered config) (carries : s.Carries job next) (clock : t.clock = s.clock)
    (moved : t.jobs = Function.update s.jobs job next)
    (files : t.AutomaticIn (hourOf s.clock) → s.AutomaticIn (hourOf s.clock)) :
    t.Remembered config := by
  rw [Remembered, clock]
  intro found
  rcases known (files found) with named | ⟨k, started, pending, same⟩
  · exact Or.inl named
  · refine Or.inr ⟨k, started, ?_, same⟩
    rw [moved]
    by_cases mine : k = job
    · subst mine
      rw [Function.update_self]
      exact carries (files found) started pending same
    · rw [Function.update_of_ne mine]
      exact pending

/-- A job's step that touches nothing else. -/
theorem Sound.put {next : BackupJob} (sound : s.Sound) (mine : s.JobSound job next)
    (starts : ∀ now, next = .ticking now → now = s.clock) (carries : s.Carries job next) :
    (s.put job next).Sound where
  jobs := jobs_update rfl (mine.frame rfl (Nat.le_refl _) rfl)
    fun k _ => (sound.jobs k).frame rfl (Nat.le_refl _) rfl
  past := sound.past
  single := sound.single
  honest := sound.honest.frame (open_update rfl rfl starts) (List.Subset.refl _)
  remembered := sound.remembered.update carries rfl rfl fun found => found

/-- So does a step of a job that has nothing to remember. -/
theorem Sound.goOn {at_ next : BackupJob} (sound : s.Sound) (here : s.jobs job = at_)
    (forgets : at_.pending = none) (mine : s.JobSound job next)
    (quiet : ∀ now, next ≠ .ticking now) : (s.put job next).Sound :=
  sound.put mine (fun now ticks => absurd ticks (quiet now)) (Carries.of_none here forgets)

/-- A job's step that also writes the row. -/
theorem Sound.putRow {next : BackupJob} {config : BackupSettings} (sound : s.Sound)
    (mine : s.JobSound job next) (quiet : ∀ now, next ≠ .ticking now)
    (honest : s.Honest config) (remembered : (s.put job next).Remembered config) :
    ({ s.put job next with row := config } : BackupWorld).Sound where
  jobs := jobs_update rfl (mine.frame rfl (Nat.le_refl _) rfl)
    fun k _ => (sound.jobs k).frame rfl (Nat.le_refl _) rfl
  past := sound.past
  single := sound.single
  honest := honest.frame
    (open_update rfl rfl fun now ticks => absurd ticks (quiet now)) (List.Subset.refl _)
  remembered := remembered

end Frame

section Steps

variable {s t : BackupWorld} {job : Nat}

theorem Sound.wait (sound : s.Sound) (microseconds : Nat) :
    ({ s with clock := s.clock + microseconds } : BackupWorld).Sound where
  jobs := fun k => (sound.jobs k).frame rfl (Nat.le_add_right ..) rfl
  past := fun file member => Nat.le_trans (sound.past file member) (Nat.le_add_right ..)
  single := sound.single
  honest := by
    refine sound.honest.frame (fun hour asked => ?_) (List.Subset.refl _)
    rcases asked with current | ticking
    · exact Or.inl (Nat.le_trans (hourOf_mono (Nat.le_add_right ..)) current)
    · exact Or.inr ticking
  remembered := by
    intro found
    -- a backup of the new hour was made by now, so the hour is still the old one
    have same : hourOf (s.clock + microseconds) = hourOf s.clock := by
      obtain ⟨file, member, -, hour⟩ := found
      have early := hourOf_mono (sound.past file member)
      have late := hourOf_mono (Nat.le_add_right s.clock microseconds)
      simp only at hour
      omega
    simp only [same] at found ⊢
    exact sound.remembered found

/-- A job's step that takes or gives back the lock, which no other job has. -/
theorem Sound.putLock {next : BackupJob} {lock : Option (Nat × Nat)} (sound : s.Sound)
    (alone : ∀ k, k ≠ job → s.holder ≠ some k) (quiet : ∀ now, next ≠ .ticking now)
    (carries : s.Carries job next)
    (mine : ({ s.put job next with lock := lock } : BackupWorld).JobSound job next) :
    ({ s.put job next with lock := lock } : BackupWorld).Sound where
  jobs := jobs_update (s := s) rfl mine
    fun k other => (sound.jobs k).outside (alone k other) (List.Subset.refl _)
  past := sound.past
  single := sound.single
  honest := sound.honest.frame
    (open_update rfl rfl fun now ticks => absurd ticks (quiet now)) (List.Subset.refl _)
  remembered := sound.remembered.update carries rfl rfl fun found => found

theorem holder_of_free (free : s.lock = none) (k : Nat) : s.holder ≠ some k := by
  simp [holder, free]

theorem Sound.acquire {at_ : BackupJob} (sound : s.Sound) (here : s.jobs job = at_)
    (moved : s.acquire job at_ = some t) : t.Sound := by
  cases at_ with
  | waiting trigger =>
    simp only [BackupWorld.acquire] at moved
    split at moved
    next free =>
      cases moved
      exact sound.putLock (fun k _ => holder_of_free free k) (fun now => by simp)
        (Carries.of_none here rfl) rfl
    next held =>
      cases moved
      split
      · exact sound.goOn here rfl trivial (by simp)
      · exact sound.goOn here rfl trivial (by simp)
  | restoreWaiting =>
    simp only [BackupWorld.acquire] at moved
    split at moved
    next free =>
      cases moved
      exact sound.putLock (fun k _ => holder_of_free free k) (fun now => by simp)
        (Carries.of_none here rfl) rfl
    next held =>
      cases moved
      exact sound.goOn here rfl trivial (by simp)
  | _ => exact absurd moved (by simp [BackupWorld.acquire])

/-- A pending run still has the lock. -/
theorem Sound.pending_holder (sound : s.Sound) {k started : Nat}
    (pending : (s.jobs k).pending = some started) : s.holder = some k := by
  have there := sound.jobs k
  cases h : s.jobs k with
  | sweeping made =>
    rw [h] at there
    exact there.1
  | recording ok trigger made =>
    rw [h] at there
    exact there.1
  | _ =>
    rw [h] at pending
    exact absurd pending (by simp [BackupJob.pending])

/-- The job with the lock reads the clock: nothing was made later than now, and if the row does
not name the hour there is no automatic backup of it. -/
theorem Sound.stamped (sound : s.Sound) {trigger : BackupTrigger}
    (here : s.jobs job = .locked trigger)
    (fresh : trigger = .auto → ¬ s.row.Names (hourOf s.clock)) :
    s.JobSound job (.creating trigger s.clock) := by
  have mine := sound.jobs job
  rw [here] at mine
  refine ⟨mine, ⟨Nat.le_refl _, fun file member _ => hourOf_mono (sound.past file member)⟩, ?_⟩
  intro auto found
  rcases sound.remembered found with named | ⟨k, started, pending, -⟩
  · exact fresh auto named
  · -- a pending run would have the lock, and this job has it
    have same : k = job := Option.some.inj ((sound.pending_holder pending).symm.trans mine)
    subst same
    rw [here] at pending
    exact absurd pending (by simp [BackupJob.pending])

/-- A backup is put into place. -/
theorem Sound.made {trigger : BackupTrigger} {started : Nat} {next : BackupJob} (sound : s.Sound)
    (here : s.jobs job = .creating trigger started) (quiet : ∀ now, next ≠ .ticking now)
    (pends : trigger = .auto → next.pending = some started)
    (mine : ∀ t : BackupWorld, t.holder = some job → t.Latest started →
      t.MadeIn (hourOf started) → t.JobSound job next) :
    ({ s.put job next with files := { trigger := trigger, started := started } :: s.files } :
      BackupWorld).Sound := by
  have run := sound.jobs job
  rw [here] at run
  obtain ⟨held, ⟨stamped, latest⟩, none⟩ := run
  have more : s.files ⊆ { trigger := trigger, started := started } :: s.files :=
    List.subset_cons_self ..
  constructor
  case jobs =>
    refine jobs_update (s := s) rfl (mine _ held ⟨stamped, fun file member auto => ?_⟩
      ⟨_, List.mem_cons_self .., rfl⟩) fun k other => (sound.jobs k).outside ?_ more
    · rcases List.mem_cons.mp member with new | old
      · exact Nat.le_of_eq (by rw [new])
      · exact latest file old auto
    -- no other job is inside the lock
    · rw [held]
      exact fun same => other (Option.some.inj same).symm
  case past =>
    intro file member
    rcases List.mem_cons.mp member with new | old
    · rw [new]
      exact stamped
    · exact sound.past file old
  case single =>
    refine List.pairwise_cons.mpr ⟨fun file member auto other same => ?_, sound.single⟩
    exact none auto ⟨file, member, other, same.symm⟩
  case honest =>
    exact sound.honest.frame
      (open_update rfl rfl fun now ticks => absurd ticks (quiet now)) more
  case remembered =>
    -- the row is remembered by the new file, or by one that was there
    rintro ⟨file, member, auto, same⟩
    rcases List.mem_cons.mp member with new | old
    · subst new
      exact Or.inr ⟨job, started, by simpa [BackupWorld.put] using pends auto, same⟩
    · have kept : (s.put job next).Remembered s.row :=
        sound.remembered.update (Carries.of_none here rfl) rfl rfl fun found => found
      exact kept ⟨file, old, auto, same⟩

theorem Sound.finish {at_ : BackupJob} {how : CreateEnd} (sound : s.Sound)
    (here : s.jobs job = at_) (moved : s.finish job how at_ = some t) : t.Sound := by
  cases at_ with
  | creating trigger started =>
    cases how with
    | returned =>
      simp only [BackupWorld.finish] at moved
      split at moved
      next auto =>
        cases moved
        exact sound.made here (fun now => by simp) (fun _ => rfl)
          fun t held latest made => ⟨held, latest, made⟩
      next manual =>
        cases moved
        exact sound.made here (fun now => by simp) (fun auto => absurd auto manual)
          fun t held latest made => ⟨held, latest, fun _ => made⟩
    | raised placed =>
      simp only [BackupWorld.finish] at moved
      cases moved
      cases placed with
      | true =>
        refine sound.made here (fun now => by simp) (fun auto => ?_)
          fun t held latest made => ⟨held, latest, fun ok => absurd ok (by simp)⟩
        rw [auto, BackupJob.pending]
      | false =>
        have run := sound.jobs job
        rw [here] at run
        exact sound.put ⟨run.1, run.2.1, fun ok => absurd ok (by simp)⟩
          (fun now ticks => by simp at ticks) (Carries.of_none here rfl)
  | _ => exact absurd moved (by simp [BackupWorld.finish])

/-- A run that stands in for no backup may be written down. -/
theorem honest_recorded {moment : Nat} (harmless : ¬ s.StandsIn moment) :
    s.Honest (s.recorded moment) := by
  intro last known scheduled asked
  cases known
  by_contra missing
  exact harmless ⟨scheduled, asked, missing⟩

/-- The outcome of a run that has the lock. No automatic backup is of a later hour than its stamp,
so the new row forgets none. -/
theorem Sound.recordedOwn {ok : Bool} {trigger : BackupTrigger} {started : Nat} (sound : s.Sound)
    (here : s.jobs job = .recording ok trigger started)
    (fits : ok = false → ¬ s.StandsIn started) :
    ({ s.put job .leaving with row := s.recorded started } : BackupWorld).Sound := by
  have run := sound.jobs job
  rw [here] at run
  obtain ⟨held, ⟨stamped, latest⟩, made⟩ := run
  refine sound.putRow held (fun now => by simp) ?_ ?_
  · cases ok with
    | true =>
      intro last known _ _
      cases known
      exact made rfl
    | false => exact honest_recorded (fits rfl)
  · rintro ⟨file, member, auto, same⟩
    have early := latest file member auto
    have late := hourOf_mono stamped
    refine Or.inl ⟨started, rfl, ?_⟩
    simp only [BackupWorld.put] at same ⊢
    omega

theorem Sound.record {at_ : BackupJob} {written : Bool} (sound : s.Sound)
    (here : s.jobs job = at_) (steady : s.recordSteady written at_)
    (moved : s.record job written at_ = some t) : t.Sound := by
  cases at_ with
  | recording ok trigger started =>
    cases moved
    have run := sound.jobs job
    rw [here] at run
    cases written with
    | true => exact sound.recordedOwn here steady
    | false =>
      have carries : s.Carries job .leaving := by
        intro found stamp pending same
        rw [here] at pending
        cases trigger with
        | manual => exact absurd pending (by simp [BackupJob.pending])
        | auto =>
          cases pending
          exact absurd found (steady rfl same)
      exact sound.put run.1 (fun now ticks => by simp at ticks) carries
  | noting moment =>
    cases moved
    cases written with
    | true =>
      obtain ⟨harmless, late⟩ := steady rfl
      refine sound.putRow trivial (fun now => by simp) (honest_recorded harmless) fun found => ?_
      exact Or.inl ⟨moment, rfl, late found⟩
    | false =>
      exact sound.goOn here rfl trivial (by simp)
  | _ => exact absurd moved (by simp [BackupWorld.record])

theorem Sound.loaded {now : Nat} (sound : s.Sound) (here : s.jobs job = .ticking now)
    (told : (isBackupDue now s.row).2 = alreadyRan) : s.MadeIn (hourOf now) := by
  obtain ⟨scheduled, last, known, same⟩ := isBackupDue_alreadyRan told
  rw [← same]
  exact sound.honest last known (Schedules.of_hour same scheduled)
    (Or.inr ⟨job, now, here, same.symm⟩)

/-! Each event by itself. -/

theorem Sound.tick (sound : s.Sound) (moved : s.next (.tick job) = some t) : t.Sound := by
  simp only [BackupWorld.next] at moved
  split at moved
  next here =>
    cases moved
    exact sound.put trivial (fun now ticks => by cases ticks; rfl) (Carries.of_none here rfl)
  next => exact absurd moved (by simp)

theorem Sound.load (sound : s.Sound) (moved : s.next (.load job) = some t) : t.Sound := by
  simp only [BackupWorld.next] at moved
  split at moved
  next now here =>
    split at moved
    next due =>
      cases moved
      exact sound.goOn here rfl trivial (by simp)
    next idle =>
      cases moved
      exact sound.goOn here rfl (sound.loaded here) (by simp)
  next => exact absurd moved (by simp)

theorem Sound.loadRaises (sound : s.Sound) (moved : s.next (.loadRaises job) = some t) :
    t.Sound := by
  simp only [BackupWorld.next] at moved
  split at moved
  next now here =>
    cases moved
    exact sound.goOn here rfl trivial (by simp)
  next => exact absurd moved (by simp)

/-- A task that an idle worker takes up. -/
theorem Sound.begin {next : BackupJob} (sound : s.Sound)
    (moved : (if s.jobs job = .idle then some (s.put job next) else none) = some t)
    (mine : s.JobSound job next) (quiet : ∀ now, next ≠ .ticking now) : t.Sound := by
  split at moved
  next here =>
    cases moved
    exact sound.goOn here rfl mine quiet
  next => exact absurd moved (by simp)

theorem Sound.stamp (sound : s.Sound) (steady : s.steady (.stamp job))
    (moved : s.next (.stamp job) = some t) : t.Sound := by
  simp only [BackupWorld.next] at moved
  split at moved
  next trigger here =>
    cases moved
    exact sound.goOn here rfl (sound.stamped here fun auto => steady (auto ▸ here)) (by simp)
  next here =>
    cases moved
    exact sound.goOn here rfl trivial (by simp)
  next => exact absurd moved (by simp)

theorem Sound.sweepRaises (sound : s.Sound) (moved : s.next (.sweepRaises job) = some t) :
    t.Sound := by
  simp only [BackupWorld.next] at moved
  split at moved
  next trigger started here =>
    cases moved
    have run := sound.jobs job
    rw [here] at run
    exact sound.goOn here rfl run.1 (by simp)
  next => exact absurd moved (by simp)

/-- Retention: the run stays pending when it returns; when it raises, the hour is over. -/
theorem Sound.retain {returns : Bool} (sound : s.Sound) (steady : s.steady (.retain job returns))
    (moved : s.next (.retain job returns) = some t) : t.Sound := by
  simp only [BackupWorld.next] at moved
  split at moved
  next started here =>
    cases moved
    have run := sound.jobs job
    rw [here] at run
    obtain ⟨held, latest, made⟩ := run
    cases returns with
    | true =>
      refine sound.put ⟨held, latest, fun _ => made⟩ (fun now ticks => by simp at ticks) ?_
      intro _ stamp pending _
      rw [here] at pending
      exact pending
    | false =>
      refine sound.put held (fun now ticks => by simp at ticks) ?_
      intro _ stamp pending same
      rw [here] at pending
      cases pending
      exact absurd same (steady _ here rfl)
  next => exact absurd moved (by simp)

theorem Sound.restored {row : Option BackupSettings} (sound : s.Sound)
    (steady : s.steady (.restored job row)) (moved : s.next (.restored job row) = some t) :
    t.Sound := by
  simp only [BackupWorld.next] at moved
  split at moved
  next here =>
    cases moved
    have run := sound.jobs job
    rw [here] at run
    cases row with
    | none =>
      exact sound.goOn here rfl run (by simp)
    | some config =>
      obtain ⟨honest, mindful⟩ := steady config rfl
      exact sound.putRow run (fun now => by simp) honest fun found => Or.inl (mindful found)
  next => exact absurd moved (by simp)

theorem Sound.release (sound : s.Sound) (moved : s.next (.release job) = some t) : t.Sound := by
  simp only [BackupWorld.next] at moved
  split at moved
  next here =>
    cases moved
    have run := sound.jobs job
    rw [here] at run
    refine sound.putLock (fun k other same => other ?_) (fun now => by simp)
      (Carries.of_none here rfl) trivial
    exact (Option.some.inj (run.symm.trans same)).symm
  next => exact absurd moved (by simp)

/-- One step. -/
theorem Sound.step {e : BackupEvent} (sound : s.Sound) (steady : s.steady e)
    (moved : s.next e = some t) : t.Sound := by
  cases e with
  | wait microseconds =>
    cases moved
    exact sound.wait microseconds
  | configure frequency weekday hourUtc =>
    cases moved
    exact ⟨sound.jobs, sound.past, sound.single, steady, sound.remembered⟩
  | tick job => exact sound.tick moved
  | load job => exact sound.load moved
  | loadRaises job => exact sound.loadRaises moved
  | createTask job | restoreTask job => exact sound.begin moved trivial (by simp)
  | acquire job => exact sound.acquire rfl moved
  | stamp job => exact sound.stamp steady moved
  | sweepRaises job => exact sound.sweepRaises moved
  | finish job how => exact sound.finish rfl moved
  | retain job returns => exact sound.retain steady moved
  | record job written => exact sound.record rfl steady moved
  | restored job row => exact sound.restored steady moved
  | release job => exact sound.release moved
  | expire => exact absurd steady id

end Steps

end BackupWorld

/-! ### Runs -/

def BackupStep (s : BackupWorld) (e : BackupEvent) (t : BackupWorld) : Prop :=
  s.next e = some t

/-- Nothing has run yet. -/
theorem sound_initial {clock : Nat} {row : BackupSettings} (never : row.lastBackupAt = none) :
    ({ clock := clock, row := row } : BackupWorld).Sound where
  jobs := fun _ => trivial
  past := fun _ member => absurd member (List.not_mem_nil)
  single := List.Pairwise.nil
  honest := by
    intro last known
    rw [never] at known
    exact absurd known (by simp)
  remembered := by
    rintro ⟨file, member, -⟩
    exact absurd member (List.not_mem_nil)

/-- No hour gets two automatic backups and no tick is turned away without one, over every run
whose steps are steady. -/
theorem schedule_fair {clock : Nat} {row : BackupSettings} (never : row.lastBackupAt = none)
    {s : BackupWorld}
    (run : Reaches (Guarded BackupWorld.steady BackupStep) { clock := clock, row := row } s) :
    s.Fair := by
  have sound : s.Sound :=
    run.invariant (P := BackupWorld.Sound)
      (fun _ _ _ sound moved => sound.step moved.1 moved.2) (sound_initial never)
  exact sound.fair

/-- 2026-10-11 03:00 UTC. -/
def sundayThree : Nat := 1791687600000000

example : hourOfDay sundayThree = 3 ∧ weekdayOf sundayThree = 6 := by decide

def nightly : BackupWorld where
  clock := sundayThree
  row := { frequency := .daily, weekday := 6, hourUtc := 3 }

/-- The tick is delivered twice, one after the other. -/
def redeliveredTick : List BackupEvent :=
  [.tick 0, .load 0, .acquire 0, .stamp 0, .finish 0 .returned, .retain 0 true, .record 0 true,
   .release 0, .tick 1, .load 1]

private theorem redeliveredTick_steady :
    Fits BackupWorld.steady BackupWorld.next redeliveredTick nightly := by
  refine And.intro trivial (And.intro trivial (And.intro trivial (And.intro ?unnamed
    (And.intro trivial (And.intro ?returns (And.intro ?succeeds
      (And.intro trivial (And.intro trivial (And.intro trivial trivial)))))))))
  case unnamed =>
    rintro - ⟨last, known, -⟩
    have none : nightly.row.lastBackupAt = none := rfl
    exact absurd (none.symm.trans known) (by simp)
  case returns =>
    intro started _ raised
    exact absurd raised (by decide)
  case succeeds =>
    intro failed
    exact absurd failed (by decide)

theorem schedule_fair_redelivered :
    ∃ s, play BackupWorld.next redeliveredTick nightly = some s ∧
      s.files = [⟨.auto, sundayThree⟩] ∧ s.jobs 1 = .answered sundayThree alreadyRan ∧ s.Fair :=
  ⟨_, rfl, rfl, rfl, schedule_fair rfl (Reaches.of_fits redeliveredTick_steady rfl)⟩

/-- Both deliveries of a tick ask before either has the lock. -/
def doubledTick : List BackupEvent :=
  [.tick 0, .tick 1, .load 0, .load 1, .acquire 0, .stamp 0, .finish 0 .returned, .retain 0 true,
   .record 0 true, .release 0, .wait 60000000, .acquire 1, .stamp 1, .finish 1 .returned]

/-- The backup fails, and the tick is delivered again. -/
def failedTick : List BackupEvent :=
  [.tick 0, .load 0, .acquire 0, .stamp 0, .finish 0 (.raised false), .record 0 true, .release 0,
   .tick 1, .load 1]

/-- A manual backup is skipped, and the tick comes after it. -/
def skippedManual : List BackupEvent :=
  [.restoreTask 0, .acquire 0, .createTask 1, .acquire 1, .stamp 1, .record 1 true, .tick 2,
   .load 2]

/-- One hour gets two automatic backups; a failed run and a skipped one stand in for a backup. -/
theorem schedule_unfair : ∃ s t u,
    play BackupWorld.next doubledTick nightly = some s ∧
      s.files = [⟨.auto, sundayThree + 60000000⟩, ⟨.auto, sundayThree⟩] ∧ ¬ s.Fair ∧
    play BackupWorld.next failedTick nightly = some t ∧
      t.jobs 1 = .answered sundayThree alreadyRan ∧ t.files = [] ∧ ¬ t.Fair ∧
    play BackupWorld.next skippedManual nightly = some u ∧
      u.jobs 2 = .answered sundayThree alreadyRan ∧ u.files = [] ∧ ¬ u.Fair := by
  refine ⟨_, _, _, rfl, rfl, ?_, rfl, rfl, rfl, ?_, rfl, rfl, rfl, ?_⟩
  · intro fair
    exact List.rel_of_pairwise_cons fair.single (List.mem_cons_self ..) rfl rfl (by decide)
  · intro fair
    obtain ⟨file, member, -⟩ := fair.truthful 1 sundayThree rfl
    exact absurd member (List.not_mem_nil)
  · intro fair
    obtain ⟨file, member, -⟩ := fair.truthful 2 sundayThree rfl
    exact absurd member (List.not_mem_nil)

end MegooPM
