import MegooPM.Nginx.AllOrNothing
import MegooPM.Lib.Transition

/-!
# A call, action by action

How the disk relates, at every action of a call, to the disk the call found: the
invariant `Phase.Tracks`, which every action keeps, and from which the disk at each
controller request and at the end of the call follows. A call that is left alone
runs to the result `applyTargets` computes.
-/
namespace MegooPM

open Lib

def defaultPrefix : ManagedPrefix where
  text := defaultManagedPrefix
  visible := visiblePrefix_default
  covers := by decide

/-- A covering prefix covers what the renderer names. -/
theorem ManagedPrefix.named (p : ManagedPrefix) {files : Files}
    (named : Named defaultManagedPrefix files) : Named p.text files := by
  intro name content found
  exact startsWith_trans (named name content found) p.covers

/-! ### Calls -/

/-- A call of `apply_config` whose rendering did not raise. -/
structure Call (cfg : Deployment) where
  options : ApplyOptions
  state : DesiredState
  desired : DirName → Files
  rendered : renderTargets cfg options state = .ok desired

def Call.job {cfg : Deployment} (c : Call cfg) (p : ManagedPrefix) : Job where
  managedPrefix := p
  dirs := c.options.dirs
  desired := c.desired
  distinct := dirs_nodup c.options
  named := fun d _ => p.named (named_renderTargets c.rendered d)

namespace Job

/-- The disk once the sync is through. -/
def synced (job : Job) (start : Disk) : Disk :=
  syncTargets job.pre job.dirs job.desired start

/-- The disk once the rollback is through. -/
def restored (job : Job) (start : Disk) : Disk :=
  syncTargets job.pre job.dirs (readTargets job.pre start) (job.synced start)

theorem managedFiles_synced (job : Job) (start : Disk) {d : DirName} (target : d ∈ job.dirs) :
    managedFiles job.pre (job.synced start d) = job.desired d :=
  managedFiles_syncTargets job.managedPrefix.visible job.distinct job.named start target

theorem synced_other (job : Job) (start : Disk) {d : DirName} (other : d ∉ job.dirs) :
    job.synced start d = start d := by
  rw [synced, syncTargets_apply _ _ _ _ job.distinct, if_neg other]

theorem managedFiles_restored (job : Job) (start : Disk) {d : DirName} (target : d ∈ job.dirs) :
    managedFiles job.pre (job.restored start d) = readManaged job.pre (start d) :=
  managedFiles_syncTargets job.managedPrefix.visible job.distinct
    (fun e _ => named_readTargets job.pre start e) (job.synced start) target

theorem restored_other (job : Job) (start : Disk) {d : DirName} (other : d ∉ job.dirs) :
    job.restored start d = start d := by
  rw [restored, syncTargets_apply _ _ _ _ job.distinct, if_neg other, job.synced_other start other]

end Job

/-! ### The invariant of a call -/

/-- Where the disk stands with respect to the disk `start` the call found. -/
def Phase.Tracks (job : Job) (start disk : Disk) : Phase → Prop
  | .entered => disk = start
  | .compared currents => currents = readTargets job.pre start ∧ disk = start
  | .syncing currents todo =>
    currents = readTargets job.pre start ∧ finishAll job.pre todo disk = job.synced start
  | .testing currents | .reloading currents _ =>
    currents = readTargets job.pre start ∧ disk = job.synced start
  | .restoring currents _ _ todo =>
    currents = readTargets job.pre start ∧ finishAll job.pre todo disk = job.restored start
  | .reloadingAgain currents _ _ =>
    currents = readTargets job.pre start ∧ disk = job.restored start
  | .done result =>
    (result.changed = false ∧ result.rolledBack = false ∧ disk = start ∧
      ∀ d ∈ job.dirs, job.desired d = readTargets job.pre start d) ∨
    (result.changed = false ∧ result.rolledBack = true ∧ disk = job.restored start) ∨
    (result.changed = true ∧ result.rolledBack = false ∧ disk = job.synced start)

private theorem tracks_entered {job : Job} {start : Disk} (answer : CommandResult) :
    (Phase.next job answer start .entered).phase.Tracks job start
      (Phase.next job answer start .entered).disk := by
  by_cases same : (job.dirs.all fun d => job.desired d = readTargets job.pre start d) = true
  · simp only [Phase.next, same, if_true]
    exact Or.inl ⟨rfl, rfl, rfl, by simpa using same⟩
  · simp only [Phase.next, same, if_false, Bool.false_eq_true]
    exact ⟨rfl, rfl⟩

/-- One action of a call keeps the invariant. -/
theorem Phase.Tracks.next {job : Job} {start disk : Disk} {phase : Phase}
    (tracks : phase.Tracks job start disk) (answer : CommandResult) :
    (phase.next job answer disk).phase.Tracks job start (phase.next job answer disk).disk := by
  cases phase with
  | entered =>
    subst tracks
    exact tracks_entered answer
  | compared currents =>
    obtain ⟨read, rfl⟩ := tracks
    -- the program that is left ends with the same disk
    have first := finish_execFirst job.pre disk (syncProgram job.dirs job.desired)
    exact ⟨read, first.trans (finish_syncProgram ..)⟩
  | syncing currents todo =>
    obtain ⟨read, finished⟩ := tracks
    cases todo with
    | nil => exact ⟨read, finished⟩
    | cons i rest => exact ⟨read, (finish_execFirst job.pre disk (i :: rest)).trans finished⟩
  | testing currents =>
    obtain ⟨read, rfl⟩ := tracks
    by_cases ok : answer.ok = true
    · simp only [Phase.next, ok, if_true]
      exact ⟨read, rfl⟩
    · simp only [Phase.next, ok, if_false, Bool.false_eq_true]
      refine ⟨read, ?_⟩
      rw [finish_syncProgram, read]
      rfl
  | reloading currents test =>
    obtain ⟨read, rfl⟩ := tracks
    by_cases ok : answer.ok = true
    · simp only [Phase.next, ok, if_true]
      exact Or.inr (Or.inr ⟨rfl, rfl, rfl⟩)
    · simp only [Phase.next, ok, if_false, Bool.false_eq_true]
      refine ⟨read, ?_⟩
      rw [finish_syncProgram, read]
      rfl
  | restoring currents test reload todo =>
    obtain ⟨read, finished⟩ := tracks
    cases todo with
    | nil =>
      cases reload with
      | none => exact Or.inr (Or.inl ⟨rfl, rfl, finished⟩)
      | some failed => exact ⟨read, finished⟩
    | cons i rest =>
      have onward := (finish_execFirst job.pre disk (i :: rest)).trans finished
      cases reload with
      | none => exact ⟨read, onward⟩
      | some failed => exact ⟨read, onward⟩
  | reloadingAgain currents test reload =>
    obtain ⟨_, same⟩ := tracks
    exact Or.inr (Or.inl ⟨rfl, rfl, same⟩)
  | done result => exact tracks

/-- nginx loads in two places only: the accepted new set, and the restored old one. -/
theorem Phase.Tracks.loads {job : Job} {start disk : Disk} {phase : Phase}
    (tracks : phase.Tracks job start disk) {answer : CommandResult}
    (loaded : (phase.next job answer disk).loads = true) :
    (phase.next job answer disk).disk = disk ∧
    ((disk = job.synced start ∧ ∃ currents test, phase = .reloading currents test) ∨
      (disk = job.restored start ∧ ∃ currents test reload,
        phase = .reloadingAgain currents test reload)) := by
  cases phase with
  | reloading currents test =>
    obtain ⟨_, same⟩ := tracks
    refine ⟨?_, Or.inl ⟨same, currents, test, rfl⟩⟩
    simp only [Phase.next]
    split <;> rfl
  | reloadingAgain currents test reload =>
    exact ⟨rfl, Or.inr ⟨tracks.2, currents, test, reload, rfl⟩⟩
  | entered =>
    simp only [Phase.next] at loaded
    split at loaded <;> cases loaded
  | compared currents => cases loaded
  | syncing currents todo => cases todo <;> cases loaded
  | testing currents =>
    simp only [Phase.next] at loaded
    split at loaded <;> cases loaded
  | restoring currents test reload todo => cases todo <;> cases reload <;> cases loaded
  | done result => cases loaded

/-! ### A call left alone -/

/-- The managed bytes of every directory. -/
def managedSet (p : ManagedPrefix) (disk : Disk) : DirName → Files :=
  fun d => managedFiles p.text (disk d)

/-- A call under way, with the disk and with what nginx last loaded. -/
structure Running where
  phase : Phase
  disk : Disk
  loaded : DirName → Files

def Phase.isDone : Phase → Bool
  | .done _ => true
  | _ => false

/-- The state after the next action; a successful reload loads what is on disk. -/
def Running.after (job : Job) (answer : CommandResult) (s : Running) : Running :=
  let o := s.phase.next job answer s.disk
  { phase := o.phase
    disk := o.disk
    loaded := if o.loads then managedSet job.managedPrefix o.disk else s.loaded }

/-- One action of a call that has not returned, whatever the controller answers. -/
def callStep (job : Job) (s : Running) (answer : CommandResult) (s' : Running) : Prop :=
  s.phase.isDone = false ∧ s' = s.after job answer

/-- A phase that works off instructions, as `syncing` and `restoring` do. -/
def WorksOff (job : Job) (phase : List Instr → Phase) : Prop :=
  ∀ answer disk loaded i rest, callStep job ⟨phase (i :: rest), disk, loaded⟩ answer
    ⟨phase (Instr.execFirst job.pre disk (i :: rest)).2,
      (Instr.execFirst job.pre disk (i :: rest)).1, loaded⟩

theorem worksOff_syncing (job : Job) (currents : DirName → Files) :
    WorksOff job (.syncing currents) := fun _ _ _ _ _ => ⟨rfl, rfl⟩

theorem worksOff_restoring (job : Job) (currents : DirName → Files) (test : CommandResult)
    (reload : Option CommandResult) : WorksOff job (.restoring currents test reload) := by
  intro answer disk loaded i rest
  cases reload <;> exact ⟨rfl, rfl⟩

/-- A run of a call in which the controller accepts whatever it is asked. -/
abbrev AcceptedRun (job : Job) : Running → Running → Prop :=
  Reaches (Guarded (fun _ answer => answer.ok = true) (callStep job))

private theorem run_unlinks {job : Job} {phase : List Instr → Phase} (works : WorksOff job phase)
    (d : DirName) (names : List String) (rest : List Instr) (disk : Disk)
    (loaded : DirName → Files) :
    AcceptedRun job ⟨phase (names.map (fun name => .unlink d name) ++ rest), disk, loaded⟩
      ⟨phase rest, finishAll job.pre (names.map fun name => .unlink d name) disk, loaded⟩ := by
  induction names generalizing disk with
  | nil => exact Reaches.refl ..
  | cons name names ih =>
    have first := works { ok := true } disk loaded (.unlink d name)
      (names.map (fun name => .unlink d name) ++ rest)
    exact Reaches.head ⟨rfl, first⟩ (ih _)

/-- A sync is worked off to its end. -/
theorem run_instructions {job : Job} {phase : List Instr → Phase} (works : WorksOff job phase)
    (todo : List Instr) (disk : Disk) (loaded : DirName → Files) :
    AcceptedRun job ⟨phase todo, disk, loaded⟩
      ⟨phase [], finishAll job.pre todo disk, loaded⟩ := by
  induction todo generalizing disk with
  | nil => exact Reaches.refl ..
  | cons i rest ih =>
    have first := works { ok := true } disk loaded i rest
    have whole : finishAll job.pre (i :: rest) disk =
        finishAll job.pre rest (finishAll job.pre (i.exec job.pre disk).2 (i.exec job.pre disk).1) := by
      rw [← finishAll_append]
      exact (finish_execFirst job.pre disk (i :: rest)).symm
    rw [whole]
    refine Reaches.head ⟨rfl, first⟩ (Reaches.trans ?_ (ih _))
    -- only a sweep leaves instructions of its own
    cases i with
    | write d name content => exact Reaches.refl ..
    | unlink d name => exact Reaches.refl ..
    | sweep d desired => exact run_unlinks works d _ rest _ loaded

/-- From the comparison to the end of the sync. -/
theorem run_to_synced (job : Job) (start : Disk) (currents loaded : DirName → Files) :
    AcceptedRun job ⟨.compared currents, start, loaded⟩
      ⟨.syncing currents [], job.synced start, loaded⟩ := by
  have first : callStep job ⟨.compared currents, start, loaded⟩ { ok := true }
      ⟨.syncing currents (Instr.execFirst job.pre start (syncProgram job.dirs job.desired)).2,
        (Instr.execFirst job.pre start (syncProgram job.dirs job.desired)).1, loaded⟩ := ⟨rfl, rfl⟩
  have middle := run_instructions (worksOff_syncing job currents)
    (Instr.execFirst job.pre start (syncProgram job.dirs job.desired)).2
    (Instr.execFirst job.pre start (syncProgram job.dirs job.desired)).1 loaded
  rw [finish_execFirst, finish_syncProgram] at middle
  exact Reaches.head ⟨rfl, first⟩ middle

/-- The end of the sync. -/
theorem step_synced (job : Job) (disk : Disk) (currents loaded : DirName → Files)
    (answer : CommandResult) :
    callStep job ⟨.syncing currents [], disk, loaded⟩ answer ⟨.testing currents, disk, loaded⟩ :=
  ⟨rfl, rfl⟩

/-- `nginx -t` accepts. -/
theorem step_accepted (job : Job) (disk : Disk) (currents loaded : DirName → Files)
    {answer : CommandResult} (ok : answer.ok = true) :
    callStep job ⟨.testing currents, disk, loaded⟩ answer
      ⟨.reloading currents answer, disk, loaded⟩ := by
  refine ⟨rfl, ?_⟩
  simp [Running.after, Phase.next, ok]

/-- The reload succeeds: nginx runs what is on disk. -/
theorem step_reloaded (job : Job) (disk : Disk) (currents loaded : DirName → Files)
    (test : CommandResult) {answer : CommandResult} (ok : answer.ok = true) :
    callStep job ⟨.reloading currents test, disk, loaded⟩ answer
      ⟨.done (applied job.dirs job.desired test answer), disk,
        managedSet job.managedPrefix disk⟩ := by
  refine ⟨rfl, ?_⟩
  simp [Running.after, Phase.next, ok]

/-- From the first write of a rollback to its end. -/
theorem run_rollback (job : Job) (start : Disk) (test : CommandResult)
    (reload : Option CommandResult) (loaded : DirName → Files) :
    AcceptedRun job
      ⟨.restoring (readTargets job.pre start) test reload
        (syncProgram job.dirs (readTargets job.pre start)), job.synced start, loaded⟩
      ⟨.restoring (readTargets job.pre start) test reload [], job.restored start, loaded⟩ := by
  have run := run_instructions (worksOff_restoring job (readTargets job.pre start) test reload)
    (syncProgram job.dirs (readTargets job.pre start)) (job.synced start) loaded
  rwa [finish_syncProgram] at run

/-- The comparison, on a disk that differs. -/
theorem step_differs {job : Job} {start : Disk}
    (differs : ¬∀ d ∈ job.dirs, job.desired d = readTargets job.pre start d)
    (loaded : DirName → Files) (answer : CommandResult) :
    callStep job ⟨.entered, start, loaded⟩ answer
      ⟨.compared (readTargets job.pre start), start, loaded⟩ := by
  have notAll : ¬(job.dirs.all fun d => job.desired d = readTargets job.pre start d) = true := by
    simpa using differs
  refine ⟨rfl, ?_⟩
  simp only [Running.after, Phase.next, notAll, if_false, Bool.false_eq_true]

/-- The comparison, on a disk that reads as desired. -/
theorem step_upToDate {job : Job} {start : Disk}
    (same : ∀ d ∈ job.dirs, job.desired d = readTargets job.pre start d)
    (loaded : DirName → Files) (answer : CommandResult) :
    callStep job ⟨.entered, start, loaded⟩ answer
      ⟨.done (upToDate job.dirs job.desired), start, loaded⟩ := by
  have all : (job.dirs.all fun d => job.desired d = readTargets job.pre start d) = true := by
    simpa using same
  refine ⟨rfl, ?_⟩
  simp only [Running.after, Phase.next, all, if_true, if_false, Bool.false_eq_true]

/-- A call that finds a difference and is accepted throughout leaves its rendering. -/
theorem run_accepted {job : Job} {start : Disk}
    (differs : ¬∀ d ∈ job.dirs, job.desired d = readTargets job.pre start d)
    (loaded : DirName → Files) :
    ∃ result, result.changed = true ∧ result.rolledBack = false ∧
      AcceptedRun job ⟨.entered, start, loaded⟩
      ⟨.done result, job.synced start, managedSet job.managedPrefix (job.synced start)⟩ := by
  let currents := readTargets job.pre start
  have ok : ({ ok := true } : CommandResult).ok = true := rfl
  have toSynced := Reaches.head ⟨ok, step_differs differs loaded { ok := true }⟩
    (run_to_synced job start currents loaded)
  have toTest := toSynced.tail ⟨ok, step_synced job (job.synced start) currents loaded { ok := true }⟩
  have accepted := toTest.tail ⟨ok, step_accepted job (job.synced start) currents loaded ok⟩
  exact ⟨_, rfl, rfl, accepted.tail ⟨ok, step_reloaded job (job.synced start) currents loaded _ ok⟩⟩

/-- A call nothing interferes with ends with the result and the disk of `applyTargets`, and
with nginx on the new files if it changed something. -/
theorem run_applyTargets (job : Job) (answers : Answers) (start : Disk)
    (loaded : DirName → Files) :
    let out := applyTargets job.pre job.dirs job.desired answers start
    ∃ loaded', Reaches (callStep job) ⟨.entered, start, loaded⟩ ⟨.done out.1, out.2.1, loaded'⟩ ∧
      (out.1.changed = true → loaded' = managedSet job.managedPrefix out.2.1) := by
  intro out
  by_cases same : ∀ d ∈ job.dirs, job.desired d = readTargets job.pre start d
  · have path : out = (upToDate job.dirs job.desired, start, []) := by
      have all : (job.dirs.all fun d => job.desired d = readTargets job.pre start d) = true := by
        simpa using same
      simp only [out, applyTargets, all, if_true]
    rw [path]
    refine ⟨loaded, Reaches.tail (Reaches.refl ..) (step_upToDate same loaded answers.test), ?_⟩
    intro changed
    cases changed
  · have toTest := Reaches.tail (Reaches.head (step_differs same loaded answers.test)
      (run_to_synced job start (readTargets job.pre start) loaded).of_guarded)
      (step_synced job (job.synced start) (readTargets job.pre start) loaded answers.test)
    have rollback := fun reload => (run_rollback job start answers.test reload loaded).of_guarded
    rcases applyTargets_cases job.pre job.dirs job.desired answers start with
      ⟨equal, _⟩ | ⟨failed, path⟩ | ⟨tested, failed, path⟩ | ⟨tested, reloaded, path⟩
    · exact absurd equal same
    · change out = _ at path
      rw [path]
      -- the test fails: back to what was read, and no reload
      have rejected : callStep job
          ⟨.testing (readTargets job.pre start), job.synced start, loaded⟩ answers.test
          ⟨.restoring (readTargets job.pre start) answers.test none
            (syncProgram job.dirs (readTargets job.pre start)), job.synced start, loaded⟩ := by
        refine ⟨rfl, ?_⟩
        simp [Running.after, Phase.next, failed]
      have ended : callStep job ⟨.restoring (readTargets job.pre start) answers.test none [],
            job.restored start, loaded⟩ answers.test
          ⟨.done (testFailed job.dirs (readTargets job.pre start) answers.test),
            job.restored start, loaded⟩ := ⟨rfl, rfl⟩
      refine ⟨loaded, ?_, fun changed => by cases changed⟩
      exact Reaches.trans (Reaches.tail toTest rejected) (Reaches.tail (rollback none) ended)
    · change out = _ at path
      rw [path]
      have accepted := step_accepted job (job.synced start) (readTargets job.pre start) loaded tested
      -- the reload fails: back, and reload once more
      have refused : callStep job
          ⟨.reloading (readTargets job.pre start) answers.test, job.synced start, loaded⟩
          answers.reload
          ⟨.restoring (readTargets job.pre start) answers.test (some answers.reload)
            (syncProgram job.dirs (readTargets job.pre start)), job.synced start, loaded⟩ := by
        refine ⟨rfl, ?_⟩
        simp [Running.after, Phase.next, failed]
      have onward : callStep job
          ⟨.restoring (readTargets job.pre start) answers.test (some answers.reload) [],
            job.restored start, loaded⟩ answers.reloadAgain
          ⟨.reloadingAgain (readTargets job.pre start) answers.test answers.reload,
            job.restored start, loaded⟩ := ⟨rfl, rfl⟩
      have before := Reaches.tail (Reaches.tail toTest accepted) refused
      have back := Reaches.tail (Reaches.trans before (rollback (some answers.reload))) onward
      refine ⟨_, Reaches.tail back (e := answers.reloadAgain) ⟨rfl, rfl⟩, fun changed => ?_⟩
      cases changed
    · change out = _ at path
      rw [path]
      have accepted := step_accepted job (job.synced start) (readTargets job.pre start) loaded tested
      have ended := step_reloaded job (job.synced start) (readTargets job.pre start) loaded
        answers.test reloaded
      exact ⟨_, Reaches.tail (Reaches.tail toTest accepted) ended, fun _ => rfl⟩

end MegooPM
