import MegooPM.Nginx.CallRun

/-!
# Settled points of a call

While a call writes, the disk is neither what nginx runs nor what the call will leave.
At the settled points it is one of the two: nothing is written yet, the rollback is
through, or the call has returned. Bytes come back from a rollback only where reading
them changed nothing, that is without carriage returns.
-/
namespace MegooPM

open Lib

/-! ### Clean files -/

/-- No content holds a carriage return. -/
def CleanFiles (files : Files) : Prop :=
  ∀ name content : String, files[name]? = some content → NoCarriageReturn content

theorem readManaged_of_clean {pre : String} {dir : Dir} (clean : CleanFiles (managedFiles pre dir)) :
    readManaged pre dir = managedFiles pre dir := by
  apply Std.ExtTreeMap.ext_getElem?
  intro name
  rw [readManaged_eq_map, Std.ExtTreeMap.getElem?_map]
  cases found : (managedFiles pre dir)[name]? with
  | none => rfl
  | some content =>
    rw [Option.map_some, readText_of_clean (clean name content found)]

/-- A rollback brings the bytes back. -/
theorem managedSet_restored (job : Job) {start : Disk}
    (clean : ∀ d, CleanFiles (managedSet job.managedPrefix start d)) :
    managedSet job.managedPrefix (job.restored start) = managedSet job.managedPrefix start := by
  funext d
  by_cases target : d ∈ job.dirs
  · calc managedSet job.managedPrefix (job.restored start) d
        = readManaged job.pre (start d) := job.managedFiles_restored start target
      _ = managedFiles job.pre (start d) := readManaged_of_clean (clean d)
  · simp only [managedSet, job.restored_other start target]

/-- The lock file is not managed. -/
theorem managedSet_openLock (p : ManagedPrefix) (disk : Disk) :
    managedSet p (openLock disk) = managedSet p disk := by
  funext d
  apply Std.ExtTreeMap.ext_getElem?
  intro name
  simp only [managedSet, get_managedFiles]
  split
  next managed =>
    apply get_openLock_other
    rintro ⟨_, rfl⟩
    have plain := p.visible lockFilename managed
    revert plain
    decide
  next => rfl

/-- What a sync leaves is clean. -/
theorem clean_synced {cfg : Deployment} {p : ManagedPrefix} (c : Call cfg) {start : Disk}
    (cleanStart : ∀ d, CleanFiles (managedSet p start d))
    (cleanCall : ∀ d, CleanFiles (c.desired d)) (d : DirName) :
    CleanFiles (managedSet p ((c.job p).synced start) d) := by
  by_cases target : d ∈ (c.job p).dirs
  · have whole := (c.job p).managedFiles_synced start target
    intro name content found
    apply cleanCall d name content
    rw [← found]
    exact congrArg (fun files : Files => files[name]?) whole.symm
  · have same := (c.job p).synced_other start target
    intro name content found
    apply cleanStart d name content
    rw [← found]
    simp only [managedSet, same]

/-! ### Settled points -/

/-- The points of a call at which the disk is as the call found it, or as it leaves it:
nothing is written yet, the rollback is through, or the call has returned. -/
def Phase.settled : Phase → Bool
  | .entered | .compared _ | .restoring _ _ _ [] | .reloadingAgain _ _ _ | .done _ => true
  | _ => false

/-- At a settled point the managed files are those the call found, unless the call has
returned with a change. -/
theorem Phase.Tracks.settled {job : Job} {start disk : Disk} {phase : Phase}
    (tracks : phase.Tracks job start disk) (settled : phase.settled = true)
    (clean : phase ≠ .entered → ∀ d, CleanFiles (managedSet job.managedPrefix start d)) :
    managedSet job.managedPrefix disk = managedSet job.managedPrefix start ∨
    ∃ result, phase = .done result ∧ result.changed = true ∧ disk = job.synced start := by
  have back : phase ≠ .entered →
      managedSet job.managedPrefix (job.restored start) = managedSet job.managedPrefix start :=
    fun past => managedSet_restored job (clean past)
  cases phase with
  | entered =>
    have same : disk = start := tracks
    exact Or.inl (by rw [same])
  | compared currents => exact Or.inl (by rw [tracks.2])
  | syncing currents todo => cases settled
  | testing currents => cases settled
  | reloading currents test => cases settled
  | restoring currents test reload todo =>
    cases todo with
    | cons i rest => cases settled
    | nil =>
      have same : disk = job.restored start := tracks.2
      exact Or.inl (by rw [same, back fun same => by cases same])
  | reloadingAgain currents test reload =>
    exact Or.inl (by rw [tracks.2, back fun same => by cases same])
  | done result =>
    rcases tracks with ⟨_, _, same, _⟩ | ⟨_, _, same⟩ | ⟨changed, _, same⟩
    · exact Or.inl (by rw [same])
    · exact Or.inl (by rw [same, back fun same => by cases same])
    · exact Or.inr ⟨result, rfl, changed, same⟩

/-- A call compares once. -/
theorem Phase.next_ne_entered {job : Job} {answer : CommandResult} {disk : Disk} {phase : Phase} :
    (phase.next job answer disk).phase ≠ .entered := by
  cases phase with
  | entered | testing | reloading =>
    simp only [Phase.next]
    split <;> (intro same; cases same)
  | compared | reloadingAgain | done =>
    intro same
    cases same
  | syncing currents todo => cases todo <;> (intro same; cases same)
  | restoring currents test reload todo =>
    cases todo <;> cases reload <;> (intro same; cases same)

/-- What a call found is clean once it has compared, if it was clean then. -/
theorem Phase.Tracks.clean_next {job : Job} {start disk : Disk} {phase : Phase}
    (tracks : phase.Tracks job start disk)
    (compares : phase = .entered → ∀ d, CleanFiles (managedSet job.managedPrefix disk d))
    (clean : phase ≠ .entered → ∀ d, CleanFiles (managedSet job.managedPrefix start d)) :
    ∀ d, CleanFiles (managedSet job.managedPrefix start d) := by
  cases phase with
  | entered =>
    have same : disk = start := tracks
    rw [← same]
    exact compares rfl
  | _ => exact clean fun same => by cases same

/-! ### Loads -/

/-- A change is reported only by the action that reloads. -/
theorem Phase.loads_of_changed {job : Job} {answer : CommandResult} {disk : Disk} {phase : Phase}
    {result : ApplyResult} (running : phase.isDone = false)
    (ends : (phase.next job answer disk).phase = .done result) (changed : result.changed = true) :
    (phase.next job answer disk).loads = true := by
  cases phase with
  | entered =>
    simp only [Phase.next] at ends
    split at ends
    · cases ends
      cases changed
    · cases ends
  | compared currents => cases ends
  | syncing currents todo => cases todo <;> cases ends
  | testing currents =>
    simp only [Phase.next] at ends
    split at ends <;> cases ends
  | reloading currents test =>
    simp only [Phase.next] at ends ⊢
    split at ends
    next ok => rw [if_pos ok]
    next => cases ends
  | restoring currents test reload todo =>
    cases todo with
    | nil =>
      cases reload with
      | none =>
        cases ends
        cases changed
      | some failed => cases ends
    | cons i rest => cases reload <;> cases ends
  | reloadingAgain currents test reload =>
    cases ends
    cases changed
  | done result => cases running

/-- An action that loads ends the call. -/
theorem Phase.isDone_of_loads {job : Job} {answer : CommandResult} {disk : Disk} {phase : Phase}
    (running : phase.isDone = false) (loads : (phase.next job answer disk).loads = true) :
    (phase.next job answer disk).phase.isDone = true := by
  cases phase with
  | entered =>
    simp only [Phase.next] at loads
    split at loads <;> cases loads
  | compared currents => cases loads
  | syncing currents todo => cases todo <;> cases loads
  | testing currents =>
    simp only [Phase.next] at loads
    split at loads <;> cases loads
  | reloading currents test =>
    simp only [Phase.next] at loads ⊢
    split at loads
    next ok =>
      rw [if_pos ok]
      rfl
    next => cases loads
  | restoring currents test reload todo => cases todo <;> cases reload <;> cases loads
  | reloadingAgain currents test reload => rfl
  | done result => cases running

/-- A clean call reads back what it has written. -/
theorem reads_synced {cfg : Deployment} (c : Call cfg) (p : ManagedPrefix)
    (clean : ∀ d, CleanFiles (c.desired d)) (start : Disk) :
    ∀ d ∈ (c.job p).dirs, (c.job p).desired d =
      readTargets (c.job p).pre ((c.job p).synced start) d := by
  intro d target
  have synced := (c.job p).managedFiles_synced start target
  have cleanFiles : CleanFiles (managedFiles (c.job p).pre ((c.job p).synced start d)) := by
    rw [synced]
    exact clean d
  exact synced.symm.trans (readManaged_of_clean cleanFiles).symm

/-! ### The sample deployment -/

theorem clean_text {pairs : List (String × FileBody)}
    (clean : ∀ file ∈ pairs, NoCarriageReturn file.2.text) :
    CleanFiles (Bodies.text (Dict.ofPairs pairs)) := by
  intro name content found
  obtain ⟨body, member, rfl⟩ := mem_pairs_of_get_text found
  exact clean _ member

private theorem errorPairs_clean :
    ∀ file ∈ errorPairs sampleDeployment [], NoCarriageReturn file.2.text := by
  intro file member
  simp only [errorPairs, List.mem_append, List.mem_map, List.mem_singleton] at member
  rcases member with ⟨code, known, rfl⟩ | rfl
  · revert code
    decide
  · have tree := Node.noCarriageReturn_printAll (errorsTemplate sampleDeployment errorCodes)
      (by decide +kernel)
    exact (noCarriageReturn_append _ _).mpr ⟨tree, by decide⟩

/-- The rendering of the empty state holds no carriage return. -/
theorem clean_renderTargets_empty {desired : DirName → Files}
    (rendered : renderTargets sampleDeployment {} {} = .ok desired) (d : DirName) :
    CleanFiles (desired d) := by
  cases rendered
  cases d with
  | confd => exact clean_text (fun _ member => by cases member)
  | stream => exact clean_text (fun _ member => by cases member)
  | default => exact clean_text errorPairs_clean

/-- A disk without files. -/
theorem clean_noFiles (p : ManagedPrefix) (d : DirName) :
    CleanFiles (managedSet p (fun _ => ∅) d) := by
  intro name content found
  simp [managedSet, get_managedFiles] at found

/-- An apply of the empty state, which finds something to do on an empty disk. -/
theorem sampleApply : ∃ c : Call sampleDeployment,
    c.options = { managedPrefix := defaultManagedPrefix, ownLock := false } ∧ c.state = {} ∧
    (∀ d, CleanFiles (c.desired d)) ∧
    ¬∀ d ∈ (c.job defaultPrefix).dirs, (c.job defaultPrefix).desired d =
      readTargets (c.job defaultPrefix).pre (fun _ => ∅) d := by
  obtain ⟨desired, rendered, _, content, wanted⟩ := renderTargets_empty
  let o : ApplyOptions := { managedPrefix := defaultManagedPrefix, ownLock := false }
  refine ⟨⟨o, {}, desired, rendered⟩, rfl, rfl, clean_renderTargets_empty rendered, ?_⟩
  intro same
  have target : DirName.default ∈ o.dirs := by decide
  have read := congrArg (fun files : Files => files[errorsConf]?) (same .default target)
  simp only [readTargets, get_readManaged] at read
  rw [show (Call.job _ _).desired .default = desired .default from rfl, wanted,
    show (∅ : Dir)[errorsConf]? = none from Std.ExtTreeMap.getElem?_empty, Option.map_none,
    ite_self] at read
  cases read

end MegooPM
