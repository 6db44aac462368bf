import MegooPM.Nginx.RendererFacts

/-!
# A call is all or nothing

What a call of `apply_config` that runs to its end leaves on disk, for every
answer of the controller. The engine's own dot-files (the lock, and the temp file
of a name it writes) are the only unmanaged names a call can touch.
-/
namespace MegooPM

open Lib

/-! ### Syncing the targets of a call -/

theorem get_openLock_other (disk : Disk) (d : DirName) {name : String}
    (apart : ¬(d = .confd ∧ name = lockFilename)) :
    (openLock disk d)[name]? = (disk d)[name]? := by
  by_cases here : d = .confd
  · subst here
    simp only [openLock, updateDir_self]
    split
    · rfl
    · rw [Dict.get_insert, if_neg fun same => apart ⟨rfl, same.symm⟩]
  · simp only [openLock, updateDir_other _ _ here]

theorem readManaged_openLock {pre : String} (visible : VisiblePrefix pre) (disk : Disk)
    (d : DirName) : readManaged pre (openLock disk d) = readManaged pre (disk d) := by
  apply readManaged_congr
  apply Std.ExtTreeMap.ext_getElem?
  intro name
  simp only [get_managedFiles]
  split
  next managed =>
    apply get_openLock_other
    rintro ⟨_, rfl⟩
    have plain := visible lockFilename managed
    revert plain
    decide
  next => rfl

section Targets

variable {pre : String} (visible : VisiblePrefix pre) {dirs : List DirName}
  (distinct : dirs.Nodup) {desired : DirName → Files}
  (named : ∀ d ∈ dirs, Named pre (desired d))

include visible distinct named

/-- After the sync every target holds exactly what is desired. -/
theorem managedFiles_syncTargets (disk : Disk) {d : DirName} (target : d ∈ dirs) :
    managedFiles pre (syncTargets pre dirs desired disk d) = desired d := by
  rw [syncTargets_apply pre dirs desired disk distinct, if_pos target]
  exact managedFiles_syncTo visible (named d target) (disk d)

omit named in
/-- Rolling back brings every directory back to what was read before. -/
theorem readManaged_restored (disk : Disk) (d : DirName) :
    readManaged pre (syncTargets pre dirs (readTargets pre disk)
      (syncTargets pre dirs desired disk) d) = readManaged pre (disk d) := by
  by_cases target : d ∈ dirs
  · have restored := managedFiles_syncTargets visible distinct
      (fun e _ => named_readTargets pre disk e) (syncTargets pre dirs desired disk) target
    calc readManaged pre (syncTargets pre dirs (readTargets pre disk)
          (syncTargets pre dirs desired disk) d)
        = (readManaged pre (disk d)).map fun _ content => readText content := by
          rw [readManaged_eq_map]
          exact congrArg _ restored
      _ = readManaged pre (disk d) := map_readText_readManaged pre (disk d)
  · rw [syncTargets_apply _ _ _ _ distinct, if_neg target, syncTargets_apply _ _ _ _ distinct,
      if_neg target]

omit visible in
theorem get_syncTargets_other (disk : Disk) (d : DirName) {name : String}
    (unmanaged : startsWith name pre = false)
    (notTemp : ∀ file, startsWith file pre = true → tempName file ≠ name) :
    (syncTargets pre dirs desired disk d)[name]? = (disk d)[name]? := by
  rw [syncTargets_apply pre dirs desired disk distinct]
  split
  next target => exact get_syncTo_other (named d target) (disk d) unmanaged notTemp
  next => rfl

end Targets

/-! ### The result of a call -/

/-- The names a call may use for itself: its lock, and the temp file of a managed name. -/
def EngineOwn (o : ApplyOptions) (d : DirName) (name : String) : Prop :=
  (o.ownLock = true ∧ d = .confd ∧ name = lockFilename) ∨
    ∃ file, startsWith file o.managedPrefix = true ∧ tempName file = name

/-- Every reload is of a complete set that `test()` accepted just before, except the
last request of a call that rolls back because its reload failed. -/
def ReloadsTested (answers : Answers) (complete : Disk → Prop) (rolledBack : Bool)
    (requests : List Request) : Prop :=
  ∀ before seen after, requests = before ++ .reload seen :: after →
    (complete seen ∧ before = [.test seen] ∧ answers.test.ok = true) ∨
    (rolledBack = true ∧ after = [] ∧ answers.reload.ok = false ∧
      ∃ tried, before = [.test tried, .reload tried])

private theorem reloadsTested_nil (answers : Answers) (complete : Disk → Prop) (back : Bool) :
    ReloadsTested answers complete back [] := by
  intro before seen after split
  simp at split

private theorem reloadsTested_test (answers : Answers) (complete : Disk → Prop) (back : Bool)
    (disk : Disk) : ReloadsTested answers complete back [.test disk] := by
  intro before seen after split
  cases before with
  | nil => cases split
  | cons _ rest => simp at split

private theorem reloadsTested_reload {answers : Answers} {complete : Disk → Prop} (back : Bool)
    {disk : Disk} (valid : answers.test.ok = true) (whole : complete disk) :
    ReloadsTested answers complete back [.test disk, .reload disk] := by
  intro before seen after split
  rcases before with _ | ⟨first, _ | ⟨second, rest⟩⟩
  · cases split
  · cases split
    exact Or.inl ⟨whole, rfl, valid⟩
  · simp at split

private theorem reloadsTested_again {answers : Answers} {complete : Disk → Prop}
    {disk restored : Disk} (valid : answers.test.ok = true) (failed : answers.reload.ok = false)
    (whole : complete disk) :
    ReloadsTested answers complete true [.test disk, .reload disk, .reload restored] := by
  intro before seen after split
  rcases before with _ | ⟨first, _ | ⟨second, _ | ⟨third, rest⟩⟩⟩
  · cases split
  · cases split
    exact Or.inl ⟨whole, rfl, valid⟩
  · cases split
    exact Or.inr ⟨rfl, rfl, failed, disk, rfl⟩
  · simp at split

/-- The paths through the locked section. -/
theorem applyTargets_cases (pre : String) (dirs : List DirName) (desired : DirName → Files)
    (answers : Answers) (disk : Disk) :
    let synced := syncTargets pre dirs desired disk
    let restored := syncTargets pre dirs (readTargets pre disk) synced
    ((∀ d ∈ dirs, desired d = readTargets pre disk d) ∧
      applyTargets pre dirs desired answers disk = (upToDate dirs desired, disk, [])) ∨
    (answers.test.ok = false ∧ applyTargets pre dirs desired answers disk =
      (testFailed dirs (readTargets pre disk) answers.test, restored, [.test synced])) ∨
    (answers.test.ok = true ∧ answers.reload.ok = false ∧
      applyTargets pre dirs desired answers disk =
      (reloadFailed dirs (readTargets pre disk) answers.test answers.reload, restored,
        [.test synced, .reload synced, .reload restored])) ∨
    (answers.test.ok = true ∧ answers.reload.ok = true ∧
      applyTargets pre dirs desired answers disk =
      (applied dirs desired answers.test answers.reload, synced, [.test synced, .reload synced])) := by
  intro synced restored
  by_cases same : (dirs.all fun d => desired d = readTargets pre disk d) = true
  · left
    refine ⟨by simpa using same, ?_⟩
    simp only [applyTargets, same, if_true]
  · right
    simp only [applyTargets, same, if_false, Bool.false_eq_true]
    cases tested : answers.test.ok with
    | false => exact Or.inl ⟨rfl, by simp [synced, restored]⟩
    | true =>
      cases reloaded : answers.reload.ok with
      | false => exact Or.inr (Or.inl ⟨rfl, rfl, by simp [synced, restored]⟩)
      | true => exact Or.inr (Or.inr ⟨rfl, rfl, by simp [synced]⟩)

/-- A call that returns: a rolled-back one leaves every directory reading as before, one
that changed something leaves exactly the rendered files, none of them touches a file
that is neither managed nor the engine's own, and nginx is only reloaded onto what it
has accepted. -/
theorem applyConfig_all_or_nothing {cfg : Deployment} {o : ApplyOptions} {state : DesiredState}
    {answers : Answers} {disk disk' : Disk} {result : ApplyResult} {requests : List Request}
    {desired : DirName → Files} (visible : VisiblePrefix o.managedPrefix)
    (rendered : renderTargets cfg o state = .ok desired)
    (named : ∀ d ∈ o.dirs, Named o.managedPrefix (desired d))
    (ran : applyConfig cfg o state answers disk = .ok (result, disk', requests)) :
    (result.rolledBack = true → ∀ d,
      readManaged o.managedPrefix (disk' d) = readManaged o.managedPrefix (disk d)) ∧
    (result.changed = true → ∀ d ∈ o.dirs, managedFiles o.managedPrefix (disk' d) = desired d) ∧
    (∀ d name, startsWith name o.managedPrefix = false → ¬EngineOwn o d name →
      (disk' d)[name]? = (disk d)[name]?) ∧
    ReloadsTested answers
      (fun seen => ∀ d ∈ o.dirs, managedFiles o.managedPrefix (seen d) = desired d)
      result.rolledBack requests := by
  obtain ⟨files, same, ran⟩ := bind_eq_ok ran
  rw [rendered] at same
  cases same
  have path := Except.ok.inj ran
  -- the disk the locked section starts from
  generalize locked : (if o.ownLock then openLock disk else disk) = start at path
  have startReads : ∀ d, readManaged o.managedPrefix (start d) =
      readManaged o.managedPrefix (disk d) := by
    intro d
    subst locked
    split
    · exact readManaged_openLock visible disk d
    · rfl
  have startKeeps : ∀ d name, ¬EngineOwn o d name → (start d)[name]? = (disk d)[name]? := by
    intro d name notOwn
    subst locked
    split
    next taken =>
      exact get_openLock_other disk d fun ⟨here, lock⟩ => notOwn (Or.inl ⟨taken, here, lock⟩)
    next => rfl
  have distinct := dirs_nodup o
  have whole : ∀ d ∈ o.dirs, managedFiles o.managedPrefix
      (syncTargets o.managedPrefix o.dirs desired start d) = desired d := fun d target =>
    managedFiles_syncTargets visible distinct named start target
  have restores : ∀ d, readManaged o.managedPrefix
      (syncTargets o.managedPrefix o.dirs (readTargets o.managedPrefix start)
        (syncTargets o.managedPrefix o.dirs desired start) d) =
      readManaged o.managedPrefix (disk d) := fun d =>
    (readManaged_restored visible distinct start d).trans (startReads d)
  have syncKeeps : ∀ d name, startsWith name o.managedPrefix = false → ¬EngineOwn o d name →
      (syncTargets o.managedPrefix o.dirs desired start d)[name]? = (disk d)[name]? := by
    intro d name unmanaged notOwn
    rw [get_syncTargets_other distinct named start d unmanaged
      fun file managed same => notOwn (Or.inr ⟨file, managed, same⟩)]
    exact startKeeps d name notOwn
  have restoreKeeps : ∀ d name, startsWith name o.managedPrefix = false → ¬EngineOwn o d name →
      (syncTargets o.managedPrefix o.dirs (readTargets o.managedPrefix start)
        (syncTargets o.managedPrefix o.dirs desired start) d)[name]? = (disk d)[name]? := by
    intro d name unmanaged notOwn
    rw [get_syncTargets_other distinct (fun e _ => named_readTargets _ start e) _ d unmanaged
      fun file managed same => notOwn (Or.inr ⟨file, managed, same⟩)]
    exact syncKeeps d name unmanaged notOwn
  rcases applyTargets_cases o.managedPrefix o.dirs desired answers start with
    ⟨_, taken⟩ | ⟨_, taken⟩ | ⟨tested, failed, taken⟩ | ⟨tested, _, taken⟩ <;>
    rw [taken] at path <;> cases path
  · refine ⟨fun back => ?_, fun changed => ?_, fun d name _ => startKeeps d name,
      reloadsTested_nil _ _ _⟩
    · cases back
    · cases changed
  · refine ⟨fun _ => restores, fun changed => ?_, restoreKeeps, reloadsTested_test _ _ _ _⟩
    cases changed
  · refine ⟨fun _ => restores, fun changed => ?_, restoreKeeps,
      reloadsTested_again tested failed whole⟩
    cases changed
  · refine ⟨fun back => ?_, fun _ => whole, syncKeeps, reloadsTested_reload _ tested whole⟩
    cases back

/-! ### The engine's own names -/

/-- A deployment to evaluate the model on. -/
def sampleDeployment : Deployment where
  nginxConfdDir := "/etc/nginx/conf.d"
  nginxDefaultDir := "/etc/nginx/default"
  nginxCertsDir := "/etc/nginx/certs"
  acmeHttpChallengeDir := "/var/www/acme"
  congratulationsHtml := "congratulations"
  bannedHtml := "banned"
  maintenanceHtml := "maintenance"
  errorHtml := fun _ heading _ => heading
  digest := fun material => material

/-- A controller that accepts everything. -/
def acceptAll : Answers where
  test := { ok := true }
  reload := { ok := true }
  reloadAgain := { ok := true }

/-- Even the empty state renders the error pages. -/
theorem renderTargets_empty : ∃ desired,
    renderTargets sampleDeployment {} {} = .ok desired ∧
    (∀ d, Named defaultManagedPrefix (desired d)) ∧
    ∃ content, (desired .default)[errorsConf]? = some content := by
  obtain ⟨content, present⟩ := errorsConf_rendered sampleDeployment {}
  cases rendered : renderTargets sampleDeployment {} {} with
  | error e => cases rendered
  | ok desired =>
    refine ⟨desired, rfl, named_renderTargets rendered, content, ?_⟩
    cases rendered
    exact present

/-- A directory without managed files never holds what is rendered. -/
theorem applied_of_unmanaged {desired : DirName → Files} {content : String}
    (wanted : (desired .default)[errorsConf]? = some content) (disk : Disk)
    (fresh : (disk .default)[errorsConf]? = none) :
    applyTargets defaultManagedPrefix ({} : ApplyOptions).dirs desired acceptAll disk =
      (applied ({} : ApplyOptions).dirs desired acceptAll.test acceptAll.reload,
        syncTargets defaultManagedPrefix ({} : ApplyOptions).dirs desired disk,
        [.test (syncTargets defaultManagedPrefix ({} : ApplyOptions).dirs desired disk),
          .reload (syncTargets defaultManagedPrefix ({} : ApplyOptions).dirs desired disk)]) := by
  rcases applyTargets_cases defaultManagedPrefix ({} : ApplyOptions).dirs desired acceptAll disk with
    ⟨same, _⟩ | ⟨failed, _⟩ | ⟨_, failed, _⟩ | ⟨_, _, path⟩
  · have read := congrArg (fun files : Files => files[errorsConf]?) (same .default (by decide))
    simp only [readTargets, get_readManaged, fresh, wanted, Option.map_none, ite_self] at read
    cases read
  · cases failed
  · cases failed
  · exact path

/-- On an empty disk the call writes what it renders, and nginx is reloaded onto it. -/
theorem applyConfig_all_or_nothing_empty : ∃ desired result disk' requests,
    renderTargets sampleDeployment {} {} = .ok desired ∧
    applyConfig sampleDeployment {} {} acceptAll (fun _ => ∅) = .ok (result, disk', requests) ∧
    result.changed = true ∧
    ∀ d ∈ ({} : ApplyOptions).dirs, managedFiles defaultManagedPrefix (disk' d) = desired d := by
  obtain ⟨desired, rendered, named, content, wanted⟩ := renderTargets_empty
  have ran : applyConfig sampleDeployment {} {} acceptAll (fun _ => ∅) = .ok
      (applyTargets defaultManagedPrefix ({} : ApplyOptions).dirs desired acceptAll
        (openLock fun _ => ∅)) := by
    rw [applyConfig, rendered]
    rfl
  rw [applied_of_unmanaged wanted _ (by decide)] at ran
  have whole := applyConfig_all_or_nothing visiblePrefix_default rendered (fun d _ => named d) ran
  exact ⟨desired, _, _, _, rendered, ran, rfl, whole.2.1 rfl⟩

/-- A file an operator left under the temp name of a rendered file does not survive a
call that changes something, although it is not managed. -/
theorem applyConfig_clobbers_temp : ∃ desired result disk' requests, ∃ disk : Disk,
    renderTargets sampleDeployment {} {} = .ok desired ∧
    (∀ d, Named defaultManagedPrefix (desired d)) ∧
    applyConfig sampleDeployment {} {} acceptAll disk = .ok (result, disk', requests) ∧
    result.changed = true ∧
    startsWith ".megoopm-errors.conf.inc.tmp" defaultManagedPrefix = false ∧
    (disk .default)[".megoopm-errors.conf.inc.tmp"]? = some "kept by hand" ∧
    (disk' .default)[".megoopm-errors.conf.inc.tmp"]? = none := by
  obtain ⟨desired, rendered, named, content, wanted⟩ := renderTargets_empty
  let disk : Disk := fun
    | .default => (∅ : Dir).insert ".megoopm-errors.conf.inc.tmp" "kept by hand"
    | _ => ∅
  have ran : applyConfig sampleDeployment {} {} acceptAll disk = .ok
      (applyTargets defaultManagedPrefix ({} : ApplyOptions).dirs desired acceptAll
        (openLock disk)) := by
    rw [applyConfig, rendered]
    rfl
  rw [applied_of_unmanaged wanted _ (by decide)] at ran
  refine ⟨desired, _, _, _, disk, rendered, named, ran, rfl, by decide, by decide, ?_⟩
  rw [syncTargets_apply _ _ _ _ (dirs_nodup {}), if_pos (by decide)]
  exact get_syncTo_temp visiblePrefix_default (named .default) _ wanted

end MegooPM
