import MegooPM.CrowdSec.Hub
import MegooPM.Lib.Transition

/-!
# Hub updates, one after another

An update whose listings agree restarts nothing: it takes the engine to run the
items on disk. That holds along every run of updates that load what they change.
-/
namespace MegooPM.CrowdSec

open Lib

/-! ### How far an update gets -/

/-- The command is run, and its result is good. -/
def gives (answer : Exec) (good : ExecResult → Bool) : Bool :=
  match answer with
  | .error _ => false
  | .ok result => good result

/-- Whether the command is run at all. -/
def answered (answer : Exec) : Bool :=
  gives answer fun _ => true

def succeeds (answer : Exec) : Bool :=
  gives answer fun result => result.exitCode = 0

section Update

variable (library : HubLibrary) (calls : HubCalls)

def listing (answer : Exec) : Option (List (String × String)) :=
  match answer with
  | .error _ => none
  | .ok listed => parseHubList library listed.output

/-- The items are backed up; the hub is refreshed next. -/
def backsUp : Bool :=
  answered (calls.exec cmdVersion 0) && (listing library (calls.exec cmdList 0)).isSome &&
    succeeds (calls.exec cmdBackup 0)

/-- The hub is refreshed; the items are upgraded next. -/
def refreshes : Bool :=
  backsUp library calls && succeeds (calls.exec cmdUpdate 0)

/-- The items are upgraded, and these are the listings before and after it. -/
def Upgraded (before after : List (String × String)) : Prop :=
  refreshes library calls = true ∧ succeeds (calls.exec cmdUpgrade 0) = true ∧
    listing library (calls.exec cmdList 0) = some before ∧
    listing library (calls.exec cmdList 1) = some after

/-- The listings show a change; the engine is restarted next. -/
def ShowsChange : Prop :=
  ∃ before after, Upgraded library calls before after ∧ diffVersions before after ≠ []

/-- The engine does not come back; the backup is put back next. -/
def Restores : Prop :=
  ShowsChange library calls ∧ calls.restart 0 = .restarted ∧ calls.healthy = false

/-- Items that the update changes are shown by its listings and loaded by its restart, items that
the backup changes are loaded by the second one, and the backup is put back where that is
reported. -/
structure Loads : Prop where
  changed : (backsUp library calls = true ∧ calls.changes cmdUpdate = true) ∨
      (refreshes library calls = true ∧ calls.changes cmdUpgrade = true) →
    ShowsChange library calls ∧ (calls.restart 0).starts = true
  restored : Restores library calls → calls.changes cmdRestore = true →
    answered (calls.exec cmdRestore 0) = true ∧ (calls.restart 1).starts = true
  reported : Restores library calls → calls.restart 1 = .restarted →
    ∀ answer, calls.exec cmdRestore 0 = .ok answer → answer.exitCode = 0

end Update

/-! ### What an update leaves -/

theorem hub_restoreItems (report : Bool → Option String → Bool → HubUpdateResult)
    (calls : HubCalls) (hub : HubItems) : (restoreItems report calls hub).hub =
      (hub.changedIf (calls.changes cmdRestore)).startIf
        (answered (calls.exec cmdRestore 0) && (calls.restart 1).starts) := by
  unfold restoreItems answered
  cases calls.exec cmdRestore 0 with
  | error error => rfl
  | ok answer =>
    cases calls.restart 1 with
    | restarted => rfl
    | raised error started => rfl

theorem inForce_restoreItems {calls : HubCalls} {hub : HubItems} (inForce : hub.InForce)
    (loads : calls.changes cmdRestore = true →
      answered (calls.exec cmdRestore 0) = true ∧ (calls.restart 1).starts = true)
    (report : Bool → Option String → Bool → HubUpdateResult) :
    (restoreItems report calls hub).hub.InForce := by
  rw [hub_restoreItems]
  cases changes : calls.changes cmdRestore with
  | false => exact Installed.InForce.startIf inForce _
  | true =>
    obtain ⟨ran, starts⟩ := loads changes
    rw [ran, starts]
    exact Installed.inForce_start _

theorem inForce_loadItems {calls : HubCalls} {hub : HubItems} {updated : List String}
    (ready : updated = [] ∨ (calls.restart 0).starts = false → hub.InForce)
    (loads : updated ≠ [] → calls.restart 0 = .restarted → calls.healthy = false →
      calls.changes cmdRestore = true →
      answered (calls.exec cmdRestore 0) = true ∧ (calls.restart 1).starts = true)
    (agentVersion latest : Option String) :
    (loadItems updated agentVersion latest calls hub).hub.InForce := by
  unfold loadItems
  by_cases same : updated = []
  · rw [if_pos same]
    exact ready (.inl same)
  rw [if_neg same]
  cases first : calls.restart 0 with
  | raised error started =>
    cases started with
    | true => exact Installed.inForce_start hub
    | false => exact ready (.inr (by rw [first]; rfl))
  | restarted =>
    cases healthy : calls.healthy with
    | true => exact Installed.inForce_start hub
    | false =>
      simp only [Bool.false_eq_true, if_false, Restart.starts, Installed.startIf_true]
      exact inForce_restoreItems (Installed.inForce_start hub) (loads same first healthy) _

section Update

variable (library : HubLibrary) (calls : HubCalls) (hub : HubItems)

/-- The items after the commands that may change them, as far as the update gets. -/
def touched : HubItems :=
  HubItems.changedIf (refreshes library calls && calls.changes cmdUpgrade)
    (HubItems.changedIf (backsUp library calls && calls.changes cmdUpdate) hub)

/-- The update reports a failure without a restart, or raises. -/
def HubRun.StopsShort (run : HubRun) : Prop :=
  run.hub = touched library calls hub ∧
    ∀ result, run.result = some result → result.ok = false ∧ result.restarted = false

theorem stopsShort_report (error : String) (agentVersion latest : Option String)
    {left : HubItems} (same : left = touched library calls hub) :
    HubRun.StopsShort library calls hub
      ⟨some ⟨false, some error, false, [], agentVersion, latest⟩, left⟩ := by
  refine ⟨same, fun result reported => ?_⟩
  cases reported
  exact ⟨rfl, rfl⟩

theorem stopsShort_raise {left : HubItems} (same : left = touched library calls hub) :
    HubRun.StopsShort library calls hub ⟨none, left⟩ :=
  ⟨same, fun result reported => by cases reported⟩

/-- Past the backup, the update gets to the comparison of the listings or stops short of it. -/
theorem upgradeItems_cases {before : List (String × String)}
    (listed : listing library (calls.exec cmdList 0) = some before)
    (backed : backsUp library calls = true) (agentVersion : Option String) :
    (∃ after latest, Upgraded library calls before after ∧
      upgradeItems library before agentVersion calls hub =
        loadItems (diffVersions before after) agentVersion latest calls
          (touched library calls hub)) ∨
    ((∀ before after, ¬Upgraded library calls before after) ∧
      HubRun.StopsShort library calls hub
        (upgradeItems library before agentVersion calls hub)) := by
  unfold upgradeItems
  -- each command can end the run, and none before the restart harms the items
  cases update : calls.exec cmdUpdate 0 with
  | error error =>
    have short : refreshes library calls = false := by simp [refreshes, succeeds, gives, update]
    exact .inr ⟨fun _ _ upgraded => absurd upgraded.1 (by simp [short]),
      stopsShort_report library calls hub error _ _ (by simp [touched, short, backed])⟩
  | ok updated =>
    by_cases refreshed : updated.exitCode = 0
    swap
    · have short : refreshes library calls = false := by
        simp [refreshes, succeeds, gives, update, refreshed]
      simp only [if_pos refreshed]
      exact .inr ⟨fun _ _ upgraded => absurd upgraded.1 (by simp [short]),
        stopsShort_report library calls hub _ _ _ (by simp [touched, short, backed])⟩
    have reached : refreshes library calls = true := by
      simp [refreshes, backed, succeeds, gives, update, refreshed]
    -- from here on both commands have touched the items
    have here : HubItems.changedIf (calls.changes cmdUpgrade)
        (HubItems.changedIf (calls.changes cmdUpdate) hub) = touched library calls hub := by
      simp [touched, reached, backed]
    simp only [refreshed, ne_eq, not_true_eq_false, if_false]
    cases upgrade : calls.exec cmdUpgrade 0 with
    | error error =>
      exact .inr ⟨fun _ _ upgraded => absurd upgraded.2.1 (by simp [succeeds, gives, upgrade]),
        stopsShort_report library calls hub error _ _ here⟩
    | ok upgraded =>
      by_cases done : upgraded.exitCode = 0
      swap
      · simp only [if_pos done]
        exact .inr ⟨fun _ _ upgraded =>
          absurd upgraded.2.1 (by simp [succeeds, gives, upgrade, done]),
          stopsShort_report library calls hub _ _ _ here⟩
      simp only [done, not_true_eq_false, if_false]
      cases again : calls.exec cmdList 1 with
      | error error =>
        exact .inr ⟨fun _ _ upgraded => absurd upgraded.2.2.2 (by simp [listing, again]),
          stopsShort_report library calls hub error _ _ here⟩
      | ok relisted =>
        cases parsed : parseHubList library relisted.output with
        | none =>
          simp only [parsed]
          exact .inr ⟨fun _ _ upgraded =>
            absurd upgraded.2.2.2 (by simp [listing, again, parsed]),
            stopsShort_raise library calls hub here⟩
        | some after =>
          simp only [parsed, here]
          exact .inl ⟨after, _, ⟨reached, by simp [succeeds, gives, upgrade, done], listed,
            by simp only [listing, again, parsed]⟩, rfl⟩

/-- The update gets to the comparison of the listings or stops short of it. -/
theorem runHubUpdate_cases :
    (∃ before after agentVersion latest, Upgraded library calls before after ∧
      runHubUpdate library calls hub =
        loadItems (diffVersions before after) agentVersion latest calls
          (touched library calls hub)) ∨
    ((∀ before after, ¬Upgraded library calls before after) ∧
      HubRun.StopsShort library calls hub (runHubUpdate library calls hub)) := by
  -- without a backup nothing is changed
  have early : backsUp library calls = false →
      (∀ before after, ¬Upgraded library calls before after) ∧ hub = touched library calls hub := by
    intro short
    have shorter : refreshes library calls = false := by simp [refreshes, short]
    exact ⟨fun _ _ upgraded => absurd upgraded.1 (by simp [shorter]),
      by simp [touched, short, shorter]⟩
  unfold runHubUpdate
  cases version : calls.exec cmdVersion 0 with
  | error error =>
    obtain ⟨short, here⟩ := early (by simp [backsUp, answered, gives, version])
    exact .inr ⟨short, stopsShort_report library calls hub error _ _ here⟩
  | ok answer =>
    cases listed : calls.exec cmdList 0 with
    | error error =>
      obtain ⟨short, here⟩ := early (by simp [backsUp, listing, listed])
      exact .inr ⟨short, stopsShort_report library calls hub error _ _ here⟩
    | ok before =>
      cases parsed : parseHubList library before.output with
      | none =>
        obtain ⟨short, here⟩ := early (by simp [backsUp, listing, listed, parsed])
        simp only [parsed]
        exact .inr ⟨short, stopsShort_raise library calls hub here⟩
      | some items =>
        simp only [parsed]
        cases backup : calls.exec cmdBackup 0 with
        | error error =>
          obtain ⟨short, here⟩ := early (by simp [backsUp, succeeds, gives, backup])
          exact .inr ⟨short, stopsShort_report library calls hub error _ _ here⟩
        | ok backed =>
          by_cases made : backed.exitCode = 0
          swap
          · obtain ⟨short, here⟩ := early (by simp [backsUp, succeeds, gives, backup, made])
            simp only [if_pos made]
            exact .inr ⟨short, stopsShort_report library calls hub _ _ _ here⟩
          have items : listing library (calls.exec cmdList 0) = some items := by
            simp only [listing, listed, parsed]
          have reached : backsUp library calls = true := by
            simp [backsUp, answered, succeeds, gives, items, version, backup, made]
          simp only [made, ne_eq, not_true_eq_false, if_false]
          rcases upgradeItems_cases library calls hub items reached
            (parseAgentVersion library answer.output) with
            ⟨after, latest, upgraded, out⟩ | short
          · exact .inl ⟨_, after, _, latest, upgraded, out⟩
          · exact .inr short

end Update

/-! ### Runs -/

section Runs

variable {library : HubLibrary} {calls : HubCalls} {hub : HubItems}

/-- Where an update stops short of loading its changes, it has not made any. -/
theorem Loads.still (loads : Loads library calls)
    (short : ¬(ShowsChange library calls ∧ (calls.restart 0).starts = true)) :
    touched library calls hub = hub := by
  have first : (backsUp library calls && calls.changes cmdUpdate) = false := by
    by_contra changes
    exact short (loads.changed (.inl (by simpa using changes)))
  have second : (refreshes library calls && calls.changes cmdUpgrade) = false := by
    by_contra changes
    exact short (loads.changed (.inr (by simpa using changes)))
  simp [touched, first, second]

/-- An update that loads what it changes leaves in force what it leaves on disk. -/
theorem inForce_runHubUpdate (inForce : hub.InForce) (loads : Loads library calls) :
    (runHubUpdate library calls hub).hub.InForce := by
  rcases runHubUpdate_cases library calls hub with
    ⟨before, after, agentVersion, latest, upgraded, out⟩ | ⟨never, here, _⟩
  · have shows : ShowsChange library calls → diffVersions before after ≠ [] := by
      rintro ⟨before', after', upgraded', changed⟩
      cases upgraded.2.2.1.symm.trans upgraded'.2.2.1
      cases upgraded.2.2.2.symm.trans upgraded'.2.2.2
      exact changed
    rw [out]
    refine inForce_loadItems (fun stops => ?_) (fun changed restarted down => ?_) _ _
    · rw [loads.still]
      · exact inForce
      · rintro ⟨change, starts⟩
        rcases stops with same | idle
        · exact shows change same
        · rw [idle] at starts
          cases starts
    · exact loads.restored ⟨⟨before, after, upgraded, changed⟩, restarted, down⟩
  · rw [here, loads.still]
    · exact inForce
    · rintro ⟨⟨before, after, upgraded, _⟩, _⟩
      exact never before after upgraded

/-- The update says that the previous items were put back. -/
def ReportsRestored (result : HubUpdateResult) : Prop :=
  result.restarted = true ∧ result.error = some rulesRestored

theorem rollbackFailed_ne_rulesRestored (error : String) :
    rollbackFailed error ≠ rulesRestored := by
  intro same
  have texts := congrArg String.toList same
  simp only [rollbackFailed, rulesRestored, String.toList_append] at texts
  have heads := congrArg List.head? (List.append_cancel_left texts)
  simp at heads

/-- What is reported as restored has come to the second restart, and through it. -/
theorem restored_of_loadItems {updated : List String} {agentVersion latest : Option String}
    {result : HubUpdateResult}
    (reported : (loadItems updated agentVersion latest calls hub).result = some result)
    (restored : ReportsRestored result) :
    updated ≠ [] ∧ calls.restart 0 = .restarted ∧ calls.healthy = false ∧
      (∃ answer, calls.exec cmdRestore 0 = .ok answer) ∧ calls.restart 1 = .restarted := by
  obtain ⟨restarts, told⟩ := restored
  unfold loadItems at reported
  -- every other end of the run tells something else
  by_cases same : updated = []
  · rw [if_pos same] at reported
    cases reported
    cases restarts
  rw [if_neg same] at reported
  cases first : calls.restart 0 with
  | raised error started =>
    rw [first] at reported
    cases reported
    cases restarts
  | restarted =>
    rw [first] at reported
    cases healthy : calls.healthy with
    | true =>
      rw [healthy] at reported
      cases reported
      cases told
    | false =>
      rw [healthy] at reported
      simp only [Bool.false_eq_true, if_false, restoreItems] at reported
      cases ran : calls.exec cmdRestore 0 with
      | error error =>
        rw [ran] at reported
        cases reported
        exact absurd (Option.some.inj told) (rollbackFailed_ne_rulesRestored error)
      | ok answer =>
        rw [ran] at reported
        cases second : calls.restart 1 with
        | restarted => exact ⟨same, rfl, rfl, ⟨answer, rfl⟩, rfl⟩
        | raised error started =>
          rw [second] at reported
          cases reported
          exact absurd (Option.some.inj told) (rollbackFailed_ne_rulesRestored error)

/-- An update that loads what it changes reports as restored only what a restore command that
succeeded has put back. -/
theorem restore_succeeds (loads : Loads library calls) {result : HubUpdateResult}
    (reported : (runHubUpdate library calls hub).result = some result)
    (restored : ReportsRestored result) :
    succeeds (calls.exec cmdRestore 0) = true := by
  rcases runHubUpdate_cases library calls hub with
    ⟨before, after, agentVersion, latest, upgraded, out⟩ | ⟨_, _, short⟩
  · rw [out] at reported
    obtain ⟨changed, first, down, ⟨answer, ran⟩, second⟩ :=
      restored_of_loadItems reported restored
    have exit := loads.reported ⟨⟨before, after, upgraded, changed⟩, first, down⟩ second answer ran
    simp [succeeds, gives, ran, exit]
  · have idle := (short result reported).2
    rw [restored.1] at idle
    cases idle

/-- What happens to the hub: an update, or a restart of the container from elsewhere. -/
inductive HubEvent where
  | update (calls : HubCalls)
  | restart

def afterHubEvent (library : HubLibrary) (hub : HubItems) : HubEvent → HubItems
  | .update calls => (runHubUpdate library calls hub).hub
  | .restart => hub.start

def HubStep (library : HubLibrary) (hub : HubItems) (event : HubEvent) (hub' : HubItems) : Prop :=
  afterHubEvent library hub event = hub'

def LoadsChanges (library : HubLibrary) (_ : HubItems) : HubEvent → Prop
  | .update calls => Loads library calls
  | .restart => True

theorem inForce_step {hub' : HubItems} {event : HubEvent} (inForce : hub.InForce)
    (loads : LoadsChanges library hub event) (step : HubStep library hub event hub') :
    hub'.InForce := by
  cases step
  cases event with
  | update calls => exact inForce_runHubUpdate inForce loads
  | restart => exact Installed.inForce_start hub

/-- In every run of updates that load what they change, an update that reports success leaves an
engine that was started after the last change of the items, and one that reports them restored
has had them restored. -/
theorem hub_ok_in_force {start : HubItems} (inForce : start.InForce)
    (run : Reaches (Guarded (LoadsChanges library) (HubStep library)) start hub)
    (loads : Loads library calls) {result : HubUpdateResult}
    (reported : (runHubUpdate library calls hub).result = some result) :
    (result.ok = true → (runHubUpdate library calls hub).hub.InForce) ∧
      (ReportsRestored result → succeeds (calls.exec cmdRestore 0) = true) := by
  have here : hub.InForce :=
    Reaches.invariant (P := fun hub => hub.InForce)
      (fun _ _ _ inForce step => inForce_step inForce step.1 step.2) inForce run
  exact ⟨fun _ => inForce_runHubUpdate here loads, restore_succeeds loads reported⟩

end Runs

/-! ### Runs of a small hub -/

/-- The listing of a hub with one parser. -/
def parserListing (version : String) : String :=
  "\x7b\"parsers\": [\x7b\"name\": \"a/b\", \"local_version\": \"" ++ version ++ "\"\x7d]\x7d"

def parserJson (version : String) : Json :=
  .obj [("parsers", .arr [.obj [("name", .str "a/b"), ("local_version", .str version)]])]

/-- `json.loads` on the two listings of these runs. -/
def sampleHub : HubLibrary where
  loads text :=
    if text = parserListing "0.1" then some (parserJson "0.1")
    else if text = parserListing "0.2" then some (parserJson "0.2")
    else none
  str _ := ""
  isDecimal c := c.isDigit

/-- An update between these listings; the upgrade and the restore change items. -/
def hubCalls (before after : String) (restart : Nat → Restart) (healthy : Bool)
    (restoreExit : Int) : HubCalls where
  exec argv n :=
    if argv = cmdList then .ok ⟨0, parserListing (if n = 0 then before else after)⟩
    else if argv = cmdRestore then .ok ⟨restoreExit, ""⟩
    else .ok ⟨0, ""⟩
  changes argv := (argv = cmdUpgrade && before ≠ after) || (argv = cmdRestore && restoreExit = 0)
  restart := restart
  healthy := healthy

/-- The items the container was started with. -/
def firstItems : HubItems := ⟨0, some 0⟩

/-- An upgrade that the engine comes back on, one that docker does not restart it for, one whose
backup cannot be put back, and an update without an upgrade. -/
def loaded : HubCalls := hubCalls "0.1" "0.2" (fun _ => .restarted) true 0

def unloaded : HubCalls := hubCalls "0.1" "0.2" (fun _ => .raised "no docker" false) true 0

def unrestored : HubCalls := hubCalls "0.1" "0.2" (fun _ => .restarted) false 1

def quiet : HubCalls := hubCalls "0.2" "0.2" (fun _ => .restarted) true 0

def nothingNew : HubUpdateResult := ⟨true, none, false, [], none, none⟩

private theorem loads_loaded : Loads sampleHub loaded where
  changed _ := ⟨⟨[("parsers:a/b", "0.1")], [("parsers:a/b", "0.2")],
    by unfold Upgraded; decide +kernel, by decide +kernel⟩, rfl⟩
  restored restores := by cases restores.2.2
  reported restores := by cases restores.2.2

private theorem loads_quiet : Loads sampleHub quiet where
  changed changes := absurd changes (by decide +kernel)
  restored restores := by cases restores.2.2
  reported restores := by cases restores.2.2

/-- The second update finds nothing new, and the engine runs the items. -/
theorem hub_ok_in_force_quiet :
    (nothingNew.ok = true → (runHubUpdate sampleHub quiet
      (runHubUpdate sampleHub loaded firstItems).hub).hub.InForce) ∧
    (ReportsRestored nothingNew → succeeds (quiet.exec cmdRestore 0) = true) :=
  have started : Installed.InForce firstItems := rfl
  hub_ok_in_force started ((Reaches.refl _ _).tail (e := .update loaded) ⟨loads_loaded, rfl⟩)
    loads_quiet (by decide +kernel)

/-- After an upgrade whose restart fails, the next update finds nothing new and reports success
over an engine that has not loaded the items; and a backup that could not be put back is
reported as restored. -/
theorem hub_ok_not_loaded :
    (Reaches (HubStep sampleHub) firstItems (runHubUpdate sampleHub unloaded firstItems).hub ∧
      (runHubUpdate sampleHub quiet (runHubUpdate sampleHub unloaded firstItems).hub).result =
        some nothingNew ∧
      ¬(runHubUpdate sampleHub quiet
        (runHubUpdate sampleHub unloaded firstItems).hub).hub.InForce) ∧
    (runHubUpdate sampleHub unrestored firstItems).result =
      some ⟨false, some rulesRestored, true, ["parsers:a/b"], none, none⟩ ∧
    succeeds (unrestored.exec cmdRestore 0) = false := by
  have left : (runHubUpdate sampleHub quiet (runHubUpdate sampleHub unloaded firstItems).hub).hub =
      ⟨1, some 0⟩ := by decide +kernel
  refine ⟨⟨(Reaches.refl _ _).tail (e := .update unloaded) rfl, by decide +kernel, ?_⟩,
    by decide +kernel, by decide +kernel⟩
  rw [left]
  unfold Installed.InForce
  decide

end MegooPM.CrowdSec
