import MegooPM.Nginx.Renderer

/-!
# Engine

`apply_config` (`services/nginx/engine.py`) twice. `applyConfig` computes what a
call that runs to its end does: its result, the disk it leaves and what it asks
of the controller. `Phase.next` is the same call one action at a time, for runs in
which calls are cut off or other processes act in between.

A directory holds its regular files by name, with the bytes on disk; reading one
back goes through `readText`.
-/
namespace MegooPM

open Lib

abbrev Dir := Dict String String
abbrev Disk := DirName → Dir

def defaultManagedPrefix := "megoopm-"
def lockFilename := ".megoopm-nginx.lock"

/-! ### Files -/

/-- The managed files of a directory, with their bytes. -/
def managedFiles (pre : String) (dir : Dir) : Files :=
  dir.filter fun name _ => startsWith name pre

/-- Every managed file currently on disk, as text. -/
def readManaged (pre : String) (dir : Dir) : Files :=
  (managedFiles pre dir).map fun _ content => readText content

def tempName (name : String) : String :=
  "." ++ name ++ ".tmp"

/-- Write a temp file, then rename it over `name`. -/
def atomicWrite (dir : Dir) (name content : String) : Dir :=
  (dir.erase (tempName name)).insert name content

/-- Whether the second loop of `_sync_to` deletes a file. -/
def isStale (pre : String) (desired : Files) (name : String) : Bool :=
  startsWith name pre && !desired.contains name

/-- Make the managed files on disk exactly match `desired`. -/
def syncTo (pre : String) (desired : Files) (dir : Dir) : Dir :=
  let written := desired.toList.foldl (fun dir file => atomicWrite dir file.1 file.2) dir
  written.filter fun name _ => !isStale pre desired name

def updateDir (disk : Disk) (d : DirName) (f : Dir → Dir) : Disk :=
  fun e => if e = d then f (disk e) else disk e

/-- `_sync_to` of every target, in order. -/
def syncTargets (pre : String) (dirs : List DirName) (desired : DirName → Files) (disk : Disk) :
    Disk :=
  dirs.foldl (fun disk d => updateDir disk d (syncTo pre (desired d))) disk

/-! ### Results -/

/-- Outcome of a controller operation. -/
structure CommandResult where
  ok : Bool
  output : String := ""
  deriving DecidableEq, Repr

/-- The observable outcome of an `apply_config` run. -/
structure ApplyResult where
  changed : Bool
  valid : Bool
  reloaded : Bool
  rolledBack : Bool
  message : String
  managedFiles : List String := []
  testOutput : String := ""
  reloadOutput : String := ""
  deriving DecidableEq, Repr

/-- `sorted(name for files in ... for name in files)`. -/
def sortedNames (dirs : List DirName) (files : DirName → Files) : List String :=
  sortedBy id (dirs.flatMap fun d => (files d).keys)

def upToDate (dirs : List DirName) (desired : DirName → Files) : ApplyResult where
  changed := false
  valid := true
  reloaded := false
  rolledBack := false
  message := "Configuration already up to date; nginx not reloaded."
  managedFiles := sortedNames dirs desired

def testFailed (dirs : List DirName) (currents : DirName → Files) (test : CommandResult) :
    ApplyResult where
  changed := false
  valid := false
  reloaded := false
  rolledBack := true
  message := "Generated configuration failed `nginx -t`; rolled back, nginx untouched."
  managedFiles := sortedNames dirs currents
  testOutput := test.output

def reloadFailed (dirs : List DirName) (currents : DirName → Files)
    (test reload : CommandResult) : ApplyResult where
  changed := false
  valid := true
  reloaded := false
  rolledBack := true
  message := "nginx reload failed; rolled back to the previous configuration."
  managedFiles := sortedNames dirs currents
  testOutput := test.output
  reloadOutput := reload.output

def applied (dirs : List DirName) (desired : DirName → Files) (test reload : CommandResult) :
    ApplyResult where
  changed := true
  valid := true
  reloaded := true
  rolledBack := false
  message := "Applied " ++ toString (sortedNames dirs desired).length ++
    " managed file(s) and reloaded nginx."
  managedFiles := sortedNames dirs desired
  testOutput := test.output
  reloadOutput := reload.output

/-! ### A whole call -/

/-- What the controller answers to `test()`, `reload()` and the reload after a rollback. -/
structure Answers where
  test : CommandResult
  reload : CommandResult
  reloadAgain : CommandResult

/-- A call to the controller, with the disk it sees. -/
inductive Request where
  | test (seen : Disk)
  | reload (seen : Disk)

/-- The optional arguments of `apply_config`. -/
structure ApplyOptions where
  managedPrefix : String := defaultManagedPrefix
  streamDir : Bool := true
  defaultDir : Bool := true
  /-- No `lock` is passed: a `flock` on conf.d is taken. -/
  ownLock : Bool := true

def ApplyOptions.dirs (o : ApplyOptions) : List DirName :=
  [.confd] ++ (if o.streamDir then [.stream] else []) ++ (if o.defaultDir then [.default] else [])

/-- The desired files of each target; a directory that is not given is not rendered. -/
def renderTargets (cfg : Deployment) (o : ApplyOptions) (state : DesiredState) :
    Except ValueError (DirName → Files) := do
  let stream ← bif o.streamDir then renderStreamConfig state else .ok ∅
  return fun
    | .confd => renderConfig cfg state
    | .stream => stream
    | .default => if o.defaultDir then renderDefaultSite cfg state else ∅

/-- `os.open(lock_path, O_CREAT | O_RDWR)`. -/
def openLock (disk : Disk) : Disk :=
  updateDir disk .confd fun dir =>
    if dir.contains lockFilename then dir else dir.insert lockFilename ""

def readTargets (pre : String) (disk : Disk) : DirName → Files :=
  fun d => readManaged pre (disk d)

/-- The locked section of `apply_config`. -/
def applyTargets (pre : String) (dirs : List DirName) (desired : DirName → Files)
    (answers : Answers) (disk : Disk) : ApplyResult × Disk × List Request :=
  let currents := readTargets pre disk
  if dirs.all fun d => desired d = currents d then (upToDate dirs desired, disk, [])
  else
    let synced := syncTargets pre dirs desired disk
    let restored := syncTargets pre dirs currents synced
    if !answers.test.ok then
      (testFailed dirs currents answers.test, restored, [.test synced])
    else if !answers.reload.ok then
      (reloadFailed dirs currents answers.test answers.reload, restored,
        [.test synced, .reload synced, .reload restored])
    else (applied dirs desired answers.test answers.reload, synced, [.test synced, .reload synced])

def applyConfig (cfg : Deployment) (o : ApplyOptions) (state : DesiredState) (answers : Answers)
    (disk : Disk) : Except ValueError (ApplyResult × Disk × List Request) := do
  let desired ← renderTargets cfg o state
  let disk := if o.ownLock then openLock disk else disk
  return applyTargets o.managedPrefix o.dirs desired answers disk

/-! ### One action at a time -/

/-- What is left to do of a sync. -/
inductive Instr where
  | write (dir : DirName) (name content : String)
  | sweep (dir : DirName) (desired : Files)
  | unlink (dir : DirName) (name : String)

/-- The instructions of `_sync_to` for every target. -/
def syncProgram (dirs : List DirName) (desired : DirName → Files) : List Instr :=
  dirs.flatMap fun d =>
    (desired d).toList.map (fun file => .write d file.1 file.2) ++ [.sweep d (desired d)]

/-- One instruction. A sweep lists the stale files it will unlink one by one. -/
def Instr.exec (pre : String) (disk : Disk) : Instr → Disk × List Instr
  | .write d name content => (updateDir disk d fun dir => atomicWrite dir name content, [])
  | .sweep d desired =>
    (disk, ((disk d).keys.filter (isStale pre desired)).map fun name => .unlink d name)
  | .unlink d name => (updateDir disk d fun dir => dir.erase name, [])

/-- No name that starts with a dot is managed. -/
def VisiblePrefix (pre : String) : Prop :=
  ∀ name, startsWith name pre = true → startsWith name "." = false

/-- Every name a mapping holds starts with the prefix. -/
def Named (pre : String) (files : Files) : Prop :=
  ∀ name content, files[name]? = some content → startsWith name pre = true

/-- A setting of the managed prefix that covers every rendered name and none of the
engine's own dot-files. -/
structure ManagedPrefix where
  text : String
  visible : VisiblePrefix text
  covers : startsWith defaultManagedPrefix text = true

/-- What a call works on: its prefix, its directories and the files it wants there. -/
structure Job where
  managedPrefix : ManagedPrefix
  dirs : List DirName
  desired : DirName → Files
  distinct : dirs.Nodup
  named : ∀ d ∈ dirs, Named managedPrefix.text (desired d)

/-- The prefix itself. -/
def Job.pre (job : Job) : String :=
  job.managedPrefix.text

/-- Where a call stands. -/
inductive Phase where
  /-- the lock is held, nothing has been read -/
  | entered
  /-- the disk was read and differs; nothing is written yet -/
  | compared (currents : DirName → Files)
  | syncing (currents : DirName → Files) (todo : List Instr)
  | testing (currents : DirName → Files)
  | reloading (currents : DirName → Files) (test : CommandResult)
  /-- restoring; `reload` is the failed reload, if it came to one -/
  | restoring (currents : DirName → Files) (test : CommandResult) (reload : Option CommandResult)
      (todo : List Instr)
  | reloadingAgain (currents : DirName → Files) (test reload : CommandResult)
  | done (result : ApplyResult)

/-- The state after one action, and whether nginx loaded what was on disk. -/
structure Outcome where
  phase : Phase
  disk : Disk
  loads : Bool := false

def Instr.execFirst (pre : String) (disk : Disk) : List Instr → Disk × List Instr
  | [] => (disk, [])
  | i :: rest => let (disk, more) := i.exec pre disk; (disk, more ++ rest)

/-- The next action of a call. `answer` is what the controller says, if it is asked. -/
def Phase.next (job : Job) (answer : CommandResult) (disk : Disk) : Phase → Outcome
  | .entered =>
    let currents := readTargets job.pre disk
    if job.dirs.all fun d => job.desired d = currents d then
      { phase := .done (upToDate job.dirs job.desired), disk }
    else { phase := .compared currents, disk }
  | .compared currents =>
    let (disk, todo) :=
      Instr.execFirst job.pre disk (syncProgram job.dirs job.desired)
    { phase := .syncing currents todo, disk }
  | .syncing currents [] => { phase := .testing currents, disk }
  | .syncing currents todo =>
    let (disk, todo) := Instr.execFirst job.pre disk todo
    { phase := .syncing currents todo, disk }
  | .testing currents =>
    if answer.ok then { phase := .reloading currents answer, disk }
    else { phase := .restoring currents answer none (syncProgram job.dirs currents), disk }
  | .reloading currents test =>
    if answer.ok then
      { phase := .done (applied job.dirs job.desired test answer), disk, loads := true }
    else
      { phase := .restoring currents test (some answer) (syncProgram job.dirs currents), disk }
  | .restoring currents test none [] => { phase := .done (testFailed job.dirs currents test), disk }
  | .restoring currents test (some reload) [] =>
    { phase := .reloadingAgain currents test reload, disk }
  | .restoring currents test reload todo =>
    let (disk, todo) := Instr.execFirst job.pre disk todo
    { phase := .restoring currents test reload todo, disk }
  | .reloadingAgain currents test reload =>
    { phase := .done (reloadFailed job.dirs currents test reload), disk, loads := answer.ok }
  | .done result => { phase := .done result, disk }

end MegooPM
