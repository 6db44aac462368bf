import MegooPM.CrowdSec.Appliers
import MegooPM.Lib.Transition

/-!
# Whitelist applies, one after another

The whitelist task and the row it records its outcome in. An apply whose render has
the recorded digest and stands on disk already restarts nothing: it takes the
engine to run what stands on disk. That holds along every run in which no apply
that fails leaves a text with the recorded digest under an engine that was last
started with another one.
-/
namespace MegooPM.CrowdSec

open Lib

/-! ### The task -/

/-- The row that describes the last apply. -/
structure ApplyState where
  appliedDigest : Option String
  appliedAt : Option Int
  ok : Bool
  error : Option String
deriving DecidableEq

def readApplyState (row : Option ApplyState) : ApplyState :=
  row.getD ⟨none, none, true, none⟩

/-- `record_apply`: the digest only advances on success. -/
def recordApply (row : Option ApplyState) (result : ApplyResult) (now : Int) : Option ApplyState :=
  match row with
  | some state =>
    let digest := if result.ok ∧ result.digest ≠ none then result.digest else state.appliedDigest
    some ⟨digest, some now, result.ok, result.error⟩
  | none => some ⟨result.digest, none, result.ok, result.error⟩

structure Deployment where
  site : Site
  row : Option ApplyState
deriving DecidableEq

def Deployment.recorded (d : Deployment) : Option String :=
  (readApplyState d.row).appliedDigest

/-- What happens to a deployment. The outcome of an apply is recorded in a transaction of its
own, at a time, or not at all. -/
inductive WhitelistEvent where
  | apply (docs : List WhitelistDoc) (writes : Nat → FileWrite) (calls : Answers)
      (record : Option Int)
  /-- Something else restarts the container. -/
  | restart

section Runs

variable (library : WhitelistLibrary) (timeout : Int)

def runApply (d : Deployment) (docs : List WhitelistDoc) (writes : Nat → FileWrite)
    (calls : Answers) : Applied :=
  applyWhitelistsToDisk library timeout docs d.recorded writes calls d.site

/-- The row after the second transaction, if there is an outcome and it is recorded. -/
def recordOutcome (row : Option ApplyState) (result : Option ApplyResult) (record : Option Int) :
    Option ApplyState :=
  match result, record with
  | some result, some now => recordApply row result now
  | _, _ => row

/-- `apply_crowdsec_whitelists`, and restarts from elsewhere. -/
def afterEvent (d : Deployment) : WhitelistEvent → Deployment
  | .apply docs writes calls record =>
    let out := runApply library timeout d docs writes calls
    ⟨out.site, recordOutcome d.row out.result record⟩
  | .restart => ⟨d.site.start, d.row⟩

def WhitelistStep (d : Deployment) (event : WhitelistEvent) (d' : Deployment) : Prop :=
  afterEvent library timeout d event = d'

/-- The engine was last started with what the documents render to, and that stands on disk. -/
def RunsRendered (docs : List WhitelistDoc) (site : Site) : Prop :=
  ∃ content, renderWhitelists library docs = .ok content ∧
    site.disk = some content.toByteArray ∧ site.running = some (some content.toByteArray)

/-! ### Runs in which failed applies settle -/

/-- Left on disk, the bytes are not taken for ones that the engine runs, unless it does. -/
def Harmless (recorded : Option String) (running : Option (Option ByteArray))
    (bytes : ByteArray) : Prop :=
  ∀ text : String, bytes = text.toByteArray → text ≠ "" →
    recorded = some (contentDigest library text) → running = some (some bytes)

/-- The engine is started on the new file. -/
def startsNew (calls : Answers) : Bool :=
  passes calls.validate && (calls.restart 0).starts

/-- It is restarted a second time, on what was put back. -/
def startsAgain (calls : Answers) : Bool :=
  passes calls.validate && calls.restart 0 = .restarted && (calls.restart 1).starts

/-- What the engine runs when the previous text is put back. -/
def runningThen (d : Deployment) (content : String) (calls : Answers) :
    Option (Option ByteArray) :=
  if startsNew calls then some (some content.toByteArray) else d.site.running

/-- A write that fails leaves harmless bytes. An apply that has to put the previous text back
starts the engine on it if it had started it on the new one, or else the previous text is
harmless. -/
def Settles (d : Deployment) : WhitelistEvent → Prop
  | .restart => True
  | .apply docs writes calls _ =>
    ∀ content previous, renderWhitelists library docs = .ok content →
      readFile d.site.disk = some previous →
      ¬(some (contentDigest library content) = d.recorded ∧ previous = content) →
      (∀ cut, writes 0 = .torn cut →
        Harmless library d.recorded d.site.running
          (tornBytes cut content.toByteArray (fileBytes d.site.disk))) ∧
      (writes 0 = .done → calls.comesBack = false →
        (∀ cut, writes 1 = .torn cut →
          Harmless library d.recorded (runningThen d content calls)
            (tornBytes cut previous.toByteArray content.toByteArray)) ∧
        (writes 1 = .done → startsNew calls = true → startsAgain calls = false →
          Harmless library d.recorded (some (some content.toByteArray)) previous.toByteArray))

/-! ### The invariant -/

/-- What the recorded digest vouches for is what the engine runs. -/
structure Vouched (d : Deployment) : Prop where
  runs : ∀ bytes, d.site.disk = some bytes → Harmless library d.recorded d.site.running bytes
  clean : d.recorded ≠ none → NoReturnByte (fileBytes d.site.disk)

variable {library timeout}

theorem Vouched.fresh {d : Deployment} (none : d.recorded = none) : Vouched library d where
  runs _ _ _ _ _ same := by rw [none] at same; cases same
  clean some := absurd none some

/-- A file without a carriage return holds what was read. -/
theorem fileBytes_of_read {file : Option ByteArray} {text : String}
    (read : readFile file = some text) (clean : NoReturnByte (fileBytes file)) :
    fileBytes file = text.toByteArray := by
  obtain ⟨held, bytes, rfl⟩ := readFile_eq_some_iff.mp read
  rw [bytes, noReturnByte_toByteArray] at clean
  rw [bytes, readText_of_clean clean]

/-- A file that holds a text is there. -/
theorem disk_of_fileBytes {file : Option ByteArray} {text : String}
    (bytes : fileBytes file = text.toByteArray) (filled : text ≠ "") :
    file = some text.toByteArray := by
  cases file with
  | some held => rw [← bytes, fileBytes_some]
  | none => exact absurd (toByteArray_injective bytes).symm filled

/-- The text that an apply puts back is harmless under the engine as it was. -/
theorem Vouched.previous {d : Deployment} (vouched : Vouched library d) {previous : String}
    (read : readFile d.site.disk = some previous) :
    Harmless library d.recorded d.site.running previous.toByteArray := by
  intro text same filled recorded
  have clean := vouched.clean (by rw [recorded]; simp)
  have bytes := fileBytes_of_read read clean
  rw [same] at bytes ⊢
  exact vouched.runs _ (disk_of_fileBytes bytes filled) text rfl filled recorded

/-! ### One event -/

theorem noReturnByte_tornBytes {content old : ByteArray} (cut : Nat) (clean : NoReturnByte content)
    (cleanOld : NoReturnByte old) : NoReturnByte (tornBytes cut content old) :=
  (clean.extract _ _).append (cleanOld.extract _ _)

/-- The call reports a failure, or leaves with an error. -/
def Applied.Failed (out : Applied) : Prop :=
  ∀ result, out.result = some result → result.ok = false ∧ result.digest = none

theorem failed_puttingBack (write : FileWrite) (previous error : String) (site : Site) :
    (puttingBack write previous error site).Failed := by
  intro result reported
  cases write with
  | torn cut => cases reported
  | done =>
    cases reported
    exact ⟨rfl, rfl⟩

theorem failed_fallingBack (timeout : Int) (write : FileWrite) (previous : String)
    (answer : Restart) (site : Site) : (fallingBack timeout write previous answer site).Failed := by
  intro result reported
  cases write with
  | torn cut => cases reported
  | done =>
    cases answer with
    | restarted =>
      cases reported
      exact ⟨rfl, rfl⟩
    | raised error started =>
      cases reported
      exact ⟨rfl, rfl⟩

/-- A failure does not change the recorded digest. -/
theorem recorded_of_failed (row : Option ApplyState) {out : Applied} (failed : out.Failed)
    (record : Option Int) :
    (readApplyState (recordOutcome row out.result record)).appliedDigest =
      (readApplyState row).appliedDigest := by
  cases reported : out.result with
  | none => rfl
  | some result =>
    cases record with
    | none => rfl
    | some now =>
      obtain ⟨notOk, none⟩ := failed result reported
      cases row with
      | none => simp [recordOutcome, recordApply, readApplyState, none]
      | some state => simp [recordOutcome, recordApply, readApplyState, notOk]

/-- A success that is recorded puts its own digest into the row. -/
theorem recorded_of_ok (row : Option ApplyState) {result : ApplyResult} {digest : String}
    (ok : result.ok = true) (named : result.digest = some digest) (record : Option Int) :
    (readApplyState (recordOutcome row (some result) record)).appliedDigest =
        (readApplyState row).appliedDigest ∨
      (readApplyState (recordOutcome row (some result) record)).appliedDigest = some digest := by
  cases record with
  | none => exact .inl rfl
  | some now =>
    right
    cases row with
    | none => simp [recordOutcome, recordApply, readApplyState, named]
    | some state => simp [recordOutcome, recordApply, readApplyState, ok, named]

section Failing

variable {d : Deployment} {content previous : String} {write : FileWrite} {site : Site}

theorem vouched_of_failed (bytes : ByteArray) {out : Applied} (failed : out.Failed)
    (disk : out.site.disk = some bytes)
    (harmless : Harmless library d.recorded out.site.running bytes)
    (clean : d.recorded ≠ none → NoReturnByte bytes) (record : Option Int) :
    Vouched library ⟨out.site, recordOutcome d.row out.result record⟩ := by
  have recorded := recorded_of_failed d.row failed record
  constructor
  · intro bytes' disk'
    rw [disk] at disk'
    cases disk'
    unfold Deployment.recorded
    rw [recorded]
    exact harmless
  · intro some
    rw [disk]
    exact clean (by rwa [Deployment.recorded, recorded] at some)

variable (disk : site.disk = some content.toByteArray)
  (cleanContent : NoReturnByte content.toByteArray)
  (cleanPrevious : NoReturnByte previous.toByteArray)
  (torn : ∀ cut, write = .torn cut →
    Harmless library d.recorded site.running
      (tornBytes cut previous.toByteArray content.toByteArray))

include disk cleanContent cleanPrevious torn

theorem vouched_puttingBack
    (back : write = .done → Harmless library d.recorded site.running previous.toByteArray)
    (error : String) (record : Option Int) :
    Vouched library ⟨(puttingBack write previous error site).site,
      recordOutcome d.row (puttingBack write previous error site).result record⟩ := by
  have failed := failed_puttingBack write previous error site
  cases write with
  | done =>
    exact vouched_of_failed previous.toByteArray failed rfl (back rfl) (fun _ => cleanPrevious)
      record
  | torn cut =>
    refine vouched_of_failed (tornBytes cut previous.toByteArray content.toByteArray) failed ?_
      (torn cut rfl) (fun _ => noReturnByte_tornBytes cut cleanPrevious cleanContent) record
    simp [puttingBack, writing, disk]

theorem vouched_fallingBack {answer : Restart}
    (back : write = .done → answer.starts = false →
      Harmless library d.recorded site.running previous.toByteArray)
    (record : Option Int) :
    Vouched library ⟨(fallingBack timeout write previous answer site).site,
      recordOutcome d.row (fallingBack timeout write previous answer site).result record⟩ := by
  have failed := failed_fallingBack timeout write previous answer site
  cases write with
  | torn cut =>
    refine vouched_of_failed (tornBytes cut previous.toByteArray content.toByteArray) failed ?_
      (torn cut rfl) (fun _ => noReturnByte_tornBytes cut cleanPrevious cleanContent) record
    simp [fallingBack, writing, disk]
  | done =>
    cases answer with
    | restarted =>
      exact vouched_of_failed previous.toByteArray failed rfl (fun _ _ _ _ => rfl)
        (fun _ => cleanPrevious) record
    | raised error started =>
      refine vouched_of_failed previous.toByteArray failed (by simp [fallingBack]) ?_
        (fun _ => cleanPrevious) record
      cases started with
      | true => exact fun _ _ _ _ => rfl
      | false => exact back rfl rfl

end Failing

theorem Vouched.same {d d' : Deployment} (vouched : Vouched library d) (site : d'.site = d.site)
    (recorded : d'.recorded = d.recorded) : Vouched library d' := by
  constructor
  · rw [site, recorded]
    exact vouched.runs
  · rw [site, recorded]
    exact vouched.clean

/-- The part of an apply after the new file is written. -/
theorem vouched_loading {d : Deployment} {content previous : String} {back : FileWrite}
    {calls : Answers} (vouched : Vouched library d) (read : readFile d.site.disk = some previous)
    (cleanContent : NoReturnByte content.toByteArray)
    (torn : calls.comesBack = false → ∀ cut, back = .torn cut →
      Harmless library d.recorded (runningThen d content calls)
        (tornBytes cut previous.toByteArray content.toByteArray))
    (stuck : calls.comesBack = false → back = .done → startsNew calls = true →
      startsAgain calls = false →
      Harmless library d.recorded (some (some content.toByteArray)) previous.toByteArray)
    (digest : String) (record : Option Int) :
    let out := loading timeout digest previous back calls
      (d.site.write (some content.toByteArray))
    Vouched library ⟨out.site, recordOutcome d.row out.result record⟩ := by
  intro out
  have cleanPrevious : NoReturnByte previous.toByteArray :=
    (noReturnByte_toByteArray previous).mpr (noCarriageReturn_of_readFile read)
  rcases loading_cases timeout digest previous back calls
      (d.site.write (some content.toByteArray)) with
    ⟨refused, error, reached⟩ | ⟨passed, error, started, raised, reached⟩ |
      ⟨cameBack, reached⟩ | ⟨passed, restarted, down, reached⟩
  -- the test refuses: the engine still runs what it ran
  · have fails : calls.comesBack = false := by simp [Answers.comesBack, refused]
    have still : runningThen d content calls = d.site.running := by
      simp [runningThen, startsNew, refused]
    simp only [out, reached]
    rw [still] at torn
    refine vouched_puttingBack rfl cleanContent cleanPrevious ?_ ?_ error record
    · exact torn fails
    · exact fun _ => vouched.previous read
  -- the restart raises, before the engine has started or after
  · have fails : calls.comesBack = false := by simp [Answers.comesBack, raised]
    simp only [out, reached]
    cases started with
    | false =>
      have still : runningThen d content calls = d.site.running := by
        simp [runningThen, startsNew, raised, Restart.starts]
      rw [still] at torn
      refine vouched_puttingBack rfl cleanContent cleanPrevious ?_ ?_ error record
      · exact torn fails
      · exact fun _ => vouched.previous read
    | true =>
      have starts : startsNew calls = true := by simp [startsNew, passed, raised, Restart.starts]
      have moved : runningThen d content calls = some (some content.toByteArray) := by
        simp [runningThen, starts]
      rw [moved] at torn
      refine vouched_puttingBack rfl cleanContent cleanPrevious ?_ (fun is => ?_) error record
      · exact torn fails
      · exact stuck fails is starts (by simp [startsAgain, raised])
  · -- the engine runs what stands on disk, whatever digest the row names
    simp only [out, reached]
    refine ⟨fun bytes disk _ _ _ _ => ?_, fun _ => ?_⟩
    · cases disk
      rfl
    · exact cleanContent
  -- the engine has started on the new file and is not healthy
  · have fails : calls.comesBack = false := by simp [Answers.comesBack, down]
    have starts : startsNew calls = true := by simp [startsNew, passed, restarted, Restart.starts]
    have moved : runningThen d content calls = some (some content.toByteArray) := by
      simp [runningThen, starts]
    simp only [out, reached]
    rw [moved] at torn
    refine vouched_fallingBack rfl cleanContent cleanPrevious ?_ (fun is again => ?_) record
    · exact torn fails
    · exact stuck fails is starts (by simp [startsAgain, again])

/-- Every event of a run that settles keeps what the recorded digest vouches for. -/
theorem Vouched.step {d d' : Deployment} {event : WhitelistEvent} (vouched : Vouched library d)
    (settles : Settles library d event) (step : WhitelistStep library timeout d event d') :
    Vouched library d' := by
  cases step
  cases event with
  | restart =>
    -- a restart loads what is on disk
    refine ⟨fun bytes disk _ _ _ _ => ?_, vouched.clean⟩
    have here : d.site.disk = some bytes := disk
    simp only [afterEvent, Installed.running_start, here]
  | apply docs writes calls record =>
    simp only [afterEvent, runApply]
    cases rendered : renderWhitelists library docs with
    | error error =>
      rw [applyWhitelistsToDisk_refused rendered]
      refine vouched.same rfl (recorded_of_failed d.row (fun result reported => ?_) record)
      cases reported
      exact ⟨rfl, rfl⟩
    | ok content =>
      have cleanContent : NoReturnByte content.toByteArray :=
        (noReturnByte_toByteArray content).mpr (noCarriageReturn_renderWhitelists rendered)
      cases read : readFile d.site.disk with
      | none =>
        rw [applyWhitelistsToDisk_illegible rendered read]
        exact vouched.same rfl rfl
      | some previous =>
        by_cases unchanged : some (contentDigest library content) = d.recorded ∧
            previous = content
        · rw [applyWhitelistsToDisk_unchanged rendered read unchanged]
          refine vouched.same rfl ?_
          let result : ApplyResult := ⟨true, some (contentDigest library content), none, false⟩
          have ok : result.ok = true := rfl
          rcases recorded_of_ok d.row ok rfl record with kept | named
          · exact kept
          · exact named.trans unchanged.1
        · obtain ⟨first, later⟩ := settles content previous rendered read unchanged
          rw [applyWhitelistsToDisk_changed rendered read unchanged]
          cases wrote : writes 0 with
          | torn cut =>
            exact vouched_of_failed (tornBytes cut content.toByteArray (fileBytes d.site.disk))
              (fun result reported => by cases reported) rfl (first cut wrote)
              (fun some => noReturnByte_tornBytes cut cleanContent (vouched.clean some)) record
          | done =>
            rw [writing_done]
            exact vouched_loading vouched read cleanContent (fun fails => (later wrote fails).1)
              (fun fails => (later wrote fails).2) _ record

/-- Only an engine that came back on the new file makes an apply a success. -/
theorem ok_of_loading {digest previous : String} {back : FileWrite} {calls : Answers} {site : Site}
    {result : ApplyResult}
    (reported : (loading timeout digest previous back calls site).result = some result)
    (ok : result.ok = true) :
    (loading timeout digest previous back calls site).site = site.start := by
  have notFailed : ∀ out : Applied, out.Failed → out.result ≠ some result := by
    intro out failed reported
    rw [(failed result reported).1] at ok
    cases ok
  rcases loading_cases timeout digest previous back calls site with
    ⟨_, error, reached⟩ | ⟨_, error, started, _, reached⟩ | ⟨_, reached⟩ | ⟨_, _, _, reached⟩
  · exact absurd (reached ▸ reported) (notFailed _ (failed_puttingBack back previous error site))
  · exact absurd (reached ▸ reported) (notFailed _ (failed_puttingBack back previous error _))
  · rw [reached]
  · exact absurd (reached ▸ reported) (notFailed _ (failed_fallingBack timeout back previous _ _))

/-- In every run that settles from a deployment without a recorded digest, an apply that reports
success leaves the engine started with what the whitelists render to, and that on disk. -/
theorem ok_runs_rendered {start d : Deployment} (fresh : start.recorded = none)
    (run : Reaches (Guarded (Settles library) (WhitelistStep library timeout)) start d)
    {docs : List WhitelistDoc} {writes : Nat → FileWrite} {calls : Answers} {result : ApplyResult}
    (reported : (runApply library timeout d docs writes calls).result = some result)
    (ok : result.ok = true) :
    RunsRendered library docs (runApply library timeout d docs writes calls).site := by
  have vouched : Vouched library d :=
    Reaches.invariant (fun _ _ _ vouched step => vouched.step step.1 step.2) (.fresh fresh) run
  unfold runApply at reported ⊢
  cases rendered : renderWhitelists library docs with
  | error error =>
    rw [applyWhitelistsToDisk_refused rendered] at reported
    cases reported
    cases ok
  | ok content =>
    cases read : readFile d.site.disk with
    | none =>
      rw [applyWhitelistsToDisk_illegible rendered read] at reported
      cases reported
    | some previous =>
      by_cases unchanged : some (contentDigest library content) = d.recorded ∧
          previous = content
      · -- nothing to do: the recorded digest vouches for the engine
        rw [applyWhitelistsToDisk_unchanged rendered read unchanged]
        obtain ⟨recorded, rfl⟩ := unchanged
        have bytes := fileBytes_of_read read (vouched.clean (by rw [← recorded]; simp))
        have filled := renderWhitelists_ne_empty rendered
        have disk := disk_of_fileBytes bytes filled
        exact ⟨previous, rendered, disk, vouched.runs _ disk previous rfl filled recorded.symm⟩
      · rw [applyWhitelistsToDisk_changed rendered read unchanged] at reported ⊢
        cases wrote : writes 0 with
        | torn cut =>
          rw [wrote] at reported
          cases reported
        | done =>
          rw [wrote, writing_done] at reported
          rw [writing_done]
          -- a success says that the engine came back on the new file
          have loaded := ok_of_loading reported ok
          rw [loaded]
          exact ⟨content, rendered, rfl, rfl⟩

end Runs

/-! ### Runs of a small deployment -/

/-- One whitelist, and what its file holds. -/
def office : WhitelistDoc where
  name := "office"
  reason := "r"
  description := ""
  ips := ["10.0.0.1"]

def officeFile : String :=
  whitelistHeader ++ "---\nname: \"megoopm/wl-office\"\ndescription: \"\"\nwhitelist:\n" ++
    "  reason: \"r\"\n  ip:\n    - \"10.0.0.1\"\n"

/-- The library on what these runs ask of it. -/
def sampleLibrary : WhitelistLibrary where
  unicode := .latin
  repr text := "'" ++ text ++ "'"
  sha256 text :=
    if text = whitelistHeader then
      "4a98468a87e5d93cbea2ec688788314207427af8deb755bba4be686364cd7448"
    else "b22553d892ebe19903a68b4e65a1c8889e5f41a169d7bfd8ee410735ba4039dc"

/-- A deployment that has applied nothing, with the row the migration seeds. -/
def unapplied : Deployment :=
  ⟨⟨none, none⟩, some ⟨none, none, true, none⟩⟩

def accepting : Answers where
  exec _ _ := .ok ⟨0, ""⟩
  validate := .ok ⟨0, ""⟩
  restart _ := .restarted
  healthy _ := true
  edgeBlocked := none

/-- The engine does not come back, and docker does not answer the second time. -/
def failing : Answers :=
  { accepting with
    restart := fun n => if n = 0 then .restarted else .raised "timed out" false
    healthy := fun _ => false }

def applyAt (docs : List WhitelistDoc) (calls : Answers) (now : Int) : WhitelistEvent :=
  .apply docs (fun _ => .done) calls (some now)

/-- No whitelists yet, applied for the first time. -/
def appliedOnce : Deployment :=
  afterEvent sampleLibrary 60 unapplied (applyAt [] accepting 1)

private theorem appliedOnce_eq : appliedOnce =
    ⟨⟨some whitelistHeader.toByteArray, some (some whitelistHeader.toByteArray)⟩,
      some ⟨some (contentDigest sampleLibrary whitelistHeader), some 1, true, none⟩⟩ := by
  decide +kernel

/-- The whitelists are applied again: nothing is to do, and the engine runs them. -/
theorem ok_runs_rendered_again :
    RunsRendered sampleLibrary []
      (runApply sampleLibrary 60 appliedOnce [] (fun _ => .done) accepting).site := by
  have settles : Settles sampleLibrary unapplied (applyAt [] accepting 1) := by
    intro content previous _ _ _
    exact ⟨fun cut torn => (by cases torn), fun _ fails => absurd fails (by decide)⟩
  have reported : (runApply sampleLibrary 60 appliedOnce [] (fun _ => .done) accepting).result =
      some ⟨true, some (contentDigest sampleLibrary whitelistHeader), none, false⟩ := by
    rw [appliedOnce_eq]
    decide +kernel
  exact ok_runs_rendered rfl ((Reaches.refl _ _).tail ⟨settles, rfl⟩) reported rfl

/-- The office whitelist does not come up, and the restart onto the previous file fails. -/
def fellBack : Deployment :=
  afterEvent sampleLibrary 60 appliedOnce (applyAt [office] failing 2)

/-- Without whitelists again, the next apply finds nothing to do and reports success, and the
engine was last started with the office whitelist. -/
theorem ok_runs_another :
    Reaches (WhitelistStep sampleLibrary 60) unapplied fellBack ∧
    (runApply sampleLibrary 60 fellBack [] (fun _ => .done) accepting).result =
      some ⟨true, some (contentDigest sampleLibrary whitelistHeader), none, false⟩ ∧
    ¬RunsRendered sampleLibrary []
      (runApply sampleLibrary 60 fellBack [] (fun _ => .done) accepting).site := by
  have site : (runApply sampleLibrary 60 fellBack [] (fun _ => .done) accepting).site =
      ⟨some whitelistHeader.toByteArray, some (some officeFile.toByteArray)⟩ := by decide +kernel
  refine ⟨((Reaches.refl _ _).tail rfl).tail rfl, by decide +kernel, ?_⟩
  rw [site]
  rintro ⟨content, _, disk, running⟩
  have same : some (some officeFile.toByteArray) = some (some whitelistHeader.toByteArray) :=
    running.trans (congrArg some disk.symm)
  revert same
  decide +kernel

end MegooPM.CrowdSec
