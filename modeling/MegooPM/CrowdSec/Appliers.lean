import MegooPM.CrowdSec.Whitelists
import MegooPM.Lib.Installed

/-!
# Applying a file to the engine

The three appliers of a file that CrowdSec reads at start: the whitelists
(`tasks/crowdsec.py`), the community blocklist (`services/crowdsec/capi.py`) and
the request-body limit (`services/crowdsec/waf.py`). Each writes the file, asks the
engine about it, restarts the engine, and puts the previous text back when that
goes wrong. What is put back is the text as it was read, with its line ends
translated; a file that is not UTF-8 cannot be read, and the call leaves with an error.
-/
namespace MegooPM.CrowdSec

open Lib

/-- The answers an apply gets, in the order of its calls: `exec argv n` is the answer to the
`n`-th time the command is run. -/
structure Answers where
  exec : List String → Nat → Exec
  validate : Exec
  restart : Nat → Restart
  healthy : Nat → Bool
  edgeBlocked : Option Bool

/-- The engine loads the new file and answers again. -/
def Answers.comesBack (calls : Answers) : Bool :=
  passes calls.validate && calls.restart 0 = .restarted && calls.healthy 0

/-! ### The whitelists -/

/-- How a write in place ends. A write that fails has put a beginning of the new bytes over the
old ones, and has not cut off the rest. -/
inductive FileWrite where
  | done
  | torn (cut : Nat)
deriving DecidableEq

def tornBytes (cut : Nat) (content old : ByteArray) : ByteArray :=
  content.extract 0 cut ++ old.extract (min cut content.size) old.size

/-- The whitelist file, and what it held when the engine was last started. -/
abbrev Site := Installed (Option ByteArray)

structure ApplyResult where
  ok : Bool
  digest : Option String
  error : Option String
  restarted : Bool
deriving DecidableEq

/-- What a call leaves; it returns nothing where a read or a write that fails leaves it with an
error. -/
structure Applied where
  result : Option ApplyResult
  site : Site
deriving DecidableEq

/-- `write_whitelist_file`, and what the call does after it. -/
def writing (write : FileWrite) (content : String) (site : Site) (next : Site → Applied) :
    Applied :=
  match write with
  | .done => next (site.write (some content.toByteArray))
  | .torn cut => ⟨none, site.write (some (tornBytes cut content.toByteArray (fileBytes site.disk)))⟩

@[simp] theorem writing_done (content : String) (site : Site) (next : Site → Applied) :
    writing .done content site next = next (site.write (some content.toByteArray)) := rfl

/-- Put the previous text back and report what went wrong. -/
def puttingBack (write : FileWrite) (previous error : String) (site : Site) : Applied :=
  writing write previous site fun site => ⟨some ⟨false, none, some error, false⟩, site⟩

/-- Put the previous text back and restart onto it. -/
def fallingBack (timeout : Int) (write : FileWrite) (previous : String) (answer : Restart)
    (site : Site) : Applied :=
  writing write previous site fun site =>
    let site := site.startIf answer.starts
    match answer with
    | .raised error _ =>
      ⟨some ⟨false, none, some ("CrowdSec did not come back after the whitelist change, and the " ++
        "rollback restart also failed: " ++ error), true⟩, site⟩
    | .restarted =>
      ⟨some ⟨false, none, some ("CrowdSec did not come back within " ++ toString timeout ++
        "s of the whitelist change. The previous whitelist file has been restored."), true⟩, site⟩

/-- The part of the apply after the file is written: test, restart, verify. -/
def loading (timeout : Int) (digest previous : String) (back : FileWrite) (calls : Answers)
    (site : Site) : Applied :=
  match calls.validate with
  | .error error => puttingBack back previous error site
  | .ok tested =>
    match configTestError tested with
    | some problem => puttingBack back previous problem site
    | none =>
      let site := site.startIf (calls.restart 0).starts
      match calls.restart 0 with
      | .raised error _ => puttingBack back previous error site
      | .restarted =>
        if calls.healthy 0 then ⟨some ⟨true, some digest, none, true⟩, site⟩
        else fallingBack timeout back previous (calls.restart 1) site

/-- `apply_whitelists_to_disk` -/
def applyWhitelistsToDisk (library : WhitelistLibrary) (timeout : Int) (docs : List WhitelistDoc)
    (appliedDigest : Option String) (writes : Nat → FileWrite) (calls : Answers) (site : Site) :
    Applied :=
  match renderWhitelists library docs with
  | .error error => ⟨some ⟨false, none, some error, false⟩, site⟩
  | .ok content =>
    let digest := contentDigest library content
    match readFile site.disk with
    | none => ⟨none, site⟩
    | some previous =>
      if some digest = appliedDigest ∧ previous = content then
        ⟨some ⟨true, some digest, none, false⟩, site⟩
      else writing (writes 0) content site (loading timeout digest previous (writes 1) calls)

section Equations

variable {library : WhitelistLibrary} {timeout : Int} {docs : List WhitelistDoc}
  {appliedDigest : Option String} {writes : Nat → FileWrite} {calls : Answers} {site : Site}

theorem applyWhitelistsToDisk_refused {error : String}
    (refused : renderWhitelists library docs = .error error) :
    applyWhitelistsToDisk library timeout docs appliedDigest writes calls site =
      ⟨some ⟨false, none, some error, false⟩, site⟩ := by
  simp only [applyWhitelistsToDisk, refused]

theorem applyWhitelistsToDisk_illegible {content : String}
    (rendered : renderWhitelists library docs = .ok content) (illegible : readFile site.disk = none) :
    applyWhitelistsToDisk library timeout docs appliedDigest writes calls site = ⟨none, site⟩ := by
  simp only [applyWhitelistsToDisk, rendered, illegible]

theorem applyWhitelistsToDisk_unchanged {content previous : String}
    (rendered : renderWhitelists library docs = .ok content)
    (read : readFile site.disk = some previous)
    (unchanged : some (contentDigest library content) = appliedDigest ∧ previous = content) :
    applyWhitelistsToDisk library timeout docs appliedDigest writes calls site =
      ⟨some ⟨true, some (contentDigest library content), none, false⟩, site⟩ := by
  simp only [applyWhitelistsToDisk, rendered, read, if_pos unchanged]

theorem applyWhitelistsToDisk_changed {content previous : String}
    (rendered : renderWhitelists library docs = .ok content)
    (read : readFile site.disk = some previous)
    (changed : ¬(some (contentDigest library content) = appliedDigest ∧ previous = content)) :
    applyWhitelistsToDisk library timeout docs appliedDigest writes calls site =
      writing (writes 0) content site (loading timeout (contentDigest library content)
        previous (writes 1) calls) := by
  simp only [applyWhitelistsToDisk, rendered, read, if_neg changed]

end Equations

/-- How the new file fares: it is put back before the engine is asked to restart, it is put back
after a restart that raised, it stays, or the engine falls back to the previous one. -/
theorem loading_cases (timeout : Int) (digest previous : String) (back : FileWrite)
    (calls : Answers) (site : Site) :
    (passes calls.validate = false ∧
      ∃ error, loading timeout digest previous back calls site =
        puttingBack back previous error site) ∨
    (passes calls.validate = true ∧ ∃ error started, calls.restart 0 = .raised error started ∧
      loading timeout digest previous back calls site =
        puttingBack back previous error (site.startIf started)) ∨
    (calls.comesBack = true ∧
      loading timeout digest previous back calls site =
        ⟨some ⟨true, some digest, none, true⟩, site.start⟩) ∨
    (passes calls.validate = true ∧ calls.restart 0 = .restarted ∧ calls.healthy 0 = false ∧
      loading timeout digest previous back calls site =
        fallingBack timeout back previous (calls.restart 1) site.start) := by
  unfold loading Answers.comesBack
  cases tested : calls.validate with
  | error error => exact .inl ⟨rfl, error, rfl⟩
  | ok answer =>
    cases objection : configTestError answer with
    | some problem => exact .inl ⟨by simp [passes, objection], problem, by simp only [objection]⟩
    | none =>
      have passed : passes (.ok answer) = true := by simp [passes, objection]
      simp only [objection]
      cases first : calls.restart 0 with
      | raised error started => exact .inr (.inl ⟨passed, error, started, rfl, rfl⟩)
      | restarted =>
        cases healthy : calls.healthy 0 with
        | true => exact .inr (.inr (.inl ⟨by simp [passed], rfl⟩))
        | false => exact .inr (.inr (.inr ⟨passed, rfl, rfl, rfl⟩))

/-! ### The community blocklist -/

def credentialsPath : String := "/etc/crowdsec/online_api_credentials.yaml"

def cmdHasCredentials : List String :=
  ["sh", "-c", "test -s " ++ credentialsPath ++ " && grep -q login " ++ credentialsPath]

def cmdRegister : List String := ["cscli", "capi", "register", "-f", credentialsPath]

def cmdStatus : List String := ["cscli", "capi", "status"]

def configLocalBase : String :=
  "# Managed by MegooPM — Security → Updates rewrites this file. Edit\n" ++
  "# infra/crowdsec/config.yaml.local in the repo for the seed.\n" ++
  "#\n" ++
  "# Machine auto-registration: the backend self-registers its LAPI machine with\n" ++
  "# `POST /v1/watchers` and sends CROWDSEC_REGISTRATION_TOKEN; when it matches\n" ++
  "# the token below and the request comes from an allowed range, LAPI validates\n" ++
  "# the machine immediately. The token must be >= 32 characters.\n" ++
  "api:\n" ++
  "  server:\n" ++
  "    auto_registration:\n" ++
  "      enabled: true\n" ++
  "      token: $\x7bCROWDSEC_REGISTRATION_TOKEN\x7d\n" ++
  "      allowed_ranges:\n" ++
  "        - 127.0.0.1/32\n" ++
  "        - 10.0.0.0/8\n" ++
  "        - 172.16.0.0/12\n" ++
  "        - 192.168.0.0/16\n"

def onlineClient : String :=
  "    # Community blocklist: switched on from Security → Updates.\n" ++
  "    online_client:\n" ++
  "      credentials_path: " ++ credentialsPath ++ "\n" ++
  "      sharing: true\n" ++
  "      pull:\n" ++
  "        community: true\n" ++
  "        blocklists: true\n"

def renderConfigLocal (capiEnabled : Bool) : String :=
  configLocalBase ++ (if capiEnabled then onlineClient else "")

def parseCapiStatus (result : ExecResult) : Bool :=
  result.exitCode = 0 && holds result.output "successfully interact"

structure CapiApplyResult where
  ok : Bool
  error : Option String
  restarted : Bool
  enabled : Bool
deriving DecidableEq

/-- A container that cannot be reached, before anything was restarted. -/
def notRestarted (answer : Exec) : Exec :=
  answer.mapError (· ++ ". CrowdSec was not restarted.")

def ensureCredentials (calls : Answers) : Except String Unit := do
  let has ← notRestarted (calls.exec cmdHasCredentials 0)
  if has.exitCode = 0 then .ok ()
  else
    let registered ← notRestarted (calls.exec cmdRegister 0)
    if registered.exitCode = 0 then .ok ()
    else .error ("Registering with CrowdSec's central API failed: " ++
      lastLine registered.output "no output")

/-- What is asked of the engine before the blocklist is switched on. -/
def capiPreflight (calls : Answers) : Except String Unit := do
  ensureCredentials calls
  let preflight ← notRestarted (calls.exec cmdStatus 0)
  if parseCapiStatus preflight then .ok ()
  else .error ("CrowdSec's central API does not accept a connection from this server, so the " ++
    "community blocklist was not switched on. CrowdSec was not restarted, so protected hosts " ++
    "are unaffected. " ++ lastLine preflight.output "no output")

/-- Why the restarted engine does not count as verified. -/
def capiFault (enabled : Bool) (calls : Answers) : Option String :=
  if ¬calls.healthy 0 then some "CrowdSec did not come back after the change"
  else if enabled then
    match calls.exec cmdStatus 1 with
    | .error error => some error
    | .ok status =>
      if parseCapiStatus status then none
      else some "cscli capi status did not confirm the connection"
  else none

/-- `run_capi_apply`, and the file it leaves. It returns nothing where the file cannot be read. -/
def runCapiApply (enabled : Bool) (calls : Answers) (path : Option ByteArray) :
    Option CapiApplyResult × Option ByteArray :=
  match readFile path with
  | none => (none, path)
  | some previous =>
    let content := renderConfigLocal enabled
    let written := some content.toByteArray
    let restored := some previous.toByteArray
    if content = previous then (some ⟨true, none, false, enabled⟩, path)
    else
      match if enabled then capiPreflight calls else .ok () with
      | .error error => (some ⟨false, some error, false, false⟩, restored)
      | .ok _ =>
        match calls.restart 0 with
        | .raised error _ => (some ⟨false, some error, false, !enabled⟩, restored)
        | .restarted =>
          match capiFault enabled calls with
          | none => (some ⟨true, none, true, enabled⟩, written)
          | some reason =>
            match calls.restart 1 with
            | .raised error _ =>
              (some ⟨false, some (reason ++ ", and the rollback restart also failed: " ++ error),
                true, !enabled⟩, restored)
            | .restarted =>
              (some ⟨false, some (reason ++ ". The previous configuration was restored."), true,
                !enabled⟩, restored)

/-! ### The request-body limit -/

structure WafApplyResult where
  ok : Bool
  error : Option String
  restarted : Bool
  blocklistSwitchedOff : Bool
deriving DecidableEq

/-- The two files the apply may touch. -/
structure WafFiles where
  path : Option ByteArray
  configLocal : Option ByteArray
deriving DecidableEq

/-- What a call returns, if it does not leave with an error, and the files it leaves. -/
abbrev WafApplied := Option WafApplyResult × WafFiles

/-- `_roll_back` -/
def rollBack (previous previousLocal : String) (cause : Option String) (answer : Restart)
    (files : WafFiles) : WafApplied :=
  match readFile files.configLocal with
  | none => (none, { files with path := some previous.toByteArray })
  | some here =>
    let configLocal := if here ≠ previousLocal then some previousLocal.toByteArray else files.configLocal
    let restored : WafFiles := ⟨some previous.toByteArray, configLocal⟩
    let reason :=
      match cause with
      | some cause => "CrowdSec could not be restarted: " ++ cause
      | none => "CrowdSec did not come back after the change"
    match answer with
    | .raised error _ =>
      (some ⟨false, some (reason ++ ", and the rollback restart also failed: " ++ error), true,
        false⟩, restored)
    | .restarted =>
      (some ⟨false, some (reason ++ ". The previous limit was restored."), true, false⟩, restored)

/-- The engine has not come back on the new file: one rung more, then the rollback. -/
def wafRescue (previous : String) (capiEnabled : Bool) (calls : Answers) (files : WafFiles) :
    WafApplied :=
  match readFile files.configLocal with
  | none => (none, files)
  | some previousLocal =>
    if capiEnabled ∧ calls.edgeBlocked = some true then
      -- without the blocklist the engine needs no central API
      let switched := { files with configLocal := some (renderConfigLocal false).toByteArray }
      match calls.restart 1 with
      | .raised error _ => rollBack previous previousLocal (some error) (calls.restart 2) switched
      | .restarted =>
        if calls.healthy 1 then (some ⟨true, none, true, true⟩, switched)
        else rollBack previous previousLocal none (calls.restart 2) switched
    else rollBack previous previousLocal none (calls.restart 1) files

/-- `run_waf_apply` -/
def runWafApply (content : String) (capiEnabled : Bool) (calls : Answers) (files : WafFiles) :
    WafApplied :=
  match readFile files.path with
  | none => (none, files)
  | some previous =>
    let written : WafFiles := { files with path := some content.toByteArray }
    let restored : WafFiles := { files with path := some previous.toByteArray }
    if content = previous then (some ⟨true, none, false, false⟩, files)
    else
      match calls.validate with
      | .error error => (some ⟨false, some error, false, false⟩, restored)
      | .ok tested =>
        match configTestError tested with
        | some problem => (some ⟨false, some problem, false, false⟩, restored)
        | none =>
          match calls.restart 0 with
          | .raised error _ => (some ⟨false, some error, false, false⟩, restored)
          | .restarted =>
            if calls.healthy 0 then (some ⟨true, none, true, false⟩, written)
            else wafRescue previous capiEnabled calls written

end MegooPM.CrowdSec
