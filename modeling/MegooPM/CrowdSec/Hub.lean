import MegooPM.CrowdSec.Engine
import MegooPM.Lib.Installed

/-!
# Refreshing the hub items

`services/crowdsec/hub.py`: what the listings and the outputs of `cscli` are read
as, and the update itself: back up, update, upgrade, compare the listings, restart
only if an item changed, put the backup back if the engine does not come back.
-/
namespace MegooPM.CrowdSec

open Lib

/-! ### Commands -/

def hubItemTypes : List String :=
  ["hub", "collections", "parsers", "scenarios", "postoverflows", "contexts", "appsec-configs",
    "appsec-rules"]

def hubBackupPath : String := "/var/lib/crowdsec/data/megoopm-hub-backup.tgz"

def cmdList : List String := ["cscli", "hub", "list", "-o", "json"]

def cmdUpdate : List String := ["cscli", "hub", "update"]

def cmdUpgrade : List String := ["cscli", "hub", "upgrade"]

def cmdVersion : List String := ["cscli", "version"]

def cmdBackup : List String :=
  ["sh", "-c", "cd /etc/crowdsec && tar -czf " ++ hubBackupPath ++ " $(ls -d " ++
    " ".intercalate hubItemTypes ++ " 2>/dev/null)"]

def cmdRestore : List String := ["tar", "-xzf", hubBackupPath, "-C", "/etc/crowdsec"]

/-! ### Listings -/

/-- A JSON value as `json.loads` gives it; of a number, whether it is zero is all that is asked. -/
inductive Json where
  | null
  | bool (b : Bool)
  | number (text : String) (zero : Bool)
  | str (s : String)
  | arr (items : List Json)
  | obj (fields : List (String × Json))

/-- What the parsing uses of Python: `json.loads`, `str` of a value that is not a string, and
the decimal digits of Unicode. -/
structure HubLibrary where
  loads : String → Option Json
  str : Json → String
  isDecimal : Char → Bool

def Json.truthy : Json → Bool
  | .null => false
  | .bool b => b
  | .number _ zero => !zero
  | .str s => s ≠ ""
  | .arr items => !items.isEmpty
  | .obj fields => !fields.isEmpty

/-- What a `for` loop goes over; it raises on a value that is not iterable. -/
def Json.iterate : Json → Option (List Json)
  | .arr items => some items
  | .str s => some (s.toList.map fun c => .str (String.singleton c))
  | .obj fields => some (fields.map fun field => .str field.1)
  | _ => none

/-- `item.get(key)` of a dictionary, `None` of anything else. -/
def Json.field (item : Json) (key : String) : Json :=
  match item with
  | .obj fields => (fields.lookup key).getD .null
  | _ => .null

/-- `str(value or "")`. -/
def HubLibrary.textOr (library : HubLibrary) (value : Json) : String :=
  if value.truthy then
    match value with
    | .str s => s
    | other => library.str other
  else ""

/-- `out[key] = version`. -/
def setVersion (out : List (String × String)) (key version : String) : List (String × String) :=
  if out.any (·.1 = key) then out.map fun item => if item.1 = key then (key, version) else item
  else out ++ [(key, version)]

/-- One item of a listing; one without a name is passed over. -/
def listItem (library : HubLibrary) (itemType : String) (out : List (String × String))
    (item : Json) : List (String × String) :=
  let name := item.field "name"
  if name.truthy then
    setVersion out (itemType ++ ":" ++ library.textOr name)
      (library.textOr (item.field "local_version"))
  else out

/-- One type of items, `items or []`. -/
def listType (library : HubLibrary) (out : List (String × String)) (field : String × Json) :
    Option (List (String × String)) :=
  if field.2.truthy then
    field.2.iterate.map fun items => items.foldl (listItem library field.1) out
  else some out

/-- `parse_hub_list`; nothing where it raises. -/
def parseHubList (library : HubLibrary) (text : String) : Option (List (String × String)) :=
  let start := text.toList.dropWhile (· ≠ '\x7b')
  if start = [] then some []
  else
    match library.loads (String.ofList start) with
    | some (.obj fields) => fields.foldlM (listType library) []
    | _ => some []

/-- `diff_versions`: removals are not changes. -/
def diffVersions (before after : List (String × String)) : List String :=
  sortedBy id ((after.filter fun item => before.lookup item.1 ≠ some item.2).map Prod.fst)

/-! ### Outputs -/

/-- `[\d.]+` where the text begins. -/
def versionDigits (library : HubLibrary) (text : List Char) : List Char :=
  text.takeWhile fun c => c = '.' || library.isDecimal c

/-- `_AGENT_WARNING` where the text begins. -/
def agentWarningAt (library : HubLibrary) (text : List Char) : Option String :=
  let lead := "new CrowdSec release is available (v".toList
  if lead.isPrefixOf text then
    let rest := text.drop lead.length
    let digits := versionDigits library rest
    if digits ≠ [] ∧ (rest.drop digits.length).head? = some ')' then
      some (String.ofList ('v' :: digits))
    else none
  else none

def parseAgentWarning (library : HubLibrary) (text : String) : Option String :=
  text.toList.tails.findSome? (agentWarningAt library)

/-- The characters a letter matches when case is ignored. -/
def sameLetter (letter c : Char) : Bool :=
  c = letter || c = letter.toUpper || (letter = 's' && c = 'ſ') ||
    (letter = 'i' && (c = 'İ' || c = 'ı'))

/-- `_AGENT_VERSION` where a line begins. -/
def agentVersionAt (library : HubLibrary) (text : List Char) : Option String :=
  let lead := "version:".toList
  if (lead.zipWith sameLetter text).all id ∧ lead.length ≤ text.length then
    match (text.drop lead.length).dropWhile isSpace with
    | v :: rest =>
      let digits := versionDigits library rest
      if sameLetter 'v' v ∧ digits ≠ [] then some (String.ofList (v :: digits)) else none
    | [] => none
  else none

/-- The text from each of its lines on. -/
def lineTails (text : List Char) : List (List Char) :=
  text :: text.tails.filterMap fun tail =>
    match tail with
    | '\n' :: rest => some rest
    | _ => none

def parseAgentVersion (library : HubLibrary) (text : String) : Option String :=
  (lineTails text.toList).findSome? (agentVersionAt library)

/-- `output_tail(text)`: the last twenty lines. -/
def outputTail (text : String) : String :=
  let lines := splitLines (stripText text)
  "\n".intercalate (lines.drop (lines.length - 20))

def hubRefused : String := "bad HTTP code 403"

def hubRefusedMessage : String :=
  "CrowdSec's hub refused the download (HTTP 403). CrowdSec blocks internet " ++
  "addresses that send it too many requests, which happens when several machines " ++
  "share one internet connection; it usually lifts on its own. CrowdSec was not " ++
  "restarted, so protected hosts are unaffected; try again later."

def describeFailure (library : HubLibrary) (step output : String) : String :=
  let kept := "\n".intercalate
    ((splitLines output).filter fun line => (parseAgentWarning library line).isNone)
  if holds output hubRefused then
    stripText (hubRefusedMessage ++ " " ++ lastLine kept "")
  else step ++ " failed: " ++ outputTail kept

/-! ### The update -/

/-- The hub items on disk, counted by their changes, and the count at the last start. -/
abbrev HubItems := Installed Nat

def HubItems.changedIf (changes : Bool) (hub : HubItems) : HubItems :=
  if changes then hub.write (hub.disk + 1) else hub

@[simp] theorem changedIf_false (hub : HubItems) : hub.changedIf false = hub := rfl

/-- The answers an update gets; `changes` says whether a command changes items on disk, which it
may whatever it answers. -/
structure HubCalls where
  exec : List String → Nat → Exec
  changes : List String → Bool
  restart : Nat → Restart
  healthy : Bool

structure HubUpdateResult where
  ok : Bool
  error : Option String
  restarted : Bool
  updated : List String
  agentVersion : Option String
  latestAgentVersion : Option String
deriving DecidableEq

/-- What an update leaves; it returns nothing where a listing makes it raise. -/
structure HubRun where
  result : Option HubUpdateResult
  hub : HubItems
deriving DecidableEq

def notBack : String := "CrowdSec did not come back after the hub upgrade"

def rulesRestored : String := notBack ++ ". The previous rules were restored."

def rollbackFailed (error : String) : String :=
  notBack ++ (", and the rollback also failed: " ++ error)

/-- The engine has not come back: put the previous item files back and restart onto those. -/
def restoreItems (report : Bool → Option String → Bool → HubUpdateResult) (calls : HubCalls)
    (hub : HubItems) : HubRun :=
  let hub := hub.changedIf (calls.changes cmdRestore)
  match calls.exec cmdRestore 0 with
  | .error error => ⟨some (report false (some (rollbackFailed error)) true), hub⟩
  | .ok _ =>
    let hub := hub.startIf (calls.restart 1).starts
    match calls.restart 1 with
    | .raised error _ => ⟨some (report false (some (rollbackFailed error)) true), hub⟩
    | .restarted => ⟨some (report false (some rulesRestored) true), hub⟩

/-- The part of the update after the listings are compared. -/
def loadItems (updated : List String) (agentVersion latest : Option String) (calls : HubCalls)
    (hub : HubItems) : HubRun :=
  let report (ok : Bool) (error : Option String) (restarted : Bool) : HubUpdateResult :=
    ⟨ok, error, restarted, updated, agentVersion, latest⟩
  if updated = [] then ⟨some (report true none false), hub⟩
  else
    let hub := hub.startIf (calls.restart 0).starts
    match calls.restart 0 with
    | .raised error _ => ⟨some (report false (some error) false), hub⟩
    | .restarted =>
      if calls.healthy then ⟨some (report true none true), hub⟩
      else restoreItems report calls hub

/-- The part of the update after the items are backed up. -/
def upgradeItems (library : HubLibrary) (before : List (String × String))
    (agentVersion : Option String) (calls : HubCalls) (hub : HubItems) : HubRun :=
  let stop (latest : Option String) (error : String) (hub : HubItems) : HubRun :=
    ⟨some ⟨false, some error, false, [], agentVersion, latest⟩, hub⟩
  let hub := hub.changedIf (calls.changes cmdUpdate)
  match calls.exec cmdUpdate 0 with
  | .error error => stop none error hub
  | .ok update =>
    let latest := parseAgentWarning library update.output
    if update.exitCode ≠ 0 then
      stop latest (describeFailure library "hub update" update.output) hub
    else
      let hub := hub.changedIf (calls.changes cmdUpgrade)
      match calls.exec cmdUpgrade 0 with
      | .error error => stop latest error hub
      | .ok upgrade =>
        if upgrade.exitCode ≠ 0 then
          stop latest (describeFailure library "hub upgrade" upgrade.output) hub
        else
          match calls.exec cmdList 1 with
          | .error error => stop latest error hub
          | .ok listed =>
            match parseHubList library listed.output with
            | none => ⟨none, hub⟩
            | some after => loadItems (diffVersions before after) agentVersion latest calls hub

/-- `run_hub_update` -/
def runHubUpdate (library : HubLibrary) (calls : HubCalls) (hub : HubItems) : HubRun :=
  let stop (agentVersion : Option String) (error : String) : HubRun :=
    ⟨some ⟨false, some error, false, [], agentVersion, none⟩, hub⟩
  match calls.exec cmdVersion 0 with
  | .error error => stop none error
  | .ok version =>
    let agentVersion := parseAgentVersion library version.output
    match calls.exec cmdList 0 with
    | .error error => stop agentVersion error
    | .ok listed =>
      match parseHubList library listed.output with
      | none => ⟨none, hub⟩
      | some before =>
        match calls.exec cmdBackup 0 with
        | .error error => stop agentVersion error
        | .ok backup =>
          if backup.exitCode ≠ 0 then
            stop agentVersion ("Backup failed: " ++ outputTail backup.output)
          else upgradeItems library before agentVersion calls hub

end MegooPM.CrowdSec
