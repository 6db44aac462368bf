import MegooPM.Services.Session

/-!
# Pages and settings

`services/custom_page.py`, `instance_settings.py` and `error_page.py`. A page that a
setting, an error code or a location refers to cannot be deleted: all these foreign keys
are `RESTRICT`.
-/
namespace MegooPM

open Lib

variable {db db' : Database}

/-! ### Custom pages -/

def Database.addCustomPage (db : Database) (page : CustomPage) : Database :=
  { db with customPages := db.customPages ++ [page] }

def Database.changeCustomPage (db : Database) (pageId : Id) (f : CustomPage → CustomPage) :
    Database :=
  { db with customPages := updateAt CustomPage.id pageId f db.customPages }

def Database.dropCustomPage (db : Database) (pageId : Id) : Database :=
  { db with customPages := removeAt CustomPage.id pageId db.customPages }

def createCustomPage (db : Database) (page : CustomPage) : Except ServiceError Database :=
  commitOr (db.addCustomPage page) true .duplicateName

theorem createCustomPage_ok {page : CustomPage} (done : createCustomPage db page = .ok db') :
    db' = db.addCustomPage page ∧ db'.Constraints :=
  commitOr_eq_ok done

/-- Fields of a `CustomPageUpdate`. -/
structure CustomPageChanges where
  name : Change String := .unset
  description : Change String := .unset
  html : Change String := .unset
  deriving DecidableEq, Repr

namespace CustomPageChanges

def apply (c : CustomPageChanges) (page : CustomPage) : CustomPage :=
  { page with
    name := c.name.overValue page.name
    description := c.description.overValue page.description
    html := c.html.overValue page.html }

def notNull (c : CustomPageChanges) : Bool :=
  c.name.notNull && c.description.notNull && c.html.notNull

end CustomPageChanges

def updateCustomPage (db : Database) (pageId : Id) (changes : CustomPageChanges) :
    Except ServiceError Database := do
  let _ ← orRaise (db.customPage? pageId) (ServiceError.notFound .customPage pageId)
  commitOr (db.changeCustomPage pageId changes.apply) changes.notNull .duplicateName

theorem updateCustomPage_ok {i : Id} {c : CustomPageChanges}
    (done : updateCustomPage db i c = .ok db') :
    db' = db.changeCustomPage i c.apply ∧ db'.Constraints := by
  obtain ⟨_, _, done⟩ := bind_eq_ok done
  exact commitOr_eq_ok done

def deleteCustomPage (db : Database) (pageId : Id) : Except ServiceError Database := do
  let _ ← orRaise (db.customPage? pageId) (ServiceError.notFound .customPage pageId)
  commit (db.dropCustomPage pageId) true

theorem deleteCustomPage_ok {i : Id} (done : deleteCustomPage db i = .ok db') :
    db' = db.dropCustomPage i ∧ db'.Constraints := by
  obtain ⟨_, _, done⟩ := bind_eq_ok done
  exact commit_eq_ok done

/-! ### Instance settings -/

/-- The settings row, or the one `get_instance_settings` creates where a hand-migrated
database lacks it. -/
def Database.settings (db : Database) : InstanceSettings :=
  db.instanceSettings.getD {}

def Database.setSettings (db : Database) (row : InstanceSettings) : Database :=
  { db with instanceSettings := some row }

/-- Read the settings row, creating it if it is missing. -/
def getInstanceSettings (db : Database) : Except ServiceError Database :=
  match db.instanceSettings with
  | some _ => .ok db
  | none => commit (db.setSettings {}) true

theorem getInstanceSettings_ok (done : getInstanceSettings db = .ok db') :
    (db.instanceSettings = none ∧ db' = db.setSettings {} ∧ db'.Constraints) ∨
      (db.instanceSettings ≠ none ∧ db' = db) := by
  unfold getInstanceSettings at done
  split at done
  next row found =>
    cases done
    exact Or.inr ⟨by simp [found], rfl⟩
  next missing => exact Or.inl ⟨missing, commit_eq_ok done⟩

/-- An update of some columns of the settings row: the row is read first. -/
def updateSettings (db : Database) (f : InstanceSettings → InstanceSettings) (notNull : Bool) :
    Except ServiceError Database := do
  let db ← getInstanceSettings db
  commitOr (db.setSettings (f db.settings)) notNull (.unknownCustomPage none)

theorem updateSettings_ok {f : InstanceSettings → InstanceSettings} {notNull : Bool}
    (done : updateSettings db f notNull = .ok db') :
    db' = db.setSettings (f db.settings) ∧ db'.Constraints := by
  obtain ⟨read, first, done⟩ := bind_eq_ok done
  obtain ⟨written, fine⟩ := commitOr_eq_ok done
  refine ⟨?_, fine⟩
  rcases getInstanceSettings_ok first with ⟨missing, rfl, _⟩ | ⟨_, rfl⟩
  · rw [written]
    simp [Database.setSettings, Database.settings, missing]
  · exact written

/-- Set the default site; the columns the mode does not use are cleared. -/
def updateDefaultSite (db : Database) (mode : DefaultSiteMode) (redirectUrl : Option String)
    (pageId : Option Id) : Except ServiceError Database :=
  updateSettings db (fun row => { row with
    defaultSiteMode := mode
    defaultSiteRedirectUrl := if mode = .redirect then redirectUrl else none
    defaultSitePageId := if mode = .customPage then pageId else none }) true

def updateBanPage (db : Database) (mode : CrowdSecBanMode) (pageId : Option Id) :
    Except ServiceError Database :=
  updateSettings db (fun row => { row with
    crowdsecBanMode := mode
    crowdsecBanPageId := if mode = .customPage then pageId else none }) true

def updateMaintenance (db : Database) (mode : MaintenancePageMode) (pageId : Option Id)
    (retryAfterMinutes : Int) : Except ServiceError Database :=
  updateSettings db (fun row => { row with
    maintenanceMode := mode
    maintenancePageId := if mode = .customPage then pageId else none
    maintenanceRetryAfterMinutes := retryAfterMinutes }) true

/-- The settings groups no file is rendered from. -/
inductive SettingsGroup where
  | llm | smtp | backups | crowdsecHub | crowdsecCapi | crowdsecWaf
  deriving DecidableEq, Repr

/-- An update of such a group: of the modelled columns it writes none, but it reads the row
like the others do. -/
def updateUnrendered (db : Database) (_group : SettingsGroup) : Except ServiceError Database :=
  getInstanceSettings db

/-! ### Error pages -/

/-- One entry of the payload that replaces the error pages. -/
structure ErrorPageUpdate where
  code : Int
  mode : ErrorPageMode
  customPageId : Option Id := none
  deriving DecidableEq, Repr

/-- The entries that get a row: by code, a later one replacing an earlier one. -/
def wantedErrorPages (rows : List ErrorPageUpdate) : List ErrorPageUpdate :=
  let wanted := rows.filter (·.mode = .customPage)
  let last := (wanted.map (·.code)).dedup.filterMap fun code => wanted.reverse.find? (·.code = code)
  sortedBy (·.code) last

def Database.setErrorPages (db : Database) (rows : List ErrorPageUpdate) : Database :=
  { db with errorPages := (wantedErrorPages rows).map fun row =>
      { code := row.code, mode := row.mode, customPageId := row.customPageId } }

/-- Every page of the payload must exist; the message names the codes. -/
def checkErrorPages (db : Database) (rows : List ErrorPageUpdate) : Except ServiceError Unit :=
  let wanted := wantedErrorPages rows
  let found := db.customPages.map (·.id)
  let missing := wanted.filter fun row => row.customPageId.all (· ∉ found)
  if wanted.filterMap (·.customPageId) ≠ [] ∧ missing ≠ [] then
    .error (.unknownCustomPage (some ("No such page for: " ++ ", ".intercalate (missing.map fun row =>
      toString row.code ++ " (page " ++ (row.customPageId.map toString).getD "None" ++ ")"))))
  else .ok ()

/-- Replace the whole set; codes set to the default lose their row. -/
def replaceErrorPages (db : Database) (rows : List ErrorPageUpdate) :
    Except ServiceError Database := do
  checkErrorPages db rows
  commit (db.setErrorPages rows) true

theorem replaceErrorPages_ok {rows : List ErrorPageUpdate}
    (done : replaceErrorPages db rows = .ok db') :
    db' = db.setErrorPages rows ∧ db'.Constraints := by
  obtain ⟨_, _, done⟩ := bind_eq_ok done
  exact commit_eq_ok done

end MegooPM
