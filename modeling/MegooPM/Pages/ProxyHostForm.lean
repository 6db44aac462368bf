import MegooPM.Lib.Numerals
import MegooPM.Api.Schemas
import MegooPM.Pages.AccessListSaves
import Mathlib

/-!
# The proxy-host form

`components/proxy-hosts/lib.ts`: the dialog turns a stored host into a flat state of texts,
and the state into the request that saves it. A host that was only opened is saved as it is
stored when `trim` takes nothing from its forward hosts and from the paths of its locations.
-/
namespace MegooPM

open Lib

/-! ### The schema -/

/-- `ProxyHostLocationIn`. -/
structure ProxyHostLocationIn where
  path : String
  target : Option LocationTarget := none
  upstreamId : Option Id := none
  forwardHost : Option String := none
  forwardPort : Option Nat := none
  forwardScheme : HttpScheme := .http
  customPageId : Option Id := none
  errorCode : Option Int := none
  deriving DecidableEq, Repr

/-- The writable fields of a host (`ProxyHostBase`). -/
structure ProxyHostCreate where
  domainNames : List String
  upstreamId : Option Id := none
  forwardHost : Option String := none
  forwardPort : Option Nat := none
  forwardScheme : HttpScheme := .http
  certificateId : Option Id := none
  accessListId : Option Id := none
  sslForced : Bool := false
  http2Support : Bool := false
  hstsEnabled : Bool := false
  hstsSubdomains : Bool := false
  cachingEnabled : Bool := false
  blockExploits : Bool := false
  allowWebsocketUpgrade : Bool := false
  crowdsecEnabled : Bool := false
  crowdsecAppsecEnabled : Bool := false
  maintenanceEnabled : Bool := false
  maintenanceAllow : List String := []
  advancedConfig : String := ""
  enabled : Bool := true
  locations : List ProxyHostLocationIn := []
  deriving DecidableEq, Repr

namespace ProxyHostLocationIn

/-- The target of a payload that predates the field. -/
def inferTarget (l : ProxyHostLocationIn) : Except SchemaError LocationTarget :=
  let hasHost := l.forwardHost.isSome && l.forwardPort.isSome
  if hasHost = l.upstreamId.isSome then
    .error ⟨"Set either a forward host and port, or an upstream pool, or a target.", none⟩
  else .ok (if hasHost then .host else .pool)

/-- What a target asks of the other fields, in the order in which they are checked. -/
def checkTarget (l : ProxyHostLocationIn) (target : LocationTarget) : Except SchemaError Unit :=
  if target = .pool ∧ l.upstreamId = none then
    .error ⟨"A 'pool' location needs an upstream pool.", none⟩
  else if target = .host ∧ (l.forwardHost = none ∨ l.forwardPort = none) then
    .error ⟨"A 'host' location needs a forward host and port.", none⟩
  else if target = .customPage ∧ l.customPageId = none then
    .error ⟨"A 'custom_page' location needs a page.", none⟩
  else if target = .errorPage ∧ l.errorCode = none then
    .error ⟨"An 'error_page' location needs a status code.", none⟩
  else if target = .errorPage ∧ ∃ code ∈ l.errorCode, code ∉ errorCodes then
    .error ⟨toString (l.errorCode.getD 0) ++ " is not one of the codes MegooPM brands.", none⟩
  else if target ≠ .pool ∧ target ≠ .host ∧
      (l.upstreamId ≠ none ∨ l.forwardHost ≠ none ∨ l.forwardPort ≠ none) then
    .error ⟨"A location nginx answers itself takes no backend.", none⟩
  else if target ≠ .customPage ∧ l.customPageId ≠ none then
    .error ⟨"Only a 'custom_page' location takes a page.", none⟩
  else if target ≠ .errorPage ∧ l.errorCode ≠ none then
    .error ⟨"Only an 'error_page' location takes a status code.", none⟩
  else if target = .pool ∧ (l.forwardHost ≠ none ∨ l.forwardPort ≠ none) then
    .error ⟨"A 'pool' location takes no forward host or port.", none⟩
  else if target = .host ∧ l.upstreamId ≠ none then
    .error ⟨"A 'host' location takes no upstream pool.", none⟩
  else .ok ()

/-- `_coherent_target`. -/
def coherentTarget (l : ProxyHostLocationIn) : Except SchemaError ProxyHostLocationIn := do
  let target ← match l.target with
    | some target => .ok target
    | none => l.inferTarget
  l.checkTarget target
  return { l with target := some target }

end ProxyHostLocationIn

/-- `_require_exactly_one_target`. -/
def ProxyHostCreate.requireExactlyOneTarget (h : ProxyHostCreate) : Except SchemaError Unit :=
  if (h.forwardHost.isSome && h.forwardPort.isSome) = h.upstreamId.isSome then
    .error ⟨"Set either a forward host and port, or an upstream pool.", none⟩
  else .ok ()

/-- The rules on targets, the locations' first. -/
def ProxyHostCreate.coherentTargets (h : ProxyHostCreate) :
    Except SchemaError ProxyHostCreate := do
  let locations ← h.locations.mapM ProxyHostLocationIn.coherentTarget
  h.requireExactlyOneTarget
  return { h with locations }

/-! ### What the API returns -/

/-- The client's type lets nullable fields, and those with a default, be left out. -/
structure ProxyHostLocationRead where
  id : Id
  path : String
  target : Option LocationTarget
  upstreamId : Option Id
  forwardHost : Option String
  forwardPort : Option Nat
  forwardScheme : Option HttpScheme
  customPageId : Option Id
  errorCode : Option Int
  deriving DecidableEq, Repr

/-- `TOGGLE_KEYS` -/
inductive ToggleKey where
  | sslForced | http2Support | hstsEnabled | hstsSubdomains | cachingEnabled | blockExploits
  | allowWebsocketUpgrade | crowdsecEnabled | maintenanceEnabled
  deriving DecidableEq, Repr

structure ProxyHostRead where
  id : Id
  domainNames : List String
  upstreamId : Option Id
  forwardHost : Option String
  forwardPort : Option Nat
  forwardScheme : Option HttpScheme
  certificateId : Option Id
  accessListId : Option Id
  /-- the flags under the names the form has for them -/
  toggles : ToggleKey → Option Bool
  crowdsecAppsecEnabled : Option Bool
  maintenanceAllow : Option (List String)
  advancedConfig : Option String
  enabled : Option Bool
  locations : Option (List ProxyHostLocationRead)

def ProxyHostLocation.read (l : ProxyHostLocation) : ProxyHostLocationRead where
  id := l.id
  path := l.path
  target := some l.target
  upstreamId := l.upstreamId
  forwardHost := l.forwardHost
  forwardPort := l.forwardPort
  forwardScheme := some l.forwardScheme
  customPageId := l.customPageId
  errorCode := l.errorCode

namespace ProxyHost

def toggle (h : ProxyHost) : ToggleKey → Bool
  | .sslForced => h.sslForced
  | .http2Support => h.http2Support
  | .hstsEnabled => h.hstsEnabled
  | .hstsSubdomains => h.hstsSubdomains
  | .cachingEnabled => h.cachingEnabled
  | .blockExploits => h.blockExploits
  | .allowWebsocketUpgrade => h.allowWebsocketUpgrade
  | .crowdsecEnabled => h.crowdsecEnabled
  | .maintenanceEnabled => h.maintenanceEnabled

/-- A stored host, as the client holds it. -/
def read (h : ProxyHost) : ProxyHostRead where
  id := h.id
  domainNames := h.domainNames
  upstreamId := h.upstreamId
  forwardHost := h.forwardHost
  forwardPort := h.forwardPort
  forwardScheme := some h.forwardScheme
  certificateId := h.certificateId
  accessListId := h.accessListId
  toggles := fun key => some (h.toggle key)
  crowdsecAppsecEnabled := some h.crowdsecAppsecEnabled
  maintenanceAllow := some h.maintenanceAllow
  advancedConfig := some h.advancedConfig
  enabled := some h.enabled
  locations := some (h.locations.map ProxyHostLocation.read)

end ProxyHost

/-! ### The form -/

/-- What the root route forwards to. -/
inductive TargetMode where
  | host | pool
  deriving DecidableEq, Repr

structure LocationRow where
  key : String
  path : String
  targetMode : LocationTarget
  upstreamId : String
  forwardHost : String
  forwardPort : String
  scheme : HttpScheme
  customPageId : String
  errorCode : String
  deriving DecidableEq, Repr

structure ProxyHostFormState where
  domains : List String
  accessListId : String
  enabled : Bool
  rootTargetMode : TargetMode
  rootUpstreamId : String
  rootForwardHost : String
  rootForwardPort : String
  rootScheme : HttpScheme
  locations : List LocationRow
  certificateId : String
  toggles : ToggleKey → Bool
  maintenanceAllow : List String
  advancedConfig : String

/-- Sentinel values of the selects for nothing attached. -/
def noAccessList := "none"
def noCertificate := "none"

/-- `id ? String(id) : sentinel` -/
def attachedText (sentinel : String) : Option Id → String
  | some i => if i = 0 then sentinel else toString i
  | none => sentinel

/-- `value != null ? String(value) : ""` -/
def presentText {α : Type} [ToString α] : Option α → String
  | some value => toString value
  | none => ""

/-- A port string as a number, or nothing when it is not a valid port. -/
def parsePort (input : String) : Option Nat :=
  (parseInt (trim input)).bind fun n => if 1 ≤ n ∧ n ≤ 65535 then some n.toNat else none

/-- The row of a stored location. -/
def locationRow (l : ProxyHostLocationRead) : LocationRow where
  key := "loc-" ++ toString l.id
  path := l.path
  targetMode := l.target.getD (if l.upstreamId ≠ none then .pool else .host)
  upstreamId := presentText l.upstreamId
  forwardHost := l.forwardHost.getD ""
  forwardPort := presentText l.forwardPort
  scheme := l.forwardScheme.getD .http
  customPageId := presentText l.customPageId
  errorCode := presentText l.errorCode

def stateFromHost (host : Option ProxyHostRead) (hasPools : Bool := true) : ProxyHostFormState :=
  match host with
  | none => {
      domains := []
      accessListId := noAccessList
      enabled := true
      -- without pools, a new host opens on the backend that needs none
      rootTargetMode := if hasPools then .pool else .host
      rootUpstreamId := ""
      rootForwardHost := ""
      rootForwardPort := ""
      rootScheme := .http
      locations := []
      certificateId := noCertificate
      toggles := fun _ => false
      maintenanceAllow := []
      advancedConfig := "" }
  | some host => {
      domains := host.domainNames
      accessListId := attachedText noAccessList host.accessListId
      enabled := host.enabled.getD true
      rootTargetMode := if host.upstreamId ≠ none then .pool else .host
      rootUpstreamId := presentText host.upstreamId
      rootForwardHost := host.forwardHost.getD ""
      rootForwardPort := presentText host.forwardPort
      rootScheme := host.forwardScheme.getD .http
      locations := (host.locations.getD []).map locationRow
      certificateId := attachedText noCertificate host.certificateId
      toggles := fun key => (host.toggles key).getD false
      maintenanceAllow := host.maintenanceAllow.getD []
      advancedConfig := host.advancedConfig.getD "" }

/-- `NaN` becomes `null` in the body of the request, as a missing value does. -/
def idOrNull (value sentinel : String) : Option Id :=
  if value = sentinel then none else parseInt value

def locationPayload (row : LocationRow) : ProxyHostLocationIn :=
  let pooled := row.targetMode = .pool
  let proxied := pooled ∨ row.targetMode = .host
  { path := trim row.path
    target := some row.targetMode
    upstreamId := if pooled then parseInt row.upstreamId else none
    -- an answered location takes no backend at all
    forwardHost := if proxied ∧ ¬pooled then some (trim row.forwardHost) else none
    forwardPort := if proxied ∧ ¬pooled then parsePort row.forwardPort else none
    forwardScheme := row.scheme
    customPageId := if row.targetMode = .customPage then parseInt row.customPageId else none
    errorCode := if row.targetMode = .errorPage then parseInt row.errorCode else none }

def buildPayload (form : ProxyHostFormState) (host : Option ProxyHostRead) : ProxyHostCreate :=
  let rootPool := form.rootTargetMode = .pool
  { domainNames := form.domains
    upstreamId := if rootPool then parseInt form.rootUpstreamId else none
    forwardHost := if rootPool then none else some (trim form.rootForwardHost)
    forwardPort := if rootPool then none else parsePort form.rootForwardPort
    forwardScheme := form.rootScheme
    certificateId := idOrNull form.certificateId noCertificate
    accessListId := idOrNull form.accessListId noAccessList
    enabled := form.enabled
    maintenanceAllow := form.maintenanceAllow
    advancedConfig := form.advancedConfig
    sslForced := form.toggles .sslForced
    http2Support := form.toggles .http2Support
    hstsEnabled := form.toggles .hstsEnabled
    hstsSubdomains := form.toggles .hstsSubdomains
    cachingEnabled := form.toggles .cachingEnabled
    blockExploits := form.toggles .blockExploits
    allowWebsocketUpgrade := form.toggles .allowWebsocketUpgrade
    crowdsecEnabled := form.toggles .crowdsecEnabled
    maintenanceEnabled := form.toggles .maintenanceEnabled
    locations := form.locations.map locationPayload
    -- no control of the form: the stored flag passes through
    crowdsecAppsecEnabled := (host.bind (·.crowdsecAppsecEnabled)).getD false }

/-! ### Saving a form that was only opened -/

/-- The writable fields of a stored location. -/
def ProxyHostLocation.writable (l : ProxyHostLocation) : ProxyHostLocationIn where
  path := l.path
  target := some l.target
  upstreamId := l.upstreamId
  forwardHost := l.forwardHost
  forwardPort := l.forwardPort
  forwardScheme := l.forwardScheme
  customPageId := l.customPageId
  errorCode := l.errorCode

/-- The writable fields of a stored host. -/
def ProxyHost.writable (h : ProxyHost) : ProxyHostCreate where
  domainNames := h.domainNames
  upstreamId := h.upstreamId
  forwardHost := h.forwardHost
  forwardPort := h.forwardPort
  forwardScheme := h.forwardScheme
  certificateId := h.certificateId
  accessListId := h.accessListId
  sslForced := h.sslForced
  http2Support := h.http2Support
  hstsEnabled := h.hstsEnabled
  hstsSubdomains := h.hstsSubdomains
  cachingEnabled := h.cachingEnabled
  blockExploits := h.blockExploits
  allowWebsocketUpgrade := h.allowWebsocketUpgrade
  crowdsecEnabled := h.crowdsecEnabled
  crowdsecAppsecEnabled := h.crowdsecAppsecEnabled
  maintenanceEnabled := h.maintenanceEnabled
  maintenanceAllow := h.maintenanceAllow
  advancedConfig := h.advancedConfig
  enabled := h.enabled
  locations := h.locations.map ProxyHostLocation.writable

/-- A host that the API can return: its rows keep the constraints of their tables, the paths
and status codes pass the validators on the way out, and ids are counted from 1. -/
structure ProxyHost.Returned (h : ProxyHost) : Prop where
  stored : h.check = true
  rows : ∀ l ∈ h.locations, l.check = true
  paths : ∀ l ∈ h.locations, ∃ raw, validateLocationPath raw = .ok l.path
  codes : ∀ l ∈ h.locations, ∀ code, l.errorCode = some code → code ∈ errorCodes
  certificate : h.certificateId ≠ some 0
  accessList : h.accessListId ≠ some 0

/-- What the dialog sends for a host that it opened and did not edit. -/
def untouchedPayload (h : ProxyHost) (hasPools : Bool) : ProxyHostCreate :=
  buildPayload (stateFromHost (some h.read) hasPools) (some h.read)

/-- The untouched save is accepted and writes what is stored. -/
def SavedUnchanged (h : ProxyHost) (hasPools : Bool) : Prop :=
  untouchedPayload h hasPools = h.writable ∧
    (untouchedPayload h hasPools).coherentTargets = .ok h.writable

/-- The text loses nothing to `trim`. -/
def Unpadded (text : Option String) : Prop :=
  ∀ host, text = some host → trim host = host

/-! ### Values through their texts -/

theorem idOrNull_attachedText {id : Option Id} (counted : id ≠ some 0) :
    idOrNull (attachedText "none" id) "none" = id := by
  cases id with
  | none => rfl
  | some i =>
    have positive : i ≠ 0 := fun zero => counted (congrArg some zero)
    have text : toString i ≠ "none" := by
      intro same
      have read := parseInt_toString i
      have unread : parseInt "none" = none := by decide +kernel
      rw [same, unread] at read
      cases read
    rw [attachedText, if_neg positive, idOrNull, if_neg text, parseInt_toString]

theorem parseInt_presentText (i : Int) : parseInt (presentText (some i)) = some i :=
  parseInt_toString i

theorem parsePort_presentText {port : Nat} (range : forwardPortRange (some port) = true) :
    parsePort (presentText (some port)) = some port := by
  have bounds : 1 ≤ port ∧ port ≤ 65535 := by simpa [forwardPortRange] using range
  have printed : trim (presentText (some port)) = toString port := trim_nat port
  rw [parsePort, printed, parseInt_nat, Option.bind_some, if_pos (by omega), Int.toNat_natCast]

/-- White space for the form is white space for the API, the byte order mark apart. -/
theorem isSpace_of_isJsSpace {c : Char} (space : isJsSpace c = true) (other : c ≠ '\ufeff') :
    isSpace c = true := by
  have value : c.toNat ≠ 0xfeff := fun same => other (Char.toNat_inj.mp same)
  simp only [isJsSpace, List.any_cons, List.any_nil, Bool.or_false, Bool.or_eq_true,
    decide_eq_true_eq] at space
  simp only [isSpace, List.any_cons, List.any_nil, Bool.or_false, Bool.or_eq_true,
    decide_eq_true_eq]
  omega

/-- What the validator of paths lets through. -/
private theorem path_of_valid {raw path : String} (valid : validateLocationPath raw = .ok path) :
    startsWith path "/" = true ∧ ∀ c ∈ path.toList, isSpace c = false := by
  simp only [validateLocationPath] at valid
  split at valid
  next => cases valid
  next starts =>
    split at valid
    next => cases valid
    next =>
      split at valid
      next => cases valid
      next clean =>
        split at valid
        next => cases valid
        next =>
          cases valid
          refine ⟨by simpa using starts, fun c member => Bool.eq_false_iff.mpr fun space => ?_⟩
          exact clean (List.any_eq_true.mpr ⟨c, member, by simp [space]⟩)

/-- The form keeps a path that the API let through unless it ends in a byte order mark. -/
theorem trim_path_iff {raw path : String} (valid : validateLocationPath raw = .ok path) :
    trim path = path ↔ path.toList.getLast? ≠ some '\ufeff' := by
  obtain ⟨starts, clean⟩ := path_of_valid valid
  constructor
  · intro same last
    rw [← same, toList_trim] at last
    exact absurd (trimBy_last last) (by decide)
  · intro last
    rw [← String.toList_inj, toList_trim]
    refine trimBy_eq_self (fun c head => Bool.eq_false_iff.mpr fun space => ?_)
      fun c final => Bool.eq_false_iff.mpr fun space => ?_
    · have member := List.mem_of_head? head
      have slash : c ≠ '\ufeff' := by
        rintro rfl
        obtain ⟨rest, whole⟩ := List.isPrefixOf_iff_prefix.mp starts
        rw [← whole] at head
        cases head
      exact absurd (isSpace_of_isJsSpace space slash) (by simp [clean c member])
    · have mark : c ≠ '\ufeff' := fun same => last (same ▸ final)
      exact absurd (isSpace_of_isJsSpace space mark) (by simp [clean c (List.mem_of_getLast? final)])

/-! ### One location -/

/-- The five kinds of rows that the constraint of the table lets in. -/
inductive LocationShape : ProxyHostLocation → Prop where
  | pool (id : Id) (path : String) (upstream : Id) (scheme : HttpScheme) :
      LocationShape
        { id, path, target := .pool, upstreamId := some upstream, forwardScheme := scheme }
  | host (id : Id) (path : String) (forward : String) (port : Nat) (scheme : HttpScheme)
      (range : forwardPortRange (some port) = true) :
      LocationShape
        { id, path, target := .host, forwardHost := some forward, forwardPort := some port
          forwardScheme := scheme }
  | defaultSite (id : Id) (path : String) (scheme : HttpScheme) :
      LocationShape { id, path, target := .defaultSite, forwardScheme := scheme }
  | customPage (id : Id) (path : String) (page : Id) (scheme : HttpScheme) :
      LocationShape
        { id, path, target := .customPage, customPageId := some page, forwardScheme := scheme }
  | errorPage (id : Id) (path : String) (code : Int) (scheme : HttpScheme) :
      LocationShape
        { id, path, target := .errorPage, errorCode := some code, forwardScheme := scheme }

theorem shape_of_check {l : ProxyHostLocation} (checked : l.check = true) : LocationShape l := by
  obtain ⟨id, path, target, page, code, pool, host, port, scheme⟩ := l
  simp only [ProxyHostLocation.check, Bool.and_eq_true] at checked
  obtain ⟨range, shape⟩ := checked
  cases target <;> simp only [Bool.and_eq_true, Option.isNone_iff_eq_none] at shape
  case pool =>
    obtain ⟨⟨⟨⟨some_, rfl⟩, rfl⟩, rfl⟩, rfl⟩ := shape
    obtain ⟨i, rfl⟩ := Option.isSome_iff_exists.mp some_
    exact .pool ..
  case host =>
    obtain ⟨⟨⟨⟨rfl, some_⟩, port_⟩, rfl⟩, rfl⟩ := shape
    obtain ⟨text, rfl⟩ := Option.isSome_iff_exists.mp some_
    obtain ⟨p, rfl⟩ := Option.isSome_iff_exists.mp port_
    exact .host _ _ _ _ _ range
  case defaultSite =>
    obtain ⟨⟨⟨⟨rfl, rfl⟩, rfl⟩, rfl⟩, rfl⟩ := shape
    exact .defaultSite ..
  case customPage =>
    obtain ⟨⟨⟨⟨rfl, rfl⟩, rfl⟩, some_⟩, rfl⟩ := shape
    obtain ⟨i, rfl⟩ := Option.isSome_iff_exists.mp some_
    exact .customPage ..
  case errorPage =>
    obtain ⟨⟨⟨⟨rfl, rfl⟩, rfl⟩, rfl⟩, some_⟩ := shape
    obtain ⟨i, rfl⟩ := Option.isSome_iff_exists.mp some_
    exact .errorPage ..

/-- A stored location comes back when `trim` changes neither its path nor its host. -/
theorem locationPayload_iff {l : ProxyHostLocation} (checked : l.check = true) :
    locationPayload (locationRow l.read) = l.writable ↔
      trim l.path = l.path ∧ Unpadded l.forwardHost := by
  cases shape_of_check checked with
  | host id path forward port scheme range =>
    simp [locationPayload, locationRow, ProxyHostLocation.read, ProxyHostLocation.writable,
      parsePort_presentText range, Unpadded]
  | pool | customPage | errorPage =>
    simp [locationPayload, locationRow, ProxyHostLocation.read, ProxyHostLocation.writable,
      parseInt_presentText, Unpadded]
  | defaultSite =>
    simp [locationPayload, locationRow, ProxyHostLocation.read, ProxyHostLocation.writable,
      Unpadded]

/-- The constraint of the table and a known status code are what the API asks of a target. -/
theorem coherentTarget_writable {l : ProxyHostLocation} (checked : l.check = true)
    (known : ∀ code, l.errorCode = some code → code ∈ errorCodes) :
    l.writable.coherentTarget = .ok l.writable := by
  have passes : l.writable.checkTarget l.target = .ok () := by
    cases shape_of_check checked with
    | errorPage id path code scheme =>
      simp [ProxyHostLocationIn.checkTarget, ProxyHostLocation.writable, known code rfl]
    | pool | host | defaultSite | customPage =>
      simp [ProxyHostLocationIn.checkTarget, ProxyHostLocation.writable]
  have checkedTarget : l.writable.coherentTarget =
      (l.writable.checkTarget l.target).bind fun _ => .ok l.writable := rfl
  rw [checkedTarget, passes]
  rfl

/-! ### The host -/

/-- The rules on targets accept what is stored, and change nothing of it. -/
theorem coherentTargets_writable {h : ProxyHost} (returned : h.Returned) :
    h.writable.coherentTargets = .ok h.writable := by
  have locations : h.writable.locations.mapM ProxyHostLocationIn.coherentTarget =
      .ok h.writable.locations := by
    have each : (h.locations.map ProxyHostLocation.writable).mapM
        ProxyHostLocationIn.coherentTarget = .ok (h.locations.map ProxyHostLocation.writable) := by
      rw [List.mapM_map]
      exact mapM_eq_ok fun l member =>
        coherentTarget_writable (returned.rows l member) (returned.codes l member)
    exact each
  have one : h.writable.requireExactlyOneTarget = .ok () := by
    have stored := returned.stored
    simp only [ProxyHost.check, targetExactlyOne, Bool.and_eq_true, Bool.or_eq_true,
      Option.isNone_iff_eq_none, Option.isSome_iff_exists] at stored
    have exclusive : (h.forwardHost.isSome && h.forwardPort.isSome) ≠ h.upstreamId.isSome := by
      rcases stored.2 with ⟨⟨⟨host, isHost⟩, port, isPort⟩, noPool⟩ | ⟨⟨noHost, noPort⟩, i, pool⟩
      · simp [isHost, isPort, noPool]
      · simp [noHost, noPort, pool]
    exact if_neg exclusive
  rw [ProxyHostCreate.coherentTargets, locations]
  show h.writable.requireExactlyOneTarget.bind (fun _ => .ok h.writable) = _
  rw [one]
  rfl

/-- A stored host comes back when `trim` changes none of its forward hosts and paths. -/
theorem untouchedPayload_iff {h : ProxyHost} (returned : h.Returned) (hasPools : Bool) :
    untouchedPayload h hasPools = h.writable ↔
      Unpadded h.forwardHost ∧
        ∀ l ∈ h.locations, trim l.path = l.path ∧ Unpadded l.forwardHost := by
  have rows : (h.locations.map (locationPayload ∘ locationRow ∘ ProxyHostLocation.read) =
      h.locations.map ProxyHostLocation.writable) ↔
      ∀ l ∈ h.locations, trim l.path = l.path ∧ Unpadded l.forwardHost := by
    rw [List.map_inj_left]
    exact forall₂_congr fun l member => locationPayload_iff (returned.rows l member)
  have certificate : idOrNull (attachedText noCertificate h.certificateId) noCertificate =
      h.certificateId := idOrNull_attachedText returned.certificate
  have accessList : idOrNull (attachedText noAccessList h.accessListId) noAccessList =
      h.accessListId := idOrNull_attachedText returned.accessList
  have stored := returned.stored
  simp only [ProxyHost.check, targetExactlyOne, Bool.and_eq_true, Bool.or_eq_true,
    Option.isNone_iff_eq_none, Option.isSome_iff_exists] at stored
  obtain ⟨range, ⟨⟨⟨host, isHost⟩, port, isPort⟩, noPool⟩ | ⟨⟨noHost, noPort⟩, i, pool⟩⟩ := stored
  · rw [isPort] at range
    simp [untouchedPayload, buildPayload, stateFromHost, ProxyHost.read, ProxyHost.writable,
      ProxyHost.toggle, certificate, accessList, isHost, isPort, noPool,
      parsePort_presentText range, rows, Unpadded]
  · simp [untouchedPayload, buildPayload, stateFromHost, ProxyHost.read, ProxyHost.writable,
      ProxyHost.toggle, certificate, accessList, noHost, noPort, pool,
      parseInt_presentText, rows, Unpadded]

/-- A host that is opened and saved stays as it is exactly when its forward hosts are not padded
and no path ends in a byte order mark. -/
theorem savedUnchanged_iff {h : ProxyHost} (returned : h.Returned) (hasPools : Bool) :
    SavedUnchanged h hasPools ↔
      Unpadded h.forwardHost ∧
        ∀ l ∈ h.locations, Unpadded l.forwardHost ∧ l.path.toList.getLast? ≠ some '\ufeff' := by
  have paths : ∀ l ∈ h.locations,
      (trim l.path = l.path ↔ l.path.toList.getLast? ≠ some '\ufeff') := by
    intro l member
    obtain ⟨raw, valid⟩ := returned.paths l member
    exact trim_path_iff valid
  constructor
  · rintro ⟨same, -⟩
    obtain ⟨root, rows⟩ := (untouchedPayload_iff returned hasPools).mp same
    exact ⟨root, fun l member => ⟨(rows l member).2, (paths l member).mp (rows l member).1⟩⟩
  · rintro ⟨root, rows⟩
    have same : untouchedPayload h hasPools = h.writable :=
      (untouchedPayload_iff returned hasPools).mpr
        ⟨root, fun l member => ⟨(paths l member).mpr (rows l member).2, (rows l member).1⟩⟩
    exact ⟨same, same ▸ coherentTargets_writable returned⟩

/-- A host with a location of every kind. -/
def servedHost : ProxyHost where
  id := 7
  domainNames := ["app.example.com"]
  forwardHost := some "10.0.0.1"
  forwardPort := some 8080
  crowdsecAppsecEnabled := true
  locations := [{ id := 1, path := "/a", upstreamId := some 2, forwardScheme := .https },
    { id := 2, path := "/b", target := .host, forwardHost := some "web", forwardPort := some 80 },
    { id := 3, path := "/c", target := .defaultSite },
    { id := 4, path := "/d", target := .customPage, customPageId := some 3 },
    { id := 5, path := "/e", target := .errorPage, errorCode := some 503 }]

theorem savedUnchanged_served : SavedUnchanged servedHost true := by
  have returned : servedHost.Returned := by
    constructor
    · decide
    · decide
    · intro l member
      have valid : ∀ l ∈ servedHost.locations, validateLocationPath l.path = .ok l.path := by
        decide +kernel
      exact ⟨l.path, valid l member⟩
    · intro l member code given
      have known : ∀ l ∈ servedHost.locations, ∀ code ∈ l.errorCode, code ∈ errorCodes := by
        decide
      exact known l member code given
    · decide
    · decide
  refine (savedUnchanged_iff returned true).mpr ⟨?_, ?_⟩
  · rintro host ⟨⟩
    decide +kernel
  · have kept : ∀ l ∈ servedHost.locations, (∀ host ∈ l.forwardHost, trim host = host) ∧
        l.path.toList.getLast? ≠ some '\ufeff' := by
      decide +kernel
    exact kept

/-- A host with a location whose path ends in a byte order mark. -/
def markedHost : ProxyHost where
  id := 7
  domainNames := ["app.example.com"]
  upstreamId := some 2
  locations := [{ id := 1, path := "/api\ufeff", upstreamId := some 2 }]

/-- The API returns such a path, and the save of the untouched form cuts the mark off. -/
theorem savedUnchanged_marked :
    markedHost.Returned ∧ Unpadded markedHost.forwardHost ∧
      (∀ l ∈ markedHost.locations, Unpadded l.forwardHost) ∧
      (untouchedPayload markedHost true).locations.map (·.path) = ["/api"] ∧
      ¬SavedUnchanged markedHost true := by
  have cut : (untouchedPayload markedHost true).locations.map (·.path) = ["/api"] := by
    decide +kernel
  have stored : markedHost.writable.locations.map (·.path) ≠ ["/api"] := by
    decide +kernel
  refine ⟨⟨by decide, by decide, ?_, ?_, by decide, by decide⟩, ?_, ?_, cut, ?_⟩
  · intro l member
    have valid : ∀ l ∈ markedHost.locations, validateLocationPath l.path = .ok l.path := by
      decide +kernel
    exact ⟨l.path, valid l member⟩
  · intro l member code given
    rw [List.mem_singleton.mp member] at given
    cases given
  · intro host given
    cases given
  · intro l member host given
    rw [List.mem_singleton.mp member] at given
    cases given
  · rintro ⟨same, -⟩
    rw [same] at cut
    exact stored cut

end MegooPM
