import MegooPM.Data.Enums
import MegooPM.Lib.Text
import Mathlib.Data.List.Nodup
import Mathlib.Tactic.MkIffOfInductiveProp

/-!
# Database content

The rows the nginx configuration is built from, with the columns its readers use.
A relationship that cascades (backends of a pool, locations of a host, users and
rules of an access list) is kept inside its parent row; the other references are
ids, resolved against their table. `Database.Constraints` states the primary key,
unique, check and foreign key constraints of the models.
-/
namespace MegooPM

/-- Surrogate keys: `BigInteger` columns. -/
abbrev Id := Int

/-- An aware UTC timestamp, as the driver returns a `timestamptz` column. -/
structure DateTime where
  year : Fin 10000
  month : Fin 13
  day : Fin 32
  hour : Fin 24
  minute : Fin 60
  second : Fin 60
  microsecond : Fin 1000000
  deriving DecidableEq, Repr

/-- Midnight of the first of January. -/
def newYear (year : Fin 10000) : DateTime :=
  { year := year, month := ⟨1, by decide⟩, day := ⟨1, by decide⟩, hour := ⟨0, by decide⟩,
    minute := ⟨0, by decide⟩, second := ⟨0, by decide⟩, microsecond := ⟨0, by decide⟩ }

/-- `n` in decimal, zero-padded to `width` digits. -/
def padDigits : Nat → Nat → List Char
  | 0, _ => []
  | width + 1, n => padDigits width (n / 10) ++ [Nat.digitChar (n % 10)]

/-- `datetime.isoformat()`. -/
def DateTime.isoformat (t : DateTime) : String :=
  String.ofList (padDigits 4 t.year ++ '-' :: padDigits 2 t.month ++ '-' :: padDigits 2 t.day ++
    'T' :: padDigits 2 t.hour ++ ':' :: padDigits 2 t.minute ++ ':' :: padDigits 2 t.second ++
    (if t.microsecond = 0 then [] else '.' :: padDigits 6 t.microsecond) ++
    ['+', '0', '0', ':', '0', '0'])

structure UpstreamBackend where
  id : Id
  host : String
  port : Nat
  weight : Nat := 1
  maxFails : Nat := 1
  failTimeoutSeconds : Nat := 10
  backup : Bool := false
  down : Bool := false
  enabled : Bool := true
  deriving DecidableEq, Repr

/-- A named pool of backend servers with a load-balancing policy. -/
structure Upstream where
  id : Id
  name : String
  lbMethod : LoadBalanceMethod := .roundRobin
  context : UpstreamContext := .http
  enabled : Bool := true
  backends : List UpstreamBackend := []
  deriving DecidableEq, Repr

/-- The keys of a certificate's `meta` column that the program reads or writes. -/
structure CertificateMeta where
  challenge : Option String := none
  accountEmail : Option String := none
  dnsCredentialId : Option Id := none
  dnsProvider : Option String := none
  uploadedAt : Option String := none
  issuedAt : Option String := none
  lastError : Option String := none
  failedAt : Option String := none
  deriving DecidableEq, Repr

structure Certificate where
  id : Id
  name : String
  provider : CertificateProvider
  status : CertificateStatus := .pending
  domainNames : List String := []
  expiresOn : Option DateTime := none
  «meta» : CertificateMeta := {}
  deriving DecidableEq, Repr

structure AccessListAuth where
  id : Id
  username : String
  passwordHash : String
  deriving DecidableEq, Repr

structure AccessListClient where
  id : Id
  address : String
  directive : AccessListDirective
  deriving DecidableEq, Repr

structure AccessList where
  id : Id
  name : String
  satisfyAny : Bool := false
  passAuth : Bool := false
  authUsers : List AccessListAuth := []
  clientRules : List AccessListClient := []
  deriving DecidableEq, Repr

structure CustomPage where
  id : Id
  name : String
  description : String := ""
  html : String := ""
  deriving DecidableEq, Repr

/-- One `location <path>` block of a proxy host. -/
structure ProxyHostLocation where
  id : Id
  path : String
  target : LocationTarget := .pool
  customPageId : Option Id := none
  errorCode : Option Int := none
  upstreamId : Option Id := none
  forwardHost : Option String := none
  forwardPort : Option Nat := none
  forwardScheme : HttpScheme := .http
  deriving DecidableEq, Repr

structure ProxyHost where
  id : Id
  domainNames : List String := []
  upstreamId : Option Id := none
  forwardHost : Option String := none
  forwardPort : Option Nat := none
  forwardScheme : HttpScheme := .http
  certificateId : Option Id := none
  accessListId : Option Id := none
  sslForced : Bool := false
  http2Support : Bool := false
  hstsEnabled : Bool := false
  hstsSubdomains : Bool := false
  cachingEnabled : Bool := false
  blockExploits : Bool := false
  allowWebsocketUpgrade : Bool := false
  crowdsecEnabled : Bool := false
  crowdsecAppsecEnabled : Bool := false
  maintenanceEnabled : Bool := false
  maintenanceAllow : List String := []
  advancedConfig : String := ""
  enabled : Bool := true
  locations : List ProxyHostLocation := []
  deriving DecidableEq, Repr

structure RedirectionHost where
  id : Id
  domainNames : List String := []
  forwardScheme : RedirectScheme := .auto
  forwardDomainName : String
  forwardHttpCode : Nat := 302
  preservePath : Bool := true
  certificateId : Option Id := none
  sslForced : Bool := false
  http2Support : Bool := false
  hstsEnabled : Bool := false
  hstsSubdomains : Bool := false
  blockExploits : Bool := false
  crowdsecEnabled : Bool := true
  advancedConfig : String := ""
  enabled : Bool := true
  deriving DecidableEq, Repr

structure DeadHost where
  id : Id
  domainNames : List String := []
  certificateId : Option Id := none
  sslForced : Bool := false
  http2Support : Bool := false
  hstsEnabled : Bool := false
  hstsSubdomains : Bool := false
  crowdsecEnabled : Bool := true
  advancedConfig : String := ""
  enabled : Bool := true
  deriving DecidableEq, Repr

structure Stream where
  id : Id
  incomingPort : Nat
  forwardHost : Option String := none
  forwardPort : Option Nat := none
  upstreamId : Option Id := none
  tcpForwarding : Bool := true
  udpForwarding : Bool := false
  certificateId : Option Id := none
  enabled : Bool := true
  deriving DecidableEq, Repr

/-- The columns of the settings row (`id = 1`) that are rendered. -/
structure InstanceSettings where
  defaultSiteMode : DefaultSiteMode := .notFound
  defaultSiteRedirectUrl : Option String := none
  defaultSitePageId : Option Id := none
  crowdsecBanMode : CrowdSecBanMode := .megoopm
  crowdsecBanPageId : Option Id := none
  maintenanceMode : MaintenancePageMode := .megoopm
  maintenancePageId : Option Id := none
  maintenanceRetryAfterMinutes : Int := 60
  deriving DecidableEq, Repr

/-- What one status code is answered with; the code is the primary key. -/
structure ErrorPage where
  code : Int
  mode : ErrorPageMode
  customPageId : Option Id := none
  deriving DecidableEq, Repr

structure Database where
  proxyHosts : List ProxyHost := []
  upstreams : List Upstream := []
  certificates : List Certificate := []
  accessLists : List AccessList := []
  customPages : List CustomPage := []
  redirectionHosts : List RedirectionHost := []
  deadHosts : List DeadHost := []
  streams : List Stream := []
  instanceSettings : Option InstanceSettings := none
  errorPages : List ErrorPage := []
  deriving DecidableEq, Repr

/-! ### Reading a table by primary key -/

namespace Database

def upstream? (db : Database) (id : Id) : Option Upstream :=
  db.upstreams.find? (·.id = id)

def certificate? (db : Database) (id : Id) : Option Certificate :=
  db.certificates.find? (·.id = id)

def accessList? (db : Database) (id : Id) : Option AccessList :=
  db.accessLists.find? (·.id = id)

def customPage? (db : Database) (id : Id) : Option CustomPage :=
  db.customPages.find? (·.id = id)

end Database

/-! ### Constraints -/

/-- Exactly one of a pool and a literal backend (`host_target_exactly_one`,
`stream_target_exactly_one`). -/
def targetExactlyOne (forwardHost : Option String) (forwardPort : Option Nat)
    (upstreamId : Option Id) : Bool :=
  (forwardHost.isSome && forwardPort.isSome && upstreamId.isNone) ||
    (forwardHost.isNone && forwardPort.isNone && upstreamId.isSome)

/-- `forward_port IS NULL OR forward_port BETWEEN 1 AND 65535`. -/
def forwardPortRange (port : Option Nat) : Bool :=
  match port with
  | none => true
  | some p => 1 ≤ p && p ≤ 65535

def UpstreamBackend.check (b : UpstreamBackend) : Bool :=
  1 ≤ b.port && b.port ≤ 65535

/-- `location_target_exactly_one` and `forward_port_range`. -/
def ProxyHostLocation.check (l : ProxyHostLocation) : Bool :=
  forwardPortRange l.forwardPort &&
  match l.target with
  | .pool => l.upstreamId.isSome && l.forwardHost.isNone && l.forwardPort.isNone &&
      l.customPageId.isNone && l.errorCode.isNone
  | .host => l.upstreamId.isNone && l.forwardHost.isSome && l.forwardPort.isSome &&
      l.customPageId.isNone && l.errorCode.isNone
  | .defaultSite => l.upstreamId.isNone && l.forwardHost.isNone && l.forwardPort.isNone &&
      l.customPageId.isNone && l.errorCode.isNone
  | .customPage => l.upstreamId.isNone && l.forwardHost.isNone && l.forwardPort.isNone &&
      l.customPageId.isSome && l.errorCode.isNone
  | .errorPage => l.upstreamId.isNone && l.forwardHost.isNone && l.forwardPort.isNone &&
      l.customPageId.isNone && l.errorCode.isSome

def ProxyHost.check (h : ProxyHost) : Bool :=
  forwardPortRange h.forwardPort && targetExactlyOne h.forwardHost h.forwardPort h.upstreamId

def RedirectionHost.check (h : RedirectionHost) : Bool :=
  300 ≤ h.forwardHttpCode && h.forwardHttpCode ≤ 308

def Stream.check (s : Stream) : Bool :=
  (1 ≤ s.incomingPort && s.incomingPort ≤ 65535) && forwardPortRange s.forwardPort &&
    targetExactlyOne s.forwardHost s.forwardPort s.upstreamId &&
    (s.tcpForwarding || s.udpForwarding)

def InstanceSettings.check (s : InstanceSettings) : Bool :=
  (s.defaultSiteMode ≠ .redirect || s.defaultSiteRedirectUrl.isSome) &&
    (s.defaultSiteMode ≠ .customPage || s.defaultSitePageId.isSome)

def ErrorPage.check (e : ErrorPage) : Bool :=
  match e.mode with
  | .customPage => e.customPageId.isSome
  | .default => e.customPageId.isNone

/-- A nullable foreign key: null, or the id of a row of the table. -/
def references {α : Type} (ref : Option Id) (id : α → Id) (table : List α) : Bool :=
  match ref with
  | none => true
  | some i => table.any fun row => id row = i

/-- What the database guarantees of its content. -/
@[mk_iff]
structure Database.Constraints (db : Database) : Prop where
  -- primary keys
  proxyHostIds : (db.proxyHosts.map (·.id)).Nodup
  locationIds : (db.proxyHosts.flatMap fun h => h.locations.map (·.id)).Nodup
  upstreamIds : (db.upstreams.map (·.id)).Nodup
  backendIds : (db.upstreams.flatMap fun u => u.backends.map (·.id)).Nodup
  certificateIds : (db.certificates.map (·.id)).Nodup
  accessListIds : (db.accessLists.map (·.id)).Nodup
  authUserIds : (db.accessLists.flatMap fun a => a.authUsers.map (·.id)).Nodup
  clientRuleIds : (db.accessLists.flatMap fun a => a.clientRules.map (·.id)).Nodup
  customPageIds : (db.customPages.map (·.id)).Nodup
  redirectionHostIds : (db.redirectionHosts.map (·.id)).Nodup
  deadHostIds : (db.deadHosts.map (·.id)).Nodup
  streamIds : (db.streams.map (·.id)).Nodup
  errorPageCodes : (db.errorPages.map (·.code)).Nodup
  -- unique constraints
  locationPaths : ∀ h ∈ db.proxyHosts, (h.locations.map (·.path)).Nodup
  backendAddresses : ∀ u ∈ db.upstreams, (u.backends.map fun b => (b.host, b.port)).Nodup
  usernames : ∀ a ∈ db.accessLists, (a.authUsers.map (·.username)).Nodup
  pageNames : (db.customPages.map (·.name)).Nodup
  incomingPorts : (db.streams.map (·.incomingPort)).Nodup
  -- check constraints
  proxyHostChecks : ∀ h ∈ db.proxyHosts, h.check = true
  locationChecks : ∀ h ∈ db.proxyHosts, ∀ l ∈ h.locations, l.check = true
  backendChecks : ∀ u ∈ db.upstreams, ∀ b ∈ u.backends, b.check = true
  redirectionHostChecks : ∀ h ∈ db.redirectionHosts, h.check = true
  streamChecks : ∀ s ∈ db.streams, s.check = true
  settingsCheck : ∀ s ∈ db.instanceSettings, s.check = true
  errorPageChecks : ∀ e ∈ db.errorPages, e.check = true
  -- foreign keys
  hostPools : ∀ h ∈ db.proxyHosts, references h.upstreamId Upstream.id db.upstreams = true
  hostCertificates : ∀ h ∈ db.proxyHosts,
    references h.certificateId Certificate.id db.certificates = true
  hostAccessLists : ∀ h ∈ db.proxyHosts,
    references h.accessListId AccessList.id db.accessLists = true
  locationPools : ∀ h ∈ db.proxyHosts, ∀ l ∈ h.locations,
    references l.upstreamId Upstream.id db.upstreams = true
  locationPages : ∀ h ∈ db.proxyHosts, ∀ l ∈ h.locations,
    references l.customPageId CustomPage.id db.customPages = true
  redirectionCertificates : ∀ h ∈ db.redirectionHosts,
    references h.certificateId Certificate.id db.certificates = true
  deadCertificates : ∀ h ∈ db.deadHosts,
    references h.certificateId Certificate.id db.certificates = true
  streamPools : ∀ s ∈ db.streams, references s.upstreamId Upstream.id db.upstreams = true
  streamCertificates : ∀ s ∈ db.streams,
    references s.certificateId Certificate.id db.certificates = true
  settingsPages : ∀ s ∈ db.instanceSettings,
    references s.defaultSitePageId CustomPage.id db.customPages = true ∧
    references s.crowdsecBanPageId CustomPage.id db.customPages = true ∧
    references s.maintenancePageId CustomPage.id db.customPages = true
  errorPagePages : ∀ e ∈ db.errorPages,
    references e.customPageId CustomPage.id db.customPages = true

set_option synthInstance.maxSize 512 in
instance (db : Database) : Decidable db.Constraints :=
  decidable_of_iff' _ (Database.constraints_iff db)

end MegooPM
