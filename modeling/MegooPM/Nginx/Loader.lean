import MegooPM.Nginx.State

/-!
# Loader

`load_desired_state` (`services/nginx/loader.py`) and the TLS plan of
`services/nginx/default_tls.py`: the database read into a `DesiredState`. Only
enabled objects contribute, and an object whose pool has no usable backend is
skipped.
-/
namespace MegooPM

open Lib

/-- A `dict` was read at a key it does not hold. -/
structure KeyError where
  key : Id
  deriving DecidableEq, Repr

/-- `d[key]`. -/
def getItem {ν : Type} (d : Dict Id ν) (key : Id) : Except KeyError ν :=
  match d[key]? with
  | some v => .ok v
  | none => .error ⟨key⟩

/-- The row a nullable foreign key leads to. -/
def related {α : Type} (lookup : Id → Option α) (ref : Option Id) : Option α :=
  ref.bind lookup

/-! ### Row to spec -/

def certificateFingerprint (cfg : Deployment) (c : Certificate) : String :=
  let expires := match c.expiresOn with
    | some t => t.isoformat
    | none => ""
  cfg.digest (expires ++ "|" ++ c.meta.issuedAt.getD "")

def certificateSpec (cfg : Deployment) (c : Certificate) : CertificateSpec where
  id := c.id
  fullchainPath := cfg.nginxCertsDir ++ "/" ++ toString c.id ++ "/fullchain.pem"
  privkeyPath := cfg.nginxCertsDir ++ "/" ++ toString c.id ++ "/privkey.pem"
  fingerprint := certificateFingerprint cfg c

def accessListSpec (a : AccessList) : AccessListSpec where
  id := a.id
  name := a.name
  satisfyAny := a.satisfyAny
  passAuth := a.passAuth
  authUsers := (sortedBy (·.username) a.authUsers).map fun u =>
    { username := u.username, passwordHash := u.passwordHash }
  clientRules := (sortedBy (·.id) a.clientRules).map fun c =>
    { directive := c.directive, address := c.address }

def backendSpec (b : UpstreamBackend) : BackendSpec where
  host := b.host
  port := b.port
  weight := b.weight
  maxFails := b.maxFails
  failTimeoutSeconds := b.failTimeoutSeconds
  backup := b.backup
  down := b.down

def upstreamSpec (u : Upstream) : UpstreamSpec where
  id := u.id
  name := u.name
  lbMethod := u.lbMethod
  backends := ((sortedBy (·.id) u.backends).filter (·.enabled)).map backendSpec

/-! ### Pools met on the way -/

abbrev Pools := Dict Id UpstreamSpec

/-- The pool checks shared by hosts, locations and streams. The flag is false
where the source skips the object; the pool is remembered even when it turns out
to be empty. -/
def keepPool (pools : Pools) (pool : Option Upstream) : Pools × Bool :=
  match pool with
  | none => (pools, false)
  | some u =>
    if u.enabled then
      let pools := match pools[u.id]? with
        | some _ => pools
        | none => pools.insert u.id (upstreamSpec u)
      match pools[u.id]? with
      | some spec => (pools, !spec.backends.isEmpty)
      | none => (pools, false)
    else (pools, false)

/-- `tuple(pools[i] for i in sorted(set(refs)))`. -/
def referencedPools (pools : Pools) (refs : List Id) : Except KeyError (List UpstreamSpec) :=
  (sortedBy id refs.dedup).mapM (getItem pools)

/-! ### Proxy hosts -/

def locationSpec (db : Database) (l : ProxyHostLocation) : LocationSpec where
  path := l.path
  target := l.target
  upstreamId := l.upstreamId
  forwardHost := l.forwardHost
  forwardPort := l.forwardPort
  forwardScheme := l.forwardScheme
  id := some l.id
  html := if l.target = .customPage then
      match related db.customPage? l.customPageId with
      | some page => page.html
      | none => ""
    else ""
  errorCode := l.errorCode

/-- The loop over the locations of one host, in path order. -/
def loadLocations (db : Database) : List ProxyHostLocation → Pools → Pools × List LocationSpec
  | [], pools => (pools, [])
  | l :: rest, pools =>
    if l.target = .pool ∧ l.upstreamId.isSome then
      match keepPool pools (related db.upstream? l.upstreamId) with
      | (pools, false) => loadLocations db rest pools
      | (pools, true) =>
        let (pools, specs) := loadLocations db rest pools
        (pools, locationSpec db l :: specs)
    else
      let (pools, specs) := loadLocations db rest pools
      (pools, locationSpec db l :: specs)

def proxyHostSpec (cfg : Deployment) (db : Database) (h : ProxyHost)
    (locations : List LocationSpec) : ProxyHostSpec where
  id := h.id
  domainNames := h.domainNames
  upstreamId := h.upstreamId
  forwardHost := h.forwardHost
  forwardPort := h.forwardPort
  forwardScheme := h.forwardScheme
  certificate := (related db.certificate? h.certificateId).map (certificateSpec cfg)
  accessList := (related db.accessList? h.accessListId).map accessListSpec
  sslForced := h.sslForced
  http2Support := h.http2Support
  hstsEnabled := h.hstsEnabled
  hstsSubdomains := h.hstsSubdomains
  cachingEnabled := h.cachingEnabled
  blockExploits := h.blockExploits
  allowWebsocketUpgrade := h.allowWebsocketUpgrade
  crowdsecEnabled := h.crowdsecEnabled
  crowdsecAppsecEnabled := h.crowdsecAppsecEnabled
  maintenanceEnabled := h.maintenanceEnabled
  maintenanceAllow := h.maintenanceAllow
  advancedConfig := h.advancedConfig
  locations := locations

/-- The loop over the enabled proxy hosts, in id order. -/
def loadProxyHosts (cfg : Deployment) (db : Database) :
    List ProxyHost → Pools → Pools × List ProxyHostSpec
  | [], pools => (pools, [])
  | h :: rest, pools =>
    -- only a pool-targeted host can be unrenderable for pool reasons
    let (pools, usable) :=
      if h.upstreamId.isSome then keepPool pools (related db.upstream? h.upstreamId)
      else (pools, true)
    if usable then
      let (pools, locations) := loadLocations db (sortedBy (·.path) h.locations) pools
      let (pools, specs) := loadProxyHosts cfg db rest pools
      (pools, proxyHostSpec cfg db h locations :: specs)
    else loadProxyHosts cfg db rest pools

/-- The pool ids of the included hosts and of their included locations. -/
def httpReferences (hosts : List ProxyHostSpec) : List Id :=
  hosts.filterMap (·.upstreamId) ++ hosts.flatMap fun h => h.locations.filterMap (·.upstreamId)

/-! ### The other hosts -/

def redirectionHostSpec (cfg : Deployment) (db : Database) (r : RedirectionHost) :
    RedirectionHostSpec where
  id := r.id
  domainNames := r.domainNames
  forwardDomainName := r.forwardDomainName
  forwardHttpCode := r.forwardHttpCode
  forwardScheme := r.forwardScheme
  preservePath := r.preservePath
  certificate := (related db.certificate? r.certificateId).map (certificateSpec cfg)
  sslForced := r.sslForced
  http2Support := r.http2Support
  hstsEnabled := r.hstsEnabled
  hstsSubdomains := r.hstsSubdomains
  blockExploits := r.blockExploits
  crowdsecEnabled := r.crowdsecEnabled
  advancedConfig := r.advancedConfig

def loadRedirectionHosts (cfg : Deployment) (db : Database) : List RedirectionHostSpec :=
  (sortedBy (·.id) (db.redirectionHosts.filter (·.enabled))).map (redirectionHostSpec cfg db)

def deadHostSpec (cfg : Deployment) (db : Database) (d : DeadHost) : DeadHostSpec where
  id := d.id
  domainNames := d.domainNames
  certificate := (related db.certificate? d.certificateId).map (certificateSpec cfg)
  sslForced := d.sslForced
  http2Support := d.http2Support
  hstsEnabled := d.hstsEnabled
  hstsSubdomains := d.hstsSubdomains
  crowdsecEnabled := d.crowdsecEnabled
  advancedConfig := d.advancedConfig

def loadDeadHosts (cfg : Deployment) (db : Database) : List DeadHostSpec :=
  (sortedBy (·.id) (db.deadHosts.filter (·.enabled))).map (deadHostSpec cfg db)

def streamSpec (cfg : Deployment) (db : Database) (s : Stream) : StreamSpec where
  id := s.id
  incomingPort := s.incomingPort
  forwardHost := s.forwardHost
  forwardPort := s.forwardPort
  upstreamId := s.upstreamId
  tcpForwarding := s.tcpForwarding
  udpForwarding := s.udpForwarding
  certificate := (related db.certificate? s.certificateId).map (certificateSpec cfg)

/-- The loop over the enabled streams, in id order. -/
def loadStreamRows (cfg : Deployment) (db : Database) :
    List Stream → Pools → Pools × List StreamSpec
  | [], pools => (pools, [])
  | s :: rest, pools =>
    let (pools, usable) :=
      if s.upstreamId.isSome then keepPool pools (related db.upstream? s.upstreamId)
      else (pools, true)
    if usable then
      let (pools, specs) := loadStreamRows cfg db rest pools
      (pools, streamSpec cfg db s :: specs)
    else loadStreamRows cfg db rest pools

def loadStreams (cfg : Deployment) (db : Database) :
    Except KeyError (List StreamSpec × List UpstreamSpec) := do
  let (pools, specs) := loadStreamRows cfg db (sortedBy (·.id) (db.streams.filter (·.enabled))) ∅
  let upstreams ← referencedPools pools (specs.filterMap (·.upstreamId))
  return (specs, upstreams)

/-! ### Settings -/

/-- The document of a page a setting refers to. An id of `0` is falsy, and a page
that is gone reads as the empty document. -/
def settingHtml (db : Database) (custom : Bool) (pageId : Option Id) : String :=
  if custom then
    match pageId with
    | none => ""
    | some id =>
      if id = 0 then ""
      else match db.customPage? id with
        | some page => page.html
        | none => ""
  else ""

def loadDefaultSite (db : Database) : Option DefaultSiteSpec :=
  db.instanceSettings.map fun row =>
    { mode := row.defaultSiteMode
      redirectUrl := row.defaultSiteRedirectUrl.getD ""
      html := settingHtml db (row.defaultSiteMode = .customPage) row.defaultSitePageId }

def loadBanPage (db : Database) : Option BanPageSpec :=
  db.instanceSettings.map fun row =>
    { mode := row.crowdsecBanMode
      html := settingHtml db (row.crowdsecBanMode = .customPage) row.crowdsecBanPageId }

def loadMaintenance (db : Database) : Option MaintenanceSpec :=
  db.instanceSettings.map fun row =>
    { mode := row.maintenanceMode
      html := settingHtml db (row.maintenanceMode = .customPage) row.maintenancePageId
      retryAfterMinutes := row.maintenanceRetryAfterMinutes }

def errorPageSpec (db : Database) (row : ErrorPage) : ErrorPageSpec where
  code := row.code
  html := match related db.customPage? row.customPageId with
    | some page => page.html
    | none => ""

def loadErrorPages (db : Database) : List ErrorPageSpec :=
  sortedBy (·.code) (db.errorPages.map (errorPageSpec db))

/-! ### Default site over TLS -/

/-- Every active certificate, by id. -/
def loadCertificates (db : Database) : List Certificate :=
  sortedBy (·.id) (db.certificates.filter fun c => c.status = .active)

/-- `name -> id` of the certificate that will serve it, and the active rows by id. -/
structure TlsOwners where
  owner : Dict String Id := ∅
  byId : Dict Id Certificate := ∅

/-- One name of a certificate: the lowest id wins. -/
def TlsOwners.takeName (claimed : List String) (id : Id) (owner : Dict String Id)
    (name : String) : Dict String Id :=
  if name ∈ claimed then owner
  else match owner[name]? with
    | none => owner.insert name id
    | some current => if id < current then owner.insert name id else owner

def TlsOwners.takeCertificate (claimed : List String) (o : TlsOwners) (c : Certificate) :
    TlsOwners :=
  if c.status = .active then
    { owner := c.domainNames.foldl (takeName claimed c.id) o.owner
      byId := o.byId.insert c.id c }
  else o

/-- `names_for.setdefault(cert_id, []).append(name)`. -/
def addName (names : Dict Id (List String)) (item : String × Id) : Dict Id (List String) :=
  names.insert item.2 ((names[item.2]?).getD [] ++ [item.1])

def planDefaultTls (cfg : Deployment) (certificates : List Certificate) (claimed : List String) :
    Except KeyError (List DefaultTlsSpec) :=
  let o := certificates.foldl (TlsOwners.takeCertificate claimed) {}
  let namesFor := o.owner.toList.foldl addName (∅ : Dict Id (List String))
  (sortedBy id namesFor.keys).mapM fun certId => do
    let c ← getItem o.byId certId
    let names ← getItem namesFor certId
    return { certificate := certificateSpec cfg c, serverNames := sortedBy id names }

/-- Names an enabled host already answers for on :443. -/
def claimedTlsNames (state : DesiredState) : List String :=
  (state.proxyHosts.flatMap fun h => if h.certificate.isSome then h.domainNames else []) ++
  (state.redirectionHosts.flatMap fun h => if h.certificate.isSome then h.domainNames else []) ++
  (state.deadHosts.flatMap fun h => if h.certificate.isSome then h.domainNames else [])

/-! ### The whole state -/

def loadDesiredState (cfg : Deployment) (db : Database) : Except KeyError DesiredState := do
  let (pools, hosts) :=
    loadProxyHosts cfg db (sortedBy (·.id) (db.proxyHosts.filter (·.enabled))) ∅
  let upstreams ← referencedPools pools (httpReferences hosts)
  let (streams, streamUpstreams) ← loadStreams cfg db
  let state : DesiredState :=
    { proxyHosts := hosts
      httpUpstreams := upstreams
      redirectionHosts := loadRedirectionHosts cfg db
      deadHosts := loadDeadHosts cfg db
      streams := streams
      streamUpstreams := streamUpstreams
      defaultSite := loadDefaultSite db
      banPage := loadBanPage db
      maintenance := loadMaintenance db
      errorPages := loadErrorPages db }
  let defaultTls ← planDefaultTls cfg (loadCertificates db) (claimedTlsNames state)
  return { state with defaultTls := defaultTls }

end MegooPM
