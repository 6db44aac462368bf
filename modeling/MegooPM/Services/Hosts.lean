import MegooPM.Services.Upstreams

/-!
# Hosts and streams

`services/proxy_host.py`, `redirection_host.py`, `dead_host.py` and `stream.py`. A bad
reference is raised as `InvalidReferenceError`, whether a check finds it or the commit.
-/
namespace MegooPM

open Lib

variable {db db' : Database}

/-! ### Proxy hosts -/

/-- The error of a pool check, as the hosts and streams report it. -/
def asInvalidReference : ServiceError → ServiceError
  | .invalidPoolConfig message => .invalidReference (some message)
  | other => other

/-- Every id must exist and be attachable in the http context. -/
def assertPoolsUsable (db : Database) (ids : List Id) (what : String) : Except ServiceError Unit :=
  let pools := db.upstreams.filter (·.id ∈ ids)
  let missing := ids.dedup.filter (· ∉ pools.map (·.id))
  if missing ≠ [] then
    .error (.invalidReference (some (what ++ " do not exist: " ++
      ", ".intercalate ((sortedBy id missing).map toString))))
  else pools.forM fun pool => (assertUsableIn pool .http).mapError asInvalidReference

def checkLocationPools (db : Database) (locations : List ProxyHostLocation) :
    Except ServiceError Unit :=
  assertPoolsUsable db (locations.filterMap (·.upstreamId)) "location upstream(s)"

/-- Every referenced page must exist. -/
def checkLocationPages (db : Database) (locations : List ProxyHostLocation) :
    Except ServiceError Unit :=
  let ids := (locations.filterMap (·.customPageId)).dedup
  let missing := ids.filter (· ∉ db.customPages.map (·.id))
  if missing ≠ [] then
    .error (.invalidReference (some ("location page(s) do not exist: " ++
      ", ".intercalate ((sortedBy id missing).map toString))))
  else .ok ()

def Database.addProxyHost (db : Database) (host : ProxyHost) : Database :=
  { db with proxyHosts := db.proxyHosts ++ [host] }

def Database.changeProxyHost (db : Database) (hostId : Id) (f : ProxyHost → ProxyHost) : Database :=
  { db with proxyHosts := updateAt ProxyHost.id hostId f db.proxyHosts }

def Database.dropProxyHost (db : Database) (hostId : Id) : Database :=
  { db with proxyHosts := removeAt ProxyHost.id hostId db.proxyHosts }

def createProxyHost (db : Database) (host : ProxyHost) : Except ServiceError Database := do
  assertPoolsUsable db host.upstreamId.toList "upstream"
  checkLocationPools db host.locations
  checkLocationPages db host.locations
  commitOr (db.addProxyHost host) true (.invalidReference none)

theorem createProxyHost_ok {host : ProxyHost} (done : createProxyHost db host = .ok db') :
    db' = db.addProxyHost host ∧ db'.Constraints := by
  obtain ⟨_, _, done⟩ := bind_eq_ok done
  obtain ⟨_, _, done⟩ := bind_eq_ok done
  obtain ⟨_, _, done⟩ := bind_eq_ok done
  exact commitOr_eq_ok done

/-- Fields of a `ProxyHostUpdate`. -/
structure ProxyHostChanges where
  domainNames : Change (List String) := .unset
  upstreamId : Change Id := .unset
  forwardHost : Change String := .unset
  forwardPort : Change Nat := .unset
  forwardScheme : Change HttpScheme := .unset
  certificateId : Change Id := .unset
  accessListId : Change Id := .unset
  sslForced : Change Bool := .unset
  http2Support : Change Bool := .unset
  hstsEnabled : Change Bool := .unset
  hstsSubdomains : Change Bool := .unset
  cachingEnabled : Change Bool := .unset
  blockExploits : Change Bool := .unset
  allowWebsocketUpgrade : Change Bool := .unset
  crowdsecEnabled : Change Bool := .unset
  crowdsecAppsecEnabled : Change Bool := .unset
  maintenanceEnabled : Change Bool := .unset
  maintenanceAllow : Change (List String) := .unset
  advancedConfig : Change String := .unset
  enabled : Change Bool := .unset
  /-- A full replacement of the location list. -/
  locations : Option (List ProxyHostLocation) := none
  deriving DecidableEq, Repr

namespace ProxyHostChanges

def apply (c : ProxyHostChanges) (h : ProxyHost) : ProxyHost :=
  { h with
    domainNames := c.domainNames.overValue h.domainNames
    upstreamId := c.upstreamId.overNullable h.upstreamId
    forwardHost := c.forwardHost.overNullable h.forwardHost
    forwardPort := c.forwardPort.overNullable h.forwardPort
    forwardScheme := c.forwardScheme.overValue h.forwardScheme
    certificateId := c.certificateId.overNullable h.certificateId
    accessListId := c.accessListId.overNullable h.accessListId
    sslForced := c.sslForced.overValue h.sslForced
    http2Support := c.http2Support.overValue h.http2Support
    hstsEnabled := c.hstsEnabled.overValue h.hstsEnabled
    hstsSubdomains := c.hstsSubdomains.overValue h.hstsSubdomains
    cachingEnabled := c.cachingEnabled.overValue h.cachingEnabled
    blockExploits := c.blockExploits.overValue h.blockExploits
    allowWebsocketUpgrade := c.allowWebsocketUpgrade.overValue h.allowWebsocketUpgrade
    crowdsecEnabled := c.crowdsecEnabled.overValue h.crowdsecEnabled
    crowdsecAppsecEnabled := c.crowdsecAppsecEnabled.overValue h.crowdsecAppsecEnabled
    maintenanceEnabled := c.maintenanceEnabled.overValue h.maintenanceEnabled
    maintenanceAllow := c.maintenanceAllow.overValue h.maintenanceAllow
    advancedConfig := c.advancedConfig.overValue h.advancedConfig
    enabled := c.enabled.overValue h.enabled
    locations := c.locations.getD h.locations }

def notNull (c : ProxyHostChanges) : Bool :=
  c.domainNames.notNull && c.forwardScheme.notNull && c.sslForced.notNull &&
    c.http2Support.notNull && c.hstsEnabled.notNull && c.hstsSubdomains.notNull &&
    c.cachingEnabled.notNull && c.blockExploits.notNull && c.allowWebsocketUpgrade.notNull &&
    c.crowdsecEnabled.notNull && c.crowdsecAppsecEnabled.notNull &&
    c.maintenanceEnabled.notNull && c.maintenanceAllow.notNull && c.advancedConfig.notNull &&
    c.enabled.notNull

end ProxyHostChanges

/-- `host.locations.clear()` and its flush, before the replacement rows are added. What the
database refuses here is not translated. -/
def flushCleared (db : Database) (hostId : Id) (changes : ProxyHostChanges) :
    Except ServiceError Unit :=
  match changes.locations with
  | none => .ok ()
  | some _ =>
    (commit (db.changeProxyHost hostId fun h => { changes.apply h with locations := [] })
      changes.notNull).map fun _ => ()

def updateProxyHost (db : Database) (hostId : Id) (changes : ProxyHostChanges) :
    Except ServiceError Database := do
  let _ ← orRaise (db.proxyHosts.find? (·.id = hostId)) (ServiceError.notFound .proxyHost hostId)
  assertPoolsUsable db changes.upstreamId.value?.toList "upstream"
  checkLocationPools db (changes.locations.getD [])
  checkLocationPages db (changes.locations.getD [])
  flushCleared db hostId changes
  commitOr (db.changeProxyHost hostId changes.apply) changes.notNull (.invalidReference none)

theorem updateProxyHost_ok {i : Id} {c : ProxyHostChanges}
    (done : updateProxyHost db i c = .ok db') :
    db' = db.changeProxyHost i c.apply ∧ db'.Constraints := by
  obtain ⟨_, _, done⟩ := bind_eq_ok done
  obtain ⟨_, _, done⟩ := bind_eq_ok done
  obtain ⟨_, _, done⟩ := bind_eq_ok done
  obtain ⟨_, _, done⟩ := bind_eq_ok done
  obtain ⟨_, _, done⟩ := bind_eq_ok done
  exact commitOr_eq_ok done

def deleteProxyHost (db : Database) (hostId : Id) : Except ServiceError Database := do
  let _ ← orRaise (db.proxyHosts.find? (·.id = hostId)) (ServiceError.notFound .proxyHost hostId)
  commit (db.dropProxyHost hostId) true

theorem deleteProxyHost_ok {i : Id} (done : deleteProxyHost db i = .ok db') :
    db' = db.dropProxyHost i ∧ db'.Constraints := by
  obtain ⟨_, _, done⟩ := bind_eq_ok done
  exact commit_eq_ok done

/-! ### Redirection hosts -/

def Database.addRedirectionHost (db : Database) (host : RedirectionHost) : Database :=
  { db with redirectionHosts := db.redirectionHosts ++ [host] }

def Database.changeRedirectionHost (db : Database) (hostId : Id)
    (f : RedirectionHost → RedirectionHost) : Database :=
  { db with redirectionHosts := updateAt RedirectionHost.id hostId f db.redirectionHosts }

def Database.dropRedirectionHost (db : Database) (hostId : Id) : Database :=
  { db with redirectionHosts := removeAt RedirectionHost.id hostId db.redirectionHosts }

def createRedirectionHost (db : Database) (host : RedirectionHost) : Except ServiceError Database :=
  commitOr (db.addRedirectionHost host) true (.invalidReference none)

theorem createRedirectionHost_ok {host : RedirectionHost}
    (done : createRedirectionHost db host = .ok db') :
    db' = db.addRedirectionHost host ∧ db'.Constraints :=
  commitOr_eq_ok done

/-- Fields of a `RedirectionHostUpdate`. -/
structure RedirectionHostChanges where
  domainNames : Change (List String) := .unset
  forwardDomainName : Change String := .unset
  forwardScheme : Change RedirectScheme := .unset
  forwardHttpCode : Change Nat := .unset
  preservePath : Change Bool := .unset
  certificateId : Change Id := .unset
  sslForced : Change Bool := .unset
  http2Support : Change Bool := .unset
  hstsEnabled : Change Bool := .unset
  hstsSubdomains : Change Bool := .unset
  blockExploits : Change Bool := .unset
  crowdsecEnabled : Change Bool := .unset
  advancedConfig : Change String := .unset
  enabled : Change Bool := .unset
  deriving DecidableEq, Repr

namespace RedirectionHostChanges

def apply (c : RedirectionHostChanges) (h : RedirectionHost) : RedirectionHost :=
  { h with
    domainNames := c.domainNames.overValue h.domainNames
    forwardDomainName := c.forwardDomainName.overValue h.forwardDomainName
    forwardScheme := c.forwardScheme.overValue h.forwardScheme
    forwardHttpCode := c.forwardHttpCode.overValue h.forwardHttpCode
    preservePath := c.preservePath.overValue h.preservePath
    certificateId := c.certificateId.overNullable h.certificateId
    sslForced := c.sslForced.overValue h.sslForced
    http2Support := c.http2Support.overValue h.http2Support
    hstsEnabled := c.hstsEnabled.overValue h.hstsEnabled
    hstsSubdomains := c.hstsSubdomains.overValue h.hstsSubdomains
    blockExploits := c.blockExploits.overValue h.blockExploits
    crowdsecEnabled := c.crowdsecEnabled.overValue h.crowdsecEnabled
    advancedConfig := c.advancedConfig.overValue h.advancedConfig
    enabled := c.enabled.overValue h.enabled }

def notNull (c : RedirectionHostChanges) : Bool :=
  c.domainNames.notNull && c.forwardDomainName.notNull && c.forwardScheme.notNull &&
    c.forwardHttpCode.notNull && c.preservePath.notNull && c.sslForced.notNull &&
    c.http2Support.notNull && c.hstsEnabled.notNull && c.hstsSubdomains.notNull &&
    c.blockExploits.notNull && c.crowdsecEnabled.notNull && c.advancedConfig.notNull &&
    c.enabled.notNull

end RedirectionHostChanges

def updateRedirectionHost (db : Database) (hostId : Id) (changes : RedirectionHostChanges) :
    Except ServiceError Database := do
  let _ ← orRaise (db.redirectionHosts.find? (·.id = hostId))
    (ServiceError.notFound .redirectionHost hostId)
  commitOr (db.changeRedirectionHost hostId changes.apply) changes.notNull (.invalidReference none)

theorem updateRedirectionHost_ok {i : Id} {c : RedirectionHostChanges}
    (done : updateRedirectionHost db i c = .ok db') :
    db' = db.changeRedirectionHost i c.apply ∧ db'.Constraints := by
  obtain ⟨_, _, done⟩ := bind_eq_ok done
  exact commitOr_eq_ok done

def deleteRedirectionHost (db : Database) (hostId : Id) : Except ServiceError Database := do
  let _ ← orRaise (db.redirectionHosts.find? (·.id = hostId))
    (ServiceError.notFound .redirectionHost hostId)
  commit (db.dropRedirectionHost hostId) true

theorem deleteRedirectionHost_ok {i : Id} (done : deleteRedirectionHost db i = .ok db') :
    db' = db.dropRedirectionHost i ∧ db'.Constraints := by
  obtain ⟨_, _, done⟩ := bind_eq_ok done
  exact commit_eq_ok done

/-! ### Dead hosts -/

def Database.addDeadHost (db : Database) (host : DeadHost) : Database :=
  { db with deadHosts := db.deadHosts ++ [host] }

def Database.changeDeadHost (db : Database) (hostId : Id) (f : DeadHost → DeadHost) : Database :=
  { db with deadHosts := updateAt DeadHost.id hostId f db.deadHosts }

def Database.dropDeadHost (db : Database) (hostId : Id) : Database :=
  { db with deadHosts := removeAt DeadHost.id hostId db.deadHosts }

def createDeadHost (db : Database) (host : DeadHost) : Except ServiceError Database :=
  commitOr (db.addDeadHost host) true (.invalidReference none)

theorem createDeadHost_ok {host : DeadHost} (done : createDeadHost db host = .ok db') :
    db' = db.addDeadHost host ∧ db'.Constraints :=
  commitOr_eq_ok done

/-- Fields of a `DeadHostUpdate`. -/
structure DeadHostChanges where
  domainNames : Change (List String) := .unset
  certificateId : Change Id := .unset
  sslForced : Change Bool := .unset
  http2Support : Change Bool := .unset
  hstsEnabled : Change Bool := .unset
  hstsSubdomains : Change Bool := .unset
  crowdsecEnabled : Change Bool := .unset
  advancedConfig : Change String := .unset
  enabled : Change Bool := .unset
  deriving DecidableEq, Repr

namespace DeadHostChanges

def apply (c : DeadHostChanges) (h : DeadHost) : DeadHost :=
  { h with
    domainNames := c.domainNames.overValue h.domainNames
    certificateId := c.certificateId.overNullable h.certificateId
    sslForced := c.sslForced.overValue h.sslForced
    http2Support := c.http2Support.overValue h.http2Support
    hstsEnabled := c.hstsEnabled.overValue h.hstsEnabled
    hstsSubdomains := c.hstsSubdomains.overValue h.hstsSubdomains
    crowdsecEnabled := c.crowdsecEnabled.overValue h.crowdsecEnabled
    advancedConfig := c.advancedConfig.overValue h.advancedConfig
    enabled := c.enabled.overValue h.enabled }

def notNull (c : DeadHostChanges) : Bool :=
  c.domainNames.notNull && c.sslForced.notNull && c.http2Support.notNull &&
    c.hstsEnabled.notNull && c.hstsSubdomains.notNull && c.crowdsecEnabled.notNull &&
    c.advancedConfig.notNull && c.enabled.notNull

end DeadHostChanges

def updateDeadHost (db : Database) (hostId : Id) (changes : DeadHostChanges) :
    Except ServiceError Database := do
  let _ ← orRaise (db.deadHosts.find? (·.id = hostId)) (ServiceError.notFound .deadHost hostId)
  commitOr (db.changeDeadHost hostId changes.apply) changes.notNull (.invalidReference none)

theorem updateDeadHost_ok {i : Id} {c : DeadHostChanges} (done : updateDeadHost db i c = .ok db') :
    db' = db.changeDeadHost i c.apply ∧ db'.Constraints := by
  obtain ⟨_, _, done⟩ := bind_eq_ok done
  exact commitOr_eq_ok done

def deleteDeadHost (db : Database) (hostId : Id) : Except ServiceError Database := do
  let _ ← orRaise (db.deadHosts.find? (·.id = hostId)) (ServiceError.notFound .deadHost hostId)
  commit (db.dropDeadHost hostId) true

theorem deleteDeadHost_ok {i : Id} (done : deleteDeadHost db i = .ok db') :
    db' = db.dropDeadHost i ∧ db'.Constraints := by
  obtain ⟨_, _, done⟩ := bind_eq_ok done
  exact commit_eq_ok done

/-! ### Streams -/

/-- The id of the stream holding a port. -/
def portOwner (db : Database) (incomingPort : Nat) : Option Id :=
  (db.streams.find? (·.incomingPort = incomingPort)).map (·.id)

def portConflict (incomingPort : Nat) : ServiceError :=
  .portConflict ("incoming_port " ++ toString incomingPort ++ " is already in use")

/-- The pool must exist and be attachable in the stream context. -/
def assertPoolUsable (db : Database) (upstreamId : Option Id) : Except ServiceError Unit :=
  match upstreamId with
  | none => .ok ()
  | some i =>
    match db.upstream? i with
    | none => .error (.invalidReference (some ("upstream " ++ toString i ++ " does not exist")))
    | some pool => (assertUsableIn pool .stream).mapError asInvalidReference

def Database.addStream (db : Database) (stream : Stream) : Database :=
  { db with streams := db.streams ++ [stream] }

def Database.changeStream (db : Database) (streamId : Id) (f : Stream → Stream) : Database :=
  { db with streams := updateAt Stream.id streamId f db.streams }

def Database.dropStream (db : Database) (streamId : Id) : Database :=
  { db with streams := removeAt Stream.id streamId db.streams }

/-- The port check of `create_stream`. -/
def checkPortFree (db : Database) (incomingPort : Nat) : Except ServiceError Unit :=
  match portOwner db incomingPort with
  | some _ => .error (portConflict incomingPort)
  | none => .ok ()

def createStream (db : Database) (stream : Stream) : Except ServiceError Database := do
  checkPortFree db stream.incomingPort
  assertPoolUsable db stream.upstreamId
  commitOr (db.addStream stream) true (.invalidReference none)

theorem createStream_ok {stream : Stream} (done : createStream db stream = .ok db') :
    db' = db.addStream stream ∧ db'.Constraints := by
  obtain ⟨_, _, done⟩ := bind_eq_ok done
  obtain ⟨_, _, done⟩ := bind_eq_ok done
  exact commitOr_eq_ok done

/-- Fields of a `StreamUpdate`. -/
structure StreamChanges where
  incomingPort : Change Nat := .unset
  forwardHost : Change String := .unset
  forwardPort : Change Nat := .unset
  upstreamId : Change Id := .unset
  tcpForwarding : Change Bool := .unset
  udpForwarding : Change Bool := .unset
  certificateId : Change Id := .unset
  enabled : Change Bool := .unset
  deriving DecidableEq, Repr

namespace StreamChanges

def apply (c : StreamChanges) (s : Stream) : Stream :=
  { s with
    incomingPort := c.incomingPort.overValue s.incomingPort
    forwardHost := c.forwardHost.overNullable s.forwardHost
    forwardPort := c.forwardPort.overNullable s.forwardPort
    upstreamId := c.upstreamId.overNullable s.upstreamId
    tcpForwarding := c.tcpForwarding.overValue s.tcpForwarding
    udpForwarding := c.udpForwarding.overValue s.udpForwarding
    certificateId := c.certificateId.overNullable s.certificateId
    enabled := c.enabled.overValue s.enabled }

def notNull (c : StreamChanges) : Bool :=
  c.incomingPort.notNull && c.tcpForwarding.notNull && c.udpForwarding.notNull &&
    c.enabled.notNull

end StreamChanges

/-- The port check of `update_stream`: a stream may keep its own port. -/
def checkPortChange (db : Database) (stream : Stream) (incomingPort : Option Nat) :
    Except ServiceError Unit :=
  match incomingPort with
  | none => .ok ()
  | some port =>
    if port = stream.incomingPort then .ok ()
    else
      match portOwner db port with
      | some owner => if owner = stream.id then .ok () else .error (portConflict port)
      | none => .ok ()

def updateStream (db : Database) (streamId : Id) (changes : StreamChanges) :
    Except ServiceError Database := do
  let stream ← orRaise (db.streams.find? (·.id = streamId)) (ServiceError.notFound .stream streamId)
  checkPortChange db stream changes.incomingPort.value?
  assertPoolUsable db changes.upstreamId.value?
  commitOr (db.changeStream streamId changes.apply) changes.notNull (.invalidReference none)

theorem updateStream_ok {i : Id} {c : StreamChanges} (done : updateStream db i c = .ok db') :
    db' = db.changeStream i c.apply ∧ db'.Constraints := by
  obtain ⟨_, _, done⟩ := bind_eq_ok done
  obtain ⟨_, _, done⟩ := bind_eq_ok done
  obtain ⟨_, _, done⟩ := bind_eq_ok done
  exact commitOr_eq_ok done

def deleteStream (db : Database) (streamId : Id) : Except ServiceError Database := do
  let _ ← orRaise (db.streams.find? (·.id = streamId)) (ServiceError.notFound .stream streamId)
  commit (db.dropStream streamId) true

theorem deleteStream_ok {i : Id} (done : deleteStream db i = .ok db') :
    db' = db.dropStream i ∧ db'.Constraints := by
  obtain ⟨_, _, done⟩ := bind_eq_ok done
  exact commit_eq_ok done

end MegooPM
