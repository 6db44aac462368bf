import MegooPM.Services.Session

/-!
# Upstream pools

`services/upstream.py`: pools and their backends. Each function checks, writes and
commits; what it writes is a definition of its own, so that a reader of a run needs the
checks only where they matter.
-/
namespace MegooPM

open Lib

variable {db db' : Database}

/-! ### Validation -/

/-- Methods nginx allows no backup servers with (`_NO_BACKUP_METHODS`). -/
def noBackupMethods : List LoadBalanceMethod := [.hash, .ipHash, .random]

/-- Reject combinations nginx would refuse. -/
def validatePoolConfig (lbMethod : Option LoadBalanceMethod) (context : Option UpstreamContext)
    (hasBackup : Bool) : Except ServiceError Unit :=
  if lbMethod = some .ipHash ∧ context ≠ some .http then
    .error (.invalidPoolConfig
      "ip_hash is not supported for TCP/UDP streams. Use hash or least_conn.")
  else
    match lbMethod with
    | some m =>
      if hasBackup = true ∧ m ∈ noBackupMethods then
        .error (.invalidPoolConfig
          ("nginx does not allow backup servers with the " ++ m.value ++ " method."))
      else .ok ()
    | none => .ok ()

/-- Reject attaching a pool somewhere its declared context does not allow. -/
def assertUsableIn (pool : Upstream) (context : UpstreamContext) : Except ServiceError Unit :=
  if pool.context = .both ∨ pool.context = context then .ok ()
  else
    let place := if context = .stream then "streams" else "proxy hosts"
    .error (.invalidPoolConfig ("Pool '" ++ pool.name ++ "' is not available for " ++ place ++ "."))

/-- How many objects point at a pool, split by nginx context. -/
structure ReferenceCounts where
  proxyHosts : Nat
  streams : Nat
  deriving DecidableEq, Repr

def referenceCounts (db : Database) (upstreamId : Id) : ReferenceCounts where
  proxyHosts :=
    db.proxyHosts.countP (·.upstreamId = some upstreamId) +
      (db.proxyHosts.flatMap (·.locations)).countP (·.upstreamId = some upstreamId)
  streams := db.streams.countP (·.upstreamId = some upstreamId)

/-- Reject narrowing a pool's context out from under live references. -/
def assertContextChangeAllowed (poolName : String) (newContext : Option UpstreamContext)
    (counts : ReferenceCounts) : Except ServiceError Unit :=
  if newContext = some .both then .ok ()
  else if newContext = some .http ∧ counts.streams ≠ 0 then
    .error (.invalidPoolConfig ("Pool '" ++ poolName ++ "' is used by " ++
      toString counts.streams ++ " stream(s); keep 'stream' or 'both'."))
  else if newContext = some .stream ∧ counts.proxyHosts ≠ 0 then
    .error (.invalidPoolConfig ("Pool '" ++ poolName ++ "' is used by " ++
      toString counts.proxyHosts ++ " proxy host(s); keep 'http' or 'both'."))
  else .ok ()

/-! ### Pools -/

def Database.addUpstream (db : Database) (pool : Upstream) : Database :=
  { db with upstreams := db.upstreams ++ [pool] }

def Database.changeUpstream (db : Database) (upstreamId : Id) (f : Upstream → Upstream) : Database :=
  { db with upstreams := updateAt Upstream.id upstreamId f db.upstreams }

def Database.dropUpstream (db : Database) (upstreamId : Id) : Database :=
  { db with upstreams := removeAt Upstream.id upstreamId db.upstreams }

/-- Create a pool, optionally seeding backends inline. -/
def createUpstream (db : Database) (pool : Upstream) : Except ServiceError Database := do
  validatePoolConfig (some pool.lbMethod) (some pool.context) (pool.backends.any (·.backup))
  commitOr (db.addUpstream pool) true .duplicateBackend

theorem createUpstream_ok {pool : Upstream} (done : createUpstream db pool = .ok db') :
    db' = db.addUpstream pool ∧ db'.Constraints := by
  obtain ⟨_, _, done⟩ := bind_eq_ok done
  exact commitOr_eq_ok done

/-- Fields of an `UpstreamUpdate`. -/
structure UpstreamChanges where
  name : Change String := .unset
  lbMethod : Change LoadBalanceMethod := .unset
  context : Change UpstreamContext := .unset
  enabled : Change Bool := .unset
  deriving DecidableEq, Repr

namespace UpstreamChanges

def apply (c : UpstreamChanges) (pool : Upstream) : Upstream :=
  { pool with
    name := c.name.overValue pool.name
    lbMethod := c.lbMethod.overValue pool.lbMethod
    context := c.context.overValue pool.context
    enabled := c.enabled.overValue pool.enabled }

def notNull (c : UpstreamChanges) : Bool :=
  c.name.notNull && c.lbMethod.notNull && c.context.notNull && c.enabled.notNull

end UpstreamChanges

/-- The check of a changed context. -/
def checkContextChange (db : Database) (pool : Upstream) (newContext : Option UpstreamContext) :
    Except ServiceError Unit :=
  if newContext = some pool.context then .ok ()
  else assertContextChangeAllowed pool.name newContext (referenceCounts db pool.id)

/-- Apply a partial update to a pool's own attributes. The merged result is validated: a
change of the method alone is still checked against the backends already there. -/
def updateUpstream (db : Database) (upstreamId : Id) (changes : UpstreamChanges) :
    Except ServiceError Database := do
  let pool ← orRaise (db.upstream? upstreamId) (ServiceError.notFound .upstream upstreamId)
  validatePoolConfig (changes.lbMethod.get pool.lbMethod) (changes.context.get pool.context)
    (pool.backends.any (·.backup))
  checkContextChange db pool (changes.context.get pool.context)
  commit (db.changeUpstream upstreamId changes.apply) changes.notNull

theorem updateUpstream_ok {i : Id} {c : UpstreamChanges} (done : updateUpstream db i c = .ok db') :
    db' = db.changeUpstream i c.apply ∧ db'.Constraints := by
  obtain ⟨_, _, done⟩ := bind_eq_ok done
  obtain ⟨_, _, done⟩ := bind_eq_ok done
  obtain ⟨_, _, done⟩ := bind_eq_ok done
  exact commit_eq_ok done

/-- Delete a pool and its backends; refused while a host or a stream refers to it. -/
def deleteUpstream (db : Database) (upstreamId : Id) : Except ServiceError Database := do
  let _ ← orRaise (db.upstream? upstreamId) (ServiceError.notFound .upstream upstreamId)
  commitOr (db.dropUpstream upstreamId) true (.upstreamInUse upstreamId)

theorem deleteUpstream_ok {i : Id} (done : deleteUpstream db i = .ok db') :
    db' = db.dropUpstream i ∧ db'.Constraints := by
  obtain ⟨_, _, done⟩ := bind_eq_ok done
  exact commitOr_eq_ok done

/-! ### Backends -/

def Upstream.addBackend (backend : UpstreamBackend) (pool : Upstream) : Upstream :=
  { pool with backends := pool.backends ++ [backend] }

def addBackend (db : Database) (upstreamId : Id) (backend : UpstreamBackend) :
    Except ServiceError Database := do
  let pool ← orRaise (db.upstream? upstreamId) (ServiceError.notFound .upstream upstreamId)
  validatePoolConfig (some pool.lbMethod) (some pool.context)
    (backend.backup || pool.backends.any (·.backup))
  commitOr (db.changeUpstream upstreamId (Upstream.addBackend backend)) true .duplicateBackend

theorem addBackend_ok {i : Id} {b : UpstreamBackend} (done : addBackend db i b = .ok db') :
    db' = db.changeUpstream i (Upstream.addBackend b) ∧ db'.Constraints := by
  obtain ⟨_, _, done⟩ := bind_eq_ok done
  obtain ⟨_, _, done⟩ := bind_eq_ok done
  exact commitOr_eq_ok done

/-- Fields of a `BackendUpdate`. -/
structure BackendChanges where
  host : Change String := .unset
  port : Change Nat := .unset
  weight : Change Nat := .unset
  maxFails : Change Nat := .unset
  failTimeoutSeconds : Change Nat := .unset
  backup : Change Bool := .unset
  down : Change Bool := .unset
  enabled : Change Bool := .unset
  deriving DecidableEq, Repr

namespace BackendChanges

def apply (c : BackendChanges) (b : UpstreamBackend) : UpstreamBackend :=
  { b with
    host := c.host.overValue b.host
    port := c.port.overValue b.port
    weight := c.weight.overValue b.weight
    maxFails := c.maxFails.overValue b.maxFails
    failTimeoutSeconds := c.failTimeoutSeconds.overValue b.failTimeoutSeconds
    backup := c.backup.overValue b.backup
    down := c.down.overValue b.down
    enabled := c.enabled.overValue b.enabled }

def notNull (c : BackendChanges) : Bool :=
  c.host.notNull && c.port.notNull && c.weight.notNull && c.maxFails.notNull &&
    c.failTimeoutSeconds.notNull && c.backup.notNull && c.down.notNull && c.enabled.notNull

end BackendChanges

def Upstream.changeBackend (backendId : Id) (changes : BackendChanges) (pool : Upstream) :
    Upstream :=
  { pool with backends := updateAt UpstreamBackend.id backendId changes.apply pool.backends }

def Upstream.dropBackend (backendId : Id) (pool : Upstream) : Upstream :=
  { pool with backends := removeAt UpstreamBackend.id backendId pool.backends }

/-- The backend with an id within a pool. -/
def getBackend (db : Database) (upstreamId backendId : Id) : Option UpstreamBackend :=
  (db.upstream? upstreamId).bind fun pool => pool.backends.find? (·.id = backendId)

/-- The check of `update_backend`, made only where the change names `backup`. -/
def validateBackupChange (db : Database) (upstreamId backendId : Id) (backup : Change Bool) :
    Except ServiceError Unit :=
  match backup, db.upstream? upstreamId with
  | .unset, _ => .ok ()
  | _, none => .ok ()
  | change, some pool =>
    validatePoolConfig (some pool.lbMethod) (some pool.context)
      (change.value?.getD false ||
        (pool.backends.filter (·.id ≠ backendId)).any (·.backup))

def updateBackend (db : Database) (upstreamId backendId : Id) (changes : BackendChanges) :
    Except ServiceError Database := do
  let _ ← orRaise (getBackend db upstreamId backendId) (ServiceError.notFound .backend backendId)
  validateBackupChange db upstreamId backendId changes.backup
  commitOr (db.changeUpstream upstreamId (Upstream.changeBackend backendId changes)) changes.notNull
    .duplicateBackend

theorem updateBackend_ok {i b : Id} {c : BackendChanges} (done : updateBackend db i b c = .ok db') :
    db' = db.changeUpstream i (Upstream.changeBackend b c) ∧ db'.Constraints := by
  obtain ⟨_, _, done⟩ := bind_eq_ok done
  obtain ⟨_, _, done⟩ := bind_eq_ok done
  exact commitOr_eq_ok done

def removeBackend (db : Database) (upstreamId backendId : Id) : Except ServiceError Database := do
  let _ ← orRaise (getBackend db upstreamId backendId) (ServiceError.notFound .backend backendId)
  commit (db.changeUpstream upstreamId (Upstream.dropBackend backendId)) true

theorem removeBackend_ok {i b : Id} (done : removeBackend db i b = .ok db') :
    db' = db.changeUpstream i (Upstream.dropBackend b) ∧ db'.Constraints := by
  obtain ⟨_, _, done⟩ := bind_eq_ok done
  exact commit_eq_ok done

end MegooPM
