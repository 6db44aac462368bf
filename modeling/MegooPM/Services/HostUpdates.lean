import MegooPM.Lib.UnitOfWork
import MegooPM.Services.Hosts
import Mathlib

/-!
# How an update of a proxy host ends

`update_proxy_host` statement by statement. The row and the new locations are sent in two
stages, and only the second stands under the `except IntegrityError`. A value that its column
does not hold raises a `DataError`, which nothing translates.
-/
namespace MegooPM

open Lib

/-! ### Columns -/

/-- What a `bigint` column or comparison takes. -/
def idFits (i : Id) : Bool :=
  -2 ^ 63 ≤ i && i < 2 ^ 63

/-- What a text column takes: PostgreSQL stores no NUL. -/
def textFits (text : String) : Bool :=
  text.toList.all (· ≠ '\x00')

/-- What a `varchar(limit)` column takes as it is. -/
def varcharFits (limit : Nat) (text : String) : Bool :=
  textFits text && text.length ≤ limit

/-- How an array bound for a `varchar(limit)[]` column arrives, `none` for a `DataError`. The
driver decides whether a text that is too long raises or is cut. -/
structure ArrayBinding where
  bind : Nat → List String → Option (List String)
  fitting : ∀ limit texts, texts.all (varcharFits limit) = true → bind limit texts = some texts
  misfitting : ∀ limit texts, texts.all (varcharFits limit) = false →
    bind limit texts ≠ some texts

namespace ArrayBinding

/-- An array parameter of an `UPDATE`. -/
def bindChange (arrays : ArrayBinding) (limit : Nat) :
    Change (List String) → Option (Change (List String))
  | .unset => some .unset
  | .null => some .null
  | .set texts => (arrays.bind limit texts).map .set

end ArrayBinding

def ProxyHost.withLocations (locations : List ProxyHostLocation) (h : ProxyHost) : ProxyHost :=
  { h with locations := locations }

namespace ProxyHostChanges

/-- The other values of the `UPDATE`: `upstream_id` has been looked up by then. -/
def scalarsFit (c : ProxyHostChanges) : Bool :=
  c.forwardHost.value?.all (varcharFits 255) && c.forwardPort.value?.all (· < 2 ^ 31) &&
    c.certificateId.value?.all idFits && c.accessListId.value?.all idFits &&
    c.advancedConfig.value?.all textFits

/-- The values of the row, as far as its columns hold them. -/
def fits (c : ProxyHostChanges) : Bool :=
  c.scalarsFit && c.domainNames.value?.all (·.all (varcharFits 255)) &&
    c.maintenanceAllow.value?.all (·.all (varcharFits 64))

/-- The parameters of the `UPDATE`. -/
def bound (arrays : ArrayBinding) (c : ProxyHostChanges) : Option ProxyHostChanges :=
  if c.scalarsFit = true then
    (arrays.bindChange 255 c.domainNames).bind fun names =>
      (arrays.bindChange 64 c.maintenanceAllow).map fun allow =>
        { c with domainNames := names, maintenanceAllow := allow }
  else none

/-- The row after `host.locations.clear()`. -/
def cleared (c : ProxyHostChanges) (h : ProxyHost) : ProxyHost :=
  (c.apply h).withLocations []

end ProxyHostChanges

/-- The values of an `INSERT` of a location; its references have been looked up by then. -/
def ProxyHostLocation.fits (l : ProxyHostLocation) : Bool :=
  varcharFits 255 l.path && l.forwardHost.all (varcharFits 255) &&
    l.forwardPort.all (· < 2 ^ 31) && l.errorCode.all fun code => -2 ^ 15 ≤ code && code < 2 ^ 15

/-! ### The call -/

inductive UpdateError where
  | service (error : ServiceError)
  /-- the driver's or the database's refusal of a value -/
  | dataError
  deriving DecidableEq, Repr

/-- A `SELECT` by ids, and what the service makes of its rows. -/
def selectByIds {α : Type} (ids : List Id) (f : Database → Except ServiceError α) :
    Work Database UpdateError α :=
  Work.query fun db =>
    if ids.all idFits = true then (f db).mapError .service else .error .dataError

/-- The statements of one flush: their parameters, then the constraints. -/
def sendRows (rows : Option Database) (notNull : Bool) : Except UpdateError Database :=
  match rows with
  | none => .error .dataError
  | some db => (commit db notNull).mapError .service

/-- The first flush, `host.locations.clear()` with it. -/
def sendCleared (arrays : ArrayBinding) (hostId : Id) (changes : ProxyHostChanges)
    (db : Database) : Except UpdateError Database :=
  sendRows ((changes.bound arrays).map fun sent => db.changeProxyHost hostId sent.cleared)
    changes.notNull

/-- The flush of the commit after that one: the replacement rows. -/
def sendLocations (hostId : Id) (locations : List ProxyHostLocation) (db : Database) :
    Except UpdateError Database :=
  sendRows (if locations.all ProxyHostLocation.fits = true then
    some (db.changeProxyHost hostId (ProxyHost.withLocations locations)) else none) true

/-- The flush of the commit where no locations are given. -/
def sendRow (arrays : ArrayBinding) (hostId : Id) (changes : ProxyHostChanges) (db : Database) :
    Except UpdateError Database :=
  sendRows ((changes.bound arrays).map fun sent => db.changeProxyHost hostId sent.apply)
    changes.notNull

/-- `except IntegrityError as exc: rollback; raise InvalidReferenceError`. -/
def asReferenceError : UpdateError → Option UpdateError
  | .service .integrity => some (.service (.invalidReference none))
  | _ => none

/-- What `setattr` and the location rows leave to be sent. -/
def sendChanges (arrays : ArrayBinding) (hostId : Id) (changes : ProxyHostChanges) :
    Work Database UpdateError Unit :=
  match changes.locations with
  | none => Work.rescue asReferenceError do
    Work.flush (sendRow arrays hostId changes)
    Work.commit
  | some locations => do
    Work.flush (sendCleared arrays hostId changes)
    Work.rescue asReferenceError do
      Work.flush (sendLocations hostId locations)
      Work.commit

/-- `update_proxy_host`, with what its session sends. -/
def updateProxyHostCall (arrays : ArrayBinding) (hostId : Id) (changes : ProxyHostChanges) :
    Work Database UpdateError Unit := do
  let locations := changes.locations.getD []
  let _ ← selectByIds [hostId] fun db =>
    orRaise (db.proxyHosts.find? (·.id = hostId)) (ServiceError.notFound .proxyHost hostId)
  let _ ← selectByIds changes.upstreamId.value?.toList fun db =>
    assertPoolsUsable db changes.upstreamId.value?.toList "upstream"
  let _ ← selectByIds (locations.filterMap (·.upstreamId)) fun db =>
    checkLocationPools db locations
  let _ ← selectByIds (locations.filterMap (·.customPageId)) fun db =>
    checkLocationPages db locations
  sendChanges arrays hostId changes

/-- The changes are committed as they were asked for, or one of the two errors of the service
says why not and the database is as it was. -/
def ReportsTyped (db : Database) (hostId : Id) (changes : ProxyHostChanges)
    (ran : Except UpdateError Unit × Database) : Prop :=
  ran = (.ok (), db.changeProxyHost hostId changes.apply) ∨
    ∃ error, ran = (.error (.service error), db) ∧
      (error = .notFound .proxyHost hostId ∨ ∃ message, error = .invalidReference message)

/-! ### Constraints of a changed row -/

section Constraints

variable {db : Database} {hostId : Id} {host : ProxyHost} {c sent : ProxyHostChanges}

/-- What the `UPDATE` of the row meets, the pool aside. -/
structure ProxyHostChanges.RowAccepted (c : ProxyHostChanges) (db : Database) (host : ProxyHost) :
    Prop where
  notNull : c.notNull = true
  check : (c.apply host).check = true
  certificate : references (c.apply host).certificateId Certificate.id db.certificates = true
  accessList : references (c.apply host).accessListId AccessList.id db.accessLists = true

theorem references_of_mem {α : Type} {key : α → Id} {rows : List α} {row : α} {ref : Option Id}
    (same : ref = some (key row)) (member : row ∈ rows) : references ref key rows = true := by
  subst same
  exact List.any_eq_true.mpr ⟨row, member, by simp⟩

/-- A pool that the check lets through exists. -/
theorem references_of_usable {ids : List Id} {what : String} {i : Id} (member : i ∈ ids)
    (usable : assertPoolsUsable db ids what = .ok ()) :
    references (some i) Upstream.id db.upstreams = true := by
  simp only [assertPoolsUsable] at usable
  split at usable
  next => cases usable
  next none_missing =>
    have missing := List.filter_eq_nil_iff.mp (not_not.mp none_missing) i (List.mem_dedup.mpr member)
    simp only [decide_eq_true_eq, not_not] at missing
    obtain ⟨pool, inside, same⟩ := List.mem_map.mp missing
    exact references_of_mem (congrArg some same.symm) (List.mem_of_mem_filter inside)

theorem pool_accepted (stored : db.Constraints) (inside : host ∈ db.proxyHosts)
    (usable : assertPoolsUsable db c.upstreamId.value?.toList "upstream" = .ok ()) :
    references (c.apply host).upstreamId Upstream.id db.upstreams = true := by
  simp only [ProxyHostChanges.apply]
  cases change : c.upstreamId with
  | unset => exact stored.hostPools host inside
  | null => rfl
  | set i =>
    rw [change] at usable
    exact references_of_usable (List.mem_singleton_self i) usable

/-- A changed row that keeps its id and some of its locations breaks nothing but what the row
itself is held to. -/
theorem changed_constraints_iff (stored : db.Constraints)
    (found : db.proxyHosts.find? (·.id = hostId) = some host) {f : ProxyHost → ProxyHost}
    (keeps : ∀ h, (f h).id = h.id) (fewer : ∀ h, (f h).locations.Sublist h.locations)
    (pool : references (f host).upstreamId Upstream.id db.upstreams = true) :
    (db.changeProxyHost hostId f).Constraints ↔ (f host).check = true ∧
      references (f host).certificateId Certificate.id db.certificates = true ∧
      references (f host).accessListId AccessList.id db.accessLists = true := by
  have inside : host ∈ db.proxyHosts := List.mem_of_find?_eq_some found
  have own : host.id = hostId := by simpa using List.find?_some found
  have only : ∀ h ∈ db.proxyHosts, h.id = hostId → h = host := fun h member same =>
    List.inj_on_of_nodup_map stored.proxyHostIds member inside (same.trans own.symm)
  constructor
  · intro accepted
    have member : f host ∈ (db.changeProxyHost hostId f).proxyHosts :=
      mem_updateAt.mpr ⟨host, inside, (if_pos own).symm⟩
    exact ⟨accepted.proxyHostChecks _ member, accepted.hostCertificates _ member,
      accepted.hostAccessLists _ member⟩
  · rintro ⟨check, certificate, accessList⟩
    have changed {P : ProxyHost → Prop} (before : ∀ h ∈ db.proxyHosts, P h) (row : P (f host)) :
        ∀ h ∈ (db.changeProxyHost hostId f).proxyHosts, P h :=
      forall_updateAt before fun h member same => only h member same ▸ row
    have member_of_fewer {P : ProxyHostLocation → Prop}
        (before : ∀ h ∈ db.proxyHosts, ∀ l ∈ h.locations, P l) :
        ∀ h ∈ (db.changeProxyHost hostId f).proxyHosts, ∀ l ∈ h.locations, P l :=
      changed before fun l member => before host inside l ((fewer host).subset member)
    exact { stored with
      proxyHostIds := by
        rw [Database.changeProxyHost, map_updateAt keeps]
        exact stored.proxyHostIds
      locationIds := (flatMap_updateAt_sublist fun h => (fewer h).map _).nodup stored.locationIds
      locationPaths := changed stored.locationPaths
        (((fewer host).map _).nodup (stored.locationPaths host inside))
      proxyHostChecks := changed stored.proxyHostChecks check
      locationChecks := member_of_fewer stored.locationChecks
      hostPools := changed stored.hostPools pool
      hostCertificates := changed stored.hostCertificates certificate
      hostAccessLists := changed stored.hostAccessLists accessList
      locationPools := member_of_fewer stored.locationPools
      locationPages := member_of_fewer stored.locationPages }

/-- Alone and with its locations cleared, the changed row is held to these. -/
theorem cleared_accepted_iff (stored : db.Constraints)
    (found : db.proxyHosts.find? (·.id = hostId) = some host)
    (usable : assertPoolsUsable db c.upstreamId.value?.toList "upstream" = .ok ()) :
    (c.notNull = true ∧ (db.changeProxyHost hostId c.cleared).Constraints) ↔
      c.RowAccepted db host := by
  have pool := pool_accepted (c := c) stored (List.mem_of_find?_eq_some found) usable
  have fewer : ∀ h, (c.cleared h).locations.Sublist h.locations := fun h => List.nil_sublist _
  rw [changed_constraints_iff (f := c.cleared) stored found (fun _ => rfl) fewer pool]
  constructor
  · rintro ⟨notNull, check, certificate, accessList⟩
    exact ⟨notNull, check, certificate, accessList⟩
  · rintro ⟨notNull, check, certificate, accessList⟩
    exact ⟨notNull, check, certificate, accessList⟩

/-- A row without its arrays of texts, which no constraint reads. -/
def ProxyHost.withoutArrays (h : ProxyHost) : ProxyHost :=
  { h with domainNames := [], maintenanceAllow := [] }

def Database.withoutArrays (db : Database) : Database :=
  { db with proxyHosts := db.proxyHosts.map ProxyHost.withoutArrays }

theorem constraints_withoutArrays (db : Database) :
    db.withoutArrays.Constraints ↔ db.Constraints := by
  simp only [Database.constraints_iff, Database.withoutArrays, List.map_map, List.flatMap_map,
    List.forall_mem_map]
  exact Iff.rfl

theorem constraints_congr {f g : ProxyHost → ProxyHost}
    (same : ∀ h, (f h).withoutArrays = (g h).withoutArrays) :
    (db.changeProxyHost hostId f).Constraints ↔ (db.changeProxyHost hostId g).Constraints := by
  have alike : (db.changeProxyHost hostId f).withoutArrays =
      (db.changeProxyHost hostId g).withoutArrays := by
    simp only [Database.withoutArrays, Database.changeProxyHost, updateAt, List.map_map,
      Function.comp_def, apply_ite ProxyHost.withoutArrays, same]
  rw [← constraints_withoutArrays, alike, constraints_withoutArrays]

/-- Two updates of a row that is there differ where they differ on it. -/
theorem changeProxyHost_inj (found : db.proxyHosts.find? (·.id = hostId) = some host)
    {f g : ProxyHost → ProxyHost} (keepsF : ∀ h, (f h).id = h.id) (keepsG : ∀ h, (g h).id = h.id)
    (same : db.changeProxyHost hostId f = db.changeProxyHost hostId g) : f host = g host := by
  have rows := congrArg (fun d => d.proxyHosts.find? (·.id = hostId)) same
  simp only [Database.changeProxyHost, find?_updateAt_self keepsF, find?_updateAt_self keepsG,
    found, Option.map_some, Option.some.injEq] at rows
  exact rows

end Constraints

/-! ### Parameters -/

section Parameters

variable {arrays : ArrayBinding} {c sent : ProxyHostChanges} {limit : Nat}

/-- An array that does not fit never arrives as it is. -/
theorem bindChange_misfits {change arrived : Change (List String)}
    (misfits : ¬change.value?.all (·.all (varcharFits limit)) = true)
    (taken : arrays.bindChange limit change = some arrived) (old : List String) :
    arrived.overValue old ≠ change.overValue old := by
  cases change with
  | unset => exact absurd rfl misfits
  | null => exact absurd rfl misfits
  | set texts =>
    obtain ⟨sent, bound, rfl⟩ := Option.map_eq_some_iff.mp taken
    intro same
    have kept : sent = texts := same
    rw [kept] at bound
    exact arrays.misfitting limit texts ((Bool.not_eq_true _).mp misfits) bound

theorem bindChange_fits {change : Change (List String)}
    (fits : change.value?.all (·.all (varcharFits limit)) = true) :
    arrays.bindChange limit change = some change := by
  cases change with
  | unset => rfl
  | null => rfl
  | set texts => exact congrArg (Option.map Change.set) (arrays.fitting limit texts fits)

theorem bound_eq_some (taken : c.bound arrays = some sent) : c.scalarsFit = true ∧
    ∃ names allow, arrays.bindChange 255 c.domainNames = some names ∧
      arrays.bindChange 64 c.maintenanceAllow = some allow ∧
      sent = { c with domainNames := names, maintenanceAllow := allow } := by
  simp only [ProxyHostChanges.bound] at taken
  split at taken
  next scalars =>
    obtain ⟨names, first, taken⟩ := Option.bind_eq_some_iff.mp taken
    obtain ⟨allow, second, rfl⟩ := Option.map_eq_some_iff.mp taken
    exact ⟨scalars, names, allow, first, second, rfl⟩
  next => cases taken

theorem bound_fits (fits : c.fits = true) : c.bound arrays = some c := by
  simp only [ProxyHostChanges.fits, Bool.and_eq_true] at fits
  obtain ⟨⟨scalars, names⟩, allow⟩ := fits
  rw [ProxyHostChanges.bound, if_pos scalars, bindChange_fits names, bindChange_fits allow]
  rfl

/-- What is sent is the row as asked for exactly when its values fit. -/
theorem sent_apply_eq_iff (taken : c.bound arrays = some sent) (h : ProxyHost) :
    sent.apply h = c.apply h ↔ c.fits = true := by
  constructor
  · intro same
    obtain ⟨scalars, names, allow, first, second, rfl⟩ := bound_eq_some taken
    have fitNames : c.domainNames.value?.all (·.all (varcharFits 255)) = true := by
      by_contra misfits
      exact bindChange_misfits misfits first _ (congrArg ProxyHost.domainNames same)
    have fitAllow : c.maintenanceAllow.value?.all (·.all (varcharFits 64)) = true := by
      by_contra misfits
      exact bindChange_misfits misfits second _ (congrArg ProxyHost.maintenanceAllow same)
    simp only [ProxyHostChanges.fits, scalars, fitNames, fitAllow, Bool.and_self]
  · intro fits
    rw [bound_fits fits, Option.some.injEq] at taken
    rw [taken]

theorem sent_withoutArrays (taken : c.bound arrays = some sent) (h : ProxyHost) :
    (sent.apply h).withoutArrays = (c.apply h).withoutArrays := by
  obtain ⟨_, _, _, _, _, rfl⟩ := bound_eq_some taken
  rfl

theorem sent_locations (taken : c.bound arrays = some sent) : sent.locations = c.locations := by
  obtain ⟨_, _, _, _, _, rfl⟩ := bound_eq_some taken
  rfl

theorem sendRows_accepted {db : Database} {notNull : Bool}
    (accepted : notNull = true ∧ db.Constraints) : sendRows (some db) notNull = .ok db := by
  simp only [sendRows, commit, if_pos accepted]
  rfl

theorem sendRows_refused {db : Database} {notNull : Bool}
    (refused : ¬(notNull = true ∧ db.Constraints)) :
    sendRows (some db) notNull = .error (.service .integrity) := by
  simp only [sendRows, commit, if_neg refused]
  rfl

end Parameters

/-! ### The contract -/

/-- The row as it is asked for breaks no constraint. -/
def ProxyHostChanges.Accepted (c : ProxyHostChanges) (db : Database) (hostId : Id) : Prop :=
  c.notNull = true ∧ (db.changeProxyHost hostId c.apply).Constraints

/-- What the statements need: parameters that the driver takes, a row that passes by itself
where locations are sent after it, and no text that is stored cut. -/
structure SendsCleanly (arrays : ArrayBinding) (db : Database) (host : ProxyHost)
    (c : ProxyHostChanges) : Prop where
  taken : (c.bound arrays).isSome
  row : ∀ locations, c.locations = some locations →
    c.RowAccepted db host ∧ locations.all ProxyHostLocation.fits = true
  whole : c.fits = true ∨ ¬c.Accepted db host.id

/-- Every id that is looked up is one of 64 bits, up to the first check that fails; where none
does, the statements go through. -/
def Translatable (arrays : ArrayBinding) (db : Database) (hostId : Id) (c : ProxyHostChanges) :
    Prop :=
  let locations := c.locations.getD []
  idFits hostId = true ∧ ∀ host, db.proxyHosts.find? (·.id = hostId) = some host →
    c.upstreamId.value?.toList.all idFits = true ∧
    (assertPoolsUsable db c.upstreamId.value?.toList "upstream" = .ok () →
      (locations.filterMap (·.upstreamId)).all idFits = true ∧
      (checkLocationPools db locations = .ok () →
        (locations.filterMap (·.customPageId)).all idFits = true ∧
        (checkLocationPages db locations = .ok () → SendsCleanly arrays db host c)))

section Contract

variable {arrays : ArrayBinding} {db : Database} {hostId : Id} {host : ProxyHost}
  {c sent : ProxyHostChanges}

/-- The two errors of the contract. -/
def Reported (hostId : Id) (e : ServiceError) : Prop :=
  e = .notFound .proxyHost hostId ∨ ∃ message, e = .invalidReference message

theorem typed_of_reported {e : ServiceError} (reported : Reported hostId e) :
    ReportsTyped db hostId c (.error (.service e), db) :=
  Or.inr ⟨e, rfl, reported⟩

theorem not_typed_dataError {content : Database} :
    ¬ReportsTyped db hostId c (.error .dataError, content) := by
  rintro (ended | ⟨e, ended, _⟩)
  · cases ended
  · cases ended

theorem not_typed_integrity {content : Database} :
    ¬ReportsTyped db hostId c (.error (.service .integrity), content) := by
  rintro (ended | ⟨e, ended, reported | ⟨_, reported⟩⟩)
  · cases ended
  · cases ended
    cases reported
  · cases ended
    cases reported

theorem reported_of_pools {ids : List Id} {what : String} {e : ServiceError}
    (raised : assertPoolsUsable db ids what = .error e) : Reported hostId e := by
  simp only [assertPoolsUsable] at raised
  split at raised
  next =>
    cases raised
    exact Or.inr ⟨_, rfl⟩
  next =>
    obtain ⟨pool, _, raised⟩ := error_of_forM_error raised
    simp only [assertUsableIn] at raised
    split at raised
    next => cases raised
    next =>
      cases raised
      exact Or.inr ⟨_, rfl⟩

theorem reported_of_pages {locations : List ProxyHostLocation} {e : ServiceError}
    (raised : checkLocationPages db locations = .error e) : Reported hostId e := by
  simp only [checkLocationPages] at raised
  split at raised
  next =>
    cases raised
    exact Or.inr ⟨_, rfl⟩
  next => cases raised

theorem reported_of_missing {e : ServiceError}
    (raised : orRaise (db.proxyHosts.find? (·.id = hostId))
      (ServiceError.notFound .proxyHost hostId) = .error e) : Reported hostId e := by
  cases found : db.proxyHosts.find? (·.id = hostId) with
  | none =>
    rw [found] at raised
    cases raised
    exact Or.inl rfl
  | some host =>
    rw [found] at raised
    cases raised

/-- A `SELECT` whose parameters fit raises what the service makes of its rows. -/
theorem selectByIds_error {α : Type} {ids : List Id} {f : Database → Except ServiceError α}
    {k : α → Work Database UpdateError Unit} {e : ServiceError} (fit : ids.all idFits = true)
    (refused : f db = .error e) :
    (selectByIds ids f >>= k) ⟨db, db⟩ = (.error (.service e), ⟨db, db⟩) :=
  Work.query_bind_error (by simp only [fit, if_true, refused]; rfl)

theorem selectByIds_ok {α : Type} {ids : List Id} {f : Database → Except ServiceError α}
    {k : α → Work Database UpdateError Unit} {a : α} (fit : ids.all idFits = true)
    (passed : f db = .ok a) : (selectByIds ids f >>= k) ⟨db, db⟩ = k a ⟨db, db⟩ :=
  Work.query_bind_ok (by simp only [fit, if_true, passed]; rfl)

/-- A lookup whose check raises nothing but the two errors: it is the ids that must fit, and
the rest that must end well where the check passes. -/
theorem typed_select_iff {α : Type} {ids : List Id} {f : Database → Except ServiceError α}
    {next : α → Work Database UpdateError Unit}
    (errors : ∀ e, f db = .error e → Reported hostId e) :
    ReportsTyped db hostId c ((selectByIds ids f >>= next).request db) ↔
      ids.all idFits = true ∧
        ∀ a, f db = .ok a → ReportsTyped db hostId c ((next a).request db) := by
  by_cases fit : ids.all idFits = true
  · cases checked : f db with
    | error e =>
      simp only [Work.request, selectByIds_error fit checked, fit, true_and]
      exact iff_of_true (typed_of_reported (errors e checked)) fun _ other => by cases other
    | ok a =>
      simp only [Work.request, selectByIds_ok fit checked, fit, true_and]
      exact ⟨fun typed _ same => by cases same; exact typed, fun typed => typed a rfl⟩
  · have refused : (selectByIds ids f >>= next) ⟨db, db⟩ = (.error .dataError, ⟨db, db⟩) :=
      Work.query_bind_error (if_neg fit)
    simp only [Work.request, refused]
    exact iff_of_false not_typed_dataError fun ⟨all, _⟩ => fit all

theorem typed_check_iff {ids : List Id} {f : Database → Except ServiceError Unit}
    {next : Work Database UpdateError Unit} (errors : ∀ e, f db = .error e → Reported hostId e) :
    ReportsTyped db hostId c ((selectByIds ids f >>= fun _ => next).request db) ↔
      ids.all idFits = true ∧ (f db = .ok () → ReportsTyped db hostId c (next.request db)) :=
  (typed_select_iff errors).trans
    (and_congr_right' ⟨fun each => each (), fun once _ => once⟩)

/-- The last flush and the commit, under the `except IntegrityError`: of the row as it was
sent, together with its locations. -/
theorem typed_lastFlush_iff (found : db.proxyHosts.find? (·.id = hostId) = some host)
    (taken : c.bound arrays = some sent) {u : UnitOfWork Database} (same : u.stored = db)
    {send : Database → Except UpdateError Database} {notNull : Bool}
    (nulls : notNull = true ↔ c.notNull = true)
    (rows : send u.pending = sendRows (some (db.changeProxyHost hostId sent.apply)) notNull) :
    let ran := Work.rescue asReferenceError (Work.flush send >>= fun _ => Work.commit) u
    ReportsTyped db hostId c (ran.1, ran.2.stored) ↔ c.fits = true ∨ ¬c.Accepted db hostId := by
  have alike : (db.changeProxyHost hostId sent.apply).Constraints ↔
      (db.changeProxyHost hostId c.apply).Constraints :=
    constraints_congr (sent_withoutArrays taken)
  intro ran
  have asked : (notNull = true ∧ (db.changeProxyHost hostId sent.apply).Constraints) ↔
      c.Accepted db hostId := and_congr nulls alike
  by_cases accepted : c.Accepted db hostId
  · have sends := rows.trans (sendRows_accepted (asked.mpr accepted))
    have done := Work.rescue_ok asReferenceError (Work.flush_commit_ok sends)
    have ended : (ran.1, ran.2.stored) = (.ok (), db.changeProxyHost hostId sent.apply) :=
      congrArg (fun r => (r.1, r.2.stored)) done
    simp only [ended, accepted, not_true_eq_false, or_false]
    rw [← sent_apply_eq_iff taken host]
    constructor
    · rintro (ended | ⟨_, ended, _⟩)
      · exact changeProxyHost_inj found (fun _ => rfl) (fun _ => rfl) (congrArg Prod.snd ended)
      · cases ended
    · intro whole
      have fits := (sent_apply_eq_iff taken host).mp whole
      rw [bound_fits fits, Option.some.injEq] at taken
      exact Or.inl (by rw [taken])
  · have sends := rows.trans (sendRows_refused (mt asked.mp accepted))
    obtain ⟨raised, kept⟩ := Work.rescue_error asReferenceError (Work.flush_bind_error sends)
    have ended : (ran.1, ran.2.stored) = (.error (.service (.invalidReference none)), db) :=
      Prod.ext raised (kept.trans same)
    rw [ended]
    exact iff_of_true (typed_of_reported (Or.inr ⟨none, rfl⟩)) (Or.inr accepted)

/-- The cleared row with the new locations is the row as it was sent. -/
theorem changeProxyHost_cleared {locations : List ProxyHostLocation}
    (given : sent.locations = some locations) :
    (db.changeProxyHost hostId sent.cleared).changeProxyHost hostId
      (ProxyHost.withLocations locations) = db.changeProxyHost hostId sent.apply := by
  have same : ProxyHost.withLocations locations ∘ sent.cleared = sent.apply := by
    funext h
    simp only [Function.comp_apply, ProxyHost.withLocations, ProxyHostChanges.cleared,
      ProxyHostChanges.apply, given, Option.getD_some]
  have keeps : ∀ h, (sent.cleared h).id = h.id := fun _ => rfl
  simp only [Database.changeProxyHost, updateAt_updateAt keeps, same]

theorem typed_send_none_iff (found : db.proxyHosts.find? (·.id = hostId) = some host)
    (taken : c.bound arrays = some sent) (given : c.locations = none) :
    ReportsTyped db hostId c ((sendChanges arrays hostId c).request db) ↔
      c.fits = true ∨ ¬c.Accepted db hostId := by
  simp only [sendChanges, given]
  exact typed_lastFlush_iff (u := ⟨db, db⟩) found taken rfl (Iff.refl (c.notNull = true))
    (by simp only [sendRow, taken, Option.map_some])

theorem typed_send_some_iff (stored : db.Constraints)
    (found : db.proxyHosts.find? (·.id = hostId) = some host)
    (usable : assertPoolsUsable db c.upstreamId.value?.toList "upstream" = .ok ())
    (taken : c.bound arrays = some sent) {locations : List ProxyHostLocation}
    (given : c.locations = some locations) :
    ReportsTyped db hostId c ((sendChanges arrays hostId c).request db) ↔
      (c.RowAccepted db host ∧ locations.all ProxyHostLocation.fits = true) ∧
        (c.fits = true ∨ ¬c.Accepted db hostId) := by
  have alike : (db.changeProxyHost hostId sent.cleared).Constraints ↔
      (db.changeProxyHost hostId c.cleared).Constraints :=
    constraints_congr fun h => congrArg (ProxyHost.withLocations []) (sent_withoutArrays taken h)
  have passes : (c.notNull = true ∧ (db.changeProxyHost hostId sent.cleared).Constraints) ↔
      c.RowAccepted db host :=
    (and_congr_right' alike).trans (cleared_accepted_iff stored found usable)
  simp only [sendChanges, given]
  -- first the row without its arrays, then the locations, then the arrays
  by_cases row : c.RowAccepted db host
  · have first : sendCleared arrays hostId c db =
        .ok (db.changeProxyHost hostId sent.cleared) := by
      simp only [sendCleared, taken, Option.map_some]
      exact sendRows_accepted (passes.mpr row)
    simp only [Work.request, Work.flush_bind_ok (u := ⟨db, db⟩) first, row, true_and]
    by_cases fit : locations.all ProxyHostLocation.fits = true
    · have replaced : sendLocations hostId locations (db.changeProxyHost hostId sent.cleared) =
          sendRows (some (db.changeProxyHost hostId sent.apply)) true := by
        rw [sendLocations, if_pos fit,
          changeProxyHost_cleared ((sent_locations taken).trans given)]
      simp only [fit, true_and]
      exact typed_lastFlush_iff (u := ⟨db, db.changeProxyHost hostId sent.cleared⟩) found taken rfl
        (iff_of_true rfl row.notNull) replaced
    · have refused : sendLocations hostId locations (db.changeProxyHost hostId sent.cleared) =
          .error .dataError := by
        rw [sendLocations, if_neg fit]
        rfl
      obtain ⟨raised, _⟩ := Work.rescue_error asReferenceError
        (Work.flush_bind_error (k := fun _ => Work.commit)
          (u := ⟨db, db.changeProxyHost hostId sent.cleared⟩) refused)
      rw [raised]
      exact iff_of_false not_typed_dataError fun clean => fit clean.1
  · have refused : sendCleared arrays hostId c db = .error (.service .integrity) := by
      simp only [sendCleared, taken, Option.map_some]
      exact sendRows_refused (mt passes.mp row)
    simp only [Work.request, Work.flush_bind_error (u := ⟨db, db⟩) refused]
    exact iff_of_false not_typed_integrity fun clean => row clean.1.1

/-- Where the driver refuses the row, the flush that comes first raises. -/
theorem send_refused (refused : c.bound arrays = none) :
    (sendChanges arrays hostId c).request db = (.error .dataError, db) := by
  cases given : c.locations with
  | none =>
    simp only [sendChanges, given, Work.request, Work.rescue, Work.flush, bind, sendRow, refused,
      Option.map_none, sendRows, asReferenceError]
  | some locations =>
    simp only [sendChanges, given, Work.request, Work.flush, bind, sendCleared, refused,
      Option.map_none, sendRows]

/-- What is sent after the lookups. -/
theorem typed_send_iff (stored : db.Constraints)
    (found : db.proxyHosts.find? (·.id = hostId) = some host)
    (usable : assertPoolsUsable db c.upstreamId.value?.toList "upstream" = .ok ()) :
    ReportsTyped db hostId c ((sendChanges arrays hostId c).request db) ↔
      SendsCleanly arrays db host c := by
  have own : host.id = hostId := by simpa using List.find?_some found
  subst own
  cases taken : c.bound arrays with
  | none =>
    rw [send_refused taken]
    refine iff_of_false not_typed_dataError fun clean => ?_
    have arrived := clean.taken
    rw [taken] at arrived
    cases arrived
  | some sent =>
    have arrived : (c.bound arrays).isSome := by
      rw [taken]
      rfl
    cases given : c.locations with
    | none =>
      refine (typed_send_none_iff found taken given).trans ⟨fun whole => ⟨arrived, ?_, whole⟩,
        fun clean => clean.whole⟩
      intro locations other
      rw [given] at other
      cases other
    | some locations =>
      refine (typed_send_some_iff stored found usable taken given).trans ⟨?_, ?_⟩
      · rintro ⟨row, whole⟩
        refine ⟨arrived, ?_, whole⟩
        intro others same
        rw [given] at same
        cases same
        exact row
      · intro clean
        exact ⟨clean.row locations given, clean.whole⟩

/-- A stored host is updated as asked for, or the call says in one of its two errors why it is
not, exactly when what is looked up and sent is translatable. -/
theorem reportsTyped_iff (arrays : ArrayBinding) (db : Database) (hostId : Id)
    (c : ProxyHostChanges) (stored : db.Constraints) :
    ReportsTyped db hostId c ((updateProxyHostCall arrays hostId c).request db) ↔
      Translatable arrays db hostId c := by
  rw [updateProxyHostCall, typed_select_iff fun _ => reported_of_missing]
  simp only [Translatable, List.all_cons, List.all_nil, Bool.and_true]
  refine and_congr_right' (forall_congr' fun host => ?_)
  have found_iff : orRaise (db.proxyHosts.find? (·.id = hostId))
      (ServiceError.notFound .proxyHost hostId) = .ok host ↔
        db.proxyHosts.find? (·.id = hostId) = some host :=
    ⟨orRaise_eq_ok, fun found => by rw [found]; rfl⟩
  rw [found_iff]
  refine imp_congr_right fun found => ?_
  -- the three checks in turn, then the statements
  rw [typed_check_iff fun _ => reported_of_pools]
  refine and_congr_right' (imp_congr_right fun usable => ?_)
  rw [typed_check_iff fun _ => reported_of_pools]
  refine and_congr_right' (imp_congr_right fun _ => ?_)
  rw [typed_check_iff fun _ => reported_of_pages]
  exact and_congr_right' (imp_congr_right fun _ => typed_send_iff stored found usable)

/-- A driver that raises for every text that is too long. -/
def ArrayBinding.raising : ArrayBinding where
  bind limit texts := if texts.all (varcharFits limit) = true then some texts else none
  fitting _ _ fits := if_pos fits
  misfitting _ _ misfits := by
    rw [if_neg (by rw [misfits]; decide)]
    exact fun same => by cases same

/-- One host with a pool of its own. -/
def pooledHost : Database where
  proxyHosts := [{ id := 1, domainNames := ["a.test"], upstreamId := some 5 }]
  upstreams := [{ id := 5, name := "app" }]

/-- The whole form sent again, with a domain added. -/
theorem reportsTyped_renamed : ReportsTyped pooledHost 1
    { domainNames := .set ["a.test", "b.test"], upstreamId := .set 5, locations := some [] }
    ((updateProxyHostCall .raising 1
      { domainNames := .set ["a.test", "b.test"], upstreamId := .set 5,
        locations := some [] }).request pooledHost) := by
  refine (reportsTyped_iff .raising pooledHost 1 _ (by decide)).mpr ⟨by decide, ?_⟩
  intro host found
  cases found
  refine ⟨by decide, fun _ => ⟨by decide, fun _ => ⟨by decide, fun _ => ⟨by decide, ?_, ?_⟩⟩⟩⟩
  · intro locations given
    cases given
    exact ⟨⟨by decide, by decide, by decide, by decide⟩, by decide⟩
  · exact Or.inl (by decide)

/-- A certificate that is gone, on a host saved together with its locations: the first flush
raises, where no handler is. -/
theorem vanished_certificate_escapes : pooledHost.Constraints ∧
    (updateProxyHostCall .raising 1
      { certificateId := .set 99, locations := some [] }).request pooledHost =
        (.error (.service .integrity), pooledHost) ∧
    ¬ReportsTyped pooledHost 1 { certificateId := .set 99, locations := some [] }
      ((updateProxyHostCall .raising 1
        { certificateId := .set 99, locations := some [] }).request pooledHost) := by
  have ended : (updateProxyHostCall .raising 1
      { certificateId := .set 99, locations := some [] }).request pooledHost =
        (.error (.service .integrity), pooledHost) := by rfl
  refine ⟨by decide, ended, ?_⟩
  rw [ended]
  exact not_typed_integrity

/-! ### Where every value fits -/

/-- Every id that is looked up and every value that is sent fits. -/
structure FitsColumns (hostId : Id) (c : ProxyHostChanges) : Prop where
  host : idFits hostId = true
  pool : c.upstreamId.value?.toList.all idFits = true
  locationPools : ((c.locations.getD []).filterMap (·.upstreamId)).all idFits = true
  locationPages : ((c.locations.getD []).filterMap (·.customPageId)).all idFits = true
  row : c.fits = true
  locations : (c.locations.getD []).all ProxyHostLocation.fits = true

/-- The end of a call that commits or raises, as its request leaves it. -/
def settled (db : Database) : Except ServiceError Database → Except UpdateError Unit × Database
  | .ok committed => (.ok (), committed)
  | .error e => (.error (.service e), db)

theorem select_settled {α : Type} {ids : List Id} {f : Database → Except ServiceError α}
    {next : α → Work Database UpdateError Unit} {rest : α → Except ServiceError Database}
    (fit : ids.all idFits = true) (after : ∀ a, (next a).request db = settled db (rest a)) :
    (selectByIds ids f >>= next).request db = settled db (f db >>= rest) := by
  cases checked : f db with
  | error e =>
    simp only [Work.request, selectByIds_error fit checked]
    rfl
  | ok a =>
    simp only [Work.request, selectByIds_ok fit checked]
    exact after a

/-- The last flush and its commit, where nothing is left but the constraints. -/
theorem lastFlush_settled {u : UnitOfWork Database} (same : u.stored = db)
    {send : Database → Except UpdateError Database} {content : Database} {notNull : Bool}
    (rows : send u.pending = sendRows (some content) notNull) :
    let ran := Work.rescue asReferenceError (Work.flush send >>= fun _ => Work.commit) u
    (ran.1, ran.2.stored) = settled db (commitOr content notNull (.invalidReference none)) := by
  intro ran
  by_cases accepted : notNull = true ∧ content.Constraints
  · have sends := rows.trans (sendRows_accepted accepted)
    have done := Work.rescue_ok asReferenceError (Work.flush_commit_ok sends)
    rw [commitOr, commit, if_pos accepted]
    exact congrArg (fun r => (r.1, r.2.stored)) done
  · have sends := rows.trans (sendRows_refused accepted)
    obtain ⟨raised, kept⟩ := Work.rescue_error asReferenceError
      (Work.flush_bind_error (k := fun _ => Work.commit) sends)
    rw [commitOr, commit, if_neg accepted]
    exact Prod.ext raised (kept.trans same)

theorem send_settled (fit : FitsColumns hostId c) :
    (sendChanges arrays hostId c).request db =
      settled db (flushCleared db hostId c >>= fun _ =>
        commitOr (db.changeProxyHost hostId c.apply) c.notNull (.invalidReference none)) := by
  have taken : c.bound arrays = some c := bound_fits fit.row
  cases given : c.locations with
  | none =>
    simp only [sendChanges, flushCleared, given]
    exact lastFlush_settled (u := ⟨db, db⟩) rfl (by simp only [sendRow, taken, Option.map_some])
  | some locations =>
    have cleared : sendCleared arrays hostId c db =
        sendRows (some (db.changeProxyHost hostId c.cleared)) c.notNull := by
      simp only [sendCleared, taken, Option.map_some]
    have fits := fit.locations
    rw [given, Option.getD_some] at fits
    simp only [sendChanges, flushCleared, given]
    by_cases accepted : c.notNull = true ∧ (db.changeProxyHost hostId c.cleared).Constraints
    · have first : commit (db.changeProxyHost hostId c.cleared) c.notNull =
          .ok (db.changeProxyHost hostId c.cleared) := if_pos accepted
      have replaced : sendLocations hostId locations (db.changeProxyHost hostId c.cleared) =
          sendRows (some (db.changeProxyHost hostId c.apply)) c.notNull := by
        rw [sendLocations, if_pos fits, changeProxyHost_cleared given, accepted.1]
      simp only [Work.request,
        Work.flush_bind_ok (u := ⟨db, db⟩) (cleared.trans (sendRows_accepted accepted))]
      refine (lastFlush_settled (u := ⟨db, db.changeProxyHost hostId c.cleared⟩) rfl
        replaced).trans ?_
      exact congrArg (fun x => settled db (x.map (fun _ => ()) >>= fun _ => _)) first.symm
    · have first : commit (db.changeProxyHost hostId c.cleared) c.notNull = .error .integrity :=
        if_neg accepted
      simp only [Work.request,
        Work.flush_bind_error (u := ⟨db, db⟩) (cleared.trans (sendRows_refused accepted))]
      exact congrArg (fun x => settled db (x.map (fun _ => ()) >>= fun _ => _)) first.symm

/-- Where every value fits, the statements come to what `updateProxyHost` says of the call. -/
theorem updateProxyHostCall_eq_settled (fit : FitsColumns hostId c) :
    (updateProxyHostCall arrays hostId c).request db =
      settled db (updateProxyHost db hostId c) := by
  refine select_settled (by simp [fit.host]) fun _ => ?_
  refine select_settled fit.pool fun _ => ?_
  refine select_settled fit.locationPools fun _ => ?_
  refine select_settled fit.locationPages fun _ => ?_
  exact send_settled fit

end Contract

end MegooPM
