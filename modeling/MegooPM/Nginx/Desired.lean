import MegooPM.Nginx.TlsPlan

/-!
# The desired state

What `load_desired_state` returns, as a function of the database: no cache, no order of
visits. On a database that meets its constraints the loader never raises and returns
exactly this.
-/
namespace MegooPM

open Lib

/-! ### The included rows -/

/-- The proxy hosts that are rendered, in id order. -/
def includedHosts (db : Database) : List ProxyHost :=
  (sortedBy (·.id) (db.proxyHosts.filter (·.enabled))).filter fun h => keepsTarget db h.upstreamId

/-- The streams that are rendered, in id order. -/
def includedStreams (db : Database) : List Stream :=
  (sortedBy (·.id) (db.streams.filter (·.enabled))).filter fun s => keepsTarget db s.upstreamId

/-- The pools of a list of references, in id order. -/
def poolsOf (db : Database) (refs : List Id) : List UpstreamSpec :=
  (sortedBy id refs.dedup).map (poolSpec db)

theorem mem_includedHosts {db : Database} {h : ProxyHost} :
    h ∈ includedHosts db ↔
      h ∈ db.proxyHosts ∧ h.enabled = true ∧ keepsTarget db h.upstreamId = true := by
  simp [includedHosts, and_assoc]

theorem mem_includedStreams {db : Database} {s : Stream} :
    s ∈ includedStreams db ↔
      s ∈ db.streams ∧ s.enabled = true ∧ keepsTarget db s.upstreamId = true := by
  simp [includedStreams, and_assoc]

theorem mem_keptLocations {db : Database} {h : ProxyHost} {l : ProxyHostLocation} :
    l ∈ keptLocations db h ↔ l ∈ h.locations ∧ keepsLocation db l = true := by
  simp [keptLocations]

theorem mem_poolsOf {db : Database} {refs : List Id} {u : UpstreamSpec} :
    u ∈ poolsOf db refs ↔ ∃ i ∈ refs, poolSpec db i = u := by
  simp [poolsOf, List.mem_dedup]

/-! ### The whole state -/

/-- Everything but the default-TLS plan. -/
def desiredHosts (cfg : Deployment) (db : Database) : DesiredState :=
  let hosts := (includedHosts db).map (loadedHost cfg db)
  let streams := (includedStreams db).map (streamSpec cfg db)
  { proxyHosts := hosts
    httpUpstreams := poolsOf db (httpReferences hosts)
    redirectionHosts := loadRedirectionHosts cfg db
    deadHosts := loadDeadHosts cfg db
    streams := streams
    streamUpstreams := poolsOf db (streams.filterMap (·.upstreamId))
    defaultSite := loadDefaultSite db
    banPage := loadBanPage db
    maintenance := loadMaintenance db
    errorPages := loadErrorPages db }

def desiredState (cfg : Deployment) (db : Database) : DesiredState :=
  { desiredHosts cfg db with
    defaultTls := tlsPlan cfg (loadCertificates db) (claimedTlsNames (desiredHosts cfg db)) }

/-! ### The loader returns it -/

private theorem poolsOf_empty (db : Database) : PoolsOf db ∅ := by
  intro i spec found
  simp at found

/-- Only a location that targets a pool names one. -/
theorem target_of_check {l : ProxyHostLocation} (check : l.check = true) {i : Id}
    (names : l.upstreamId = some i) : l.target = .pool := by
  cases target : l.target with
  | pool => rfl
  | _ => simp [ProxyHostLocation.check, target, names] at check

/-- The references of the included hosts. -/
theorem mem_httpReferences {cfg : Deployment} {db : Database} {i : Id} :
    i ∈ httpReferences ((includedHosts db).map (loadedHost cfg db)) ↔
      ∃ h ∈ includedHosts db, h.upstreamId = some i ∨
        ∃ l ∈ keptLocations db h, l.upstreamId = some i := by
  simp only [httpReferences, List.mem_append, List.mem_filterMap, List.mem_flatMap, List.mem_map]
  constructor
  · rintro (⟨_, ⟨h, member, rfl⟩, own⟩ | ⟨_, ⟨h, member, rfl⟩, _, located, own⟩)
    · exact ⟨h, member, Or.inl own⟩
    · obtain ⟨l, kept, rfl⟩ := List.mem_map.mp located
      exact ⟨h, member, Or.inr ⟨l, kept, own⟩⟩
  · rintro ⟨h, member, own | ⟨l, kept, own⟩⟩
    · exact Or.inl ⟨_, ⟨h, member, rfl⟩, own⟩
    · exact Or.inr ⟨_, ⟨h, member, rfl⟩, _, List.mem_map_of_mem kept, own⟩

private theorem loadStreams_ok (cfg : Deployment) (db : Database) :
    loadStreams cfg db = .ok ((includedStreams db).map (streamSpec cfg db),
      poolsOf db (((includedStreams db).map (streamSpec cfg db)).filterMap (·.upstreamId))) := by
  obtain ⟨specs, grown⟩ := loadStreamRows_spec cfg db
    (sortedBy (·.id) (db.streams.filter (·.enabled))) (poolsOf_empty db)
  change (loadStreamRows cfg db _ ∅).2 = (includedStreams db).map (streamSpec cfg db) at specs
  have covers : ∀ i ∈ ((includedStreams db).map (streamSpec cfg db)).filterMap (·.upstreamId),
      (loadStreamRows cfg db (sortedBy (·.id) (db.streams.filter (·.enabled))) ∅).1[i]? =
        some (poolSpec db i) := by
    intro i member
    obtain ⟨_, located, own⟩ := List.mem_filterMap.mp member
    obtain ⟨s, kept, rfl⟩ := List.mem_map.mp located
    obtain ⟨inside, keeps⟩ := List.mem_filter.mp kept
    exact grown.covers i ⟨s, inside, keeps, own⟩
  simp only [loadStreams]
  rw [specs, referencedPools_ok covers]
  rfl

/-- The certificates the plan reads are active, in strict id order. -/
theorem loadCertificates_active {db : Database} {c : Certificate} (member : c ∈ loadCertificates db) :
    c ∈ db.certificates ∧ c.status = .active := by
  simpa [loadCertificates] using member

theorem loadCertificates_ordered {db : Database} (ids : (db.certificates.map (·.id)).Nodup) :
    (loadCertificates db).Pairwise fun a b => a.id < b.id := by
  have sorted := pairwise_sortedBy (·.id) (db.certificates.filter fun c => c.status = .active)
  have distinct : ((loadCertificates db).map (·.id)).Nodup := by
    have kept := (List.filter_sublist (p := fun c : Certificate => c.status = .active)
      (l := db.certificates)).map (·.id)
    exact ((sortedBy_perm _ _).map _).nodup_iff.mpr (kept.nodup ids)
  rw [List.Nodup, List.pairwise_map] at distinct
  exact (sorted.and distinct).imp fun ⟨below, differ⟩ => lt_of_le_of_ne below differ

/-- On a database that meets its constraints the loader raises nothing and returns the
desired state. -/
theorem loadDesiredState_ok (cfg : Deployment) {db : Database} (constraints : db.Constraints) :
    loadDesiredState cfg db = .ok (desiredState cfg db) := by
  obtain ⟨specs, grown⟩ := loadProxyHosts_spec cfg db
    (sortedBy (·.id) (db.proxyHosts.filter (·.enabled))) (poolsOf_empty db)
  change (loadProxyHosts cfg db _ ∅).2 = (includedHosts db).map (loadedHost cfg db) at specs
  have covers : ∀ i ∈ httpReferences ((includedHosts db).map (loadedHost cfg db)),
      (loadProxyHosts cfg db (sortedBy (·.id) (db.proxyHosts.filter (·.enabled))) ∅).1[i]? =
        some (poolSpec db i) := by
    intro i member
    obtain ⟨h, included, refers⟩ := mem_httpReferences.mp member
    obtain ⟨row, _, _⟩ := mem_includedHosts.mp included
    obtain ⟨inside, keeps⟩ := List.mem_filter.mp included
    refine grown.covers i ⟨h, inside, keeps, refers.imp_right ?_⟩
    rintro ⟨l, kept, own⟩
    have check := constraints.locationChecks h row l (mem_keptLocations.mp kept).1
    exact ⟨l, kept, target_of_check check own, own⟩
  have plan := fun claimed => planDefaultTls_ok cfg claimed
    (fun c member => (loadCertificates_active member).2)
    (loadCertificates_ordered constraints.certificateIds)
  simp only [loadDesiredState]
  rw [specs, referencedPools_ok covers, loadStreams_ok]
  simp only [bind, Except.bind, plan]
  rfl

end MegooPM
