import MegooPM.Nginx.TemplateFacts
import MegooPM.Nginx.AllOrNothing

/-!
# Pool references

In each context the pools that are named are the pools that are defined. The http
context always is closed this way. In the stream context the loader collects the pool of
every stream, while the template tests `stream.upstream_id` for truth: a stream on the
pool with the id `0` brings its pool along and then does not name it.
-/
namespace MegooPM

open Lib

/-! ### Names -/

private theorem colon_notMem_poolName (i : Id) : ':' ∉ (poolName i).toList := by
  rw [poolName_eq, String.toList_append]
  intro member
  rcases List.mem_append.mp member with head | tail
  · revert head
    decide
  · exact colon_notMem_int i tail

/-- A literal `host:port` is no pool name. -/
theorem poolName_ne_literal (i : Id) (host port : String) : poolName i ≠ host ++ ":" ++ port := by
  intro same
  apply colon_notMem_poolName i
  rw [same]
  simp

/-- A target names a pool only if it has one. -/
theorem targetOf_eq_poolName {upstreamId : Option Id} {host : Option String} {port : Option Nat}
    {i : Id} (same : targetOf upstreamId host port = poolName i) : upstreamId = some i := by
  cases upstreamId with
  | none => exact absurd same.symm (poolName_ne_literal i _ _)
  | some j => rw [poolName_injective same]

theorem streamTarget_eq_poolName {s : StreamSpec} {i : Id} (same : streamTarget s = poolName i) :
    s.upstreamId = some i ∧ i ≠ 0 := by
  unfold streamTarget at same
  cases pool : streamPool s with
  | none =>
    rw [pool] at same
    exact absurd same.symm (poolName_ne_literal i _ _)
  | some j =>
    rw [pool] at same
    rw [poolName_injective same] at pool
    simpa [streamPool, Option.filter_eq_some_iff] using pool

theorem passTo_injective {scheme scheme' : HttpScheme} {target target' : String}
    (same : passTo scheme target = passTo scheme' target') : target = target' := by
  have texts := congrArg String.toList (List.head_eq_of_cons_eq same)
  simp only [String.toList_append] at texts
  have cancel : ∀ scheme : HttpScheme,
      scheme.value.toList ++ "://".toList ++ target.toList =
        scheme.value.toList ++ "://".toList ++ target'.toList → target = target' := by
    intro scheme equal
    exact String.toList_inj.mp (List.append_cancel_left equal)
  cases scheme <;> cases scheme'
  · exact cancel .http texts
  · simp [HttpScheme.value] at texts
  · simp [HttpScheme.value] at texts
  · exact cancel .https texts

/-! ### Closure -/

/-- In a directory where a `proxy_pass` can name pools: a pool that is named is defined
once, and one that is defined is named. -/
structure PoolsClosed (bodies : Bodies) (names : List String → Id → Prop) : Prop where
  defined : ∀ args ∈ bodies.directives "proxy_pass", ∀ i, names args i →
    ((bodies.blocks "upstream").map (·.1)).count [poolName i] = 1
  used : ∀ block ∈ bodies.blocks "upstream", ∃ i, block.1 = [poolName i] ∧
    ∃ args ∈ bodies.directives "proxy_pass", names args i

/-- How http names a pool. -/
def namesHttp (args : List String) (i : Id) : Prop :=
  ∃ scheme, args = passTo scheme (poolName i)

/-- How the stream context names a pool. -/
def namesStream (args : List String) (i : Id) : Prop :=
  args = [poolName i]

/-- The loader raises nothing and both contexts of its result are closed. -/
def PoolClosure (cfg : Deployment) (db : Database) : Prop :=
  ∃ state, loadDesiredState cfg db = .ok state ∧
    PoolsClosed (configBodies cfg state) namesHttp ∧
    ∀ bodies, streamBodies state = .ok bodies → PoolsClosed bodies namesStream

section Http

variable {cfg : Deployment} {db : Database}

/-- The target of a kept location is looked up under a path of its own. -/
theorem routeTarget_loadedHost {h : ProxyHost} (paths : (h.locations.map (·.path)).Nodup)
    {l : ProxyHostLocation} (kept : l ∈ keptLocations db h) (proxies : l.target.proxies = true) :
    routeTarget (loadedHost cfg db h) (locationSpec db l) =
      targetOf l.upstreamId l.forwardHost l.forwardPort := by
  have found : (locationTargets (loadedHost cfg db h))[l.path]? =
      some (targetOf l.upstreamId l.forwardHost l.forwardPort) := by
    apply Dict.get_ofPairs
    · refine List.mem_map.mpr ⟨locationSpec db l, List.mem_filter.mpr ⟨?_, proxies⟩, rfl⟩
      exact List.mem_map_of_mem kept
    · intro w member
      obtain ⟨spec, inside, same⟩ := List.mem_map.mp member
      obtain ⟨located, _⟩ := List.mem_filter.mp inside
      obtain ⟨m, kept', rfl⟩ := List.mem_map.mp located
      obtain ⟨path, rfl⟩ := Prod.mk.inj same
      have equal : m = l := List.inj_on_of_nodup_map paths (mem_keptLocations.mp kept').1
        (mem_keptLocations.mp kept).1 path
      rw [equal]
      rfl
  simp only [routeTarget, show (locationSpec db l).path = l.path from rfl, found, Option.getD_some]

theorem httpClosed (cfg : Deployment) {db : Database} (constraints : db.Constraints) :
    PoolsClosed (configBodies cfg (desiredState cfg db)) namesHttp := by
  have distinct := distinctSpecs_desiredState cfg constraints
  constructor
  · rintro args passes i ⟨scheme, rfl⟩
    obtain ⟨spec, host, source⟩ := (mem_proxyPass_config distinct).mp passes
    obtain ⟨h, included, rfl⟩ := List.mem_map.mp host
    have row := (mem_includedHosts.mp included).1
    have refers : h.upstreamId = some i ∨ ∃ l ∈ keptLocations db h, l.upstreamId = some i := by
      -- the pool of the host itself, or that of a location which was kept
      rcases source with own | ⟨_, located, proxies, routed⟩
      · exact Or.inl (targetOf_eq_poolName (passTo_injective own).symm)
      · obtain ⟨l, kept, rfl⟩ := List.mem_map.mp located
        have target := passTo_injective routed
        rw [routeTarget_loadedHost (constraints.locationPaths h row) kept proxies] at target
        exact Or.inr ⟨l, kept, targetOf_eq_poolName target.symm⟩
    have pool : poolSpec db i ∈ (desiredState cfg db).httpUpstreams :=
      mem_poolsOf.mpr ⟨i, mem_httpReferences.mpr ⟨h, included, refers⟩, rfl⟩
    have once : (((configBodies cfg (desiredState cfg db)).blocks "upstream").map (·.1)).count
        [poolName (poolSpec db i).id] = 1 := count_upstream_config distinct pool
    rwa [poolSpec_id] at once
  · intro block defined
    obtain ⟨u, pool, rfl⟩ := (mem_upstream_config distinct).mp defined
    obtain ⟨i, referred, rfl⟩ := mem_poolsOf.mp pool
    obtain ⟨h, included, refers⟩ := mem_httpReferences.mp referred
    have row := (mem_includedHosts.mp included).1
    refine ⟨i, by rw [poolSpec_id], ?_⟩
    rcases refers with own | ⟨l, kept, own⟩
    · refine ⟨passTo h.forwardScheme (poolName i), ?_, h.forwardScheme, rfl⟩
      refine (mem_proxyPass_config distinct).mpr ⟨_, List.mem_map_of_mem included, Or.inl ?_⟩
      simp [loadedHost, proxyHostSpec, hostTarget, targetOf, own]
    · have check := constraints.locationChecks h row l (mem_keptLocations.mp kept).1
      have proxies : l.target.proxies = true := by
        rw [target_of_check check own]
        rfl
      refine ⟨passTo l.forwardScheme (poolName i), ?_, l.forwardScheme, rfl⟩
      refine (mem_proxyPass_config distinct).mpr ⟨_, List.mem_map_of_mem included,
        Or.inr ⟨locationSpec db l, List.mem_map_of_mem kept, proxies, ?_⟩⟩
      rw [routeTarget_loadedHost (constraints.locationPaths h row) kept proxies, own]
      rfl

end Http

section Stream

variable {cfg : Deployment} {db : Database}

/-- The pools of the included streams. -/
theorem mem_streamReferences {i : Id} :
    i ∈ ((includedStreams db).map (streamSpec cfg db)).filterMap (·.upstreamId) ↔
      ∃ s ∈ includedStreams db, s.upstreamId = some i := by
  simp only [List.mem_filterMap, List.mem_map]
  constructor
  · rintro ⟨_, ⟨s, member, rfl⟩, own⟩
    exact ⟨s, member, own⟩
  · rintro ⟨s, member, own⟩
    exact ⟨_, ⟨s, member, rfl⟩, own⟩

/-- Some included stream is on a pool that balances by `ip_hash`. -/
def StreamOnIpHash (db : Database) : Prop :=
  ∃ s ∈ includedStreams db, ∃ i, s.upstreamId = some i ∧ (poolSpec db i).lbMethod = .ipHash

/-- The stream rendering raises exactly on such a pool. -/
theorem streamBodies_ok_iff (cfg : Deployment) (db : Database) :
    (∃ bodies, streamBodies (desiredState cfg db) = .ok bodies) ↔ ¬StreamOnIpHash db := by
  have pools : ∀ u, u ∈ (desiredState cfg db).streamUpstreams ↔
      ∃ s ∈ includedStreams db, ∃ i, s.upstreamId = some i ∧ poolSpec db i = u := by
    intro u
    refine mem_poolsOf.trans ?_
    constructor
    · rintro ⟨i, referred, rfl⟩
      obtain ⟨s, member, own⟩ := mem_streamReferences.mp referred
      exact ⟨s, member, i, own, rfl⟩
    · rintro ⟨s, member, i, own, rfl⟩
      exact ⟨i, mem_streamReferences.mpr ⟨s, member, own⟩, rfl⟩
  constructor
  · rintro ⟨bodies, rendered⟩ ⟨s, member, i, own, ipHash⟩
    obtain ⟨pairs, listed, _⟩ := map_eq_ok rendered
    obtain ⟨upstreams, looped, _⟩ := bind_eq_ok listed
    obtain ⟨file, single⟩ := ok_of_mapM_ok looped _ ((pools _).mpr ⟨s, member, i, own, rfl⟩)
    simp only [renderStreamUpstream, ipHash, if_true] at single
    cases single
  · intro balanced
    have each : ∀ u ∈ (desiredState cfg db).streamUpstreams,
        renderStreamUpstream u = .ok (renderUpstream u) := by
      intro u pool
      obtain ⟨s, member, i, own, rfl⟩ := (pools u).mp pool
      rw [renderStreamUpstream, if_neg]
      exact fun ipHash => balanced ⟨s, member, i, own, ipHash⟩
    have listed : streamPairs (desiredState cfg db) =
        .ok ((desiredState cfg db).streamUpstreams.map renderUpstream ++
          (desiredState cfg db).streams.map fun s =>
            (streamFilename s.id, FileBody.conf (streamConf s))) := by
      rw [streamPairs, mapM_eq_ok each]
      rfl
    exact ⟨_, by rw [streamBodies, listed]; rfl⟩

/-- A stream names its pool unless the id is `0`. -/
private theorem streamTarget_spec {s : Stream} {i : Id} (own : s.upstreamId = some i) (some_ : i ≠ 0) :
    streamTarget (streamSpec cfg db s) = poolName i := by
  have pool : streamPool (streamSpec cfg db s) = some i := by
    simp [streamPool, streamSpec, own, some_]
  simp only [streamTarget, pool]

theorem streamClosed {bodies : Bodies} (constraints : db.Constraints)
    (rendered : streamBodies (desiredState cfg db) = .ok bodies)
    (named : ∀ s ∈ includedStreams db, s.upstreamId ≠ some 0) : PoolsClosed bodies namesStream := by
  have distinct := distinctSpecs_desiredState cfg constraints
  constructor
  · rintro args passes i rfl
    obtain ⟨_, member, same⟩ := (mem_proxyPass_stream distinct rendered).mp passes
    obtain ⟨s, included, rfl⟩ := List.mem_map.mp member
    obtain ⟨own, _⟩ := streamTarget_eq_poolName (List.head_eq_of_cons_eq same).symm
    have pool : poolSpec db i ∈ (desiredState cfg db).streamUpstreams :=
      mem_poolsOf.mpr ⟨i, mem_streamReferences.mpr ⟨s, included, own⟩, rfl⟩
    have once := count_upstream_stream distinct rendered pool
    rwa [poolSpec_id] at once
  · intro block defined
    obtain ⟨u, pool, rfl⟩ := (mem_upstream_stream distinct rendered).mp defined
    obtain ⟨i, referred, rfl⟩ := mem_poolsOf.mp pool
    obtain ⟨s, included, own⟩ := mem_streamReferences.mp referred
    refine ⟨i, by rw [poolSpec_id], [poolName i], ?_, rfl⟩
    refine (mem_proxyPass_stream distinct rendered).mpr ⟨_, List.mem_map_of_mem included, ?_⟩
    rw [streamTarget_spec own]
    rintro rfl
    exact named s included own

/-- The pool with the id `0` is defined for a stream that does not name it. -/
theorem not_streamClosed {bodies : Bodies} (constraints : db.Constraints)
    (rendered : streamBodies (desiredState cfg db) = .ok bodies) {s : Stream}
    (included : s ∈ includedStreams db) (own : s.upstreamId = some 0) :
    ¬PoolsClosed bodies namesStream := by
  intro closed
  have distinct := distinctSpecs_desiredState cfg constraints
  have pool : poolSpec db 0 ∈ (desiredState cfg db).streamUpstreams :=
    mem_poolsOf.mpr ⟨0, mem_streamReferences.mpr ⟨s, included, own⟩, rfl⟩
  obtain ⟨i, named, args, passes, rfl⟩ := closed.used _
    ((mem_upstream_stream distinct rendered).mpr ⟨_, pool, rfl⟩)
  rw [poolSpec_id] at named
  have zero := poolName_injective (List.head_eq_of_cons_eq named)
  obtain ⟨_, _, same⟩ := (mem_proxyPass_stream distinct rendered).mp passes
  exact (streamTarget_eq_poolName (List.head_eq_of_cons_eq same).symm).2 zero.symm

end Stream

/-- On a database that meets its constraints, pools are closed under reference if and only if
no rendered stream is on the pool with the id `0`, or the stream rendering raises. -/
theorem poolClosure_iff (cfg : Deployment) {db : Database} (constraints : db.Constraints) :
    PoolClosure cfg db ↔
      StreamOnIpHash db ∨ ∀ s ∈ includedStreams db, s.upstreamId ≠ some 0 := by
  have loaded := loadDesiredState_ok cfg constraints
  constructor
  · rintro ⟨state, same, _, streams⟩
    cases loaded.symm.trans same
    by_cases raises : StreamOnIpHash db
    · exact Or.inl raises
    · obtain ⟨bodies, rendered⟩ := (streamBodies_ok_iff cfg db).mpr raises
      refine Or.inr fun s included own => ?_
      exact not_streamClosed constraints rendered included own (streams bodies rendered)
  · intro condition
    refine ⟨_, loaded, httpClosed cfg constraints, fun bodies rendered => ?_⟩
    rcases condition with raises | named
    · exact absurd raises ((streamBodies_ok_iff cfg db).mp ⟨bodies, rendered⟩)
    · exact streamClosed constraints rendered named

/-! ### Sample databases -/

/-- Three pools: one of a host, one of a location of it, one of a stream. -/
def threePoolsDb : Database where
  upstreams :=
    [{ id := 1, name := "app", backends := [{ id := 1, host := "10.0.0.1", port := 8080 }] },
     { id := 2, name := "api", backends := [{ id := 2, host := "10.0.0.2", port := 8080 }] },
     { id := 3, name := "ssh", backends := [{ id := 3, host := "10.0.0.3", port := 22 }] }]
  proxyHosts :=
    [{ id := 1, domainNames := ["app.example"], upstreamId := some 1
       locations := [{ id := 1, path := "/api/", upstreamId := some 2 }] }]
  streams := [{ id := 1, incomingPort := 2222, upstreamId := some 3 }]

theorem poolClosure_iff_three : PoolClosure sampleDeployment threePoolsDb := by
  have constraints : threePoolsDb.Constraints := by decide
  refine (poolClosure_iff sampleDeployment constraints).mpr (Or.inr ?_)
  intro s included
  have row := (mem_includedStreams.mp included).1
  simp only [threePoolsDb, List.mem_singleton] at row
  rw [row]
  decide

/-- A pool with the id `0`, and a stream that balances over it. -/
def zeroPoolDb : Database where
  upstreams :=
    [{ id := 0, name := "tcp", backends := [{ id := 1, host := "10.0.0.1", port := 22 }] }]
  streams := [{ id := 1, incomingPort := 2222, upstreamId := some 0 }]

/-- A stream on the pool with the id `0`: the pool is defined and nothing names it. -/
theorem poolClosure_zero :
    zeroPoolDb.Constraints ∧ ¬PoolClosure sampleDeployment zeroPoolDb := by
  have constraints : zeroPoolDb.Constraints := by decide
  refine ⟨constraints, ?_⟩
  rintro ⟨state, same, _, streams⟩
  cases (loadDesiredState_ok sampleDeployment constraints).symm.trans same
  have balanced : ¬StreamOnIpHash zeroPoolDb := by
    rintro ⟨s, included, i, own, ipHash⟩
    have row := (mem_includedStreams.mp included).1
    simp only [zeroPoolDb, List.mem_singleton] at row
    subst row
    cases own
    revert ipHash
    decide
  obtain ⟨bodies, rendered⟩ := (streamBodies_ok_iff sampleDeployment _).mpr balanced
  have included : { id := 1, incomingPort := 2222, upstreamId := some 0 } ∈
      includedStreams zeroPoolDb :=
    mem_includedStreams.mpr ⟨List.mem_singleton_self _, rfl, by decide⟩
  exact not_streamClosed constraints rendered included rfl (streams bodies rendered)

end MegooPM
