import MegooPM.Api.Requests
import MegooPM.Nginx.PoolClosure
import MegooPM.Lib.Transition

/-!
# Primary servers

nginx refuses an `upstream` whose servers are all backups. The loader renders a pool with
an enabled backend, and the services check `backup` against the balancing method alone, so
a pool may be left with backup servers only. It never is in a run in which no request takes
the last enabled primary of a pool away while an enabled backup stays behind.
-/
namespace MegooPM

open Lib

/-! ### The condition -/

/-- A server that is rendered without `backup`. -/
def UpstreamBackend.isPrimary (b : UpstreamBackend) : Bool :=
  b.enabled && !b.backup

/-- A pool that renders a server renders a primary one. -/
def served (backends : List UpstreamBackend) : Bool :=
  backends.any (·.isPrimary) || !backends.any (·.enabled)

/-- With these other backends, a backend with the given flags leaves the pool served. -/
def servedWith (others : List UpstreamBackend) (enabled backup : Bool) : Bool :=
  (enabled && !backup) || others.any (·.isPrimary) || (!enabled && !others.any (·.enabled))

/-- What a request must not do: leave a pool enabled backups and no enabled primary. -/
def WriteRequest.KeepsPrimary (s : Store) : WriteRequest → Prop
  | .createUpstream pool => served pool.backends = true
  | .addBackend i b => ∀ pool, s.db.upstream? i = some pool →
      servedWith pool.backends b.enabled b.backup = true
  | .updateBackend i b c => ∀ pool row, s.db.upstream? i = some pool →
      getBackend s.db i b = some row →
      servedWith (removeAt UpstreamBackend.id b pool.backends) (c.enabled.overValue row.enabled)
        (c.backup.overValue row.backup) = true
  | .removeBackend i b => ∀ pool, s.db.upstream? i = some pool →
      served (removeAt UpstreamBackend.id b pool.backends) = true
  | _ => True

theorem served_iff {backends : List UpstreamBackend} : served backends = true ↔
    (∃ b ∈ backends, b.enabled = true) → ∃ b ∈ backends, b.isPrimary = true := by
  simp only [served, Bool.or_eq_true, Bool.not_eq_true', List.any_eq_true, List.any_eq_false,
    Bool.not_eq_true]
  constructor
  · rintro (primary | none_) ⟨b, member, enabled⟩
    · exact primary
    · rw [none_ b member] at enabled
      cases enabled
  · intro implied
    by_cases some_ : ∃ b ∈ backends, b.enabled = true
    · exact Or.inl (implied some_)
    · right
      intro b member
      by_contra enabled
      exact some_ ⟨b, member, by simpa using enabled⟩

/-- The same backends and one more. -/
theorem served_of_servedWith {backends others : List UpstreamBackend} {b : UpstreamBackend}
    (rows : ∀ x, x ∈ backends ↔ x ∈ others ∨ x = b)
    (balanced : servedWith others b.enabled b.backup = true) : served backends = true := by
  rw [served_iff]
  rintro ⟨x, member, enabled⟩
  simp only [servedWith, Bool.or_eq_true, Bool.and_eq_true, List.any_eq_true] at balanced
  rcases balanced with (own | ⟨p, other, primary⟩) | ⟨off, none_⟩
  · exact ⟨b, (rows b).mpr (Or.inr rfl), by simpa [UpstreamBackend.isPrimary] using own⟩
  · exact ⟨p, (rows p).mpr (Or.inl other), primary⟩
  · -- the backend is disabled and so is every other one
    exfalso
    simp only [Bool.not_eq_true', List.any_eq_false, Bool.not_eq_true] at off none_
    rcases (rows x).mp member with other | rfl
    · rw [none_ x other] at enabled
      cases enabled
    · rw [off] at enabled
      cases enabled

/-! ### One request -/

/-- What a request does to the table of pools. -/
def WriteRequest.pools : WriteRequest → List Upstream → List Upstream
  | .createUpstream pool, pools => pools ++ [pool]
  | .updateUpstream i c, pools => updateAt Upstream.id i c.apply pools
  | .deleteUpstream i, pools => removeAt Upstream.id i pools
  | .addBackend i b, pools => updateAt Upstream.id i (Upstream.addBackend b) pools
  | .updateBackend i b c, pools => updateAt Upstream.id i (Upstream.changeBackend b c) pools
  | .removeBackend i b, pools => updateAt Upstream.id i (Upstream.dropBackend b) pools
  | _, pools => pools

theorem WriteRequest.Wrote.upstreams {s s' : Store} {r : WriteRequest} (wrote : r.Wrote s s') :
    s'.db.upstreams = r.pools s.db.upstreams := by
  cases r
  all_goals
    simp only [WriteRequest.Wrote] at wrote
    first
      | (rw [wrote]; rfl)
      | (obtain ⟨_, rfl⟩ := wrote; rfl)
      | (obtain ⟨_, _, rfl⟩ := wrote; rfl)
      | (obtain ⟨_, _, _, rfl⟩ := wrote; rfl)

/-- Every pool of the table is served. -/
def PoolsServed (db : Database) : Prop :=
  ∀ pool ∈ db.upstreams, served pool.backends = true

section Step

variable {db : Database} (constraints : db.Constraints)

include constraints

theorem upstream?_of_mem {pool : Upstream} (row : pool ∈ db.upstreams) :
    db.upstream? pool.id = some pool :=
  find?_key constraints.upstreamIds row

private theorem backendIds_nodup {pool : Upstream} (row : pool ∈ db.upstreams) :
    (pool.backends.map (·.id)).Nodup :=
  (List.nodup_flatMap.mp constraints.backendIds).1 pool row

/-- The changed backend is judged together with the others of its pool. -/
private theorem served_changeBackend {pool : Upstream} (row : pool ∈ db.upstreams) {b : Id}
    {c : BackendChanges} (before : served pool.backends = true)
    (balanced : ∀ p x, db.upstream? pool.id = some p → getBackend db pool.id b = some x →
      servedWith (removeAt UpstreamBackend.id b p.backends) (c.enabled.overValue x.enabled)
        (c.backup.overValue x.backup) = true) :
    served (pool.changeBackend b c).backends = true := by
  have found := upstream?_of_mem constraints row
  cases lookup : pool.backends.find? (·.id = b) with
  | none =>
    have absent : ∀ x ∈ pool.backends, x.id ≠ b := by
      intro x member
      simpa using List.find?_eq_none.mp lookup x member
    simpa only [Upstream.changeBackend, updateAt_of_notMem absent] using before
  | some x =>
    have member := List.mem_of_find?_eq_some lookup
    obtain rfl : x.id = b := by simpa using List.find?_some lookup
    have flags := balanced pool x found (by simp [getBackend, found, lookup])
    refine served_of_servedWith (b := c.apply x) ?_ flags
    intro other
    exact mem_updateAt_of_mem (backendIds_nodup constraints row) member

/-- One request that keeps the primaries. -/
theorem poolsServed_pools {s : Store} (here : s.db = db) (before : PoolsServed db)
    {r : WriteRequest} (keeps : r.KeepsPrimary s) :
    ∀ pool ∈ r.pools db.upstreams, served pool.backends = true := by
  subst here
  cases r with
  | createUpstream pool =>
    intro p member
    rcases List.mem_append.mp member with old | new
    · exact before p old
    · rw [List.mem_singleton.mp new]
      exact keeps
  | updateUpstream i c =>
    -- a pool's own attributes leave its backends alone
    exact forall_updateAt before fun p row _ => before p row
  | deleteUpstream i => exact fun p member => before p (mem_removeAt.mp member).1
  | addBackend i b =>
    refine forall_updateAt before fun p row same => ?_
    have flags := keeps p (same ▸ upstream?_of_mem constraints row)
    refine served_of_servedWith (b := b) (fun x => ?_) flags
    simp [Upstream.addBackend]
  | updateBackend i b c =>
    refine forall_updateAt before fun p row same => ?_
    subst same
    exact served_changeBackend constraints row (before p row) keeps
  | removeBackend i b =>
    refine forall_updateAt before fun p row same => ?_
    exact keeps p (same ▸ upstream?_of_mem constraints row)
  | _ => exact before

end Step

/-- What every state of a run satisfies. -/
structure SoundPools (s : Store) : Prop where
  constraints : s.db.Constraints
  served : PoolsServed s.db

theorem soundPools_start : SoundPools {} where
  constraints := by constructor <;> simp
  served := by
    intro pool member
    cases member

theorem soundPools_step {hashApr1 : String → String} (s : Store) (r : WriteRequest) (s' : Store)
    (sound : SoundPools s)
    (moved : Guarded WriteRequest.KeepsPrimary (RequestStep hashApr1) s r s') :
    SoundPools s' := by
  obtain ⟨keeps, moved⟩ := moved
  obtain ⟨wrote, kept⟩ := moved.wrote
  refine ⟨kept sound.constraints, ?_⟩
  unfold PoolsServed
  rw [wrote.upstreams]
  exact poolsServed_pools sound.constraints rfl sound.served keeps

/-! ### What is rendered -/

/-- An `upstream` block with a server line that is no backup. -/
def HasPrimary (items : List Lib.Node) : Prop :=
  ∃ args ∈ Lib.Node.allDirectives "server" items, "backup" ∉ args

/-- The loader raises nothing, and every pool of both contexts has a primary server. -/
def PrimariesRendered (cfg : Deployment) (db : Database) : Prop :=
  ∃ state, loadDesiredState cfg db = .ok state ∧
    (∀ block ∈ (configBodies cfg state).blocks "upstream", HasPrimary block.2) ∧
    ∀ bodies, streamBodies state = .ok bodies →
      ∀ block ∈ bodies.blocks "upstream", HasPrimary block.2

/-- The arguments of the `server` lines of a pool. -/
theorem serverLines_poolBody (u : UpstreamSpec) :
    Lib.Node.allDirectives "server" (poolBody u) = u.backends.map fun b => (backendWords b).tail := by
  have method : Lib.Node.allDirectives "server" (lbDirective u.lbMethod) = [] := by
    cases u.lbMethod <;> simp [lbDirective, Lib.Node.allDirectives, Lib.Node.directives]
  rw [poolBody, Lib.Node.allDirectives_append, method, List.nil_append, Lib.Node.allDirectives_map,
    List.map_eq_flatMap]
  simp [Lib.Node.directives, backendWords]

private theorem ne_backup_of_mem {text : String} {c : Char} (inside : c ∈ text.toList)
    (apart : c ∉ "backup".toList) : text ≠ "backup" := by
  rintro rfl
  exact apart inside

/-- The word `backup` stands on the line of a backup server alone. -/
theorem backup_mem_backendWords (b : BackendSpec) :
    "backup" ∈ (backendWords b).tail ↔ b.backup = true := by
  have address : b.host ++ ":" ++ toString b.port ≠ "backup" :=
    ne_backup_of_mem (c := ':') (by simp) (by decide)
  have weight : "weight=" ++ toString b.weight ≠ "backup" :=
    ne_backup_of_mem (c := '=') (by simp) (by decide)
  have fails : "max_fails=" ++ toString b.maxFails ≠ "backup" :=
    ne_backup_of_mem (c := '=') (by simp) (by decide)
  have timeout : "fail_timeout=" ++ toString b.failTimeoutSeconds ++ "s" ≠ "backup" :=
    ne_backup_of_mem (c := '=') (by simp) (by decide)
  have down : "backup" ∉ (if b.down = true then ["down"] else []) := by
    split <;> decide
  simp only [backendWords, List.cons_append, List.tail_cons, List.mem_cons, List.nil_append,
    List.mem_append, address.symm, weight.symm, fails.symm, timeout.symm, down, false_or, or_false]
  split <;> simp_all

theorem hasPrimary_poolBody (u : UpstreamSpec) :
    HasPrimary (poolBody u) ↔ ∃ b ∈ u.backends, b.backup = false := by
  simp [HasPrimary, serverLines_poolBody, backup_mem_backendWords]

/-- A served pool that renders a server renders a primary one. -/
theorem primary_of_served {pool : Upstream} (fine : served pool.backends = true)
    (some_ : (upstreamSpec pool).backends ≠ []) :
    ∃ b ∈ (upstreamSpec pool).backends, b.backup = false := by
  have rows : ∀ b, b ∈ (sortedBy (·.id) pool.backends).filter (·.enabled) ↔
      b ∈ pool.backends ∧ b.enabled = true := by simp
  obtain ⟨spec, rendered⟩ := List.exists_mem_of_ne_nil _ some_
  obtain ⟨b, inside, _⟩ := List.mem_map.mp rendered
  obtain ⟨p, member, primary⟩ := served_iff.mp fine ⟨b, (rows b).mp inside⟩
  simp only [UpstreamBackend.isPrimary, Bool.and_eq_true, Bool.not_eq_true'] at primary
  exact ⟨backendSpec p, List.mem_map_of_mem ((rows p).mpr ⟨member, primary.1⟩), primary.2⟩

/-- The pools of both contexts are pools of the table with an enabled backend. -/
theorem usable_of_rendered {cfg : Deployment} {db : Database} (constraints : db.Constraints)
    {u : UpstreamSpec} (rendered : u ∈ (desiredState cfg db).httpUpstreams ∨
      u ∈ (desiredState cfg db).streamUpstreams) :
    ∃ pool ∈ db.upstreams, u = upstreamSpec pool ∧ (upstreamSpec pool).backends ≠ [] := by
  have usable : ∃ i, usablePool db (some i) = true ∧ poolSpec db i = u := by
    rcases rendered with http | stream
    · obtain ⟨i, referred, rfl⟩ := mem_poolsOf.mp http
      obtain ⟨h, included, own | ⟨l, kept, own⟩⟩ := mem_httpReferences.mp referred
      · have keeps := (mem_includedHosts.mp included).2.2
        exact ⟨i, by simpa [keepsTarget, own] using keeps, rfl⟩
      · obtain ⟨row, _, _⟩ := mem_includedHosts.mp included
        obtain ⟨located, keeps⟩ := mem_keptLocations.mp kept
        have target := target_of_check (constraints.locationChecks h row l located) own
        exact ⟨i, by simpa [keepsLocation, own, target] using keeps, rfl⟩
    · obtain ⟨i, referred, rfl⟩ := mem_poolsOf.mp stream
      obtain ⟨s, included, own⟩ := mem_streamReferences.mp referred
      have keeps := (mem_includedStreams.mp included).2.2
      exact ⟨i, by simpa [keepsTarget, own] using keeps, rfl⟩
  obtain ⟨i, usable, rfl⟩ := usable
  obtain ⟨j, pool, same, found, spec, some_⟩ := usablePool_some usable
  cases same
  exact ⟨pool, List.mem_of_find?_eq_some found, spec, some_⟩

/-- In every run in which each request keeps the primaries of the pools, every `upstream`
block rendered from the content reached has a server line without `backup`. -/
theorem primaries_rendered (cfg : Deployment) {hashApr1 : String → String} {s : Store}
    (run : Reaches (Guarded WriteRequest.KeepsPrimary (RequestStep hashApr1)) {} s) :
    PrimariesRendered cfg s.db := by
  obtain ⟨constraints, fine⟩ := run.invariant soundPools_step soundPools_start
  have distinct := distinctSpecs_desiredState cfg constraints
  have primary : ∀ u, u ∈ (desiredState cfg s.db).httpUpstreams ∨
      u ∈ (desiredState cfg s.db).streamUpstreams → HasPrimary (poolBody u) := by
    intro u rendered
    obtain ⟨pool, row, rfl, some_⟩ := usable_of_rendered constraints rendered
    exact (hasPrimary_poolBody _).mpr (primary_of_served (fine pool row) some_)
  refine ⟨_, loadDesiredState_ok cfg constraints, ?_, ?_⟩
  · intro block defined
    obtain ⟨u, pool, rfl⟩ := (mem_upstream_config distinct).mp defined
    exact primary u (Or.inl pool)
  · intro bodies rendered block defined
    obtain ⟨u, pool, rfl⟩ := (mem_upstream_stream distinct rendered).mp defined
    exact primary u (Or.inr pool)

/-! ### A sample pool -/

/-- A pool with one server. -/
def samplePool (backup : Bool) : Upstream :=
  { id := 1, name := "app", backends := [{ id := 1, host := "10.0.0.1", port := 80, backup }] }

def sampleHost : ProxyHost :=
  { id := 1, domainNames := ["app.example"], upstreamId := some 1 }

/-- The pool, and the host that forwards to it. -/
def samplePoolDb (backup : Bool) : Database :=
  { upstreams := [samplePool backup], proxyHosts := [sampleHost] }

theorem step_samplePool (hashApr1 : String → String) (backup : Bool) :
    RequestStep hashApr1 {} (.createUpstream (samplePool backup))
      { db := { upstreams := [samplePool backup] } } := by
  refine ⟨[.reloadNginxConfig], ?_⟩
  cases backup <;> rfl

theorem step_sampleHost (hashApr1 : String → String) (backup : Bool) :
    RequestStep hashApr1 { db := { upstreams := [samplePool backup] } }
      (.createProxyHost sampleHost) { db := samplePoolDb backup } := by
  refine ⟨[.reloadNginxConfig], ?_⟩
  cases backup <;> rfl

/-- A primary server, and a host on its pool. -/
theorem primaries_rendered_one :
    Reaches (Guarded WriteRequest.KeepsPrimary (RequestStep id)) {} { db := samplePoolDb false } ∧
      PrimariesRendered sampleDeployment (samplePoolDb false) := by
  have run : Reaches (Guarded WriteRequest.KeepsPrimary (RequestStep id)) {}
      { db := samplePoolDb false } := by
    have keeps : WriteRequest.KeepsPrimary {} (.createUpstream (samplePool false)) := by
      change served (samplePool false).backends = true
      decide
    have first : Guarded WriteRequest.KeepsPrimary (RequestStep id) {} _ _ :=
      ⟨keeps, step_samplePool id false⟩
    have second : Guarded WriteRequest.KeepsPrimary (RequestStep id)
        { db := { upstreams := [samplePool false] } } (.createProxyHost sampleHost) _ :=
      ⟨trivial, step_sampleHost id false⟩
    exact ((Reaches.refl _ _).tail first).tail second
  exact ⟨run, primaries_rendered sampleDeployment run⟩

/-- A pool whose only server is a backup is accepted, and so is a host on it: the pool is
rendered with backups alone. -/
theorem backups_rendered :
    Reaches (RequestStep id) {} { db := samplePoolDb true } ∧
      ¬PrimariesRendered sampleDeployment (samplePoolDb true) := by
  refine ⟨((Reaches.refl _ _).tail (step_samplePool id true)).tail (step_sampleHost id true), ?_⟩
  rintro ⟨state, loaded, http, _⟩
  obtain ⟨_, kept⟩ := (step_sampleHost id true).wrote
  have constraints : (samplePoolDb true).Constraints :=
    kept ((step_samplePool id true).wrote.2 soundPools_start.constraints)
  cases (loadDesiredState_ok sampleDeployment constraints).symm.trans loaded
  have included : sampleHost ∈ includedHosts (samplePoolDb true) :=
    mem_includedHosts.mpr ⟨List.mem_singleton_self _, rfl, rfl⟩
  have pool : poolSpec (samplePoolDb true) 1 ∈
      (desiredState sampleDeployment (samplePoolDb true)).httpUpstreams :=
    mem_poolsOf.mpr ⟨1, mem_httpReferences.mpr ⟨sampleHost, included, Or.inl rfl⟩, rfl⟩
  have distinct := distinctSpecs_desiredState sampleDeployment constraints
  have primary := http _ ((mem_upstream_config distinct).mpr ⟨_, pool, rfl⟩)
  obtain ⟨b, member, plain⟩ := (hasPrimary_poolBody _).mp primary
  have only : b = backendSpec { id := 1, host := "10.0.0.1", port := 80, backup := true } :=
    List.mem_singleton.mp member
  rw [only] at plain
  cases plain

end MegooPM
