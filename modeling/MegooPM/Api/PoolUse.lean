import MegooPM.Api.Requests
import MegooPM.Lib.Transition
import Mathlib.Data.List.Dedup

/-!
# Pools and their users

Which pools are accepted relates three tables: the method of a pool forbids backup servers,
its context forbids users, and each request looks at one side only. Changing a pool looks at
its users, attaching a user looks at the pool, changing a backend looks at the method.
-/
namespace MegooPM

open Lib

variable {db db' : Database}

/-! ### The invariant -/

/-- The context of the pool allows that use. -/
def Upstream.UsableIn (pool : Upstream) (context : UpstreamContext) : Prop :=
  pool.context = .both ∨ pool.context = context

/-- The method, the context and the servers of a pool go together. -/
structure Upstream.Configured (pool : Upstream) : Prop where
  noBackup : pool.lbMethod ∈ noBackupMethods → ∀ b ∈ pool.backends, b.backup = false
  ipHash : pool.lbMethod = .ipHash → pool.context = .http

/-- A reference to a pool whose context allows the use. -/
def Database.Usable (db : Database) (context : UpstreamContext) (ref : Option Id) : Prop :=
  ∀ i, ref = some i → ∃ pool ∈ db.upstreams, pool.id = i ∧ pool.UsableIn context

structure PoolsUsable (db : Database) : Prop where
  pools : ∀ pool ∈ db.upstreams, pool.Configured
  hosts : ∀ h ∈ db.proxyHosts, db.Usable .http h.upstreamId
  locations : ∀ h ∈ db.proxyHosts, ∀ l ∈ h.locations, db.Usable .http l.upstreamId
  streams : ∀ t ∈ db.streams, db.Usable .stream t.upstreamId

/-! ### What the checks establish -/

theorem validatePoolConfig_ok {m : LoadBalanceMethod} {context : UpstreamContext}
    {hasBackup : Bool} (passed : validatePoolConfig (some m) (some context) hasBackup = .ok ()) :
    (m ∈ noBackupMethods → hasBackup = false) ∧ (m = .ipHash → context = .http) := by
  unfold validatePoolConfig at passed
  split at passed
  next => cases passed
  next fits =>
    split at passed
    next method same =>
      cases same
      split at passed
      next => cases passed
      next allowed =>
        constructor
        · intro hashed
          by_contra backup
          exact allowed ⟨by simpa using backup, hashed⟩
        · rintro rfl
          by_contra other
          exact fits ⟨rfl, fun same => other (Option.some.inj same)⟩
    next => contradiction

/-- A pool that passes the check is configured. -/
theorem configured_of_validate (pool : Upstream) {hasBackup : Bool}
    (passed : validatePoolConfig (some pool.lbMethod) (some pool.context) hasBackup = .ok ())
    (covers : hasBackup = false → ∀ b ∈ pool.backends, b.backup = false) : pool.Configured := by
  obtain ⟨backups, ipHash⟩ := validatePoolConfig_ok passed
  exact ⟨fun hashed => covers (backups hashed), ipHash⟩

theorem assertUsableIn_ok {pool : Upstream} {context : UpstreamContext}
    (passed : assertUsableIn pool context = .ok ()) : pool.UsableIn context := by
  unfold assertUsableIn at passed
  split at passed
  next allowed => exact allowed
  next => cases passed

theorem assertPoolsUsable_ok {ids : List Id} {what : String}
    (passed : assertPoolsUsable db ids what = .ok ()) :
    ∀ i ∈ ids, ∃ pool ∈ db.upstreams, pool.id = i ∧ pool.UsableIn .http := by
  simp only [assertPoolsUsable] at passed
  split at passed
  next => cases passed
  next none_missing =>
    rw [not_not] at none_missing
    intro i member
    have there : i ∈ (db.upstreams.filter (·.id ∈ ids)).map (·.id) := by
      by_contra absent
      have missing : i ∈ ids.dedup.filter (· ∉ (db.upstreams.filter (·.id ∈ ids)).map (·.id)) :=
        List.mem_filter.mpr ⟨List.mem_dedup.mpr member, by simpa using absent⟩
      rw [none_missing] at missing
      cases missing
    obtain ⟨pool, listed, rfl⟩ := List.mem_map.mp there
    have checked := mapError_eq_ok (ok_of_forM_ok passed pool listed)
    exact ⟨pool, (List.mem_filter.mp listed).1, rfl, assertUsableIn_ok checked⟩

theorem assertPoolUsable_ok {ref : Option Id} (passed : assertPoolUsable db ref = .ok ()) :
    db.Usable .stream ref := by
  rintro i rfl
  unfold assertPoolUsable at passed
  split at passed
  next none_ => cases none_
  next j some_ =>
    cases some_
    split at passed
    next => cases passed
    next pool found =>
      have own : pool.id = i := by simpa using List.find?_some found
      exact ⟨pool, List.mem_of_find?_eq_some found, own, assertUsableIn_ok (mapError_eq_ok passed)⟩

/-- A pool leaves a context only when nothing there refers to it. -/
theorem checkContextChange_ok {pool : Upstream} {context : UpstreamContext}
    (passed : checkContextChange db pool (some context) = .ok ()) :
    context = pool.context ∨ context = .both ∨
      (context = .http ∧ ∀ t ∈ db.streams, t.upstreamId ≠ some pool.id) ∨
      (context = .stream ∧ (∀ h ∈ db.proxyHosts, h.upstreamId ≠ some pool.id) ∧
        ∀ h ∈ db.proxyHosts, ∀ l ∈ h.locations, l.upstreamId ≠ some pool.id) := by
  unfold checkContextChange at passed
  split at passed
  next same => exact Or.inl (Option.some.inj same)
  next =>
    right
    cases context with
    | both => exact Or.inl rfl
    | http =>
      have unused : (referenceCounts db pool.id).streams = 0 := by
        by_contra used
        rw [assertContextChangeAllowed, if_neg (by decide), if_pos ⟨rfl, used⟩] at passed
        cases passed
      rw [referenceCounts, List.countP_eq_zero] at unused
      exact Or.inr (Or.inl ⟨rfl, fun t row => by simpa using unused t row⟩)
    | stream =>
      have unused : (referenceCounts db pool.id).proxyHosts = 0 := by
        by_contra used
        rw [assertContextChangeAllowed, if_neg (by decide), if_neg (by simp),
          if_pos ⟨rfl, used⟩] at passed
        cases passed
      rw [referenceCounts, Nat.add_eq_zero_iff, List.countP_eq_zero, List.countP_eq_zero] at unused
      obtain ⟨hosts, locations⟩ := unused
      refine Or.inr (Or.inr ⟨rfl, fun h row => by simpa using hosts h row, fun h row l located => ?_⟩)
      simpa using locations l (List.mem_flatMap.mpr ⟨h, row, located⟩)

/-- A change that sets no column to null is accepted for what it leaves. -/
theorem get_of_notNull {α : Type} {c : Change α} (notNull : c.notNull = true) (old : α) :
    c.get old = some (c.overValue old) := by
  cases c with
  | unset => rfl
  | null => cases notNull
  | set a => rfl

theorem notNull_of_commit {notNull : Bool} (done : commit db notNull = .ok db') :
    notNull = true := by
  unfold commit at done
  split at done
  next fine => exact fine.1
  next => cases done

/-! ### Changing pools -/

section Pools

variable (constraints : db.Constraints)

include constraints

/-- The row a lookup finds is the only one with its id. -/
theorem upstream?_unique {i : Id} {pool other : Upstream} (found : db.upstream? i = some pool)
    (row : other ∈ db.upstreams) (own : other.id = i) : other = pool := by
  have lookup := find?_key constraints.upstreamIds row
  rw [own] at lookup
  exact Option.some.inj (lookup.symm.trans found)

/-- A pool is changed so that it stays configured and every use of it stays allowed. -/
theorem PoolsUsable.changeUpstream {i : Id} {pool : Upstream} {f : Upstream → Upstream}
    (usable : PoolsUsable db) (found : db.upstream? i = some pool) (keeps : ∀ p, (f p).id = p.id)
    (configured : (f pool).Configured)
    (http : ((∃ h ∈ db.proxyHosts, h.upstreamId = some i) ∨
      ∃ h ∈ db.proxyHosts, ∃ l ∈ h.locations, l.upstreamId = some i) →
        pool.UsableIn .http → (f pool).UsableIn .http)
    (stream : (∃ t ∈ db.streams, t.upstreamId = some i) →
        pool.UsableIn .stream → (f pool).UsableIn .stream) :
    PoolsUsable (db.changeUpstream i f) := by
  have still : ∀ {context : UpstreamContext} {ref : Option Id}, db.Usable context ref →
      (ref = some i → pool.UsableIn context → (f pool).UsableIn context) →
      (db.changeUpstream i f).Usable context ref := by
    intro context ref before allowed j named
    obtain ⟨p, row, rfl, fits⟩ := before j named
    by_cases same : p.id = i
    · obtain rfl := upstream?_unique constraints found row same
      refine ⟨f p, mem_updateAt.mpr ⟨p, row, (if_pos same).symm⟩, keeps p, ?_⟩
      exact allowed (named.trans (congrArg some same)) fits
    · exact ⟨p, mem_updateAt.mpr ⟨p, row, (if_neg same).symm⟩, rfl, fits⟩
  refine ⟨?_, ?_, ?_, ?_⟩
  · refine forall_updateAt usable.pools fun p row own => ?_
    rw [upstream?_unique constraints found row own]
    exact configured
  · exact fun h row => still (usable.hosts h row) fun named => http (Or.inl ⟨h, row, named⟩)
  · exact fun h row l located => still (usable.locations h row l located) fun named =>
      http (Or.inr ⟨h, row, l, located, named⟩)
  · exact fun t row => still (usable.streams t row) fun named => stream ⟨t, row, named⟩

/-- A change of the servers alone. -/
theorem PoolsUsable.changeBackends {i : Id} {pool : Upstream} {f : Upstream → Upstream}
    (usable : PoolsUsable db) (found : db.upstream? i = some pool) (keeps : ∀ p, (f p).id = p.id)
    (context : (f pool).context = pool.context) (configured : (f pool).Configured) :
    PoolsUsable (db.changeUpstream i f) := by
  refine usable.changeUpstream constraints found keeps configured ?_ ?_
  all_goals
    intro _ fits
    rwa [Upstream.UsableIn, context]

theorem poolsUsable_updateUpstream {i : Id} {c : UpstreamChanges} (usable : PoolsUsable db)
    (done : updateUpstream db i c = .ok db') : PoolsUsable db' := by
  obtain ⟨rfl, _⟩ := updateUpstream_ok done
  obtain ⟨pool, found, done⟩ := bind_eq_ok done
  have found := orRaise_eq_ok found
  obtain ⟨_, valid, done⟩ := bind_eq_ok done
  obtain ⟨_, narrowed, done⟩ := bind_eq_ok done
  have notNull := notNull_of_commit done
  simp only [UpstreamChanges.notNull, Bool.and_eq_true] at notNull
  rw [get_of_notNull notNull.1.1.2, get_of_notNull notNull.1.2] at valid
  rw [get_of_notNull notNull.1.2] at narrowed
  have own : pool.id = i := by simpa using List.find?_some found
  have configured : (c.apply pool).Configured := by
    refine configured_of_validate (c.apply pool) valid fun none_ b member => ?_
    simpa using List.any_eq_false.mp none_ b member
  refine usable.changeUpstream constraints found (fun _ => rfl) configured ?_ ?_
  · rintro used fits
    rcases checkContextChange_ok narrowed with same | both | ⟨http, _⟩ | ⟨_, hosts, locations⟩
    · rwa [Upstream.UsableIn, UpstreamChanges.apply, same]
    · exact Or.inl both
    · exact Or.inr http
    · rcases used with ⟨h, row, named⟩ | ⟨h, row, l, located, named⟩
      · exact absurd (own ▸ named) (hosts h row)
      · exact absurd (own ▸ named) (locations h row l located)
  · rintro ⟨t, row, named⟩ fits
    rcases checkContextChange_ok narrowed with same | both | ⟨_, streams⟩ | ⟨stream, _⟩
    · rwa [Upstream.UsableIn, UpstreamChanges.apply, same]
    · exact Or.inl both
    · exact absurd (own ▸ named) (streams t row)
    · exact Or.inr stream

theorem poolsUsable_addBackend {i : Id} {b : UpstreamBackend} (usable : PoolsUsable db)
    (done : addBackend db i b = .ok db') : PoolsUsable db' := by
  obtain ⟨rfl, _⟩ := addBackend_ok done
  obtain ⟨pool, found, done⟩ := bind_eq_ok done
  have found := orRaise_eq_ok found
  obtain ⟨_, valid, _⟩ := bind_eq_ok done
  refine usable.changeBackends constraints found (fun _ => rfl) rfl ?_
  refine configured_of_validate (pool.addBackend b) valid fun none_ x member => ?_
  simp only [Bool.or_eq_false_iff, List.any_eq_false, Bool.not_eq_true] at none_
  rcases List.mem_append.mp member with old | new
  · exact none_.2 x old
  · rw [List.mem_singleton.mp new]
    exact none_.1

/-- A backend may become a backup only where the method allows it. -/
theorem poolsUsable_updateBackend {i k : Id} {c : BackendChanges} (usable : PoolsUsable db)
    (done : updateBackend db i k c = .ok db') : PoolsUsable db' := by
  obtain ⟨rfl, _⟩ := updateBackend_ok done
  obtain ⟨_, there, done⟩ := bind_eq_ok done
  obtain ⟨_, valid, done⟩ := bind_eq_ok done
  have notNull := notNull_of_commit (mapError_eq_ok done)
  simp only [BackendChanges.notNull, Bool.and_eq_true] at notNull
  obtain ⟨pool, found, _⟩ := Option.bind_eq_some_iff.mp (orRaise_eq_ok there)
  have before := usable.pools pool (List.mem_of_find?_eq_some found)
  refine usable.changeBackends constraints found (fun _ => rfl) rfl ?_
  simp only [validateBackupChange, found] at valid
  cases flag : c.backup with
  | unset =>
    refine ⟨fun hashed => ?_, before.ipHash⟩
    refine forall_updateAt (before.noBackup hashed) fun b row _ => ?_
    rw [BackendChanges.apply, flag]
    exact before.noBackup hashed b row
  | null =>
    rw [flag] at notNull
    cases notNull.1.1.2
  | set backup =>
    rw [flag] at valid
    refine configured_of_validate (pool.changeBackend k c) valid fun none_ => ?_
    simp only [Change.value?, Option.getD_some, Bool.or_eq_false_iff, List.any_eq_false,
      Bool.not_eq_true] at none_
    intro x member
    obtain ⟨b, row, rfl⟩ := mem_updateAt.mp member
    split
    next => simpa only [BackendChanges.apply, flag, Change.overValue] using none_.1
    next other => exact none_.2 b (List.mem_filter.mpr ⟨row, by simpa using other⟩)

theorem poolsUsable_removeBackend {i k : Id} (usable : PoolsUsable db)
    (done : removeBackend db i k = .ok db') : PoolsUsable db' := by
  obtain ⟨rfl, _⟩ := removeBackend_ok done
  obtain ⟨_, there, _⟩ := bind_eq_ok done
  obtain ⟨pool, found, _⟩ := Option.bind_eq_some_iff.mp (orRaise_eq_ok there)
  have before := usable.pools pool (List.mem_of_find?_eq_some found)
  refine usable.changeBackends constraints found (fun _ => rfl) rfl ⟨fun hashed b member => ?_, ?_⟩
  · exact before.noBackup hashed b (mem_removeAt.mp member).1
  · exact before.ipHash

end Pools

/-- References keep their pools when the table grows. -/
theorem Database.Usable.mono {context : UpstreamContext} {ref : Option Id}
    (usable : db.Usable context ref) (rows : ∀ pool ∈ db.upstreams, pool ∈ db'.upstreams) :
    db'.Usable context ref := by
  intro i named
  obtain ⟨pool, row, own, fits⟩ := usable i named
  exact ⟨pool, rows pool row, own, fits⟩

theorem poolsUsable_createUpstream {pool : Upstream} (usable : PoolsUsable db)
    (done : createUpstream db pool = .ok db') : PoolsUsable db' := by
  obtain ⟨rfl, _⟩ := createUpstream_ok done
  obtain ⟨_, valid, _⟩ := bind_eq_ok done
  have rows : ∀ p ∈ db.upstreams, p ∈ (db.addUpstream pool).upstreams :=
    fun p row => List.mem_append_left _ row
  refine ⟨?_, fun h row => (usable.hosts h row).mono rows,
    fun h row l located => (usable.locations h row l located).mono rows,
    fun t row => (usable.streams t row).mono rows⟩
  intro p member
  rcases List.mem_append.mp member with old | new
  · exact usable.pools p old
  · rw [List.mem_singleton.mp new]
    refine configured_of_validate _ valid fun none_ b inside => ?_
    simpa using List.any_eq_false.mp none_ b inside

/-- A pool that is dropped was used by nothing: the foreign keys would refuse it. -/
theorem poolsUsable_deleteUpstream {i : Id} (usable : PoolsUsable db)
    (done : deleteUpstream db i = .ok db') : PoolsUsable db' := by
  obtain ⟨rfl, fine⟩ := deleteUpstream_ok done
  have still : ∀ {context : UpstreamContext} {ref : Option Id}, db.Usable context ref →
      references ref Upstream.id (db.dropUpstream i).upstreams = true →
      (db.dropUpstream i).Usable context ref := by
    rintro context ref before keyed j rfl
    obtain ⟨pool, row, rfl, fits⟩ := before j rfl
    obtain ⟨other, left, own⟩ := List.any_eq_true.mp keyed
    obtain ⟨there, kept⟩ := mem_removeAt.mp left
    have own : other.id = pool.id := by simpa using own
    refine ⟨pool, mem_removeAt.mpr ⟨row, fun same => kept (own.trans same)⟩, rfl, fits⟩
  refine ⟨fun p member => usable.pools p (mem_removeAt.mp member).1, ?_, ?_, ?_⟩
  · exact fun h row => still (usable.hosts h row) (fine.hostPools h row)
  · exact fun h row l located => still (usable.locations h row l located)
      (fine.locationPools h row l located)
  · exact fun t row => still (usable.streams t row) (fine.streamPools t row)

/-! ### Attaching users -/

theorem usable_of_checked {ref : Option Id} {what : String}
    (passed : assertPoolsUsable db ref.toList what = .ok ()) : db.Usable .http ref := by
  rintro i rfl
  exact assertPoolsUsable_ok passed i (by simp)

theorem usable_of_checkedLocations {locations : List ProxyHostLocation}
    (passed : checkLocationPools db locations = .ok ()) :
    ∀ l ∈ locations, db.Usable .http l.upstreamId := by
  intro l located i named
  exact assertPoolsUsable_ok passed i (List.mem_filterMap.mpr ⟨l, located, named⟩)

theorem poolsUsable_createProxyHost {host : ProxyHost} (usable : PoolsUsable db)
    (done : createProxyHost db host = .ok db') : PoolsUsable db' := by
  obtain ⟨rfl, _⟩ := createProxyHost_ok done
  obtain ⟨_, own, done⟩ := bind_eq_ok done
  obtain ⟨_, located, _⟩ := bind_eq_ok done
  refine ⟨usable.pools, ?_, ?_, usable.streams⟩
  · intro h member
    rcases List.mem_append.mp member with old | new
    · exact usable.hosts h old
    · rw [List.mem_singleton.mp new]
      exact usable_of_checked own
  · intro h member
    rcases List.mem_append.mp member with old | new
    · exact usable.locations h old
    · rw [List.mem_singleton.mp new]
      exact usable_of_checkedLocations located

theorem poolsUsable_updateProxyHost {i : Id} {c : ProxyHostChanges} (usable : PoolsUsable db)
    (done : updateProxyHost db i c = .ok db') : PoolsUsable db' := by
  obtain ⟨rfl, _⟩ := updateProxyHost_ok done
  obtain ⟨_, _, done⟩ := bind_eq_ok done
  obtain ⟨_, own, done⟩ := bind_eq_ok done
  obtain ⟨_, located, _⟩ := bind_eq_ok done
  refine ⟨usable.pools, ?_, ?_, usable.streams⟩
  · refine forall_updateAt (P := fun h : ProxyHost => db.Usable .http h.upstreamId)
      usable.hosts fun h row _ => ?_
    simp only [ProxyHostChanges.apply]
    cases named : c.upstreamId with
    | unset => exact usable.hosts h row
    | null => exact fun i none_ => by cases none_
    | set j =>
      rw [named] at own
      exact usable_of_checked own
  · refine forall_updateAt (P := fun h : ProxyHost => ∀ l ∈ h.locations, db.Usable .http l.upstreamId)
      usable.locations fun h row _ => ?_
    simp only [ProxyHostChanges.apply]
    cases replaced : c.locations with
    | none => exact usable.locations h row
    | some locations =>
      rw [replaced] at located
      exact usable_of_checkedLocations located

theorem poolsUsable_createStream {stream : Stream} (usable : PoolsUsable db)
    (done : createStream db stream = .ok db') : PoolsUsable db' := by
  obtain ⟨rfl, _⟩ := createStream_ok done
  obtain ⟨_, _, done⟩ := bind_eq_ok done
  obtain ⟨_, own, _⟩ := bind_eq_ok done
  refine ⟨usable.pools, usable.hosts, usable.locations, fun t member => ?_⟩
  rcases List.mem_append.mp member with old | new
  · exact usable.streams t old
  · rw [List.mem_singleton.mp new]
    exact assertPoolUsable_ok own

theorem poolsUsable_updateStream {i : Id} {c : StreamChanges} (usable : PoolsUsable db)
    (done : updateStream db i c = .ok db') : PoolsUsable db' := by
  obtain ⟨rfl, _⟩ := updateStream_ok done
  obtain ⟨_, _, done⟩ := bind_eq_ok done
  obtain ⟨_, _, done⟩ := bind_eq_ok done
  obtain ⟨_, own, _⟩ := bind_eq_ok done
  refine ⟨usable.pools, usable.hosts, usable.locations, ?_⟩
  refine forall_updateAt (P := fun t : Stream => db.Usable .stream t.upstreamId)
    usable.streams fun t row _ => ?_
  simp only [StreamChanges.apply]
  cases named : c.upstreamId with
  | unset => exact usable.streams t row
  | null => exact fun i none_ => by cases none_
  | set j =>
    rw [named] at own
    exact assertPoolUsable_ok own

/-! ### Whole runs -/

/-- The same pools, and no use of a pool that was not there before. -/
theorem PoolsUsable.of_uses (usable : PoolsUsable db) (pools : db'.upstreams = db.upstreams)
    (hosts : ∀ h ∈ db'.proxyHosts, ∃ g ∈ db.proxyHosts, g.upstreamId = h.upstreamId ∧
      g.locations = h.locations)
    (streams : ∀ t ∈ db'.streams, ∃ u ∈ db.streams, u.upstreamId = t.upstreamId) :
    PoolsUsable db' := by
  have rows : ∀ p ∈ db.upstreams, p ∈ db'.upstreams := fun p row => pools ▸ row
  refine ⟨fun p row => usable.pools p (pools ▸ row), fun h row => ?_, fun h row l located => ?_,
    fun t row => ?_⟩
  · obtain ⟨g, before, same, _⟩ := hosts h row
    exact same ▸ (usable.hosts g before).mono rows
  · obtain ⟨g, before, _, same⟩ := hosts h row
    exact (usable.locations g before l (same ▸ located)).mono rows
  · obtain ⟨u, before, same⟩ := streams t row
    exact same ▸ (usable.streams u before).mono rows

/-- A request that leaves the three tables alone. -/
theorem PoolsUsable.of_same (usable : PoolsUsable db) (pools : db'.upstreams = db.upstreams)
    (hosts : db'.proxyHosts = db.proxyHosts) (streams : db'.streams = db.streams) :
    PoolsUsable db' :=
  usable.of_uses pools (fun h row => ⟨h, hosts ▸ row, rfl, rfl⟩)
    fun t row => ⟨t, streams ▸ row, rfl⟩

/-- What every state of a run satisfies. -/
structure ConsistentUse (s : Store) : Prop where
  constraints : s.db.Constraints
  usable : PoolsUsable s.db

theorem consistentUse_start : ConsistentUse {} where
  constraints := by constructor <;> simp
  usable := by constructor <;> simp

/-- One accepted request. The requests that change a pool or attach one are the ones that
check; the others leave the three tables alone or take users away. -/
theorem poolsUsable_step {hashApr1 : String → String} {s s' : Store} {r : WriteRequest}
    (constraints : s.db.Constraints) (usable : PoolsUsable s.db)
    (moved : RequestStep hashApr1 s r s') : PoolsUsable s'.db := by
  have wrote := moved.wrote.1
  obtain ⟨_, done⟩ := moved
  have service : ∀ {x : Except ServiceError Database} {h : Handled},
      (∀ db', x = .ok db' → PoolsUsable db') → reloading s x = .ok h → PoolsUsable h.store.db := by
    intro x h keeps ran
    obtain ⟨db', accepted, rfl⟩ := map_eq_ok ran
    exact keeps db' accepted
  cases r
  case createUpstream pool => exact service (fun _ => poolsUsable_createUpstream usable) done
  case updateUpstream i c =>
    exact service (fun _ => poolsUsable_updateUpstream constraints usable) done
  case deleteUpstream i => exact service (fun _ => poolsUsable_deleteUpstream usable) done
  case addBackend i b => exact service (fun _ => poolsUsable_addBackend constraints usable) done
  case updateBackend i k c =>
    exact service (fun _ => poolsUsable_updateBackend constraints usable) done
  case removeBackend i k =>
    exact service (fun _ => poolsUsable_removeBackend constraints usable) done
  case createProxyHost h => exact service (fun _ => poolsUsable_createProxyHost usable) done
  case updateProxyHost i c => exact service (fun _ => poolsUsable_updateProxyHost usable) done
  case createStream t => exact service (fun _ => poolsUsable_createStream usable) done
  case updateStream i c => exact service (fun _ => poolsUsable_updateStream usable) done
  -- a delete leaves fewer uses, or the same ones
  case deleteProxyHost i =>
    rw [wrote]
    exact usable.of_uses rfl (fun h row => ⟨h, (mem_removeAt.mp row).1, rfl, rfl⟩)
      fun t row => ⟨t, row, rfl⟩
  case deleteStream i =>
    rw [wrote]
    exact usable.of_uses rfl (fun h row => ⟨h, row, rfl, rfl⟩)
      fun t row => ⟨t, (mem_removeAt.mp row).1, rfl⟩
  case deleteAccessList i =>
    rw [wrote]
    refine usable.of_uses rfl (fun h row => ?_) fun t row => ⟨t, row, rfl⟩
    obtain ⟨g, before, rfl⟩ := List.mem_map.mp row
    refine ⟨g, before, ?_⟩
    split
    · exact ⟨rfl, rfl⟩
    · exact ⟨rfl, rfl⟩
  case deleteCertificate i =>
    rw [wrote]
    refine usable.of_uses rfl (fun h row => ?_) fun t row => ?_
    · obtain ⟨g, before, rfl⟩ := List.mem_map.mp row
      exact ⟨g, before, rfl, rfl⟩
    · obtain ⟨u, before, rfl⟩ := List.mem_map.mp row
      exact ⟨u, before, rfl⟩
  -- the other requests touch neither pools nor what uses them
  all_goals
    simp only [WriteRequest.Wrote] at wrote
    first
      | (rw [wrote]; exact usable.of_same rfl rfl rfl)
      | (obtain ⟨_, rfl⟩ := wrote; exact usable.of_same rfl rfl rfl)
      | (obtain ⟨_, _, rfl⟩ := wrote; exact usable.of_same rfl rfl rfl)
      | (obtain ⟨_, _, _, rfl⟩ := wrote; exact usable.of_same rfl rfl rfl)

theorem consistentUse_step {hashApr1 : String → String} (s : Store) (r : WriteRequest)
    (s' : Store) (here : ConsistentUse s) (moved : RequestStep hashApr1 s r s') :
    ConsistentUse s' :=
  ⟨moved.wrote.2 here.constraints, poolsUsable_step here.constraints here.usable moved⟩

/-- After any accepted requests, in any order, every pool is one nginx accepts and every use of
a pool is one its context allows. -/
theorem pools_usable {hashApr1 : String → String} {s : Store}
    (run : Reaches (RequestStep hashApr1) {} s) : PoolsUsable s.db :=
  (run.invariant consistentUse_step consistentUse_start).usable

/-! ### A sample run -/

/-- A hashing pool for both contexts. -/
def hashingPool : Upstream :=
  { id := 1, name := "app", lbMethod := .hash, context := .both
    backends := [{ id := 1, host := "10.0.0.1", port := 80 }] }

def hashingHost : ProxyHost :=
  { id := 1, domainNames := ["app.example"], upstreamId := some 1 }

/-- The pool, and then a host on it. -/
theorem pools_usable_hashing : ∃ s : Store, s.db.upstreams ≠ [] ∧ PoolsUsable s.db := by
  have first : RequestStep id {} (.createUpstream hashingPool)
      { db := { upstreams := [hashingPool] } } := ⟨[.reloadNginxConfig], by rfl⟩
  have second : RequestStep id { db := { upstreams := [hashingPool] } }
      (.createProxyHost hashingHost)
      { db := { upstreams := [hashingPool], proxyHosts := [hashingHost] } } :=
    ⟨[.reloadNginxConfig], by rfl⟩
  exact ⟨_, by simp, pools_usable (((Reaches.refl _ _).tail first).tail second)⟩

end MegooPM
