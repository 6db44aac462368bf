import MegooPM.Nginx.Loader
import MegooPM.Lib.Raising
import Mathlib.Data.List.Dedup

/-!
# What the loader keeps

The loops of the loader thread a cache of pools from row to row. The cache only ever
holds the specs of the pools themselves, so what a loop returns does not depend on it:
the included rows are those whose pool is usable, and every pool they refer to has been
met on the way.
-/
namespace MegooPM

open Lib

/-! ### One pool -/

/-- The pool a reference leads to is enabled and has an enabled backend. -/
def usablePool (db : Database) (ref : Option Id) : Bool :=
  match related db.upstream? ref with
  | some u => u.enabled && !(upstreamSpec u).backends.isEmpty
  | none => false

/-- The spec of the pool with an id. -/
def poolSpec (db : Database) (i : Id) : UpstreamSpec :=
  match db.upstream? i with
  | some u => upstreamSpec u
  | none => { id := i, name := "" }

theorem upstream?_id {db : Database} {i : Id} {u : Upstream} (found : db.upstream? i = some u) :
    u.id = i := by
  have holds := List.find?_some found
  simpa using holds

@[simp] theorem poolSpec_id (db : Database) (i : Id) : (poolSpec db i).id = i := by
  unfold poolSpec
  split
  next u found => exact upstream?_id found
  next => rfl

/-- A usable reference leads to a pool with a backend. -/
theorem usablePool_some {db : Database} {ref : Option Id} (usable : usablePool db ref = true) :
    ∃ i u, ref = some i ∧ db.upstream? i = some u ∧ poolSpec db i = upstreamSpec u ∧
      (upstreamSpec u).backends ≠ [] := by
  unfold usablePool at usable
  cases ref with
  | none => cases usable
  | some i =>
    cases found : db.upstream? i with
    | none => simp [related, found] at usable
    | some u =>
      refine ⟨i, u, rfl, found, by simp only [poolSpec, found], ?_⟩
      simp only [related, Option.bind_some, found, Bool.and_eq_true, Bool.not_eq_true',
        List.isEmpty_eq_false_iff] at usable
      exact usable.2

/-! ### The cache -/

/-- A cache holds nothing but the specs of pools. -/
def PoolsOf (db : Database) (pools : Pools) : Prop :=
  ∀ (i : Id) (spec : UpstreamSpec), pools[i]? = some spec →
    (∃ u, db.upstream? i = some u) ∧ spec = poolSpec db i

/-- A loop has added pools of the database to a cache, among them those of `met`. -/
structure Grown (db : Database) (pools pools' : Pools) (met : Id → Prop) : Prop where
  ofDb : PoolsOf db pools'
  keeps : ∀ (i : Id) (spec : UpstreamSpec), pools[i]? = some spec → pools'[i]? = some spec
  covers : ∀ i, met i → pools'[i]? = some (poolSpec db i)

theorem Grown.refl {db : Database} {pools : Pools} (cache : PoolsOf db pools) :
    Grown db pools pools fun _ => False where
  ofDb := cache
  keeps := fun _ _ found => found
  covers := fun _ no => no.elim

theorem Grown.trans {db : Database} {pools pools' pools'' : Pools} {met met' : Id → Prop}
    (first : Grown db pools pools' met) (second : Grown db pools' pools'' met') :
    Grown db pools pools'' fun i => met i ∨ met' i where
  ofDb := second.ofDb
  keeps := fun i spec found => second.keeps i spec (first.keeps i spec found)
  covers := by
    rintro i (here | there)
    · exact second.keeps i _ (first.covers i here)
    · exact second.covers i there

theorem Grown.mono {db : Database} {pools pools' : Pools} {met met' : Id → Prop}
    (grown : Grown db pools pools' met) (sub : ∀ i, met' i → met i) : Grown db pools pools' met' where
  ofDb := grown.ofDb
  keeps := grown.keeps
  covers := fun i here => grown.covers i (sub i here)

private theorem grown_insert {db : Database} {pools : Pools} (cache : PoolsOf db pools) {i : Id}
    {u : Upstream} (found : db.upstream? i = some u) (fresh : pools[i]? = none) :
    Grown db pools (pools.insert i (upstreamSpec u)) (· = i) := by
  have spec : poolSpec db i = upstreamSpec u := by simp only [poolSpec, found]
  refine ⟨?_, ?_, ?_⟩
  · intro j s stored
    rw [Dict.get_insert] at stored
    split at stored
    next same =>
      subst same
      cases stored
      exact ⟨⟨u, found⟩, spec.symm⟩
    next => exact cache j s stored
  · intro j s stored
    rw [Dict.get_insert]
    split
    next same =>
      subst same
      rw [fresh] at stored
      cases stored
    next => exact stored
  · rintro j rfl
    rw [Dict.get_insert, if_pos rfl, spec]

/-- The pool check does not depend on the cache. -/
theorem keepPool_spec {db : Database} {pools : Pools} (cache : PoolsOf db pools)
    (ref : Option Id) :
    (keepPool pools (related db.upstream? ref)).2 = usablePool db ref ∧
    Grown db pools (keepPool pools (related db.upstream? ref)).1
      fun i => usablePool db ref = true ∧ ref = some i := by
  cases ref with
  | none => exact ⟨rfl, (Grown.refl cache).mono fun i no => by cases no.2⟩
  | some i =>
    cases found : db.upstream? i with
    | none =>
      have unusable : usablePool db (some i) = false := by
        simp only [usablePool, related, Option.bind_some, found]
      simp only [related, Option.bind_some, found, keepPool, unusable, true_and]
      exact (Grown.refl cache).mono fun j no => by cases no.1
    | some u =>
      have same := upstream?_id found
      subst same
      have spec : poolSpec db u.id = upstreamSpec u := by simp only [poolSpec, found]
      have usable : usablePool db (some u.id) =
          (u.enabled && !(upstreamSpec u).backends.isEmpty) := by
        simp only [usablePool, related, Option.bind_some, found]
      simp only [related, Option.bind_some, found, usable]
      by_cases enabled : u.enabled = true
      · simp only [keepPool, enabled, if_true, Bool.true_and]
        -- a pool that is kept already was kept with the same rendering
        cases stored : pools[u.id]? with
        | some known =>
          have equal := (cache u.id known stored).2
          rw [spec] at equal
          subst equal
          simp only [stored, true_and]
          refine ⟨cache, fun _ _ old => old, ?_⟩
          rintro i ⟨_, here⟩
          cases here
          rw [stored, spec]
        | none =>
          simp only [Dict.get_insert, if_true, true_and]
          refine (grown_insert cache found stored).mono ?_
          rintro i ⟨_, here⟩
          cases here
          rfl
      · simp only [Bool.not_eq_true] at enabled
        simp only [keepPool, enabled, Bool.false_eq_true, if_false, Bool.false_and, true_and]
        exact (Grown.refl cache).mono fun i no => by cases no.1

/-! ### The loops -/

/-- A location is dropped only for its pool. -/
def keepsLocation (db : Database) (l : ProxyHostLocation) : Bool :=
  !(l.target = .pool ∧ l.upstreamId.isSome) || usablePool db l.upstreamId

/-- A host, or a stream, is dropped only for its pool. -/
def keepsTarget (db : Database) (upstreamId : Option Id) : Bool :=
  upstreamId.isNone || usablePool db upstreamId

/-- The locations of a host that are rendered, in path order. -/
def keptLocations (db : Database) (h : ProxyHost) : List ProxyHostLocation :=
  (sortedBy (·.path) h.locations).filter (keepsLocation db)

theorem loadLocations_spec (db : Database) (locations : List ProxyHostLocation) {pools : Pools}
    (cache : PoolsOf db pools) :
    (loadLocations db locations pools).2 =
      (locations.filter (keepsLocation db)).map (locationSpec db) ∧
    Grown db pools (loadLocations db locations pools).1 fun i =>
      ∃ l ∈ locations, keepsLocation db l = true ∧ l.target = .pool ∧ l.upstreamId = some i := by
  -- the pools grow from location to location, so the induction is over all of them
  induction locations generalizing pools with
  | nil =>
    refine ⟨rfl, (Grown.refl cache).mono ?_⟩
    rintro i ⟨l, member, _⟩
    cases member
  | cons l rest ih =>
    by_cases pooled : l.target = .pool ∧ l.upstreamId.isSome
    · obtain ⟨verdict, grown⟩ := keepPool_spec cache l.upstreamId
      have keeps : keepsLocation db l = usablePool db l.upstreamId := by
        simp [keepsLocation, pooled]
      obtain ⟨specs, later⟩ := ih grown.ofDb
      cases usable : usablePool db l.upstreamId with
      | false =>
        rw [usable] at verdict keeps
        have skipped : loadLocations db (l :: rest) pools = loadLocations db rest
            (keepPool pools (related db.upstream? l.upstreamId)).1 := by
          simp only [loadLocations, pooled, and_self, if_true]
          split
          next same => rw [same]
          next same => rw [same] at verdict; cases verdict
        rw [skipped, List.filter_cons_of_neg (by simp [keeps])]
        refine ⟨specs, (grown.trans later).mono ?_⟩
        rintro i ⟨m, member, kept, target, same⟩
        rcases List.mem_cons.mp member with rfl | member
        · rw [keeps] at kept
          cases kept
        · exact Or.inr ⟨m, member, kept, target, same⟩
      | true =>
        rw [usable] at verdict keeps
        have taken : loadLocations db (l :: rest) pools =
            ((loadLocations db rest (keepPool pools (related db.upstream? l.upstreamId)).1).1,
              locationSpec db l :: (loadLocations db rest
                (keepPool pools (related db.upstream? l.upstreamId)).1).2) := by
          simp only [loadLocations, pooled, and_self, if_true]
          split
          next same => rw [same] at verdict; cases verdict
          next same => rw [same]
        rw [taken, List.filter_cons_of_pos keeps, List.map_cons, specs]
        refine ⟨rfl, (grown.trans later).mono ?_⟩
        rintro i ⟨m, member, kept, target, same⟩
        rcases List.mem_cons.mp member with rfl | member
        · exact Or.inl ⟨usable, same⟩
        · exact Or.inr ⟨m, member, kept, target, same⟩
    · obtain ⟨specs, later⟩ := ih cache
      have keeps : keepsLocation db l = true := by
        simp [keepsLocation, pooled]
      simp only [loadLocations, pooled, if_false]
      rw [List.filter_cons_of_pos keeps, List.map_cons, specs]
      refine ⟨rfl, later.mono ?_⟩
      rintro i ⟨m, member, kept, target, same⟩
      rcases List.mem_cons.mp member with rfl | member
      · exact absurd ⟨target, by rw [same]; rfl⟩ pooled
      · exact ⟨m, member, kept, target, same⟩

/-- The check of a target that may not have a pool at all. -/
private theorem targetPool_spec {db : Database} {pools : Pools} (cache : PoolsOf db pools)
    (ref : Option Id) :
    (if ref.isSome then keepPool pools (related db.upstream? ref) else (pools, true)).2 =
      keepsTarget db ref ∧
    Grown db pools
      (if ref.isSome then keepPool pools (related db.upstream? ref) else (pools, true)).1
      fun i => keepsTarget db ref = true ∧ ref = some i := by
  cases ref with
  | none => exact ⟨rfl, (Grown.refl cache).mono fun i no => by cases no.2⟩
  | some i =>
    obtain ⟨verdict, grown⟩ := keepPool_spec cache (some i)
    simp only [Option.isSome_some, if_true, keepsTarget, Option.isNone_some, Bool.false_or]
    exact ⟨verdict, grown⟩

/-- The rendered spec of a host. -/
def loadedHost (cfg : Deployment) (db : Database) (h : ProxyHost) : ProxyHostSpec :=
  proxyHostSpec cfg db h ((keptLocations db h).map (locationSpec db))

theorem loadProxyHosts_spec (cfg : Deployment) (db : Database) (hosts : List ProxyHost)
    {pools : Pools} (cache : PoolsOf db pools) :
    (loadProxyHosts cfg db hosts pools).2 =
      (hosts.filter fun h => keepsTarget db h.upstreamId).map (loadedHost cfg db) ∧
    Grown db pools (loadProxyHosts cfg db hosts pools).1 fun i =>
      ∃ h ∈ hosts, keepsTarget db h.upstreamId = true ∧
        (h.upstreamId = some i ∨
          ∃ l ∈ keptLocations db h, l.target = .pool ∧ l.upstreamId = some i) := by
  induction hosts generalizing pools with
  | nil =>
    refine ⟨rfl, (Grown.refl cache).mono ?_⟩
    rintro i ⟨h, member, _⟩
    cases member
  | cons h rest ih =>
    obtain ⟨verdict, grown⟩ := targetPool_spec cache h.upstreamId
    simp only [loadProxyHosts]
    generalize (if h.upstreamId.isSome = true then
      keepPool pools (related db.upstream? h.upstreamId) else (pools, true)) = checked at *
    obtain ⟨pools', usable⟩ := checked
    simp only at verdict grown ⊢
    subst verdict
    cases keeps : keepsTarget db h.upstreamId with
    | false =>
      simp only [Bool.false_eq_true, if_false]
      obtain ⟨specs, later⟩ := ih grown.ofDb
      rw [List.filter_cons_of_neg (by simp [keeps])]
      refine ⟨specs, (grown.trans later).mono ?_⟩
      rintro i ⟨g, member, kept, refers⟩
      rcases List.mem_cons.mp member with rfl | member
      · rw [keeps] at kept
        cases kept
      · exact Or.inr ⟨g, member, kept, refers⟩
    | true =>
      simp only [if_true]
      -- the host is kept: its locations are loaded before the next host
      obtain ⟨locations, within⟩ := loadLocations_spec db (sortedBy (·.path) h.locations) grown.ofDb
      obtain ⟨specs, later⟩ := ih within.ofDb
      rw [List.filter_cons_of_pos (by simpa using keeps), List.map_cons]
      constructor
      · simp only [specs, locations]
        rfl
      · refine ((grown.trans within).trans later).mono ?_
        rintro i ⟨g, member, kept, refers⟩
        rcases List.mem_cons.mp member with rfl | member
        · rcases refers with own | ⟨l, member, target, same⟩
          · exact Or.inl (Or.inl ⟨keeps, own⟩)
          · obtain ⟨member, kept⟩ := List.mem_filter.mp member
            exact Or.inl (Or.inr ⟨l, member, kept, target, same⟩)
        · exact Or.inr ⟨g, member, kept, refers⟩

theorem loadStreamRows_spec (cfg : Deployment) (db : Database) (streams : List Stream)
    {pools : Pools} (cache : PoolsOf db pools) :
    (loadStreamRows cfg db streams pools).2 =
      (streams.filter fun s => keepsTarget db s.upstreamId).map (streamSpec cfg db) ∧
    Grown db pools (loadStreamRows cfg db streams pools).1 fun i =>
      ∃ s ∈ streams, keepsTarget db s.upstreamId = true ∧ s.upstreamId = some i := by
  induction streams generalizing pools with
  | nil =>
    refine ⟨rfl, (Grown.refl cache).mono ?_⟩
    rintro i ⟨h, member, _⟩
    cases member
  | cons s rest ih =>
    obtain ⟨verdict, grown⟩ := targetPool_spec cache s.upstreamId
    simp only [loadStreamRows]
    generalize (if s.upstreamId.isSome = true then
      keepPool pools (related db.upstream? s.upstreamId) else (pools, true)) = checked at *
    obtain ⟨pools', usable⟩ := checked
    simp only at verdict grown ⊢
    subst verdict
    obtain ⟨specs, later⟩ := ih grown.ofDb
    cases keeps : keepsTarget db s.upstreamId with
    | false =>
      simp only [Bool.false_eq_true, if_false]
      rw [List.filter_cons_of_neg (by simp [keeps])]
      refine ⟨specs, (grown.trans later).mono ?_⟩
      rintro i ⟨g, member, kept, refers⟩
      rcases List.mem_cons.mp member with rfl | member
      · rw [keeps] at kept
        cases kept
      · exact Or.inr ⟨g, member, kept, refers⟩
    | true =>
      simp only [if_true]
      rw [List.filter_cons_of_pos (by simpa using keeps), List.map_cons,
        specs]
      refine ⟨rfl, (grown.trans later).mono ?_⟩
      rintro i ⟨g, member, kept, refers⟩
      rcases List.mem_cons.mp member with rfl | member
      · exact Or.inl ⟨keeps, refers⟩
      · exact Or.inr ⟨g, member, kept, refers⟩

/-- The pools of references that have all been met. -/
theorem referencedPools_ok {db : Database} {pools : Pools} {refs : List Id}
    (covers : ∀ i ∈ refs, pools[i]? = some (poolSpec db i)) :
    referencedPools pools refs = .ok ((sortedBy id refs.dedup).map (poolSpec db)) := by
  apply mapM_eq_ok
  intro i member
  have known := List.mem_dedup.mp ((mem_sortedBy _ _ i).mp member)
  simp only [getItem, covers i known]

end MegooPM
