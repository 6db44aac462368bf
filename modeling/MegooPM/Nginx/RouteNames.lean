import MegooPM.Nginx.ServerBlocks
import MegooPM.Api.Confinement

/-!
# The names of the locations

nginx refuses a server block that holds one name twice among its exact locations, or twice
among its inclusive ones. The exact locations are the documents of the error pages. The
inclusive ones are the root, the extra routes, and the ACME challenge wherever the block
answers on port 80. A route's path is only compared with `/` and with the other paths as
they were written: two spellings of one name, and the challenge's own path, are accepted.
-/
namespace MegooPM

open Lib Lib.Node

/-- The names of the extra routes as nginx stores them. -/
def routeNames (h : ProxyHostSpec) : List String :=
  h.locations.map fun l => readWord l.path

/-! ### Names of a block -/

/-- The exact names of a block and its inclusive ones, as keys. -/
def levelKeys (exact inclusive : List String) : List (Bool × String) :=
  exact.map (Prod.mk true) ++ inclusive.map (Prod.mk false)

theorem nodup_levelKeys (exact inclusive : List String) :
    (levelKeys exact inclusive).Nodup ↔ exact.Nodup ∧ inclusive.Nodup := by
  have injective : ∀ b : Bool, Function.Injective (Prod.mk b : String → Bool × String) :=
    fun b _ _ same => (Prod.mk.inj same).2
  rw [levelKeys, List.nodup_append, List.nodup_map_iff (injective true),
    List.nodup_map_iff (injective false)]
  constructor
  · rintro ⟨left, right, _⟩
    exact ⟨left, right⟩
  · rintro ⟨left, right⟩
    refine ⟨left, right, ?_⟩
    -- an exact name and an inclusive one never meet
    intro a first b second same
    obtain ⟨x, _, rfl⟩ := List.mem_map.mp first
    obtain ⟨y, _, rfl⟩ := List.mem_map.mp second
    cases (Prod.mk.inj same).1

/-- The exact names of every block. -/
def documentNames (h : ProxyHostSpec) : List String :=
  (if h.maintenanceEnabled then ["/" ++ maintenanceHtml] else []) ++
  errorCodes.map fun code => "/" ++ errorHtml code

theorem nodup_documentNames (h : ProxyHostSpec) : (documentNames h).Nodup := by
  unfold documentNames
  cases h.maintenanceEnabled
  · exact (by decide +kernel : ([] ++ errorCodes.map fun code => "/" ++ errorHtml code).Nodup)
  · exact (by decide +kernel :
      (["/" ++ maintenanceHtml] ++ errorCodes.map fun code => "/" ++ errorHtml code).Nodup)

section Keys

variable (cfg : Deployment) (src : Sources) (h : ProxyHostSpec) (m : Option MaintenanceSpec)

private theorem keys_documentLocations :
    (documentLocations cfg src h m).filterMap Location.key =
      (documentNames h).map (Prod.mk true) := by
  have pages : ∀ codes : List Int, (codes.map (errorLocation cfg src)).filterMap Location.key =
      (codes.map fun code => "/" ++ errorHtml code).map (Prod.mk true) := by
    intro codes
    induction codes with
    | nil => rfl
    | cons code rest ih =>
      rw [List.map_cons, List.filterMap_cons, ih]
      rfl
  rw [documentLocations, List.filterMap_append, pages, documentNames, List.map_append]
  cases enabled : h.maintenanceEnabled <;> simp only [maintenanceLocations, enabled] <;> rfl

private theorem keys_routeLocations :
    (routeLocations cfg src h).filterMap Location.key =
      ("/" :: routeNames h).map (Prod.mk false) := by
  have routes : ∀ ls : List LocationSpec,
      (ls.map (extraLocation cfg src h)).filterMap Location.key =
        (ls.map fun l => readWord l.path).map (Prod.mk false) := by
    intro ls
    induction ls with
    | nil => rfl
    | cons l rest ih =>
      rw [List.map_cons, List.filterMap_cons, ih]
      rfl
  have assets : (if h.cachingEnabled then [assetLocation src h] else []).filterMap Location.key =
      [] := by
    cases h.cachingEnabled <;> rfl
  rw [routeLocations, List.filterMap_append, assets, List.append_nil, List.filterMap_cons, routes]
  rfl

end Keys

/-- A name that is stored for an accepted path is longer than the root's. -/
theorem readWord_ne_root {raw path : String} (accepted : validateLocationPath raw = .ok path) :
    readWord path ≠ "/" := by
  obtain ⟨⟨rest, whole⟩, known⟩ := path_of_validated accepted
  have some_ : rest ≠ [] := by
    rintro rfl
    have root : path = "/" := String.toList_inj.mp whole
    simp only [validateLocationPath] at accepted
    split at accepted
    · cases accepted
    · split at accepted
      · cases accepted
      next longer =>
        split at accepted
        · cases accepted
        · split at accepted
          · cases accepted
          · cases accepted
            exact longer root
  have goes : ∀ d ∈ rest, endsWord d = false := by
    intro d member
    obtain ⟨blank, allowed⟩ := known d (by rw [whole]; exact List.mem_cons_of_mem _ member)
    have apart : ∀ e : Char, isSpace e = true ∨ e ∈ locationForbidden → d ≠ e := by
      rintro e (spaced | forbidden) rfl
      · rw [spaced] at blank
        cases blank
      · exact allowed forbidden
    simp [endsWord, delimiter?, apart ' ' (by decide), apart '\t' (by decide),
      apart '\r' (by decide), apart '\n' (by decide), apart ';' (by decide),
      apart '\x7b' (by decide), apart '\x7d' (by decide)]
  obtain ⟨tail, stored, more⟩ := readWord_continued whole (by decide) goes some_
  intro same
  rw [same] at stored
  exact more (List.cons.inj stored).2.symm

/-- A block whose keys are these refuses none of them. -/
private theorem noDuplicates_of_keys {ls : List Location} {exact inclusive : List String}
    (keys : ls.filterMap Location.key = levelKeys exact inclusive) (distinct : exact.Nodup) :
    NoDuplicates ls ↔ inclusive.Nodup := by
  rw [noDuplicates_iff, keys, nodup_levelKeys]
  exact and_iff_right distinct

section Servers

variable {library : SchemaLibrary} {cfg : Deployment} {h : ProxyHostSpec}
  {raw : String → List Lib.Node} (site : Option DefaultSiteSpec) (m : Option MaintenanceSpec)

private theorem distinct_routes (accepted : h.Accepted library) :
    ("/" :: routeNames h).Nodup ↔ (routeNames h).Nodup := by
  refine List.nodup_cons.trans (and_iff_right ?_)
  intro member
  obtain ⟨l, listed, same⟩ := List.mem_map.mp member
  obtain ⟨raw, validated⟩ := (accepted.locations l listed).path
  exact readWord_ne_root validated same

private theorem distinct_challenge (accepted : h.Accepted library) :
    (challengePath :: "/" :: routeNames h).Nodup ↔
      challengePath ∉ routeNames h ∧ (routeNames h).Nodup := by
  rw [List.nodup_cons, distinct_routes accepted, List.mem_cons, not_or]
  exact ⟨fun both => ⟨both.1.2, both.2⟩, fun both => ⟨⟨by decide, both.1⟩, both.2⟩⟩

private theorem noDuplicates_plain (accepted : h.Accepted library) (skips : SkipsCode raw) :
    NoDuplicates (locations (expand (serverSources cfg site raw) (proxyPlainServer cfg h m))) ↔
      h.sslForced = true ∨ (challengePath ∉ routeNames h ∧ (routeNames h).Nodup) := by
  cases forced : h.sslForced with
  | true =>
    have keys : (locations (expand (serverSources cfg site raw)
        (proxyPlainServer cfg h m))).filterMap Location.key =
        levelKeys (documentNames h) [challengePath, "/"] := by
      rw [locations_proxyPlainServer cfg site h m skips, List.filterMap_append,
        keys_documentLocations, forced]
      rfl
    rw [noDuplicates_of_keys keys (nodup_documentNames h)]
    exact iff_of_true (by decide) (Or.inl rfl)
  | false =>
    have keys : (locations (expand (serverSources cfg site raw)
        (proxyPlainServer cfg h m))).filterMap Location.key =
        levelKeys (documentNames h) (challengePath :: "/" :: routeNames h) := by
      rw [locations_proxyPlainServer cfg site h m skips, List.filterMap_append,
        keys_documentLocations, forced, if_neg Bool.false_ne_true, List.filterMap_cons,
        keys_routeLocations]
      rfl
    rw [noDuplicates_of_keys keys (nodup_documentNames h), distinct_challenge accepted]
    simp only [Bool.false_eq_true, false_or]

private theorem noDuplicates_tls (accepted : h.Accepted library) (skips : SkipsCode raw)
    (plain : h.advancedConfig = "") (c : CertificateSpec) :
    NoDuplicates (locations (expand (serverSources cfg site raw) (proxyTlsHead cfg h m ++
      certMaterial c ++ certificateDirectives "\n    " c ++ proxyTlsTail cfg h))) ↔
      (routeNames h).Nodup := by
  have keys : (locations (expand (serverSources cfg site raw) (proxyTlsHead cfg h m ++
      certMaterial c ++ certificateDirectives "\n    " c ++
      proxyTlsTail cfg h))).filterMap Location.key =
      levelKeys (documentNames h) ("/" :: routeNames h) := by
    rw [locations_proxyTlsServer cfg site h m skips, plain, operatorNodes_none, locations_nil,
      List.append_nil, List.filterMap_append, keys_documentLocations, keys_routeLocations]
    rfl
  rw [noDuplicates_of_keys keys (nodup_documentNames h), distinct_routes accepted]

private theorem noDuplicates_only (accepted : h.Accepted library) (skips : SkipsCode raw)
    (plain : h.advancedConfig = "") :
    NoDuplicates (locations (expand (serverSources cfg site raw) (proxyOnlyServer cfg h m))) ↔
      challengePath ∉ routeNames h ∧ (routeNames h).Nodup := by
  have keys : (locations (expand (serverSources cfg site raw)
      (proxyOnlyServer cfg h m))).filterMap Location.key =
      levelKeys (documentNames h) (challengePath :: "/" :: routeNames h) := by
    rw [locations_proxyOnlyServer cfg site h m skips, plain, operatorNodes_none, locations_nil,
      List.append_nil, List.filterMap_append, keys_documentLocations, List.filterMap_cons,
      keys_routeLocations]
    rfl
  rw [noDuplicates_of_keys keys (nodup_documentNames h), distinct_challenge accepted]

/-- No server block of a host holds a location twice exactly when the stored names of its
routes differ, and none is the challenge's where a block answers both on port 80. -/
theorem locations_distinct_iff (accepted : h.Accepted library) (skips : SkipsCode raw)
    (plain : h.advancedConfig = "") :
    (∀ level ∈ serverLevels (serverSources cfg site raw) (proxyHostConf cfg h m),
      NoDuplicates (locations level)) ↔
    (routeNames h).Nodup ∧
      (challengePath ∈ routeNames h → h.certificate.isSome = true ∧ h.sslForced = true) := by
  rw [serverLevels, serverBlocks_proxyHost]
  cases h.certificate with
  | none =>
    simp only [List.map_cons, List.map_nil, List.forall_mem_singleton,
      noDuplicates_only site m accepted skips plain, Option.isSome_none, Bool.false_eq_true,
      false_and]
    exact and_comm
  | some c =>
    simp only [List.map_cons, List.map_nil, List.forall_mem_cons,
      noDuplicates_plain site m accepted skips, noDuplicates_tls site m accepted skips plain c,
      Option.isSome_some, true_and]
    constructor
    · rintro ⟨forced | ⟨absent, _⟩, distinct, _⟩
      · exact ⟨distinct, fun _ => forced⟩
      · exact ⟨distinct, fun member => absurd member absent⟩
    · rintro ⟨distinct, forced⟩
      refine ⟨?_, distinct, fun _ member => by cases member⟩
      by_cases member : challengePath ∈ routeNames h
      · exact Or.inl (forced member)
      · exact Or.inr ⟨member, distinct⟩

end Servers

/-! ### Samples -/

/-- A host with a pool, and routes of these paths to it. -/
def routedHost (paths : List String) : ProxyHostSpec where
  id := 1
  domainNames := ["example.com"]
  upstreamId := some 1
  locations := paths.map fun path => { path, upstreamId := some 1 }

theorem accepted_routedHost {paths : List String}
    (valid : ∀ path ∈ paths, validateLocationPath path = .ok path)
    (distinct : uniqueLocationPaths [] paths = .ok ()) :
    (routedHost paths).Accepted sampleLibrary where
  names := ⟨["example.com"],
    (by decide +kernel : normaliseDomains id [] ["example.com"] = .ok ["example.com"])⟩
  target := ⟨fun _ none_ => (by cases none_), fun _ none_ => (by cases none_), Bool.false_ne_true⟩
  locations := by
    intro l member
    obtain ⟨path, listed, rfl⟩ := List.mem_map.mp member
    exact {
      path := ⟨path, valid path listed⟩
      pool := fun _ => ⟨rfl, rfl⟩
      host := fun other => (by cases other)
      target := fun _ =>
        ⟨fun _ none_ => (by cases none_), fun _ none_ => (by cases none_), Bool.false_ne_true⟩ }
  paths := by
    have same : (routedHost paths).locations.map (·.path) = paths := by
      simp [routedHost, Function.comp_def]
    rw [same]
    exact distinct
  accessList := fun _ none_ => by cases none_
  allow := fun _ member => by cases member

theorem locations_distinct_routed :
    (routedHost ["/api/", "/static/"]).Accepted sampleLibrary ∧
    ∀ level ∈ serverLevels (serverSources sampleDeployment none fun _ => [])
      (proxyHostConf sampleDeployment (routedHost ["/api/", "/static/"]) none),
      NoDuplicates (locations level) := by
  have accepted : (routedHost ["/api/", "/static/"]).Accepted sampleLibrary :=
    accepted_routedHost (by decide +kernel) (by decide +kernel)
  refine ⟨accepted, (locations_distinct_iff none none accepted (fun _ _ _ _ => rfl) rfl).mpr ?_⟩
  constructor
  · decide +kernel
  · exact fun member => absurd member (by decide +kernel)

/-- A route of the challenge's own path is accepted, and its server block is refused. -/
theorem locations_challengeRoute :
    (routedHost [challengePath]).Accepted sampleLibrary ∧
    (routedHost [challengePath]).advancedConfig = "" ∧
    ¬∀ level ∈ serverLevels (serverSources sampleDeployment none fun _ => [])
      (proxyHostConf sampleDeployment (routedHost [challengePath]) none),
      NoDuplicates (locations level) :=
  ⟨accepted_routedHost (by decide +kernel) (by decide +kernel), rfl, by decide +kernel⟩

end MegooPM
