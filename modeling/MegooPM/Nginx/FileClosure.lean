import MegooPM.Nginx.Documents
import MegooPM.Nginx.FileReferences
import MegooPM.Nginx.AllOrNothing

/-!
# File references

The files that the http configuration names in the managed directories are the files the
renderer puts there: every reference resolves, and no document of a location, no password
file and no maintenance page is rendered that no server block refers to.

The references come from the templates, host by host and location by location; the files
come from the loops of `render_config` and `render_default_site`, each with conditions of
its own.
-/
namespace MegooPM

open Lib Lib.Node

/-- The files of conf.d and of the default directory, not printed yet. -/
def httpBodies (cfg : Deployment) (state : DesiredState) : List (String × FileBody) :=
  (configBodies cfg state).toList ++ (Dict.ofPairs (defaultPairs cfg state)).toList

/-- There is a file of that name. -/
def Rendered (files : Files) (name : String) : Prop :=
  ∃ content, files[name]? = some content

/-- A path in one of the two directories. -/
def InManagedDir (cfg : Deployment) (path : String) : Prop :=
  ∃ name, path = cfg.nginxDefaultDir ++ "/" ++ name ∨ path = cfg.nginxConfdDir ++ "/" ++ name

/-- The path of a rendered file. -/
def RenderedPath (cfg : Deployment) (state : DesiredState) (path : String) : Prop :=
  (∃ name, path = cfg.nginxDefaultDir ++ "/" ++ name ∧ Rendered (renderDefaultSite cfg state) name) ∨
  ∃ name, path = cfg.nginxConfdDir ++ "/" ++ name ∧ Rendered (renderConfig cfg state) name

/-- An exact file in the managed directories is rendered, and an error page is answered with
a rendered document. The log targets belong to the base configuration, and the rules of the
default site are included by a wildcard, which may match nothing. -/
def Resolves (cfg : Deployment) (state : DesiredState) : Reference → Prop
  | .file path => InManagedDir cfg path → path ≠ loggingTargets →
    path ≠ cfg.nginxDefaultDir ++ "/*.conf" → RenderedPath cfg state path
  | .uri uri => ∃ name, uri = "/" ++ name ∧ Rendered (renderDefaultSite cfg state) name

/-- Some file of conf.d has the reference. -/
def Linked (cfg : Deployment) (state : DesiredState) (r : Reference) : Prop :=
  ∃ file ∈ (configBodies cfg state).toList, r ∈ fileLinks file.2.tree

/-- References and files coincide: what the configuration refers to is rendered, and what is
rendered for a location, for a maintenance page or for an access list is referred to. -/
structure FilesClosed (cfg : Deployment) (state : DesiredState) : Prop where
  resolved : ∀ file ∈ httpBodies cfg state, ∀ r ∈ fileLinks file.2.tree, Resolves cfg state r
  locations : ∀ i : Id, Rendered (renderDefaultSite cfg state) (locationHtml (some i)) →
    Linked cfg state (.file (cfg.nginxDefaultDir ++ "/" ++ locationHtml (some i)))
  maintenance : Rendered (renderDefaultSite cfg state) maintenanceHtml →
    Linked cfg state (.file (cfg.nginxDefaultDir ++ "/" ++ maintenanceHtml))
  passwords : ∀ i : Id, Rendered (renderConfig cfg state) (htpasswdFilename i) →
    Linked cfg state (.file (htpasswdPath cfg i))

/-! ### Every reference resolves -/

section Resolved

variable (cfg : Deployment) (state : DesiredState)

/-- A document that is assigned somewhere is rendered. -/
private theorem rendered_default {name : String} (body : FileBody)
    (member : (name, body) ∈ defaultPairs cfg state) : Rendered (renderDefaultSite cfg state) name :=
  get_text_isSome member

private theorem resolves_document {name : String}
    (rendered : Rendered (renderDefaultSite cfg state) name) :
    Resolves cfg state (documentReference cfg name) :=
  fun _ _ _ => Or.inl ⟨name, rfl, rendered⟩

private theorem resolves_common {r : Reference} (common : r ∈ commonReferences cfg) :
    Resolves cfg state r := by
  simp only [commonReferences, List.mem_cons, List.not_mem_nil, or_false] at common
  rcases common with rfl | rfl
  · exact resolves_document cfg state (errorsConf_rendered cfg state)
  · exact fun _ other => absurd rfl other

private theorem rendered_maintenance {h : ProxyHostSpec} (host : h ∈ state.proxyHosts)
    (enabled : h.maintenanceEnabled = true) :
    Rendered (renderDefaultSite cfg state) maintenanceHtml := by
  have some_ : (state.proxyHosts.any (·.maintenanceEnabled)) = true :=
    List.any_eq_true.mpr ⟨h, host, enabled⟩
  apply rendered_default cfg state (.plain (maintenanceDocument cfg state.maintenance))
  simp [defaultPairs, maintenancePairs, some_]

private theorem rendered_location {h : ProxyHostSpec} (host : h ∈ state.proxyHosts)
    {l : LocationSpec} (located : l ∈ h.locations) (custom : l.target = .customPage)
    (own : l.id.isSome = true) : Rendered (renderDefaultSite cfg state) (locationHtml l.id) := by
  have kept : (locationHtml l.id, FileBody.plain l.html) ∈ locationPairs h :=
    List.mem_map_of_mem (List.mem_filter.mpr ⟨located, by simp [custom, own]⟩)
  apply rendered_default cfg state (.plain l.html)
  have inside := List.mem_flatMap.mpr ⟨h, host, kept⟩
  simp only [defaultPairs, List.mem_append]
  exact Or.inl (Or.inl (Or.inl (Or.inr inside)))

private theorem rendered_siteBody (configured : state.defaultSite.isSome = true) :
    Rendered (renderDefaultSite cfg state) defaultSiteBody := by
  obtain ⟨site, some_⟩ := Option.isSome_iff_exists.mp configured
  apply rendered_default cfg state (.conf (defaultSiteTemplate cfg site true))
  simp [defaultPairs, defaultSitePairs, some_]

private theorem rendered_htpasswd {h : ProxyHostSpec} (host : h ∈ state.proxyHosts)
    {a : AccessListSpec} (has : h.accessList = some a) (users : a.authUsers.isEmpty = false) :
    Rendered (renderConfig cfg state) (htpasswdFilename a.id) := by
  have member : (htpasswdFilename a.id, FileBody.plain (renderHtpasswd a)) ∈
      renderProxyHost cfg state.maintenance h :=
    mem_renderProxyHost.mpr (Or.inr ⟨a, has, users, rfl⟩)
  exact get_text_isSome (mem_configPairs.mpr (Or.inr (Or.inl ⟨h, host, member⟩)))

/-- What the rendering takes for granted of a state: the loader gives every location its id,
and a default site wherever there is a settings row. -/
structure DesiredState.Loaded (state : DesiredState) : Prop where
  locationIds : ∀ h ∈ state.proxyHosts, ∀ l ∈ h.locations, l.id.isSome = true
  defaultSite : state.defaultSite.isSome = true

private theorem resolves_host (loaded : state.Loaded) {h : ProxyHostSpec}
    (host : h ∈ state.proxyHosts) {r : Reference} (own : r ∈ hostReferences cfg h) :
    Resolves cfg state r := by
  simp only [hostReferences, List.mem_append, List.mem_flatMap] at own
  rcases own with (maintenance | auth) | ⟨l, located, own⟩
  · unfold maintenanceReferences at maintenance
    split at maintenance
    next enabled =>
      have rendered := rendered_maintenance cfg state host enabled
      simp only [List.mem_cons, List.not_mem_nil, or_false] at maintenance
      rcases maintenance with rfl | rfl
      · exact ⟨maintenanceHtml, rfl, rendered⟩
      · exact resolves_document cfg state rendered
    next => cases maintenance
  · unfold authReferences at auth
    split at auth
    next a has =>
      split at auth
      next => cases auth
      next users =>
        rw [List.mem_singleton.mp auth]
        have rendered := rendered_htpasswd cfg state host has (by simpa using users)
        exact fun _ _ _ => Or.inr ⟨htpasswdFilename a.id, rfl, rendered⟩
    next => cases auth
  · unfold locationReferences at own
    split at own
    next custom =>
      rw [List.mem_singleton.mp own]
      exact resolves_document cfg state
        (rendered_location cfg state host located custom (loaded.locationIds h host l located))
    next =>
      rw [List.mem_singleton.mp own]
      exact resolves_document cfg state (rendered_siteBody cfg state loaded.defaultSite)
    next => cases own

/-- A relative path lies in no directory. -/
private theorem resolves_relative : Resolves cfg state (.file "0") := by
  rintro ⟨name, inside | inside⟩
  all_goals
    have letters := congrArg String.toList inside
    simp only [String.toList_append] at letters
    have slash : '/' ∈ "0".toList := by
      rw [letters]
      simp
    exact absurd slash (by decide)

private theorem resolves_config (loaded : state.Loaded) {file : String × FileBody}
    (member : file ∈ configPairs cfg state) {r : Reference} (link : r ∈ fileLinks file.2.tree) :
    Resolves cfg state r := by
  rcases mem_configPairs.mp member with ⟨u, _, rfl⟩ | ⟨h, host, inside⟩ | ⟨d, _, rfl⟩ |
    ⟨d, _, rfl⟩ | ⟨t, _, rfl⟩
  · simp [renderUpstream, FileBody.tree, fileLinks, links_upstreamConf] at link
  · rcases mem_renderProxyHost.mp inside with rfl | ⟨a, _, _, rfl⟩
    · rcases links_proxyHostConf cfg _ h _ link with common | own | rfl
      · exact resolves_common cfg state common
      · exact resolves_host cfg state loaded host own
      · exact resolves_relative cfg state
    · cases link
  · exact resolves_common cfg state (links_redirectionHostConf cfg _ d link)
  · exact resolves_common cfg state (links_deadHostConf cfg _ d link)
  · rcases links_defaultTlsConf cfg _ t link with common | rfl
    · exact resolves_common cfg state common
    · exact fun _ _ other => absurd rfl other

/-- The two modes that refer to the document of the default site render it. -/
private theorem rendered_siteHtml {site : DefaultSiteSpec} (some_ : state.defaultSite = some site)
    {r : Reference} (link : r ∈ siteReferences cfg site) : Resolves cfg state r := by
  unfold siteReferences at link
  split at link
  next mode =>
    rw [List.mem_singleton.mp link]
    apply resolves_document
    apply rendered_default cfg state (.plain cfg.congratulationsHtml)
    simp [defaultPairs, defaultSitePairs, some_, mode]
  next mode =>
    rw [List.mem_singleton.mp link]
    apply resolves_document
    apply rendered_default cfg state (.plain site.html)
    simp [defaultPairs, defaultSitePairs, some_, mode]
  next => cases link

private theorem resolves_site {file : String × FileBody}
    (member : file ∈ defaultSitePairs cfg state.defaultSite) {r : Reference}
    (link : r ∈ fileLinks file.2.tree) : Resolves cfg state r := by
  cases some_ : state.defaultSite with
  | none =>
    rw [some_] at member
    cases member
  | some site =>
    rw [some_] at member
    rcases List.mem_append.mp member with rules | document
    · simp only [List.mem_cons, List.not_mem_nil, or_false] at rules
      rcases rules with rfl | rfl
      · exact rendered_siteHtml cfg state some_ ((links_defaultSiteTemplate cfg site false) ▸ link)
      · exact rendered_siteHtml cfg state some_ ((links_defaultSiteTemplate cfg site true) ▸ link)
    · split at document
      · rw [List.mem_singleton.mp document] at link
        cases link
      · rw [List.mem_singleton.mp document] at link
        cases link
      · cases document

private theorem resolves_errors {file : String × FileBody}
    (member : file ∈ errorPairs cfg state.errorPages) {r : Reference}
    (link : r ∈ fileLinks file.2.tree) : Resolves cfg state r := by
  rcases List.mem_append.mp member with document | index
  · obtain ⟨code, _, rfl⟩ := List.mem_map.mp document
    cases link
  · rw [List.mem_singleton.mp index] at link
    change r ∈ fileLinks (errorsTemplate cfg errorCodes) at link
    rw [links_errorsTemplate, List.mem_flatMap] at link
    obtain ⟨code, known, named⟩ := link
    have rendered : Rendered (renderDefaultSite cfg state) (errorHtml code) := by
      have inside : (errorHtml code, FileBody.plain (errorDocument cfg state.errorPages code)) ∈
          errorPairs cfg state.errorPages := List.mem_append_left _ (List.mem_map_of_mem known)
      apply rendered_default cfg state (.plain (errorDocument cfg state.errorPages code))
      simp only [defaultPairs, List.mem_append]
      exact Or.inl (Or.inl (Or.inr inside))
    simp only [List.mem_cons, List.not_mem_nil, or_false] at named
    rcases named with rfl | rfl
    · exact ⟨errorHtml code, rfl, rendered⟩
    · exact resolves_document cfg state rendered

private theorem resolves_default {file : String × FileBody}
    (member : file ∈ defaultPairs cfg state) {r : Reference} (link : r ∈ fileLinks file.2.tree) :
    Resolves cfg state r := by
  simp only [defaultPairs, List.mem_append, List.mem_flatMap] at member
  rcases member with (((site | ⟨h, _, location⟩) | error) | ban) | maintenance
  · exact resolves_site cfg state site link
  · obtain ⟨l, _, rfl⟩ := List.mem_map.mp location
    cases link
  · exact resolves_errors cfg state error link
  -- the other two are documents
  · unfold banPairs at ban
    split at ban
    · cases ban
    · split at ban
      · cases ban
      all_goals
        split at ban
        · cases ban
        · rw [List.mem_singleton.mp ban] at link
          cases link
  · unfold maintenancePairs at maintenance
    split at maintenance
    · rw [List.mem_singleton.mp maintenance] at link
      cases link
    · cases maintenance

end Resolved

/-! ### Every rendered document is referred to -/

section Used

variable {cfg : Deployment} {state : DesiredState} (distinct : DistinctSpecs state)

include distinct

/-- The own references of a rendered host stand in conf.d. -/
private theorem linked_host {h : ProxyHostSpec} (host : h ∈ state.proxyHosts) {r : Reference}
    (own : r ∈ hostReferences cfg h) : Linked cfg state r := by
  have member : (proxyFilename h.id, FileBody.conf (proxyHostConf cfg h state.maintenance)) ∈
      configPairs cfg state :=
    mem_configPairs.mpr (Or.inr (Or.inl ⟨h, host, mem_renderProxyHost.mpr (Or.inl rfl)⟩))
  exact ⟨_, (mem_toList_ofPairs (functional_configPairs cfg distinct) _).mpr member,
    hostReferences_linked cfg _ h state.maintenance own⟩

private theorem linked_location {i : Id}
    (rendered : Rendered (renderDefaultSite cfg state) (locationHtml (some i))) :
    Linked cfg state (.file (cfg.nginxDefaultDir ++ "/" ++ locationHtml (some i))) := by
  obtain ⟨content, found⟩ := rendered
  rw [renderDefaultSite, get_text, get_location cfg state (nameTag_locationHtml i), ← get_text] at found
  obtain ⟨body, member, _⟩ := mem_pairs_of_get_text found
  obtain ⟨h, host, inside⟩ := List.mem_flatMap.mp member
  obtain ⟨l, kept, same⟩ := List.mem_map.mp inside
  obtain ⟨located, custom⟩ := List.mem_filter.mp kept
  obtain ⟨name, rfl⟩ := Prod.mk.inj same
  rw [← name]
  apply linked_host distinct host
  have target : l.target = .customPage := (of_decide_eq_true custom).1
  refine List.mem_append_right _ (List.mem_flatMap.mpr ⟨l, located, ?_⟩)
  simp [locationReferences, target, documentReference]

private theorem linked_maintenance (rendered : Rendered (renderDefaultSite cfg state) maintenanceHtml) :
    Linked cfg state (.file (cfg.nginxDefaultDir ++ "/" ++ maintenanceHtml)) := by
  obtain ⟨content, found⟩ := rendered
  rw [renderDefaultSite, get_text, get_maintenance cfg state nameTag_maintenanceHtml, ← get_text]
    at found
  obtain ⟨body, member, _⟩ := mem_pairs_of_get_text found
  unfold maintenancePairs at member
  split at member
  next shown =>
    obtain ⟨h, host, enabled⟩ := List.any_eq_true.mp shown
    apply linked_host distinct host
    refine List.mem_append_left _ (List.mem_append_left _ ?_)
    simp [maintenanceReferences, enabled, documentReference]
  next => cases member

private theorem linked_htpasswd {i : Id}
    (rendered : Rendered (renderConfig cfg state) (htpasswdFilename i)) :
    Linked cfg state (.file (htpasswdPath cfg i)) := by
  obtain ⟨content, found⟩ := rendered
  obtain ⟨body, member, _⟩ := mem_pairs_of_get_text found
  have tag := nameTag_htpasswdFilename i
  have other : ∀ {head : String} (j : Id) (tail : String), 11 ≤ head.toList.length →
      head.toList.take 11 ≠ "megoopm-acc".toList →
      head ++ toString j ++ tail ≠ htpasswdFilename i := by
    intro head j tail long apart same
    rw [← same, nameTag_append long] at tag
    exact apart tag
  rcases mem_configPairs.mp member with ⟨u, _, same⟩ | ⟨h, host, inside⟩ | ⟨d, _, same⟩ |
    ⟨d, _, same⟩ | ⟨t, _, same⟩
  · exact absurd (Prod.mk.inj same).1 (other u.id _ (by decide) (by decide))
  · rcases mem_renderProxyHost.mp inside with same | ⟨a, has, users, same⟩
    · exact absurd (Prod.mk.inj same).1.symm (other h.id _ (by decide) (by decide))
    · have name := (Prod.mk.inj same).1
      rw [htpasswdPath, name]
      apply linked_host distinct host
      refine List.mem_append_left _ (List.mem_append_right _ ?_)
      simp [authReferences, has, users, htpasswdPath]
  · exact absurd (Prod.mk.inj same).1 (other d.id _ (by decide) (by decide))
  · exact absurd (Prod.mk.inj same).1 (other d.id _ (by decide) (by decide))
  · exact absurd (Prod.mk.inj same).1 (other t.certificate.id _ (by decide) (by decide))

/-- Files and references coincide, whatever the state holds. -/
theorem filesClosed_of_loaded (loaded : state.Loaded) : FilesClosed cfg state where
  resolved := by
    rintro ⟨name, body⟩ member r link
    rcases List.mem_append.mp member with config | default
    · exact resolves_config cfg state loaded
        ((mem_toList_ofPairs (functional_configPairs cfg distinct) _).mp config) link
    · have stored := Std.ExtTreeMap.mem_toList_iff_getElem?_eq_some.mp default
      exact resolves_default cfg state (Dict.mem_of_get_ofPairs _ name body stored) link
  locations := fun _ => linked_location distinct
  maintenance := linked_maintenance distinct
  passwords := fun _ => linked_htpasswd distinct

end Used

/-! ### The loaded state -/

/-- The loader takes the id of each location from its row, and the default site from the
settings row. -/
theorem loaded_desiredState (cfg : Deployment) {db : Database}
    (seeded : db.instanceSettings.isSome = true) : (desiredState cfg db).Loaded where
  locationIds := by
    intro h host l located
    obtain ⟨row, _, rfl⟩ := List.mem_map.mp host
    obtain ⟨own, _, rfl⟩ := List.mem_map.mp located
    rfl
  defaultSite := by
    obtain ⟨row, settings⟩ := Option.isSome_iff_exists.mp seeded
    change (loadDefaultSite db).isSome = true
    rw [loadDefaultSite, settings]
    rfl

/-- The files the http configuration of a seeded database refers to are files of the same
rendering, and no document of its hosts is rendered for nothing. -/
theorem filesClosed_loadDesiredState (cfg : Deployment) {db : Database}
    (constraints : db.Constraints) (seeded : db.instanceSettings.isSome = true) :
    ∃ state, loadDesiredState cfg db = .ok state ∧ FilesClosed cfg state :=
  ⟨desiredState cfg db, loadDesiredState_ok cfg constraints,
    filesClosed_of_loaded (distinctSpecs_desiredState cfg constraints)
      (loaded_desiredState cfg seeded)⟩

/-- A host behind a password, under maintenance, with a page of its own at one location and
the default site at another. -/
def guardedDb : Database where
  accessLists := [{ id := 1, name := "staff"
                    authUsers := [{ id := 1, username := "ann", passwordHash := "$apr1$" }] }]
  customPages := [{ id := 1, name := "hello", html := "<h1>Hello</h1>" }]
  proxyHosts :=
    [{ id := 1, domainNames := ["shop.example"], forwardHost := some "10.0.0.5"
       forwardPort := some 80, accessListId := some 1, maintenanceEnabled := true
       locations := [{ id := 1, path := "/hello", target := .customPage, customPageId := some 1 },
                     { id := 2, path := "/about", target := .defaultSite }] }]
  instanceSettings := some {}

theorem filesClosed_guarded :
    ∃ state, loadDesiredState sampleDeployment guardedDb = .ok state ∧
      FilesClosed sampleDeployment state :=
  filesClosed_loadDesiredState sampleDeployment (by decide) (by decide)

end MegooPM
