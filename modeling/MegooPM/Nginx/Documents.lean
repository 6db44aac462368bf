import MegooPM.Nginx.CertificatePaths
import MegooPM.Lib.Rows

/-!
# Documents

What the rendered files take from custom pages. A page is shown as the default site, on a
ban, during maintenance, for a status code, or at a location. All of these documents are
files of the default directory; conf.d and the streams print nothing of a page.
-/
namespace MegooPM

open Lib

/-! ### Pages by reference -/

/-- The document a reference leads to. -/
def Database.pageHtml (db : Database) (ref : Option Id) : String :=
  match related db.customPage? ref with
  | some page => page.html
  | none => ""

theorem pageHtml_of_find {db : Database} {i : Id} {page : CustomPage}
    (found : db.customPage? i = some page) : db.pageHtml (some i) = page.html := by
  simp only [Database.pageHtml, related, Option.bind_some, found]

theorem pageHtml_congr {db db' : Database} {i : Id}
    (same : db'.customPage? i = db.customPage? i) :
    db'.pageHtml (some i) = db.pageHtml (some i) := by
  simp only [Database.pageHtml, related, Option.bind_some, same]

/-- A setting shows a page when its mode asks for one; the id `0` is no reference. -/
theorem settingHtml_eq (db : Database) (custom : Bool) (ref : Option Id) :
    settingHtml db custom ref =
      if custom = true ∧ ref ≠ some 0 then db.pageHtml ref else "" := by
  cases custom with
  | false => simp [settingHtml]
  | true =>
    cases ref with
    | none => simp [settingHtml, Database.pageHtml, related]
    | some i =>
      by_cases zero : i = 0
      · simp [settingHtml, zero]
      · have shown : true = true ∧ some i ≠ some 0 := ⟨rfl, by simpa using zero⟩
        rw [if_pos shown]
        exact (if_pos rfl).trans (if_neg zero)

theorem locationSpec_html (db : Database) (l : ProxyHostLocation) :
    (locationSpec db l).html = if l.target = .customPage then db.pageHtml l.customPageId else "" :=
  rfl

/-! ### A state without its documents -/

def LocationSpec.blank (l : LocationSpec) : LocationSpec :=
  { l with html := "" }

def ProxyHostSpec.blank (h : ProxyHostSpec) : ProxyHostSpec :=
  { h with locations := h.locations.map LocationSpec.blank }

def MaintenanceSpec.blank (m : MaintenanceSpec) : MaintenanceSpec :=
  { m with html := "" }

/-- The state with every document emptied. -/
def DesiredState.blank (state : DesiredState) : DesiredState :=
  { state with
    proxyHosts := state.proxyHosts.map ProxyHostSpec.blank
    defaultSite := state.defaultSite.map fun site => { site with html := "" }
    banPage := state.banPage.map fun ban => { ban with html := "" }
    maintenance := state.maintenance.map MaintenanceSpec.blank
    errorPages := state.errorPages.map fun page => { page with html := "" } }

private theorem locationTargets_blank (h : ProxyHostSpec) :
    locationTargets h.blank = locationTargets h := by
  simp only [locationTargets, ProxyHostSpec.blank, List.filter_map, List.map_map,
    Function.comp_def, LocationSpec.blank]

private theorem extraRoute_blank (cfg : Deployment) (h : ProxyHostSpec) (l : LocationSpec) :
    extraRoute cfg h.blank l.blank = extraRoute cfg h l := by
  unfold extraRoute
  rw [locationTargets_blank]
  rfl

private theorem proxyLocation_blank (cfg : Deployment) (h : ProxyHostSpec) :
    proxyLocation cfg h.blank = proxyLocation cfg h := by
  have routes : h.blank.locations.flatMap (extraRoute cfg h.blank) =
      h.locations.flatMap (extraRoute cfg h) := by
    rw [ProxyHostSpec.blank, List.flatMap_map]
    exact List.flatMap_congr fun l _ => extraRoute_blank cfg h l
  unfold proxyLocation
  rw [routes]
  rfl

theorem proxyHostConf_blank (cfg : Deployment) (h : ProxyHostSpec) (m : Option MaintenanceSpec) :
    proxyHostConf cfg h.blank (m.map MaintenanceSpec.blank) = proxyHostConf cfg h m := by
  have page : maintenancePage cfg h.blank (m.map MaintenanceSpec.blank) =
      maintenancePage cfg h m := by
    cases m <;> rfl
  have location := proxyLocation_blank cfg h
  unfold proxyHostConf proxyPlainServer proxyOnlyServer proxyTlsHead proxyTlsTail
  rw [page, location]
  rfl

/-- conf.d prints no document. -/
theorem renderConfig_blank (cfg : Deployment) (state : DesiredState) :
    renderConfig cfg state.blank = renderConfig cfg state := by
  have hosts : state.blank.proxyHosts.flatMap (renderProxyHost cfg state.blank.maintenance) =
      state.proxyHosts.flatMap (renderProxyHost cfg state.maintenance) := by
    rw [DesiredState.blank, List.flatMap_map]
    refine List.flatMap_congr fun h _ => ?_
    simp only [renderProxyHost, proxyHostConf_blank]
    rfl
  unfold renderConfig configBodies configPairs
  rw [hosts]
  rfl

section Pages

variable (cfg : Deployment) (db : Database) (pages : List CustomPage)

private theorem httpReferences_pages :
    httpReferences ((includedHosts db).map (loadedHost cfg { db with customPages := pages })) =
      httpReferences ((includedHosts db).map (loadedHost cfg db)) := by
  simp only [httpReferences, List.filterMap_map, List.flatMap_map, Function.comp_def, loadedHost,
    proxyHostSpec]
  rfl

theorem claimedNames_pages :
    claimedNames cfg { db with customPages := pages } = claimedNames cfg db := by
  simp only [claimedNames, claimedTlsNames, desiredHosts, List.flatMap_map]
  rfl

/-- Two contents that differ in their pages only differ in their documents only. -/
theorem blank_desiredState :
    (desiredState cfg { db with customPages := pages }).blank = (desiredState cfg db).blank := by
  have hosts : ((includedHosts db).map (loadedHost cfg { db with customPages := pages })).map
      ProxyHostSpec.blank = ((includedHosts db).map (loadedHost cfg db)).map ProxyHostSpec.blank := by
    simp only [List.map_map]
    refine List.map_congr_left fun h _ => ?_
    simp only [Function.comp, loadedHost, ProxyHostSpec.blank, proxyHostSpec, List.map_map]
    rfl
  have codes : (loadErrorPages { db with customPages := pages }).map
      (fun page => { page with html := "" }) =
      (loadErrorPages db).map fun page => { page with html := "" } := by
    have sorted := sortedBy_map ErrorPageSpec.code ErrorPageSpec.code
      fun page : ErrorPageSpec => { page with html := "" }
    rw [loadErrorPages, loadErrorPages, ← sorted _ fun _ => rfl, ← sorted _ fun _ => rfl,
      List.map_map, List.map_map]
    rfl
  have site : (loadDefaultSite { db with customPages := pages }).map
      (fun site => { site with html := "" }) =
      (loadDefaultSite db).map fun site => { site with html := "" } := by
    cases settings : db.instanceSettings <;> simp [loadDefaultSite, settings]
  have ban : (loadBanPage { db with customPages := pages }).map
      (fun ban => { ban with html := "" }) =
      (loadBanPage db).map fun ban => { ban with html := "" } := by
    cases settings : db.instanceSettings <;> simp [loadBanPage, settings]
  have maintenance : (loadMaintenance { db with customPages := pages }).map MaintenanceSpec.blank =
      (loadMaintenance db).map MaintenanceSpec.blank := by
    cases settings : db.instanceSettings <;> simp [loadMaintenance, settings, MaintenanceSpec.blank]
  have references := httpReferences_pages cfg db pages
  have claimed := claimedNames_pages cfg db pages
  unfold claimedNames at claimed
  unfold desiredState
  rw [claimed]
  simp only [DesiredState.blank, desiredHosts, DesiredState.mk.injEq]
  exact ⟨hosts, congrArg _ references, rfl, rfl, rfl, rfl, site, rfl, ban, maintenance, codes⟩

/-- conf.d does not depend on the pages. -/
theorem renderConfig_pages : renderConfig cfg (desiredState cfg { db with customPages := pages }) =
    renderConfig cfg (desiredState cfg db) := by
  rw [← renderConfig_blank, blank_desiredState, renderConfig_blank]

/-- Nor do the streams. -/
theorem renderStreamConfig_pages :
    renderStreamConfig (desiredState cfg { db with customPages := pages }) =
      renderStreamConfig (desiredState cfg db) := by
  have blank : ∀ state : DesiredState, renderStreamConfig state.blank = renderStreamConfig state :=
    fun _ => rfl
  rw [← blank, blank_desiredState, blank]

end Pages

/-! ### The default directory, family by family -/

theorem absent_of_tagged {tags : List String} {pairs : List (String × FileBody)}
    (tagged : Tagged tags pairs) {name : String} (other : nameTag name ∉ tags.map String.toList)
    (body : FileBody) : (name, body) ∉ pairs :=
  fun member => other (tagged _ member)

/-- A name of one tag only. -/
private theorem tag_mem {name tag : String} (same : nameTag name = tag.toList) :
    nameTag name ∈ [tag].map String.toList :=
  List.mem_singleton.mpr same

theorem nameTag_locationHtml (i : Id) : nameTag (locationHtml (some i)) = "megoopm-loc".toList :=
  (nameTag_append (by decide) _ _).trans (by decide)

theorem nameTag_errorHtml (code : Int) : nameTag (errorHtml code) = "megoopm-err".toList :=
  (nameTag_append (by decide) _ _).trans (by decide)

theorem nameTag_banPageHtml : nameTag banPageHtml = "megoopm-ban".toList := by decide

theorem nameTag_maintenanceHtml : nameTag maintenanceHtml = "megoopm-mai".toList := by decide

theorem nameTag_defaultSiteConf : nameTag defaultSiteConf = "megoopm-def".toList := by decide

section Families

variable (cfg : Deployment)

private theorem tagged_defaultSite (site : Option DefaultSiteSpec) :
    Tagged ["megoopm-def"] (defaultSitePairs cfg site) := by
  have html : nameTag defaultSiteHtml = "megoopm-def".toList := by decide
  have body : nameTag defaultSiteBody = "megoopm-def".toList := by decide
  intro file member
  cases site with
  | none => cases member
  | some site =>
    rcases List.mem_append.mp member with fixed | document
    · rcases List.mem_cons.mp fixed with rfl | fixed
      · exact tag_mem nameTag_defaultSiteConf
      · rw [List.mem_singleton.mp fixed]
        exact tag_mem body
    · split at document
      · rw [List.mem_singleton.mp document]
        exact tag_mem html
      · rw [List.mem_singleton.mp document]
        exact tag_mem html
      · cases document

private theorem tagged_locations (hosts : List ProxyHostSpec) :
    Tagged ["megoopm-loc"] (hosts.flatMap locationPairs) := by
  intro file member
  obtain ⟨h, _, inside⟩ := List.mem_flatMap.mp member
  obtain ⟨l, kept, rfl⟩ := List.mem_map.mp inside
  have listed := of_decide_eq_true (List.mem_filter.mp kept).2
  obtain ⟨i, id⟩ := Option.isSome_iff_exists.mp listed.2
  rw [id]
  exact tag_mem (nameTag_locationHtml i)

private theorem tagged_errors (pages : List ErrorPageSpec) :
    Tagged ["megoopm-err"] (errorPairs cfg pages) := by
  have index : nameTag errorsConf = "megoopm-err".toList := by decide
  intro file member
  rcases List.mem_append.mp member with inside | last
  · obtain ⟨code, _, rfl⟩ := List.mem_map.mp inside
    exact tag_mem (nameTag_errorHtml code)
  · rw [List.mem_singleton.mp last]
    exact tag_mem index

private theorem tagged_ban (ban : Option BanPageSpec) :
    Tagged ["megoopm-ban"] (banPairs cfg ban) := by
  intro file member
  unfold banPairs at member
  split at member
  · cases member
  · split at member
    · cases member
    all_goals
      split at member
      · cases member
      · rw [List.mem_singleton.mp member]
        exact tag_mem nameTag_banPageHtml

private theorem tagged_maintenance (state : DesiredState) :
    Tagged ["megoopm-mai"] (maintenancePairs cfg state) := by
  intro file member
  unfold maintenancePairs at member
  split at member
  · rw [List.mem_singleton.mp member]
    exact tag_mem nameTag_maintenanceHtml
  · cases member

variable (state : DesiredState) {name : String}

/-! No name of the default directory is assigned two contents. -/

private theorem functional_of_nodup {pairs : List (String × FileBody)}
    (distinct : (pairs.map (·.1)).Nodup) : Functional pairs := by
  intro name a b first second
  exact congrArg Prod.snd (List.inj_on_of_nodup_map distinct first second rfl)

private theorem functional_defaultSite (site : Option DefaultSiteSpec) :
    Functional (defaultSitePairs cfg site) := by
  apply functional_of_nodup
  cases site with
  | none => exact List.nodup_nil
  | some site =>
    cases mode : site.mode
    all_goals
      simp only [defaultSitePairs, mode, List.map_append, List.map_cons, List.map_nil]
      decide

private theorem functional_errors (pages : List ErrorPageSpec) :
    Functional (errorPairs cfg pages) := by
  apply functional_of_nodup
  simp only [errorPairs, List.map_append, List.map_map, List.map_cons, List.map_nil]
  exact (by decide +kernel : (errorCodes.map errorHtml ++ [errorsConf]).Nodup)

private theorem functional_ban (ban : Option BanPageSpec) : Functional (banPairs cfg ban) := by
  apply functional_of_nodup
  unfold banPairs
  split
  · exact List.nodup_nil
  · split
    · exact List.nodup_nil
    all_goals
      split
      · exact List.nodup_nil
      · exact List.nodup_singleton _

private theorem functional_maintenance : Functional (maintenancePairs cfg state) := by
  apply functional_of_nodup
  unfold maintenancePairs
  split
  · exact List.nodup_singleton _
  · exact List.nodup_nil

/-- The id of a location is its own. -/
def DesiredState.OwnLocationIds (state : DesiredState) : Prop :=
  ∀ h ∈ state.proxyHosts, ∀ l ∈ h.locations, ∀ g ∈ state.proxyHosts, ∀ m ∈ g.locations,
    ∀ i, l.id = some i → m.id = some i → m = l

private theorem functional_locations (own : state.OwnLocationIds) :
    Functional (state.proxyHosts.flatMap locationPairs) := by
  intro name a b first second
  obtain ⟨h, host, inside⟩ := List.mem_flatMap.mp first
  obtain ⟨g, host', inside'⟩ := List.mem_flatMap.mp second
  obtain ⟨l, kept, same⟩ := List.mem_map.mp inside
  obtain ⟨m, kept', same'⟩ := List.mem_map.mp inside'
  obtain ⟨located, shown⟩ := List.mem_filter.mp kept
  obtain ⟨located', shown'⟩ := List.mem_filter.mp kept'
  obtain ⟨i, id⟩ := Option.isSome_iff_exists.mp (of_decide_eq_true shown).2
  obtain ⟨j, id'⟩ := Option.isSome_iff_exists.mp (of_decide_eq_true shown').2
  obtain ⟨names, rfl⟩ := Prod.mk.inj same
  obtain ⟨names', rfl⟩ := Prod.mk.inj same'
  rw [id] at names
  rw [id', ← names] at names'
  rw [own h host l located g host' m located' i id (id'.trans
    (congrArg some (fileName_injective names')))]

theorem functional_defaultPairs (own : state.OwnLocationIds) :
    Functional (defaultPairs cfg state) := by
  have first := functional_append (functional_defaultSite cfg state.defaultSite)
    (functional_locations state own) (tagged_defaultSite cfg _) (tagged_locations _) (by decide)
  have firstTags := tagged_append (tagged_defaultSite cfg state.defaultSite)
    (tagged_locations state.proxyHosts)
  have second := functional_append first (functional_errors cfg state.errorPages) firstTags
    (tagged_errors cfg _) (by decide)
  have secondTags := tagged_append firstTags (tagged_errors cfg state.errorPages)
  have third := functional_append second (functional_ban cfg state.banPage) secondTags
    (tagged_ban cfg _) (by decide)
  exact functional_append third (functional_maintenance cfg state)
    (tagged_append secondTags (tagged_ban cfg state.banPage)) (tagged_maintenance cfg state)
    (by decide)

/-! A file of the default directory is that of its own family. -/

theorem get_defaultSite (tag : nameTag name = "megoopm-def".toList) :
    (Dict.ofPairs (defaultPairs cfg state))[name]? =
      (Dict.ofPairs (defaultSitePairs cfg state.defaultSite))[name]? := by
  rw [defaultPairs, Dict.get_ofPairs_append.1, Dict.get_ofPairs_append.1,
    Dict.get_ofPairs_append.1, Dict.get_ofPairs_append.1]
  · exact absent_of_tagged (tagged_locations _) (by rw [tag]; decide)
  · exact absent_of_tagged (tagged_errors cfg _) (by rw [tag]; decide)
  · exact absent_of_tagged (tagged_ban cfg _) (by rw [tag]; decide)
  · exact absent_of_tagged (tagged_maintenance cfg _) (by rw [tag]; decide)

theorem get_location (tag : nameTag name = "megoopm-loc".toList) :
    (Dict.ofPairs (defaultPairs cfg state))[name]? =
      (Dict.ofPairs (state.proxyHosts.flatMap locationPairs))[name]? := by
  rw [defaultPairs, Dict.get_ofPairs_append.1, Dict.get_ofPairs_append.1,
    Dict.get_ofPairs_append.1, Dict.get_ofPairs_append.2]
  · exact absent_of_tagged (tagged_defaultSite cfg _) (by rw [tag]; decide)
  · exact absent_of_tagged (tagged_errors cfg _) (by rw [tag]; decide)
  · exact absent_of_tagged (tagged_ban cfg _) (by rw [tag]; decide)
  · exact absent_of_tagged (tagged_maintenance cfg _) (by rw [tag]; decide)

theorem get_error (tag : nameTag name = "megoopm-err".toList) :
    (Dict.ofPairs (defaultPairs cfg state))[name]? =
      (Dict.ofPairs (errorPairs cfg state.errorPages))[name]? := by
  rw [defaultPairs, Dict.get_ofPairs_append.1, Dict.get_ofPairs_append.1, List.append_assoc,
    Dict.get_ofPairs_append.2, Dict.get_ofPairs_append.2]
  · exact absent_of_tagged (tagged_locations _) (by rw [tag]; decide)
  · exact absent_of_tagged (tagged_defaultSite cfg _) (by rw [tag]; decide)
  · exact absent_of_tagged (tagged_ban cfg _) (by rw [tag]; decide)
  · exact absent_of_tagged (tagged_maintenance cfg _) (by rw [tag]; decide)

theorem get_ban (tag : nameTag name = "megoopm-ban".toList) :
    (Dict.ofPairs (defaultPairs cfg state))[name]? =
      (Dict.ofPairs (banPairs cfg state.banPage))[name]? := by
  rw [defaultPairs, Dict.get_ofPairs_append.1, List.append_assoc, List.append_assoc,
    Dict.get_ofPairs_append.2, Dict.get_ofPairs_append.2, Dict.get_ofPairs_append.2]
  · exact absent_of_tagged (tagged_errors cfg _) (by rw [tag]; decide)
  · exact absent_of_tagged (tagged_locations _) (by rw [tag]; decide)
  · exact absent_of_tagged (tagged_defaultSite cfg _) (by rw [tag]; decide)
  · exact absent_of_tagged (tagged_maintenance cfg _) (by rw [tag]; decide)

theorem get_maintenance (tag : nameTag name = "megoopm-mai".toList) :
    (Dict.ofPairs (defaultPairs cfg state))[name]? =
      (Dict.ofPairs (maintenancePairs cfg state))[name]? := by
  rw [defaultPairs, List.append_assoc, List.append_assoc, List.append_assoc,
    Dict.get_ofPairs_append.2, Dict.get_ofPairs_append.2, Dict.get_ofPairs_append.2,
    Dict.get_ofPairs_append.2]
  · exact absent_of_tagged (tagged_ban cfg _) (by rw [tag]; decide)
  · exact absent_of_tagged (tagged_errors cfg _) (by rw [tag]; decide)
  · exact absent_of_tagged (tagged_locations _) (by rw [tag]; decide)
  · exact absent_of_tagged (tagged_defaultSite cfg _) (by rw [tag]; decide)

end Families

/-! ### What each document reads -/

section Readings

variable (cfg : Deployment) (state : DesiredState)

/-- The site is there whenever a default site is configured, and only then. -/
theorem get_defaultSiteConf :
    (renderDefaultSite cfg state)[defaultSiteConf]?.isSome = state.defaultSite.isSome := by
  rw [renderDefaultSite, get_text, get_defaultSite cfg state nameTag_defaultSiteConf,
    Option.isSome_map]
  cases state.defaultSite with
  | none => simp [defaultSitePairs]
  | some site =>
    obtain ⟨body, found⟩ := Dict.get_ofPairs_isSome (defaultSitePairs cfg (some site))
      defaultSiteConf _ (List.mem_append_left _ (List.mem_cons_self ..))
    rw [found]
    rfl

/-- No file where the body is empty. -/
theorem get_banPageHtml : (renderDefaultSite cfg state)[banPageHtml]? =
    match state.banPage with
    | none => none
    | some ban =>
      match ban.mode with
      | .none => none
      | .megoopm => if cfg.bannedHtml = "" then none else some cfg.bannedHtml
      | .customPage => if ban.html = "" then none else some ban.html := by
  rw [renderDefaultSite, get_text, get_ban cfg state nameTag_banPageHtml]
  have single : ∀ text, (Dict.ofPairs [(banPageHtml, FileBody.plain text)])[banPageHtml]? =
      some (FileBody.plain text) := by
    intro text
    exact Dict.get_ofPairs _ _ _ (List.mem_singleton_self _) fun w member =>
      (Prod.mk.inj (List.mem_singleton.mp member)).2
  cases state.banPage with
  | none => simp [banPairs]
  | some ban =>
    cases mode : ban.mode with
    | none => simp [banPairs, mode]
    | megoopm =>
      by_cases empty : cfg.bannedHtml = ""
      · simp [banPairs, mode, empty]
      · simp [banPairs, mode, empty, single, FileBody.text]
    | customPage =>
      by_cases empty : ban.html = ""
      · simp [banPairs, mode, empty]
      · simp [banPairs, mode, empty, single, FileBody.text]

theorem get_maintenanceHtml : (renderDefaultSite cfg state)[maintenanceHtml]? =
    if state.proxyHosts.any (·.maintenanceEnabled) then
      some (maintenanceDocument cfg state.maintenance)
    else none := by
  rw [renderDefaultSite, get_text, get_maintenance cfg state nameTag_maintenanceHtml,
    maintenancePairs]
  split
  · rw [Dict.get_ofPairs _ _ _ (List.mem_singleton_self _) fun w member =>
      (Prod.mk.inj (List.mem_singleton.mp member)).2]
    rfl
  · simp

private theorem errorHtml_ne_errorsConf (code : Int) : errorHtml code ≠ errorsConf := by
  intro same
  have whole : "megoopm-error-" ++ toString code ++ ".html" = errorsConf := same
  have letters := congrArg (fun s : String => s.toList.take 14) whole
  simp only [String.append_assoc, String.toList_append] at letters
  rw [List.take_append_of_le_length (by decide)] at letters
  revert letters
  decide

theorem get_errorHtml {code : Int} (known : code ∈ errorCodes) :
    (renderDefaultSite cfg state)[errorHtml code]? =
      some (errorDocument cfg state.errorPages code) := by
  rw [renderDefaultSite, get_text, get_error cfg state (nameTag_errorHtml code),
    Dict.get_ofPairs _ _ (.plain (errorDocument cfg state.errorPages code))]
  · rfl
  · exact List.mem_append_left _ (List.mem_map_of_mem known)
  · intro w member
    rcases List.mem_append.mp member with inside | last
    · obtain ⟨other, _, same⟩ := List.mem_map.mp inside
      obtain ⟨names, rfl⟩ := Prod.mk.inj same
      rw [fileName_injective names]
    · exact absurd (Prod.mk.inj (List.mem_singleton.mp last)).1 (errorHtml_ne_errorsConf code)

/-- The document of a location; no two locations share an id. -/
theorem get_locationHtml {h : ProxyHostSpec} (host : h ∈ state.proxyHosts) {l : LocationSpec}
    (inside : l ∈ h.locations) (custom : l.target = .customPage) {i : Id} (id : l.id = some i)
    (unique : ∀ g ∈ state.proxyHosts, ∀ m ∈ g.locations, m.id = some i → m = l) :
    (renderDefaultSite cfg state)[locationHtml (some i)]? = some l.html := by
  rw [renderDefaultSite, get_text, get_location cfg state (nameTag_locationHtml i),
    Dict.get_ofPairs _ _ (.plain l.html)]
  · rfl
  · refine List.mem_flatMap.mpr ⟨h, host, List.mem_map.mpr ⟨l, ?_, by rw [id]⟩⟩
    exact List.mem_filter.mpr ⟨inside, by simp [custom, id]⟩
  · intro w member
    obtain ⟨g, owner, listed⟩ := List.mem_flatMap.mp member
    obtain ⟨m, kept, same⟩ := List.mem_map.mp listed
    obtain ⟨located, shown⟩ := List.mem_filter.mp kept
    obtain ⟨j, own⟩ := Option.isSome_iff_exists.mp (of_decide_eq_true shown).2
    obtain ⟨names, rfl⟩ := Prod.mk.inj same
    rw [own] at names
    rw [unique g owner m located (own.trans (congrArg some (fileName_injective names)))]

end Readings

/-- In a loaded state the id of a location leads back to its row. -/
theorem locationSpec_unique (cfg : Deployment) {db : Database}
    (ids : (db.proxyHosts.flatMap fun h => h.locations.map (·.id)).Nodup) {h : ProxyHost}
    (row : h ∈ db.proxyHosts) {l : ProxyHostLocation} (inside : l ∈ h.locations) :
    ∀ g ∈ (desiredState cfg db).proxyHosts, ∀ m ∈ g.locations,
      m.id = some l.id → m = locationSpec db l := by
  have distinct : ((db.proxyHosts.flatMap (·.locations)).map (·.id)).Nodup := by
    rwa [List.map_flatMap]
  intro spec member m located same
  obtain ⟨g, included, rfl⟩ := List.mem_map.mp member
  obtain ⟨k, kept, rfl⟩ := List.mem_map.mp located
  have owner := List.mem_flatMap.mpr
    ⟨g, (mem_includedHosts.mp included).1, (mem_keptLocations.mp kept).1⟩
  rw [List.inj_on_of_nodup_map distinct owner (List.mem_flatMap.mpr ⟨h, row, inside⟩)
    (Option.some_inj.mp same)]

/-! ### Error pages by code -/

/-- The document a status code has without a page. -/
def shippedError (cfg : Deployment) (code : Int) : String :=
  cfg.errorHtml code (errorCopy code).1 (errorCopy code).2

section Errors

variable (cfg : Deployment) {db : Database}

private theorem mem_loadErrorPages {p : ErrorPageSpec} :
    p ∈ loadErrorPages db ↔ ∃ row ∈ db.errorPages, errorPageSpec db row = p := by
  simp [loadErrorPages]

theorem errorDocument_row (codes : (db.errorPages.map (·.code)).Nodup) {row : ErrorPage}
    (member : row ∈ db.errorPages) :
    errorDocument cfg (loadErrorPages db) row.code =
      orText (db.pageHtml row.customPageId) (shippedError cfg row.code) := by
  simp only [errorDocument]
  rw [Dict.get_ofPairs _ _ (db.pageHtml row.customPageId)]
  · rfl
  · exact List.mem_map.mpr ⟨_, mem_loadErrorPages.mpr ⟨row, member, rfl⟩, rfl⟩
  · intro w listed
    obtain ⟨p, loaded, same⟩ := List.mem_map.mp listed
    obtain ⟨other, stored, rfl⟩ := mem_loadErrorPages.mp loaded
    obtain ⟨code, rfl⟩ := Prod.mk.inj same
    rw [← List.inj_on_of_nodup_map codes stored member code]
    rfl

theorem errorDocument_none {code : Int} (absent : ∀ row ∈ db.errorPages, row.code ≠ code) :
    errorDocument cfg (loadErrorPages db) code = orText "" (shippedError cfg code) := by
  simp only [errorDocument]
  rw [Dict.get_ofPairs_none]
  · rfl
  · intro w listed
    obtain ⟨p, loaded, same⟩ := List.mem_map.mp listed
    obtain ⟨row, stored, rfl⟩ := mem_loadErrorPages.mp loaded
    exact absent row stored (Prod.mk.inj same).1

end Errors

/-! ### Another page table -/

/-- The content with other pages. -/
def Database.withPages (db : Database) (pages : List CustomPage) : Database :=
  { db with customPages := pages }

/-- Somewhere but on the default site, a document of page `i` reads differently once its html
goes from `old` to `new`. An empty page falls back to the shipped document for a status code
and during maintenance, and to none for a ban. -/
def Database.ShowsPage (cfg : Deployment) (db : Database) (i : Id) (old new : String) : Prop :=
  (old ≠ new ∧ ∃ h ∈ includedHosts db, ∃ l ∈ h.locations,
    l.target = .customPage ∧ l.customPageId = some i) ∨
  (old ≠ new ∧ ∃ row ∈ db.instanceSettings,
    row.crowdsecBanMode = .customPage ∧ row.crowdsecBanPageId = some i ∧ i ≠ 0) ∨
  (orText old cfg.maintenanceHtml ≠ orText new cfg.maintenanceHtml ∧
    (∃ h ∈ includedHosts db, h.maintenanceEnabled = true) ∧ ∃ row ∈ db.instanceSettings,
      row.maintenanceMode = .customPage ∧ row.maintenancePageId = some i ∧ i ≠ 0) ∨
  ∃ row ∈ db.errorPages, row.code ∈ errorCodes ∧ row.customPageId = some i ∧
    orText old (shippedError cfg row.code) ≠ orText new (shippedError cfg row.code)

section OtherPages

variable {cfg : Deployment} {db : Database} {pages : List CustomPage}

/-- A setting that does not refer to a page whose document changes. -/
private theorem settingHtml_withPages {custom : Bool} {ref : Option Id}
    (same : custom = true → ref ≠ some 0 → (db.withPages pages).pageHtml ref = db.pageHtml ref) :
    settingHtml (db.withPages pages) custom ref = settingHtml db custom ref := by
  rw [settingHtml_eq, settingHtml_eq]
  split
  next shown => exact same shown.1 shown.2
  next => rfl

private theorem loadedHost_withPages {h : ProxyHost}
    (same : ∀ l ∈ h.locations, l.target = .customPage →
      (db.withPages pages).pageHtml l.customPageId = db.pageHtml l.customPageId) :
    loadedHost cfg (db.withPages pages) h = loadedHost cfg db h := by
  have locations : (keptLocations db h).map (locationSpec (db.withPages pages)) =
      (keptLocations db h).map (locationSpec db) := by
    refine List.map_congr_left fun l kept => ?_
    have html : (locationSpec (db.withPages pages) l).html = (locationSpec db l).html := by
      rw [locationSpec_html, locationSpec_html]
      split
      next custom => exact same l (mem_keptLocations.mp kept).1 custom
      next => rfl
    exact congrArg (fun x => { locationSpec db l with html := x }) html
  have kept : keptLocations (db.withPages pages) h = keptLocations db h := rfl
  rw [loadedHost, kept, locations]
  rfl

/-- A content whose references all lead to the documents they led to is read as the same
state. -/
theorem desiredState_withPages
    (same : ∀ ref : Option Id, (∃ h ∈ db.proxyHosts, ∃ l ∈ h.locations, l.customPageId = ref) ∨
      (∃ row ∈ db.instanceSettings, row.defaultSitePageId = ref ∨ row.crowdsecBanPageId = ref ∨
        row.maintenancePageId = ref) ∨ (∃ row ∈ db.errorPages, row.customPageId = ref) →
      (db.withPages pages).pageHtml ref = db.pageHtml ref) :
    desiredState cfg (db.withPages pages) = desiredState cfg db := by
  have hosts : (includedHosts db).map (loadedHost cfg (db.withPages pages)) =
      (includedHosts db).map (loadedHost cfg db) := by
    refine List.map_congr_left fun h included => loadedHost_withPages fun l inside _ => ?_
    exact same _ (Or.inl ⟨h, (mem_includedHosts.mp included).1, l, inside, rfl⟩)
  have settings : ∀ row ∈ db.instanceSettings, ∀ custom ref, row.defaultSitePageId = ref ∨
      row.crowdsecBanPageId = ref ∨ row.maintenancePageId = ref →
      settingHtml (db.withPages pages) custom ref = settingHtml db custom ref :=
    fun row found _ ref own => settingHtml_withPages fun _ _ =>
      same ref (Or.inr (Or.inl ⟨row, found, own⟩))
  have site : loadDefaultSite (db.withPages pages) = loadDefaultSite db := by
    refine Option.map_congr fun row found => ?_
    rw [settings row found _ _ (Or.inl rfl)]
  have ban : loadBanPage (db.withPages pages) = loadBanPage db := by
    refine Option.map_congr fun row found => ?_
    rw [settings row found _ _ (Or.inr (Or.inl rfl))]
  have maintenance : loadMaintenance (db.withPages pages) = loadMaintenance db := by
    refine Option.map_congr fun row found => ?_
    rw [settings row found _ _ (Or.inr (Or.inr rfl))]
  have errors : loadErrorPages (db.withPages pages) = loadErrorPages db := by
    unfold loadErrorPages
    congr 1
    refine List.map_congr_left fun row stored => ?_
    have html : (errorPageSpec (db.withPages pages) row).html = (errorPageSpec db row).html :=
      same _ (Or.inr (Or.inr ⟨row, stored, rfl⟩))
    exact congrArg (fun x => { errorPageSpec db row with html := x }) html
  have all : desiredHosts cfg (db.withPages pages) = desiredHosts cfg db := by
    have included : includedHosts (db.withPages pages) = includedHosts db := rfl
    simp only [desiredHosts, included, hosts, site, ban, maintenance, errors]
    rfl
  unfold desiredState
  rw [all]
  rfl

variable {i : Id} {old new : String}

/-- A location of a rendered host shows the page. -/
private theorem differs_location (constraints : db.Constraints) (was : db.pageHtml (some i) = old)
    (now : (db.withPages pages).pageHtml (some i) = new) (differ : old ≠ new)
    (shown : ∃ h ∈ includedHosts db, ∃ l ∈ h.locations,
      l.target = .customPage ∧ l.customPageId = some i) :
    renderDefaultSite cfg (desiredState cfg db) ≠
      renderDefaultSite cfg (desiredState cfg (db.withPages pages)) := by
  obtain ⟨h, included, l, inside, custom, ref⟩ := shown
  have kept : l ∈ keptLocations db h := by
    refine mem_keptLocations.mpr ⟨inside, ?_⟩
    simp [keepsLocation, custom]
  have row := (mem_includedHosts.mp included).1
  intro same
  have texts := congrArg (fun d : Files => d[locationHtml (some l.id)]?) same
  have before := get_locationHtml cfg (desiredState cfg db) (List.mem_map_of_mem included)
    (List.mem_map_of_mem kept) custom rfl
    (locationSpec_unique cfg constraints.locationIds row inside)
  have after := get_locationHtml cfg (desiredState cfg (db.withPages pages))
    (List.mem_map_of_mem included) (List.mem_map_of_mem kept) custom rfl
    (@locationSpec_unique cfg (db.withPages pages) constraints.locationIds h row l inside)
  simp only [before, after, locationSpec_html, custom, if_true, ref, was, now] at texts
  exact differ (Option.some_inj.mp texts)

/-- The ban page is the page. -/
private theorem differs_ban (was : db.pageHtml (some i) = old)
    (now : (db.withPages pages).pageHtml (some i) = new) (differ : old ≠ new)
    (shown : ∃ row ∈ db.instanceSettings,
      row.crowdsecBanMode = .customPage ∧ row.crowdsecBanPageId = some i ∧ i ≠ 0) :
    renderDefaultSite cfg (desiredState cfg db) ≠
      renderDefaultSite cfg (desiredState cfg (db.withPages pages)) := by
  obtain ⟨row, found, mode, ref, nonzero⟩ := shown
  have settings : db.instanceSettings = some row := found
  intro same
  have texts := congrArg (fun d : Files => d[banPageHtml]?) same
  have reads : ∀ db' : Database, db'.instanceSettings = some row →
      (desiredState cfg db').banPage =
        some { mode := .customPage, html := db'.pageHtml (some i) } := by
    intro db' own
    simp [desiredState, desiredHosts, loadBanPage, own, settingHtml_eq, mode, ref, nonzero]
  simp only [get_banPageHtml, reads db settings, reads (db.withPages pages) settings, was,
    now] at texts
  -- an empty page has no file, so the two differ in any case
  split at texts <;> split at texts <;> simp_all

/-- A host in maintenance answers with the page. -/
private theorem differs_maintenance (was : db.pageHtml (some i) = old)
    (now : (db.withPages pages).pageHtml (some i) = new)
    (differ : orText old cfg.maintenanceHtml ≠ orText new cfg.maintenanceHtml)
    (closed : ∃ h ∈ includedHosts db, h.maintenanceEnabled = true)
    (shown : ∃ row ∈ db.instanceSettings,
      row.maintenanceMode = .customPage ∧ row.maintenancePageId = some i ∧ i ≠ 0) :
    renderDefaultSite cfg (desiredState cfg db) ≠
      renderDefaultSite cfg (desiredState cfg (db.withPages pages)) := by
  obtain ⟨row, found, mode, ref, nonzero⟩ := shown
  obtain ⟨h, included, enabled⟩ := closed
  have settings : db.instanceSettings = some row := found
  have reads : ∀ db' : Database, db'.instanceSettings = some row →
      maintenanceDocument cfg (desiredState cfg db').maintenance =
        orText (db'.pageHtml (some i)) cfg.maintenanceHtml := by
    intro db' own
    simp [desiredState, desiredHosts, loadMaintenance, own, settingHtml_eq, mode, ref, nonzero,
      maintenanceDocument]
  have any : ∀ db' : Database, h ∈ includedHosts db' →
      (desiredState cfg db').proxyHosts.any (·.maintenanceEnabled) = true := by
    intro db' member
    exact List.any_eq_true.mpr ⟨_, List.mem_map_of_mem member, enabled⟩
  intro same
  have texts := congrArg (fun d : Files => d[maintenanceHtml]?) same
  simp only [get_maintenanceHtml, any db included, any (db.withPages pages) included, if_true,
    reads db settings, reads (db.withPages pages) settings, was, now] at texts
  exact differ (Option.some_inj.mp texts)

/-- A status code is answered with the page. -/
private theorem differs_error (codes : (db.errorPages.map (·.code)).Nodup)
    (was : db.pageHtml (some i) = old) (now : (db.withPages pages).pageHtml (some i) = new)
    {row : ErrorPage} (stored : row ∈ db.errorPages) (known : row.code ∈ errorCodes)
    (ref : row.customPageId = some i)
    (differ : orText old (shippedError cfg row.code) ≠ orText new (shippedError cfg row.code)) :
    renderDefaultSite cfg (desiredState cfg db) ≠
      renderDefaultSite cfg (desiredState cfg (db.withPages pages)) := by
  intro same
  have texts := congrArg (fun d : Files => d[errorHtml row.code]?) same
  have before : (desiredState cfg db).errorPages = loadErrorPages db := rfl
  have after : (desiredState cfg (db.withPages pages)).errorPages =
      loadErrorPages (db.withPages pages) := rfl
  simp only [get_errorHtml cfg _ known, before, after, errorDocument_row cfg codes stored,
    @errorDocument_row cfg (db.withPages pages) codes row stored, ref, was, now] at texts
  exact differ (Option.some_inj.mp texts)

section Silent

variable (others : ∀ ref, ref ≠ some i → (db.withPages pages).pageHtml ref = db.pageHtml ref)
  (was : db.pageHtml (some i) = old) (now : (db.withPages pages).pageHtml (some i) = new)
  (silent : ¬db.ShowsPage cfg i old new)

include others was now silent

private theorem same_maintenance :
    maintenancePairs cfg (desiredState cfg (db.withPages pages)) =
      maintenancePairs cfg (desiredState cfg db) := by
  have any : (desiredState cfg (db.withPages pages)).proxyHosts.any (·.maintenanceEnabled) =
      (desiredState cfg db).proxyHosts.any (·.maintenanceEnabled) := by
    simp only [desiredState, desiredHosts, List.any_map]
    rfl
  unfold maintenancePairs
  rw [any]
  -- the document is only rendered while some host is closed
  split
  next closed =>
    obtain ⟨spec, member, enabled⟩ := List.any_eq_true.mp closed
    obtain ⟨h, included, rfl⟩ := List.mem_map.mp member
    have document : maintenanceDocument cfg (loadMaintenance (db.withPages pages)) =
        maintenanceDocument cfg (loadMaintenance db) := by
      have settings : (db.withPages pages).instanceSettings = db.instanceSettings := rfl
      unfold loadMaintenance
      rw [settings]
      cases found : db.instanceSettings with
      | none => rfl
      | some row =>
        cases mode : row.maintenanceMode with
        | megoopm => simp [maintenanceDocument, mode]
        | customPage =>
          by_cases shown : row.maintenancePageId = some i ∧ i ≠ 0
          · -- the page is shown, so both texts fall back to the same document
            have texts : orText old cfg.maintenanceHtml = orText new cfg.maintenanceHtml := by
              by_contra differ
              exact silent (Or.inr (Or.inr (Or.inl
                ⟨differ, ⟨h, included, enabled⟩, row, found, mode, shown⟩)))
            simp [maintenanceDocument, mode, settingHtml_eq, shown.1, shown.2, was, now, texts]
          · have html : ∀ custom, settingHtml (db.withPages pages) custom row.maintenancePageId =
                settingHtml db custom row.maintenancePageId := by
              intro custom
              refine settingHtml_withPages fun _ nonzero => others _ fun ref => shown ⟨ref, ?_⟩
              rintro rfl
              exact nonzero ref
            simp only [Option.map_some, html]
    exact congrArg (fun text => [(maintenanceHtml, FileBody.plain text)]) document
  next => rfl

private theorem same_errors (codes : (db.errorPages.map (·.code)).Nodup) :
    errorPairs cfg (loadErrorPages (db.withPages pages)) = errorPairs cfg (loadErrorPages db) := by
  have document : ∀ code ∈ errorCodes, errorDocument cfg (loadErrorPages (db.withPages pages)) code =
      errorDocument cfg (loadErrorPages db) code := by
    intro code known
    by_cases stored : ∃ row ∈ db.errorPages, row.code = code
    · obtain ⟨row, member, rfl⟩ := stored
      rw [errorDocument_row cfg codes member,
        @errorDocument_row cfg (db.withPages pages) codes row member]
      by_cases ref : row.customPageId = some i
      · rw [ref, was, now]
        by_contra differ
        exact silent (Or.inr (Or.inr (Or.inr ⟨row, member, known, ref, fun same => differ same.symm⟩)))
      · rw [others _ ref]
    · have absent : ∀ row ∈ db.errorPages, row.code ≠ code :=
        fun row member same => stored ⟨row, member, same⟩
      rw [errorDocument_none cfg absent, @errorDocument_none cfg (db.withPages pages) code absent]
  unfold errorPairs
  rw [List.map_congr_left fun code known => by rw [document code known]]

/-- A page that is shown nowhere changes no file. -/
theorem renderDefaultSite_silent (codes : (db.errorPages.map (·.code)).Nodup)
    (notDefault : ∀ row ∈ db.instanceSettings, row.defaultSitePageId ≠ some i) :
    renderDefaultSite cfg (desiredState cfg (db.withPages pages)) =
      renderDefaultSite cfg (desiredState cfg db) := by
  by_cases unchanged : old = new
  · have same : ∀ ref, (db.withPages pages).pageHtml ref = db.pageHtml ref := by
      intro ref
      by_cases here : ref = some i
      · rw [here, was, now, unchanged]
      · exact others ref here
    rw [desiredState_withPages fun ref _ => same ref]
  · have hosts : (desiredState cfg (db.withPages pages)).proxyHosts =
        (desiredState cfg db).proxyHosts := by
      refine List.map_congr_left fun h included => loadedHost_withPages fun l inside custom => ?_
      exact others _ fun ref => silent (Or.inl ⟨unchanged, h, included, l, inside, custom, ref⟩)
    have site : loadDefaultSite (db.withPages pages) = loadDefaultSite db := by
      refine Option.map_congr fun row found => ?_
      rw [settingHtml_withPages fun _ _ => others _ (notDefault row found)]
    have ban : loadBanPage (db.withPages pages) = loadBanPage db := by
      refine Option.map_congr fun row found => ?_
      rw [settingHtml_withPages fun custom nonzero => others _ fun ref =>
        silent (Or.inr (Or.inl ⟨unchanged, row, found, by simpa using custom, ref, ?_⟩))]
      rintro rfl
      exact nonzero ref
    have errors := same_errors others was now silent codes
    have maintenance := same_maintenance others was now silent
    have pairs : defaultPairs cfg (desiredState cfg (db.withPages pages)) =
        defaultPairs cfg (desiredState cfg db) := by
      unfold defaultPairs
      rw [hosts, maintenance]
      simp only [desiredState, desiredHosts, site, ban, errors]
    rw [renderDefaultSite, pairs]
    rfl

end Silent

/-- Other pages change the rendered files exactly when a page that is shown reads
differently. -/
theorem rendering_withPages_iff (constraints : db.Constraints)
    (fine : (db.withPages pages).Constraints)
    (others : ∀ ref, ref ≠ some i → (db.withPages pages).pageHtml ref = db.pageHtml ref)
    (was : db.pageHtml (some i) = old) (now : (db.withPages pages).pageHtml (some i) = new)
    (notDefault : ∀ row ∈ db.instanceSettings, row.defaultSitePageId ≠ some i) :
    rendering cfg db ≠ rendering cfg (db.withPages pages) ↔ db.ShowsPage cfg i old new := by
  have confd : renderConfig cfg (desiredState cfg (db.withPages pages)) =
      renderConfig cfg (desiredState cfg db) := renderConfig_pages cfg db pages
  have stream : renderStreamConfig (desiredState cfg (db.withPages pages)) =
      renderStreamConfig (desiredState cfg db) := renderStreamConfig_pages cfg db pages
  rw [rendering_ok cfg constraints, rendering_ok cfg fine]
  constructor
  · intro differ
    by_contra silent
    refine differ (congrArg Except.ok ?_)
    rw [renderState, renderState, confd, stream,
      renderDefaultSite_silent others was now silent constraints.errorPageCodes notDefault]
  · intro shown same
    have default := congrArg Rendering.default (Except.ok.inj same)
    rcases shown with ⟨differ, shown⟩ | ⟨differ, shown⟩ | ⟨differ, closed, shown⟩ |
      ⟨row, stored, known, ref, differ⟩
    · exact differs_location constraints was now differ shown default
    · exact differs_ban was now differ shown default
    · exact differs_maintenance was now differ closed shown default
    · exact differs_error constraints.errorPageCodes was now stored known ref differ default

end OtherPages

/-- Where the settings row is missing no default site is rendered, so creating it adds files. -/
theorem rendering_newSettings {cfg : Deployment} {db : Database} (constraints : db.Constraints)
    {row : InstanceSettings} (fine : { db with instanceSettings := some row }.Constraints)
    (missing : db.instanceSettings = none) :
    rendering cfg db ≠ rendering cfg { db with instanceSettings := some row } := by
  rw [rendering_ok cfg constraints, rendering_ok cfg fine]
  intro same
  have default := congrArg Rendering.default (Except.ok.inj same)
  have files := congrArg (fun d : Files => d[defaultSiteConf]?.isSome) default
  simp only [renderState, get_defaultSiteConf] at files
  simp [desiredState, desiredHosts, loadDefaultSite, missing] at files

end MegooPM
