import MegooPM.Nginx.Headers
import MegooPM.Nginx.RouteNames
import MegooPM.Lib.Phases

/-!
# What refused visitors see

A visitor is stopped by the maintenance guard of a location, or refused by the access list
that every location but the challenge's inherits. Both are answered with an error page, and
its document stands at a location of its own, which inherits the access list too. The
bouncer's Lua code is left out.
-/
namespace MegooPM

open Lib Lib.Node

/-! ### The level of a server block -/

section Level

variable (cfg : Deployment) (site : Option DefaultSiteSpec) (h : ProxyHostSpec)
  (m : Option MaintenanceSpec)

/-- What the phases read in every server block that does not redirect. -/
def guardedItems (src : Sources) : List Lib.Node :=
  expand src (maintenancePage cfg h m ++ brandedErrors cfg ++ accessControl cfg h ++
    security h.blockExploits)

@[simp] theorem phaseItems_notes (lead : String) (lines : List String) :
    phaseItems (notes lead lines) = [] := by
  induction lines with
  | nil => rfl
  | cons line rest ih => exact ih

private theorem phaseItems_liveLog (raw : String → List Lib.Node) (key : String) (bounces : Bool) :
    phaseItems (expand (serverSources cfg site raw) (liveLog key bounces)) = [] := by
  have targets : includedFile cfg site "/etc/nginx/logging-error-targets.conf" = [] :=
    includedFile_targets cfg site
  cases bounces <;>
    simp [liveLog, when, serverSources, targets, phaseWords]

private theorem phaseItems_serverNames (src : Sources) (names : List String) :
    phaseItems (expand src [serverNames names]) = [] := by
  simp [serverNames, phaseWords]

private theorem phaseItems_proxyCrowdsec {raw : String → List Lib.Node} (skips : SkipsCode raw)
    (rewrite : Bool) :
    phaseItems (expand (serverSources cfg site raw) (proxyCrowdsec h rewrite)) = [] := by
  cases rewrite <;>
    simp [proxyCrowdsec, expand_when, expand_crowdsecServerRewrite cfg site skips] <;> split <;>
    simp [phaseWords]

private theorem phaseItems_proxyAcmeChallenge (src : Sources) :
    phaseItems (expand src (proxyAcmeChallenge cfg h)) = [] := by
  simp [proxyAcmeChallenge]

private theorem phaseItems_certificate (src : Sources) (c : CertificateSpec) :
    phaseItems (expand src (certMaterial c)) = [] ∧
      phaseItems (expand src (certificateDirectives "\n    " c)) = [] := by
  constructor
  · simp [certMaterial]
  · simp [certificateDirectives, phaseWords]

private theorem phaseItems_hsts (src : Sources) (enabled subdomains : Bool) :
    phaseItems (expand src (hsts enabled subdomains)) = [] := by
  cases enabled <;> simp [hsts, when, phaseWords]

private theorem phaseItems_proxyLocation (src : Sources) :
    phaseItems (expand src (proxyLocation cfg h)) = [] := by
  have routed : ∀ l : LocationSpec, phaseItems (expand src (extraRoute cfg h l)) = [] := by
    intro l
    cases proxies : l.target.proxies <;>
      simp [extraRoute, proxies, answeredBlock, proxyBlock]
  have extra : phaseItems (expand src (h.locations.flatMap (extraRoute cfg h))) = [] := by
    induction h.locations with
    | nil => rfl
    | cons l rest ih =>
      rw [List.flatMap_cons, expand_append, phaseItems_append, routed, ih, List.nil_append]
  rw [proxyLocation, expand_append, expand_append, phaseItems_append, phaseItems_append, extra,
    expand_when]
  cases h.cachingEnabled <;> simp [proxyBlock, cachedAssets]

section Servers

variable {cfg site h m} {raw : String → List Lib.Node} (skips : SkipsCode raw)

include skips

theorem phaseItems_plainServer (direct : h.sslForced = false) :
    phaseItems (expand (serverSources cfg site raw) (proxyPlainServer cfg h m)) =
      phaseItems (guardedItems cfg h m (serverSources cfg site raw)) := by
  have listen : phaseItems (expand (serverSources cfg site raw)
      [.directive "\n    " ["listen", "80"], serverNames h.domainNames]) = [] := by
    simp [serverNames, phaseWords]
  rw [proxyPlainServer, direct, if_neg Bool.false_ne_true, guardedItems]
  simp only [expand_append, phaseItems_append, listen, phaseItems_liveLog,
    phaseItems_proxyCrowdsec cfg site h skips, phaseItems_proxyAcmeChallenge,
    phaseItems_proxyLocation, List.append_nil, List.nil_append, List.append_assoc]

/-- A block that redirects has its pages, and no access list. -/
theorem phaseItems_redirecting (forced : h.sslForced = true) :
    phaseItems (expand (serverSources cfg site raw) (proxyPlainServer cfg h m)) =
      phaseItems (expand (serverSources cfg site raw) (maintenancePage cfg h m) ++
        errorsTemplate cfg errorCodes) := by
  have listen : phaseItems (expand (serverSources cfg site raw)
      [.directive "\n    " ["listen", "80"], serverNames h.domainNames]) = [] := by
    simp [serverNames, phaseWords]
  have redirect : phaseItems (expand (serverSources cfg site raw) [httpsRedirect]) = [] := by
    simp [httpsRedirect]
  rw [proxyPlainServer, forced, if_pos rfl]
  simp only [expand_append, expand_brandedErrors, phaseItems_append, listen, phaseItems_liveLog,
    phaseItems_proxyCrowdsec cfg site h skips, phaseItems_proxyAcmeChallenge, redirect,
    phaseItems_notes, List.append_nil, List.nil_append]

theorem phaseItems_tlsServer (plain : h.advancedConfig = "") (c : CertificateSpec) :
    phaseItems (expand (serverSources cfg site raw) (proxyTlsHead cfg h m ++ certMaterial c ++
        certificateDirectives "\n    " c ++ proxyTlsTail cfg h)) =
      phaseItems (guardedItems cfg h m (serverSources cfg site raw)) := by
  have listen : phaseItems (expand (serverSources cfg site raw)
      [.directive "\n    " ["listen", "443", "ssl"]]) = [] := by
    simp [phaseWords]
  have http2 : phaseItems (expand (serverSources cfg site raw)
      (when h.http2Support [.directive "\n    " ["http2", "on"]])) = [] := by
    cases h.http2Support <;> simp [when, phaseWords]
  have operator : phaseItems (expand (serverSources cfg site raw) (advanced "")) = [] := rfl
  rw [proxyTlsHead, proxyTlsTail, plain, guardedItems]
  simp only [expand_append, phaseItems_append, listen, http2, phaseItems_serverNames,
    phaseItems_liveLog, phaseItems_certificate, phaseItems_hsts,
    phaseItems_proxyCrowdsec cfg site h skips, phaseItems_proxyLocation, operator,
    List.append_nil, List.nil_append, List.append_assoc]

theorem phaseItems_onlyServer (plain : h.advancedConfig = "") :
    phaseItems (expand (serverSources cfg site raw) (proxyOnlyServer cfg h m)) =
      phaseItems (guardedItems cfg h m (serverSources cfg site raw)) := by
  have listen : phaseItems (expand (serverSources cfg site raw)
      [.directive "\n    " ["listen", "80"], serverNames h.domainNames]) = [] := by
    simp [serverNames, phaseWords]
  have operator : phaseItems (expand (serverSources cfg site raw) (advanced "")) = [] := rfl
  rw [proxyOnlyServer, plain, guardedItems]
  simp only [expand_append, phaseItems_append, listen, phaseItems_liveLog,
    phaseItems_proxyCrowdsec cfg site h skips, phaseItems_proxyAcmeChallenge,
    phaseItems_proxyLocation, operator, List.append_nil, List.nil_append, List.append_assoc]

end Servers

/-- The lines that name a page, in order. -/
def pageArguments (h : ProxyHostSpec) : List (List String) :=
  (if h.maintenanceEnabled then [["503", "/" ++ maintenanceHtml]] else []) ++
  errorCodes.map fun code => [toString code, "/" ++ errorHtml code]

/-- What the access list of a host decides by. -/
def hostAccess (cfg : Deployment) (h : ProxyHostSpec) : Access :=
  match h.accessList with
  | none => ⟨[], [], [], []⟩
  | some a => {
    rules := a.clientRules.map fun r => [r.directive.value, r.address]
    realm := if a.authUsers.isEmpty then [] else [["\"" ++ a.name ++ "\""]]
    users := if a.authUsers.isEmpty then [] else [[htpasswdPath cfg a.id]]
    satisfy :=
      if a.authUsers.isEmpty ∨ a.clientRules.isEmpty then []
      else [[if a.satisfyAny then "any" else "all"]] }

/-- The patterns of an exploit probe. -/
def scriptPattern := "(<|%3C).*script.*(>|%3E)"
def parentPattern := "(\\.\\./|\\.\\.%2f)"
def unionPattern := "union.*select.*\\("

def scriptCondition : List String :=
  ["($request_uri", "~*", "\"(<|%3C).*script.*(>|%3E)\")"]
def parentCondition : List String :=
  ["($request_uri", "~*", "\"(\\.\\./|\\.\\.%2f)\")"]
def unionCondition : List String :=
  ["($query_string", "~*", "\"union.*select.*\\(\")"]

/-- A request the server block refuses by itself. -/
def Probes (e : Engine) (h : ProxyHostSpec) (r : HttpRequest) : Prop :=
  h.blockExploits = true ∧ (e.finds true scriptPattern r.line = true ∨
    e.finds true parentPattern r.line = true ∨ e.finds true unionPattern r.query = true)

instance (e : Engine) (h : ProxyHostSpec) (r : HttpRequest) : Decidable (Probes e h r) :=
  inferInstanceAs (Decidable (_ ∧ _))

/-- The conditions, as the engine reads them. -/
theorem conditions_read (s : Server) (e : Engine) (v : Visitor) (r : HttpRequest) :
    s.condition e v r scriptCondition = e.finds true scriptPattern r.line ∧
      s.condition e v r parentCondition = e.finds true parentPattern r.line ∧
      s.condition e v r unionCondition = e.finds true unionPattern r.query := by
  have line : s.value v r "$request_uri" = r.line := if_pos rfl
  have query : s.value v r "$query_string" = r.query := by
    rw [Server.value, if_neg (by decide), if_pos rfl]
  rw [← line, ← query]
  exact ⟨rfl, rfl, rfl⟩

section Access

variable (src : Sources)

/-- The access list includes nothing. -/
private theorem expand_accessControl :
    expand src (accessControl cfg h) = accessControl cfg h := by
  unfold accessControl
  cases h.accessList with
  | none => rfl
  | some a =>
    have rules : expand src (a.clientRules.map fun r =>
        Lib.Node.directive "\n    " [r.directive.value, r.address]) =
        a.clientRules.map fun r => .directive "\n    " [r.directive.value, r.address] := by
      induction a.clientRules with
      | nil => rfl
      | cons r rest ih =>
        have other : r.directive.value ≠ "include" := by cases r.directive <;> decide
        simp only [List.map_cons, expand_cons, expandNode_directive, other, if_false, ih,
          List.singleton_append]
    simp only [expand_append, rules, expand_when]
    cases a.authUsers.isEmpty <;> cases a.clientRules.isEmpty <;> simp [when]

private theorem rules_read (rules : List ClientRuleSpec) (holds : List String → Bool)
    {name : String} (other : name ≠ "allow" ∧ name ≠ "deny") :
    accessRules (rules.map fun r => .directive "\n    " [r.directive.value, r.address]) =
        rules.map (fun r => [r.directive.value, r.address]) ∧
      own name (rules.map fun r => .directive "\n    " [r.directive.value, r.address]) = [] ∧
      rewritten holds (rules.map fun r =>
        .directive "\n    " [r.directive.value, r.address]) = none := by
  induction rules with
  | nil => exact ⟨rfl, rfl, rfl⟩
  | cons r rest ih =>
    have kind : (r.directive.value = "allow" ∨ r.directive.value = "deny") ∧
        r.directive.value ≠ name ∧ r.directive.value ≠ "return" := by
      cases r.directive
      · exact ⟨Or.inl rfl, other.1.symm, by decide⟩
      · exact ⟨Or.inr rfl, other.2.symm, by decide⟩
    simp only [List.map_cons, accessRules, if_pos kind.1, ih.1, own_directive, if_neg kind.2.1,
      ih.2.1, rewritten, if_neg kind.2.2, ih.2.2, and_self]

private theorem accessControl_read (holds : List String → Bool) :
    ownAccess (accessControl cfg h) = hostAccess cfg h ∧
      own "error_page" (accessControl cfg h) = [] ∧
      rewritten holds (accessControl cfg h) = none := by
  unfold accessControl hostAccess
  cases h.accessList with
  | none => exact ⟨rfl, rfl, rfl⟩
  | some a =>
    have rules := fun name other => @rules_read a.clientRules holds name other
    have realm := (rules "auth_basic" (by decide)).2.1
    have users := (rules "auth_basic_user_file" (by decide)).2.1
    have satisfy := (rules "satisfy" (by decide)).2.1
    obtain ⟨listed, pages, none_⟩ := rules "error_page" (by decide)
    dsimp only
    generalize a.authUsers.isEmpty = free
    generalize a.clientRules.isEmpty = unruled
    cases free <;> cases unruled <;>
      simp [ownAccess, accessRules_append, rewritten_append, accessRules, rewritten, when, listed,
        realm, users, satisfy, pages, none_]

/-- The error pages name their documents and nothing else. -/
private theorem errors_read (codes : List Int) (holds : List String → Bool) :
    ownAccess (errorsTemplate cfg codes) = ⟨[], [], [], []⟩ ∧
      own "error_page" (errorsTemplate cfg codes) =
        codes.map (fun code => [toString code, "/" ++ errorHtml code]) ∧
      rewritten holds (errorsTemplate cfg codes) = none := by
  rw [errorsTemplate]
  induction codes with
  | nil => exact ⟨rfl, rfl, rfl⟩
  | cons code rest ih =>
    rw [List.flatMap_cons]
    generalize rest.flatMap _ = others at ih ⊢
    simp only [ownAccess, accessRules, own_comment, rewritten, Access.mk.injEq] at ih
    obtain ⟨⟨rules, realm, users, satisfy⟩, pages, none_⟩ := ih
    simp [ownAccess, accessRules, rewritten, rules, realm, users, satisfy, pages, none_]

private theorem maintenancePage_read (holds : List String → Bool) :
    ownAccess (expand src (maintenancePage cfg h m)) = ⟨[], [], [], []⟩ ∧
      own "error_page" (expand src (maintenancePage cfg h m)) =
        (if h.maintenanceEnabled then [["503", "/" ++ maintenanceHtml]] else []) ∧
      rewritten holds (expand src (maintenancePage cfg h m)) = none := by
  cases enabled : h.maintenanceEnabled <;>
    simp [maintenancePage, enabled, when, ownAccess, accessRules, rewritten, notes]

private theorem security_read (holds : List String → Bool) :
    ownAccess (expand src (security h.blockExploits)) = ⟨[], [], [], []⟩ ∧
      own "error_page" (expand src (security h.blockExploits)) = [] ∧
      rewritten holds (expand src (security h.blockExploits)) =
        if h.blockExploits = true ∧ (holds scriptCondition = true ∨
          holds parentCondition = true ∨ holds unionCondition = true)
        then some "403" else none := by
  cases on : h.blockExploits with
  | false => simp [security, when, ownAccess, accessRules, rewritten]
  | true =>
    simp only [scriptCondition, parentCondition, unionCondition]
    cases first : holds ["($request_uri", "~*", "\"(<|%3C).*script.*(>|%3E)\")"] <;>
      cases second : holds ["($request_uri", "~*", "\"(\\.\\./|\\.\\.%2f)\")"] <;>
      cases third : holds ["($query_string", "~*", "\"union.*select.*\\(\")"] <;>
      simp [security, when, ownAccess, accessRules, rewritten, first, second, third]

/-- What the level of a server block that does not redirect says. -/
theorem guardedItems_read (raw : String → List Lib.Node) :
    ownAccess (guardedItems cfg h m (serverSources cfg site raw)) = hostAccess cfg h ∧
      own "error_page" (guardedItems cfg h m (serverSources cfg site raw)) = pageArguments h ∧
      ∀ holds, rewritten holds (guardedItems cfg h m (serverSources cfg site raw)) =
        rewritten holds (expand (serverSources cfg site raw) (security h.blockExploits)) := by
  have lines : ∀ texts holds, ownAccess (notes "\n    " texts) = ⟨[], [], [], []⟩ ∧
      rewritten holds (notes "\n    " texts) = none := fun texts holds =>
    ⟨(silent_of_phaseItems (phaseItems_notes _ texts) holds).2.1,
      (silent_of_phaseItems (phaseItems_notes _ texts) holds).1⟩
  have errors := fun holds => errors_read cfg errorCodes holds
  have page := fun holds => maintenancePage_read cfg h m (serverSources cfg site raw) holds
  have listed := fun holds => accessControl_read cfg h holds
  have probing := fun holds => security_read h (serverSources cfg site raw) holds
  have never : List String → Bool := fun _ => false
  simp only [guardedItems, expand_append, expand_brandedErrors, expand_accessControl]
  refine ⟨?_, ?_, fun holds => ?_⟩
  · rw [ownAccess_append_right (probing never).1, ownAccess_append_left, (listed never).1]
    rw [ownAccess_append_left (page never).1, ownAccess_append_left (lines _ never).1,
      (errors never).1]
  · simp only [own_append, (errors never).2.1, (page never).2.1, (listed never).2.1,
      (probing never).2.1, own_notes, List.nil_append, List.append_nil, pageArguments]
  · simp only [rewritten_append, (errors holds).2.2, (page holds).2.2, (listed holds).2.2, lines,
      Option.none_or]

end Access

end Level

/-! ### The locations -/

/-- A location with no page and no access rule of its own. -/
structure Inherits (body : List Lib.Node) : Prop where
  access : ownAccess body = ⟨[], [], [], []⟩
  pages : own "error_page" body = []

/-- The condition of the maintenance guard. -/
def guardCondition (h : ProxyHostSpec) : List String :=
  ["($mgm_maint_" ++ toString h.id ++ ")"]

section Bodies

variable (cfg : Deployment) (site : Option DefaultSiteSpec) (h : ProxyHostSpec)
  (m : Option MaintenanceSpec) (src : Sources)

/-- What sets no rule of access, names no page, and is there for clients too. -/
structure Unrestricted (body : List Lib.Node) : Prop where
  inherits : Inherits body
  visible : own "internal" body = []

private theorem unrestricted_of_phaseItems {body : List Lib.Node} (none_ : phaseItems body = [])
    (visible : own "internal" body = []) : Unrestricted body :=
  have silent := silent_of_phaseItems none_ fun _ => false
  ⟨⟨silent.2.1, silent.2.2⟩, visible⟩

private theorem unrestricted_append {left right : List Lib.Node} (first : Unrestricted left)
    (second : Unrestricted right) : Unrestricted (left ++ right) where
  inherits := {
    access := by rw [ownAccess_append_left first.inherits.access, second.inherits.access]
    pages := by rw [own_append, first.inherits.pages, second.inherits.pages, List.nil_append] }
  visible := by rw [own_append, first.visible, second.visible, List.nil_append]

private theorem unrestricted_guard : Unrestricted (expand src (maintenanceGuard h)) := by
  cases enabled : h.maintenanceEnabled <;>
    exact ⟨⟨by simp [maintenanceGuard, enabled, when, ownAccess, accessRules, notes],
      by simp [maintenanceGuard, enabled, when]⟩, by simp [maintenanceGuard, enabled, when]⟩

/-- The guard answers before anything that stands behind it. -/
private theorem rewritten_guard (enabled : h.maintenanceEnabled = true)
    {holds : List String → Bool} (stops : holds (guardCondition h) = true)
    (rest : List Lib.Node) :
    rewritten holds (expand src (maintenanceGuard h) ++ rest) = some "503" := by
  have guard : expand src (maintenanceGuard h) = notes "\n        " [
      "Under maintenance: everyone outside the bypass list gets the page. The",
      "guard lives in each location because a server-level `if` runs in the",
      "rewrite phase, where a `return` bypasses error_page entirely and nginx",
      "serves its own body instead of ours."] ++
    [.block "\n        " ("if" :: guardCondition h) [.directive " " ["return", "503"]] " "] := by
    simp [maintenanceGuard, enabled, when, guardCondition]
  rw [guard, List.append_assoc, rewritten_append,
    (silent_of_phaseItems (phaseItems_notes _ _) holds).1, Option.none_or, List.singleton_append,
    rewritten, if_pos ⟨rfl, stops⟩]
  rfl

/-- A body that begins with the guard. -/
structure BeginsGuarded (h : ProxyHostSpec) (body : List Lib.Node) : Prop where
  unrestricted : Unrestricted body
  guards : ∀ holds : List String → Bool, h.maintenanceEnabled = true →
    holds (guardCondition h) = true → rewritten holds body = some "503"

private theorem guarded_append {rest : List Lib.Node} (behind : Unrestricted rest) :
    BeginsGuarded h (expand src (maintenanceGuard h) ++ rest) where
  unrestricted := unrestricted_append (unrestricted_guard h src) behind
  guards := fun _ enabled stops => rewritten_guard h src enabled stops rest

theorem guarded_proxyBlock (path : List String) (scheme : HttpScheme) (target : String) :
    BeginsGuarded h (inside src [proxyBlock h path scheme target]) := by
  simp only [inside, List.flatMap_singleton, proxyBlock, body_block, expand_append,
    List.append_assoc]
  refine guarded_append h src (unrestricted_of_phaseItems ?_ ?_)
  all_goals
    generalize (h.hasAuth && !(h.accessList.elim false (·.passAuth))) = consumes
    cases h.allowWebsocketUpgrade <;> cases consumes <;>
      simp [forwardedHeaders, when, phaseWords]

theorem guarded_cachedAssets : BeginsGuarded h (inside src [cachedAssets h]) := by
  simp only [inside, List.flatMap_singleton, cachedAssets, body_block, expand_append,
    List.append_assoc]
  refine guarded_append h src (unrestricted_of_phaseItems ?_ ?_) <;>
    simp [forwardedHeaders, phaseWords]

/-- The rules of the default site keep nobody out. -/
private theorem unrestricted_siteRules (site : DefaultSiteSpec) :
    Unrestricted (defaultSiteRules cfg site) := by
  cases mode : site.mode <;>
    exact ⟨⟨by simp [defaultSiteRules, mode, ownAccess, accessRules, notes],
      by simp [defaultSiteRules, mode]⟩, by simp [defaultSiteRules, mode]⟩

theorem guarded_answeredBlock (raw : String → List Lib.Node) (l : LocationSpec) :
    BeginsGuarded h (inside (serverSources cfg site raw) [answeredBlock cfg h l]) := by
  have included : Unrestricted (includedFile cfg site
      (cfg.nginxDefaultDir ++ "/" ++ defaultSiteBody)) := by
    rw [includedFile_siteBody]
    cases site with
    | none => exact unrestricted_of_phaseItems rfl rfl
    | some site =>
      exact unrestricted_append (unrestricted_of_phaseItems rfl rfl)
        (unrestricted_siteRules cfg site)
  have rules : Unrestricted ((serverSources cfg site raw).files
      (cfg.nginxDefaultDir ++ "/" ++ defaultSiteBody)) := included
  simp only [inside, List.flatMap_singleton, answeredBlock, body_block, expand_append]
  refine guarded_append h _ ?_
  have site' : Unrestricted (expand (serverSources cfg site raw) (notes "\n        " [
      "Whatever Settings -> Default site says, rendered once and included",
      "here: change the setting and every path using it follows."] ++
      [.directive "\n        " ["include", cfg.nginxDefaultDir ++ "/" ++ defaultSiteBody]])) := by
    rw [expand_append, expand_notes]
    refine unrestricted_append
      (unrestricted_of_phaseItems (phaseItems_notes _ _) (own_notes _ _)) ?_
    simpa using rules
  cases l.target with
  | customPage => exact unrestricted_of_phaseItems (by simp [phaseWords]) (by simp)
  | errorPage =>
    exact ⟨⟨by simp [ownAccess, accessRules, notes], by simp⟩, by simp⟩
  | pool => exact site'
  | host => exact site'
  | defaultSite => exact site'

section Routes

variable {cfg h src} {l : Location}

theorem route_cases (member : l ∈ routeLocations cfg src h) :
    l = rootLocation src h ∨ (∃ spec ∈ h.locations, l = extraLocation cfg src h spec) ∨
      l = assetLocation src h := by
  simp only [routeLocations, List.mem_append, List.mem_cons, List.mem_map] at member
  rcases member with (root | ⟨spec, listed, rfl⟩) | assets
  · exact Or.inl root
  · exact Or.inr (Or.inl ⟨spec, listed, rfl⟩)
  · split at assets
    · exact Or.inr (Or.inr (List.mem_singleton.mp assets))
    · cases assets

theorem rootLocation_mem : rootLocation src h ∈ routeLocations cfg src h := by
  simp [routeLocations]

theorem extraLocation_mem {spec : LocationSpec} (listed : spec ∈ h.locations) :
    extraLocation cfg src h spec ∈ routeLocations cfg src h := by
  simp only [routeLocations, List.mem_append, List.mem_cons, List.mem_map]
  exact Or.inl (Or.inr ⟨spec, listed, rfl⟩)

/-- No route is for one path alone. -/
theorem route_inexact (member : l ∈ routeLocations cfg src h) : l.kind ≠ .exact := by
  rcases route_cases member with rfl | ⟨spec, _, rfl⟩ | rfl
  all_goals exact fun same => by cases same

end Routes

/-- Every route begins with the guard and says nothing about access. -/
theorem guarded_route (raw : String → List Lib.Node) {l : Location}
    (member : l ∈ routeLocations cfg (serverSources cfg site raw) h) : BeginsGuarded h l.body := by
  rcases route_cases member with rfl | ⟨spec, _, rfl⟩ | rfl
  · exact guarded_proxyBlock h _ _ _ _
  · have body : ∀ block : Lib.Node, inside (serverSources cfg site raw)
        [.comment "\n\n    "
          "Extra route: ^~ makes the longest prefix win over the cache-assets regex.", block] =
        inside (serverSources cfg site raw) [block] := fun _ => rfl
    rw [extraLocation, extraRoute, body]
    split
    · exact guarded_proxyBlock h _ _ _ _
    · exact guarded_answeredBlock cfg site h raw spec
  · exact guarded_cachedAssets h _

/-- The challenge lets everyone in. -/
theorem challenge_read : own "error_page" (challengeLocation cfg src h).body = [] ∧
    ownAccess (challengeLocation cfg src h).body =
      if h.accessList.isSome then ⟨[["allow", "all"]], [["off"]], [], []⟩
      else ⟨[], [], [], []⟩ := by
  cases listed : h.accessList.isSome <;>
    simp [challengeLocation, inside, proxyAcmeChallenge, listed, when, notes, ownAccess,
      accessRules]

/-- The document of a page: a file, for the server itself. -/
structure IsDocument (cfg : Deployment) (body : List Lib.Node) : Prop where
  inherits : Inherits body
  goesOn : ∀ holds, rewritten holds body = none
  hidden : own "internal" body ≠ []
  file : (handlers.all fun name => own name body = []) = true
  root : own "root" body = [[cfg.nginxDefaultDir]]

theorem isDocument_error (code : Int) : IsDocument cfg (errorLocation cfg src code).body := by
  have body : (errorLocation cfg src code).body =
      [.directive "\n    " ["root", cfg.nginxDefaultDir], .directive "\n    " ["internal"]] := by
    simp [errorLocation, inside, errorsTemplate]
  rw [body]
  exact ⟨⟨rfl, rfl⟩, fun _ => rfl, List.cons_ne_nil _ _, rfl, rfl⟩

theorem isDocument_maintenance (enabled : h.maintenanceEnabled = true) :
    IsDocument cfg (maintenanceLocation cfg src h m).body := by
  have body : (maintenanceLocation cfg src h m).body =
      [.directive "\n        " ["root", cfg.nginxDefaultDir],
        .directive "\n        " ["internal"],
        .directive "\n        " ["add_header", "Retry-After",
          toString ((m.elim 60 (·.retryAfterMinutes)) * 60), "always"]] := by
    simp [maintenanceLocation, inside, maintenancePage, enabled, when, notes]
  rw [body]
  exact ⟨⟨rfl, rfl⟩, fun _ => rfl, List.cons_ne_nil _ _, rfl, rfl⟩

end Bodies

/-! ### A server block that does not redirect -/

/-- What is the same in every such block. -/
structure Direct (cfg : Deployment) (h : ProxyHostSpec) (m : Option MaintenanceSpec)
    (src : Sources) (level : List Lib.Node) : Prop where
  items : phaseItems level = phaseItems (guardedItems cfg h m src)
  locations : ∃ fixed : List Location, (∀ l ∈ fixed, l = challengeLocation cfg src h) ∧
    locations level = documentLocations cfg src h m ++ (fixed ++ routeLocations cfg src h)

/-- Some location sends every request on to HTTPS. -/
def RedirectsToHttps (level : List Lib.Node) : Prop :=
  ∃ l ∈ locations level, ["301", "https://$host$request_uri"] ∈ own "return" l.body

instance (level : List Lib.Node) : Decidable (RedirectsToHttps level) :=
  inferInstanceAs (Decidable (∃ l ∈ locations level, _ ∈ own "return" l.body))

section Levels

variable (cfg : Deployment) (site : Option DefaultSiteSpec) (h : ProxyHostSpec)
  (m : Option MaintenanceSpec) {raw : String → List Lib.Node} (skips : SkipsCode raw)
  (plain : h.advancedConfig = "")

include skips plain

/-- Every block of a host either redirects or is of one shape. -/
theorem direct_or_redirects {level : List Lib.Node}
    (member : level ∈ serverLevels (serverSources cfg site raw) (proxyHostConf cfg h m)) :
    Direct cfg h m (serverSources cfg site raw) level ∨
      (h.sslForced = true ∧
        level = expand (serverSources cfg site raw) (proxyPlainServer cfg h m)) := by
  rw [serverLevels, serverBlocks_proxyHost] at member
  cases certificate : h.certificate with
  | none =>
    rw [certificate] at member
    rw [List.mem_singleton.mp member]
    refine Or.inl ⟨phaseItems_onlyServer skips plain,
      [challengeLocation cfg (serverSources cfg site raw) h], by simp, ?_⟩
    rw [locations_proxyOnlyServer cfg site h m skips, plain, operatorNodes_none]
    simp
  | some c =>
    rw [certificate] at member
    simp only [List.map_cons, List.map_nil, List.mem_cons, List.not_mem_nil, or_false] at member
    rcases member with rfl | rfl
    · cases forced : h.sslForced with
      | true => exact Or.inr ⟨rfl, rfl⟩
      | false =>
        refine Or.inl ⟨phaseItems_plainServer skips forced,
          [challengeLocation cfg (serverSources cfg site raw) h], by simp, ?_⟩
        rw [locations_proxyPlainServer cfg site h m skips, forced]
        simp
    · refine Or.inl ⟨phaseItems_tlsServer skips plain c, [], by simp, ?_⟩
      rw [locations_proxyTlsServer cfg site h m skips, plain, operatorNodes_none]
      simp

omit plain in
theorem redirects_plainServer (forced : h.sslForced = true) :
    RedirectsToHttps (expand (serverSources cfg site raw) (proxyPlainServer cfg h m)) := by
  refine ⟨redirectingLocation (serverSources cfg site raw), ?_, ?_⟩
  · rw [locations_proxyPlainServer cfg site h m skips, forced]
    simp
  · simp [redirectingLocation, inside, httpsRedirect]

end Levels

section Answers

variable {cfg : Deployment} {site : Option DefaultSiteSpec} {h : ProxyHostSpec}
  {m : Option MaintenanceSpec} {raw : String → List Lib.Node} {s : Server} {e : Engine}
  {v : Visitor} {r : HttpRequest}

theorem mem_documentLocations {src : Sources} {l : Location}
    (member : l ∈ documentLocations cfg src h m) :
    l.kind = .exact ∧ IsDocument cfg l.body := by
  rcases List.mem_append.mp member with page | error
  · rw [maintenanceLocations] at page
    split at page
    next enabled =>
      rw [List.mem_singleton.mp page]
      exact ⟨rfl, isDocument_maintenance cfg h m src enabled⟩
    · cases page
  · obtain ⟨code, _, rfl⟩ := List.mem_map.mp error
    exact ⟨rfl, isDocument_error cfg src code⟩

theorem names_documentLocations (cfg : Deployment) (h : ProxyHostSpec)
    (m : Option MaintenanceSpec) (src : Sources) :
    (documentLocations cfg src h m).map (·.name) = documentNames h := by
  rw [documentLocations, List.map_append, List.map_map, documentNames, maintenanceLocations]
  cases h.maintenanceEnabled <;> rfl

section Direct

variable (direct : Direct cfg h m (serverSources cfg site raw) s.level)

include direct

theorem direct_rewritten (r : HttpRequest) : rewritten (s.condition e v r) s.level =
    if Probes e h r then some "403" else none := by
  obtain ⟨script, parent, union⟩ := conditions_read s e v r
  rw [← rewritten_phased, direct.items, rewritten_phased, (guardedItems_read cfg site h m raw).2.2,
    (security_read h _ _).2.2, script, parent, union]
  rfl

theorem direct_access : ownAccess s.level = hostAccess cfg h := by
  rw [← ownAccess_phased, direct.items, ownAccess_phased, (guardedItems_read cfg site h m raw).1]

theorem direct_pages : own "error_page" s.level = pageArguments h := by
  rw [← own_phased (by decide), direct.items, own_phased (by decide),
    (guardedItems_read cfg site h m raw).2.1]

/-- A document is found at its name. -/
theorem document_found {l : Location}
    (member : l ∈ documentLocations cfg (serverSources cfg site raw) h m) :
    (locations s.level).find? (Location.isExactly l.name) = some l := by
  obtain ⟨fixed, _, held⟩ := direct.locations
  rw [held]
  refine find_exactly ?_ (fun l member => (mem_documentLocations member).1) member _
  rw [names_documentLocations]
  exact nodup_documentNames h

/-- Any other path is no exact name. -/
theorem inexact_path {path : String} (other : path ∉ documentNames h) :
    (locations s.level).find? (Location.isExactly path) = none := by
  obtain ⟨fixed, challenge, held⟩ := direct.locations
  rw [held, List.find?_eq_none]
  intro l member exact
  simp only [Location.isExactly, decide_eq_true_eq] at exact
  rcases List.mem_append.mp member with document | rest
  · refine other ?_
    rw [← names_documentLocations cfg h m (serverSources cfg site raw), ← exact.2]
    exact List.mem_map_of_mem document
  · rcases List.mem_append.mp rest with fixedOne | route
    · rw [challenge l fixedOne] at exact
      cases exact.1
    · exact route_inexact route exact.1

/-- A document is answered as far as the access list lets the visitor in again. -/
theorem fail_document (path : Path) {status : String} {l : Location} {body : List Lib.Node}
    (inherits : own "error_page" body = [])
    (page : errorPage status (pageArguments h) = some path.text)
    (calm : ¬Probes e h (r.redirect path))
    (found : (locations s.level).find? (Location.isExactly path.text) = some l)
    (document : IsDocument cfg l.body) :
    ((hostAccess cfg h).refusal e v (r.redirect path) = none ∧
      s.fail e v r status body = .file status (cfg.nginxDefaultDir ++ path.text)) ∨
    ∃ second, (hostAccess cfg h).refusal e v (r.redirect path) = some second ∧
      s.fail e v r status body = .bare second := by
  have passed : s.pass e v (r.redirect path) =
      ((hostAccess cfg h).refusal e v (r.redirect path)).elim (.reached l.body)
        fun second => .refused second l.body := by
    have visible : isHidden (r.redirect path) l.body = false := by
      simp [isHidden, HttpRequest.redirect]
    have there : (r.redirect path).path = path := rfl
    rw [Server.pass, direct_rewritten direct, if_neg calm]
    dsimp only
    rw [there, choose_exact found]
    dsimp only
    rw [visible, Server.enter, document.goesOn, direct_access direct, document.inherits.access,
      Access.inside_silent]
    cases (hostAccess cfg h).refusal e v (r.redirect path) with
    | none => rfl
    | some second => rfl
  have own_root : inForce "root" (own "root" s.level) l.body = [[cfg.nginxDefaultDir]] := by
    rw [inForce_own (by rw [document.root]; exact List.cons_ne_nil _ _), document.root]
  rw [Server.fail, direct_pages direct, inForce_inherited inherits, page, Option.bind_some,
    Path.of_text]
  dsimp only
  rw [passed]
  cases refused : (hostAccess cfg h).refusal e v (r.redirect path) with
  | some second => exact Or.inr ⟨second, rfl, rfl⟩
  | none =>
    refine Or.inl ⟨rfl, ?_⟩
    rw [Option.elim_none]
    dsimp only
    rw [Server.serve, document.file, own_root]
    rfl

end Direct

/-! ### The maintenance guard -/

/-- The first page of this status is the maintenance page. -/
theorem errorPage_maintenance (enabled : h.maintenanceEnabled = true) :
    errorPage "503" (pageArguments h) = some ("/" ++ maintenanceHtml) := by
  rw [pageArguments, if_pos enabled]
  rfl

theorem errorPage_refusal (h : ProxyHostSpec) {code : Int} (refusal : code = 401 ∨ code = 403) :
    errorPage (toString code) (pageArguments h) = some ("/" ++ errorHtml code) := by
  rw [pageArguments]
  rcases refusal with rfl | rfl <;> cases h.maintenanceEnabled <;> decide +kernel

private theorem blocks_geo (cfg : Deployment) (h : ProxyHostSpec) (m : Option MaintenanceSpec)
    (enabled : h.maintenanceEnabled = true) : blocks "geo" (proxyHostConf cfg h m) =
      [(["$mgm_maint_" ++ toString h.id], .directive "\n    " ["default", "1"] ::
        h.maintenanceAllow.map fun entry => .directive "\n    " [entry, "0"])] := by
  rw [proxyHostConf]
  cases h.certificate <;> simp [managedHeader, maintenanceGeo, enabled, when]

private theorem entries_read (entries : List String) :
    geoEntries (entries.map fun entry => .directive "\n    " [entry, "0"]) =
      entries.map fun entry => (entry, "0") := by
  induction entries with
  | nil => rfl
  | cons entry rest ih => rw [List.map_cons, List.map_cons, geoEntries, ih]

/-- Outside the bypass list the variable of the guard is on. -/
private theorem guard_value (enabled : h.maintenanceEnabled = true)
    (around : s.geos = blocks "geo" (proxyHostConf cfg h m))
    (outside : ∀ entry ∈ h.maintenanceAllow, v.within entry = none) :
    s.value v r ("$mgm_maint_" ++ toString h.id) = "1" := by
  have apart : ∀ other : String, other.toList.tail.head? = some 'r' ∨
      other.toList.tail.head? = some 'q' → "$mgm_maint_" ++ toString h.id ≠ other := by
    rintro other second rfl
    simp at second
  have none_ : closest v none (("default", "1") ::
      h.maintenanceAllow.map fun entry => (entry, "0")) = none := by
    refine closest_outside ?_ none
    intro entry member network
    rcases List.mem_cons.mp member with rfl | listed
    · exact absurd (by decide) network
    · obtain ⟨text, known, rfl⟩ := List.mem_map.mp listed
      exact outside text known
  rw [Server.value, if_neg (apart _ (Or.inl (by decide))), if_neg (apart _ (Or.inr (by decide))),
    around, blocks_geo cfg h m enabled]
  simp only [List.find?_cons, decide_true]
  rw [geoValue, geoEntries, entries_read, none_]
  rfl

/-- Outside the bypass list the guard stops every request. -/
theorem guard_stops (enabled : h.maintenanceEnabled = true)
    (around : s.geos = blocks "geo" (proxyHostConf cfg h m))
    (outside : ∀ entry ∈ h.maintenanceAllow, v.within entry = none) :
    s.condition e v r (guardCondition h) = true := by
  have read : unopened (unclosed ("($mgm_maint_" ++ toString h.id ++ ")")) =
      "$mgm_maint_" ++ toString h.id := by
    apply String.toList_inj.mp
    simp only [unopened, unclosed, String.toList_ofList, String.toList_append]
    rw [show ")".toList = [')'] from rfl, List.dropLast_concat]
    rfl
  rw [Server.condition, guardCondition, Engine.holds, read, guard_value enabled around outside]
  rfl

/-! ### Paths that are completed -/

/-- The path lacks the slash a proxied route ends in, and is no name itself. -/
def Completed (h : ProxyHostSpec) (path : String) : Prop :=
  path ≠ "/" ∧ path ∉ routeNames h ∧ ∃ l ∈ h.locations, l.target.proxies = true ∧
    path.toList ++ ['/'] = (readWord l.path).toList

instance (h : ProxyHostSpec) (path : String) : Decidable (Completed h path) :=
  inferInstanceAs (Decidable (_ ∧ _ ∧ _))

private theorem proxies_extraLocation (cfg : Deployment) (site : Option DefaultSiteSpec)
    (raw : String → List Lib.Node) (h : ProxyHostSpec) (l : LocationSpec) :
    own "proxy_pass" (extraLocation cfg (serverSources cfg site raw) h l).body ≠ [] ↔
      l.target.proxies = true := by
  have body : ∀ block : Lib.Node, inside (serverSources cfg site raw)
      [.comment "\n\n    "
        "Extra route: ^~ makes the longest prefix win over the cache-assets regex.", block] =
      inside (serverSources cfg site raw) [block] := fun _ => rfl
  rw [extraLocation, extraRoute, body]
  cases onward : l.target.proxies with
  | true =>
    rw [if_pos rfl]
    refine iff_of_true ?_ rfl
    simp [inside, proxyBlock]
  | false =>
    rw [if_neg Bool.false_ne_true, own_answeredBlock cfg site raw h (Or.inl rfl) l]
    exact iff_of_false (fun some_ => some_ rfl) Bool.false_ne_true

theorem completed_iff (direct : Direct cfg h m (serverSources cfg site raw) s.level) (path : Path)
    (other : path.text ∉ documentNames h)
    (elsewhere : ¬challengePath.toList <+: path.text.toList) :
    (completion path.text (locations s.level)).isSome = true ↔ Completed h path.text := by
  obtain ⟨fixed, challenge, held⟩ := direct.locations
  rw [completion_isSome_iff, held]
  constructor
  · rintro ⟨⟨l, member, completes⟩, apart⟩
    simp only [Location.completes, Bool.and_eq_true, decide_eq_true_eq] at completes
    obtain ⟨⟨static, onward⟩, same⟩ := completes
    -- neither a document nor the challenge hands requests on
    rcases List.mem_append.mp member with document | rest
    · have kept := List.all_eq_true.mp (mem_documentLocations document).2.file "proxy_pass"
        (by decide)
      exact absurd (by simpa using kept) onward
    rcases List.mem_append.mp rest with fixedOne | route
    · rw [challenge l fixedOne] at onward
      exact absurd (proxyPass_challengeLocation cfg _ h) onward
    have named : ∀ l ∈ routeLocations cfg (serverSources cfg site raw) h, l.isStatic = true →
        l.name ≠ path.text := fun l inside =>
      apart l (List.mem_append_right _ (List.mem_append_right _ inside))
    refine ⟨fun root => named _ rootLocation_mem rfl root.symm, ?_, ?_⟩
    · intro taken
      obtain ⟨spec, listed, word⟩ := List.mem_map.mp taken
      exact named _ (extraLocation_mem listed) rfl word
    · rcases route_cases route with rfl | ⟨spec, listed, rfl⟩ | rfl
      · -- a path is not empty
        have rooted := path.rooted
        have both : path.text.toList ++ ['/'] = "/".toList := same
        rw [show "/".toList = [] ++ ['/'] from rfl] at both
        rw [List.append_cancel_right both] at rooted
        cases rooted
      · exact ⟨spec, listed, (proxies_extraLocation cfg site raw h spec).mp onward, same⟩
      · cases static
  · rintro ⟨root, names, spec, listed, proxies, same⟩
    refine ⟨⟨extraLocation cfg (serverSources cfg site raw) h spec, ?_, ?_⟩, ?_⟩
    · exact List.mem_append_right _ (List.mem_append_right _ (extraLocation_mem listed))
    · have onward := (proxies_extraLocation cfg site raw h spec).mpr proxies
      simp only [Location.completes, Bool.and_eq_true, decide_eq_true_eq]
      exact ⟨⟨rfl, onward⟩, same⟩
    · intro l member static taken
      rcases List.mem_append.mp member with document | rest
      · refine other ?_
        rw [← names_documentLocations cfg h m (serverSources cfg site raw), ← taken]
        exact List.mem_map_of_mem document
      rcases List.mem_append.mp rest with fixedOne | route
      · refine elsewhere ?_
        rw [← taken, challenge l fixedOne]
        exact List.prefix_refl _
      · rcases route_cases route with rfl | ⟨spec, listed, rfl⟩ | rfl
        · exact root taken.symm
        · exact names (List.mem_map.mpr ⟨spec, listed, taken⟩)
        · cases static

/-! ### Visitors outside the bypass list -/

/-- The path of a document of the pages. -/
def documentPath (name : String) : Path :=
  ⟨"/" ++ name, by rw [String.toList_append]; rfl⟩

/-- Maintenance keeps this request from the host: the visitor is not on the bypass list, the
path is not the challenge's, and the block does not just redirect. -/
structure Stopped (h : ProxyHostSpec) (level : List Lib.Node) (v : Visitor) (r : HttpRequest) :
    Prop where
  enabled : h.maintenanceEnabled = true
  outside : ∀ entry ∈ h.maintenanceAllow, v.within entry = none
  elsewhere : ¬challengePath.toList <+: r.path.text.toList
  answers : ¬RedirectsToHttps level

/-- Nothing before the guard answers the request: no probe is found in it, it does not ask
for a document of the pages, and its path is not sent to its name with a slash. -/
structure MeetsGuard (e : Engine) (h : ProxyHostSpec) (r : HttpRequest) : Prop where
  calm : ¬Probes e h r
  other : r.path.text ∉ documentNames h
  whole : ¬Completed h r.path.text

/-- The request for a document holds no probe unless the request before it did. -/
theorem calm_redirect (quiet : e.finds true unionPattern "" = false) (calm : ¬Probes e h r)
    (path : Path) : ¬Probes e h (r.redirect path) := by
  rintro ⟨on, script | parent | union⟩
  · exact calm ⟨on, Or.inl script⟩
  · exact calm ⟨on, Or.inr (Or.inl parent)⟩
  · rw [show (r.redirect path).query = "" from rfl, quiet] at union
    cases union

/-- What answers a request with a file ended it with the file's status. -/
theorem answer_file {status path : String} (answered : s.answer e v r = .file status path)
    (other : status ≠ "200") :
    (∃ body, s.pass e v r = .ended status body) ∨ ∃ body, s.pass e v r = .refused status body := by
  rw [Server.answer] at answered
  cases passed : s.pass e v r with
  | reached body =>
    rw [passed] at answered
    dsimp only at answered
    rw [Server.serve] at answered
    split at answered
    · cases answered
      exact absurd rfl other
    · cases answered
  | ended ended body =>
    rw [passed] at answered
    rw [fail_file answered]
    exact Or.inl ⟨body, rfl⟩
  | refused refused body =>
    rw [passed] at answered
    rw [fail_file answered]
    exact Or.inr ⟨body, rfl⟩

/-- A request that nothing answers before the guard ends there. -/
theorem pass_guard (direct : Direct cfg h m (serverSources cfg site raw) s.level)
    (around : s.geos = blocks "geo" (proxyHostConf cfg h m)) (stopped : Stopped h s.level v r)
    (meets : MeetsGuard e h r) :
    ∃ body, own "error_page" body = [] ∧ s.pass e v r = .ended "503" body := by
  obtain ⟨fixed, challenge, held⟩ := direct.locations
  -- the root takes every path
  have begun : ∃ l ∈ locations s.level, l.begins r.path.text = true := by
    refine ⟨rootLocation (serverSources cfg site raw) h, ?_, ?_⟩
    · rw [held]
      exact List.mem_append_right _ (List.mem_append_right _ rootLocation_mem)
    · obtain ⟨tail, whole⟩ := List.head?_eq_some_iff.mp r.path.rooted
      have root : "/".toList <+: r.path.text.toList := ⟨tail, whole.symm⟩
      exact List.isPrefixOf_iff_prefix.mpr root
  have uncompleted : completion r.path.text (locations s.level) = none := by
    rw [← Option.not_isSome_iff_eq_none, completed_iff direct r.path meets.other stopped.elsewhere]
    exact meets.whole
  rcases choose_inexact (inexact_path direct meets.other) begun with
    ⟨l, completed, _⟩ | ⟨_, l, member, chosen, matched⟩
  · rw [uncompleted] at completed
    cases completed
  · -- what is found is a route: documents have exact names, and the challenge's is excluded
    have route : l ∈ routeLocations cfg (serverSources cfg site raw) h := by
      rw [held] at member
      rcases List.mem_append.mp member with document | rest
      · have exact := (mem_documentLocations document).1
        rw [Location.begins, Engine.matching, exact] at matched
        simp at matched
      · rcases List.mem_append.mp rest with fixedOne | route
        · rw [challenge l fixedOne] at matched
          rcases matched with begins | found
          · exact absurd (List.isPrefixOf_iff_prefix.mp begins) stopped.elsewhere
          · cases found
        · exact route
    have guarded := guarded_route cfg site h raw route
    have visible : isHidden r l.body = false := by
      rw [isHidden, guarded.unrestricted.visible]
      rfl
    refine ⟨l.body, guarded.unrestricted.inherits.pages, ?_⟩
    rw [Server.pass, direct_rewritten direct, if_neg meets.calm]
    dsimp only
    rw [chosen]
    dsimp only
    rw [visible, Server.enter,
      guarded.guards _ stopped.enabled (guard_stops stopped.enabled around stopped.outside)]
    rfl

/-- A request that something answers before the guard ends with another status. -/
theorem pass_other (direct : Direct cfg h m (serverSources cfg site raw) s.level)
    (external : r.internal = false) (stopped : Stopped h s.level v r)
    (missed : ¬MeetsGuard e h r) :
    ∃ status body, status ≠ "503" ∧ s.pass e v r = .ended status body := by
  rw [Server.pass, direct_rewritten direct]
  by_cases probes : Probes e h r
  · rw [if_pos probes]
    exact ⟨"403", [], by decide, rfl⟩
  rw [if_neg probes]
  dsimp only
  by_cases document : r.path.text ∈ documentNames h
  · rw [← names_documentLocations cfg h m (serverSources cfg site raw)] at document
    obtain ⟨l, member, named⟩ := List.mem_map.mp document
    rw [← named, choose_exact (document_found direct member)]
    have hidden : isHidden r l.body = true := by
      simp [isHidden, external, (mem_documentLocations member).2.hidden]
    dsimp only
    rw [if_pos hidden]
    exact ⟨"404", l.body, by decide, rfl⟩
  · have completed : Completed h r.path.text :=
      Decidable.of_not_not fun whole => missed ⟨probes, document, whole⟩
    rw [← completed_iff direct r.path document stopped.elsewhere] at completed
    obtain ⟨l, found⟩ := Option.isSome_iff_exists.mp completed
    rw [Engine.choose, inexact_path direct document, found]
    refine ⟨_, l.body, ?_, rfl⟩
    split
    · decide
    · decide

/-- The maintenance page is shown exactly to those whom the access list lets in again, of the
requests that nothing answers before the guard. -/
theorem maintenance_iff (direct : Direct cfg h m (serverSources cfg site raw) s.level)
    (around : s.geos = blocks "geo" (proxyHostConf cfg h m))
    (quiet : e.finds true unionPattern "" = false) (external : r.internal = false)
    (stopped : Stopped h s.level v r) :
    s.answer e v r = .file "503" (cfg.nginxDefaultDir ++ "/" ++ maintenanceHtml) ↔
      MeetsGuard e h r ∧
        (hostAccess cfg h).refusal e v (r.redirect (documentPath maintenanceHtml)) = none := by
  by_cases meets : MeetsGuard e h r
  · obtain ⟨body, pages, passed⟩ := pass_guard direct around stopped meets
    have answered : s.answer e v r = s.fail e v r "503" body := by
      rw [Server.answer, passed]
    have document : maintenanceLocation cfg (serverSources cfg site raw) h m ∈
        documentLocations cfg (serverSources cfg site raw) h m := by
      simp [documentLocations, maintenanceLocations, stopped.enabled]
    have again := @fail_document cfg site h m raw s e v r direct (documentPath maintenanceHtml)
      _ _ body pages (errorPage_maintenance stopped.enabled) (calm_redirect quiet meets.calm _)
      (document_found direct document) (isDocument_maintenance cfg h m _ stopped.enabled)
    rw [answered, and_iff_right meets]
    rcases again with ⟨admitted, file⟩ | ⟨second, refused, bare⟩
    · rw [file, admitted, String.append_assoc]
      exact iff_of_true rfl rfl
    · rw [bare, refused]
      exact iff_of_false (fun same => by cases same) (fun same => by cases same)
  · obtain ⟨status, body, other, passed⟩ := pass_other direct external stopped meets
    refine iff_of_false (fun answered => ?_) fun both => meets both.1
    rcases answer_file answered (by decide) with ⟨_, ended⟩ | ⟨_, refused⟩
    · rw [passed] at ended
      cases ended
      exact other rfl
    · rw [passed] at refused
      cases refused

/-! ### Visitors the access list refuses -/

/-- The challenge refuses nobody. -/
theorem refusal_challenge (src : Sources) : ((hostAccess cfg h).inside
    (ownAccess (challengeLocation cfg src h).body)).refusal e v r = none := by
  rw [(challenge_read cfg h src).2]
  cases listed : h.accessList with
  | none =>
    rw [hostAccess, listed]
    exact refusal_silent
  | some a => exact refusal_open _ _

/-- A refused request is refused by the access list of the host, at a place without pages of
its own. -/
theorem refused_direct (direct : Direct cfg h m (serverSources cfg site raw) s.level)
    {status : String} {body : List Lib.Node} (passed : s.pass e v r = .refused status body) :
    own "error_page" body = [] ∧ ¬Probes e h r ∧
      (hostAccess cfg h).refusal e v r = some status := by
  obtain ⟨goesOn, place, _, refused⟩ := pass_refused passed
  have calm : ¬Probes e h r := by
    intro probes
    rw [direct_rewritten direct, if_pos probes] at goesOn
    cases goesOn
  rw [direct_access direct] at refused
  have inherits : ∀ {body : List Lib.Node}, Inherits body →
      ((hostAccess cfg h).inside (ownAccess body)).refusal e v r = some status →
      own "error_page" body = [] ∧ ¬Probes e h r ∧
        (hostAccess cfg h).refusal e v r = some status := by
    intro body inherits refused
    rw [inherits.access, Access.inside_silent] at refused
    exact ⟨inherits.pages, calm, refused⟩
  rcases place with rfl | ⟨l, member, rfl⟩
  · exact inherits ⟨rfl, rfl⟩ refused
  · obtain ⟨fixed, challenge, held⟩ := direct.locations
    rw [held] at member
    rcases List.mem_append.mp member with document | rest
    · exact inherits (mem_documentLocations document).2.inherits refused
    · rcases List.mem_append.mp rest with fixedOne | route
      · rw [challenge l fixedOne, refusal_challenge] at refused
        cases refused
      · exact inherits (guarded_route cfg site h raw route).unrestricted.inherits refused

/-- A block that only redirects refuses nobody. -/
theorem never_refused (skips : SkipsCode raw) (forced : h.sslForced = true)
    (level : s.level = expand (serverSources cfg site raw) (proxyPlainServer cfg h m))
    {status : String} {body : List Lib.Node} : s.pass e v r ≠ .refused status body := by
  intro passed
  obtain ⟨_, place, goesOn, refused⟩ := pass_refused passed
  have silent : ownAccess s.level = ⟨[], [], [], []⟩ := by
    have never : List String → Bool := fun _ => false
    rw [level, ← ownAccess_phased, phaseItems_redirecting skips forced, ownAccess_phased,
      ownAccess_append_left (maintenancePage_read cfg h m _ never).1,
      (errors_read cfg errorCodes never).1]
  rw [silent] at refused
  rcases place with rfl | ⟨l, member, rfl⟩
  · rw [show (ownAccess []) = ⟨[], [], [], []⟩ from rfl, Access.inside_silent,
      refusal_silent] at refused
    cases refused
  · rw [level, locations_proxyPlainServer cfg site h m skips, forced, if_pos rfl] at member
    rcases List.mem_append.mp member with document | rest
    · rw [(mem_documentLocations document).2.inherits.access, Access.inside_silent,
        refusal_silent] at refused
      cases refused
    · simp only [List.mem_cons, List.not_mem_nil, or_false] at rest
      rcases rest with rfl | rfl
      · rw [(challenge_read cfg h _).2] at refused
        split at refused
        · rw [show Access.inside ⟨[], [], [], []⟩ ⟨[["allow", "all"]], [["off"]], [], []⟩ =
            ⟨[["allow", "all"]], [["off"]], [], []⟩ from rfl, refusal_open] at refused
          cases refused
        · rw [Access.inside_silent, refusal_silent] at refused
          cases refused
      · -- what redirects ends before anyone is asked
        have returns : ∀ holds, rewritten holds
            (redirectingLocation (serverSources cfg site raw)).body = some "301" := by
          intro holds
          simp [redirectingLocation, inside, httpsRedirect, rewritten]
        rw [returns] at goesOn
        cases goesOn

/-- The page of a refusal is a request that the access list is asked about again. -/
theorem refusal_answer (direct : Direct cfg h m (serverSources cfg site raw) s.level)
    (quiet : e.finds true unionPattern "" = false) {status : String} {body : List Lib.Node}
    (passed : s.pass e v r = .refused status body) :
    ∃ code : Int, (code = 401 ∨ code = 403) ∧ status = toString code ∧
      (((hostAccess cfg h).refusal e v (r.redirect (documentPath (errorHtml code))) = none ∧
          s.answer e v r =
            .file (toString code) (cfg.nginxDefaultDir ++ "/" ++ errorHtml code)) ∨
        ∃ second, (hostAccess cfg h).refusal e v (r.redirect (documentPath (errorHtml code))) =
          some second ∧ s.answer e v r = .bare second) := by
  obtain ⟨pages, calm, refused⟩ := refused_direct direct passed
  have known : ∃ code : Int, (code = 401 ∨ code = 403) ∧ status = toString code := by
    rcases refusal_status refused with rfl | rfl
    · exact ⟨401, Or.inl rfl, rfl⟩
    · exact ⟨403, Or.inr rfl, rfl⟩
  obtain ⟨code, kind, rfl⟩ := known
  have answered : s.answer e v r = s.fail e v r (toString code) body := by
    rw [Server.answer, passed]
  have document : errorLocation cfg (serverSources cfg site raw) code ∈
      documentLocations cfg (serverSources cfg site raw) h m := by
    refine List.mem_append_right _ (List.mem_map_of_mem ?_)
    rcases kind with rfl | rfl <;> decide
  have again := @fail_document cfg site h m raw s e v r direct (documentPath (errorHtml code))
    _ _ body pages (errorPage_refusal h kind) (calm_redirect quiet calm _)
    (document_found direct document) (isDocument_error cfg _ code)
  refine ⟨code, kind, rfl, ?_⟩
  rw [String.append_assoc, answered]
  exact again

/-- A refused visitor is shown the page of the refusal as far as the access list lets in, at
the document, whom it has just refused. -/
theorem refusal_iff (direct : Direct cfg h m (serverSources cfg site raw) s.level)
    (quiet : e.finds true unionPattern "" = false) {status : String} {body : List Lib.Node}
    (passed : s.pass e v r = .refused status body) :
    ∃ code : Int, (code = 401 ∨ code = 403) ∧ status = toString code ∧
      (s.answer e v r = .file (toString code)
          (cfg.nginxDefaultDir ++ "/" ++ errorHtml code) ↔
        (hostAccess cfg h).refusal e v (r.redirect (documentPath (errorHtml code))) = none) := by
  obtain ⟨code, kind, spelled, again⟩ := refusal_answer direct quiet passed
  refine ⟨code, kind, spelled, ?_⟩
  rcases again with ⟨admitted, file⟩ | ⟨second, refused, bare⟩
  · exact iff_of_true file admitted
  · rw [bare, refused]
    exact iff_of_false (fun same => by cases same) (fun same => by cases same)

/-- The realm is the name of the list, in quotes. -/
private theorem realm_plain (cfg : Deployment)
    (named : ∀ a, h.accessList = some a → '$' ∉ a.name.toList) :
    ∀ realm, (hostAccess cfg h).realm.head?.bind List.head? = some realm →
      '$' ∉ realm.toList := by
  intro realm found sign
  cases listed : h.accessList with
  | none =>
    rw [hostAccess, listed] at found
    cases found
  | some a =>
    rw [hostAccess, listed] at found
    dsimp only at found
    split at found
    · cases found
    · cases found
      simp only [String.toList_append, List.mem_append] at sign
      rcases sign with (quote | inside) | quote
      · revert quote
        decide
      · exact named a listed inside
      · revert quote
        decide

/-- Unless the name of the list holds variables, a refused visitor never sees a document. -/
theorem refused_bare (direct : Direct cfg h m (serverSources cfg site raw) s.level)
    (quiet : e.finds true unionPattern "" = false)
    (named : ∀ a, h.accessList = some a → '$' ∉ a.name.toList) {status : String}
    {body : List Lib.Node} (passed : s.pass e v r = .refused status body) :
    s.answer e v r = .bare status := by
  obtain ⟨_, _, refused⟩ := refused_direct direct passed
  obtain ⟨code, _, _, again⟩ := refusal_answer direct quiet passed
  rw [refusal_unchanged (realm_plain cfg named) _ r, refused] at again
  rcases again with ⟨admitted, _⟩ | ⟨second, same, bare⟩
  · cases admitted
  · cases same
    exact bare

end Answers

/-! ### Every server block of a host -/

/-- A server block of a host, with the bypass list around it. -/
def hostServer (cfg : Deployment) (h : ProxyHostSpec) (m : Option MaintenanceSpec)
    (level : List Lib.Node) : Server :=
  ⟨blocks "geo" (proxyHostConf cfg h m), level⟩

section Hosts

variable {cfg : Deployment} {h : ProxyHostSpec} {raw : String → List Lib.Node}
  {level : List Lib.Node} {e : Engine} {r : HttpRequest} (site : Option DefaultSiteSpec)
  (m : Option MaintenanceSpec) (plain : h.advancedConfig = "") (skips : SkipsCode raw)
  (member : level ∈ serverLevels (serverSources cfg site raw) (proxyHostConf cfg h m))
  (quiet : e.finds true unionPattern "" = false) (v : Visitor)

include plain skips member quiet

/-- Every document is shown exactly to those whom the access list lets in once more, when the
request for the document asks it again. -/
theorem refused_visitors_iff (external : r.internal = false) :
    (Stopped h level v r →
      ((hostServer cfg h m level).answer e v r =
          .file "503" (cfg.nginxDefaultDir ++ "/" ++ maintenanceHtml) ↔
        MeetsGuard e h r ∧
          (hostAccess cfg h).refusal e v (r.redirect (documentPath maintenanceHtml)) = none)) ∧
    (∀ status body, (hostServer cfg h m level).pass e v r = .refused status body →
      ∃ code : Int, (code = 401 ∨ code = 403) ∧ status = toString code ∧
        ((hostServer cfg h m level).answer e v r =
            .file (toString code) (cfg.nginxDefaultDir ++ "/" ++ errorHtml code) ↔
          (hostAccess cfg h).refusal e v (r.redirect (documentPath (errorHtml code))) = none)) := by
  rcases direct_or_redirects cfg site h m skips plain member with direct | ⟨forced, rfl⟩
  · exact ⟨fun stopped => maintenance_iff direct rfl quiet external
        stopped,
      fun _ _ passed => refusal_iff direct quiet passed⟩
  · refine ⟨fun stopped => ?_, fun status body passed => ?_⟩
    · exact absurd (redirects_plainServer cfg site h m skips forced) stopped.answers
    · exact absurd passed (never_refused skips forced rfl)

end Hosts

/-! ### Samples -/

/-- An engine that finds nothing. -/
def blindEngine : Engine :=
  ⟨fun _ _ _ => false, fun _ text => text, fun _ _ _ => rfl⟩

/-- A visitor from nowhere, without a password. -/
def stranger : Visitor :=
  ⟨fun _ => none, fun _ => false⟩

def rootRequest : HttpRequest :=
  ⟨⟨"/", rfl⟩, "", "/", false⟩

/-- A host behind these rules and, if it has users, their passwords. -/
def listedHost (maintenance : Bool) (rules : List ClientRuleSpec) (users : List AuthUserSpec) :
    ProxyHostSpec where
  id := 1
  domainNames := ["example.com"]
  upstreamId := some 1
  maintenanceEnabled := maintenance
  accessList := some { id := 1, name := "staff", clientRules := rules, authUsers := users }

theorem accepted_listedHost (maintenance : Bool) {rules : List ClientRuleSpec}
    (everyone : ∀ rule ∈ rules, rule.address = "all") {users : List AuthUserSpec}
    (named : ∀ user ∈ users, validateUsername user.username = .ok user.username) :
    (listedHost maintenance rules users).Accepted sampleLibrary where
  names := ⟨["example.com"],
    (by decide +kernel : normaliseDomains id [] ["example.com"] = .ok ["example.com"])⟩
  target := ⟨fun _ none_ => (by cases none_), fun _ none_ => (by cases none_), Bool.false_ne_true⟩
  locations := fun _ member => by cases member
  paths := rfl
  accessList := by
    intro a listed
    cases listed
    refine ⟨(by decide : shortText "staff" = .ok "staff"),
      fun user member => ⟨_, named user member⟩, fun rule member => ?_⟩
    refine ⟨"all", ?_⟩
    rw [everyone rule member]
    decide
  allow := fun _ member => by cases member

/-- The only server block of such a host. -/
def listedLevel (h : ProxyHostSpec) : List Lib.Node :=
  expand (serverSources sampleDeployment none fun _ => []) (proxyOnlyServer sampleDeployment h none)

theorem listedLevel_mem {h : ProxyHostSpec} (bare : h.certificate = none) :
    listedLevel h ∈ serverLevels (serverSources sampleDeployment none fun _ => [])
      (proxyHostConf sampleDeployment h none) := by
  rw [serverLevels, serverBlocks_proxyHost, bare]
  exact List.mem_singleton_self _

/-- A host under maintenance that denies everyone, or no one. -/
def closedHost (directive : AccessListDirective) : ProxyHostSpec :=
  listedHost true [⟨directive, "all"⟩] []

theorem stopped_closedHost (directive : AccessListDirective) :
    Stopped (closedHost directive) (listedLevel (closedHost directive)) stranger rootRequest where
  enabled := rfl
  outside := fun _ member => by cases member
  elsewhere := by decide
  answers := by cases directive <;> decide +kernel

/-- A visitor whom the list lets in sees the maintenance page. -/
theorem refused_visitors_admitted :
    (hostServer sampleDeployment (closedHost .allow) none (listedLevel (closedHost .allow))).answer
      blindEngine stranger rootRequest =
      .file "503" (sampleDeployment.nginxDefaultDir ++ "/" ++ maintenanceHtml) := by
  have each := refused_visitors_iff none none rfl (fun _ _ _ _ => rfl)
    (listedLevel_mem (h := closedHost .allow) rfl) (e := blindEngine) (r := rootRequest) rfl
    stranger rfl
  refine (each.1 (stopped_closedHost .allow)).mpr ⟨⟨by decide, by decide +kernel, by decide⟩, ?_⟩
  decide +kernel

/-- A host that asks for a password. -/
def passwordHost : ProxyHostSpec :=
  listedHost false [] [⟨"ann", ""⟩]

/-- Whom the list refuses sees bare pages: under maintenance, and without a password. -/
theorem refused_visitors_denied :
    ((closedHost .deny).Accepted sampleLibrary ∧ (closedHost .deny).advancedConfig = "" ∧
      Stopped (closedHost .deny) (listedLevel (closedHost .deny)) stranger rootRequest ∧
      (hostServer sampleDeployment (closedHost .deny) none (listedLevel (closedHost .deny))).answer
        blindEngine stranger rootRequest = .bare "403") ∧
    passwordHost.Accepted sampleLibrary ∧ passwordHost.advancedConfig = "" ∧
      (∃ body, (hostServer sampleDeployment passwordHost none (listedLevel passwordHost)).pass
        blindEngine stranger rootRequest = .refused "401" body) ∧
      (hostServer sampleDeployment passwordHost none (listedLevel passwordHost)).answer
        blindEngine stranger rootRequest = .bare "401" := by
  refine ⟨⟨accepted_listedHost true (by simp) (by simp), rfl, stopped_closedHost .deny, ?_⟩,
    accepted_listedHost false (by simp) ?_, rfl, ?_, ?_⟩
  · exact Answer.eq_bare (by decide +kernel)
  · intro user member
    rw [List.mem_singleton.mp member]
    decide
  · exact Pass.eq_refused (by decide +kernel)
  · exact Answer.eq_bare (by decide +kernel)

end MegooPM
