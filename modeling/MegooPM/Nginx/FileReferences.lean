import MegooPM.Nginx.TemplateFacts
import MegooPM.Lib.ConfReferences

/-!
# The files the templates refer to

Every server block includes the error pages and the log targets. Beyond these a proxy host
refers to the document of each custom page it serves, to the rules of the default site, to
the page it shows during maintenance and to the passwords of its access list.
-/
namespace MegooPM

open Lib Lib.Node

/-- The log targets of the base configuration, outside the managed directories. -/
def loggingTargets := "/etc/nginx/logging-error-targets.conf"

/-- What every server block refers to. -/
def commonReferences (cfg : Deployment) : List Reference :=
  [.file (cfg.nginxDefaultDir ++ "/" ++ errorsConf), .file loggingTargets]

/-- A document of the default directory. -/
def documentReference (cfg : Deployment) (name : String) : Reference :=
  .file (cfg.nginxDefaultDir ++ "/" ++ name)

/-- What a location of its own refers to. -/
def locationReferences (cfg : Deployment) (l : LocationSpec) : List Reference :=
  match l.target with
  | .customPage => [documentReference cfg (locationHtml l.id)]
  | .defaultSite => [documentReference cfg defaultSiteBody]
  | _ => []

/-- What the maintenance page of a host refers to. -/
def maintenanceReferences (cfg : Deployment) (h : ProxyHostSpec) : List Reference :=
  if h.maintenanceEnabled then [.uri ("/" ++ maintenanceHtml), documentReference cfg maintenanceHtml]
  else []

/-- What the access list of a host refers to. -/
def authReferences (cfg : Deployment) (h : ProxyHostSpec) : List Reference :=
  match h.accessList with
  | some a => if a.authUsers.isEmpty then [] else [.file (htpasswdPath cfg a.id)]
  | none => []

section Pieces

variable (root : String)

@[simp] private theorem links_when (c : Bool) (nodes : List Lib.Node) :
    allLinks root (when c nodes) = if c then allLinks root nodes else [] := by
  cases c <;> simp [when]

@[simp] private theorem links_notes (lead : String) (lines : List String) :
    allLinks root (notes lead lines) = [] := by
  simp [notes, allLinks_map]

private theorem links_server (lead : String) (body : List Lib.Node) (close : String) :
    links root (.block lead ["server"] body close) = allLinks (rootAt root body) body := by
  simp [exactUri]

private theorem links_liveLog (key : String) (bounces : Bool) :
    allLinks root (liveLog key bounces) = [.file loggingTargets] := by
  simp [liveLog, directiveLinks, loggingTargets]

private theorem links_brandedErrors (cfg : Deployment) :
    allLinks root (brandedErrors cfg) = [documentReference cfg errorsConf] := by
  simp [brandedErrors, directiveLinks, documentReference]

private theorem links_security (blockExploits : Bool) :
    allLinks root (security blockExploits) = [] := by
  simp [security, directiveLinks, exactUri]

private theorem links_hsts (enabled subdomains : Bool) :
    allLinks root (hsts enabled subdomains) = [] := by
  simp [hsts, directiveLinks]

private theorem links_acmeChallenge (cfg : Deployment) :
    allLinks root (acmeChallenge cfg) = [] := by
  simp [acmeChallenge, directiveLinks, exactUri]

private theorem links_httpsRedirect : links root httpsRedirect = [] := by
  simp [httpsRedirect, directiveLinks, exactUri]

private theorem links_advanced (text : String) : allLinks root (advanced text) = [] := by
  simp [advanced]

private theorem links_certMaterial (c : CertificateSpec) :
    allLinks root (certMaterial c) = [] := by
  simp [certMaterial]

private theorem links_certificateDirectives (lead : String) (c : CertificateSpec) :
    allLinks root (certificateDirectives lead c) = [] := by
  simp [certificateDirectives, directiveLinks]

private theorem links_serverNames (names : List String) :
    links root (serverNames names) = [] := by
  simp [serverNames, directiveLinks]

private theorem links_proxyCrowdsec (h : ProxyHostSpec) (rewrite : Bool) :
    allLinks root (proxyCrowdsec h rewrite) = [] := by
  cases rewrite <;> simp [proxyCrowdsec, crowdsecServerRewrite, directiveLinks]

private theorem links_bouncerCrowdsec (enabled : Bool) (key : String) :
    allLinks root (bouncerCrowdsec enabled key) = [] := by
  simp [bouncerCrowdsec, crowdsecServerRewrite]

private theorem links_proxyAcmeChallenge (cfg : Deployment) (h : ProxyHostSpec) :
    allLinks root (proxyAcmeChallenge cfg h) = [] := by
  simp [proxyAcmeChallenge, directiveLinks, exactUri]

private theorem links_maintenanceGuard (h : ProxyHostSpec) :
    allLinks root (maintenanceGuard h) = [] := by
  simp [maintenanceGuard, directiveLinks, exactUri]

private theorem links_forwardedHeaders : allLinks root forwardedHeaders = [] := by
  simp [forwardedHeaders, directiveLinks]

private theorem links_proxyBlock (h : ProxyHostSpec) {path : List String}
    (prefixed : exactUri ("location" :: path) = []) (scheme : HttpScheme) (target : String) :
    links root (proxyBlock h path scheme target) = [] := by
  simp [proxyBlock, prefixed, links_maintenanceGuard, links_forwardedHeaders,
    directiveLinks]

private theorem links_cachedAssets (h : ProxyHostSpec) :
    links root (cachedAssets h) = [] := by
  simp [cachedAssets, exactUri, links_maintenanceGuard, links_forwardedHeaders,
    directiveLinks]

/-- A bypass entry stands where a directive would: one that reads `include` names a file. -/
private theorem links_maintenanceGeo (h : ProxyHostSpec) {r : Reference}
    (member : r ∈ allLinks root (maintenanceGeo h)) : r = .file "0" := by
  simp [maintenanceGeo, allDirectives_map] at member
  exact member.2.2

private theorem links_maintenancePage (cfg : Deployment) (h : ProxyHostSpec)
    (m : Option MaintenanceSpec) :
    allLinks root (maintenancePage cfg h m) = maintenanceReferences cfg h := by
  cases enabled : h.maintenanceEnabled with
  | false => simp [maintenancePage, maintenanceReferences, enabled]
  | true =>
    simp [maintenancePage, maintenanceReferences, enabled, directiveLinks, exactUri,
      documentReference, rootAt, ownRoots, String.append_assoc]

private theorem links_accessControl (cfg : Deployment) (h : ProxyHostSpec) :
    allLinks root (accessControl cfg h) = authReferences cfg h := by
  unfold accessControl authReferences
  cases h.accessList with
  | none => simp
  | some a =>
    have rules : allLinks root (a.clientRules.map fun r =>
        .directive "\n    " [r.directive.value, r.address]) = [] := by
      rw [allLinks_map, List.flatMap_eq_nil_iff]
      intro r _
      cases word : r.directive <;> simp [directiveLinks, AccessListDirective.value]
    cases none : a.authUsers.isEmpty <;> simp [rules, none, directiveLinks]

/-- A custom page sets the root its document is looked up under. -/
private theorem links_answeredBlock (cfg : Deployment) (h : ProxyHostSpec)
    {l : LocationSpec} (answered : l.target.proxies = false) :
    links root (answeredBlock cfg h l) = locationReferences cfg l := by
  have guardRoots : ownRoots (maintenanceGuard h) = [] := by
    cases enabled : h.maintenanceEnabled <;>
      simp [maintenanceGuard, when, enabled, notes, ownRoots]
  cases target : l.target with
  | customPage =>
    have roots : ownRoots (maintenanceGuard h ++ [
        Lib.Node.comment "\n        "
          "This location's own document, so two paths can serve different pages.",
        .directive "\n        " ["root", cfg.nginxDefaultDir],
        .directive "\n        " ["try_files", "/" ++ locationHtml l.id, "=404"]]) =
        [cfg.nginxDefaultDir] := by
      simp [guardRoots, ownRoots]
    simp [answeredBlock, target, exactUri, links_maintenanceGuard, rootAt_of_ownRoots roots,
      directiveLinks, locationReferences, documentReference, String.append_assoc]
  | defaultSite =>
    simp [answeredBlock, target, exactUri, links_maintenanceGuard, directiveLinks,
      locationReferences, documentReference]
  | errorPage =>
    simp [answeredBlock, target, exactUri, links_maintenanceGuard, directiveLinks,
      locationReferences]
  | pool => simp [target, LocationTarget.proxies] at answered
  | host => simp [target, LocationTarget.proxies] at answered

private theorem links_extraRoute (cfg : Deployment) (h : ProxyHostSpec) (l : LocationSpec) :
    allLinks root (extraRoute cfg h l) = locationReferences cfg l := by
  cases proxies : l.target.proxies with
  | false => simp [extraRoute, proxies, links_answeredBlock root cfg h proxies]
  | true =>
    have nothing : locationReferences cfg l = [] := by
      cases target : l.target <;> simp_all [LocationTarget.proxies, locationReferences]
    simp [extraRoute, proxies, nothing, links_proxyBlock root h
      (show exactUri ["location", "^~", l.path] = [] from rfl)]

private theorem links_proxyLocation (cfg : Deployment) (h : ProxyHostSpec) :
    allLinks root (proxyLocation cfg h) = h.locations.flatMap (locationReferences cfg) := by
  simp [proxyLocation, allLinks_flatMap, links_extraRoute, links_cachedAssets,
    links_proxyBlock root h (show exactUri ["location", "/"] = [] from rfl)]

end Pieces

/-! ### Whole templates -/

section Templates

variable (cfg : Deployment)

/-- What a proxy host refers to beyond the common. -/
def hostReferences (h : ProxyHostSpec) : List Reference :=
  maintenanceReferences cfg h ++ authReferences cfg h ++ h.locations.flatMap (locationReferences cfg)

private theorem links_proxyOnlyServer (root : String) (h : ProxyHostSpec)
    (m : Option MaintenanceSpec) {r : Reference} :
    r ∈ allLinks root (proxyOnlyServer cfg h m) ↔
      r ∈ commonReferences cfg ∨ r ∈ hostReferences cfg h := by
  simp [proxyOnlyServer, links_maintenancePage, links_brandedErrors, links_serverNames,
    links_liveLog, links_proxyCrowdsec, links_proxyAcmeChallenge, links_accessControl,
    links_security, links_proxyLocation, links_advanced, directiveLinks, commonReferences,
    hostReferences, documentReference]
  tauto

private theorem links_proxyPlainServer (root : String) (h : ProxyHostSpec)
    (m : Option MaintenanceSpec) {r : Reference} :
    r ∈ allLinks root (proxyPlainServer cfg h m) ↔
      r ∈ commonReferences cfg ∨ r ∈ maintenanceReferences cfg h ∨
        h.sslForced = false ∧ r ∈ hostReferences cfg h := by
  cases forced : h.sslForced <;>
    simp [proxyPlainServer, forced, links_maintenancePage, links_brandedErrors, links_serverNames,
      links_liveLog, links_proxyCrowdsec, links_proxyAcmeChallenge, links_accessControl,
      links_security, links_proxyLocation, links_httpsRedirect, directiveLinks, commonReferences,
      hostReferences, documentReference] <;> tauto

private theorem links_proxyTlsServer (root : String) (h : ProxyHostSpec) (c : CertificateSpec)
    (m : Option MaintenanceSpec) {r : Reference} :
    r ∈ allLinks root (proxyTlsHead cfg h m ++ certMaterial c ++
        certificateDirectives "\n    " c ++ proxyTlsTail cfg h) ↔
      r ∈ commonReferences cfg ∨ r ∈ hostReferences cfg h := by
  simp [proxyTlsHead, proxyTlsTail, links_maintenancePage, links_brandedErrors, links_serverNames,
    links_liveLog, links_certMaterial, links_certificateDirectives, links_hsts,
    links_proxyCrowdsec, links_accessControl, links_security, links_proxyLocation,
    links_advanced, directiveLinks, commonReferences, hostReferences, documentReference]
  tauto

/-- A proxy host refers to the common files and to its own. -/
theorem links_proxyHostConf (root : String) (h : ProxyHostSpec) (m : Option MaintenanceSpec)
    {r : Reference} (member : r ∈ allLinks root (proxyHostConf cfg h m)) :
    r ∈ commonReferences cfg ∨ r ∈ hostReferences cfg h ∨ r = .file "0" := by
  have maintenance : r ∈ maintenanceReferences cfg h → r ∈ hostReferences cfg h :=
    fun own => List.mem_append_left _ (List.mem_append_left _ own)
  unfold proxyHostConf at member
  rw [allLinks_append, allLinks_append, List.mem_append, List.mem_append] at member
  rcases member with (header | geo) | servers
  · simp [managedHeader] at header
  · exact Or.inr (Or.inr (links_maintenanceGeo root h geo))
  · cases certificate : h.certificate with
    | none =>
      simp only [certificate, allLinks_cons, allLinks_nil, links_server, List.append_nil,
        links_proxyOnlyServer] at servers
      exact servers.imp_right Or.inl
    | some c =>
      simp only [certificate, allLinks_cons, allLinks_nil, links_server, List.append_nil,
        List.mem_append, links_proxyPlainServer, links_proxyTlsServer] at servers
      rcases servers with (common | shown | ⟨_, own⟩) | common | own
      · exact Or.inl common
      · exact Or.inr (Or.inl (maintenance shown))
      · exact Or.inr (Or.inl own)
      · exact Or.inl common
      · exact Or.inr (Or.inl own)

/-- All of its own references stand in its file, whichever servers it has. -/
theorem hostReferences_linked (root : String) (h : ProxyHostSpec) (m : Option MaintenanceSpec)
    {r : Reference} (own : r ∈ hostReferences cfg h) : r ∈ allLinks root (proxyHostConf cfg h m) := by
  unfold proxyHostConf
  rw [allLinks_append]
  apply List.mem_append_right
  cases certificate : h.certificate with
  | none =>
    simp only [allLinks_cons, allLinks_nil, links_server, List.append_nil, links_proxyOnlyServer]
    exact Or.inr own
  | some c =>
    simp only [allLinks_cons, allLinks_nil, links_server, List.append_nil, List.mem_append,
      links_proxyTlsServer]
    exact Or.inr (Or.inr own)

private theorem links_bouncerHead (root : String) {listen : List Lib.Node} (names : List String)
    (key : String) (crowdsec : Bool) (plain : allLinks root listen = []) :
    allLinks root (bouncerHead cfg listen names key crowdsec) = commonReferences cfg := by
  simp [bouncerHead, links_brandedErrors, links_serverNames, links_liveLog,
    links_bouncerCrowdsec, plain, commonReferences, documentReference]

private theorem links_listenTls (root : String) (http2 : Bool) :
    allLinks root (listenTls http2) = [] := by
  simp [listenTls, directiveLinks]

private theorem links_redirectLocation (root : String) (h : RedirectionHostSpec) :
    links root (redirectLocation h) = [] := by
  simp [redirectLocation, exactUri, directiveLinks]

private theorem links_deadLocation (root : String) : links root deadLocation = [] := by
  simp [deadLocation, exactUri, directiveLinks]

/-- The other server blocks refer to the common files only. -/
theorem links_redirectionHostConf (root : String) (h : RedirectionHostSpec) {r : Reference}
    (member : r ∈ allLinks root (redirectionHostConf cfg h)) : r ∈ commonReferences cfg := by
  unfold redirectionHostConf at member
  cases certificate : h.certificate with
  | none =>
    simpa [certificate, managedHeader, exactUri, links_bouncerHead, directiveLinks,
      links_acmeChallenge, links_security, links_redirectLocation, links_advanced] using member
  | some c =>
    cases forced : h.sslForced <;>
      simpa [certificate, forced, managedHeader, exactUri, links_bouncerHead,
        directiveLinks, links_listenTls, links_acmeChallenge, links_httpsRedirect,
        links_certificateDirectives, links_hsts, links_security, links_redirectLocation,
        links_advanced] using member

theorem links_deadHostConf (root : String) (h : DeadHostSpec) {r : Reference}
    (member : r ∈ allLinks root (deadHostConf cfg h)) : r ∈ commonReferences cfg := by
  unfold deadHostConf at member
  cases certificate : h.certificate with
  | none =>
    simpa [certificate, managedHeader, exactUri, links_bouncerHead, directiveLinks,
      links_acmeChallenge, links_deadLocation, links_advanced] using member
  | some c =>
    cases forced : h.sslForced <;>
      simpa [certificate, forced, managedHeader, exactUri, links_bouncerHead,
        directiveLinks, links_listenTls, links_acmeChallenge, links_httpsRedirect,
        links_certificateDirectives, links_hsts, links_deadLocation, links_advanced] using member

/-- The default site over TLS includes its rules by a wildcard. -/
theorem links_defaultTlsConf (root : String) (t : DefaultTlsSpec) {r : Reference}
    (member : r ∈ allLinks root (defaultTlsConf cfg t)) :
    r ∈ commonReferences cfg ∨ r = .file (cfg.nginxDefaultDir ++ "/*.conf") := by
  simp [defaultTlsConf, managedHeader, exactUri, defaultTlsHead, defaultTlsTail,
    links_brandedErrors, links_serverNames, links_liveLog, links_certMaterial,
    links_certificateDirectives, directiveLinks] at member
  simp only [commonReferences, documentReference, List.mem_cons, List.not_mem_nil, or_false] at member ⊢
  tauto

theorem links_upstreamConf (root : String) (u : UpstreamSpec) :
    allLinks root (upstreamConf u) = [] := by
  have method : ∀ root, allLinks root (lbDirective u.lbMethod) = [] := by
    intro root
    cases u.lbMethod <;> simp [lbDirective, directiveLinks]
  simp [upstreamConf, managedHeader, exactUri, method, allLinks_map, backendWords, directiveLinks]

/-- The two modes that show a document look it up in the default directory. -/
def siteReferences (site : DefaultSiteSpec) : List Reference :=
  match site.mode with
  | .congratulations | .customPage => [documentReference cfg defaultSiteHtml]
  | _ => []

private theorem links_defaultSiteRules (site : DefaultSiteSpec) :
    allLinks (rootAt "" (defaultSiteRules cfg site)) (defaultSiteRules cfg site) =
      siteReferences cfg site := by
  cases mode : site.mode <;>
    simp [defaultSiteRules, siteReferences, mode, directiveLinks, rootAt, ownRoots,
      documentReference, defaultSiteHtml, String.append_assoc]

theorem links_defaultSiteTemplate (site : DefaultSiteSpec) (bodyOnly : Bool) :
    fileLinks (defaultSiteTemplate cfg site bodyOnly) = siteReferences cfg site := by
  cases bodyOnly with
  | true =>
    have roots : rootAt "" (defaultSiteTemplate cfg site true) =
        rootAt "" (defaultSiteRules cfg site) := by
      simp [defaultSiteTemplate, managedHeader, rootAt, ownRoots]
    rw [fileLinks, roots, ← links_defaultSiteRules]
    simp [defaultSiteTemplate, managedHeader]
  | false =>
    have roots : rootAt "" (defaultSiteTemplate cfg site false) = "" := by
      simp [defaultSiteTemplate, managedHeader, rootAt, ownRoots]
    rw [fileLinks, roots, ← links_defaultSiteRules]
    simp [defaultSiteTemplate, managedHeader, exactUri]

theorem links_errorsTemplate (codes : List Int) :
    fileLinks (errorsTemplate cfg codes) = codes.flatMap fun code =>
      [.uri ("/" ++ errorHtml code), documentReference cfg (errorHtml code)] := by
  simp [fileLinks, errorsTemplate, allLinks_flatMap, directiveLinks, exactUri, rootAt, ownRoots,
    documentReference, String.append_assoc]

end Templates

end MegooPM
