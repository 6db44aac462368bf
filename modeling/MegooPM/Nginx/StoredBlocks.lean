import MegooPM.Nginx.ServerBlocks
import MegooPM.Lib.Inheritance

/-!
# The server blocks as they are stored

The templates write plain names, so reading a server block leaves its directives and its
locations where they are and stores their arguments; only the operator's own text may spell
a name in another way. No location of the templates holds another, and the one block inside
a location is the maintenance guard, which says nothing that is inherited.
-/
namespace MegooPM

open Lib Lib.Node

/-! ### Plain names -/

section Names

variable (cfg : Deployment) (site : Option DefaultSiteSpec) (src : Sources) (h : ProxyHostSpec)
  (m : Option MaintenanceSpec)

@[simp] theorem allNamed_notes (lead : String) (lines : List String) :
    AllNamed (notes lead lines) := by
  simp [notes, allNamed_map]

theorem allNamed_errorsTemplate (codes : List Int) : AllNamed (errorsTemplate cfg codes) := by
  simp only [errorsTemplate, allNamed_cons, named_comment, allNamed_flatMap, true_and]
  intro code _
  simp
  decide

theorem allNamed_brandedErrors (raw : String → List Lib.Node) :
    AllNamed (expand (serverSources cfg site raw) (brandedErrors cfg)) := by
  rw [expand_brandedErrors, allNamed_append]
  exact ⟨allNamed_notes _ _, allNamed_errorsTemplate cfg _⟩

theorem allNamed_maintenancePage : AllNamed (expand src (maintenancePage cfg h m)) := by
  cases enabled : h.maintenanceEnabled <;> simp [maintenancePage, enabled, when]
  decide

theorem allNamed_serverNames (names : List String) :
    AllNamed (expand src [serverNames names]) := by
  simp [serverNames]
  decide

theorem allNamed_listenTls (http2 : Bool) : AllNamed (expand src (listenTls http2)) := by
  cases http2 <;> simp [listenTls, when] <;> decide

theorem allNamed_liveLog (raw : String → List Lib.Node) (key : String) (bounces : Bool) :
    AllNamed (expand (serverSources cfg site raw) (liveLog key bounces)) := by
  have targets : includedFile cfg site "/etc/nginx/logging-error-targets.conf" = [] :=
    includedFile_targets cfg site
  cases bounces <;> simp [liveLog, when, serverSources, targets] <;> decide

theorem allNamed_proxyCrowdsec {raw : String → List Lib.Node} (skips : SkipsCode raw)
    (rewrite : Bool) :
    AllNamed (expand (serverSources cfg site raw) (proxyCrowdsec h rewrite)) := by
  cases enabled : h.crowdsecEnabled <;> cases rewrite <;>
    simp [proxyCrowdsec, enabled, when, expand_crowdsecServerRewrite cfg site skips] <;> decide

theorem allNamed_proxyAcmeChallenge : AllNamed (expand src (proxyAcmeChallenge cfg h)) := by
  cases listed : h.accessList.isSome <;> simp [proxyAcmeChallenge, listed, when] <;> decide

theorem allNamed_acmeChallenge : AllNamed (expand src (acmeChallenge cfg)) := by
  simp [acmeChallenge]
  decide

theorem allNamed_accessControl : AllNamed (expand src (accessControl cfg h)) := by
  unfold accessControl
  cases h.accessList with
  | none => simp
  | some a =>
    have rules : AllNamed (expand src (a.clientRules.map fun r =>
        Lib.Node.directive "\n    " [r.directive.value, r.address])) := by
      induction a.clientRules with
      | nil => simp
      | cons r rest ih =>
        have other : r.directive.value ≠ "include" := by cases r.directive <;> decide
        have plain : PlainWord r.directive.value := by cases r.directive <;> decide
        simp only [List.map_cons, expand_cons, expandNode_directive, other, if_false,
          allNamed_append, allNamed_cons, named_directive, plain, allNamed_nil, ih, and_self]
    cases users : a.authUsers.isEmpty <;> cases some_ : a.clientRules.isEmpty <;>
      simp [users, some_, when, expand_append, rules] <;> decide

theorem allNamed_security (blockExploits : Bool) :
    AllNamed (expand src (security blockExploits)) := by
  cases blockExploits <;> simp [security, when]
  decide

theorem allNamed_hsts (enabled subdomains : Bool) :
    AllNamed (expand src (hsts enabled subdomains)) := by
  cases enabled <;> simp [hsts, when]
  decide

theorem allNamed_certMaterial (c : CertificateSpec) : AllNamed (expand src (certMaterial c)) := by
  simp [certMaterial]

theorem allNamed_certificate (lead : String) (c : CertificateSpec) :
    AllNamed (expand src (certificateDirectives lead c)) := by
  simp [certificateDirectives]
  decide

theorem allNamed_httpsRedirect : AllNamed (expand src [httpsRedirect]) := by
  simp [httpsRedirect]
  decide

theorem allNamed_redirectLocation (h : RedirectionHostSpec) :
    AllNamed (expand src [redirectLocation h]) := by
  simp [redirectLocation]
  decide

theorem allNamed_deadLocation : AllNamed (expand src [deadLocation]) := by
  simp [deadLocation]
  decide

theorem allNamed_maintenanceGuard : AllNamed (expand src (maintenanceGuard h)) := by
  cases enabled : h.maintenanceEnabled <;> simp [maintenanceGuard, enabled, when]
  decide

/-- A path is the last word of its location. -/
theorem allNamed_proxyBlock {path : List String} (spaced : ∀ w ∈ path.dropLast, PlainWord w)
    (scheme : HttpScheme) (target : String) :
    AllNamed (expand src [proxyBlock h path scheme target]) := by
  have guard := allNamed_maintenanceGuard src h
  have location : PlainWord "location" := by decide
  cases sockets : h.allowWebsocketUpgrade <;>
    cases cleared : h.hasAuth && !(h.accessList.elim false (·.passAuth)) <;>
    simp [proxyBlock, sockets, cleared, when, forwardedHeaders, guard, location]
  all_goals exact ⟨spaced, by decide⟩

theorem allNamed_siteRules (site : DefaultSiteSpec) : AllNamed (defaultSiteRules cfg site) := by
  cases mode : site.mode <;> simp [defaultSiteRules, mode] <;> decide

theorem allNamed_answeredBlock (raw : String → List Lib.Node) (l : LocationSpec) :
    AllNamed (expand (serverSources cfg site raw) [answeredBlock cfg h l]) := by
  have guard := allNamed_maintenanceGuard (serverSources cfg site raw) h
  have names : PlainWord "location" ∧ PlainWord "^~" := by decide
  have rules : AllNamed ((serverSources cfg site raw).files
      (cfg.nginxDefaultDir ++ "/" ++ defaultSiteBody)) := by
    have included := includedFile_siteBody cfg site
    simp only [serverSources, included]
    cases site with
    | none => simp
    | some site => simp [defaultSiteTemplate, managedHeader, allNamed_siteRules]
  cases target : l.target <;>
    simp [answeredBlock, target, guard, names, rules] <;> decide

theorem allNamed_cachedAssets : AllNamed (expand src [cachedAssets h]) := by
  have guard := allNamed_maintenanceGuard src h
  simp [cachedAssets, forwardedHeaders, guard]
  decide

theorem allNamed_proxyLocation (raw : String → List Lib.Node) :
    AllNamed (expand (serverSources cfg site raw) (proxyLocation cfg h)) := by
  have routes : AllNamed (expand (serverSources cfg site raw)
      (h.locations.flatMap (extraRoute cfg h))) := by
    rw [expand_flatMap, allNamed_flatMap]
    intro l _
    rw [extraRoute, expand_cons, allNamed_append]
    refine ⟨by simp, ?_⟩
    have spaced : ∀ w ∈ ["^~", l.path].dropLast, PlainWord w := by
      simp
      decide
    split
    · exact allNamed_proxyBlock _ h spaced _ _
    · exact allNamed_answeredBlock cfg site h raw l
  rw [proxyLocation, expand_append, expand_append, allNamed_append, allNamed_append, expand_when]
  refine ⟨⟨allNamed_proxyBlock _ h (by decide) _ _, routes⟩, ?_⟩
  split
  · exact allNamed_cachedAssets _ h
  · exact allNamed_nil

end Names

/-! ### The server blocks, and the operator's text behind them -/

/-- The host without the operator's text. -/
def ProxyHostSpec.bare (h : ProxyHostSpec) : ProxyHostSpec :=
  { h with advancedConfig := "" }

section Servers

variable (cfg : Deployment) (site : Option DefaultSiteSpec) (h : ProxyHostSpec)
  (m : Option MaintenanceSpec)

/-- The block on port 443. -/
def proxyTlsServer (c : CertificateSpec) : List Lib.Node :=
  proxyTlsHead cfg h m ++ certMaterial c ++ certificateDirectives "\n    " c ++ proxyTlsTail cfg h

theorem expand_proxyTlsServer (src : Sources) (c : CertificateSpec) :
    expand src (proxyTlsServer cfg h m c) =
      expand src (proxyTlsServer cfg h.bare m c) ++ operatorNodes src h.advancedConfig := by
  have none_ : advanced h.bare.advancedConfig = [] := rfl
  simp only [proxyTlsServer, proxyTlsTail, expand_append, operatorNodes, none_, List.append_nil,
    List.append_assoc]
  rfl

theorem expand_proxyOnlyServer (src : Sources) :
    expand src (proxyOnlyServer cfg h m) =
      expand src (proxyOnlyServer cfg h.bare m) ++ operatorNodes src h.advancedConfig := by
  have none_ : advanced h.bare.advancedConfig = [] := rfl
  simp only [proxyOnlyServer, expand_append, operatorNodes, none_, List.append_nil,
    List.append_assoc]
  rfl

variable {raw : String → List Lib.Node} (skips : SkipsCode raw)

include skips

theorem allNamed_proxyPlainServer :
    AllNamed (expand (serverSources cfg site raw) (proxyPlainServer cfg h m)) := by
  have listen : AllNamed (expand (serverSources cfg site raw)
      [.directive "\n    " ["listen", "80"], serverNames h.domainNames]) := by
    simp [serverNames]
    decide
  simp only [proxyPlainServer, expand_append, allNamed_append, allNamed_maintenancePage,
    allNamed_brandedErrors, listen, allNamed_liveLog, allNamed_proxyCrowdsec cfg site h skips,
    allNamed_proxyAcmeChallenge, true_and]
  split
  · exact allNamed_httpsRedirect _
  · simp only [expand_append, allNamed_append, allNamed_accessControl, allNamed_security,
      allNamed_proxyLocation, and_self]

theorem allNamed_proxyTlsServer (c : CertificateSpec) :
    AllNamed (expand (serverSources cfg site raw) (proxyTlsServer cfg h.bare m c)) := by
  have listen : AllNamed (expand (serverSources cfg site raw)
      [.directive "\n    " ["listen", "443", "ssl"]]) := by
    simp
    decide
  have http2 : AllNamed (expand (serverSources cfg site raw)
      (when h.bare.http2Support [.directive "\n    " ["http2", "on"]])) := by
    cases h.bare.http2Support <;> simp [when]
    decide
  have none_ : advanced h.bare.advancedConfig = [] := rfl
  simp only [proxyTlsServer, proxyTlsHead, proxyTlsTail, expand_append, allNamed_append,
    allNamed_maintenancePage, allNamed_brandedErrors, listen, http2, allNamed_serverNames,
    allNamed_liveLog, allNamed_certMaterial, allNamed_certificate, allNamed_hsts,
    allNamed_proxyCrowdsec cfg site _ skips, allNamed_accessControl, allNamed_security,
    allNamed_proxyLocation, none_, expand_nil, allNamed_nil, and_self]

theorem allNamed_proxyOnlyServer :
    AllNamed (expand (serverSources cfg site raw) (proxyOnlyServer cfg h.bare m)) := by
  have listen : AllNamed (expand (serverSources cfg site raw)
      [.directive "\n    " ["listen", "80"], serverNames h.bare.domainNames]) := by
    simp [serverNames]
    decide
  have none_ : advanced h.bare.advancedConfig = [] := rfl
  simp only [proxyOnlyServer, expand_append, allNamed_append, allNamed_maintenancePage,
    allNamed_brandedErrors, listen, allNamed_liveLog, allNamed_proxyCrowdsec cfg site _ skips,
    allNamed_proxyAcmeChallenge, allNamed_accessControl, allNamed_security,
    allNamed_proxyLocation, none_, expand_nil, allNamed_nil, and_self]

theorem allNamed_bouncerHead {listen : List Lib.Node}
    (named : AllNamed (expand (serverSources cfg site raw) listen)) (names : List String)
    (key : String) (crowdsec : Bool) :
    AllNamed (expand (serverSources cfg site raw)
      (bouncerHead cfg listen names key crowdsec)) := by
  have bouncer : AllNamed (expand (serverSources cfg site raw)
      (bouncerCrowdsec crowdsec key)) := by
    cases crowdsec <;>
      simp [bouncerCrowdsec, when, expand_crowdsecServerRewrite cfg site skips]
  simp only [bouncerHead, expand_append, allNamed_append, allNamed_brandedErrors, named,
    allNamed_serverNames, allNamed_liveLog, bouncer, and_self]

end Servers

/-! ### The locations of the templates hold no other -/

/-- The directives that decide about a location. -/
def decisive : List String :=
  ["proxy_pass", "auth_basic", "proxy_set_header", "add_header"]

section Steady

variable (cfg : Deployment) (site : Option DefaultSiteSpec) (src : Sources) (h : ProxyHostSpec)
  (m : Option MaintenanceSpec)

theorem steady_errorLocation (code : Int) : (errorLocation cfg src code).stored.Steady decisive := by
  refine Location.steady_of_none fun level => ?_
  simp [Location.stored, errorLocation, inside, errorsTemplate]

theorem steady_maintenanceLocation :
    (maintenanceLocation cfg src h m).stored.Steady decisive := by
  refine Location.steady_of_none fun level => ?_
  cases enabled : h.maintenanceEnabled <;>
    simp [Location.stored, maintenanceLocation, inside, maintenancePage, enabled, when, notes]

theorem steady_challengeLocation : (challengeLocation cfg src h).stored.Steady decisive := by
  refine Location.steady_of_none fun level => ?_
  cases listed : h.accessList.isSome <;>
    simp [Location.stored, challengeLocation, inside, proxyAcmeChallenge, listed, when, notes]

theorem steady_redirectingLocation : (redirectingLocation src).stored.Steady decisive := by
  refine Location.steady_of_none fun level => ?_
  simp [Location.stored, redirectingLocation, inside, httpsRedirect]

/-- What the guard returns is nothing that is inherited. -/
private theorem silent_guard {name : String} (known : name ∈ decisive) :
    own name [.directive " " (["return", "503"].map readWord)] = [] := by
  have kept : readWord "return" = "return" := readWord_plain (by decide)
  have other : "return" ≠ name := by
    rintro rfl
    revert known
    decide
  rw [List.map_cons, kept, own_directive, if_neg other, own_nil]

/-- A location whose only block is the guard. -/
private theorem steady_guarded {l : Location} {rest : List Lib.Node}
    (held : l.body = expand src (maintenanceGuard h) ++ rest)
    (flat : ∀ level, openedAll level (storeAll rest) = []) : l.stored.Steady decisive := by
  have word : readWord "if" = "if" := readWord_plain (by decide)
  cases enabled : h.maintenanceEnabled with
  | false =>
    refine Location.steady_of_none fun level => ?_
    simp [Location.stored, held, maintenanceGuard, enabled, when, flat]
  | true =>
    refine Location.steady_of_one (fun level => ?_) (fun name => silent_guard)
    simp [Location.stored, held, maintenanceGuard, enabled, when, flat, word, notes]

private theorem steady_proxyBlock {l : Location} {path : List String} {scheme : HttpScheme}
    {target : String} (held : l.body = inside src [proxyBlock h path scheme target]) :
    l.stored.Steady decisive := by
  simp only [inside, proxyBlock, List.flatMap_cons, List.flatMap_nil, body_block, List.append_nil,
    List.append_assoc, expand_append src (maintenanceGuard h)] at held
  refine steady_guarded src h held fun level => ?_
  cases sockets : h.allowWebsocketUpgrade <;>
    cases cleared : h.hasAuth && !(h.accessList.elim false (·.passAuth)) <;>
    simp [when, forwardedHeaders]

theorem steady_rootLocation : (rootLocation src h).stored.Steady decisive :=
  steady_proxyBlock src h rfl

theorem steady_extraLocation (raw : String → List Lib.Node) (l : LocationSpec) :
    (extraLocation cfg (serverSources cfg site raw) h l).stored.Steady decisive := by
  cases proxies : l.target.proxies with
  | true =>
    have held : (extraLocation cfg (serverSources cfg site raw) h l).body =
        inside (serverSources cfg site raw) [proxyBlock h ["^~", l.path] l.forwardScheme
          (((locationTargets h)[l.path]?).getD "")] := by
      simp only [extraLocation, extraRoute, proxies, if_true, inside, List.flatMap_cons,
        body_comment, List.nil_append]
    exact steady_proxyBlock _ h held
  | false =>
    have held : (extraLocation cfg (serverSources cfg site raw) h l).body =
        inside (serverSources cfg site raw) [answeredBlock cfg h l] := by
      simp only [extraLocation, extraRoute, proxies, Bool.false_eq_true, if_false, inside,
        List.flatMap_cons, body_comment, List.nil_append]
    simp only [inside, answeredBlock, List.flatMap_cons, List.flatMap_nil, body_block,
      List.append_nil, expand_append _ (maintenanceGuard h)] at held
    refine steady_guarded _ h held fun level => ?_
    have rules : ∀ site : DefaultSiteSpec,
        openedAll level (storeAll (defaultSiteRules cfg site)) = [] := by
      intro site
      cases mode : site.mode <;> simp [defaultSiteRules, mode, notes]
    have included := includedFile_siteBody cfg site
    cases target : l.target <;> cases site <;>
      simp [notes, serverSources, included, defaultSiteTemplate, managedHeader, rules]

theorem steady_assetLocation : (assetLocation src h).stored.Steady decisive := by
  have held : (assetLocation src h).body = inside src [cachedAssets h] := rfl
  simp only [inside, cachedAssets, List.flatMap_cons, List.flatMap_nil, body_block, List.append_nil,
    List.append_assoc, expand_append src (maintenanceGuard h)] at held
  refine steady_guarded src h held fun level => ?_
  simp [forwardedHeaders, notes]

/-- No location of a proxy host's blocks holds another, as far as the templates go. -/
theorem steady_documents {l : Location} (member : l ∈ documentLocations cfg src h m) :
    l.stored.Steady decisive := by
  rcases List.mem_append.mp member with page | error
  · rw [maintenanceLocations] at page
    split at page
    · rw [List.mem_singleton.mp page]
      exact steady_maintenanceLocation cfg src h m
    · cases page
  · obtain ⟨code, _, rfl⟩ := List.mem_map.mp error
    exact steady_errorLocation cfg src code

theorem steady_routes {raw : String → List Lib.Node} {l : Location}
    (member : l ∈ routeLocations cfg (serverSources cfg site raw) h) :
    l.stored.Steady decisive := by
  rw [routeLocations] at member
  rcases List.mem_append.mp member with route | asset
  · rcases List.mem_cons.mp route with rfl | extra
    · exact steady_rootLocation _ h
    · obtain ⟨spec, _, rfl⟩ := List.mem_map.mp extra
      exact steady_extraLocation cfg site h raw spec
  · split at asset
    · rw [List.mem_singleton.mp asset]
      exact steady_assetLocation _ h
    · cases asset

end Steady

end MegooPM
