import MegooPM.Nginx.RenderedFiles

/-!
# What the templates say

Two directives matter beyond their own file: `proxy_pass`, which may name a pool, and
`ssl_certificate`, which names a file. Most pieces of the templates hold neither; for
each template, which of them its server blocks hold, and which pools it defines.
-/
namespace MegooPM

open Lib Lib.Node

/-- The directives that refer to something outside their file. -/
def Refers (name : String) : Prop :=
  name = "proxy_pass" ∨ name = "ssl_certificate"

/-! ### Pieces without a reference -/

section Pieces

variable {name : String}

theorem allDirectives_when (c : Bool) (nodes : List Lib.Node) :
    allDirectives name (when c nodes) = if c then allDirectives name nodes else [] := by
  cases c <;> simp [when]

@[simp] theorem allDirectives_notes (lead : String) (lines : List String) :
    allDirectives name (notes lead lines) = [] := by
  simp [notes, allDirectives_map]

theorem allDirectives_liveLog (refers : Refers name) (key : String) (bounces : Bool) :
    allDirectives name (liveLog key bounces) = [] := by
  rcases refers with rfl | rfl <;>
    simp [liveLog, allDirectives_when]

theorem allDirectives_brandedErrors (refers : Refers name) (cfg : Deployment) :
    allDirectives name (brandedErrors cfg) = [] := by
  rcases refers with rfl | rfl <;> simp [brandedErrors]

theorem allDirectives_security (refers : Refers name) (blockExploits : Bool) :
    allDirectives name (security blockExploits) = [] := by
  rcases refers with rfl | rfl <;> simp [security, allDirectives_when]

theorem allDirectives_hsts (refers : Refers name) (enabled subdomains : Bool) :
    allDirectives name (hsts enabled subdomains) = [] := by
  rcases refers with rfl | rfl <;> simp [hsts, allDirectives_when]

theorem allDirectives_acmeChallenge (refers : Refers name) (cfg : Deployment) :
    allDirectives name (acmeChallenge cfg) = [] := by
  rcases refers with rfl | rfl <;> simp [acmeChallenge]

theorem directives_httpsRedirect (refers : Refers name) : directives name httpsRedirect = [] := by
  rcases refers with rfl | rfl <;> simp [httpsRedirect]

@[simp] theorem allDirectives_advanced (text : String) : allDirectives name (advanced text) = [] := by
  simp [advanced, allDirectives_when]

@[simp] theorem allDirectives_certMaterial (c : CertificateSpec) :
    allDirectives name (certMaterial c) = [] := by
  simp [certMaterial]

theorem directives_serverNames (refers : Refers name) (names : List String) :
    directives name (serverNames names) = [] := by
  rcases refers with rfl | rfl <;> simp [serverNames]

@[simp] theorem allDirectives_crowdsecServerRewrite (key : String) :
    allDirectives name (crowdsecServerRewrite key) = [] := by
  simp [crowdsecServerRewrite]

theorem allDirectives_maintenanceGuard (refers : Refers name) (h : ProxyHostSpec) :
    allDirectives name (maintenanceGuard h) = [] := by
  rcases refers with rfl | rfl <;>
    simp [maintenanceGuard, allDirectives_when]

theorem allDirectives_forwardedHeaders (refers : Refers name) :
    allDirectives name forwardedHeaders = [] := by
  rcases refers with rfl | rfl <;> simp [forwardedHeaders]

theorem allDirectives_proxyCrowdsec (refers : Refers name) (h : ProxyHostSpec) (rewrite : Bool) :
    allDirectives name (proxyCrowdsec h rewrite) = [] := by
  rcases refers with rfl | rfl <;> cases rewrite <;>
    simp [proxyCrowdsec, allDirectives_when]

theorem allDirectives_accessControl (refers : Refers name) (cfg : Deployment) (h : ProxyHostSpec) :
    allDirectives name (accessControl cfg h) = [] := by
  unfold accessControl
  cases h.accessList with
  | none => simp
  | some a =>
    have rule : ∀ d : AccessListDirective, d.value ≠ name := by
      intro d
      rcases refers with rfl | rfl <;> cases d <;> decide
    rcases refers with rfl | rfl <;>
      simp [allDirectives_when, allDirectives_map, rule]

theorem allDirectives_maintenancePage (refers : Refers name) (cfg : Deployment)
    (h : ProxyHostSpec) (m : Option MaintenanceSpec) :
    allDirectives name (maintenancePage cfg h m) = [] := by
  rcases refers with rfl | rfl <;>
    simp [maintenancePage, allDirectives_when]

theorem allDirectives_proxyAcmeChallenge (refers : Refers name) (cfg : Deployment)
    (h : ProxyHostSpec) : allDirectives name (proxyAcmeChallenge cfg h) = [] := by
  rcases refers with rfl | rfl <;>
    simp [proxyAcmeChallenge, allDirectives_when]

theorem allDirectives_listenTls (refers : Refers name) (http2 : Bool) :
    allDirectives name (listenTls http2) = [] := by
  rcases refers with rfl | rfl <;>
    simp [listenTls, allDirectives_when]

theorem allDirectives_bouncerHead (refers : Refers name) (cfg : Deployment) (listen : List Lib.Node)
    (names : List String) (key : String) (crowdsec : Bool) :
    allDirectives name (bouncerHead cfg listen names key crowdsec) =
      allDirectives name listen := by
  simp [bouncerHead, bouncerCrowdsec, allDirectives_brandedErrors refers,
    allDirectives_liveLog refers, allDirectives_when, directives_serverNames refers]

@[simp] theorem proxyPass_certificateDirectives (lead : String) (c : CertificateSpec) :
    allDirectives "proxy_pass" (certificateDirectives lead c) = [] := by
  simp [certificateDirectives]

@[simp] theorem sslCertificate_certificateDirectives (lead : String) (c : CertificateSpec) :
    allDirectives "ssl_certificate" (certificateDirectives lead c) = [[c.fullchainPath]] := by
  simp [certificateDirectives]

/-! ### Routes of a proxy host -/

/-- What the `proxy_pass` of a route says. -/
def passTo (scheme : HttpScheme) (target : String) : List String :=
  [scheme.value ++ "://" ++ target]

/-- The target of a location as the template looks it up. -/
def routeTarget (h : ProxyHostSpec) (l : LocationSpec) : String :=
  ((locationTargets h)[l.path]?).getD ""

theorem directives_proxyBlock (refers : Refers name) (h : ProxyHostSpec) (path : List String)
    (scheme : HttpScheme) (target : String) :
    directives name (proxyBlock h path scheme target) =
      if name = "proxy_pass" then [passTo scheme target] else [] := by
  rcases refers with rfl | rfl
  · simp [proxyBlock, allDirectives_when, passTo,
      allDirectives_maintenanceGuard (Or.inl rfl), allDirectives_forwardedHeaders (Or.inl rfl)]
  · simp [proxyBlock, allDirectives_when,
      allDirectives_maintenanceGuard (Or.inr rfl), allDirectives_forwardedHeaders (Or.inr rfl)]

theorem directives_answeredBlock (refers : Refers name) (cfg : Deployment) (h : ProxyHostSpec)
    (l : LocationSpec) : directives name (answeredBlock cfg h l) = [] := by
  cases target : l.target <;> rcases refers with rfl | rfl <;>
    simp [answeredBlock, target, allDirectives_maintenanceGuard (Or.inl rfl),
      allDirectives_maintenanceGuard (Or.inr rfl)]

theorem allDirectives_extraRoute (refers : Refers name) (cfg : Deployment) (h : ProxyHostSpec)
    (l : LocationSpec) : allDirectives name (extraRoute cfg h l) =
      if name = "proxy_pass" ∧ l.target.proxies = true then
        [passTo l.forwardScheme (routeTarget h l)] else [] := by
  simp only [extraRoute, allDirectives, directives, List.nil_append, List.append_nil]
  cases proxies : l.target.proxies with
  | false => simp [directives_answeredBlock refers]
  | true => simp [directives_proxyBlock refers, routeTarget]

theorem directives_cachedAssets (refers : Refers name) (h : ProxyHostSpec) :
    directives name (cachedAssets h) =
      if name = "proxy_pass" then [passTo h.forwardScheme (hostTarget h)] else [] := by
  rcases refers with rfl | rfl
  · simp [cachedAssets, passTo,
      allDirectives_maintenanceGuard (Or.inl rfl), allDirectives_forwardedHeaders (Or.inl rfl)]
  · simp [cachedAssets, allDirectives_maintenanceGuard (Or.inr rfl),
      allDirectives_forwardedHeaders (Or.inr rfl)]

/-- The routes of a host pass to its own target and to those of its proxying locations. -/
theorem mem_proxyLocation (cfg : Deployment) (h : ProxyHostSpec) {args : List String} :
    args ∈ allDirectives "proxy_pass" (proxyLocation cfg h) ↔
      args = passTo h.forwardScheme (hostTarget h) ∨
      ∃ l ∈ h.locations, l.target.proxies = true ∧ args = passTo l.forwardScheme (routeTarget h l) := by
  simp only [proxyLocation, allDirectives_append, allDirectives, allDirectives_flatMap,
    directives_proxyBlock (Or.inl rfl), allDirectives_extraRoute (Or.inl rfl),
    allDirectives_when, directives_cachedAssets (Or.inl rfl), if_true, true_and, List.append_nil,
    List.mem_append, List.mem_flatMap, List.mem_singleton]
  constructor
  · rintro ((own | ⟨l, member, routed⟩) | cached)
    · exact Or.inl own
    · split at routed
      next proxies => exact Or.inr ⟨l, member, proxies, List.mem_singleton.mp routed⟩
      next => cases routed
    · split at cached
      next => exact Or.inl (List.mem_singleton.mp cached)
      next => cases cached
  · rintro (own | ⟨l, member, proxies, same⟩)
    · exact Or.inl (Or.inl own)
    · refine Or.inl (Or.inr ⟨l, member, ?_⟩)
      rw [if_pos proxies]
      exact List.mem_singleton.mpr same

theorem sslCertificate_proxyLocation (cfg : Deployment) (h : ProxyHostSpec) :
    allDirectives "ssl_certificate" (proxyLocation cfg h) = [] := by
  simp [proxyLocation, allDirectives_flatMap, allDirectives_when,
    directives_proxyBlock (Or.inr rfl), allDirectives_extraRoute (Or.inr rfl),
    directives_cachedAssets (Or.inr rfl)]

end Pieces

/-! ### Whole templates -/

private theorem blocks_maintenanceGeo {name : String} (other : name ≠ "geo") (h : ProxyHostSpec) :
    Lib.Node.blocks name (maintenanceGeo h) = [] := by
  unfold maintenanceGeo
  cases h.maintenanceEnabled <;> simp [when, Ne.symm other]

theorem serverBlocks_proxyHost (cfg : Deployment) (h : ProxyHostSpec)
    (m : Option MaintenanceSpec) :
    Lib.Node.blocks "server" (proxyHostConf cfg h m) = match h.certificate with
      | some c => [([], proxyPlainServer cfg h m), ([], proxyTlsHead cfg h m ++ certMaterial c ++
          certificateDirectives "\n    " c ++ proxyTlsTail cfg h)]
      | none => [([], proxyOnlyServer cfg h m)] := by
  unfold proxyHostConf
  cases h.certificate <;>
    simp [managedHeader, blocks_maintenanceGeo (show "server" ≠ "geo" by decide)]

section Servers

variable {name : String} (refers : Refers name) (cfg : Deployment) (h : ProxyHostSpec)
  (m : Option MaintenanceSpec)

include refers

private theorem directives_listen (lead : String) (args : List String) :
    directives name (.directive lead ("listen" :: args)) = [] := by
  rcases refers with rfl | rfl <;> simp

private theorem directives_http2 (lead : String) (args : List String) :
    directives name (.directive lead ("http2" :: args)) = [] := by
  rcases refers with rfl | rfl <;> simp

private theorem allDirectives_proxyOnlyServer :
    allDirectives name (proxyOnlyServer cfg h m) = allDirectives name (proxyLocation cfg h) := by
  simp [proxyOnlyServer, allDirectives_maintenancePage refers, allDirectives_brandedErrors refers,
    directives_listen refers, directives_serverNames refers,
    allDirectives_liveLog refers, allDirectives_proxyCrowdsec refers,
    allDirectives_proxyAcmeChallenge refers, allDirectives_accessControl refers,
    allDirectives_security refers]

private theorem allDirectives_proxyPlainServer :
    allDirectives name (proxyPlainServer cfg h m) =
      if h.sslForced then [] else allDirectives name (proxyLocation cfg h) := by
  cases forced : h.sslForced <;>
    simp [proxyPlainServer, forced, allDirectives_maintenancePage refers,
      allDirectives_brandedErrors refers, directives_listen refers, directives_serverNames refers,
      allDirectives_liveLog refers,
      allDirectives_proxyCrowdsec refers, allDirectives_proxyAcmeChallenge refers,
      allDirectives_accessControl refers, allDirectives_security refers,
      directives_httpsRedirect refers]

private theorem allDirectives_proxyTlsHead : allDirectives name (proxyTlsHead cfg h m) = [] := by
  simp [proxyTlsHead, allDirectives_maintenancePage refers, allDirectives_brandedErrors refers,
    directives_listen refers, directives_http2 refers, allDirectives_when, directives_serverNames refers,
    allDirectives_liveLog refers]

private theorem allDirectives_proxyTlsTail :
    allDirectives name (proxyTlsTail cfg h) = allDirectives name (proxyLocation cfg h) := by
  simp [proxyTlsTail, allDirectives_hsts refers, allDirectives_proxyCrowdsec refers,
    allDirectives_accessControl refers, allDirectives_security refers]

end Servers

/-- A proxy host passes to its own target and to those of its proxying locations. -/
theorem mem_proxyPass_proxyHost (cfg : Deployment) (h : ProxyHostSpec) (m : Option MaintenanceSpec)
    {args : List String} : args ∈ serverDirectives "proxy_pass" (proxyHostConf cfg h m) ↔
      args = passTo h.forwardScheme (hostTarget h) ∨
      ∃ l ∈ h.locations, l.target.proxies = true ∧ args = passTo l.forwardScheme (routeTarget h l) := by
  have refers : Refers "proxy_pass" := Or.inl rfl
  rw [← mem_proxyLocation cfg h, serverDirectives, serverBlocks_proxyHost]
  cases h.certificate with
  | none => simp [allDirectives_proxyOnlyServer refers]
  | some c =>
    cases forced : h.sslForced <;>
      simp [allDirectives_proxyPlainServer refers, forced, allDirectives_proxyTlsHead refers,
        allDirectives_proxyTlsTail refers]

/-- The certificate a server block was given, as its `ssl_certificate` names it. -/
def certificatePaths (c : Option CertificateSpec) : List (List String) :=
  c.toList.map fun c => [c.fullchainPath]

/-- A proxy host names the certificate it has. -/
theorem sslCertificate_proxyHost (cfg : Deployment) (h : ProxyHostSpec)
    (m : Option MaintenanceSpec) : serverDirectives "ssl_certificate" (proxyHostConf cfg h m) =
      certificatePaths h.certificate := by
  have refers : Refers "ssl_certificate" := Or.inr rfl
  rw [serverDirectives, serverBlocks_proxyHost]
  cases h.certificate with
  | none =>
    simp [allDirectives_proxyOnlyServer refers, sslCertificate_proxyLocation, certificatePaths]
  | some c =>
    cases forced : h.sslForced <;>
      simp [allDirectives_proxyPlainServer refers, forced, allDirectives_proxyTlsHead refers,
        allDirectives_proxyTlsTail refers, sslCertificate_proxyLocation, certificatePaths]

theorem proxyPass_redirectionHost (cfg : Deployment) (h : RedirectionHostSpec) :
    serverDirectives "proxy_pass" (redirectionHostConf cfg h) = [] := by
  have refers : Refers "proxy_pass" := Or.inl rfl
  unfold redirectionHostConf serverDirectives
  cases h.certificate <;> cases forced : h.sslForced <;>
    simp [managedHeader, allDirectives_bouncerHead refers, allDirectives_listenTls refers,
      allDirectives_acmeChallenge refers, directives_httpsRedirect refers,
      allDirectives_security refers, allDirectives_hsts refers, redirectLocation]

theorem sslCertificate_redirectionHost (cfg : Deployment) (h : RedirectionHostSpec) :
    serverDirectives "ssl_certificate" (redirectionHostConf cfg h) =
      certificatePaths h.certificate := by
  have refers : Refers "ssl_certificate" := Or.inr rfl
  unfold redirectionHostConf serverDirectives
  cases h.certificate <;> cases forced : h.sslForced <;>
    simp [managedHeader, allDirectives_bouncerHead refers, allDirectives_listenTls refers,
      allDirectives_acmeChallenge refers, directives_httpsRedirect refers,
      allDirectives_security refers, allDirectives_hsts refers, redirectLocation, certificatePaths]

theorem proxyPass_deadHost (cfg : Deployment) (h : DeadHostSpec) :
    serverDirectives "proxy_pass" (deadHostConf cfg h) = [] := by
  have refers : Refers "proxy_pass" := Or.inl rfl
  unfold deadHostConf serverDirectives
  cases h.certificate <;> cases forced : h.sslForced <;>
    simp [managedHeader, allDirectives_bouncerHead refers, allDirectives_listenTls refers,
      allDirectives_acmeChallenge refers, directives_httpsRedirect refers,
      allDirectives_hsts refers, deadLocation]

theorem sslCertificate_deadHost (cfg : Deployment) (h : DeadHostSpec) :
    serverDirectives "ssl_certificate" (deadHostConf cfg h) = certificatePaths h.certificate := by
  have refers : Refers "ssl_certificate" := Or.inr rfl
  unfold deadHostConf serverDirectives
  cases h.certificate <;> cases forced : h.sslForced <;>
    simp [managedHeader, allDirectives_bouncerHead refers, allDirectives_listenTls refers,
      allDirectives_acmeChallenge refers, directives_httpsRedirect refers,
      allDirectives_hsts refers, deadLocation, certificatePaths]

theorem proxyPass_defaultTls (cfg : Deployment) (t : DefaultTlsSpec) :
    serverDirectives "proxy_pass" (defaultTlsConf cfg t) = [] := by
  have refers : Refers "proxy_pass" := Or.inl rfl
  simp [defaultTlsConf, serverDirectives, managedHeader, defaultTlsHead, defaultTlsTail,
    allDirectives_brandedErrors refers, allDirectives_liveLog refers,
    directives_serverNames refers]

theorem sslCertificate_defaultTls (cfg : Deployment) (t : DefaultTlsSpec) :
    serverDirectives "ssl_certificate" (defaultTlsConf cfg t) =
      certificatePaths (some t.certificate) := by
  have refers : Refers "ssl_certificate" := Or.inr rfl
  simp [defaultTlsConf, serverDirectives, managedHeader, defaultTlsHead, defaultTlsTail,
    allDirectives_brandedErrors refers, allDirectives_liveLog refers,
    directives_serverNames refers, certificatePaths]

/-- Where a stream passes to; an id of `0` does not name a pool. -/
def streamTarget (s : StreamSpec) : String :=
  match streamPool s with
  | some i => poolName i
  | none => optionText s.forwardHost ++ ":" ++ optionText s.forwardPort

theorem proxyPass_stream (s : StreamSpec) :
    serverDirectives "proxy_pass" (streamConf s) = [[streamTarget s]] := by
  unfold streamTarget
  cases pool : streamPool s <;> cases cert : s.certificate <;> cases tcp : s.tcpForwarding <;>
    cases udp : s.udpForwarding <;>
    simp [streamConf, serverDirectives, managedHeader, liveStreamLog,
      allDirectives_when, pool, cert, tcp, udp]

theorem sslCertificate_stream (s : StreamSpec) :
    serverDirectives "ssl_certificate" (streamConf s) = certificatePaths s.certificate := by
  cases cert : s.certificate <;> cases tcp : s.tcpForwarding <;> cases udp : s.udpForwarding <;>
    simp [streamConf, serverDirectives, managedHeader, liveStreamLog,
      allDirectives_when, cert, tcp, udp, certificatePaths]

/-- A pool file has no server block. -/
@[simp] theorem serverDirectives_upstream (name : String) (u : UpstreamSpec) :
    serverDirectives name (upstreamConf u) = [] := by
  simp [serverDirectives, upstreamConf, managedHeader]

/-! ### Defined pools -/

/-- The items of the `upstream` block of a pool. -/
def poolBody (u : UpstreamSpec) : List Lib.Node :=
  lbDirective u.lbMethod ++ u.backends.map fun b => .directive "\n    " (backendWords b)

@[simp] theorem upstreamBlocks_upstream (u : UpstreamSpec) :
    Lib.Node.blocks "upstream" (upstreamConf u) = [([poolName u.id], poolBody u)] := by
  simp [upstreamConf, managedHeader, poolBody]

theorem upstreamBlocks_proxyHost (cfg : Deployment) (h : ProxyHostSpec)
    (m : Option MaintenanceSpec) : Lib.Node.blocks "upstream" (proxyHostConf cfg h m) = [] := by
  unfold proxyHostConf
  cases h.certificate <;>
    simp [managedHeader, blocks_maintenanceGeo (show "upstream" ≠ "geo" by decide)]

theorem upstreamBlocks_redirectionHost (cfg : Deployment) (h : RedirectionHostSpec) :
    Lib.Node.blocks "upstream" (redirectionHostConf cfg h) = [] := by
  unfold redirectionHostConf
  cases h.certificate <;> simp [managedHeader]

theorem upstreamBlocks_deadHost (cfg : Deployment) (h : DeadHostSpec) :
    Lib.Node.blocks "upstream" (deadHostConf cfg h) = [] := by
  unfold deadHostConf
  cases h.certificate <;> simp [managedHeader]

theorem upstreamBlocks_defaultTls (cfg : Deployment) (t : DefaultTlsSpec) :
    Lib.Node.blocks "upstream" (defaultTlsConf cfg t) = [] := by
  simp [defaultTlsConf, managedHeader]

theorem upstreamBlocks_stream (s : StreamSpec) : Lib.Node.blocks "upstream" (streamConf s) = [] := by
  simp [streamConf, managedHeader]

theorem poolName_injective {i j : Id} (same : poolName i = poolName j) : i = j := by
  have texts := congrArg String.toList same
  rw [poolName_eq, poolName_eq, String.toList_append, String.toList_append] at texts
  exact toString_id_injective (String.toList_inj.mp (List.append_cancel_left texts))

/-- Among files whose pools are those of `upstreams`, each is defined once. -/
theorem count_upstream {pairs : List (String × FileBody)} (functional : Functional pairs)
    {upstreams : List UpstreamSpec} (unique : UniqueIds UpstreamSpec.id upstreams)
    (files : ∀ u ∈ upstreams, renderUpstream u ∈ pairs)
    (only : ∀ file ∈ pairs, Lib.Node.blocks "upstream" file.2.tree ≠ [] →
      ∃ u ∈ upstreams, file = renderUpstream u) {u : UpstreamSpec} (member : u ∈ upstreams) :
    ((Bodies.blocks "upstream" (Dict.ofPairs pairs)).map (·.1)).count [poolName u.id] = 1 := by
  rw [Bodies.blocks, List.map_flatMap]
  refine count_flatMap_eq_one (Dict.nodup_toList _)
    ((mem_toList_ofPairs functional _).mpr (files u member)) ?_ ?_
  · simp [renderUpstream, FileBody.tree]
  · intro file inside named
    have known := (mem_toList_ofPairs functional file).mp inside
    obtain ⟨block, here, same⟩ := List.mem_map.mp named
    obtain ⟨v, pool, rfl⟩ := only file known (List.ne_nil_of_mem here)
    simp only [renderUpstream, FileBody.tree, upstreamBlocks_upstream, List.mem_singleton] at here
    rw [here] at same
    have equal := poolName_injective (List.head_eq_of_cons_eq same)
    rw [unique v pool u member equal]

/-! ### The files of a directory, object by object -/

/-- What conf.d is made of. -/
theorem mem_configPairs {cfg : Deployment} {state : DesiredState} {file : String × FileBody} :
    file ∈ configPairs cfg state ↔
      (∃ u ∈ state.httpUpstreams, renderUpstream u = file) ∨
      (∃ h ∈ state.proxyHosts, file ∈ renderProxyHost cfg state.maintenance h) ∨
      (∃ r ∈ state.redirectionHosts,
        (redirectFilename r.id, .conf (redirectionHostConf cfg r)) = file) ∨
      (∃ d ∈ state.deadHosts, (deadFilename d.id, .conf (deadHostConf cfg d)) = file) ∨
      ∃ t ∈ state.defaultTls,
        (defaultTlsFilename t.certificate.id, .conf (defaultTlsConf cfg t)) = file := by
  simp only [configPairs, List.mem_append, List.mem_map, List.mem_flatMap, or_assoc]

section Directory

variable {cfg : Deployment} {state : DesiredState} (distinct : DistinctSpecs state)
  {args : List String}

include distinct

/-- Only proxy hosts pass anything on. -/
theorem mem_proxyPass_config : args ∈ (configBodies cfg state).directives "proxy_pass" ↔
    ∃ h ∈ state.proxyHosts, args = passTo h.forwardScheme (hostTarget h) ∨
      ∃ l ∈ h.locations, l.target.proxies = true ∧ args = passTo l.forwardScheme (routeTarget h l) := by
  rw [configBodies, mem_directives (functional_configPairs cfg distinct)]
  constructor
  · rintro ⟨file, member, inside⟩
    rcases mem_configPairs.mp member with ⟨u, _, rfl⟩ | ⟨h, host, member⟩ | ⟨r, _, rfl⟩ |
      ⟨d, _, rfl⟩ | ⟨t, _, rfl⟩
    · simp [renderUpstream, FileBody.tree] at inside
    · rcases mem_renderProxyHost.mp member with rfl | ⟨a, _, _, rfl⟩
      · exact ⟨h, host, (mem_proxyPass_proxyHost cfg h state.maintenance).mp inside⟩
      · cases inside
    · simp [FileBody.tree, proxyPass_redirectionHost] at inside
    · simp [FileBody.tree, proxyPass_deadHost] at inside
    · simp [FileBody.tree, proxyPass_defaultTls] at inside
  · rintro ⟨h, host, passes⟩
    refine ⟨_, mem_configPairs.mpr (Or.inr (Or.inl ⟨h, host, mem_renderProxyHost.mpr (Or.inl rfl)⟩)),
      ?_⟩
    exact (mem_proxyPass_proxyHost cfg h state.maintenance).mpr passes

/-- Only pool files define pools. -/
theorem mem_upstream_config {block : List String × List Lib.Node} :
    block ∈ (configBodies cfg state).blocks "upstream" ↔
      ∃ u ∈ state.httpUpstreams, block = ([poolName u.id], poolBody u) := by
  rw [configBodies, mem_blocks (functional_configPairs cfg distinct)]
  constructor
  · rintro ⟨file, member, inside⟩
    rcases mem_configPairs.mp member with ⟨u, pool, rfl⟩ | ⟨h, _, member⟩ | ⟨r, _, rfl⟩ |
      ⟨d, _, rfl⟩ | ⟨t, _, rfl⟩
    · simp only [renderUpstream, FileBody.tree, upstreamBlocks_upstream, List.mem_singleton] at inside
      exact ⟨u, pool, inside⟩
    · rcases mem_renderProxyHost.mp member with rfl | ⟨a, _, _, rfl⟩
      · simp [FileBody.tree, upstreamBlocks_proxyHost] at inside
      · cases inside
    · simp [FileBody.tree, upstreamBlocks_redirectionHost] at inside
    · simp [FileBody.tree, upstreamBlocks_deadHost] at inside
    · simp [FileBody.tree, upstreamBlocks_defaultTls] at inside
  · rintro ⟨u, pool, rfl⟩
    refine ⟨renderUpstream u, mem_configPairs.mpr (Or.inl ⟨u, pool, rfl⟩), ?_⟩
    simp [renderUpstream, FileBody.tree]

/-- A pool of the http context is defined once. -/
theorem count_upstream_config {u : UpstreamSpec} (member : u ∈ state.httpUpstreams) :
    (((configBodies cfg state).blocks "upstream").map (·.1)).count [poolName u.id] = 1 := by
  refine count_upstream (functional_configPairs cfg distinct) distinct.httpUpstreams ?_ ?_ member
  · exact fun v pool => mem_configPairs.mpr (Or.inl ⟨v, pool, rfl⟩)
  · intro file known some_
    rcases mem_configPairs.mp known with ⟨v, pool, rfl⟩ | ⟨h, _, inside⟩ | ⟨r, _, rfl⟩ |
      ⟨d, _, rfl⟩ | ⟨t, _, rfl⟩
    · exact ⟨v, pool, rfl⟩
    · rcases mem_renderProxyHost.mp inside with rfl | ⟨a, _, _, rfl⟩
      · exact absurd (upstreamBlocks_proxyHost ..) some_
      · exact absurd rfl some_
    · exact absurd (upstreamBlocks_redirectionHost ..) some_
    · exact absurd (upstreamBlocks_deadHost ..) some_
    · exact absurd (upstreamBlocks_defaultTls ..) some_

/-- The file set of the stream directory, when its rendering does not raise. -/
theorem mem_proxyPass_stream {bodies : Bodies} (rendered : streamBodies state = .ok bodies) :
    args ∈ bodies.directives "proxy_pass" ↔ ∃ s ∈ state.streams, args = [streamTarget s] := by
  obtain ⟨pairs, listed, rfl⟩ := map_eq_ok rendered
  rw [streamPairs_ok listed, mem_directives (functional_streamPairs distinct)]
  simp only [List.mem_append, List.mem_map]
  constructor
  · rintro ⟨file, ⟨u, _, rfl⟩ | ⟨s, member, rfl⟩, inside⟩
    · simp [renderUpstream, FileBody.tree] at inside
    · simp only [FileBody.tree, proxyPass_stream, List.mem_singleton] at inside
      exact ⟨s, member, inside⟩
  · rintro ⟨s, member, rfl⟩
    refine ⟨_, Or.inr ⟨s, member, rfl⟩, ?_⟩
    simp only [FileBody.tree, proxyPass_stream, List.mem_singleton]

theorem mem_upstream_stream {bodies : Bodies} (rendered : streamBodies state = .ok bodies)
    {block : List String × List Lib.Node} : block ∈ bodies.blocks "upstream" ↔
      ∃ u ∈ state.streamUpstreams, block = ([poolName u.id], poolBody u) := by
  obtain ⟨pairs, listed, rfl⟩ := map_eq_ok rendered
  rw [streamPairs_ok listed, mem_blocks (functional_streamPairs distinct)]
  simp only [List.mem_append, List.mem_map]
  constructor
  · rintro ⟨file, ⟨u, pool, rfl⟩ | ⟨s, _, rfl⟩, inside⟩
    · simp only [renderUpstream, FileBody.tree, upstreamBlocks_upstream, List.mem_singleton] at inside
      exact ⟨u, pool, inside⟩
    · simp [FileBody.tree, upstreamBlocks_stream] at inside
  · rintro ⟨u, pool, rfl⟩
    refine ⟨_, Or.inl ⟨u, pool, rfl⟩, ?_⟩
    simp [renderUpstream, FileBody.tree]

/-- A pool of the stream context is defined once. -/
theorem count_upstream_stream {bodies : Bodies} (rendered : streamBodies state = .ok bodies)
    {u : UpstreamSpec} (member : u ∈ state.streamUpstreams) :
    ((bodies.blocks "upstream").map (·.1)).count [poolName u.id] = 1 := by
  obtain ⟨pairs, listed, rfl⟩ := map_eq_ok rendered
  rw [streamPairs_ok listed]
  refine count_upstream (functional_streamPairs distinct) distinct.streamUpstreams ?_ ?_ member
  · exact fun v pool => List.mem_append_left _ (List.mem_map_of_mem pool)
  · intro file known some_
    rcases List.mem_append.mp known with inside | inside
    · obtain ⟨v, pool, rfl⟩ := List.mem_map.mp inside
      exact ⟨v, pool, rfl⟩
    · obtain ⟨s, _, rfl⟩ := List.mem_map.mp inside
      exact absurd (upstreamBlocks_stream s) some_

end Directory

end MegooPM
