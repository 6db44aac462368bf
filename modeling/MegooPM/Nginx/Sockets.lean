import MegooPM.Nginx.PoolClosure
import MegooPM.Nginx.StoredBlocks

/-!
# Listening sockets

What nginx binds in its container. The server blocks of the two contexts are read by one process,
so a socket that both claim, or that two streams claim, cannot be bound, and `nginx -t` does not
notice. The http templates listen on port 80, and on port 443 in a block with a certificate; the
operator's own text may listen elsewhere, and a stream listens wherever its row says. `nginx.conf`
has sockets of its own, and the reload agent another beside it.
-/
namespace MegooPM

open Lib Lib.Node

inductive Transport where
  | tcp | udp
  deriving DecidableEq, Repr

/-- What the arguments of a `listen` claim: the port as it is written, over UDP if they say so. -/
def listenSocket (args : List String) : Transport × String :=
  (if "udp" ∈ args then .udp else .tcp, args.headD "")

/-- The sockets of all server blocks of a directory. -/
def Bodies.sockets (bodies : Bodies) : List (Transport × String) :=
  (bodies.directives "listen").map listenSocket

/-! ### What nobody renders -/

/-- In the http context of `nginx.conf`: the default server, and the counters of the dashboard. -/
def baseSockets : List (Transport × String) :=
  [(.tcp, "80"), (.tcp, "8081")]

/-- The reload agent, which `docker-entrypoint.sh` starts beside nginx. -/
def agentSockets : List (Transport × String) :=
  [(.tcp, "9099")]

/-- In its stream context: the relay of the live logs, on the loopback address. -/
def relaySockets : List (Transport × String) :=
  [(.udp, "5140")]

/-- The number that digits spell. -/
def portNumber (text : List Char) : Option Nat :=
  if text ≠ [] ∧ text.all Char.isDigit then some (Nat.ofDigitChars 10 text 0) else none

/-- A port, or a range of them. -/
def portRange (text : List Char) : Option (List Nat) :=
  match text.dropWhile (· ≠ '-') with
  | [] => (portNumber text).map fun port => [port]
  | _ :: upper => do
    let first ← portNumber (text.takeWhile (· ≠ '-'))
    let last ← portNumber upper
    pure ((List.range (last + 1 - first)).map (first + ·))

/-- The ports of an address as nginx reads it: behind the host, or alone, or 80. -/
def listenPorts (address : String) : List Nat :=
  let text := address.toList
  if "unix:".toList <+: text then []
  else if text.head? = some '[' then
    match (text.dropWhile (· ≠ ']')).tail with
    | ':' :: port => (portRange port).getD []
    | _ => [80]
  else
    match text.dropWhile (· ≠ ':') with
    | _ :: port => (portRange port).getD []
    | [] => (portRange text).getD [80]

example : listenPorts "127.0.0.1:8080-8082" = [8080, 8081, 8082] := by decide

/-- What a `listen` of the operator's claims. -/
def operatorListen (args : List String) : List (Transport × String) :=
  (listenPorts (args.headD "")).map fun port =>
    (if "quic" ∈ args then .udp else .tcp, toString port)

/-- The sockets that the operator's text adds to the rendered server blocks; `raw` is what nginx
reads in it. -/
def DesiredState.operatorSockets (raw : String → List Lib.Node) (state : DesiredState) :
    List (Transport × String) :=
  let texts := state.proxyHosts.map (·.advancedConfig) ++
    state.redirectionHosts.map (·.advancedConfig) ++ state.deadHosts.map (·.advancedConfig)
  texts.flatMap fun text =>
    (own "listen" (storeAll (operatorNodes ⟨fun _ => [], raw⟩ text))).flatMap operatorListen

/-- Both contexts are rendered from the same database, no socket of a stream is claimed by the
http context or by the agent, and none is claimed twice in the stream context. -/
def SocketsApart (raw : String → List Lib.Node) (cfg : Deployment) (db : Database) : Prop :=
  ∃ state, loadDesiredState cfg db = .ok state ∧
    ∀ bodies, streamBodies state = .ok bodies →
      (∀ socket ∈ baseSockets ++ (configBodies cfg state).sockets ++ state.operatorSockets raw ++
        agentSockets, socket ∉ bodies.sockets) ∧
      (relaySockets ++ bodies.sockets).Nodup

/-- The directives that a server block has in its head. -/
def Heads (name : String) : Prop :=
  name = "listen" ∨ name = "server_name"

/-! ### Pieces that hold neither -/

@[simp] theorem heads_listen : Heads "listen" :=
  Or.inl rfl

@[simp] theorem heads_serverName : Heads "server_name" :=
  Or.inr rfl

section Pieces

variable {name : String} (heads : Heads name) (cfg : Deployment) (h : ProxyHostSpec)

include heads

@[simp] theorem heads_liveLog (key : String) (bounces : Bool) :
    allDirectives name (liveLog key bounces) = [] := by
  rcases heads with rfl | rfl <;> simp [liveLog, allDirectives_when]

@[simp] theorem heads_brandedErrors : allDirectives name (brandedErrors cfg) = [] := by
  rcases heads with rfl | rfl <;> simp [brandedErrors]

@[simp] theorem heads_security (blockExploits : Bool) :
    allDirectives name (security blockExploits) = [] := by
  rcases heads with rfl | rfl <;> simp [security, allDirectives_when]

@[simp] theorem heads_hsts (enabled subdomains : Bool) :
    allDirectives name (hsts enabled subdomains) = [] := by
  rcases heads with rfl | rfl <;> simp [hsts, allDirectives_when]

@[simp] theorem heads_acmeChallenge : allDirectives name (acmeChallenge cfg) = [] := by
  rcases heads with rfl | rfl <;> simp [acmeChallenge]

@[simp] theorem heads_httpsRedirect : directives name httpsRedirect = [] := by
  rcases heads with rfl | rfl <;> simp [httpsRedirect]

@[simp] theorem heads_certificateDirectives (lead : String) (c : CertificateSpec) :
    allDirectives name (certificateDirectives lead c) = [] := by
  rcases heads with rfl | rfl <;> simp [certificateDirectives]

@[simp] theorem heads_maintenanceGuard : allDirectives name (maintenanceGuard h) = [] := by
  rcases heads with rfl | rfl <;> simp [maintenanceGuard, allDirectives_when]

@[simp] theorem heads_forwardedHeaders : allDirectives name forwardedHeaders = [] := by
  rcases heads with rfl | rfl <;> simp [forwardedHeaders]

@[simp] theorem heads_proxyCrowdsec (rewrite : Bool) :
    allDirectives name (proxyCrowdsec h rewrite) = [] := by
  rcases heads with rfl | rfl <;> cases rewrite <;> simp [proxyCrowdsec, allDirectives_when]

@[simp] theorem heads_bouncerCrowdsec (crowdsec : Bool) (key : String) :
    allDirectives name (bouncerCrowdsec crowdsec key) = [] := by
  rcases heads with rfl | rfl <;> simp [bouncerCrowdsec, allDirectives_when]

@[simp] theorem heads_accessControl : allDirectives name (accessControl cfg h) = [] := by
  unfold accessControl
  cases h.accessList with
  | none => simp
  | some a =>
    have rule : ∀ d : AccessListDirective, d.value ≠ name := by
      intro d
      rcases heads with rfl | rfl <;> cases d <;> decide
    rcases heads with rfl | rfl <;> simp [allDirectives_when, allDirectives_map, rule]

@[simp] theorem heads_maintenancePage (m : Option MaintenanceSpec) :
    allDirectives name (maintenancePage cfg h m) = [] := by
  rcases heads with rfl | rfl <;> simp [maintenancePage, allDirectives_when]

@[simp] theorem heads_proxyAcmeChallenge : allDirectives name (proxyAcmeChallenge cfg h) = [] := by
  rcases heads with rfl | rfl <;> simp [proxyAcmeChallenge, allDirectives_when]

@[simp] theorem heads_proxyBlock (path : List String) (scheme : HttpScheme) (target : String) :
    directives name (proxyBlock h path scheme target) = [] := by
  have guard := heads_maintenanceGuard heads h
  have forwarded := heads_forwardedHeaders heads
  rcases heads with rfl | rfl <;> simp [proxyBlock, allDirectives_when, guard, forwarded]

@[simp] theorem heads_answeredBlock (l : LocationSpec) :
    directives name (answeredBlock cfg h l) = [] := by
  have guard := heads_maintenanceGuard heads h
  cases target : l.target <;> rcases heads with rfl | rfl <;> simp [answeredBlock, target, guard]

@[simp] theorem heads_extraRoute (l : LocationSpec) : allDirectives name (extraRoute cfg h l) = [] := by
  cases proxies : l.target.proxies <;>
    simp [extraRoute, proxies, heads_proxyBlock heads, heads_answeredBlock heads]

@[simp] theorem heads_cachedAssets : directives name (cachedAssets h) = [] := by
  have guard := heads_maintenanceGuard heads h
  have forwarded := heads_forwardedHeaders heads
  rcases heads with rfl | rfl <;> simp [cachedAssets, guard, forwarded]

@[simp] theorem heads_proxyLocation : allDirectives name (proxyLocation cfg h) = [] := by
  simp [proxyLocation, allDirectives_when, allDirectives_flatMap, heads_proxyBlock heads,
    heads_extraRoute heads, heads_cachedAssets heads]

omit heads

@[simp] theorem listen_serverNames (names : List String) :
    directives "listen" (serverNames names) = [] := by
  simp [serverNames]

@[simp] theorem listen_bouncerHead (listen : List Lib.Node) (names : List String) (key : String)
    (crowdsec : Bool) : allDirectives "listen" (bouncerHead cfg listen names key crowdsec) =
      allDirectives "listen" listen := by
  simp [bouncerHead]

end Pieces

/-! ### Whole templates -/

/-- What the server blocks of a host listen on. -/
def hostListens (tls : Bool) : List (List String) :=
  ["80"] :: if tls then [["443", "ssl"]] else []

theorem listen_proxyHost (cfg : Deployment) (h : ProxyHostSpec) (m : Option MaintenanceSpec) :
    serverDirectives "listen" (proxyHostConf cfg h m) = hostListens h.certificate.isSome := by
  rw [serverDirectives, serverBlocks_proxyHost]
  cases h.certificate with
  | none => simp [proxyOnlyServer, hostListens]
  | some c =>
    cases forced : h.sslForced <;>
      simp [proxyPlainServer, forced, proxyTlsHead, proxyTlsTail, hostListens, allDirectives_when]

theorem listen_redirectionHost (cfg : Deployment) (h : RedirectionHostSpec) :
    serverDirectives "listen" (redirectionHostConf cfg h) = hostListens h.certificate.isSome := by
  unfold redirectionHostConf serverDirectives
  cases h.certificate <;> cases forced : h.sslForced <;>
    simp [managedHeader, listenTls, redirectLocation, hostListens, allDirectives_when]

theorem listen_deadHost (cfg : Deployment) (h : DeadHostSpec) :
    serverDirectives "listen" (deadHostConf cfg h) = hostListens h.certificate.isSome := by
  unfold deadHostConf serverDirectives
  cases h.certificate <;> cases forced : h.sslForced <;>
    simp [managedHeader, listenTls, deadLocation, hostListens, allDirectives_when]

theorem listen_defaultTls (cfg : Deployment) (t : DefaultTlsSpec) :
    serverDirectives "listen" (defaultTlsConf cfg t) = [["443", "ssl"]] := by
  simp [defaultTlsConf, serverDirectives, managedHeader, defaultTlsHead, defaultTlsTail]

/-- The sockets of a stream. -/
def StreamSpec.sockets (s : StreamSpec) : List (Transport × String) :=
  (if s.tcpForwarding then [(.tcp, toString s.incomingPort)] else []) ++
    if s.udpForwarding then [(.udp, toString s.incomingPort)] else []

/-- A port is not the word `udp`. -/
private theorem udp_ne_port (port : Nat) : ¬"udp" = port.repr := by
  intro same
  have member : 'u' ∈ port.repr.toList := same ▸ (by decide)
  rw [Nat.toList_repr] at member
  have digit := Nat.isDigit_of_mem_toDigits (by decide) (by decide) member
  revert digit
  decide

theorem listen_stream (s : StreamSpec) :
    (serverDirectives "listen" (streamConf s)).map listenSocket = s.sockets := by
  cases cert : s.certificate <;> cases tcp : s.tcpForwarding <;> cases udp : s.udpForwarding <;>
    simp [streamConf, serverDirectives, managedHeader, liveStreamLog, allDirectives_when, cert, tcp,
      udp, StreamSpec.sockets, listenSocket, udp_ne_port]

/-! ### The two contexts -/

/-- Some block of the state listens on port 80. -/
def DesiredState.ListensPlain (state : DesiredState) : Prop :=
  state.proxyHosts ≠ [] ∨ state.redirectionHosts ≠ [] ∨ state.deadHosts ≠ []

/-- Some block of the state has a certificate and listens on port 443. -/
def DesiredState.ListensTls (state : DesiredState) : Prop :=
  (∃ h ∈ state.proxyHosts, h.certificate.isSome = true) ∨
  (∃ r ∈ state.redirectionHosts, r.certificate.isSome = true) ∨
  (∃ d ∈ state.deadHosts, d.certificate.isSome = true) ∨ state.defaultTls ≠ []

theorem mem_hostListens {tls : Bool} {socket : Transport × String} :
    socket ∈ (hostListens tls).map listenSocket ↔
      socket = (.tcp, "80") ∨ tls = true ∧ socket = (.tcp, "443") := by
  cases tls <;> simp [hostListens, listenSocket]

section Contexts

variable {cfg : Deployment} {state : DesiredState} (distinct : DistinctSpecs state)
  {socket : Transport × String}

theorem mem_sockets {pairs : List (String × FileBody)} (functional : Functional pairs) :
    socket ∈ Bodies.sockets (Dict.ofPairs pairs) ↔
      ∃ file ∈ pairs, socket ∈ (serverDirectives "listen" file.2.tree).map listenSocket := by
  simp only [Bodies.sockets, List.mem_map, mem_directives functional]
  constructor
  · rintro ⟨args, ⟨file, member, inside⟩, same⟩
    exact ⟨file, member, args, inside, same⟩
  · rintro ⟨file, member, args, inside, same⟩
    exact ⟨args, ⟨file, member, inside⟩, same⟩

include distinct

/-- The http context listens on port 80, and on port 443 where a block has a certificate. -/
theorem mem_sockets_config : socket ∈ (configBodies cfg state).sockets ↔
    socket = (.tcp, "80") ∧ state.ListensPlain ∨ socket = (.tcp, "443") ∧ state.ListensTls := by
  rw [configBodies, mem_sockets (functional_configPairs cfg distinct)]
  constructor
  · rintro ⟨file, member, inside⟩
    -- the kinds of files, in the order in which they are rendered
    rcases mem_configPairs.mp member with ⟨u, _, rfl⟩ | ⟨h, host, member⟩ | ⟨r, host, rfl⟩ |
      ⟨d, host, rfl⟩ | ⟨t, block, rfl⟩
    · simp [renderUpstream, FileBody.tree] at inside
    · rcases mem_renderProxyHost.mp member with rfl | ⟨a, _, _, rfl⟩
      · rw [FileBody.tree, listen_proxyHost, mem_hostListens] at inside
        rcases inside with plain | ⟨tls, ssl⟩
        · exact Or.inl ⟨plain, Or.inl (List.ne_nil_of_mem host)⟩
        · exact Or.inr ⟨ssl, Or.inl ⟨h, host, tls⟩⟩
      · cases inside
    · rw [FileBody.tree, listen_redirectionHost, mem_hostListens] at inside
      rcases inside with plain | ⟨tls, ssl⟩
      · exact Or.inl ⟨plain, Or.inr (Or.inl (List.ne_nil_of_mem host))⟩
      · exact Or.inr ⟨ssl, Or.inr (Or.inl ⟨r, host, tls⟩)⟩
    · rw [FileBody.tree, listen_deadHost, mem_hostListens] at inside
      rcases inside with plain | ⟨tls, ssl⟩
      · exact Or.inl ⟨plain, Or.inr (Or.inr (List.ne_nil_of_mem host))⟩
      · exact Or.inr ⟨ssl, Or.inr (Or.inr (Or.inl ⟨d, host, tls⟩))⟩
    · rw [FileBody.tree, listen_defaultTls] at inside
      simp only [List.map_cons, List.map_nil, List.mem_singleton] at inside
      exact Or.inr ⟨inside, Or.inr (Or.inr (Or.inr (List.ne_nil_of_mem block)))⟩
  · -- each kind of host has a file that listens as `hostListens` says
    have proxy : ∀ h ∈ state.proxyHosts, ∃ file ∈ configPairs cfg state,
        serverDirectives "listen" file.2.tree = hostListens h.certificate.isSome := fun h host =>
      ⟨_, mem_configPairs.mpr (Or.inr (Or.inl ⟨h, host, mem_renderProxyHost.mpr (Or.inl rfl)⟩)),
        listen_proxyHost cfg h state.maintenance⟩
    have redirection : ∀ r ∈ state.redirectionHosts, ∃ file ∈ configPairs cfg state,
        serverDirectives "listen" file.2.tree = hostListens r.certificate.isSome := fun r host =>
      ⟨_, mem_configPairs.mpr (Or.inr (Or.inr (Or.inl ⟨r, host, rfl⟩))),
        listen_redirectionHost cfg r⟩
    have dead : ∀ d ∈ state.deadHosts, ∃ file ∈ configPairs cfg state,
        serverDirectives "listen" file.2.tree = hostListens d.certificate.isSome := fun d host =>
      ⟨_, mem_configPairs.mpr (Or.inr (Or.inr (Or.inr (Or.inl ⟨d, host, rfl⟩)))),
        listen_deadHost cfg d⟩
    have listens : ∀ {tls : Bool}, (socket = (.tcp, "80") ∨ tls = true ∧ socket = (.tcp, "443")) →
        (∃ file ∈ configPairs cfg state, serverDirectives "listen" file.2.tree = hostListens tls) →
        ∃ file ∈ configPairs cfg state,
          socket ∈ (serverDirectives "listen" file.2.tree).map listenSocket := by
      rintro tls own ⟨file, member, same⟩
      exact ⟨file, member, by rwa [same, mem_hostListens]⟩
    rintro (⟨plain, some_⟩ | ⟨ssl, some_⟩)
    · rcases some_ with some_ | some_ | some_ <;>
        obtain ⟨host, member⟩ := List.exists_mem_of_ne_nil _ some_
      · exact listens (Or.inl plain) (proxy host member)
      · exact listens (Or.inl plain) (redirection host member)
      · exact listens (Or.inl plain) (dead host member)
    · rcases some_ with ⟨h, host, tls⟩ | ⟨r, host, tls⟩ | ⟨d, host, tls⟩ | some_
      · exact listens (Or.inr ⟨tls, ssl⟩) (proxy h host)
      · exact listens (Or.inr ⟨tls, ssl⟩) (redirection r host)
      · exact listens (Or.inr ⟨tls, ssl⟩) (dead d host)
      · obtain ⟨t, block⟩ := List.exists_mem_of_ne_nil _ some_
        refine ⟨_, mem_configPairs.mpr (Or.inr (Or.inr (Or.inr (Or.inr ⟨t, block, rfl⟩)))), ?_⟩
        rw [FileBody.tree, listen_defaultTls, ssl]
        decide

/-- The stream context listens where its streams do. -/
theorem mem_sockets_stream {bodies : Bodies} (rendered : streamBodies state = .ok bodies) :
    socket ∈ bodies.sockets ↔ ∃ s ∈ state.streams, socket ∈ s.sockets := by
  obtain ⟨pairs, listed, rfl⟩ := map_eq_ok rendered
  rw [streamPairs_ok listed, mem_sockets (functional_streamPairs distinct)]
  simp only [List.mem_append]
  constructor
  · rintro ⟨file, member, inside⟩
    rcases member with pool | stream
    · obtain ⟨u, _, rfl⟩ := List.mem_map.mp pool
      simp [renderUpstream, FileBody.tree] at inside
    · obtain ⟨s, member, rfl⟩ := List.mem_map.mp stream
      rw [FileBody.tree, listen_stream] at inside
      exact ⟨s, member, inside⟩
  · rintro ⟨s, member, inside⟩
    refine ⟨_, Or.inr (List.mem_map_of_mem member), ?_⟩
    rw [FileBody.tree, listen_stream]
    exact inside

end Contexts

theorem StreamSpec.mem_sockets {s : StreamSpec} {socket : Transport × String} :
    socket ∈ s.sockets ↔ socket = (.tcp, toString s.incomingPort) ∧ s.tcpForwarding = true ∨
      socket = (.udp, toString s.incomingPort) ∧ s.udpForwarding = true := by
  cases tcp : s.tcpForwarding <;> cases udp : s.udpForwarding <;> simp [StreamSpec.sockets, tcp, udp]

theorem StreamSpec.nodup_sockets (s : StreamSpec) : s.sockets.Nodup := by
  cases tcp : s.tcpForwarding <;> cases udp : s.udpForwarding <;> simp [StreamSpec.sockets, tcp, udp]

/-- Streams with different ports share no socket. -/
theorem nodup_sockets_stream {state : DesiredState} (distinct : DistinctSpecs state)
    (ports : (state.streams.map (·.incomingPort)).Nodup) {bodies : Bodies}
    (rendered : streamBodies state = .ok bodies) : bodies.sockets.Nodup := by
  obtain ⟨pairs, listed, rfl⟩ := map_eq_ok rendered
  have functional := functional_streamPairs distinct
  rw [streamPairs_ok listed]
  -- a file is a pool, which listens nowhere, or a stream
  have files : ∀ file ∈ (Dict.ofPairs (state.streamUpstreams.map renderUpstream ++
      state.streams.map fun s => (streamFilename s.id, FileBody.conf (streamConf s)))).toList,
      (serverDirectives "listen" file.2.tree).map listenSocket = [] ∨
        ∃ s ∈ state.streams, file = (streamFilename s.id, .conf (streamConf s)) ∧
          (serverDirectives "listen" file.2.tree).map listenSocket = s.sockets := by
    intro file member
    rcases List.mem_append.mp ((mem_toList_ofPairs functional file).mp member) with pool | stream
    · obtain ⟨u, _, rfl⟩ := List.mem_map.mp pool
      exact Or.inl (by simp [renderUpstream, FileBody.tree])
    · obtain ⟨s, row, rfl⟩ := List.mem_map.mp stream
      exact Or.inr ⟨s, row, rfl, listen_stream s⟩
  rw [Bodies.sockets, Bodies.directives, List.map_flatMap, List.nodup_flatMap]
  constructor
  · intro file member
    rcases files file member with none_ | ⟨s, _, _, own⟩
    · rw [none_]
      exact List.nodup_nil
    · rw [own]
      exact s.nodup_sockets
  · refine (Dict.nodup_toList _).pairwise_of_forall_ne fun a first b second other => ?_
    simp only [Function.onFun]
    rcases files a first with none_ | ⟨s, stream, rfl, own⟩
    · rw [none_]
      exact List.disjoint_nil_left _
    rcases files b second with none_ | ⟨t, stream', rfl, own'⟩
    · rw [none_]
      exact List.disjoint_nil_right _
    rw [own, own']
    intro socket left right
    -- two streams on one socket have one port, and the port is unique
    have port : s.incomingPort = t.incomingPort := by
      rcases StreamSpec.mem_sockets.mp left with ⟨rfl, _⟩ | ⟨rfl, _⟩ <;>
        rcases StreamSpec.mem_sockets.mp right with ⟨same, _⟩ | ⟨same, _⟩ <;>
        exact Nat.repr_injective (congrArg Prod.snd same)
    rw [List.inj_on_of_nodup_map ports stream stream' port] at other
    exact other rfl

/-- What a stream cannot listen on beside the rendered state. -/
def DesiredState.Takes (raw : String → List Lib.Node) (state : DesiredState)
    (socket : Transport × String) : Prop :=
  socket ∈ baseSockets ++ agentSockets ++ relaySockets ∨
  socket = (.tcp, "443") ∧ state.ListensTls ∨ socket ∈ state.operatorSockets raw

/-- The sockets of a row. -/
def Stream.sockets (t : Stream) : List (Transport × String) :=
  (if t.tcpForwarding then [(.tcp, toString t.incomingPort)] else []) ++
    if t.udpForwarding then [(.udp, toString t.incomingPort)] else []

theorem sockets_streamSpec (cfg : Deployment) (db : Database) (t : Stream) :
    (streamSpec cfg db t).sockets = t.sockets := rfl

/-- The http context and the agent claim what is taken over TCP, and no more than that. -/
private theorem mem_claimed {raw : String → List Lib.Node} {cfg : Deployment}
    {state : DesiredState} (distinct : DistinctSpecs state) {socket : Transport × String} :
    socket ∈ baseSockets ++ (configBodies cfg state).sockets ++ state.operatorSockets raw ++
      agentSockets ↔ socket ∈ baseSockets ++ agentSockets ∨
        socket = (.tcp, "443") ∧ state.ListensTls ∨ socket ∈ state.operatorSockets raw := by
  simp only [List.mem_append, mem_sockets_config distinct]
  constructor
  · rintro (((base | ⟨rfl, _⟩ | tls) | operator) | agent)
    · exact Or.inl (Or.inl base)
    · exact Or.inl (Or.inl (List.mem_cons_self ..))
    · exact Or.inr (Or.inl tls)
    · exact Or.inr (Or.inr operator)
    · exact Or.inl (Or.inr agent)
  · rintro ((base | agent) | tls | operator)
    · exact Or.inl (Or.inl (Or.inl base))
    · exact Or.inr agent
    · exact Or.inl (Or.inl (Or.inr (Or.inr tls)))
    · exact Or.inl (Or.inr operator)

/-- On a database that meets its constraints, the sockets are apart if and only if no rendered
stream is on one that is taken, or the stream rendering raises. -/
theorem socketsApart_iff (raw : String → List Lib.Node) (cfg : Deployment) {db : Database}
    (constraints : db.Constraints) :
    SocketsApart raw cfg db ↔ StreamOnIpHash db ∨
      ∀ t ∈ includedStreams db, ∀ socket ∈ t.sockets, ¬(desiredState cfg db).Takes raw socket := by
  have loaded := loadDesiredState_ok cfg constraints
  have distinct := distinctSpecs_desiredState cfg constraints
  have inside : ∀ {bodies socket}, streamBodies (desiredState cfg db) = .ok bodies →
      (socket ∈ bodies.sockets ↔ ∃ t ∈ includedStreams db, socket ∈ t.sockets) := by
    intro bodies socket rendered
    rw [mem_sockets_stream distinct rendered]
    change (∃ s ∈ (includedStreams db).map (streamSpec cfg db), _) ↔ _
    simp only [List.mem_map, exists_exists_and_eq_and, sockets_streamSpec]
  constructor
  · rintro ⟨state, same, apart⟩
    cases loaded.symm.trans same
    by_cases raises : StreamOnIpHash db
    · exact Or.inl raises
    obtain ⟨bodies, rendered⟩ := (streamBodies_ok_iff cfg db).mpr raises
    obtain ⟨disjoint, once⟩ := apart bodies rendered
    refine Or.inr fun t included socket own taken => ?_
    have claimed := (inside rendered).mpr ⟨t, included, own⟩
    rw [DesiredState.Takes, List.mem_append (t := relaySockets)] at taken
    rcases taken with (fixed | relay) | http
    · exact disjoint socket ((mem_claimed distinct).mpr (Or.inl fixed)) claimed
    · exact List.disjoint_of_nodup_append once relay claimed
    · exact disjoint socket ((mem_claimed distinct).mpr (Or.inr http)) claimed
  · intro condition
    refine ⟨_, loaded, fun bodies rendered => ?_⟩
    rcases condition with raises | clear
    · exact absurd raises ((streamBodies_ok_iff cfg db).mp ⟨bodies, rendered⟩)
    have free : ∀ socket, (desiredState cfg db).Takes raw socket → socket ∉ bodies.sockets := by
      intro socket taken claimed
      obtain ⟨t, included, own⟩ := (inside rendered).mp claimed
      exact clear t included socket own taken
    have ports : ((desiredState cfg db).streams.map (·.incomingPort)).Nodup := by
      -- the rendered streams are rows of the table, whose ports are unique
      change (((includedStreams db).map (streamSpec cfg db)).map (·.incomingPort)).Nodup
      rw [List.map_map]
      have table := (List.filter_sublist (p := (·.enabled)) (l := db.streams)).map
        Stream.incomingPort
      have sorted := ((sortedBy_perm (fun t : Stream => t.id)
        (db.streams.filter (·.enabled))).map Stream.incomingPort).nodup_iff.mpr
          (table.nodup constraints.incomingPorts)
      exact (List.filter_sublist.map Stream.incomingPort).nodup sorted
    constructor
    · intro socket claimed
      apply free
      rcases (mem_claimed distinct).mp claimed with fixed | http
      · exact Or.inl (List.mem_append_left _ fixed)
      · exact Or.inr http
    · refine List.Nodup.append (by decide) (nodup_sockets_stream distinct ports rendered) ?_
      intro socket relay
      exact free socket (Or.inl (List.mem_append_right _ relay))

end MegooPM
