import MegooPM.Nginx.Headers

/-!
# HSTS

`add_header` is inherited whole or not at all. The HSTS header stands at the level of the
server block; a location that adds a header of its own has to repeat it, and neither the
location of the cached assets nor the maintenance page does.
-/
namespace MegooPM

open Lib Lib.Node

/-- One of the lines sends the header: a line with an empty value sends none. -/
def HstsIn (lines : List (List String)) : Prop :=
  ∃ args ∈ lines, headerIs "strict-transport-security" args = true ∧
    args.tail.head?.any (· ≠ "") = true

/-- The level answers with an HSTS header. -/
def SendsHsts (l : Level) : Prop :=
  HstsIn (l.inForce "add_header")

def hstsNames : List String := ["add_header"]

/-- Every location of the blocks on port 443, at any depth, answers with one. -/
def HstsCovers (src : Sources) (conf : List Lib.Node) : Prop :=
  ∀ level ∈ serverLevels src conf, ["443", "ssl"] ∈ own "listen" (storeAll level) →
    ∀ l ∈ levels (serverWords hstsNames (storeAll level)) (storeAll level), SendsHsts l

/-- What the operator's own locations inherit: the header, and what the operator says beside
it. -/
def hstsWords (src : Sources) (enabled subdomains : Bool) (advancedConfig : String) : Words :=
  fun name =>
    (if name = "add_header" then (hstsArguments enabled subdomains).map (List.map readWord)
      else []) ++ serverWords hstsNames (storeAll (operatorNodes src advancedConfig)) name

/-- The operator's own locations answer with the header. -/
def OperatorKeepsHsts (src : Sources) (enabled subdomains : Bool) (advancedConfig : String) :
    Prop :=
  ∀ l ∈ levels (hstsWords src enabled subdomains advancedConfig)
    (storeAll (operatorNodes src advancedConfig)), SendsHsts l

instance (lines : List (List String)) : Decidable (HstsIn lines) :=
  inferInstanceAs (Decidable (∃ args ∈ lines, _ ∧ _))

instance (l : Level) : Decidable (SendsHsts l) :=
  inferInstanceAs (Decidable (HstsIn _))

instance (src : Sources) (conf : List Lib.Node) : Decidable (HstsCovers src conf) :=
  inferInstanceAs (Decidable (∀ level ∈ _, _ → ∀ l ∈ levels _ _, SendsHsts l))

instance (src : Sources) (enabled subdomains : Bool) (advancedConfig : String) :
    Decidable (OperatorKeepsHsts src enabled subdomains advancedConfig) :=
  inferInstanceAs (Decidable (∀ l ∈ levels _ _, SendsHsts l))

theorem sendsHsts_congr {a b : Level} (said : ∀ name ∈ decisive, a.said name = b.said name)
    (around : a.around = b.around) (sends : SendsHsts a) : SendsHsts b := by
  have force : b.inForce "add_header" = a.inForce "add_header" := by
    rw [Level.inForce, Level.inForce, said "add_header" (by decide), around]
  rw [SendsHsts, force]
  exact sends

/-- The header of the host is one. -/
theorem hstsIn_arguments {enabled : Bool} (on : enabled = true) (subdomains : Bool) :
    HstsIn ((hstsArguments enabled subdomains).map (List.map readWord)) := by
  subst on
  cases subdomains <;> decide +kernel

section Hsts

variable (cfg : Deployment) (site : Option DefaultSiteSpec) (m : Option MaintenanceSpec)
  {raw : String → List Lib.Node} {around : Words} (declared : HstsIn (around "add_header"))

include declared

/-- A location that adds no header has the one declared around it. -/
private theorem sends_silent {l : Location} (named : AllNamed l.body)
    (steady : l.stored.Steady decisive) (silent : own "add_header" l.body = []) :
    ∀ inner ∈ l.stored.levels around, SendsHsts inner := by
  refine (steady.forall_levels (fun _ _ => sendsHsts_congr) around).mpr ?_
  rw [SendsHsts, Level.inForce_inherited]
  · exact declared
  · rw [said_stored named, silent, List.map_nil]

omit declared in
/-- A location with headers of its own sends those. -/
private theorem sends_own {l : Location} (named : AllNamed l.body) {lines : List (List String)}
    (headers : own "add_header" l.body = lines) (some_ : lines ≠ [])
    (sends : ∀ inner ∈ l.stored.levels around, SendsHsts inner) :
    HstsIn (lines.map (List.map readWord)) := by
  have first := sends _ (List.mem_cons_self ..)
  have said : (l.stored.level around).said "add_header" = lines.map (List.map readWord) := by
    rw [said_stored named, headers]
  rw [SendsHsts, Level.inForce_said, said] at first
  · exact first
  · rw [said]
    exact fun none_ => some_ (List.map_eq_nil_iff.mp none_)

private theorem errors_sendHsts {src : Sources} {l : Location} (named : AllNamed l.body)
    (member : l ∈ errorCodes.map (errorLocation cfg src)) :
    ∀ inner ∈ l.stored.levels around, SendsHsts inner := by
  obtain ⟨code, _, rfl⟩ := List.mem_map.mp member
  exact sends_silent declared named (steady_errorLocation cfg src code)
    (own_errorLocation cfg src (Or.inr (Or.inr rfl)) code)

/-- The maintenance page says when to come back, and with that loses the header. -/
private theorem documents_sendHsts {src : Sources} {h : ProxyHostSpec}
    (named : ∀ l ∈ documentLocations cfg src h m, AllNamed l.body) :
    (∀ l ∈ documentLocations cfg src h m, ∀ inner ∈ l.stored.levels around, SendsHsts inner) ↔
      h.maintenanceEnabled = false := by
  have errors : ∀ l ∈ errorCodes.map (errorLocation cfg src),
      ∀ inner ∈ l.stored.levels around, SendsHsts inner := fun l member =>
    errors_sendHsts cfg declared (named l (List.mem_append_right _ member)) member
  cases enabled : h.maintenanceEnabled with
  | false =>
    refine iff_of_true ?_ rfl
    rw [documentLocations, maintenanceLocations, enabled, if_neg Bool.false_ne_true,
      List.nil_append]
    exact errors
  | true =>
    refine iff_of_false (fun sends => ?_) Bool.true_eq_false.mp
    have member : maintenanceLocation cfg src h m ∈ documentLocations cfg src h m := by
      rw [documentLocations, maintenanceLocations, enabled, if_pos rfl]
      exact List.mem_append_left _ (List.mem_singleton_self _)
    have headers : ∃ args, own "add_header" (maintenanceLocation cfg src h m).body =
        [["Retry-After", args, "always"]] := by
      simp [maintenanceLocation, inside, maintenancePage, enabled, when, notes]
    obtain ⟨seconds, held⟩ := headers
    obtain ⟨args, inside, named_, _⟩ :=
      sends_own (named _ member) held (List.cons_ne_nil _ _) (sends _ member)
    rw [List.map_cons, List.map_nil, List.mem_singleton] at inside
    subst inside
    revert named_
    have other : readWord "Retry-After" = "Retry-After" := readWord_plain (by decide)
    rw [List.map_cons, headerIs, List.head?_cons, other]
    decide

private theorem routes_sendHsts {h : ProxyHostSpec}
    (named : ∀ l ∈ routeLocations cfg (serverSources cfg site raw) h, AllNamed l.body) :
    (∀ l ∈ routeLocations cfg (serverSources cfg site raw) h,
      ∀ inner ∈ l.stored.levels around, SendsHsts inner) ↔ h.cachingEnabled = false := by
  cases caching : h.cachingEnabled with
  | false =>
    refine iff_of_true (fun l member => ?_) rfl
    have body := named l member
    have steady := steady_routes cfg site h member
    simp only [routeLocations, caching, Bool.false_eq_true, if_false, List.append_nil,
      List.mem_cons, List.mem_map] at member
    rcases member with rfl | ⟨spec, _, rfl⟩
    · exact sends_silent declared body steady (own_rootLocation _ h (Or.inr rfl))
    · exact sends_silent declared body steady (own_extraLocation cfg site raw h (Or.inr rfl) spec)
  | true =>
    refine iff_of_false (fun sends => ?_) Bool.true_eq_false.mp
    have member : assetLocation (serverSources cfg site raw) h ∈
        routeLocations cfg (serverSources cfg site raw) h := by
      simp [routeLocations, caching]
    obtain ⟨_, _, headers, _⟩ := own_assetLocation (serverSources cfg site raw) h
    have lost := sends_own (named _ member) headers (List.cons_ne_nil _ _) (sends _ member)
    revert lost
    decide +kernel

omit declared in
/-- What the block and the operator add together. -/
private theorem hstsWords_of {src : Sources} {block : List Lib.Node} (named : AllNamed block)
    {enabled subdomains : Bool} (headers : own "add_header" block = hstsArguments enabled subdomains)
    (advancedConfig : String) :
    serverWords hstsNames (storeAll (block ++ operatorNodes src advancedConfig)) =
      hstsWords src enabled subdomains advancedConfig := by
  funext name
  by_cases known : name ∈ hstsNames
  · obtain rfl := List.mem_singleton.mp known
    simp only [hstsWords, serverWords, if_pos known, if_true, storeAll_append, own_append,
      own_storeAll _ named, headers]
  · have other : name ≠ "add_header" := by
      rintro rfl
      exact known (List.mem_singleton_self _)
    simp only [hstsWords, serverWords, if_neg known, if_neg other, List.append_nil]

omit declared in
private theorem declared_hstsWords (src : Sources) {enabled : Bool} (on : enabled = true)
    (subdomains : Bool) (advancedConfig : String) :
    HstsIn (hstsWords src enabled subdomains advancedConfig "add_header") := by
  obtain ⟨args, member, sends⟩ := hstsIn_arguments on subdomains
  exact ⟨args, List.mem_append_left _ (by rw [if_pos rfl]; exact member), sends⟩

end Hsts

section Hosts

variable (cfg : Deployment) (site : Option DefaultSiteSpec) (m : Option MaintenanceSpec)
  {raw : String → List Lib.Node} (skips : SkipsCode raw)

include skips

private theorem hsts_tlsServer {h : ProxyHostSpec} (on : h.hstsEnabled = true)
    (c : CertificateSpec) {level : List Lib.Node} (read : level = expand (serverSources cfg site raw)
      (proxyTlsHead cfg h m ++ certMaterial c ++ certificateDirectives "\n    " c ++
        proxyTlsTail cfg h)) :
    (["443", "ssl"] ∈ own "listen" (storeAll level) →
      ∀ l ∈ levels (serverWords hstsNames (storeAll level)) (storeAll level), SendsHsts l) ↔
      h.cachingEnabled = false ∧ h.maintenanceEnabled = false ∧
      OperatorKeepsHsts (serverSources cfg site raw) h.hstsEnabled h.hstsSubdomains
        h.advancedConfig := by
  have named := allNamed_proxyTlsServer cfg site h m skips c
  have held : locations (expand (serverSources cfg site raw) (proxyTlsServer cfg h.bare m c)) =
      documentLocations cfg (serverSources cfg site raw) h m ++
      routeLocations cfg (serverSources cfg site raw) h := by
    rw [proxyTlsServer, locations_proxyTlsServer cfg site h.bare m skips]
    simp only [ProxyHostSpec.bare, operatorNodes_none, locations_nil, List.append_nil]
    rfl
  have headers : own "add_header" (expand (serverSources cfg site raw)
      (proxyTlsServer cfg h.bare m c)) = hstsArguments h.hstsEnabled h.hstsSubdomains := by
    rw [proxyTlsServer, own_proxyTlsServer cfg site h.bare m skips (Or.inr (Or.inl rfl))]
    simp [ProxyHostSpec.bare, operatorNodes_none]
  have listens : own "listen" (expand (serverSources cfg site raw)
      (proxyTlsServer cfg h.bare m c)) = [["443", "ssl"]] := by
    rw [proxyTlsServer, own_proxyTlsServer cfg site h.bare m skips (Or.inl rfl)]
    simp [ProxyHostSpec.bare, operatorNodes_none]
  rw [← proxyTlsServer, expand_proxyTlsServer] at read
  -- whatever the operator adds, the block listens on 443
  have listening : ["443", "ssl"] ∈ own "listen" (storeAll level) := by
    rw [read, storeAll_append, own_append, own_storeAll _ named, listens]
    exact List.mem_append_left _ (by decide +kernel)
  have body : ∀ l ∈ documentLocations cfg (serverSources cfg site raw) h m ++
      routeLocations cfg (serverSources cfg site raw) h, AllNamed l.body := fun l inside =>
    allNamed_location named (by rw [held]; exact inside)
  rw [List.forall_mem_append] at body
  have declared := declared_hstsWords (serverSources cfg site raw) on h.hstsSubdomains
    h.advancedConfig
  rw [imp_iff_right listening, read, hstsWords_of named headers, forall_levels_storeAll _ named,
    held, List.forall_mem_append, documents_sendHsts cfg m declared body.1,
    routes_sendHsts cfg site declared body.2]
  constructor
  · rintro ⟨⟨maintenance, caching⟩, operators⟩
    exact ⟨caching, maintenance, operators⟩
  · rintro ⟨caching, maintenance, operators⟩
    exact ⟨⟨maintenance, caching⟩, operators⟩

theorem hsts_proxyHost {h : ProxyHostSpec} (tls : h.certificate.isSome = true)
    (on : h.hstsEnabled = true) :
    HstsCovers (serverSources cfg site raw) (proxyHostConf cfg h m) ↔
      h.cachingEnabled = false ∧ h.maintenanceEnabled = false ∧
      OperatorKeepsHsts (serverSources cfg site raw) h.hstsEnabled h.hstsSubdomains
        h.advancedConfig := by
  obtain ⟨c, certificate⟩ := Option.isSome_iff_exists.mp tls
  have plain : ["443", "ssl"] ∉ own "listen" (storeAll
      (expand (serverSources cfg site raw) (proxyPlainServer cfg h m))) := by
    rw [own_storeAll _ (allNamed_proxyPlainServer cfg site h m skips),
      own_proxyPlainServer cfg site h m skips (Or.inl rfl)]
    simp
  rw [HstsCovers, serverLevels, serverBlocks_proxyHost, certificate]
  simp only [List.map_cons, List.map_nil, List.forall_mem_cons]
  rw [hsts_tlsServer cfg site m skips on c rfl]
  constructor
  · exact fun covers => covers.2.1
  · exact fun holds => ⟨fun listens => absurd listens plain, holds, fun _ member => by cases member⟩

omit skips in
/-- The block on port 443 of a host that answers by itself. -/
def bouncerTls (cfg : Deployment) (middle : List Lib.Node) (http2 crowdsec enabled subdomains : Bool)
    (names : List String) (key advancedConfig : String) (c : CertificateSpec) : List Lib.Node :=
  bouncerHead cfg (listenTls http2) names key crowdsec ++ certificateDirectives "\n\n    " c ++
  hsts enabled subdomains ++ middle ++ advanced advancedConfig

section BouncerTls

variable {middle : List Lib.Node} {http2 crowdsec enabled subdomains : Bool} {names : List String}
  {key advancedConfig : String} {c : CertificateSpec}

omit skips in
private theorem expand_bouncerTls (src : Sources) : expand src
    (bouncerTls cfg middle http2 crowdsec enabled subdomains names key advancedConfig c) =
    expand src (bouncerTls cfg middle http2 crowdsec enabled subdomains names key "" c) ++
      operatorNodes src advancedConfig := by
  have none_ : advanced "" = [] := rfl
  simp only [bouncerTls, expand_append, operatorNodes, none_, List.append_nil]

private theorem own_bouncerTls {name : String} (levelled : Levelled name)
    (quiet : own name (expand (serverSources cfg site raw) middle) = []) :
    own name (expand (serverSources cfg site raw)
      (bouncerTls cfg middle http2 crowdsec enabled subdomains names key "" c)) =
      (if name = "listen" then [["443", "ssl"]] else []) ++
      if name = "add_header" then hstsArguments enabled subdomains else [] := by
  have none_ : advanced "" = [] := rfl
  simp only [bouncerTls, expand_append, own_append, own_bouncerHead cfg site skips levelled,
    own_listenTls _ levelled, own_certificate cfg site raw levelled, own_hsts _ levelled,
    quiet, none_, List.append_nil]

private theorem locations_bouncerTls : locations (expand (serverSources cfg site raw)
      (bouncerTls cfg middle http2 crowdsec enabled subdomains names key "" c)) =
      errorCodes.map (errorLocation cfg (serverSources cfg site raw)) ++
      locations (expand (serverSources cfg site raw) middle) := by
  have none_ : advanced "" = [] := rfl
  simp only [bouncerTls, expand_append, locations_append,
    locations_bouncerHead cfg site skips (locations_listenTls _ http2),
    locations_certificateDirectives, locations_hsts, none_, List.append_nil]

private theorem allNamed_bouncerTls
    (plain : AllNamed (expand (serverSources cfg site raw) middle)) :
    AllNamed (expand (serverSources cfg site raw)
      (bouncerTls cfg middle http2 crowdsec enabled subdomains names key "" c)) := by
  have none_ : advanced "" = [] := rfl
  simp only [bouncerTls, expand_append, allNamed_append,
    allNamed_bouncerHead cfg site skips (allNamed_listenTls _ _), allNamed_certificate,
    allNamed_hsts, plain, none_, expand_nil, allNamed_nil, and_self]

/-- Only the operator's own locations can lose the header. -/
private theorem hsts_bouncerTls
    (plain : AllNamed (expand (serverSources cfg site raw) middle))
    (quiet : ∀ name, own name (expand (serverSources cfg site raw) middle) = [])
    (answers : ∀ l ∈ locations (expand (serverSources cfg site raw) middle),
      l.stored.Steady decisive ∧ own "add_header" l.body = [])
    (on : enabled = true) {level : List Lib.Node} (read : level = expand (serverSources cfg site raw)
      (bouncerTls cfg middle http2 crowdsec enabled subdomains names key advancedConfig c)) :
    (["443", "ssl"] ∈ own "listen" (storeAll level) →
      ∀ l ∈ levels (serverWords hstsNames (storeAll level)) (storeAll level), SendsHsts l) ↔
      OperatorKeepsHsts (serverSources cfg site raw) enabled subdomains advancedConfig := by
  have named : AllNamed (expand (serverSources cfg site raw)
      (bouncerTls cfg middle http2 crowdsec enabled subdomains names key "" c)) :=
    allNamed_bouncerTls cfg site skips plain
  have held : locations (expand (serverSources cfg site raw)
      (bouncerTls cfg middle http2 crowdsec enabled subdomains names key "" c)) = _ :=
    locations_bouncerTls cfg site skips
  have headers : own "add_header" (expand (serverSources cfg site raw)
      (bouncerTls cfg middle http2 crowdsec enabled subdomains names key "" c)) =
      hstsArguments enabled subdomains := by
    rw [own_bouncerTls cfg site skips (Or.inr (Or.inl rfl)) (quiet _)]
    rfl
  rw [expand_bouncerTls] at read
  have listening : ["443", "ssl"] ∈ own "listen" (storeAll level) := by
    have listens : own "listen" (expand (serverSources cfg site raw)
        (bouncerTls cfg middle http2 crowdsec enabled subdomains names key "" c)) =
        [["443", "ssl"]] := by
      rw [own_bouncerTls cfg site skips (Or.inl rfl) (quiet _)]
      rfl
    rw [read, storeAll_append, own_append, own_storeAll _ named, listens]
    exact List.mem_append_left _ (by decide +kernel)
  have declared := declared_hstsWords (serverSources cfg site raw) on subdomains advancedConfig
  rw [imp_iff_right listening, read, hstsWords_of named headers, forall_levels_storeAll _ named]
  -- the locations of the template set no header of their own
  refine and_iff_right fun l member => ?_
  have body := allNamed_location named member
  rw [held] at member
  rcases List.mem_append.mp member with error | middle_
  · exact errors_sendHsts cfg declared body error
  · exact sends_silent declared body (answers l middle_).1 (answers l middle_).2

/-- Both blocks of such a host; the one on port 80 listens nowhere else. -/
private theorem hsts_bouncer {conf rest : List Lib.Node}
    (served : blocks "server" conf =
      [([], bouncerHead cfg [.directive "\n    " ["listen", "80"]] names key crowdsec ++
          acmeChallenge cfg ++ rest),
        ([], bouncerTls cfg middle http2 crowdsec enabled subdomains names key advancedConfig c)])
    (named : AllNamed (expand (serverSources cfg site raw) rest))
    (still : own "listen" (expand (serverSources cfg site raw) rest) = [])
    (plain : AllNamed (expand (serverSources cfg site raw) middle))
    (quiet : ∀ name, own name (expand (serverSources cfg site raw) middle) = [])
    (answers : ∀ l ∈ locations (expand (serverSources cfg site raw) middle),
      l.stored.Steady decisive ∧ own "add_header" l.body = [])
    (on : enabled = true) : HstsCovers (serverSources cfg site raw) conf ↔
      OperatorKeepsHsts (serverSources cfg site raw) enabled subdomains advancedConfig := by
  have listen : AllNamed (expand (serverSources cfg site raw)
      [.directive "\n    " ["listen", "80"]]) := by
    simp
    decide
  have direct : ["443", "ssl"] ∉ own "listen" (storeAll (expand (serverSources cfg site raw)
      (bouncerHead cfg [.directive "\n    " ["listen", "80"]] names key crowdsec ++
        acmeChallenge cfg ++ rest))) := by
    rw [own_storeAll]
    · simp only [expand_append, own_append, own_bouncerHead cfg site skips (Or.inl rfl), still]
      simp [acmeChallenge]
    · simp only [expand_append, allNamed_append, allNamed_bouncerHead cfg site skips listen,
        allNamed_acmeChallenge, named, and_self]
  rw [HstsCovers, serverLevels, served]
  simp only [List.map_cons, List.map_nil, List.forall_mem_cons]
  rw [hsts_bouncerTls cfg site skips plain quiet answers on rfl]
  constructor
  · exact fun covers => covers.2.1
  · exact fun holds =>
      ⟨fun listens => absurd listens direct, holds, fun _ member => by cases member⟩

end BouncerTls

omit skips in
private theorem steady_returning {l : Location} {lead : String} {words : List String}
    (held : l.body = [.directive lead words]) : l.stored.Steady decisive := by
  refine Location.steady_of_none fun level => ?_
  simp [Location.stored, held]

omit skips in
private theorem named_security_redirect (src : Sources) (h : RedirectionHostSpec) :
    AllNamed (expand src (security h.blockExploits ++ [redirectLocation h])) := by
  rw [expand_append, allNamed_append]
  exact ⟨allNamed_security _ _, allNamed_redirectLocation _ _⟩

theorem hsts_redirectionHost {h : RedirectionHostSpec} (tls : h.certificate.isSome = true)
    (on : h.hstsEnabled = true) :
    HstsCovers (serverSources cfg site raw) (redirectionHostConf cfg h) ↔
      OperatorKeepsHsts (serverSources cfg site raw) h.hstsEnabled h.hstsSubdomains
        h.advancedConfig := by
  obtain ⟨c, certificate⟩ := Option.isSome_iff_exists.mp tls
  have served : blocks "server" (redirectionHostConf cfg h) =
      [([], bouncerHead cfg [.directive "\n    " ["listen", "80"]] h.domainNames
          ("r" ++ toString h.id) h.crowdsecEnabled ++ acmeChallenge cfg ++
          if h.sslForced then [httpsRedirect] else security h.blockExploits ++ [redirectLocation h]),
        ([], bouncerTls cfg (security h.blockExploits ++ [redirectLocation h]) h.http2Support
          h.crowdsecEnabled h.hstsEnabled h.hstsSubdomains h.domainNames ("r" ++ toString h.id)
          h.advancedConfig c)] := by
    rw [redirectionHostConf, certificate]
    simp [managedHeader, bouncerTls]
  have quiet : ∀ name, own name (expand (serverSources cfg site raw)
      (security h.blockExploits ++ [redirectLocation h])) = [] := by
    intro name
    simp [own_security, redirectLocation]
  refine hsts_bouncer cfg site skips served ?_ ?_ (named_security_redirect _ h) quiet ?_ on
  · split
    · exact allNamed_httpsRedirect _
    · exact named_security_redirect _ h
  · split
    · simp [httpsRedirect]
    · exact quiet _
  · simp only [expand_append, locations_append, locations_security, List.nil_append]
    intro l member
    simp [redirectLocation] at member
    subst member
    exact ⟨steady_returning rfl, by simp⟩

theorem hsts_deadHost {h : DeadHostSpec} (tls : h.certificate.isSome = true)
    (on : h.hstsEnabled = true) :
    HstsCovers (serverSources cfg site raw) (deadHostConf cfg h) ↔
      OperatorKeepsHsts (serverSources cfg site raw) h.hstsEnabled h.hstsSubdomains
        h.advancedConfig := by
  obtain ⟨c, certificate⟩ := Option.isSome_iff_exists.mp tls
  have served : blocks "server" (deadHostConf cfg h) =
      [([], bouncerHead cfg [.directive "\n    " ["listen", "80"]] h.domainNames
          ("d" ++ toString h.id) h.crowdsecEnabled ++ acmeChallenge cfg ++
          [if h.sslForced then httpsRedirect else deadLocation]),
        ([], bouncerTls cfg [deadLocation] h.http2Support h.crowdsecEnabled h.hstsEnabled
          h.hstsSubdomains h.domainNames ("d" ++ toString h.id) h.advancedConfig c)] := by
    rw [deadHostConf, certificate]
    simp [managedHeader, bouncerTls]
  refine hsts_bouncer cfg site skips served ?_ ?_ (allNamed_deadLocation _) ?_ ?_ on
  · split
    · exact allNamed_httpsRedirect _
    · exact allNamed_deadLocation _
  · split <;> simp [httpsRedirect, deadLocation]
  · simp [deadLocation]
  · intro l member
    simp [deadLocation] at member
    subst member
    exact ⟨steady_returning rfl, by simp⟩

omit skips in
/-- The three kinds of host. -/
theorem hsts_covers_iff (skips : SkipsCode raw) :
    (∀ h : ProxyHostSpec, h.certificate.isSome = true → h.hstsEnabled = true →
      (HstsCovers (serverSources cfg site raw) (proxyHostConf cfg h m) ↔
        h.cachingEnabled = false ∧ h.maintenanceEnabled = false ∧
        OperatorKeepsHsts (serverSources cfg site raw) h.hstsEnabled h.hstsSubdomains
          h.advancedConfig)) ∧
    (∀ h : RedirectionHostSpec, h.certificate.isSome = true → h.hstsEnabled = true →
      (HstsCovers (serverSources cfg site raw) (redirectionHostConf cfg h) ↔
        OperatorKeepsHsts (serverSources cfg site raw) h.hstsEnabled h.hstsSubdomains
          h.advancedConfig)) ∧
    (∀ h : DeadHostSpec, h.certificate.isSome = true → h.hstsEnabled = true →
      (HstsCovers (serverSources cfg site raw) (deadHostConf cfg h) ↔
        OperatorKeepsHsts (serverSources cfg site raw) h.hstsEnabled h.hstsSubdomains
          h.advancedConfig)) :=
  ⟨fun _ tls on => hsts_proxyHost cfg site m skips tls on,
    fun _ tls on => hsts_redirectionHost cfg site skips tls on,
    fun _ tls on => hsts_deadHost cfg site skips tls on⟩

end Hosts

def sampleCertificate : CertificateSpec :=
  ⟨1, "/certs/1/fullchain.pem", "/certs/1/privkey.pem", ""⟩

/-- A host with a certificate and HSTS, and the assets cached or not. -/
def strictHost (caching : Bool) : ProxyHostSpec where
  id := 1
  domainNames := ["example.com"]
  upstreamId := some 1
  certificate := some sampleCertificate
  hstsEnabled := true
  cachingEnabled := caching
  advancedConfig := "operator"

/-- A location with headers of its own that repeats this one, around one that adds none. -/
def headedLocation : List Lib.Node :=
  [.block "\n    " ["location", "/app/"] [
    .directive "\n        " ["add_header", "X-Frame-Options", "DENY"],
    .directive "\n        " ["add_header", "strict-transport-security", "max-age=300"],
    .block "\n        " ["location", "/app/api/"] [
      .directive "\n            " ["return", "204"]] "\n        "] "\n    "]

theorem hsts_covers_strict :
    HstsCovers (serverSources sampleDeployment none (operatorText headedLocation))
      (proxyHostConf sampleDeployment (strictHost false) none) ∧
    HstsCovers (serverSources sampleDeployment none (operatorText headedLocation))
      (deadHostConf sampleDeployment
        { id := 2, domainNames := [], certificate := some sampleCertificate, hstsEnabled := true }) := by
  obtain ⟨proxy, _, dead⟩ := hsts_covers_iff sampleDeployment none none
    (skipsCode_operatorText headedLocation)
  refine ⟨(proxy (strictHost false) rfl rfl).mpr ⟨rfl, rfl, ?_⟩, (dead _ rfl rfl).mpr ?_⟩
  · decide +kernel
  · exact fun _ member => by cases member

/-- The cached assets lose the header. -/
theorem hsts_cachedAssets :
    ((strictHost true).certificate.isSome = true ∧ (strictHost true).hstsEnabled = true) ∧
    ¬HstsCovers (serverSources sampleDeployment none (operatorText headedLocation))
      (proxyHostConf sampleDeployment (strictHost true) none) :=
  ⟨by decide, by decide +kernel⟩

end MegooPM
