import MegooPM.Lib.TreeTexts
import MegooPM.Nginx.TemplateFacts

/-!
# The texts of the templates

What a policy asks of a rendered file. The literal text of the templates is harmless, so
what remains is asked of the values that are filled in.
-/
namespace MegooPM

open Lib Lib.Node

/-- The directories and digests of a deployment are plain text. -/
structure PlainDeployment (cfg : Deployment) : Prop where
  confdDir : PlainWord cfg.nginxConfdDir
  defaultDir : PlainWord cfg.nginxDefaultDir
  certsDir : PlainWord cfg.nginxCertsDir
  challengeDir : PlainWord cfg.acmeHttpChallengeDir
  digest : ∀ text, PlainText (cfg.digest text)

section Leads

@[simp] theorem lineLead_file : LineLead "\n" := by decide

@[simp] theorem lineLead_fileGap : LineLead "\n\n" := by decide

@[simp] theorem lineLead_server : LineLead "\n    " := by decide

@[simp] theorem lineLead_serverGap : LineLead "\n\n    " := by decide

@[simp] theorem lineLead_location : LineLead "\n        " := by decide

end Leads

/-! ### Plain words with a value -/

theorem plainWord_poolName (i : Id) : PlainWord (poolName i) := by
  rw [poolName_eq]
  exact (PlainWord.literal _ rfl rfl).append (plainText_int i)

/-- A literal with a number behind it. -/
theorem plainWord_numbered (kind : List Char) (plain : kind.all plainChar = true)
    (some : kind.isEmpty = false) (i : Id) : PlainWord (String.ofList kind ++ toString i) :=
  (PlainWord.literal kind plain some).append (plainText_int i)

/-- A file in a plain directory. -/
theorem plainWord_under {dir : String} (plain : PlainWord dir) {name : String}
    (rest : PlainText name) : PlainWord (dir ++ "/" ++ name) :=
  (plain.append (PlainText.literal _ rfl)).append rest

theorem plainText_htpasswdFilename (i : Id) : PlainText (htpasswdFilename i) := by
  rw [htpasswdFilename_eq]
  exact ((plainWord_numbered _ rfl rfl i).append (PlainText.literal _ rfl)).plain

theorem plainText_locationHtml (i : Option Id) : PlainText (locationHtml i) := by
  have framed : ∀ number : String, PlainText number →
      PlainText ("megoopm-location-" ++ number ++ ".html") := by
    intro number plain
    exact (((PlainWord.literal _ rfl rfl).append plain).append (PlainText.literal _ rfl)).plain
  cases i with
  | none => exact framed "None" (PlainText.literal _ rfl)
  | some i => exact framed (toString i) (plainText_int i)

private theorem repr_ne_nil (n : Nat) : n.repr.toList ≠ [] := by
  rw [Nat.toList_repr]
  exact Nat.toDigits_ne_nil

theorem toString_ne_nil (i : Id) : (toString i).toList ≠ [] := by
  cases i with
  | ofNat n => exact repr_ne_nil n
  | negSucc n =>
    have text : toString (Int.negSucc n) = "-" ++ (n + 1).repr := rfl
    rw [text, String.toList_append]
    exact fun empty => repr_ne_nil _ (List.append_eq_nil_iff.mp empty).2

theorem plainText_optionText {i : Option Id} : PlainText (optionText i) := by
  cases i with
  | none => exact PlainText.literal _ rfl
  | some i => exact plainText_int i

/-- What a template reads of a certificate is plain. -/
structure PlainCertificate (c : CertificateSpec) : Prop where
  fullchain : PlainWord c.fullchainPath
  privkey : PlainWord c.privkeyPath
  fingerprint : PlainText c.fingerprint

variable {p : Policy} {cfg : Deployment}

/-! ### Shared pieces -/

@[simp] theorem obeyAll_when (c : Bool) (inline : Bool) (nodes : List Lib.Node) :
    ObeyAll p inline (when c nodes) ↔ (c = true → ObeyAll p inline nodes) := by
  cases c <;> simp [when]

theorem obeys_liveLog (ordinary : p.Ordinary) {key : String} (plain : PlainWord key)
    (bounces : Bool) : ObeyAll p false (liveLog key bounces) := by
  have tag : PlainWord ("syslog:server=127.0.0.1:5140,tag=mgm_" ++ key ++ ",nohostname") :=
    ((PlainWord.literal _ rfl rfl).append plain.plain).append (PlainText.literal _ rfl)
  have word := ordinary.plain plain
  have target := ordinary.plain tag
  cases bounces
  all_goals
    simp [liveLog, notes, when, word, target]
    and_intros
    all_goals first | exact ordinary.literal _ rfl | exact ordinary.comment _ rfl

theorem obeys_liveStreamLog (ordinary : p.Ordinary) {key : String} (plain : PlainWord key) :
    ObeyAll p false (liveStreamLog key) := by
  have tag : PlainWord ("syslog:server=127.0.0.1:5140,tag=mgm_" ++ key ++ ",nohostname") :=
    ((PlainWord.literal _ rfl rfl).append plain.plain).append (PlainText.literal _ rfl)
  have word := ordinary.plain plain
  have target := ordinary.plain tag
  simp [liveStreamLog, word, target]
  and_intros
  all_goals first | exact ordinary.literal _ rfl | exact ordinary.comment _ rfl

theorem obeys_brandedErrors (ordinary : p.Ordinary) (plain : PlainDeployment cfg) :
    ObeyAll p false (brandedErrors cfg) := by
  have errors := ordinary.plain (plainWord_under plain.defaultDir
    (show PlainText errorsConf from PlainText.literal _ rfl))
  simp [brandedErrors, notes, errors]
  and_intros
  all_goals first | exact ordinary.literal _ rfl | exact ordinary.comment _ rfl

theorem obeys_security (ordinary : p.Ordinary) (enabled : Bool) :
    ObeyAll p false (security enabled) := by
  simp [security]
  intro _
  and_intros
  all_goals first | exact ordinary.literal _ rfl | exact ordinary.comment _ rfl

theorem obeys_hsts (ordinary : p.Ordinary) (enabled subdomains : Bool) :
    ObeyAll p false (hsts enabled subdomains) := by
  cases subdomains
  all_goals
    simp [hsts]
    intro _
    and_intros
    all_goals exact ordinary.literal _ rfl

/-- The webroot of the challenges. -/
private theorem challengeRoot (ordinary : p.Ordinary) (plain : PlainDeployment cfg) :
    p.word (cfg.acmeHttpChallengeDir ++ "/") :=
  ordinary.plain (plain.challengeDir.append (PlainText.literal _ rfl))

theorem obeys_acmeChallenge (ordinary : p.Ordinary) (plain : PlainDeployment cfg) :
    ObeyAll p false (acmeChallenge cfg) := by
  simp [acmeChallenge, challengeRoot ordinary plain]
  and_intros
  all_goals first | exact ordinary.literal _ rfl | exact ordinary.comment _ rfl

theorem obeys_httpsRedirect (ordinary : p.Ordinary) : Obeys p false httpsRedirect := by
  simp [httpsRedirect]
  and_intros
  all_goals exact ordinary.literal _ rfl

theorem obeys_certificateDirectives (ordinary : p.Ordinary) {lead : String}
    (begins : LineLead lead) {c : CertificateSpec} (plain : PlainCertificate c) :
    ObeyAll p false (certificateDirectives lead c) := by
  simp [certificateDirectives, begins, ordinary.plain plain.fullchain,
    ordinary.plain plain.privkey]
  and_intros
  all_goals exact ordinary.literal _ rfl

theorem obeys_certMaterial (ordinary : p.Ordinary) {c : CertificateSpec}
    (plain : PlainCertificate c) : ObeyAll p false (certMaterial c) := by
  have material : p.note ("cert-material " ++ toString c.id ++ ":" ++ c.fingerprint) := by
    refine ordinary.note ?_
    simp only [oneLine_append]
    exact ⟨⟨⟨OneLine.literal _ rfl, .of_plain (plainText_int _)⟩, OneLine.literal _ rfl⟩,
      .of_plain plain.fingerprint⟩
  simp only [certMaterial, notes, List.map_cons, List.map_nil, List.cons_append, List.nil_append,
    obeyAll_cons, obeyAll_nil, obeys_comment, lineLead_serverGap, lineLead_server, true_and, and_true,
    material]
  and_intros
  all_goals exact ordinary.comment _ rfl

theorem obeys_serverNames (ordinary : p.Ordinary) (names : List String) :
    Obeys p false (serverNames names) ↔ ∀ w ∈ serverArguments names, p.word w := by
  have name : p.word "server_name" := ordinary.literal _ rfl
  simp [serverNames, name]

@[simp] theorem obeys_advanced (text : String) :
    ObeyAll p false (advanced text) ↔ (text ≠ "" → p.code (indent4 text)) := by
  simp [advanced]

/-- The text of the bouncer is closed, whatever plain key it names. -/
private theorem settles_rewrite {key : String} (plain : PlainText key) :
    Settles ("server_rewrite_by_lua_block \x7b require(\"megoopm_crowdsec_check\").check(\"" ++ key ++
      "\") \x7d") := by
  have front : LexState.between.run
      ("server_rewrite_by_lua_block \x7b require(\"megoopm_crowdsec_check\").check(\"" : String).toList =
      ([.word "server_rewrite_by_lua_block".toList, .opens],
        .inWord "require(\"megoopm_crowdsec_check\").check(\"".toList false) := by
    decide +kernel
  have ending : ("\") \x7d" : String).toList = ['"', ')', ' ', '\x7d'] := rfl
  rw [Settles, String.toList_append, String.toList_append, LexState.run_append, LexState.run_append,
    front, LexState.run_plain plain, ending]
  rfl

theorem obeys_crowdsecServerRewrite (ordinary : p.Ordinary) {key : String} (plain : PlainText key) :
    ObeyAll p false (crowdsecServerRewrite key) := by
  have clean : NoCarriageReturn
      ("server_rewrite_by_lua_block \x7b require(\"megoopm_crowdsec_check\").check(\""
      ++ key ++ "\") \x7d") := by
    simp only [noCarriageReturn_append, plain.noCarriageReturn, and_true]
    exact ⟨(OneLine.literal _ rfl).2, (OneLine.literal _ rfl).2⟩
  simp [crowdsecServerRewrite, ordinary.code (settles_rewrite plain) clean]

/-! ### `upstream.conf.j2` -/

theorem obeys_lbDirective (ordinary : p.Ordinary) (method : LoadBalanceMethod) :
    ObeyAll p false (lbDirective method) := by
  cases method
  all_goals
    simp [lbDirective]
    try and_intros
    all_goals exact ordinary.literal _ rfl

theorem obeys_backend (ordinary : p.Ordinary) (b : BackendSpec) :
    Obeys p false (.directive "\n    " (backendWords b)) ↔
      p.word (b.host ++ ":" ++ toString b.port) := by
  have numbered : ∀ (name : List Char) (n : Nat), name.all plainChar = true → name.isEmpty = false →
      p.word (String.ofList name ++ toString n) :=
    fun name n plain some => ordinary.plain ((PlainWord.literal name plain some).append
      (plainText_nat n))
  have timeout : p.word ("fail_timeout=" ++ toString b.failTimeoutSeconds ++ "s") :=
    ordinary.plain (((PlainWord.literal _ rfl rfl).append (plainText_nat _)).append
      (PlainText.literal _ rfl))
  have weight : p.word ("weight=" ++ toString b.weight) := numbered _ _ rfl rfl
  have fails : p.word ("max_fails=" ++ toString b.maxFails) := numbered _ _ rfl rfl
  have server : p.word "server" := ordinary.literal _ rfl
  have backup : p.word "backup" := ordinary.literal _ rfl
  have down : p.word "down" := ordinary.literal _ rfl
  have flags : ∀ w ∈ (if b.backup then ["backup"] else []) ++ (if b.down then ["down"] else []),
      p.word w := by
    intro w member
    rcases List.mem_append.mp member with flag | flag <;> split at flag <;> simp at flag
    · rw [flag]
      exact backup
    · rw [flag]
      exact down
  have some : backendWords b ≠ [] := by simp [backendWords]
  rw [obeys_directive_line, and_iff_right lineLead_server, and_iff_right some, backendWords,
    List.append_assoc, List.forall_mem_append, and_iff_left flags]
  simp only [List.forall_mem_cons, List.not_mem_nil, false_implies, implies_true, server, weight,
    fails, timeout, true_and, and_true]

theorem obeys_upstreamConf (ordinary : p.Ordinary) (u : UpstreamSpec) :
    ObeyAll p false (upstreamConf u).tail ↔
      p.note ("upstream pool: " ++ u.name ++ " (id=" ++ toString u.id ++ ")") ∧
      ∀ b ∈ u.backends, p.word (b.host ++ ":" ++ toString b.port) := by
  have name : p.word "upstream" := ordinary.literal _ rfl
  have pool := ordinary.plain (plainWord_poolName u.id)
  have method := obeys_lbDirective ordinary u.lbMethod
  simp only [upstreamConf, List.tail_cons, obeyAll_cons, obeyAll_nil, obeys_comment,
    obeys_block_lines, obeyAll_append, obeyAll_map, obeys_backend ordinary, List.forall_mem_cons,
    lineLead_file, name, pool, method]
  simp

/-! ### `server.conf.j2` -/

theorem obeys_maintenanceGuard (ordinary : p.Ordinary) (h : ProxyHostSpec) :
    ObeyAll p false (maintenanceGuard h) := by
  have switch : p.word ("($mgm_maint_" ++ toString h.id ++ ")") :=
    ordinary.plain (((PlainWord.literal _ rfl rfl).append (plainText_int _)).append
      (PlainText.literal _ rfl))
  simp only [maintenanceGuard, notes, List.map_cons, List.map_nil, obeyAll_when, obeyAll_append,
    obeyAll_cons, obeyAll_nil, obeys_comment, obeys_block_inline, obeys_directive_inline,
    List.forall_mem_cons, lineLead_location, switch]
  simp
  intro _
  and_intros
  all_goals first | exact ordinary.literal _ rfl | exact ordinary.comment _ rfl

theorem obeys_forwardedHeaders (ordinary : p.Ordinary) : ObeyAll p false forwardedHeaders := by
  simp [forwardedHeaders]
  and_intros
  all_goals exact ordinary.literal _ rfl

/-- A location that proxies onward: its path and its target. -/
theorem obeys_proxyBlock (ordinary : p.Ordinary) (h : ProxyHostSpec) (path : List String)
    (scheme : HttpScheme) (target : String) :
    Obeys p false (proxyBlock h path scheme target) ↔
      (∀ w ∈ path, p.word w) ∧ p.word (scheme.value ++ "://" ++ target) := by
  have location : p.word "location" := ordinary.literal _ rfl
  have pass : p.word "proxy_pass" := ordinary.literal _ rfl
  have header : p.word "proxy_set_header" := ordinary.literal _ rfl
  have host : p.word "Host" ∧ p.word "$host" := ⟨ordinary.literal _ rfl, ordinary.literal _ rfl⟩
  have version : p.word "proxy_http_version" ∧ p.word "1.1" :=
    ⟨ordinary.literal _ rfl, ordinary.literal _ rfl⟩
  have upgrade : p.word "Upgrade" ∧ p.word "$http_upgrade" ∧ p.word "Connection" ∧
      p.word "$connection_upgrade" :=
    ⟨ordinary.literal _ rfl, ordinary.literal _ rfl, ordinary.literal _ rfl,
      ordinary.literal _ rfl⟩
  have consumed : p.note "Access list consumes the basic-auth header; do not forward it upstream." ∧
      p.word "Authorization" ∧ p.word "\"\"" :=
    ⟨ordinary.comment _ rfl, ordinary.literal _ rfl, ordinary.literal _ rfl⟩
  simp [proxyBlock, obeys_maintenanceGuard ordinary, obeys_forwardedHeaders ordinary, location,
    pass, header, host, version, upgrade, consumed]

/-- A location nginx answers itself: its path, and nothing else that was entered. -/
theorem obeys_answeredBlock (ordinary : p.Ordinary) (plain : PlainDeployment cfg)
    (h : ProxyHostSpec) (l : LocationSpec) :
    Obeys p false (answeredBlock cfg h l) ↔ p.word l.path := by
  have location : p.word "location" ∧ p.word "^~" := ⟨ordinary.literal _ rfl, ordinary.literal _ rfl⟩
  have page : p.word ("/" ++ locationHtml l.id) :=
    ordinary.plain ((PlainWord.literal _ rfl rfl).append (plainText_locationHtml l.id))
  have code : p.word (optionText l.errorCode) := by
    refine ordinary.plain ⟨plainText_optionText, ?_⟩
    cases l.errorCode with
    | none => decide
    | some i => exact toString_ne_nil i
  have body := ordinary.plain (plainWord_under plain.defaultDir
    (show PlainText defaultSiteBody from PlainText.literal _ rfl))
  have root := ordinary.plain plain.defaultDir
  cases target : l.target
  all_goals
    simp [answeredBlock, target, notes, obeys_maintenanceGuard ordinary, location, page, code, body,
      root]
    intro _
    and_intros
    all_goals first | exact ordinary.literal _ rfl | exact ordinary.comment _ rfl

/-- One extra route: its path, and where it proxies to. -/
theorem obeys_extraRoute (ordinary : p.Ordinary) (plain : PlainDeployment cfg)
    (h : ProxyHostSpec) (l : LocationSpec) :
    ObeyAll p false (extraRoute cfg h l) ↔ p.word l.path ∧ (l.target.proxies = true →
      p.word (l.forwardScheme.value ++ "://" ++ ((locationTargets h)[l.path]?).getD "")) := by
  have note : p.note "Extra route: ^~ makes the longest prefix win over the cache-assets regex." :=
    ordinary.comment _ rfl
  have modifier : p.word "^~" := ordinary.literal _ rfl
  cases proxies : l.target.proxies with
  | true => simp [extraRoute, proxies, note, modifier, obeys_proxyBlock ordinary]
  | false => simp [extraRoute, proxies, note, obeys_answeredBlock ordinary plain]

theorem obeys_cachedAssets (ordinary : p.Ordinary) (h : ProxyHostSpec) :
    Obeys p false (cachedAssets h) ↔ p.word (h.forwardScheme.value ++ "://" ++ hostTarget h) := by
  simp [cachedAssets, notes, obeys_maintenanceGuard ordinary, obeys_forwardedHeaders ordinary]
  refine ⟨fun all => ?_, fun target => ?_⟩
  · tauto
  · and_intros
    all_goals first | exact target | exact ordinary.literal _ rfl | exact ordinary.comment _ rfl

/-- What a policy asks of the places a host forwards to. -/
structure RoutesObey (p : Policy) (h : ProxyHostSpec) : Prop where
  target : p.word (h.forwardScheme.value ++ "://" ++ hostTarget h)
  paths : ∀ l ∈ h.locations, p.word l.path
  locations : ∀ l ∈ h.locations, l.target.proxies = true →
    p.word (l.forwardScheme.value ++ "://" ++ ((locationTargets h)[l.path]?).getD "")

theorem obeys_proxyLocation (ordinary : p.Ordinary) (plain : PlainDeployment cfg)
    (h : ProxyHostSpec) : ObeyAll p false (proxyLocation cfg h) ↔ RoutesObey p h := by
  have slash : p.word "/" := ordinary.literal _ rfl
  simp only [proxyLocation, obeyAll_append, obeyAll_cons, obeyAll_nil, obeyAll_when, obeyAll_flatMap,
    obeys_proxyBlock ordinary, obeys_extraRoute ordinary plain, obeys_cachedAssets ordinary,
    List.forall_mem_singleton, slash, true_and, and_true]
  constructor
  · rintro ⟨⟨target, routes⟩, _⟩
    exact ⟨target, fun l member => (routes l member).1, fun l member => (routes l member).2⟩
  · intro obey
    exact ⟨⟨obey.target, fun l member => ⟨obey.paths l member, obey.locations l member⟩⟩,
      fun _ => obey.target⟩

theorem obeys_proxyCrowdsec (ordinary : p.Ordinary) (h : ProxyHostSpec) (serverRewrite : Bool) :
    ObeyAll p false (proxyCrowdsec h serverRewrite) := by
  have key : PlainText ("p" ++ toString h.id) := (plainWord_numbered _ rfl rfl h.id).plain
  have rewrite := obeys_crowdsecServerRewrite ordinary key
  cases serverRewrite <;> cases appsec : h.crowdsecAppsecEnabled
  all_goals
    simp only [proxyCrowdsec, notes, List.map_cons, List.map_nil, obeyAll_when, obeyAll_append,
      obeyAll_cons, obeyAll_nil, obeys_comment, obeys_directive_line, List.forall_mem_cons,
      lineLead_server, Bool.false_eq_true, if_true, if_false, rewrite, appsec]
    simp
    intro _
    and_intros
    all_goals first | exact ordinary.literal _ rfl | exact ordinary.comment _ rfl

/-- What a policy asks of an access list. -/
structure AccessListObeys (p : Policy) (a : AccessListSpec) : Prop where
  comment : p.note ("Access list \"" ++ a.name ++ "\" (MEG-21).")
  realm : a.authUsers ≠ [] → p.word ("\"" ++ a.name ++ "\"")
  addresses : ∀ r ∈ a.clientRules, p.word r.address

theorem obeys_accessControl (ordinary : p.Ordinary) (plain : PlainDeployment cfg)
    (h : ProxyHostSpec) :
    ObeyAll p false (accessControl cfg h) ↔ ∀ a, h.accessList = some a → AccessListObeys p a := by
  cases list : h.accessList with
  | none => simp [accessControl, list]
  | some a =>
    have file : p.word (htpasswdPath cfg a.id) :=
      ordinary.plain (plainWord_under plain.confdDir (plainText_htpasswdFilename a.id))
    have literals : p.word "auth_basic" ∧ p.word "auth_basic_user_file" ∧ p.word "satisfy" ∧
        p.note "Pass if EITHER gate is satisfied (any) or require BOTH (all)." :=
      ⟨ordinary.literal _ rfl, ordinary.literal _ rfl, ordinary.literal _ rfl,
        ordinary.comment _ rfl⟩
    have mode : p.word (if a.satisfyAny = true then "any" else "all") := by
      split
      · exact ordinary.literal _ rfl
      · exact ordinary.literal _ rfl
    have directive : ∀ d : AccessListDirective, p.word d.value := by
      intro d
      cases d
      · exact ordinary.literal _ rfl
      · exact ordinary.literal _ rfl
    have users : (!a.authUsers.isEmpty) = true ↔ a.authUsers ≠ [] := by simp
    simp only [accessControl, list, obeyAll_append, obeyAll_cons, obeyAll_nil, obeyAll_when,
      obeyAll_map, obeys_comment, obeys_directive_line, List.forall_mem_cons, lineLead_server, file,
      literals, mode, directive, users]
    simp
    constructor
    · rintro ⟨⟨comment, realm⟩, addresses⟩
      exact ⟨comment, realm, addresses⟩
    · intro obey
      exact ⟨⟨obey.comment, obey.realm⟩, obey.addresses⟩

theorem obeys_maintenancePage (ordinary : p.Ordinary) (plain : PlainDeployment cfg)
    (h : ProxyHostSpec) (maintenance : Option MaintenanceSpec) :
    ObeyAll p false (maintenancePage cfg h maintenance) := by
  have root := ordinary.plain plain.defaultDir
  have page : p.word ("/" ++ maintenanceHtml) :=
    ordinary.plain ((PlainWord.literal _ rfl rfl).append
      (show PlainText maintenanceHtml from PlainText.literal _ rfl))
  have seconds : p.word (toString ((maintenance.elim 60 (·.retryAfterMinutes)) * 60)) :=
    ordinary.plain ⟨plainText_int _, toString_ne_nil _⟩
  simp only [maintenancePage, notes, List.map_cons, List.map_nil, obeyAll_when, obeyAll_append,
    obeyAll_cons, obeyAll_nil, obeys_comment, obeys_directive_line, obeys_block_lines,
    List.forall_mem_cons, lineLead_server, lineLead_serverGap, lineLead_location, root, page, seconds]
  simp
  intro _
  and_intros
  all_goals first | exact ordinary.literal _ rfl | exact ordinary.comment _ rfl

theorem obeys_proxyAcmeChallenge (ordinary : p.Ordinary) (plain : PlainDeployment cfg)
    (h : ProxyHostSpec) : ObeyAll p false (proxyAcmeChallenge cfg h) := by
  cases guarded : h.accessList.isSome
  all_goals
    simp [proxyAcmeChallenge, notes, guarded, challengeRoot ordinary plain]
    and_intros
    all_goals first | exact ordinary.literal _ rfl | exact ordinary.comment _ rfl

theorem obeys_maintenanceGeo (ordinary : p.Ordinary) (h : ProxyHostSpec) :
    ObeyAll p false (maintenanceGeo h) ↔
      (h.maintenanceEnabled = true → ∀ entry ∈ h.maintenanceAllow, p.word entry) := by
  have switch : p.word ("$mgm_maint_" ++ toString h.id) :=
    ordinary.plain (plainWord_numbered _ rfl rfl h.id)
  have literals : p.word "geo" ∧ p.word "default" ∧ p.word "1" ∧ p.word "0" :=
    ⟨ordinary.literal _ rfl, ordinary.literal _ rfl, ordinary.literal _ rfl,
      ordinary.literal _ rfl⟩
  have comments : p.note
      "Which addresses skip maintenance for this host. 0 lets the address through." ∧
      p.note "`geo` is an http-context directive and this file is included from http\x7b\x7d." :=
    ⟨ordinary.comment _ rfl, ordinary.comment _ rfl⟩
  simp only [maintenanceGeo, obeyAll_when, obeyAll_cons, obeyAll_nil, obeyAll_map, obeys_comment,
    obeys_directive_line, obeys_block_lines, List.forall_mem_cons, lineLead_file, lineLead_fileGap,
    lineLead_server, switch, literals, comments]
  simp

/-- What a policy asks of the values a proxy host is rendered with. -/
structure ProxyHostObeys (p : Policy) (h : ProxyHostSpec) : Prop where
  names : ∀ w ∈ serverArguments h.domainNames, p.word w
  routes : RoutesObey p h
  accessList : ∀ a, h.accessList = some a → AccessListObeys p a
  maintenance : h.maintenanceEnabled = true → ∀ entry ∈ h.maintenanceAllow, p.word entry
  advanced : h.advancedConfig ≠ "" → p.code (indent4 h.advancedConfig)

private theorem listen (ordinary : p.Ordinary) :
    p.word "listen" ∧ p.word "80" ∧ p.word "443" ∧ p.word "ssl" ∧ p.word "http2" ∧ p.word "on" :=
  ⟨ordinary.literal _ rfl, ordinary.literal _ rfl, ordinary.literal _ rfl, ordinary.literal _ rfl,
    ordinary.literal _ rfl, ordinary.literal _ rfl⟩

private theorem obeys_hostLog (ordinary : p.Ordinary) (h : ProxyHostSpec) (bounces : Bool) :
    ObeyAll p false (liveLog ("p" ++ toString h.id) bounces) :=
  obeys_liveLog ordinary (plainWord_numbered _ rfl rfl h.id) bounces

theorem obeys_proxyTlsHead (ordinary : p.Ordinary) (plain : PlainDeployment cfg)
    (h : ProxyHostSpec) (maintenance : Option MaintenanceSpec) :
    ObeyAll p false (proxyTlsHead cfg h maintenance) ↔
      ∀ w ∈ serverArguments h.domainNames, p.word w := by
  simp only [proxyTlsHead, obeyAll_append, obeyAll_cons, obeyAll_nil, obeyAll_when,
    obeys_directive_line, List.forall_mem_cons, lineLead_server, listen ordinary,
    obeys_maintenancePage ordinary plain, obeys_brandedErrors ordinary plain,
    obeys_hostLog ordinary, obeys_serverNames ordinary]
  simp

theorem obeys_proxyTlsTail (ordinary : p.Ordinary) (plain : PlainDeployment cfg)
    (h : ProxyHostSpec) :
    ObeyAll p false (proxyTlsTail cfg h) ↔
      (∀ a, h.accessList = some a → AccessListObeys p a) ∧ RoutesObey p h ∧
      (h.advancedConfig ≠ "" → p.code (indent4 h.advancedConfig)) := by
  simp only [proxyTlsTail, obeyAll_append, obeys_hsts ordinary, obeys_proxyCrowdsec ordinary,
    obeys_accessControl ordinary plain, obeys_security ordinary, obeys_proxyLocation ordinary plain,
    obeys_advanced, true_and, and_true, and_assoc]

/-- A server that only redirects asks for no more than its names. -/
theorem obeys_proxyPlainServer (ordinary : p.Ordinary) (plain : PlainDeployment cfg)
    (h : ProxyHostSpec) (maintenance : Option MaintenanceSpec) :
    ObeyAll p false (proxyPlainServer cfg h maintenance) ↔
      (∀ w ∈ serverArguments h.domainNames, p.word w) ∧ (h.sslForced = false →
        (∀ a, h.accessList = some a → AccessListObeys p a) ∧ RoutesObey p h) := by
  cases forced : h.sslForced
  all_goals
    simp only [proxyPlainServer, forced, obeyAll_append, obeyAll_cons, obeyAll_nil,
      obeys_directive_line, List.forall_mem_cons, lineLead_server, listen ordinary,
      Bool.false_eq_true, if_true, if_false, obeys_maintenancePage ordinary plain,
      obeys_brandedErrors ordinary plain, obeys_hostLog ordinary, obeys_serverNames ordinary,
      obeys_proxyCrowdsec ordinary, obeys_proxyAcmeChallenge ordinary plain,
      obeys_httpsRedirect ordinary, obeys_accessControl ordinary plain, obeys_security ordinary,
      obeys_proxyLocation ordinary plain]
    simp

theorem obeys_proxyOnlyServer (ordinary : p.Ordinary) (plain : PlainDeployment cfg)
    (h : ProxyHostSpec) (maintenance : Option MaintenanceSpec) :
    ObeyAll p false (proxyOnlyServer cfg h maintenance) ↔
      (∀ w ∈ serverArguments h.domainNames, p.word w) ∧
      (∀ a, h.accessList = some a → AccessListObeys p a) ∧ RoutesObey p h ∧
      (h.advancedConfig ≠ "" → p.code (indent4 h.advancedConfig)) := by
  simp only [proxyOnlyServer, obeyAll_append, obeyAll_cons, obeyAll_nil, obeys_directive_line,
    List.forall_mem_cons, lineLead_server, listen ordinary, obeys_maintenancePage ordinary plain,
    obeys_brandedErrors ordinary plain, obeys_hostLog ordinary, obeys_serverNames ordinary,
    obeys_proxyCrowdsec ordinary, obeys_proxyAcmeChallenge ordinary plain,
    obeys_accessControl ordinary plain, obeys_security ordinary, obeys_proxyLocation ordinary plain,
    obeys_advanced]
  simp [and_assoc]

theorem obeys_proxyHostConf (ordinary : p.Ordinary) (plain : PlainDeployment cfg)
    (h : ProxyHostSpec) (certificate : ∀ c, h.certificate = some c → PlainCertificate c)
    (maintenance : Option MaintenanceSpec) :
    ObeyAll p false (proxyHostConf cfg h maintenance).tail ↔ ProxyHostObeys p h := by
  have title : p.note ("proxy host id=" ++ toString h.id) := by
    refine ordinary.note ?_
    rw [oneLine_append]
    exact ⟨OneLine.literal _ rfl, .of_plain (plainText_int _)⟩
  have server : p.word "server" := ordinary.literal _ rfl
  have head : ∀ servers : List Lib.Node,
      ObeyAll p false ([managedHeader, .comment "\n" ("proxy host id=" ++ toString h.id)] ++
        maintenanceGeo h ++ servers).tail ↔
      (h.maintenanceEnabled = true → ∀ entry ∈ h.maintenanceAllow, p.word entry) ∧
      ObeyAll p false servers := by
    intro servers
    simp only [List.cons_append, List.nil_append, List.tail_cons, obeyAll_cons, obeyAll_append,
      obeys_comment, lineLead_file, title, true_and, obeys_maintenanceGeo ordinary]
  -- without a certificate one block, with one a block for each port
  cases tls : h.certificate with
  | none =>
    simp only [proxyHostConf, tls, head, obeyAll_cons, obeyAll_nil, obeys_block_lines,
      List.forall_mem_singleton, lineLead_file, server, obeys_proxyOnlyServer ordinary plain]
    simp
    constructor
    · rintro ⟨maintenance, names, list, routes, advanced⟩
      exact ⟨names, routes, list, maintenance, advanced⟩
    · intro obey
      exact ⟨obey.maintenance, obey.names, obey.accessList, obey.routes, obey.advanced⟩
  | some c =>
    have paths := certificate c tls
    simp only [proxyHostConf, tls, head, obeyAll_cons, obeyAll_nil, obeys_block_lines,
      obeyAll_append, List.forall_mem_singleton, lineLead_file, lineLead_fileGap, server,
      obeys_proxyPlainServer ordinary plain, obeys_proxyTlsHead ordinary plain,
      obeys_certMaterial ordinary paths,
      obeys_certificateDirectives ordinary lineLead_server paths,
      obeys_proxyTlsTail ordinary plain]
    simp
    constructor
    · rintro ⟨maintenance, -, names, list, routes, advanced⟩
      exact ⟨names, routes, list, maintenance, advanced⟩
    · intro obey
      exact ⟨obey.maintenance, ⟨obey.names, fun _ => ⟨obey.accessList, obey.routes⟩⟩, obey.names,
        obey.accessList, obey.routes, obey.advanced⟩

/-! ### The other files -/

theorem obeys_bouncerHead (ordinary : p.Ordinary) (plain : PlainDeployment cfg)
    {listens : List Lib.Node} (listening : ObeyAll p false listens) (names : List String)
    {key : String} (plainKey : PlainWord key) (crowdsec : Bool) :
    ObeyAll p false (bouncerHead cfg listens names key crowdsec) ↔
      ∀ w ∈ serverArguments names, p.word w := by
  have comments : p.note "CrowdSec bouncer, in the server-rewrite phase: this server answers with" ∧
      p.note "`return`, which runs before the access phase proxy hosts use." :=
    ⟨ordinary.comment _ rfl, ordinary.comment _ rfl⟩
  simp only [bouncerHead, bouncerCrowdsec, notes, List.map_cons, List.map_nil, obeyAll_append,
    obeyAll_cons, obeyAll_nil, obeyAll_when, obeys_comment, lineLead_server, listening, comments,
    obeys_brandedErrors ordinary plain, obeys_serverNames ordinary,
    obeys_liveLog ordinary plainKey, obeys_crowdsecServerRewrite ordinary plainKey.plain]
  simp

private theorem obeys_listenPlain (ordinary : p.Ordinary) :
    ObeyAll p false [Lib.Node.directive "\n    " ["listen", "80"]] := by
  simp [listen ordinary]

private theorem obeys_listenTls (ordinary : p.Ordinary) (http2 : Bool) :
    ObeyAll p false (listenTls http2) := by
  simp [listenTls, listen ordinary]

theorem obeys_redirectLocation (ordinary : p.Ordinary) {h : RedirectionHostSpec}
    (plain : PlainText h.forwardDomainName) : Obeys p false (redirectLocation h) := by
  have scheme : PlainWord (if h.forwardScheme = .auto then "$scheme" else h.forwardScheme.value) := by
    cases h.forwardScheme
    all_goals exact PlainWord.literal _ rfl rfl
  have uri : PlainText (if h.preservePath = true then "$request_uri" else "") := by
    split
    · exact PlainText.literal _ rfl
    · exact PlainText.literal _ rfl
  have target := ordinary.plain (((scheme.append (PlainText.literal "://".toList rfl)).append
    plain).append uri)
  have code : p.word (toString h.forwardHttpCode) := by
    refine ordinary.plain ⟨plainText_nat _, ?_⟩
    exact repr_ne_nil h.forwardHttpCode
  have literals : p.word "location" ∧ p.word "/" ∧ p.word "return" :=
    ⟨ordinary.literal _ rfl, ordinary.literal _ rfl, ordinary.literal _ rfl⟩
  simp only [redirectLocation, obeys_block_lines, obeyAll_cons, obeyAll_nil, obeys_directive_line,
    List.forall_mem_cons, lineLead_server, lineLead_serverGap, lineLead_location, literals, code]
  refine ⟨trivial, trivial, by simp, ⟨trivial, trivial, by simp⟩,
    ⟨trivial, by simp, trivial, ?_⟩, trivial⟩
  exact ⟨trivial, target, by simp⟩

/-- The second line of a file: a kind of object and its id. -/
private theorem obeys_title (ordinary : p.Ordinary) (kind : List Char)
    (harmless : (!kind.contains '\n' && !kind.contains '\r') = true) (i : Id) :
    Obeys p false (.comment "\n" (String.ofList kind ++ toString i)) := by
  refine ⟨rfl, lineLead_file, ordinary.note ?_⟩
  rw [oneLine_append]
  exact ⟨OneLine.literal kind harmless, .of_plain (plainText_int i)⟩

/-- Names of which each is one plain word. -/
structure PlainNames (names : List String) : Prop where
  some : names ≠ []
  plain : ∀ name ∈ names, PlainWord name

theorem PlainNames.arguments {names : List String} (plain : PlainNames names)
    (ordinary : p.Ordinary) : ∀ w ∈ serverArguments names, p.word w := by
  rw [serverArguments, if_neg plain.some]
  exact fun name member => ordinary.plain (plain.plain name member)

theorem obeys_redirectionHostConf (ordinary : p.Ordinary) (plain : PlainDeployment cfg)
    {h : RedirectionHostSpec} (names : PlainNames h.domainNames)
    (forward : PlainText h.forwardDomainName)
    (certificate : ∀ c, h.certificate = some c → PlainCertificate c)
    (advanced : h.advancedConfig ≠ "" → p.code (indent4 h.advancedConfig)) :
    ObeyAll p false (redirectionHostConf cfg h).tail := by
  have title : Obeys p false (.comment "\n" ("redirection host id=" ++ toString h.id)) :=
    obeys_title ordinary _ rfl h.id
  have server : p.word "server" := ordinary.literal _ rfl
  have key : PlainWord ("r" ++ toString h.id) := plainWord_numbered _ rfl rfl h.id
  have head := fun {listens : List Lib.Node} (listening : ObeyAll p false listens) =>
    (obeys_bouncerHead ordinary plain listening h.domainNames key h.crowdsecEnabled).mpr
      (names.arguments ordinary)
  have extra := (obeys_advanced (p := p) h.advancedConfig).mpr advanced
  have location := obeys_redirectLocation ordinary forward
  cases tls : h.certificate with
  | none =>
    simp only [redirectionHostConf, tls, List.cons_append, List.nil_append, List.tail_cons,
      obeyAll_cons, obeyAll_nil, obeyAll_append, obeys_block_lines, List.forall_mem_singleton,
      lineLead_file, title, server, head (obeys_listenPlain ordinary),
      obeys_acmeChallenge ordinary plain, obeys_security ordinary, location, extra]
    simp
  | some c =>
    have paths := certificate c tls
    have answer : ObeyAll p false (if h.sslForced = true then [httpsRedirect]
        else security h.blockExploits ++ [redirectLocation h]) := by
      split
      · exact ⟨obeys_httpsRedirect ordinary, trivial⟩
      · rw [obeyAll_append]
        exact ⟨obeys_security ordinary _, location, trivial⟩
    simp only [redirectionHostConf, tls, List.cons_append, List.nil_append, List.tail_cons,
      obeyAll_cons, obeyAll_nil, obeyAll_append, obeys_block_lines, List.forall_mem_singleton,
      lineLead_file, lineLead_fileGap, title, server, head (obeys_listenPlain ordinary),
      head (obeys_listenTls ordinary _), obeys_acmeChallenge ordinary plain, answer,
      obeys_certificateDirectives ordinary lineLead_serverGap paths, obeys_hsts ordinary,
      obeys_security ordinary, location, extra]
    simp

private theorem obeys_deadLocation (ordinary : p.Ordinary) : Obeys p false deadLocation := by
  simp [deadLocation]
  and_intros
  all_goals exact ordinary.literal _ rfl

theorem obeys_deadHostConf (ordinary : p.Ordinary) (plain : PlainDeployment cfg)
    {h : DeadHostSpec} (names : PlainNames h.domainNames)
    (certificate : ∀ c, h.certificate = some c → PlainCertificate c)
    (advanced : h.advancedConfig ≠ "" → p.code (indent4 h.advancedConfig)) :
    ObeyAll p false (deadHostConf cfg h).tail := by
  have title : Obeys p false (.comment "\n" ("dead host id=" ++ toString h.id)) :=
    obeys_title ordinary _ rfl h.id
  have server : p.word "server" := ordinary.literal _ rfl
  have key : PlainWord ("d" ++ toString h.id) := plainWord_numbered _ rfl rfl h.id
  have head := fun {listens : List Lib.Node} (listening : ObeyAll p false listens) =>
    (obeys_bouncerHead ordinary plain listening h.domainNames key h.crowdsecEnabled).mpr
      (names.arguments ordinary)
  have extra := (obeys_advanced (p := p) h.advancedConfig).mpr advanced
  have location := obeys_deadLocation ordinary
  cases tls : h.certificate with
  | none =>
    simp only [deadHostConf, tls, List.cons_append, List.nil_append, List.tail_cons,
      obeyAll_cons, obeyAll_nil, obeyAll_append, obeys_block_lines, List.forall_mem_singleton,
      lineLead_file, title, server, head (obeys_listenPlain ordinary),
      obeys_acmeChallenge ordinary plain, location, extra]
    simp
  | some c =>
    have paths := certificate c tls
    have answer : Obeys p false (if h.sslForced = true then httpsRedirect else deadLocation) := by
      split
      · exact obeys_httpsRedirect ordinary
      · exact location
    simp only [deadHostConf, tls, List.cons_append, List.nil_append, List.tail_cons,
      obeyAll_cons, obeyAll_nil, obeyAll_append, obeys_block_lines, List.forall_mem_singleton,
      lineLead_file, lineLead_fileGap, title, server, head (obeys_listenPlain ordinary),
      head (obeys_listenTls ordinary _), obeys_acmeChallenge ordinary plain, answer,
      obeys_certificateDirectives ordinary lineLead_serverGap paths, obeys_hsts ordinary,
      location, extra]
    simp

theorem obeys_defaultTlsConf (ordinary : p.Ordinary) (plain : PlainDeployment cfg)
    {spec : DefaultTlsSpec} (certificate : PlainCertificate spec.certificate) :
    ObeyAll p false (defaultTlsConf cfg spec).tail ↔
      ∀ w ∈ serverArguments spec.serverNames, p.word w := by
  have server : p.word "server" := ordinary.literal _ rfl
  have log := obeys_liveLog ordinary (PlainWord.literal "u".toList rfl rfl) true
  have sites : p.word (cfg.nginxDefaultDir ++ "/*.conf") :=
    ordinary.plain (plain.defaultDir.append (PlainText.literal _ rfl))
  have tail : ObeyAll p false (defaultTlsTail cfg) := by
    simp [defaultTlsTail, notes, sites]
    and_intros
    all_goals first | exact ordinary.literal _ rfl | exact ordinary.comment _ rfl
  have head : ObeyAll p false (defaultTlsHead cfg spec.serverNames) ↔
      ∀ w ∈ serverArguments spec.serverNames, p.word w := by
    have bouncer : p.word "server_rewrite_by_lua_file" ∧
        p.word "/etc/nginx/lua/megoopm_crowdsec.lua" ∧ p.word "root" ∧
        p.word "/var/empty/megoopm" :=
      ⟨ordinary.literal _ rfl, ordinary.literal _ rfl, ordinary.literal _ rfl,
        ordinary.literal _ rfl⟩
    have comments : ∀ note ∈ [
        "CrowdSec bouncer, always on: unclaimed names on a certificate draw",
        "scanners, and there is no host to opt out. Server-rewrite phase, like",
        "every server that answers with `return`.",
        "Without this a request matching no location falls through to OpenResty's",
        "compiled-in root and is served its welcome page."], p.note note := by
      simp only [List.forall_mem_cons]
      exact ⟨ordinary.comment _ rfl, ordinary.comment _ rfl, ordinary.comment _ rfl,
        ordinary.comment _ rfl, ordinary.comment _ rfl, by simp⟩
    simp only [List.forall_mem_cons] at comments
    simp only [defaultTlsHead, notes, List.map_cons, List.map_nil, obeyAll_append, obeyAll_cons,
      obeyAll_nil, obeys_comment, obeys_directive_line, List.forall_mem_cons, lineLead_server,
      lineLead_serverGap, listen ordinary, obeys_brandedErrors ordinary plain,
      obeys_serverNames ordinary, bouncer, comments]
    simp
    exact fun _ => log
  simp only [defaultTlsConf, List.tail_cons, obeyAll_cons, obeyAll_nil, obeyAll_append,
    obeys_block_lines, List.forall_mem_singleton, lineLead_file, server, head,
    obeys_certMaterial ordinary certificate,
    obeys_certificateDirectives ordinary lineLead_server certificate, tail]
  simp

/-- Where a stream without a pool forwards to. -/
def streamLiteral (s : StreamSpec) : String :=
  optionText s.forwardHost ++ ":" ++ optionText s.forwardPort

/-- The second line of a stream's file, up to its target. -/
def streamTitle (s : StreamSpec) : String :=
  "stream id=" ++ toString s.id ++ " — " ++ toString s.incomingPort ++ " -> "

theorem oneLine_streamTitle (s : StreamSpec) : OneLine (streamTitle s) := by
  simp only [streamTitle, oneLine_append]
  exact ⟨⟨⟨⟨OneLine.literal _ rfl, .of_plain (plainText_int _)⟩, OneLine.literal _ rfl⟩,
    .of_plain (plainText_nat _)⟩, OneLine.literal _ rfl⟩

theorem obeys_streamConf (ordinary : p.Ordinary) {s : StreamSpec}
    (certificate : ∀ c, s.certificate = some c → PlainCertificate c) :
    ObeyAll p false (streamConf s).tail ↔ (streamPool s = none →
      p.note (streamTitle s ++ streamLiteral s) ∧ p.word (streamLiteral s)) := by
  have literals : p.word "server" ∧ p.word "listen" ∧ p.word "ssl" ∧ p.word "udp" ∧
      p.word "proxy_pass" :=
    ⟨ordinary.literal _ rfl, ordinary.literal _ rfl, ordinary.literal _ rfl,
      ordinary.literal _ rfl, ordinary.literal _ rfl⟩
  have port : p.word (toString s.incomingPort) :=
    ordinary.plain ⟨plainText_nat _, repr_ne_nil s.incomingPort⟩
  have log : ObeyAll p false (liveStreamLog ("s" ++ toString s.id)) :=
    obeys_liveStreamLog ordinary (plainWord_numbered _ rfl rfl s.id)
  have tls := fun c (has : s.certificate = some c) =>
    obeys_certificateDirectives ordinary lineLead_serverGap (certificate c has)
  have pooled : ∀ i, p.note (streamTitle s ++ ("pool " ++ poolName i)) := by
    intro i
    refine ordinary.note ?_
    simp only [oneLine_append]
    exact ⟨oneLine_streamTitle s, OneLine.literal _ rfl, .of_plain (plainWord_poolName i).plain⟩
  have pools := fun i => ordinary.plain (plainWord_poolName i)
  -- the listeners and the log ask for nothing; what is left is the target
  cases pool : streamPool s <;> cases has : s.certificate
  all_goals
    simp only [streamConf, pool, has, Option.isSome_none, Option.isSome_some, Bool.false_eq_true,
      if_true, if_false, List.tail_cons, List.append_nil, List.cons_append, List.nil_append,
      obeyAll_cons, obeyAll_nil, obeyAll_append, obeyAll_when, obeys_comment, obeys_directive_line,
      obeys_block_lines, List.forall_mem_cons, List.not_mem_nil, false_implies, implies_true,
      reduceCtorEq, ne_eq, not_false_eq_true, true_and, and_true, lineLead_file, lineLead_server,
      literals, port, log, pools, tls, forall_const]
    first | rfl | exact iff_true_intro (pooled _)

/-! ### `default_site.conf.j2` and `errors.conf.inc.j2` -/

theorem obeys_defaultSiteTemplate (ordinary : p.Ordinary) (plain : PlainDeployment cfg)
    (site : DefaultSiteSpec) (bodyOnly : Bool) :
    ObeyAll p false (defaultSiteTemplate cfg site bodyOnly).tail ↔
      (site.mode = .redirect → p.word ("\"" ++ site.redirectUrl ++ "\"")) := by
  have title : p.note ("default site mode=" ++ site.mode.value) := by
    refine ordinary.note ((oneLine_append _ _).mpr ⟨OneLine.literal _ rfl, ?_⟩)
    cases site.mode
    all_goals exact OneLine.literal _ rfl
  have root := ordinary.plain plain.defaultDir
  have rules : ObeyAll p false (defaultSiteRules cfg site) ↔
      (site.mode = .redirect → p.word ("\"" ++ site.redirectUrl ++ "\"")) := by
    cases mode : site.mode
    case redirect =>
      have literals : p.word "return" ∧ p.word "301" := ⟨ordinary.literal _ rfl, ordinary.literal _ rfl⟩
      have comments :
          p.note "Quoted as defence in depth; the API already rejects any target containing" ∧
          p.note "a quote, backslash, ';' or '$' (see schemas/instance_settings.py)." :=
        ⟨ordinary.comment _ rfl, ordinary.comment _ rfl⟩
      simp [defaultSiteRules, mode, notes, literals, comments]
    all_goals
      simp [defaultSiteRules, mode, root]
      and_intros
      all_goals first | exact ordinary.literal _ rfl | exact ordinary.comment _ rfl
  have location : p.word "location" ∧ p.word "/" := ⟨ordinary.literal _ rfl, ordinary.literal _ rfl⟩
  cases bodyOnly
  all_goals simp [defaultSiteTemplate, title, location, rules]

theorem plainText_errorHtml (code : Int) : PlainText (errorHtml code) :=
  ((plainWord_numbered "megoopm-error-".toList rfl rfl code).append
    (PlainText.literal ".html".toList rfl)).plain

theorem obeys_errorsTemplate (ordinary : p.Ordinary) (plain : PlainDeployment cfg)
    (codes : List Int) : ObeyAll p false (errorsTemplate cfg codes) := by
  have header : p.note "Managed by MegooPM — do not edit by hand." := ordinary.comment _ rfl
  have literals : p.word "error_page" ∧ p.word "location" ∧ p.word "=" ∧ p.word "root" ∧
      p.word "internal" :=
    ⟨ordinary.literal _ rfl, ordinary.literal _ rfl, ordinary.literal _ rfl,
      ordinary.literal _ rfl, ordinary.literal _ rfl⟩
  have root := ordinary.plain plain.defaultDir
  have page : ∀ code : Int, p.word ("/" ++ errorHtml code) := fun code =>
    ordinary.plain ((PlainWord.literal _ rfl rfl).append (plainText_errorHtml code))
  have number : ∀ code : Int, p.word (toString code) := fun code =>
    ordinary.plain ⟨plainText_int code, toString_ne_nil code⟩
  rw [errorsTemplate, obeyAll_cons, obeyAll_flatMap]
  refine ⟨⟨rfl, lineLead_file, header⟩, fun code _ => ?_⟩
  simp only [obeyAll_cons, obeyAll_nil, obeys_directive_line, obeys_block_lines,
    List.forall_mem_cons, List.not_mem_nil, false_implies, implies_true, reduceCtorEq, ne_eq,
    not_false_eq_true, and_true, lineLead_file, lineLead_server, literals, root, page, number]

/-! ### Whole files -/

private theorem oneLine_header : OneLine "Managed by MegooPM — do not edit by hand." :=
  OneLine.literal _ rfl

theorem proxyHostConf_header (cfg : Deployment) (h : ProxyHostSpec)
    (maintenance : Option MaintenanceSpec) : proxyHostConf cfg h maintenance =
      managedHeader :: (proxyHostConf cfg h maintenance).tail := by
  unfold proxyHostConf
  rfl

/-- A file that opens with the common header is read as its tree exactly when the rest of
the tree obeys the lexical rules. -/
theorem lex_file_iff {rest : List Lib.Node} (laid : ObeyAll .laid false rest) :
    lex (FileBody.conf (managedHeader :: rest)).text = allTokens (managedHeader :: rest) ↔
      ObeyAll .lexical false rest := by
  rw [FileBody.text, managedHeader, lex_titled_iff _ laid, and_iff_right oneLine_header.1]

/-- It is read back as it was written exactly when the rest holds no carriage return. -/
theorem noCarriageReturn_file_iff {rest : List Lib.Node} (laid : ObeyAll .free false rest) :
    NoCarriageReturn (FileBody.conf (managedHeader :: rest)).text ↔ ObeyAll .clean false rest := by
  rw [FileBody.text, managedHeader, noCarriageReturn_titled_iff _ laid,
    and_iff_right oneLine_header.2]

end MegooPM
