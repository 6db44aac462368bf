import MegooPM.Api.Schemas
import MegooPM.Nginx.AllOrNothing

/-!
# Lexical confinement

Reading a rendered file by the lexical rules gives the tokens of its template, with every
value in its own place, exactly when no value holds a character that its place cannot
hold. The schemas see to that for domain names, and for nothing else.
-/
namespace MegooPM

open Lib Lib.Node

/-! ### Values that keep to their place -/

/-- The name stands in a comment, a backend's host first in its word. -/
structure UpstreamSpec.Confined (u : UpstreamSpec) : Prop where
  name : '\n' ∉ u.name.toList
  backends : ∀ b ∈ u.backends, Begins b.host ∧ Unbroken b.host

/-- The name stands in a comment and, where there are users, between quotes. -/
structure AccessListSpec.Confined (a : AccessListSpec) : Prop where
  name : '\n' ∉ a.name.toList
  realm : a.authUsers ≠ [] → Quotable a.name
  addresses : ∀ r ∈ a.clientRules, Complete r.address

/-- A forward host stands inside a word; a path and a bypass entry are one. -/
structure ProxyHostSpec.Confined (h : ProxyHostSpec) : Prop where
  target : h.upstreamId = none → ∀ host, h.forwardHost = some host → Unbroken host
  paths : ∀ l ∈ h.locations, Complete l.path
  locations : ∀ l ∈ h.locations, l.target = .host → ∀ host, l.forwardHost = some host →
    Unbroken host
  accessList : ∀ a, h.accessList = some a → a.Confined
  allow : h.maintenanceEnabled = true → ∀ entry ∈ h.maintenanceAllow, Complete entry

/-- The forward host stands in a comment, and first in a word. -/
def StreamSpec.Confined (s : StreamSpec) : Prop :=
  streamPool s = none → ∀ host, s.forwardHost = some host →
    '\n' ∉ host.toList ∧ Begins host ∧ Unbroken host

/-! ### Words and comments with a value in them -/

private theorem note_framed {left right : String} (before : OneLine left) (after : OneLine right)
    (value : String) : Policy.lexical.note (left ++ value ++ right) ↔ '\n' ∉ value.toList := by
  show '\n' ∉ (left ++ value ++ right).toList ↔ _
  simp only [String.toList_append, List.mem_append, before.1, after.1, false_or, or_false]

/-- The port behind a host. -/
private theorem portWord (port : Option Nat) :
    PlainWord (":" ++ optionText port) ∧ ')' ∉ (":" ++ optionText port).toList := by
  have colon : PlainWord ":" := PlainWord.literal _ rfl rfl
  cases port with
  | none => exact ⟨colon.append (PlainText.literal "None".toList rfl), by decide⟩
  | some port =>
    refine ⟨colon.append (plainText_nat port), fun member => ?_⟩
    rw [String.toList_append] at member
    rcases List.mem_append.mp member with first | digit
    · revert first
      decide
    · have isDigit := Nat.isDigit_of_mem_toDigits (by decide) (by decide)
        (show ')' ∈ Nat.toDigits 10 port by rwa [← Nat.toList_repr])
      revert isDigit
      decide

/-- A host that stands first in its word. -/
private theorem word_hostPort {host : String} (some : host.toList ≠ []) (port : Option Nat) :
    Policy.lexical.word (host ++ ":" ++ optionText port) ↔ Begins host ∧ Unbroken host := by
  rw [String.append_assoc]
  exact isArgument_leading some (portWord port).1 (portWord port).2

/-- A host behind a scheme. -/
private theorem word_url (scheme : HttpScheme) (host : String) (port : Option Nat) :
    Policy.lexical.word (scheme.value ++ "://" ++ (host ++ ":" ++ optionText port)) ↔
      Unbroken host := by
  have front : PlainWord (scheme.value ++ "://") := by
    cases scheme
    all_goals exact (PlainWord.literal _ rfl rfl).append (PlainText.literal _ rfl)
  obtain ⟨c, rest, whole⟩ := List.exists_cons_of_ne_nil front.some
  have plain := front.plain c (by rw [whole]; exact List.mem_cons_self ..)
  simp only [plainChar, Bool.and_eq_true, decide_eq_true_eq] at plain
  have text : scheme.value ++ "://" ++ (host ++ ":" ++ optionText port) =
      scheme.value ++ "://" ++ host ++ (":" ++ optionText port) := by
    simp only [String.append_assoc]
  rw [text, ← complete_framed front.plain (portWord port).1 host]
  have chars : (scheme.value ++ "://" ++ host ++ (":" ++ optionText port)).toList =
      c :: (rest ++ (host ++ (":" ++ optionText port)).toList) := by
    simp only [String.toList_append, List.append_assoc] at whole ⊢
    rw [← List.append_assoc scheme.value.toList, whole, List.cons_append]
  exact isArgument_iff_complete chars plain.1.1.1.2 plain.1.1.2 plain.1.2

/-- A value that is the whole word and begins like an address. -/
private theorem word_address {text : String} (begins : BeginsAddress text) :
    Policy.lexical.word text ↔ Complete text := by
  obtain ⟨c, rest, whole, known⟩ := begins
  have apart : ∀ d : Char, beginsAddress d = false → c ≠ d := by
    rintro d other rfl
    rw [known] at other
    cases other
  exact isArgument_iff_complete whole (apart '#' (by decide)) (apart '"' (by decide))
    (apart '\'' (by decide))

private theorem word_path {path : String} (begins : ∃ rest, path.toList = '/' :: rest) :
    Policy.lexical.word path ↔ Complete path := by
  obtain ⟨rest, whole⟩ := begins
  exact isArgument_iff_complete whole (by decide) (by decide) (by decide)

/-- The target of a host or a location. -/
private theorem word_target {upstreamId : Option Id} {host : Option String} {port : Option Nat}
    (accepted : AcceptedTarget upstreamId host port) (scheme : HttpScheme) :
    Policy.lexical.word (scheme.value ++ "://" ++ targetOf upstreamId host port) ↔
      (upstreamId = none → ∀ text, host = some text → Unbroken text) := by
  have one := accepted.exactlyOne
  cases upstreamId with
  | some i =>
    have front : PlainWord (scheme.value ++ "://") := by
      cases scheme
      all_goals exact (PlainWord.literal _ rfl rfl).append (PlainText.literal _ rfl)
    have plain := (front.append (plainWord_poolName i).plain).isArgument
    exact ⟨fun _ absent => (by cases absent), fun _ => plain⟩
  | none =>
    cases host with
    | none => simp at one
    | some text =>
      cases port with
      | none => simp at one
      | some number =>
        refine (word_url scheme text (some number)).trans
          ⟨fun unbroken _ same found => ?_, fun all => ?_⟩
        · cases found
          exact unbroken
        · exact all rfl text rfl

/-! ### Objects -/

/-- Two readings of a file: its tokens are those of its tree. -/
def ReadAsWritten (nodes : List Lib.Node) : Prop :=
  lex (FileBody.conf nodes).text = allTokens nodes

theorem readAsWritten_iff {nodes : List Lib.Node} (header : nodes = managedHeader :: nodes.tail)
    (laid : ObeyAll .laid false nodes.tail) :
    ReadAsWritten nodes ↔ ObeyAll .lexical false nodes.tail := by
  rw [ReadAsWritten, header]
  exact lex_file_iff laid

theorem upstream_readAsWritten {u : UpstreamSpec} (accepted : u.Accepted) :
    ReadAsWritten (upstreamConf u) ↔ u.Confined := by
  have laid : ObeyAll .laid false (upstreamConf u).tail :=
    (obeys_upstreamConf Policy.ordinary_laid u).mpr ⟨trivial, fun _ _ => trivial⟩
  have title : Policy.lexical.note ("upstream pool: " ++ u.name ++ " (id=" ++ toString u.id ++ ")") ↔
      '\n' ∉ u.name.toList := by
    rw [String.append_assoc, String.append_assoc]
    refine note_framed (OneLine.literal _ rfl) ?_ u.name
    simp only [oneLine_append]
    exact ⟨OneLine.literal _ rfl, .of_plain (plainText_int _), OneLine.literal _ rfl⟩
  rw [readAsWritten_iff rfl laid, obeys_upstreamConf Policy.ordinary_lexical u, title]
  constructor
  · rintro ⟨name, backends⟩
    refine ⟨name, fun b member => ?_⟩
    obtain ⟨raw, _, host⟩ := (accepted.backends b member).host
    exact (word_hostPort (host_of_stripped host).1 (some b.port)).mp (backends b member)
  · intro confined
    refine ⟨confined.name, fun b member => ?_⟩
    obtain ⟨raw, _, host⟩ := (accepted.backends b member).host
    exact (word_hostPort (host_of_stripped host).1 (some b.port)).mpr (confined.backends b member)

private theorem word_realm (name : String) :
    Policy.lexical.word ("\"" ++ name ++ "\"") ↔ Quotable name :=
  isArgument_quoted_iff name

private theorem accessList_confined {library : SchemaLibrary} (documented : library.Documented)
    {a : AccessListSpec} (accepted : a.Accepted library) :
    AccessListObeys .lexical a ↔ a.Confined := by
  have title := note_framed (OneLine.literal "Access list \"".toList rfl)
    (OneLine.literal "\" (MEG-21).".toList rfl) a.name
  have address : ∀ r ∈ a.clientRules, (Policy.lexical.word r.address ↔ Complete r.address) := by
    intro r member
    obtain ⟨raw, validated⟩ := accepted.addresses r member
    exact word_address (beginsAddress_of_validated documented validated)
  constructor
  · intro obey
    exact ⟨title.mp obey.comment, fun users => (word_realm a.name).mp (obey.realm users),
      fun r member => (address r member).mp (obey.addresses r member)⟩
  · intro confined
    exact ⟨title.mpr confined.name, fun users => (word_realm a.name).mpr (confined.realm users),
      fun r member => (address r member).mpr (confined.addresses r member)⟩

/-- A location names the host it forwards to, or a pool. -/
private theorem location_route {l : LocationSpec} (accepted : l.Accepted) {found : Option String}
    (own : l.target.proxies = true →
      found = some (targetOf l.upstreamId l.forwardHost l.forwardPort)) :
    (l.target.proxies = true →
      Policy.lexical.word (l.forwardScheme.value ++ "://" ++ found.getD "")) ↔
    (l.target = .host → ∀ host, l.forwardHost = some host → Unbroken host) := by
  by_cases proxies : l.target.proxies = true
  · rw [own proxies, Option.getD_some]
    have word := word_target (accepted.target proxies) l.forwardScheme
    have kind : l.target = .pool ∨ l.target = .host := by
      cases target : l.target <;> simp [LocationTarget.proxies, target] at proxies ⊢
    rcases kind with pool | host
    · obtain ⟨has, _⟩ := accepted.pool pool
      obtain ⟨i, own⟩ := Option.isSome_iff_exists.mp has
      refine ⟨fun _ other => ?_, fun _ _ => word.mpr fun absent => ?_⟩
      · rw [pool] at other
        cases other
      · rw [own] at absent
        cases absent
    · exact ⟨fun all _ => word.mp (all proxies) (accepted.host host),
        fun all _ => word.mpr fun _ => all host⟩
  · refine ⟨fun _ host => ?_, fun _ other => absurd other proxies⟩
    rw [host] at proxies
    exact absurd rfl proxies

theorem proxyHost_readAsWritten {library : SchemaLibrary} (documented : library.Documented)
    {cfg : Deployment} (plain : PlainDeployment cfg) {h : ProxyHostSpec}
    (accepted : h.Accepted library)
    (certificate : ∀ c, h.certificate = some c → PlainCertificate c)
    (noAdvanced : h.advancedConfig = "") (maintenance : Option MaintenanceSpec) :
    ReadAsWritten (proxyHostConf cfg h maintenance) ↔ h.Confined := by
  have absent : ∀ p : Policy, h.advancedConfig ≠ "" → p.code (indent4 h.advancedConfig) :=
    fun _ has => absurd noAdvanced has
  -- the layout holds of every host: what can break is in the words
  have laid : ObeyAll .laid false (proxyHostConf cfg h maintenance).tail := by
    rw [obeys_proxyHostConf Policy.ordinary_laid plain h certificate]
    exact ⟨fun _ _ => trivial, ⟨trivial, fun _ _ => trivial, fun _ _ _ => trivial⟩,
      fun _ _ => ⟨trivial, fun _ => trivial, fun _ _ => trivial⟩, fun _ _ _ => trivial, absent _⟩
  rw [readAsWritten_iff (proxyHostConf_header cfg h maintenance) laid,
    obeys_proxyHostConf Policy.ordinary_lexical plain h certificate]
  obtain ⟨_, names⟩ := accepted.names
  have distinct := (nodup_of_unique accepted.paths).1
  have path : ∀ l ∈ h.locations, (Policy.lexical.word l.path ↔ Complete l.path) := by
    intro l member
    obtain ⟨raw, validated⟩ := (accepted.locations l member).path
    exact word_path (path_of_validated validated).1
  have route : ∀ l ∈ h.locations,
      ((l.target.proxies = true → Policy.lexical.word
        (l.forwardScheme.value ++ "://" ++ ((locationTargets h)[l.path]?).getD "")) ↔
      (l.target = .host → ∀ host, l.forwardHost = some host → Unbroken host)) := by
    intro l member
    exact location_route (accepted.locations l member) fun proxies =>
      locationTargets_own distinct member proxies
  have entry : ∀ e ∈ h.maintenanceAllow, (Policy.lexical.word e ↔ Complete e) := by
    intro e member
    obtain ⟨raw, validated⟩ := accepted.allow e member
    exact word_address (beginsAddress_of_allowed documented validated)
  constructor
  · intro obey
    exact {
      target := (word_target accepted.target h.forwardScheme).mp obey.routes.target
      paths := fun l member => (path l member).mp (obey.routes.paths l member)
      locations := fun l member => (route l member).mp (obey.routes.locations l member)
      accessList := fun a has =>
        (accessList_confined documented (accepted.accessList a has)).mp (obey.accessList a has)
      allow := fun under e member => (entry e member).mp (obey.maintenance under e member) }
  · intro confined
    exact {
      names := (plainNames_of_normalised names).arguments Policy.ordinary_lexical
      routes := {
        target := (word_target accepted.target h.forwardScheme).mpr confined.target
        paths := fun l member => (path l member).mpr (confined.paths l member)
        locations := fun l member => (route l member).mpr (confined.locations l member) }
      accessList := fun a has =>
        (accessList_confined documented (accepted.accessList a has)).mpr (confined.accessList a has)
      maintenance := fun under e member => (entry e member).mpr (confined.allow under e member)
      advanced := absent _ }

theorem stream_readAsWritten {s : StreamSpec} (accepted : s.Accepted)
    (certificate : ∀ c, s.certificate = some c → PlainCertificate c) :
    ReadAsWritten (streamConf s) ↔ s.Confined := by
  have laid : ObeyAll .laid false (streamConf s).tail :=
    (obeys_streamConf Policy.ordinary_laid certificate).mpr fun _ => ⟨trivial, trivial⟩
  rw [readAsWritten_iff rfl laid, obeys_streamConf Policy.ordinary_lexical certificate]
  refine forall_congr' fun _ => ?_
  have title := oneLine_streamTitle s
  cases host : s.forwardHost with
  | none =>
    have literal : PlainWord (streamLiteral s) := by
      rw [streamLiteral, host, String.append_assoc]
      exact (PlainWord.literal "None".toList rfl rfl).append (portWord s.forwardPort).1.plain
    have note : Policy.lexical.note (streamTitle s ++ streamLiteral s) :=
      Policy.ordinary_lexical.note ((oneLine_append _ _).mpr ⟨title, .of_plain literal.plain⟩)
    exact ⟨fun _ _ found => (by cases found), fun _ => ⟨note, literal.isArgument⟩⟩
  | some text =>
    have some := shortText_some (accepted.target.host text host)
    have word : Policy.lexical.word (streamLiteral s) ↔ Begins text ∧ Unbroken text := by
      rw [streamLiteral, host]
      exact word_hostPort some s.forwardPort
    have note : Policy.lexical.note (streamTitle s ++ streamLiteral s) ↔ '\n' ∉ text.toList := by
      rw [streamLiteral, host, String.append_assoc, ← String.append_assoc]
      exact note_framed title (.of_plain (portWord s.forwardPort).1.plain) text
    rw [word, note]
    exact ⟨fun both _ found => (by cases found; exact both), fun all => all text rfl⟩

theorem redirectionHost_readAsWritten {library : SchemaLibrary} {cfg : Deployment}
    (plain : PlainDeployment cfg) {h : RedirectionHostSpec} (accepted : h.Accepted library)
    (certificate : ∀ c, h.certificate = some c → PlainCertificate c)
    (noAdvanced : h.advancedConfig = "") : ReadAsWritten (redirectionHostConf cfg h) := by
  obtain ⟨_, names⟩ := accepted.names
  obtain ⟨_, forward⟩ := accepted.forward
  have domain := (plainNames_of_normalised forward).plain _ (List.mem_singleton_self _)
  have obeys := fun {p : Policy} (ordinary : p.Ordinary) =>
    obeys_redirectionHostConf ordinary plain (plainNames_of_normalised names) domain.plain
      certificate fun has => absurd noAdvanced has
  have header : redirectionHostConf cfg h = managedHeader :: (redirectionHostConf cfg h).tail := by
    unfold redirectionHostConf
    rfl
  exact (readAsWritten_iff header (obeys Policy.ordinary_laid)).mpr (obeys Policy.ordinary_lexical)

theorem deadHost_readAsWritten {library : SchemaLibrary} {cfg : Deployment}
    (plain : PlainDeployment cfg) {h : DeadHostSpec} (accepted : h.Accepted library)
    (certificate : ∀ c, h.certificate = some c → PlainCertificate c)
    (noAdvanced : h.advancedConfig = "") : ReadAsWritten (deadHostConf cfg h) := by
  obtain ⟨_, names⟩ := accepted.names
  have obeys := fun {p : Policy} (ordinary : p.Ordinary) =>
    obeys_deadHostConf ordinary plain (plainNames_of_normalised names) certificate
      fun has => absurd noAdvanced has
  have header : deadHostConf cfg h = managedHeader :: (deadHostConf cfg h).tail := by
    unfold deadHostConf
    rfl
  exact (readAsWritten_iff header (obeys Policy.ordinary_laid)).mpr (obeys Policy.ordinary_lexical)

theorem defaultTls_readAsWritten {cfg : Deployment} (plain : PlainDeployment cfg)
    {t : DefaultTlsSpec} (certificate : PlainCertificate t.certificate) :
    ReadAsWritten (defaultTlsConf cfg t) ↔ ∀ name ∈ serverArguments t.serverNames,
      IsArgument name := by
  have laid : ObeyAll .laid false (defaultTlsConf cfg t).tail :=
    (obeys_defaultTlsConf Policy.ordinary_laid plain certificate).mpr fun _ _ => trivial
  rw [readAsWritten_iff rfl laid, obeys_defaultTlsConf Policy.ordinary_lexical plain certificate]
  rfl

/-! ### Whole states -/

/-- Raw directives are nowhere injected. -/
structure DesiredState.NoAdvanced (state : DesiredState) : Prop where
  proxyHosts : ∀ h ∈ state.proxyHosts, h.advancedConfig = ""
  redirectionHosts : ∀ h ∈ state.redirectionHosts, h.advancedConfig = ""
  deadHosts : ∀ h ∈ state.deadHosts, h.advancedConfig = ""

/-- Every value keeps to its place. The names of a default-TLS block come from a
certificate, which no validator looks at. -/
structure DesiredState.Confined (state : DesiredState) : Prop where
  proxyHosts : ∀ h ∈ state.proxyHosts, h.Confined
  httpUpstreams : ∀ u ∈ state.httpUpstreams, u.Confined
  streamUpstreams : ∀ u ∈ state.streamUpstreams, u.Confined
  streams : ∀ s ∈ state.streams, s.Confined
  defaultTls : ∀ t ∈ state.defaultTls, ∀ name ∈ serverArguments t.serverNames, IsArgument name

/-- Every configuration file among the rendered ones is read as it was written. -/
def AllReadAsWritten (bodies : Bodies) : Prop :=
  ∀ (name : String) (nodes : List Lib.Node), bodies[name]? = some (FileBody.conf nodes) →
    ReadAsWritten nodes

theorem allReadAsWritten_iff {pairs : List (String × FileBody)} (functional : Functional pairs) :
    AllReadAsWritten (Dict.ofPairs pairs) ↔
      ∀ name nodes, (name, FileBody.conf nodes) ∈ pairs → ReadAsWritten nodes := by
  constructor
  · intro all name nodes member
    exact all name nodes (Dict.get_ofPairs pairs name _ member
      fun other inside => functional name other _ inside member)
  · intro all name nodes found
    exact all name nodes (Dict.mem_of_get_ofPairs pairs name _ found)

theorem config_readAsWritten {library : SchemaLibrary} (documented : library.Documented)
    {cfg : Deployment} (plain : PlainDeployment cfg) {state : DesiredState}
    (accepted : state.Accepted library cfg) (noAdvanced : state.NoAdvanced) :
    AllReadAsWritten (configBodies cfg state) ↔
      (∀ u ∈ state.httpUpstreams, u.Confined) ∧ (∀ h ∈ state.proxyHosts, h.Confined) ∧
      ∀ t ∈ state.defaultTls, ∀ name ∈ serverArguments t.serverNames, IsArgument name := by
  have pool := fun u member => upstream_readAsWritten (accepted.httpUpstreams u member)
  have host := fun h member => proxyHost_readAsWritten documented plain
    (accepted.proxyHosts h member)
    (fun c has => plainCertificate_loaded plain (accepted.hostCertificates h member c has))
    (noAdvanced.proxyHosts h member) state.maintenance
  have tls := fun t member => defaultTls_readAsWritten plain
    (plainCertificate_loaded plain (accepted.tlsCertificates t member))
  -- a file is found under its name only once, so the files can be taken one by one
  rw [configBodies, allReadAsWritten_iff (functional_configPairs cfg accepted.distinct)]
  simp only [configPairs, List.mem_append, List.mem_map, List.mem_flatMap]
  constructor
  · intro all
    refine ⟨fun u member => ?_, fun h member => ?_, fun t member => ?_⟩
    · exact (pool u member).mp (all _ _ (Or.inl (Or.inl (Or.inl (Or.inl ⟨u, member, rfl⟩)))))
    · refine (host h member).mp (all (proxyFilename h.id) _ (Or.inl (Or.inl (Or.inl (Or.inr ?_)))))
      exact ⟨h, member, mem_renderProxyHost.mpr (Or.inl rfl)⟩
    · exact (tls t member).mp (all _ _ (Or.inr ⟨t, member, rfl⟩))
  · rintro ⟨pools, hosts, plans⟩ name nodes
      ((((⟨u, member, same⟩ | ⟨h, member, inside⟩) | ⟨r, member, same⟩) | ⟨d, member, same⟩) |
        ⟨t, member, same⟩)
    · cases same
      exact (pool u member).mpr (pools u member)
    · rcases mem_renderProxyHost.mp inside with same | ⟨a, _, _, same⟩
      · cases same
        exact (host h member).mpr (hosts h member)
      · cases same
    · cases same
      exact redirectionHost_readAsWritten plain (accepted.redirectionHosts r member)
        (fun c has => plainCertificate_loaded plain
          (accepted.redirectionCertificates r member c has)) (noAdvanced.redirectionHosts r member)
    · cases same
      exact deadHost_readAsWritten plain (accepted.deadHosts d member)
        (fun c has => plainCertificate_loaded plain (accepted.deadCertificates d member c has))
        (noAdvanced.deadHosts d member)
    · cases same
      exact (tls t member).mpr (plans t member)

theorem stream_files_readAsWritten {library : SchemaLibrary} {cfg : Deployment}
    (plain : PlainDeployment cfg) {state : DesiredState} (accepted : state.Accepted library cfg)
    {bodies : Bodies} (rendered : streamBodies state = .ok bodies) :
    AllReadAsWritten bodies ↔
      (∀ u ∈ state.streamUpstreams, u.Confined) ∧ ∀ s ∈ state.streams, s.Confined := by
  obtain ⟨pairs, listed, rfl⟩ := map_eq_ok rendered
  have pool := fun u member => upstream_readAsWritten (accepted.streamUpstreams u member)
  have stream := fun s member => stream_readAsWritten (accepted.streams s member)
    fun c has => plainCertificate_loaded plain (accepted.streamCertificates s member c has)
  rw [streamPairs_ok listed, allReadAsWritten_iff (functional_streamPairs accepted.distinct)]
  simp only [List.mem_append, List.mem_map]
  constructor
  · intro all
    refine ⟨fun u member => ?_, fun s member => ?_⟩
    · exact (pool u member).mp (all _ _ (Or.inl ⟨u, member, rfl⟩))
    · exact (stream s member).mp (all _ _ (Or.inr ⟨s, member, rfl⟩))
  · rintro ⟨pools, streams⟩ name nodes (⟨u, member, same⟩ | ⟨s, member, same⟩)
    · cases same
      exact (pool u member).mpr (pools u member)
    · cases same
      exact (stream s member).mpr (streams s member)

/-- Read by the lexical rules, the rendered http and stream files give the directive trees
of their templates exactly when no accepted value leaves the place it is filled into. -/
theorem values_confined_iff {library : SchemaLibrary} (documented : library.Documented)
    {cfg : Deployment} (plain : PlainDeployment cfg) {state : DesiredState}
    (accepted : state.Accepted library cfg) (noAdvanced : state.NoAdvanced) {streams : Bodies}
    (rendered : streamBodies state = .ok streams) :
    AllReadAsWritten (configBodies cfg state) ∧ AllReadAsWritten streams ↔ state.Confined := by
  rw [config_readAsWritten documented plain accepted noAdvanced,
    stream_files_readAsWritten plain accepted rendered]
  constructor
  · rintro ⟨⟨httpUpstreams, proxyHosts, defaultTls⟩, streamUpstreams, streams⟩
    exact ⟨proxyHosts, httpUpstreams, streamUpstreams, streams, defaultTls⟩
  · intro confined
    exact ⟨⟨confined.httpUpstreams, confined.proxyHosts, confined.defaultTls⟩,
      confined.streamUpstreams, confined.streams⟩

/-- The sample deployment with a digest that is always plain. -/
def plainSample : Deployment :=
  { sampleDeployment with digest := fun _ => "e3b0c44298fc1c14" }

theorem plainDeployment_plainSample : PlainDeployment plainSample where
  confdDir := PlainWord.literal _ rfl rfl
  defaultDir := PlainWord.literal _ rfl rfl
  certsDir := PlainWord.literal _ rfl rfl
  challengeDir := PlainWord.literal _ rfl rfl
  digest _ := PlainText.literal _ rfl

/-- The library on texts in lower case and on one network. -/
def sampleLibrary : SchemaLibrary where
  lower text := text
  ipAddress _ := none
  ipNetwork text := if text = "10.0.0.0/8" then some text else none
  urlsplit _ := none

theorem documented_sampleLibrary : sampleLibrary.Documented where
  address := fun _ _ found => by cases found
  network := by
    intro text form found
    simp only [sampleLibrary] at found
    split at found
    next same =>
      cases found
      rw [same]
      exact ⟨⟨'1', _, rfl, rfl⟩, ⟨'1', _, rfl, rfl⟩⟩
    · cases found

/-- A host behind an access list, with a pool of the given name. -/
def namedPool (name : String) : DesiredState where
  proxyHosts := [{
    id := 1, domainNames := ["example.com"], upstreamId := some 1
    accessList := some {
      id := 1, name := "office", clientRules := [{ directive := .allow, address := "10.0.0.0/8" }] } }]
  httpUpstreams := [{ id := 1, name := name, backends := [{ host := "10.0.0.1", port := 80 }] }]

private theorem uniqueIds_singleton {α : Type} (id : α → Id) (a : α) : UniqueIds id [a] := by
  intro x memberX y memberY _
  rw [List.mem_singleton.mp memberX, List.mem_singleton.mp memberY]

private theorem uniqueIds_nil {α : Type} (id : α → Id) : UniqueIds id [] :=
  fun _ member => by cases member

theorem accepted_namedPool {name : String} (short : shortText name = .ok name) :
    (namedPool name).Accepted sampleLibrary plainSample where
  distinct := {
    httpUpstreams := uniqueIds_singleton _ _
    proxyHosts := uniqueIds_singleton _ _
    accessLists := uniqueIds_singleton _ _
    redirectionHosts := uniqueIds_nil _
    deadHosts := uniqueIds_nil _
    defaultTls := uniqueIds_nil _
    streamUpstreams := uniqueIds_nil _
    streams := uniqueIds_nil _ }
  proxyHosts := by
    intro h member
    cases List.mem_singleton.mp member
    exact {
      names := ⟨["example.com"], by decide +kernel⟩
      target := ⟨fun _ found => (by cases found), fun _ found => (by cases found), by decide⟩
      locations := fun _ inside => by cases inside
      paths := rfl
      accessList := by
        intro a has
        cases has
        refine ⟨by decide +kernel, fun _ inside => (by cases inside), fun r inside => ?_⟩
        cases List.mem_singleton.mp inside
        exact ⟨"10.0.0.0/8", by decide +kernel⟩
      allow := fun _ inside => by cases inside }
  httpUpstreams := by
    intro u member
    cases List.mem_singleton.mp member
    refine ⟨short, fun b inside => ?_⟩
    cases List.mem_singleton.mp inside
    exact ⟨⟨"10.0.0.1", by decide +kernel, by decide +kernel⟩, by decide⟩
  streamUpstreams := fun _ member => by cases member
  streams := fun _ member => by cases member
  redirectionHosts := fun _ member => by cases member
  deadHosts := fun _ member => by cases member
  hostCertificates := by
    intro h member c has
    cases List.mem_singleton.mp member
    cases has
  streamCertificates := fun _ member => by cases member
  redirectionCertificates := fun _ member => by cases member
  deadCertificates := fun _ member => by cases member
  tlsCertificates := fun _ member => by cases member

private theorem noAdvanced_namedPool (name : String) : (namedPool name).NoAdvanced where
  proxyHosts := by
    intro h member
    cases List.mem_singleton.mp member
    rfl
  redirectionHosts := fun _ member => by cases member
  deadHosts := fun _ member => by cases member

/-- A pool called `web` is rendered as its template has it. -/
theorem values_confined_web : (namedPool "web").Confined ∧
    AllReadAsWritten (configBodies plainSample (namedPool "web")) ∧
    AllReadAsWritten (Dict.ofPairs []) := by
  have confined : (namedPool "web").Confined := by
    refine ⟨fun h member => ?_, fun u member => ?_, fun _ member => (by cases member),
      fun _ member => (by cases member), fun _ member => (by cases member)⟩
    · cases List.mem_singleton.mp member
      refine ⟨fun absent => (by cases absent), fun _ inside => (by cases inside),
        fun _ inside => (by cases inside), fun a has => ?_, fun under => (by cases under)⟩
      cases has
      refine ⟨by decide, fun users => absurd rfl users, fun r inside => ?_⟩
      cases List.mem_singleton.mp inside
      decide +kernel
    · cases List.mem_singleton.mp member
      refine ⟨by decide, fun b inside => ?_⟩
      cases List.mem_singleton.mp inside
      decide +kernel
  exact ⟨confined, (values_confined_iff documented_sampleLibrary plainDeployment_plainSample
    (accepted_namedPool (by decide)) (noAdvanced_namedPool _) rfl).mpr confined⟩

/-- A pool's name may hold a line end, which ends the comment it stands in. -/
theorem pool_name_leaves_comment :
    (namedPool "web\ninclude /tmp/extra.conf;\n#").Accepted sampleLibrary plainSample ∧
    (namedPool "web\ninclude /tmp/extra.conf;\n#").NoAdvanced ∧
    ¬AllReadAsWritten (configBodies plainSample
      (namedPool "web\ninclude /tmp/extra.conf;\n#")) := by
  have accepted := accepted_namedPool
    (show shortText "web\ninclude /tmp/extra.conf;\n#" = .ok _ by decide +kernel)
  refine ⟨accepted, noAdvanced_namedPool _, fun all => ?_⟩
  have confined := (config_readAsWritten documented_sampleLibrary plainDeployment_plainSample
    accepted (noAdvanced_namedPool _)).mp all
  have name := (confined.1 _ (List.mem_singleton_self _)).name
  revert name
  decide +kernel

end MegooPM
