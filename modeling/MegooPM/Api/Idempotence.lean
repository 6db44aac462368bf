import MegooPM.Api.Confinement
import MegooPM.Nginx.Settled
import MegooPM.Nginx.Documents

/-!
# Applying twice

`_atomic_write` writes the rendered text as it is; `_read_managed` reads it back with
universal newlines. A second apply of the same state therefore finds its own files
changed as soon as one of them holds a carriage return. Which values can bring one there
is worked out for the values the schemas accept.
-/
namespace MegooPM

open Lib Lib.Node

/-! ### Reading back -/

/-- A call that reports no change and does not reload nginx. -/
def Quiet (call : Except ValueError (ApplyResult × Disk × List Request)) : Prop :=
  ∃ result disk requests, call = .ok (result, disk, requests) ∧ result.changed = false ∧
    ∀ seen, Request.reload seen ∉ requests

private theorem readText_eq_iff (content : String) :
    readText content = content ↔ NoCarriageReturn content :=
  ⟨fun same => same ▸ readText_clean content, readText_of_clean⟩

/-- Files are read back as they are exactly when they hold no carriage return. -/
theorem eq_map_readText_iff (files : Files) :
    files = files.map (fun _ content => readText content) ↔ CleanFiles files := by
  constructor
  · intro same name content found
    have again := congrArg (fun d : Files => d[name]?) same
    simp only [Std.ExtTreeMap.getElem?_map, found, Option.map_some, Option.some_inj] at again
    exact (readText_eq_iff content).mp again.symm
  · intro clean
    apply Std.ExtTreeMap.ext_getElem?
    intro name
    rw [Std.ExtTreeMap.getElem?_map]
    cases found : files[name]? with
    | none => rfl
    | some content => rw [Option.map_some, readText_of_clean (clean name content found)]

section Again

variable {cfg : Deployment} {o : ApplyOptions} {state : DesiredState}
  {answers : Answers} {disk disk' : Disk} {result : ApplyResult} {requests : List Request}
  {desired : DirName → Files}

/-- What a call that changed something leaves in its directories. -/
theorem managedFiles_of_changed (visible : VisiblePrefix o.managedPrefix)
    (rendered : renderTargets cfg o state = .ok desired)
    (named : ∀ d ∈ o.dirs, Named o.managedPrefix (desired d))
    (ran : applyConfig cfg o state answers disk = .ok (result, disk', requests))
    (changed : result.changed = true) {d : DirName} (target : d ∈ o.dirs) :
    managedFiles o.managedPrefix (disk' d) = desired d := by
  obtain ⟨files, same, ran⟩ := bind_eq_ok ran
  rw [rendered] at same
  cases same
  have path := Except.ok.inj ran
  rcases applyTargets_cases o.managedPrefix o.dirs desired answers
    (if o.ownLock then openLock disk else disk) with
    ⟨_, taken⟩ | ⟨_, taken⟩ | ⟨_, _, taken⟩ | ⟨_, _, taken⟩ <;>
    rw [taken] at path <;> cases path
  · cases changed
  · cases changed
  · cases changed
  · exact managedFiles_syncTargets visible (dirs_nodup o) named _ target

/-- A second call is quiet, whatever nginx answers, exactly when the files are clean. -/
theorem quiet_again_iff (visible : VisiblePrefix o.managedPrefix)
    (rendered : renderTargets cfg o state = .ok desired)
    (holds : ∀ d ∈ o.dirs, managedFiles o.managedPrefix (disk' d) = desired d) :
    (∀ answers', Quiet (applyConfig cfg o state answers' disk')) ↔
      ∀ d ∈ o.dirs, CleanFiles (desired d) := by
  generalize locked : (if o.ownLock then openLock disk' else disk') = start
  have reads : ∀ d ∈ o.dirs, readTargets o.managedPrefix start d =
      (desired d).map fun _ content => readText content := by
    intro d target
    have same : readManaged o.managedPrefix (start d) = readManaged o.managedPrefix (disk' d) := by
      subst locked
      split
      · exact readManaged_openLock visible disk' d
      · rfl
    rw [readTargets, same, readManaged_eq_map, holds d target]
  have runs : ∀ answers', applyConfig cfg o state answers' disk' =
      .ok (applyTargets o.managedPrefix o.dirs desired answers' start) := by
    intro answers'
    rw [applyConfig, rendered, ← locked]
    rfl
  have compare : (∀ d ∈ o.dirs, desired d = readTargets o.managedPrefix start d) ↔
      ∀ d ∈ o.dirs, CleanFiles (desired d) := by
    refine forall₂_congr fun d target => ?_
    rw [reads d target, eq_map_readText_iff]
  rw [← compare]
  constructor
  · intro quiet
    by_contra differs
    -- with a controller that accepts everything the call reports a change
    obtain ⟨again, left, asked, ran, unchanged, _⟩ := quiet acceptAll
    have path := Except.ok.inj ((runs acceptAll).symm.trans ran)
    rcases applyTargets_cases o.managedPrefix o.dirs desired acceptAll start with
      ⟨same, _⟩ | ⟨failed, _⟩ | ⟨_, failed, _⟩ | ⟨_, _, taken⟩
    · exact differs same
    · cases failed
    · cases failed
    · rw [taken] at path
      cases path
      cases unchanged
  · intro same answers'
    have taken : applyTargets o.managedPrefix o.dirs desired answers' start =
        (upToDate o.dirs desired, start, []) := by
      have all : (o.dirs.all fun d => desired d = readTargets o.managedPrefix start d) = true := by
        simpa using same
      simp only [applyTargets, all, if_true]
    refine ⟨upToDate o.dirs desired, start, [], (runs answers').trans ?_, rfl, fun _ => by simp⟩
    rw [taken]

end Again

/-! ### Values that bring a carriage return -/

/-- A backend's host is validated, the name is not. -/
def UpstreamSpec.Clean (u : UpstreamSpec) : Prop :=
  NoCarriageReturn u.name

structure AccessListSpec.Clean (a : AccessListSpec) : Prop where
  name : NoCarriageReturn a.name
  addresses : ∀ r ∈ a.clientRules, NoCarriageReturn r.address

/-- Raw directives are split into lines, so a carriage return in them is lost. -/
structure ProxyHostSpec.Clean (h : ProxyHostSpec) : Prop where
  target : h.upstreamId = none → ∀ host, h.forwardHost = some host → NoCarriageReturn host
  locations : ∀ l ∈ h.locations, l.target = .host → ∀ host, l.forwardHost = some host →
    NoCarriageReturn host
  accessList : ∀ a, h.accessList = some a → a.Clean
  allow : h.maintenanceEnabled = true → ∀ entry ∈ h.maintenanceAllow, NoCarriageReturn entry

def StreamSpec.Clean (s : StreamSpec) : Prop :=
  streamPool s = none → ∀ host, s.forwardHost = some host → NoCarriageReturn host

/-- The pages that are written out: the default site's, the locations', the error pages of
the codes that have one, the ban page, and the maintenance page where a host is down. -/
structure DesiredState.CleanPages (state : DesiredState) : Prop where
  site : ∀ site, state.defaultSite = some site → site.mode = .customPage →
    NoCarriageReturn site.html
  locations : ∀ h ∈ state.proxyHosts, ∀ l ∈ h.locations, l.target = .customPage →
    l.id.isSome = true → NoCarriageReturn l.html
  errors : ∀ page ∈ state.errorPages, page.code ∈ errorCodes → NoCarriageReturn page.html
  ban : ∀ ban, state.banPage = some ban → ban.mode = .customPage → NoCarriageReturn ban.html
  maintenance : (∃ h ∈ state.proxyHosts, h.maintenanceEnabled = true) →
    ∀ m, state.maintenance = some m → m.mode ≠ .megoopm → NoCarriageReturn m.html

/-- No value that is written to the directory holds a carriage return. -/
def DesiredState.CleanIn (state : DesiredState) : DirName → Prop
  | .confd => (∀ u ∈ state.httpUpstreams, u.Clean) ∧ (∀ h ∈ state.proxyHosts, h.Clean) ∧
      ∀ t ∈ state.defaultTls, ∀ name ∈ t.serverNames, NoCarriageReturn name
  | .stream => (∀ u ∈ state.streamUpstreams, u.Clean) ∧ ∀ s ∈ state.streams, s.Clean
  | .default => state.CleanPages

/-- The documents that are shipped with the application; its template loader leaves no
carriage return in them. -/
structure CleanDeployment (cfg : Deployment) : Prop where
  congratulations : NoCarriageReturn cfg.congratulationsHtml
  error : ∀ code, NoCarriageReturn (cfg.errorHtml code (errorCopy code).1 (errorCopy code).2)
  banned : NoCarriageReturn cfg.bannedHtml
  maintenance : NoCarriageReturn cfg.maintenanceHtml

/-! ### One file -/

/-- A file that opens with the common header, whatever values are in it. -/
private theorem clean_file_iff {nodes : List Lib.Node} (header : nodes = managedHeader :: nodes.tail)
    (laid : ObeyAll .free false nodes.tail) :
    NoCarriageReturn (FileBody.conf nodes).text ↔ ObeyAll .clean false nodes.tail := by
  rw [header]
  exact noCarriageReturn_file_iff laid

/-- A value between texts without line ends. -/
private theorem clean_framed {left right : String} (before : OneLine left) (after : OneLine right)
    (value : String) : NoCarriageReturn (left ++ value ++ right) ↔ NoCarriageReturn value := by
  simp only [noCarriageReturn_append, before.2, after.2, true_and, and_true]

theorem clean_upstream {u : UpstreamSpec} (accepted : u.Accepted) :
    NoCarriageReturn (FileBody.conf (upstreamConf u)).text ↔ u.Clean := by
  have laid : ObeyAll .free false (upstreamConf u).tail :=
    (obeys_upstreamConf Policy.ordinary_free u).mpr ⟨trivial, fun _ _ => trivial⟩
  have title : Policy.clean.note ("upstream pool: " ++ u.name ++ " (id=" ++ toString u.id ++ ")") ↔
      NoCarriageReturn u.name := by
    rw [String.append_assoc, String.append_assoc]
    refine clean_framed (OneLine.literal _ rfl) ?_ u.name
    simp only [oneLine_append]
    exact ⟨OneLine.literal _ rfl, .of_plain (plainText_int _), OneLine.literal _ rfl⟩
  rw [clean_file_iff rfl laid, obeys_upstreamConf Policy.ordinary_clean u, title]
  refine and_iff_left fun b member => ?_
  obtain ⟨raw, _, host⟩ := (accepted.backends b member).host
  have port := (plainText_nat b.port).noCarriageReturn
  have colon : NoCarriageReturn ":" := by decide
  show NoCarriageReturn _
  simp only [noCarriageReturn_append]
  exact ⟨⟨noCarriageReturn_of_noSpace (host_of_stripped host).2, colon⟩, port⟩

/-- The port behind a host. -/
private theorem clean_port (port : Option Nat) : NoCarriageReturn (":" ++ optionText port) := by
  have colon : NoCarriageReturn ":" := by decide
  rw [noCarriageReturn_append]
  cases port with
  | none => exact ⟨colon, by decide⟩
  | some port => exact ⟨colon, (plainText_nat port).noCarriageReturn⟩

private theorem clean_scheme (scheme : HttpScheme) : NoCarriageReturn (scheme.value ++ "://") := by
  cases scheme
  all_goals decide

/-- The target of a host or a location. -/
private theorem clean_target {upstreamId : Option Id} {host : Option String} {port : Option Nat}
    (accepted : AcceptedTarget upstreamId host port) (scheme : HttpScheme) :
    NoCarriageReturn (scheme.value ++ "://" ++ targetOf upstreamId host port) ↔
      (upstreamId = none → ∀ text, host = some text → NoCarriageReturn text) := by
  have one := accepted.exactlyOne
  rw [noCarriageReturn_append, and_iff_right (clean_scheme scheme)]
  cases upstreamId with
  | some i =>
    have pool := (plainWord_poolName i).plain.noCarriageReturn
    exact ⟨fun _ absent => (by cases absent), fun _ => pool⟩
  | none =>
    cases host with
    | none => simp at one
    | some text =>
      show NoCarriageReturn (text ++ ":" ++ optionText port) ↔ _
      rw [String.append_assoc, noCarriageReturn_append, and_iff_left (clean_port port)]
      exact ⟨fun clean _ _ found => (by cases found; exact clean), fun all => all rfl text rfl⟩

/-- A location names the host it forwards to, or a pool. -/
private theorem clean_route {l : LocationSpec} (accepted : l.Accepted) {found : Option String}
    (own : l.target.proxies = true →
      found = some (targetOf l.upstreamId l.forwardHost l.forwardPort)) :
    (l.target.proxies = true →
      NoCarriageReturn (l.forwardScheme.value ++ "://" ++ found.getD "")) ↔
    (l.target = .host → ∀ host, l.forwardHost = some host → NoCarriageReturn host) := by
  cases target : l.target with
  | pool =>
    have proxies : l.target.proxies = true := by rw [target]; rfl
    have word := clean_target (accepted.target proxies) l.forwardScheme
    obtain ⟨i, pool⟩ := Option.isSome_iff_exists.mp (accepted.pool target).1
    rw [own proxies, Option.getD_some, word, pool]
    exact ⟨fun _ other => (by cases other), fun _ _ absent => (by cases absent)⟩
  | host =>
    have proxies : l.target.proxies = true := by rw [target]; rfl
    have word := clean_target (accepted.target proxies) l.forwardScheme
    rw [own proxies, Option.getD_some, word, accepted.host target]
    exact ⟨fun all _ => all rfl rfl, fun all _ _ => all rfl⟩
  | _ => exact ⟨fun _ other => (by cases other), fun _ other => (by cases other)⟩

private theorem clean_accessList (a : AccessListSpec) : AccessListObeys .clean a ↔ a.Clean := by
  have title := clean_framed (OneLine.literal "Access list \"".toList rfl)
    (OneLine.literal "\" (MEG-21).".toList rfl) a.name
  have quote : OneLine "\"" := OneLine.literal _ rfl
  constructor
  · intro obey
    exact ⟨title.mp obey.comment, obey.addresses⟩
  · intro clean
    exact ⟨title.mpr clean.name, fun _ => (clean_framed quote quote a.name).mpr clean.name,
      clean.addresses⟩

theorem clean_proxyHost {library : SchemaLibrary} {cfg : Deployment} (plain : PlainDeployment cfg)
    {h : ProxyHostSpec} (accepted : h.Accepted library)
    (certificate : ∀ c, h.certificate = some c → PlainCertificate c)
    (maintenance : Option MaintenanceSpec) :
    NoCarriageReturn (FileBody.conf (proxyHostConf cfg h maintenance)).text ↔ h.Clean := by
  have laid : ObeyAll .free false (proxyHostConf cfg h maintenance).tail := by
    rw [obeys_proxyHostConf Policy.ordinary_free plain h certificate]
    exact ⟨fun _ _ => trivial, ⟨trivial, fun _ _ => trivial, fun _ _ _ => trivial⟩,
      fun _ _ => ⟨trivial, fun _ => trivial, fun _ _ => trivial⟩, fun _ _ _ => trivial,
      fun _ => trivial⟩
  rw [clean_file_iff (proxyHostConf_header cfg h maintenance) laid,
    obeys_proxyHostConf Policy.ordinary_clean plain h certificate]
  obtain ⟨_, names⟩ := accepted.names
  have distinct := (nodup_of_unique accepted.paths).1
  have target := clean_target accepted.target h.forwardScheme
  have route := fun l member => clean_route (accepted.locations l member) fun proxies =>
    locationTargets_own distinct member proxies
  constructor
  · intro obey
    exact {
      target := target.mp obey.routes.target
      locations := fun l member => (route l member).mp (obey.routes.locations l member)
      accessList := fun a has => (clean_accessList a).mp (obey.accessList a has)
      allow := obey.maintenance }
  · intro clean
    have path : ∀ l ∈ h.locations, NoCarriageReturn l.path := by
      intro l member
      obtain ⟨raw, validated⟩ := (accepted.locations l member).path
      exact noCarriageReturn_of_noSpace fun c inside =>
        ((path_of_validated validated).2 c inside).1
    exact {
      names := (plainNames_of_normalised names).arguments Policy.ordinary_clean
      routes := {
        target := target.mpr clean.target
        paths := path
        locations := fun l member => (route l member).mpr (clean.locations l member) }
      accessList := fun a has => (clean_accessList a).mpr (clean.accessList a has)
      maintenance := clean.allow
      advanced := fun _ => noCarriageReturn_indent4 h.advancedConfig }

theorem clean_stream {s : StreamSpec} (certificate : ∀ c, s.certificate = some c → PlainCertificate c) :
    NoCarriageReturn (FileBody.conf (streamConf s)).text ↔ s.Clean := by
  have laid : ObeyAll .free false (streamConf s).tail :=
    (obeys_streamConf Policy.ordinary_free certificate).mpr fun _ => ⟨trivial, trivial⟩
  rw [clean_file_iff rfl laid, obeys_streamConf Policy.ordinary_clean certificate]
  refine forall_congr' fun _ => ?_
  have word : Policy.clean.word (streamLiteral s) ↔ NoCarriageReturn (optionText s.forwardHost) := by
    show NoCarriageReturn (streamLiteral s) ↔ _
    rw [streamLiteral, String.append_assoc, noCarriageReturn_append,
      and_iff_left (clean_port s.forwardPort)]
  have note : Policy.clean.note (streamTitle s ++ streamLiteral s) ↔
      Policy.clean.word (streamLiteral s) := by
    show NoCarriageReturn (streamTitle s ++ streamLiteral s) ↔ NoCarriageReturn (streamLiteral s)
    rw [noCarriageReturn_append, and_iff_right (oneLine_streamTitle s).2]
  rw [note, and_self, word]
  cases s.forwardHost with
  | none => exact ⟨fun _ _ found => (by cases found), fun _ => by decide⟩
  | some text => exact ⟨fun clean _ found => (by cases found; exact clean), fun all => all text rfl⟩

private theorem clean_redirectionHost {library : SchemaLibrary} {cfg : Deployment}
    (plain : PlainDeployment cfg) {h : RedirectionHostSpec} (accepted : h.Accepted library)
    (certificate : ∀ c, h.certificate = some c → PlainCertificate c) :
    NoCarriageReturn (FileBody.conf (redirectionHostConf cfg h)).text := by
  obtain ⟨_, names⟩ := accepted.names
  obtain ⟨_, forward⟩ := accepted.forward
  have domain := (plainNames_of_normalised forward).plain _ (List.mem_singleton_self _)
  have obeys := fun {p : Policy} (ordinary : p.Ordinary) =>
    obeys_redirectionHostConf ordinary plain (plainNames_of_normalised names) domain.plain
      certificate
  have header : redirectionHostConf cfg h = managedHeader :: (redirectionHostConf cfg h).tail := by
    unfold redirectionHostConf
    rfl
  exact (clean_file_iff header (obeys Policy.ordinary_free fun _ => trivial)).mpr
    (obeys Policy.ordinary_clean fun _ => noCarriageReturn_indent4 _)

private theorem clean_deadHost {library : SchemaLibrary} {cfg : Deployment}
    (plain : PlainDeployment cfg) {h : DeadHostSpec} (accepted : h.Accepted library)
    (certificate : ∀ c, h.certificate = some c → PlainCertificate c) :
    NoCarriageReturn (FileBody.conf (deadHostConf cfg h)).text := by
  obtain ⟨_, names⟩ := accepted.names
  have obeys := fun {p : Policy} (ordinary : p.Ordinary) =>
    obeys_deadHostConf ordinary plain (plainNames_of_normalised names) certificate
  have header : deadHostConf cfg h = managedHeader :: (deadHostConf cfg h).tail := by
    unfold deadHostConf
    rfl
  exact (clean_file_iff header (obeys Policy.ordinary_free fun _ => trivial)).mpr
    (obeys Policy.ordinary_clean fun _ => noCarriageReturn_indent4 _)

private theorem clean_defaultTls {cfg : Deployment} (plain : PlainDeployment cfg)
    {t : DefaultTlsSpec} (certificate : PlainCertificate t.certificate) :
    NoCarriageReturn (FileBody.conf (defaultTlsConf cfg t)).text ↔
      ∀ name ∈ t.serverNames, NoCarriageReturn name := by
  have laid : ObeyAll .free false (defaultTlsConf cfg t).tail :=
    (obeys_defaultTlsConf Policy.ordinary_free plain certificate).mpr fun _ _ => trivial
  rw [clean_file_iff rfl laid, obeys_defaultTlsConf Policy.ordinary_clean plain certificate,
    serverArguments]
  split
  next none =>
    rw [none]
    refine ⟨fun _ _ member => (by cases member), fun _ name member => ?_⟩
    rw [List.mem_singleton.mp member]
    show NoCarriageReturn ""
    decide
  · rfl

private theorem clean_htpasswd {library : SchemaLibrary} {a : AccessListSpec}
    (accepted : a.Accepted library) (hashes : ∀ u ∈ a.authUsers, OneLine u.passwordHash) :
    NoCarriageReturn (renderHtpasswd a) := by
  refine noCarriageReturn_join fun line member => ?_
  obtain ⟨u, inside, rfl⟩ := List.mem_map.mp member
  obtain ⟨raw, validated⟩ := accepted.users u inside
  have name := noCarriageReturn_of_noSpace (username_of_validated validated)
  have marks : NoCarriageReturn ":" ∧ NoCarriageReturn "\n" := by decide
  simp only [noCarriageReturn_append]
  exact ⟨⟨⟨name, marks.1⟩, (hashes u inside).2⟩, marks.2⟩

/-! ### One directory -/

private theorem clean_text_iff {pairs : List (String × FileBody)} (functional : Functional pairs) :
    CleanFiles (Bodies.text (Dict.ofPairs pairs)) ↔
      ∀ name body, (name, body) ∈ pairs → NoCarriageReturn body.text := by
  constructor
  · intro clean name body member
    exact clean name _ (get_text_ofPairs functional member)
  · exact fun clean => clean_text fun file member => clean file.1 file.2 member

theorem clean_renderConfig {library : SchemaLibrary} {cfg : Deployment}
    (plain : PlainDeployment cfg) {state : DesiredState} (accepted : state.Accepted library cfg)
    (pages : state.AcceptedPages library) :
    CleanFiles (renderConfig cfg state) ↔ state.CleanIn .confd := by
  have pool := fun u member => clean_upstream (accepted.httpUpstreams u member)
  have host := fun h member => clean_proxyHost plain (accepted.proxyHosts h member)
    (fun c has => plainCertificate_loaded plain (accepted.hostCertificates h member c has))
    state.maintenance
  have tls := fun t member => clean_defaultTls plain
    (plainCertificate_loaded plain (accepted.tlsCertificates t member))
  rw [renderConfig, configBodies, clean_text_iff (functional_configPairs cfg accepted.distinct)]
  simp only [configPairs, List.mem_append, List.mem_map, List.mem_flatMap]
  constructor
  · intro all
    refine ⟨fun u member => ?_, fun h member => ?_, fun t member => ?_⟩
    · exact (pool u member).mp (all _ _ (Or.inl (Or.inl (Or.inl (Or.inl ⟨u, member, rfl⟩)))))
    · refine (host h member).mp (all (proxyFilename h.id) _ (Or.inl (Or.inl (Or.inl (Or.inr ?_)))))
      exact ⟨h, member, mem_renderProxyHost.mpr (Or.inl rfl)⟩
    · exact (tls t member).mp (all _ _ (Or.inr ⟨t, member, rfl⟩))
  · rintro ⟨pools, hosts, plans⟩ name body
      ((((⟨u, member, same⟩ | ⟨h, member, inside⟩) | ⟨r, member, same⟩) | ⟨d, member, same⟩) |
        ⟨t, member, same⟩)
    · cases same
      exact (pool u member).mpr (pools u member)
    · rcases mem_renderProxyHost.mp inside with same | ⟨a, has, _, same⟩
      · cases same
        exact (host h member).mpr (hosts h member)
      · cases same
        exact clean_htpasswd ((accepted.proxyHosts h member).accessList a has)
          (pages.hashes h member a has)
    · cases same
      exact clean_redirectionHost plain (accepted.redirectionHosts r member) fun c has =>
        plainCertificate_loaded plain (accepted.redirectionCertificates r member c has)
    · cases same
      exact clean_deadHost plain (accepted.deadHosts d member) fun c has =>
        plainCertificate_loaded plain (accepted.deadCertificates d member c has)
    · cases same
      exact (tls t member).mpr (plans t member)

theorem clean_renderStreamConfig {library : SchemaLibrary} {cfg : Deployment}
    (plain : PlainDeployment cfg) {state : DesiredState} (accepted : state.Accepted library cfg)
    {files : Files} (rendered : renderStreamConfig state = .ok files) :
    CleanFiles files ↔ state.CleanIn .stream := by
  have pool := fun u member => clean_upstream (accepted.streamUpstreams u member)
  have stream := fun s member => clean_stream (s := s)
    fun c has => plainCertificate_loaded plain (accepted.streamCertificates s member c has)
  obtain ⟨pairs, listed, rfl⟩ := renderStreamConfig_ok rendered
  rw [streamPairs_ok listed, clean_text_iff (functional_streamPairs accepted.distinct)]
  simp only [List.mem_append, List.mem_map]
  constructor
  · intro all
    refine ⟨fun u member => ?_, fun s member => ?_⟩
    · exact (pool u member).mp (all _ _ (Or.inl ⟨u, member, rfl⟩))
    · exact (stream s member).mp (all _ _ (Or.inr ⟨s, member, rfl⟩))
  · rintro ⟨pools, streams⟩ name body (⟨u, member, same⟩ | ⟨s, member, same⟩)
    · cases same
      exact (pool u member).mpr (pools u member)
    · cases same
      exact (stream s member).mpr (streams s member)

/-! ### The default directory -/

private theorem clean_orText {a b : String} (shipped : NoCarriageReturn b) :
    NoCarriageReturn (orText a b) ↔ NoCarriageReturn a := by
  rw [orText]
  split
  next empty =>
    rw [empty]
    exact ⟨fun _ => by decide, fun _ => shipped⟩
  · rfl

private theorem clean_site {library : SchemaLibrary} {cfg : Deployment}
    (plain : PlainDeployment cfg) (shipped : CleanDeployment cfg) {site : DefaultSiteSpec}
    (redirect : site.mode = .redirect → ∃ raw, validateRedirectUrl library raw = .ok site.redirectUrl) :
    (∀ name body, (name, body) ∈ defaultSitePairs cfg (some site) → NoCarriageReturn body.text) ↔
      (site.mode = .customPage → NoCarriageReturn site.html) := by
  have quote : OneLine "\"" := OneLine.literal _ rfl
  have url : site.mode = .redirect → NoCarriageReturn ("\"" ++ site.redirectUrl ++ "\"") := by
    intro mode
    obtain ⟨raw, validated⟩ := redirect mode
    exact (clean_framed quote quote _).mpr (redirectUrl_of_validated validated)
  -- the layout is clean, and of the words only the redirect is the operator's
  have template : ∀ bodyOnly,
      NoCarriageReturn (FileBody.conf (defaultSiteTemplate cfg site bodyOnly)).text := by
    intro bodyOnly
    have header : defaultSiteTemplate cfg site bodyOnly =
        managedHeader :: (defaultSiteTemplate cfg site bodyOnly).tail := by
      unfold defaultSiteTemplate
      rfl
    have laid := (obeys_defaultSiteTemplate Policy.ordinary_free plain site bodyOnly).mpr
      fun _ => trivial
    exact (clean_file_iff header laid).mpr
      ((obeys_defaultSiteTemplate Policy.ordinary_clean plain site bodyOnly).mpr url)
  constructor
  · intro all custom
    refine all defaultSiteHtml (.plain site.html) ?_
    simp only [defaultSitePairs, custom]
    exact List.mem_append_right _ (List.mem_singleton_self _)
  · intro custom name body member
    rcases List.mem_append.mp member with fixed | document
    · rcases List.mem_cons.mp fixed with same | fixed
      · cases same
        exact template false
      · cases List.mem_singleton.mp fixed
        exact template true
    · cases mode : site.mode with
      | congratulations =>
        rw [mode] at document
        cases List.mem_singleton.mp document
        exact shipped.congratulations
      | customPage =>
        rw [mode] at document
        cases List.mem_singleton.mp document
        exact custom mode
      | _ =>
        rw [mode] at document
        cases document

private theorem clean_errors {cfg : Deployment} (plain : PlainDeployment cfg)
    (shipped : CleanDeployment cfg) {pages : List ErrorPageSpec} (codes : (pages.map (·.code)).Nodup) :
    (∀ name body, (name, body) ∈ errorPairs cfg pages → NoCarriageReturn body.text) ↔
      ∀ page ∈ pages, page.code ∈ errorCodes → NoCarriageReturn page.html := by
  have document : ∀ code, NoCarriageReturn (errorDocument cfg pages code) ↔
      NoCarriageReturn (((Dict.ofPairs (pages.map fun p => (p.code, p.html)))[code]?).getD "") :=
    fun code => clean_orText (shipped.error _)
  constructor
  · intro all page member known
    have clean := all (errorHtml page.code) (.plain (errorDocument cfg pages page.code))
      (List.mem_append_left _ (List.mem_map_of_mem known))
    have own : (Dict.ofPairs (pages.map fun p => (p.code, p.html)))[page.code]? =
        some page.html := by
      refine Dict.get_ofPairs _ _ _ (List.mem_map_of_mem member) fun html other => ?_
      obtain ⟨page', inside, same⟩ := List.mem_map.mp other
      rw [List.inj_on_of_nodup_map codes inside member (Prod.mk.inj same).1] at same
      exact (Prod.mk.inj same).2.symm
    have read := (document page.code).mp clean
    rwa [own] at read
  · intro all name body member
    rcases List.mem_append.mp member with listed | last
    · obtain ⟨code, known, same⟩ := List.mem_map.mp listed
      cases same
      refine (document code).mpr ?_
      cases found : (Dict.ofPairs (pages.map fun p => (p.code, p.html)))[code]? with
      | none => exact (by decide : NoCarriageReturn "")
      | some html =>
        obtain ⟨page, inside, same⟩ := List.mem_map.mp (Dict.mem_of_get_ofPairs _ _ _ found)
        cases same
        exact all page inside known
    · cases List.mem_singleton.mp last
      have tree := (noCarriageReturn_printAll_iff (errorsTemplate cfg errorCodes)
        (obeys_errorsTemplate Policy.ordinary_free plain errorCodes)).mpr
        (obeys_errorsTemplate Policy.ordinary_clean plain errorCodes)
      exact (noCarriageReturn_append _ _).mpr ⟨tree, by decide⟩

private theorem clean_ban {cfg : Deployment} (shipped : CleanDeployment cfg) (ban : BanPageSpec) :
    (∀ name body, (name, body) ∈ banPairs cfg (some ban) → NoCarriageReturn body.text) ↔
      (ban.mode = .customPage → NoCarriageReturn ban.html) := by
  cases mode : ban.mode with
  | none => simp [banPairs, mode]
  | megoopm =>
    refine ⟨fun _ other => (by cases other), fun _ name body member => ?_⟩
    simp only [banPairs, mode] at member
    split at member
    · cases member
    · cases List.mem_singleton.mp member
      exact shipped.banned
  | customPage =>
    simp only [banPairs, mode]
    split
    next empty =>
      rw [empty]
      exact ⟨fun _ _ => by decide, fun _ _ _ member => by cases member⟩
    · constructor
      · intro all _
        exact all banPageHtml (.plain ban.html) (List.mem_singleton_self _)
      · intro clean name body member
        cases List.mem_singleton.mp member
        exact clean trivial

private theorem clean_maintenance {cfg : Deployment} (shipped : CleanDeployment cfg)
    (state : DesiredState) :
    (∀ name body, (name, body) ∈ maintenancePairs cfg state → NoCarriageReturn body.text) ↔
      ((∃ h ∈ state.proxyHosts, h.maintenanceEnabled = true) →
        ∀ m, state.maintenance = some m → m.mode ≠ .megoopm → NoCarriageReturn m.html) := by
  have document : NoCarriageReturn (maintenanceDocument cfg state.maintenance) ↔
      ∀ m, state.maintenance = some m → m.mode ≠ .megoopm → NoCarriageReturn m.html := by
    refine (clean_orText shipped.maintenance).trans ?_
    cases state.maintenance with
    | none => exact ⟨fun _ _ found => (by cases found), fun _ => by decide⟩
    | some m =>
      by_cases own : m.mode = .megoopm
      · simp only [own, if_true]
        refine ⟨fun _ m' found other => ?_, fun _ => by decide⟩
        cases found
        exact absurd own other
      · simp only [own, if_false]
        exact ⟨fun clean _ found _ => (by cases found; exact clean), fun all => all m rfl own⟩
  rw [maintenancePairs, ← document]
  split
  next down =>
    have some := List.any_eq_true.mp down
    constructor
    · intro all _
      exact all maintenanceHtml _ (List.mem_singleton_self _)
    · intro clean name body member
      cases List.mem_singleton.mp member
      exact clean some
  next up =>
    have none : ¬∃ h ∈ state.proxyHosts, h.maintenanceEnabled = true :=
      fun some => up (List.any_eq_true.mpr some)
    exact ⟨fun _ some => absurd some none, fun _ _ _ member => by cases member⟩

theorem clean_renderDefaultSite {library : SchemaLibrary} {cfg : Deployment}
    (plain : PlainDeployment cfg) (shipped : CleanDeployment cfg) {state : DesiredState}
    (pages : state.AcceptedPages library) :
    CleanFiles (renderDefaultSite cfg state) ↔ state.CleanIn .default := by
  rw [renderDefaultSite, clean_text_iff (functional_defaultPairs cfg state pages.locationIds)]
  have errors := clean_errors plain shipped pages.codes
  have maintenance := clean_maintenance shipped state
  -- the groups of files in the order in which they are rendered
  simp only [defaultPairs, List.mem_append]
  constructor
  · intro all
    refine ⟨fun site has custom => ?_, fun h host l inside custom own => ?_,
      errors.mp fun name body member => all name body (Or.inl (Or.inl (Or.inr member))),
      fun ban has custom => ?_, maintenance.mp fun name body member => all name body (Or.inr member)⟩
    · refine (clean_site plain shipped (pages.redirectUrl site has)).mp (fun name body member => ?_)
        custom
      exact all name body (Or.inl (Or.inl (Or.inl (Or.inl (has ▸ member)))))
    · refine all (locationHtml l.id) (.plain l.html) (Or.inl (Or.inl (Or.inl (Or.inr ?_))))
      refine List.mem_flatMap.mpr ⟨h, host, List.mem_map.mpr ⟨l, ?_, rfl⟩⟩
      exact List.mem_filter.mpr ⟨inside, by simp [custom, own]⟩
    · refine (clean_ban shipped ban).mp (fun name body member => ?_) custom
      exact all name body (Or.inl (Or.inr (has ▸ member)))
  · rintro clean name body ((((site | location) | error) | ban) | down)
    · cases has : state.defaultSite with
      | none =>
        rw [has] at site
        cases site
      | some spec =>
        rw [has] at site
        exact (clean_site plain shipped (pages.redirectUrl spec has)).mpr (clean.site spec has)
          name body site
    · obtain ⟨h, host, listed⟩ := List.mem_flatMap.mp location
      obtain ⟨l, kept, same⟩ := List.mem_map.mp listed
      obtain ⟨inside, shown⟩ := List.mem_filter.mp kept
      have custom := of_decide_eq_true shown
      cases same
      exact clean.locations h host l inside custom.1 custom.2
    · exact errors.mpr clean.errors name body error
    · cases has : state.banPage with
      | none =>
        rw [has] at ban
        cases ban
      | some spec =>
        rw [has] at ban
        exact (clean_ban shipped spec).mpr (clean.ban spec has) name body ban
    · exact maintenance.mpr clean.maintenance name body down

/-! ### Applying twice -/

/-- The rendered files of the given directories are clean exactly when the values are. -/
theorem clean_renderTargets {library : SchemaLibrary} {cfg : Deployment}
    (plain : PlainDeployment cfg) (shipped : CleanDeployment cfg) {o : ApplyOptions}
    {state : DesiredState} (accepted : state.Accepted library cfg)
    (pages : state.AcceptedPages library) {desired : DirName → Files}
    (rendered : renderTargets cfg o state = .ok desired) {d : DirName} (target : d ∈ o.dirs) :
    CleanFiles (desired d) ↔ state.CleanIn d := by
  obtain ⟨stream, listed, rendered⟩ := bind_eq_ok rendered
  cases rendered
  cases d with
  | confd => exact clean_renderConfig plain accepted pages
  | stream =>
    have given : o.streamDir = true := by simpa [ApplyOptions.dirs] using target
    rw [given] at listed
    exact clean_renderStreamConfig plain accepted listed
  | default =>
    have given : o.defaultDir = true := by simpa [ApplyOptions.dirs] using target
    show CleanFiles (if o.defaultDir = true then renderDefaultSite cfg state else ∅) ↔ _
    rw [given, if_pos rfl]
    exact clean_renderDefaultSite plain shipped pages

/-- After a call that changed something, the same call is quiet, whatever nginx answers,
exactly when no value that was written holds a carriage return. -/
theorem apply_quiet_again_iff {library : SchemaLibrary} {cfg : Deployment}
    (plain : PlainDeployment cfg) (shipped : CleanDeployment cfg) (p : ManagedPrefix)
    {o : ApplyOptions} (uses : o.managedPrefix = p.text) {state : DesiredState}
    (accepted : state.Accepted library cfg) (pages : state.AcceptedPages library)
    {answers : Answers} {disk disk' : Disk} {result : ApplyResult} {requests : List Request}
    (ran : applyConfig cfg o state answers disk = .ok (result, disk', requests))
    (changed : result.changed = true) :
    (∀ answers', Quiet (applyConfig cfg o state answers' disk')) ↔
      ∀ d ∈ o.dirs, state.CleanIn d := by
  have visible : VisiblePrefix o.managedPrefix := by
    rw [uses]
    exact p.visible
  obtain ⟨desired, rendered, _⟩ := bind_eq_ok ran
  have named : ∀ d ∈ o.dirs, Named o.managedPrefix (desired d) := by
    intro d _
    rw [uses]
    exact p.named (named_renderTargets rendered d)
  have holds := fun d target =>
    managedFiles_of_changed visible rendered named ran changed (d := d) target
  rw [quiet_again_iff visible rendered holds]
  exact forall₂_congr fun d target => clean_renderTargets plain shipped accepted pages rendered target

/-- A default site that shows the given page, and nothing else. -/
def customSite (html : String) : DesiredState where
  defaultSite := some { mode := .customPage, html := html }

private theorem cleanDeployment_plainSample : CleanDeployment plainSample where
  congratulations := by decide
  error := by
    intro code
    show NoCarriageReturn (errorCopy code).1
    unfold errorCopy
    repeat' split
    all_goals decide
  banned := by decide
  maintenance := by decide

private theorem accepted_customSite (html : String) :
    (customSite html).Accepted sampleLibrary plainSample where
  distinct := {
    httpUpstreams := fun _ member => by cases member
    proxyHosts := fun _ member => by cases member
    accessLists := fun _ member => by cases member
    redirectionHosts := fun _ member => by cases member
    deadHosts := fun _ member => by cases member
    defaultTls := fun _ member => by cases member
    streamUpstreams := fun _ member => by cases member
    streams := fun _ member => by cases member }
  proxyHosts := fun _ member => by cases member
  httpUpstreams := fun _ member => by cases member
  streamUpstreams := fun _ member => by cases member
  streams := fun _ member => by cases member
  redirectionHosts := fun _ member => by cases member
  deadHosts := fun _ member => by cases member
  hostCertificates := fun _ member => by cases member
  streamCertificates := fun _ member => by cases member
  redirectionCertificates := fun _ member => by cases member
  deadCertificates := fun _ member => by cases member
  tlsCertificates := fun _ member => by cases member

private theorem acceptedPages_customSite {html : String} (small : validateHtml html = .ok html) :
    (customSite html).AcceptedPages sampleLibrary where
  locationIds := fun _ member => by cases member
  codes := List.nodup_nil
  redirectUrl := by
    intro site has mode
    cases has
    cases mode
  sitePage := by
    intro site has
    cases has
    exact small
  locationPages := fun _ member => by cases member
  errorPages := fun _ member => by cases member
  banPage := fun _ has => by cases has
  maintenancePage := fun _ has => by cases has
  hashes := fun _ member => by cases member

/-- On an empty disk the first call finds something to write. -/
private theorem customSite_applied (html : String) : ∃ result disk' requests,
    applyConfig plainSample {} (customSite html) acceptAll (fun _ => ∅) =
      .ok (result, disk', requests) ∧ result.changed = true := by
  obtain ⟨content, present⟩ := errorsConf_rendered plainSample (customSite html)
  have renders : ∃ desired, renderTargets plainSample {} (customSite html) = .ok desired ∧
      desired .default = renderDefaultSite plainSample (customSite html) := ⟨_, rfl, rfl⟩
  obtain ⟨desired, rendered, site⟩ := renders
  have wanted : (desired .default)[errorsConf]? = some content := by
    rw [site]
    exact present
  have ran : applyConfig plainSample {} (customSite html) acceptAll (fun _ => ∅) = .ok
      (applyTargets defaultManagedPrefix ({} : ApplyOptions).dirs desired acceptAll
        (openLock fun _ => ∅)) := by
    rw [applyConfig, rendered]
    rfl
  rw [applied_of_unmanaged wanted _ (by decide)] at ran
  exact ⟨_, _, _, ran, rfl⟩

/-- A page with Unix line ends is written once. -/
theorem apply_quiet_again_page :
    ∃ result disk' requests,
      applyConfig plainSample {} (customSite "<p>\n</p>") acceptAll (fun _ => ∅) =
        .ok (result, disk', requests) ∧ result.changed = true ∧
      ∀ answers', Quiet (applyConfig plainSample {} (customSite "<p>\n</p>") answers' disk') := by
  obtain ⟨result, disk', requests, ran, changed⟩ := customSite_applied "<p>\n</p>"
  refine ⟨result, disk', requests, ran, changed, ?_⟩
  refine (apply_quiet_again_iff plainDeployment_plainSample cleanDeployment_plainSample defaultPrefix
    rfl (accepted_customSite _) (acceptedPages_customSite (by decide)) ran changed).mpr ?_
  intro d _
  cases d with
  | confd => exact ⟨fun _ member => (by cases member), fun _ member => (by cases member),
      fun _ member => by cases member⟩
  | stream => exact ⟨fun _ member => (by cases member), fun _ member => by cases member⟩
  | default =>
    refine ⟨fun site has _ => ?_, fun _ member => (by cases member),
      fun _ member => (by cases member), fun _ has => (by cases has),
      fun _ _ has => by cases has⟩
    cases has
    decide

/-- A page with Windows line ends, which the schema accepts, is applied anew each time:
the second call reports a change again and reloads nginx. -/
theorem apply_page_never_settles :
    validateHtml "<p>\r\n</p>" = .ok "<p>\r\n</p>" ∧
    (customSite "<p>\r\n</p>").Accepted sampleLibrary plainSample ∧
    (customSite "<p>\r\n</p>").AcceptedPages sampleLibrary ∧
    ∃ result disk' requests,
      applyConfig plainSample {} (customSite "<p>\r\n</p>") acceptAll (fun _ => ∅) =
        .ok (result, disk', requests) ∧ result.changed = true ∧
      ∃ answers', ¬Quiet (applyConfig plainSample {} (customSite "<p>\r\n</p>") answers' disk') := by
  have small : validateHtml "<p>\r\n</p>" = .ok "<p>\r\n</p>" := by decide
  have accepted := accepted_customSite "<p>\r\n</p>"
  have pages := acceptedPages_customSite small
  obtain ⟨result, disk', requests, ran, changed⟩ := customSite_applied "<p>\r\n</p>"
  refine ⟨small, accepted, pages, result, disk', requests, ran, changed, ?_⟩
  rw [← not_forall]
  intro settled
  obtain ⟨desired, rendered, _⟩ := bind_eq_ok ran
  have holds := fun d target => managedFiles_of_changed visiblePrefix_default rendered
    (fun d _ => named_renderTargets rendered d) ran changed (d := d) target
  have files := (quiet_again_iff visiblePrefix_default rendered holds).mp settled
  have page := (clean_renderTargets plainDeployment_plainSample cleanDeployment_plainSample accepted
    pages rendered (by decide)).mp (files .default (by decide))
  have clean := page.site _ rfl rfl
  revert clean
  decide

end MegooPM
