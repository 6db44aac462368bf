import MegooPM.Nginx.Sockets
import MegooPM.Nginx.CertificatePaths
import MegooPM.Api.Schemas
import MegooPM.Lib.Owners
import Mathlib

/-!
# Names on port 443

Who answers for a name over TLS, read off the rendered files: nginx splits the arguments of
`server_name` at blanks and takes them without regard to case. The plan arbitrates exact
texts only, and prints what a certificate says as it stands.
-/
namespace MegooPM

open Lib Lib.Node

/-! ### The names of a certificate -/

/-- A name appended unless it is there. -/
def appendNew (names : List String) (name : String) : List String :=
  if name ∈ names then names else names ++ [name]

/-- `extract_domain_names`: the DNS names of the SAN, then every Common Name that is a text
and not among them, each once. -/
def extractDomainNames (san : Option (List String)) (commonNames : List (Option String)) :
    List String :=
  ((commonNames.filterMap id).foldl appendNew (san.getD [])).foldl appendNew []

/-! ### Reading -/

/-- `ngx_strlow` -/
def strlow (name : String) : String :=
  String.ofList (name.toList.map Char.toLower)

def isBlank (c : Char) : Bool :=
  c = ' ' || c = '\t' || c = '\r' || c = '\n'

/-- The words of a text, in lower case. A name is only split at blanks here: nginx's lexer, for
which a `;` or a quote ends a word too, does not come into it. -/
def readWords (text : String) : List String :=
  ((text.toList.splitOnP isBlank).filter (· ≠ [])).map fun word => strlow (String.ofList word)

/-- The names a server block answers for. -/
def readNames (server : List Lib.Node) : List String :=
  (allDirectives "server_name" server).flatten.flatMap readWords

/-- The server blocks of a file that listen on port 443. -/
def tlsServers (nodes : List Lib.Node) : List (List Lib.Node) :=
  ((Lib.Node.blocks "server" nodes).map Prod.snd).filter fun server =>
    (allDirectives "listen" server).any (·.head? = some "443")

/-- The blocks on port 443 of a directory that answer for a name. -/
def Bodies.answering (bodies : Bodies) (name : String) : List (List Lib.Node) :=
  (bodies.toList.flatMap fun file => tlsServers file.2.tree).filter (name ∈ readNames ·)

/-! ### Words -/

/-- A text that is read as one name. -/
def OneName (name : String) : Prop :=
  name ≠ "" ∧ ∀ c ∈ name.toList, isBlank c = false

theorem oneName_of_all {name : String} (some_ : name ≠ "")
    (plain : (name.toList.all fun c => !isBlank c) = true) : OneName name := by
  refine ⟨some_, fun c member => ?_⟩
  simpa using List.all_eq_true.mp plain c member

theorem readWords_of_oneName {name : String} (one : OneName name) :
    readWords name = [strlow name] := by
  have split : name.toList.splitOnP isBlank = [name.toList] := List.splitOnP_eq_singleton one.2
  have some_ : name.toList ≠ [] := fun empty => one.1 (String.toList_inj.mp empty)
  simp [readWords, split, some_]

private theorem toLower_cases (c : Char) :
    c.toLower = c ∨ 97 ≤ c.toLower.toNat ∧ c.toLower.toNat ≤ 122 := by
  unfold Char.toLower
  split
  next upper =>
    obtain ⟨low, high⟩ := upper
    have low : 65 ≤ c.val.toNat := low
    have high : c.val.toNat ≤ 90 := high
    have shift : ('a'.val - 'A'.val).toNat = 32 := by decide
    have sum : (c.val + ('a'.val - 'A'.val)).toNat = c.val.toNat + 32 := by
      rw [UInt32.toNat_add]
      omega
    simp only [Char.toNat]
    omega
  next => exact Or.inl rfl

theorem isBlank_toLower (c : Char) : isBlank c.toLower = isBlank c := by
  rcases toLower_cases c with same | ⟨low, _⟩
  · rw [same]
  · cases blank : isBlank c with
    | true =>
      have known : c = ' ' ∨ c = '\t' ∨ c = '\r' ∨ c = '\n' := by
        simpa only [isBlank, Bool.or_eq_true, decide_eq_true_eq, or_assoc] using blank
      rcases known with rfl | rfl | rfl | rfl
      all_goals rfl
    | false =>
      -- a small letter is no blank
      have apart : ∀ b : Char, b.toNat < 97 → c.toLower ≠ b := by
        rintro b below rfl
        omega
      simp [isBlank, apart]

/-- No part of a split holds a separator. -/
theorem notMem_of_mem_splitOnP {α : Type} {p : α → Bool} {items part : List α}
    (member : part ∈ items.splitOnP p) : ∀ a ∈ part, p a = false := by
  induction items generalizing part with
  | nil =>
    rw [List.splitOnP_nil, List.mem_singleton] at member
    rw [member]
    simp
  | cons first rest ih =>
    rw [List.splitOnP_cons_eq_if_modifyHead] at member
    split at member
    · rcases List.mem_cons.mp member with rfl | later
      · simp
      · exact ih later
    next kept =>
      cases parts : rest.splitOnP p with
      | nil => exact absurd parts (List.splitOnP_ne_nil p rest)
      | cons head tail =>
        rw [parts] at member ih
        rcases List.mem_cons.mp member with rfl | later
        · intro a inside
          rcases List.mem_cons.mp inside with rfl | inside
          · simpa using kept
          · exact ih (List.mem_cons_self ..) a inside
        · exact ih (List.mem_cons_of_mem _ later)

/-- What is read is one name. -/
theorem oneName_of_read {text word : String} (read : word ∈ readWords text) : OneName word := by
  obtain ⟨part, inside, rfl⟩ := List.mem_map.mp read
  obtain ⟨member, some_⟩ := List.mem_filter.mp inside
  constructor
  · intro empty
    have letters := congrArg String.toList empty
    simp only [strlow, String.toList_ofList] at letters
    simp only [decide_eq_true_eq] at some_
    exact some_ (List.map_eq_nil_iff.mp letters)
  · intro c inside
    simp only [strlow, String.toList_ofList] at inside
    obtain ⟨d, belongs, rfl⟩ := List.mem_map.mp inside
    rw [isBlank_toLower]
    exact notMem_of_mem_splitOnP member d belongs

/-- A text is one name whatever its case. -/
theorem oneName_strlow {name : String} : OneName (strlow name) ↔ OneName name := by
  have letters : (strlow name).toList = name.toList.map Char.toLower := String.toList_ofList
  have empty : strlow name = "" ↔ name = "" := by
    rw [← String.toList_eq_nil_iff, ← String.toList_eq_nil_iff, letters, List.map_eq_nil_iff]
  rw [OneName, OneName, ne_eq, ne_eq, empty, letters, List.forall_mem_map]
  simp only [isBlank_toLower]

/-- A letter, digit or sign of a domain name is no capital. -/
private theorem toLower_nameChar {c : Char} (name : nameChar c = true) : c.toLower = c := by
  have small : ¬(c.val ≥ 'A'.val ∧ c.val ≤ 'Z'.val) := by
    rintro ⟨low, high⟩
    have low : 65 ≤ c.val.toNat := low
    have high : c.val.toNat ≤ 90 := high
    simp only [nameChar, isLabelEnd, Char.isDigit, Bool.or_eq_true, Bool.and_eq_true,
      decide_eq_true_eq] at name
    rcases name with (((⟨above, _⟩ | ⟨_, below⟩) | rfl) | rfl) | rfl
    · have above : 97 ≤ c.val.toNat := above
      omega
    · have below : c.val.toNat ≤ 57 := below
      omega
    all_goals exact absurd low (by decide)
  rw [Char.toLower, dif_neg small]

/-- A name that passes the domain validator is one name in lower case. -/
theorem oneName_of_domainMatches {name : String} (found : domainMatches name = true) :
    OneName name ∧ strlow name = name := by
  obtain ⟨spelled, some_⟩ := nameChar_of_domainMatches found
  refine ⟨⟨fun empty => some_ (by rw [empty]; rfl), fun c member => ?_⟩, ?_⟩
  · have apart : ∀ d : Char, nameChar d = false → c ≠ d := by
      rintro d other rfl
      rw [spelled c member] at other
      cases other
    simp [isBlank, apart ' ' (by decide), apart '\t' (by decide), apart '\r' (by decide),
      apart '\n' (by decide)]
  · have letters : name.toList.map Char.toLower = name.toList :=
      (List.map_congr_left fun c member => toLower_nameChar (spelled c member)).trans (List.map_id _)
    rw [strlow, letters, String.ofList_toList]

/-! ### What the files of a state say -/

/-- The names of a list, as a block that has them is read. -/
theorem readNames_of_serverNames {server : List Lib.Node} {names : List String}
    (holds : allDirectives "server_name" server = [serverArguments names]) :
    readNames server = names.flatMap readWords := by
  rw [readNames, holds, List.flatten_singleton, serverArguments]
  split
  next empty =>
    rw [empty]
    decide +kernel
  next => rfl

@[simp] theorem serverName_serverNames (names : List String) :
    directives "server_name" (serverNames names) = [serverArguments names] := by
  simp [serverNames]

@[simp] theorem serverName_bouncerHead (cfg : Deployment) (listen : List Lib.Node)
    (names : List String) (key : String) (crowdsec : Bool) :
    allDirectives "server_name" (bouncerHead cfg listen names key crowdsec) =
      allDirectives "server_name" listen ++ [serverArguments names] := by
  simp [bouncerHead]

/-- A host answers for its names, where it has a certificate. -/
def AnswersFor (tls : Bool) (names : List String) (nodes : List Lib.Node) : Prop :=
  ∀ server ∈ tlsServers nodes, tls = true ∧ readNames server = names.flatMap readWords

theorem answersFor_proxyHost (cfg : Deployment) (h : ProxyHostSpec) (m : Option MaintenanceSpec) :
    AnswersFor h.certificate.isSome h.domainNames (proxyHostConf cfg h m) := by
  intro server member
  rw [tlsServers, serverBlocks_proxyHost] at member
  cases own : h.certificate with
  | none =>
    rw [own] at member
    simp [proxyOnlyServer] at member
  | some c =>
    rw [own] at member
    obtain ⟨inside, listens⟩ := List.mem_filter.mp member
    simp only [List.map_cons, List.map_nil, List.mem_cons, List.not_mem_nil, or_false] at inside
    refine ⟨rfl, ?_⟩
    rcases inside with rfl | rfl
    · cases forced : h.sslForced <;> simp [proxyPlainServer, forced] at listens
    · apply readNames_of_serverNames
      simp [proxyTlsHead, proxyTlsTail, allDirectives_when]

theorem answersFor_redirectionHost (cfg : Deployment) (h : RedirectionHostSpec) :
    AnswersFor h.certificate.isSome h.domainNames (redirectionHostConf cfg h) := by
  intro server member
  unfold tlsServers redirectionHostConf at member
  cases own : h.certificate with
  | none => simp [own, managedHeader, redirectLocation] at member
  | some c =>
    obtain ⟨inside, listens⟩ := List.mem_filter.mp member
    simp only [own, managedHeader, List.cons_append, List.nil_append, blocks_comment, blocks_block,
      if_true, blocks_nil, List.map_cons, List.map_nil, List.mem_cons, List.not_mem_nil,
      or_false] at inside
    refine ⟨rfl, ?_⟩
    rcases inside with rfl | rfl
    · cases forced : h.sslForced <;> simp [forced, redirectLocation] at listens
    · apply readNames_of_serverNames
      simp [listenTls, redirectLocation, allDirectives_when]

theorem answersFor_deadHost (cfg : Deployment) (h : DeadHostSpec) :
    AnswersFor h.certificate.isSome h.domainNames (deadHostConf cfg h) := by
  intro server member
  unfold tlsServers deadHostConf at member
  cases own : h.certificate with
  | none => simp [own, managedHeader, deadLocation] at member
  | some c =>
    obtain ⟨inside, listens⟩ := List.mem_filter.mp member
    simp only [own, managedHeader, List.cons_append, List.nil_append, blocks_comment, blocks_block,
      if_true, blocks_nil, List.map_cons, List.map_nil, List.mem_cons, List.not_mem_nil,
      or_false] at inside
    refine ⟨rfl, ?_⟩
    rcases inside with rfl | rfl
    · cases forced : h.sslForced <;> simp [forced, deadLocation] at listens
    · apply readNames_of_serverNames
      simp [listenTls, deadLocation, allDirectives_when]

/-- The one block of a default-TLS file. -/
def defaultTlsServer (cfg : Deployment) (t : DefaultTlsSpec) : List Lib.Node :=
  defaultTlsHead cfg t.serverNames ++ certMaterial t.certificate ++
    certificateDirectives "\n    " t.certificate ++ defaultTlsTail cfg

theorem serverBlocks_defaultTls (cfg : Deployment) (t : DefaultTlsSpec) :
    Lib.Node.blocks "server" (defaultTlsConf cfg t) = [([], defaultTlsServer cfg t)] := by
  simp [defaultTlsConf, managedHeader, defaultTlsServer]

theorem tlsServers_defaultTls (cfg : Deployment) (t : DefaultTlsSpec) :
    tlsServers (defaultTlsConf cfg t) = [defaultTlsServer cfg t] := by
  have listens : allDirectives "listen" (defaultTlsServer cfg t) = [["443", "ssl"]] := by
    simp [defaultTlsServer, defaultTlsHead, defaultTlsTail]
  simp [tlsServers, serverBlocks_defaultTls, listens]

theorem readNames_defaultTls (cfg : Deployment) (t : DefaultTlsSpec) :
    readNames (defaultTlsServer cfg t) = t.serverNames.flatMap readWords := by
  apply readNames_of_serverNames
  simp [defaultTlsServer, defaultTlsHead, defaultTlsTail]

theorem sslCertificate_defaultTlsServer (cfg : Deployment) (t : DefaultTlsSpec) :
    allDirectives "ssl_certificate" (defaultTlsServer cfg t) = [[t.certificate.fullchainPath]] := by
  have whole := sslCertificate_defaultTls cfg t
  rw [serverDirectives, serverBlocks_defaultTls] at whole
  simpa [certificatePaths] using whole

/-- Where one item has a match, that is all there is to find. -/
private theorem filter_flatMap_eq {α β : Type} {items : List α} {f : α → List β} {p : β → Bool}
    {a : α} (nodup : items.Nodup) (member : a ∈ items)
    (others : ∀ b ∈ items, b ≠ a → (f b).filter p = []) :
    (items.flatMap f).filter p = (f a).filter p := by
  induction items with
  | nil => cases member
  | cons first rest ih =>
    rw [List.nodup_cons] at nodup
    rw [List.flatMap_cons, List.filter_append]
    rcases List.mem_cons.mp member with rfl | later
    · have none_ : (rest.flatMap f).filter p = [] := by
        rw [List.filter_flatMap, List.flatMap_eq_nil_iff]
        intro b inside
        exact others b (List.mem_cons_of_mem _ inside) fun same => nodup.1 (same ▸ inside)
      rw [none_, List.append_nil]
    · have other : first ≠ a := fun same => nodup.1 (same ▸ later)
      rw [others first (List.mem_cons_self ..) other, List.nil_append]
      exact ih nodup.2 later fun b inside => others b (List.mem_cons_of_mem _ inside)

section Directory

variable {cfg : Deployment} {state : DesiredState}

/-- A block on port 443 is a host's, and answers for claimed names, or it is a default-TLS
block. -/
theorem tlsServer_cases {file : String × FileBody} (member : file ∈ configPairs cfg state)
    {server : List Lib.Node} (inside : server ∈ tlsServers file.2.tree) :
    (∀ word ∈ readNames server, ∃ n ∈ claimedTlsNames state, word ∈ readWords n) ∨
    ∃ t ∈ state.defaultTls, file = (defaultTlsFilename t.certificate.id,
      .conf (defaultTlsConf cfg t)) ∧ server = defaultTlsServer cfg t := by
  rcases mem_configPairs.mp member with ⟨u, _, rfl⟩ | ⟨h, host, member⟩ | ⟨r, host, rfl⟩ |
    ⟨d, host, rfl⟩ | ⟨t, block, rfl⟩
  · simp [renderUpstream, upstreamConf, FileBody.tree, tlsServers, managedHeader] at inside
  · rcases mem_renderProxyHost.mp member with rfl | ⟨a, _, _, rfl⟩
    · obtain ⟨tls, names⟩ := answersFor_proxyHost cfg h state.maintenance server inside
      refine Or.inl fun word read => ?_
      rw [names] at read
      obtain ⟨n, own, read⟩ := List.mem_flatMap.mp read
      refine ⟨n, ?_, read⟩
      simp only [claimedTlsNames, List.mem_append, List.mem_flatMap]
      exact Or.inl (Or.inl ⟨h, host, by rwa [if_pos tls]⟩)
    · simp [FileBody.tree, tlsServers] at inside
  · obtain ⟨tls, names⟩ := answersFor_redirectionHost cfg r server inside
    refine Or.inl fun word read => ?_
    rw [names] at read
    obtain ⟨n, own, read⟩ := List.mem_flatMap.mp read
    refine ⟨n, ?_, read⟩
    simp only [claimedTlsNames, List.mem_append, List.mem_flatMap]
    exact Or.inl (Or.inr ⟨r, host, by rwa [if_pos tls]⟩)
  · obtain ⟨tls, names⟩ := answersFor_deadHost cfg d server inside
    refine Or.inl fun word read => ?_
    rw [names] at read
    obtain ⟨n, own, read⟩ := List.mem_flatMap.mp read
    refine ⟨n, ?_, read⟩
    simp only [claimedTlsNames, List.mem_append, List.mem_flatMap]
    exact Or.inr ⟨d, host, by rwa [if_pos tls]⟩
  · refine Or.inr ⟨t, block, rfl, ?_⟩
    rw [FileBody.tree, tlsServers_defaultTls] at inside
    exact List.mem_singleton.mp inside

variable (distinct : DistinctSpecs state)

include distinct

/-- The block of the plan is among those of the directory. -/
theorem defaultTlsServer_mem {t : DefaultTlsSpec} (block : t ∈ state.defaultTls) :
    (defaultTlsFilename t.certificate.id, .conf (defaultTlsConf cfg t)) ∈
      (configBodies cfg state).toList := by
  rw [configBodies, mem_toList_ofPairs (functional_configPairs cfg distinct)]
  exact mem_configPairs.mpr (Or.inr (Or.inr (Or.inr (Or.inr ⟨t, block, rfl⟩))))

theorem mem_answering {name : String} {t : DefaultTlsSpec} (block : t ∈ state.defaultTls)
    (read : name ∈ t.serverNames.flatMap readWords) :
    defaultTlsServer cfg t ∈ (configBodies cfg state).answering name := by
  refine List.mem_filter.mpr ⟨List.mem_flatMap.mpr ⟨_, defaultTlsServer_mem distinct block, ?_⟩, ?_⟩
  · rw [FileBody.tree, tlsServers_defaultTls]
    exact List.mem_singleton_self _
  · rw [readNames_defaultTls]
    exact decide_eq_true read

/-- A name that no host reads and one block of the plan does is answered for once. -/
theorem answering_eq_singleton {name : String} {t : DefaultTlsSpec} (block : t ∈ state.defaultTls)
    (read : name ∈ t.serverNames.flatMap readWords)
    (unclaimed : ∀ n ∈ claimedTlsNames state, name ∉ readWords n)
    (only : ∀ u ∈ state.defaultTls, name ∈ u.serverNames.flatMap readWords → u = t) :
    (configBodies cfg state).answering name = [defaultTlsServer cfg t] := by
  rw [Bodies.answering, filter_flatMap_eq (Dict.nodup_toList _) (defaultTlsServer_mem distinct block)]
  · have reads : name ∈ readNames (defaultTlsServer cfg t) := by
      rwa [readNames_defaultTls]
    rw [FileBody.tree, tlsServers_defaultTls, List.filter_singleton, decide_eq_true reads]
    rfl
  · intro file listed other
    rw [List.filter_eq_nil_iff]
    intro server inside answers
    simp only [decide_eq_true_eq] at answers
    rw [configBodies, mem_toList_ofPairs (functional_configPairs cfg distinct)] at listed
    rcases tlsServer_cases listed inside with claimed | ⟨u, planned, rfl, rfl⟩
    · obtain ⟨n, own, spelled⟩ := claimed name answers
      exact unclaimed n own spelled
    · rw [readNames_defaultTls] at answers
      rw [only u planned answers] at other
      exact other rfl

end Directory

/-! ### The partition -/

/-- The certificate holds the name in some spelling. -/
def Certificate.Holds (c : Certificate) (name : String) : Prop :=
  ∃ n ∈ c.domainNames, strlow n = strlow name

/-- The certificate with the lowest id that holds the name. -/
structure LowestHolder (certificates : List Certificate) (name : String) (c : Certificate) :
    Prop where
  stored : c ∈ certificates
  holds : c.Holds name
  lowest : ∀ d ∈ certificates, d.Holds name → c.id ≤ d.id

/-- Names are divided among the blocks on port 443: an unclaimed name that some active
certificate holds is in one block, which uses the lowest of its holders, and the
default-TLS blocks have no claimed name and none that nothing holds. -/
structure TlsPartition (cfg : Deployment) (db : Database) (state : DesiredState) : Prop where
  once : ∀ c ∈ loadCertificates db, ∀ n ∈ c.domainNames,
    strlow n ∉ (claimedTlsNames state).map strlow →
      ∃ server lowest, (configBodies cfg state).answering (strlow n) = [server] ∧
        LowestHolder (loadCertificates db) n lowest ∧
        allDirectives "ssl_certificate" server = [[(certificateSpec cfg lowest).fullchainPath]]
  unclaimed : ∀ n ∈ claimedTlsNames state, ∀ i body,
    (defaultTlsFilename i, body) ∈ (configBodies cfg state).toList →
      ∀ server ∈ tlsServers body.tree, strlow n ∉ readNames server
  held : ∀ i body, (defaultTlsFilename i, body) ∈ (configBodies cfg state).toList →
    ∀ server ∈ tlsServers body.tree, ∀ word ∈ readNames server,
      ∃ c ∈ loadCertificates db, ∃ n ∈ c.domainNames, strlow n = word

/-- The same of the state that the loader returns. -/
def TlsNamesPartition (cfg : Deployment) (db : Database) : Prop :=
  ∃ state, loadDesiredState cfg db = .ok state ∧ TlsPartition cfg db state

/-- The names of every host have passed the validator. -/
structure Database.NamesAccepted (lower : String → String) (db : Database) : Prop where
  proxyHosts : ∀ h ∈ db.proxyHosts, ∃ raw, normaliseDomains lower [] raw = .ok h.domainNames
  redirectionHosts : ∀ h ∈ db.redirectionHosts,
    ∃ raw, normaliseDomains lower [] raw = .ok h.domainNames
  deadHosts : ∀ h ∈ db.deadHosts, ∃ raw, normaliseDomains lower [] raw = .ok h.domainNames

/-- Certificates whose texts are what nginx reads: each name is one word, a name that is
claimed is claimed as it is spelled, and the lowest holder of an unclaimed name has every
spelling of it. -/
structure Database.SpelledAlike (cfg : Deployment) (db : Database) : Prop where
  one : ∀ c ∈ loadCertificates db, ∀ n ∈ c.domainNames, OneName n
  claimed : ∀ c ∈ loadCertificates db, ∀ n ∈ c.domainNames,
    strlow n ∈ claimedNames cfg db → n ∈ claimedNames cfg db
  spelled : ∀ c ∈ loadCertificates db, ∀ n ∈ c.domainNames, strlow n ∉ claimedNames cfg db →
    ∀ d, LowestHolder (loadCertificates db) n d → n ∈ d.domainNames

/-! ### Holders and owners -/

/-- Which certificates list the name, by id. -/
def certificateHolders (certificates : List Certificate) (name : String) : Set Id :=
  {i | ∃ c ∈ certificates, c.id = i ∧ name ∈ c.domainNames}

section Holders

variable {certificates : List Certificate} {claimed : List String} {name : String}

theorem finite_certificateHolders : (certificateHolders certificates name).Finite := by
  refine (List.finite_toSet (certificates.map (·.id))).subset ?_
  rintro i ⟨c, member, rfl, _⟩
  exact List.mem_map_of_mem member

theorem foldedHolders_iff {i : Id} :
    i ∈ foldedHolders (certificateHolders certificates) strlow (strlow name) ↔
      ∃ c ∈ certificates, c.id = i ∧ c.Holds name := by
  constructor
  · rintro ⟨n, reads, c, member, own, lists⟩
    exact ⟨c, member, own, n, lists, reads⟩
  · rintro ⟨c, member, own, n, lists, reads⟩
    exact ⟨n, reads, c, member, own, lists⟩

theorem finite_foldedHolders :
    (foldedHolders (certificateHolders certificates) strlow (strlow name)).Finite := by
  refine (List.finite_toSet (certificates.map (·.id))).subset ?_
  intro i holds
  obtain ⟨c, member, rfl, _⟩ := foldedHolders_iff.mp holds
  exact List.mem_map_of_mem member

theorem LowestHolder.isLeast {c : Certificate} (lowest : LowestHolder certificates name c) :
    IsLeast (foldedHolders (certificateHolders certificates) strlow (strlow name)) c.id := by
  refine ⟨foldedHolders_iff.mpr ⟨c, lowest.stored, rfl, lowest.holds⟩, fun i other => ?_⟩
  obtain ⟨d, member, rfl, holds⟩ := foldedHolders_iff.mp other
  exact lowest.lowest d member holds

variable (ids : (certificates.map (·.id)).Nodup)

include ids

theorem mem_certificateHolders {c : Certificate} (member : c ∈ certificates) :
    c.id ∈ certificateHolders certificates name ↔ name ∈ c.domainNames := by
  constructor
  · rintro ⟨d, stored, same, lists⟩
    rwa [← List.inj_on_of_nodup_map ids stored member same]
  · exact fun lists => ⟨c, member, rfl, lists⟩

/-- The plan gives a name to its least holder. -/
theorem serves_iff_isLeast {c : Certificate} (member : c ∈ certificates) :
    serves claimed certificates c name = true ↔
      name ∉ claimed ∧ IsLeast (certificateHolders certificates name) c.id := by
  rw [serves_iff]
  constructor
  · rintro ⟨lists, free, least⟩
    refine ⟨free, (mem_certificateHolders ids member).mpr lists, ?_⟩
    rintro i ⟨d, stored, rfl, also⟩
    exact least d stored also
  · rintro ⟨free, holds, least⟩
    refine ⟨(mem_certificateHolders ids member).mp holds, free, fun d stored also => ?_⟩
    exact least ((mem_certificateHolders ids stored).mpr also)

omit ids in
/-- Somebody is the lowest holder of a name that is held. -/
theorem exists_lowestHolder {c : Certificate} (member : c ∈ certificates)
    (lists : name ∈ c.domainNames) : ∃ d, LowestHolder certificates name d := by
  have some_ : (foldedHolders (certificateHolders certificates) strlow (strlow name)).Nonempty :=
    ⟨c.id, foldedHolders_iff.mpr ⟨c, member, rfl, name, lists, rfl⟩⟩
  obtain ⟨i, holds, least⟩ := exists_isLeast finite_foldedHolders some_
  obtain ⟨d, stored, rfl, also⟩ := foldedHolders_iff.mp holds
  refine ⟨d, stored, also, fun e inside other => ?_⟩
  exact least (foldedHolders_iff.mpr ⟨e, inside, rfl, other⟩)

end Holders

/-! ### The two directions -/

section Partition

variable {cfg : Deployment} {db : Database} {lower : String → String}

/-- The block of a certificate in the plan. -/
def plannedBlock (cfg : Deployment) (db : Database) (c : Certificate) : DefaultTlsSpec where
  certificate := certificateSpec cfg c
  serverNames := servedNames (claimedNames cfg db) (loadCertificates db) c

theorem mem_plan {t : DefaultTlsSpec} : t ∈ (desiredState cfg db).defaultTls ↔
    ∃ c ∈ loadCertificates db, (plannedBlock cfg db c).serverNames ≠ [] ∧
      t = plannedBlock cfg db c := by
  simp only [desiredState, tlsPlan, List.mem_map, List.mem_filter, decide_eq_true_eq]
  constructor
  · rintro ⟨c, ⟨member, serving⟩, rfl⟩
    exact ⟨c, member, serving, rfl⟩
  · rintro ⟨c, member, serving, rfl⟩
    exact ⟨c, ⟨member, serving⟩, rfl⟩

/-- A claimed name belongs to a host, so it has passed the validator. -/
theorem domainMatches_of_claimed (accepted : db.NamesAccepted lower) {name : String}
    (claimed : name ∈ claimedNames cfg db) : domainMatches name = true := by
  simp only [claimedNames, claimedTlsNames, desiredHosts, List.mem_append, List.mem_flatMap]
    at claimed
  rcases claimed with (⟨spec, host, own⟩ | ⟨spec, host, own⟩) | ⟨spec, host, own⟩
  · obtain ⟨h, included, rfl⟩ := List.mem_map.mp host
    obtain ⟨raw, valid⟩ := accepted.proxyHosts h (mem_includedHosts.mp included).1
    split at own
    · exact domainMatches_of_normalised valid name own
    · cases own
  · obtain ⟨r, included, rfl⟩ := List.mem_map.mp host
    rw [mem_sortedBy] at included
    obtain ⟨raw, valid⟩ := accepted.redirectionHosts r (List.mem_filter.mp included).1
    split at own
    · exact domainMatches_of_normalised valid name own
    · cases own
  · obtain ⟨d, included, rfl⟩ := List.mem_map.mp host
    rw [mem_sortedBy] at included
    obtain ⟨raw, valid⟩ := accepted.deadHosts d (List.mem_filter.mp included).1
    split at own
    · exact domainMatches_of_normalised valid name own
    · cases own

theorem nodup_loadCertificates (constraints : db.Constraints) :
    ((loadCertificates db).map (·.id)).Nodup := by
  rw [List.Nodup, List.pairwise_map]
  exact (loadCertificates_ordered constraints.certificateIds).imp fun below => ne_of_lt below

variable (constraints : db.Constraints) (accepted : db.NamesAccepted lower)

include accepted

/-- Claimed names are read as they are written. -/
theorem map_strlow_claimed : (claimedNames cfg db).map strlow = claimedNames cfg db :=
  (List.map_congr_left fun _ claimed =>
    (oneName_of_domainMatches (domainMatches_of_claimed accepted claimed)).2).trans (List.map_id _)

/-- A spelling of an unclaimed name is not claimed either. -/
theorem unclaimed_spelling {name other : String} (free : strlow name ∉ claimedNames cfg db)
    (same : strlow other = strlow name) : other ∉ claimedNames cfg db := by
  intro claimed
  have own := (oneName_of_domainMatches (domainMatches_of_claimed accepted claimed)).2
  rw [← same, own] at free
  exact free claimed

include constraints

/-- Who answers for an unclaimed name in the plan. -/
theorem read_of_answering {name : String} (free : strlow name ∉ claimedNames cfg db)
    (one : ∀ c ∈ loadCertificates db, ∀ n ∈ c.domainNames, OneName n) {c : Certificate}
    (member : c ∈ loadCertificates db) :
    strlow name ∈ (plannedBlock cfg db c).serverNames.flatMap readWords ↔
      c.id ∈ answering (certificateHolders (loadCertificates db)) strlow (strlow name) := by
  have ids := nodup_loadCertificates constraints
  simp only [plannedBlock, List.mem_flatMap, mem_servedNames]
  constructor
  · rintro ⟨n, owns, read⟩
    have holds := (serves_iff.mp owns).1
    rw [readWords_of_oneName (one c member n holds), List.mem_singleton] at read
    exact ⟨n, read.symm, ((serves_iff_isLeast ids member).mp owns).2⟩
  · rintro ⟨n, reads, least⟩
    have holds := (mem_certificateHolders ids member).mp least.1
    refine ⟨n, (serves_iff_isLeast ids member).mpr
      ⟨unclaimed_spelling accepted free reads, least⟩, ?_⟩
    rw [readWords_of_oneName (one c member n holds), reads]
    exact List.mem_singleton_self _

omit accepted in
/-- The lowest holder answers alone where it has every spelling. -/
theorem answering_iff_spelled {name : String} {d : Certificate}
    (lowest : LowestHolder (loadCertificates db) name d) :
    answering (certificateHolders (loadCertificates db)) strlow (strlow name) = {d.id} ↔
      ∀ c ∈ loadCertificates db, ∀ n ∈ c.domainNames, strlow n = strlow name →
        n ∈ d.domainNames := by
  have ids := nodup_loadCertificates constraints
  rw [answering_eq_singleton_iff (fun _ => finite_certificateHolders) lowest.isLeast]
  constructor
  · intro spells c member n holds reads
    have some_ : (certificateHolders (loadCertificates db) n).Nonempty := ⟨c.id, c, member, rfl, holds⟩
    exact (mem_certificateHolders ids lowest.stored).mp (spells n reads some_)
  · rintro spells n reads ⟨_, c, member, rfl, holds⟩
    exact (mem_certificateHolders ids lowest.stored).mpr (spells c member n holds reads)

theorem partition_of_spelledAlike (alike : db.SpelledAlike cfg) :
    TlsPartition cfg db (desiredState cfg db) := by
  have ids := nodup_loadCertificates constraints
  have distinct := distinctSpecs_desiredState cfg constraints
  have functional := functional_configPairs cfg distinct
  -- a default-TLS block reads what its certificate serves
  have reads : ∀ i body, (defaultTlsFilename i, body) ∈ (configBodies cfg (desiredState cfg db)).toList →
      ∀ server ∈ tlsServers body.tree, ∀ word ∈ readNames server, ∃ c ∈ loadCertificates db,
        ∃ n, serves (claimedNames cfg db) (loadCertificates db) c n = true ∧ strlow n = word := by
    intro i body listed server inside word read
    rw [configBodies, mem_toList_ofPairs functional] at listed
    obtain ⟨t, planned, _, rfl⟩ := mem_defaultTls_of_configPairs listed
    obtain ⟨c, member, _, rfl⟩ := mem_plan.mp planned
    rw [FileBody.tree, tlsServers_defaultTls, List.mem_singleton] at inside
    rw [inside, readNames_defaultTls] at read
    obtain ⟨n, owns, read⟩ := List.mem_flatMap.mp read
    have served := mem_servedNames.mp owns
    rw [readWords_of_oneName (alike.one c member n (serves_iff.mp served).1),
      List.mem_singleton] at read
    exact ⟨c, member, n, served, read.symm⟩
  constructor
  · intro c member n holds free
    have free : strlow n ∉ claimedNames cfg db := by
      rwa [← map_strlow_claimed accepted]
    obtain ⟨d, lowest⟩ := exists_lowestHolder member holds
    have alone : answering (certificateHolders (loadCertificates db)) strlow (strlow n) = {d.id} := by
      rw [answering_iff_spelled constraints lowest]
      intro e stored m also same
      -- the two spellings have the same holders, so the same lowest one
      have holders : ∀ f : Certificate, f.Holds m ↔ f.Holds n := by
        intro f
        rw [Certificate.Holds, Certificate.Holds, same]
      refine alike.spelled e stored m also (by rwa [same]) d ?_
      exact ⟨lowest.stored, (holders d).mpr lowest.holds, fun f inside other =>
        lowest.lowest f inside ((holders f).mp other)⟩
    have answers := (read_of_answering constraints accepted free alike.one lowest.stored).mpr
      (alone ▸ rfl)
    have planned : plannedBlock cfg db d ∈ (desiredState cfg db).defaultTls := by
      refine mem_plan.mpr ⟨d, lowest.stored, fun empty => ?_, rfl⟩
      rw [empty] at answers
      cases answers
    refine ⟨_, d, answering_eq_singleton distinct planned answers ?_ ?_, lowest,
      sslCertificate_defaultTlsServer cfg _⟩
    · intro m claimed read
      have valid := oneName_of_domainMatches (domainMatches_of_claimed accepted claimed)
      rw [readWords_of_oneName valid.1, valid.2, List.mem_singleton] at read
      exact free (read ▸ claimed)
    · intro u other read
      obtain ⟨e, stored, _, rfl⟩ := mem_plan.mp other
      have also := (read_of_answering constraints accepted free alike.one stored).mp read
      rw [alone, Set.mem_singleton_iff] at also
      rw [List.inj_on_of_nodup_map ids stored lowest.stored also]
  · intro n claimed i body listed server inside read
    obtain ⟨c, member, m, served, same⟩ := reads i body listed server inside _ read
    obtain ⟨holds, free, _⟩ := serves_iff.mp served
    have own := (oneName_of_domainMatches (domainMatches_of_claimed accepted claimed)).2
    rw [own] at same
    exact free (alike.claimed c member m holds (same ▸ claimed))
  · intro i body listed server inside word read
    obtain ⟨c, member, n, served, same⟩ := reads i body listed server inside word read
    exact ⟨c, member, n, (serves_iff.mp served).1, same⟩

omit accepted in
/-- A certificate that serves a name has a block in the files. -/
theorem defaultTls_of_least {name : String} (free : name ∉ claimedNames cfg db) {i : Id}
    (least : IsLeast (certificateHolders (loadCertificates db) name) i) :
    ∃ c ∈ loadCertificates db, c.id = i ∧ name ∈ (plannedBlock cfg db c).serverNames ∧
      plannedBlock cfg db c ∈ (desiredState cfg db).defaultTls := by
  obtain ⟨c, member, rfl, holds⟩ := least.1
  have served := (serves_iff_isLeast (nodup_loadCertificates constraints) member).mpr ⟨free, least⟩
  have listed : name ∈ (plannedBlock cfg db c).serverNames := mem_servedNames.mpr served
  exact ⟨c, member, rfl, listed, mem_plan.mpr ⟨c, member, List.ne_nil_of_mem listed, rfl⟩⟩

theorem spelledAlike_of_partition (partition : TlsPartition cfg db (desiredState cfg db)) :
    db.SpelledAlike cfg := by
  have ids := nodup_loadCertificates constraints
  have distinct := distinctSpecs_desiredState cfg constraints
  have once : ∀ c ∈ loadCertificates db, ∀ n ∈ c.domainNames, strlow n ∉ claimedNames cfg db →
      ∃ server lowest, (configBodies cfg (desiredState cfg db)).answering (strlow n) = [server] ∧
        LowestHolder (loadCertificates db) n lowest ∧
        allDirectives "ssl_certificate" server = [[(certificateSpec cfg lowest).fullchainPath]] := by
    intro c member n holds free
    refine partition.once c member n holds ?_
    have same : (claimedTlsNames (desiredState cfg db)).map strlow = claimedNames cfg db :=
      map_strlow_claimed accepted
    rwa [same]
  have one : ∀ c ∈ loadCertificates db, ∀ n ∈ c.domainNames, OneName n := by
    intro c member n holds
    rw [← oneName_strlow]
    by_cases claimed : strlow n ∈ claimedNames cfg db
    · exact (oneName_of_domainMatches (domainMatches_of_claimed accepted claimed)).1
    · obtain ⟨server, _, alone, _⟩ := once c member n holds claimed
      have found : server ∈ (configBodies cfg (desiredState cfg db)).answering (strlow n) := by
        rw [alone]
        exact List.mem_singleton_self _
      have read := of_decide_eq_true (List.mem_filter.mp found).2
      obtain ⟨text, _, read⟩ := List.mem_flatMap.mp read
      exact oneName_of_read read
  refine ⟨one, ?_, ?_⟩
  · intro c member n holds claimed
    by_contra free
    obtain ⟨i, least⟩ := exists_isLeast finite_certificateHolders
      (⟨c.id, c, member, rfl, holds⟩ : (certificateHolders (loadCertificates db) n).Nonempty)
    obtain ⟨o, stored, _, listed, planned⟩ := defaultTls_of_least constraints free least
    have own := (oneName_of_domainMatches (domainMatches_of_claimed accepted claimed)).2
    refine partition.unclaimed (strlow n) claimed _ _ (defaultTlsServer_mem distinct planned)
      (defaultTlsServer cfg (plannedBlock cfg db o)) ?_ ?_
    · rw [FileBody.tree, tlsServers_defaultTls]
      exact List.mem_singleton_self _
    · rw [own, readNames_defaultTls]
      refine List.mem_flatMap.mpr ⟨n, listed, ?_⟩
      rw [readWords_of_oneName (one c member n holds)]
      exact List.mem_singleton_self _
  · intro c member n holds free d lowest
    obtain ⟨server, e, alone, lowest', path⟩ := once c member n holds free
    have same : e.id = d.id := le_antisymm (lowest'.lowest d lowest.stored lowest.holds)
      (lowest.lowest e lowest'.stored lowest'.holds)
    refine (answering_iff_spelled constraints lowest).mp ?_ c member n holds rfl
    rw [Set.eq_singleton_iff_nonempty_unique_mem]
    constructor
    · obtain ⟨i, least⟩ := exists_isLeast finite_certificateHolders
        (⟨c.id, c, member, rfl, holds⟩ : (certificateHolders (loadCertificates db) n).Nonempty)
      exact ⟨i, n, rfl, least⟩
    · rintro i ⟨m, reads, least⟩
      obtain ⟨o, stored, rfl, _, planned⟩ :=
        defaultTls_of_least constraints (unclaimed_spelling accepted free reads) least
      -- its block is the one that was found, so it uses the same certificate
      have read := (read_of_answering constraints accepted free one stored).mpr ⟨m, reads, least⟩
      have found := @mem_answering cfg _ distinct _ _ planned read
      rw [alone, List.mem_singleton] at found
      rw [← found, sslCertificate_defaultTlsServer] at path
      have paths : (certificateSpec cfg o).fullchainPath = (certificateSpec cfg e).fullchainPath :=
        List.head_eq_of_cons_eq (List.head_eq_of_cons_eq path)
      exact (fileName_injective paths).trans same

end Partition

/-- The names on port 443 are divided as they should be exactly where the certificates'
texts are what nginx reads. -/
theorem tlsNames_partition (cfg : Deployment) {db : Database} {lower : String → String}
    (constraints : db.Constraints) (accepted : db.NamesAccepted lower) :
    TlsNamesPartition cfg db ↔ db.SpelledAlike cfg := by
  have loaded := loadDesiredState_ok cfg constraints
  constructor
  · rintro ⟨state, found, partition⟩
    rw [loaded] at found
    cases found
    exact spelledAlike_of_partition constraints accepted partition
  · intro alike
    exact ⟨_, loaded, partition_of_spelledAlike constraints accepted alike⟩

/-! ### Two databases -/

def activeCertificate (id : Id) (domainNames : List String) : Certificate where
  id
  name := "site"
  provider := .custom
  status := .active
  domainNames

/-- A certificate of two names, one of them claimed by a redirection host. -/
def claimingDatabase : Database where
  certificates := [activeCertificate 1 (extractDomainNames (some ["a.example", "b.example"])
    [some "a.example"])]
  redirectionHosts := [{ id := 1, domainNames := ["b.example"], forwardDomainName := "c.example",
                         certificateId := some 1 }]

theorem tlsNames_partition_claiming : TlsNamesPartition sampleDeployment claimingDatabase := by
  have constraints : claimingDatabase.Constraints := by decide +kernel
  have accepted : claimingDatabase.NamesAccepted id := by
    constructor
    · intro h member
      cases member
    · intro h member
      rw [List.mem_singleton.mp member]
      exact ⟨["b.example"], by decide +kernel⟩
    · intro h member
      cases member
  have certificates : loadCertificates claimingDatabase =
      [activeCertificate 1 ["a.example", "b.example"]] := by
    decide +kernel
  have names : ∀ n ∈ (activeCertificate 1 ["a.example", "b.example"]).domainNames,
      n = "a.example" ∨ n = "b.example" := by
    intro n holds
    simpa [activeCertificate] using holds
  rw [tlsNames_partition sampleDeployment constraints accepted]
  constructor
  · rw [certificates]
    intro c member n holds
    rw [List.mem_singleton.mp member] at holds
    rcases names n holds with rfl | rfl
    · exact oneName_of_all (by decide) (by decide)
    · exact oneName_of_all (by decide) (by decide)
  · rw [certificates]
    intro c member n holds claimed
    rw [List.mem_singleton.mp member] at holds
    rcases names n holds with rfl | rfl
    · exact absurd claimed (by decide +kernel)
    · decide +kernel
  · rw [certificates]
    intro c member n holds _ d lowest
    rw [List.mem_singleton.mp lowest.stored, ← List.mem_singleton.mp member]
    exact holds

/-- Two certificates that spell one name differently. -/
def spelledTwice : Database where
  certificates := [activeCertificate 1 (extractDomainNames (some ["example.com"]) []),
    activeCertificate 2 (extractDomainNames (some ["Example.com"]) [])]

/-- Each spelling gets a block of its own, and nginx reads one name twice. -/
theorem tlsNames_spelledTwice : spelledTwice.Constraints ∧ spelledTwice.NamesAccepted id ∧
    ¬TlsNamesPartition sampleDeployment spelledTwice := by
  have constraints : spelledTwice.Constraints := by decide +kernel
  have accepted : spelledTwice.NamesAccepted id :=
    ⟨fun _ member => (by cases member), fun _ member => (by cases member),
      fun _ member => (by cases member)⟩
  have certificates : loadCertificates spelledTwice =
      [activeCertificate 1 ["example.com"], activeCertificate 2 ["Example.com"]] := by
    decide +kernel
  refine ⟨constraints, accepted, fun ⟨state, found, partition⟩ => ?_⟩
  rw [loadDesiredState_ok _ constraints] at found
  cases found
  have alike := (spelledAlike_of_partition constraints accepted partition).spelled
  rw [certificates] at alike
  have lowest : LowestHolder [activeCertificate 1 ["example.com"],
      activeCertificate 2 ["Example.com"]] "Example.com" (activeCertificate 1 ["example.com"]) := by
    refine ⟨by simp, ⟨"example.com", List.mem_singleton_self _, by decide +kernel⟩, ?_⟩
    intro d member _
    simp only [List.mem_cons, List.not_mem_nil, or_false] at member
    rcases member with rfl | rfl
    · exact le_refl _
    · decide
  have holds := alike (activeCertificate 2 ["Example.com"]) (by simp) "Example.com"
    (List.mem_singleton_self _) (by decide +kernel) _ lowest
  revert holds
  decide

end MegooPM
