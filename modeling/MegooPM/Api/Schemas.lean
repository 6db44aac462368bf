import MegooPM.Nginx.TemplateTexts
import MegooPM.Nginx.RenderedFiles

/-!
# Schemas

The validators of `schemas/` whose values reach a rendered file: `proxy_host.py`,
`upstream.py`, `access_list.py`, `stream.py`, `redirection_host.py`, `dead_host.py`. A
validator returns the value that is stored, or its refusal.

An accepted object is one whose every value some request could have put there. What the
validators leave open stays open: a pool name, the name of an access list and a forward
host are any text of 1 to 255 characters.
-/
namespace MegooPM

open Lib Lib.Node

/-- A `ValueError` of a validator: its text, and the value it quotes at the end of it. -/
structure SchemaError where
  message : String
  quoted : Option String := none
  deriving DecidableEq, Repr

/-- What the validators use of the standard library: `str.lower`, and the normal forms of
`ipaddress.ip_address` and `ipaddress.ip_network(..., strict=False)`. The scope id of an
IPv6 address is any text and stays in the normal form, so all that is known of either is
how it begins. -/
structure SchemaLibrary where
  lower : String → String
  ipAddress : String → Option String
  ipNetwork : String → Option String
  /-- The scheme and the network location `urlsplit` finds; it may refuse the text. -/
  urlsplit : String → Option (String × String)

/-- A digit of an address, or the colon an IPv6 address may begin with. -/
def beginsAddress (c : Char) : Bool :=
  c.isDigit || ('a' ≤ c && c ≤ 'f') || ('A' ≤ c && c ≤ 'F') || c = ':'

def BeginsAddress (text : String) : Prop :=
  ∃ c rest, text.toList = c :: rest ∧ beginsAddress c = true

structure SchemaLibrary.Documented (library : SchemaLibrary) : Prop where
  address : ∀ text form, library.ipAddress text = some form → BeginsAddress form
  network : ∀ text form, library.ipNetwork text = some form →
    BeginsAddress text ∧ BeginsAddress form

def stripped (value : String) : String :=
  String.ofList (strip value.toList)

/-- `Field(min_length=1, max_length=255)`. -/
def shortText (value : String) : Except SchemaError String :=
  if value.length < 1 then .error ⟨"String should have at least 1 character", none⟩
  else if 255 < value.length then .error ⟨"String should have at most 255 characters", none⟩
  else .ok value

/-! ### Domain names -/

def isLabelEnd (c : Char) : Bool :=
  ('a' ≤ c && c ≤ 'z') || c.isDigit

/-- `[a-z0-9](?:[a-z0-9-]{0,61}[a-z0-9])?` -/
def isLabel (label : List Char) : Bool :=
  label.length ≤ 63 && label.all (fun c => isLabelEnd c || c = '-') &&
  label.head?.any isLabelEnd && label.getLast?.any isLabelEnd

/-- `_DOMAIN_RE` on a text without white space at its ends: labels between dots, behind an
optional wildcard. -/
def domainMatches (name : String) : Bool :=
  (match name.toList with
    | '*' :: '.' :: rest => rest
    | chars => chars).splitOn '.' |>.all isLabel

/-- `_normalise_domains`; `result` holds what the loop has collected. -/
def normaliseDomains (lower : String → String) (result : List String) :
    List String → Except SchemaError (List String)
  | [] => if result = [] then .error ⟨"at least one domain name is required", none⟩ else .ok result
  | raw :: rest =>
    let name := lower (stripped raw)
    if name = "" then .error ⟨"domain names must not be empty", none⟩
    else if !domainMatches name then .error ⟨"invalid domain name: ", some raw⟩
    else normaliseDomains lower (if name ∈ result then result else result ++ [name]) rest

/-! ### Locations -/

def locationForbidden : List Char := ['\x7b', '\x7d', ';', '"']

def validateLocationPath (value : String) : Except SchemaError String :=
  let path := stripped value
  if !startsWith path "/" then .error ⟨"location path must start with '/'", none⟩
  else if path = "/" then
    .error ⟨"'/' is the host's root route; use a sub-path such as /api/", none⟩
  else if path.toList.any (fun c => isSpace c || c ∈ locationForbidden) then
    .error ⟨"location path must not contain whitespace or any of \x7b \x7d ; \"", none⟩
  else if 255 < path.length then
    .error ⟨"location path must be at most 255 characters", none⟩
  else .ok path

/-- `_unique_location_paths`; `seen` holds the paths so far. -/
def uniqueLocationPaths (seen : List String) : List String → Except SchemaError Unit
  | [] => .ok ()
  | path :: rest =>
    if path ∈ seen then .error ⟨"duplicate location path: ", some path⟩
    else uniqueLocationPaths (seen ++ [path]) rest

/-! ### Backends, access lists, bypass lists -/

/-- `_strip_host` of a backend. -/
def stripHost (value : String) : Except SchemaError String :=
  let host := stripped value
  if host = "" ∨ host.toList.any isSpace then
    .error ⟨"host must be a non-empty value without whitespace", none⟩
  else .ok host

def validateAddress (library : SchemaLibrary) (value : String) : Except SchemaError String :=
  let text := stripped value
  if text = "" then .error ⟨"address must not be empty", none⟩
  else if library.lower text = "all" then .ok "all"
  else
    match if '/' ∈ text.toList then library.ipNetwork text else library.ipAddress text with
    | some form => .ok form
    | none => .error ⟨"invalid IP or CIDR: ", some value⟩

def validateUsername (value : String) : Except SchemaError String :=
  let name := stripped value
  if name = "" then .error ⟨"username must not be empty", none⟩
  else if ':' ∈ name.toList ∨ name.toList.any isSpace then
    .error ⟨"username must not contain ':' or whitespace", none⟩
  else .ok name

/-- One entry of `_validate_allow_list`. It is stored as it was entered, not normalised. -/
def validateAllow (library : SchemaLibrary) (entry : String) : Except SchemaError String :=
  match library.ipNetwork (stripped entry) with
  | some _ => .ok (stripped entry)
  | none => .error ⟨" is not an IP address or CIDR range", some entry⟩

/-! ### Pages -/

def maxHtmlBytes : Nat := 2 * 1024 * 1024

/-- `_validate_html`: the size, and nothing about the content. -/
def validateHtml (value : String) : Except SchemaError String :=
  if maxHtmlBytes < value.utf8ByteSize then
    .error ⟨"html is " ++ toString value.utf8ByteSize ++ " bytes; the maximum is " ++
      toString maxHtmlBytes ++ " (embedded images count toward this)", none⟩
  else .ok value

def redirectForbidden : List Char := ['"', '\'', '\\', ';', '$']

/-- `validate_redirect_url` of `instance_settings.py`. -/
def validateRedirectUrl (library : SchemaLibrary) (value : String) : Except SchemaError String :=
  let url := stripped value
  if url = "" then .error ⟨"redirect URL must not be empty", none⟩
  else if url.toList.any (fun c => c.toNat < 0x20 || c.toNat = 0x7f) then
    .error ⟨"redirect URL must not contain control characters", none⟩
  else if url.toList.any (· ∈ redirectForbidden) then
    .error ⟨"redirect URL must not contain quotes, a backslash, ';' or '$'", none⟩
  else
    match library.urlsplit url with
    | none => .error ⟨"Invalid URL", none⟩
    | some (scheme, netloc) =>
      if library.lower scheme ≠ "http" ∧ library.lower scheme ≠ "https" then
        .error ⟨"redirect URL must start with http:// or https://", none⟩
      else if netloc = "" then .error ⟨"redirect URL must include a host", none⟩
      else .ok url

/-! ### Accepted objects -/

structure BackendSpec.Accepted (b : BackendSpec) : Prop where
  host : ∃ raw, shortText raw = .ok raw ∧ stripHost raw = .ok b.host
  port : 1 ≤ b.port ∧ b.port ≤ 65535

structure UpstreamSpec.Accepted (u : UpstreamSpec) : Prop where
  name : shortText u.name = .ok u.name
  backends : ∀ b ∈ u.backends, b.Accepted

structure AccessListSpec.Accepted (library : SchemaLibrary) (a : AccessListSpec) : Prop where
  name : shortText a.name = .ok a.name
  users : ∀ u ∈ a.authUsers, ∃ raw, validateUsername raw = .ok u.username
  addresses : ∀ r ∈ a.clientRules, ∃ raw, validateAddress library raw = .ok r.address

/-- A forward host and port, or a pool, and not both (`_require_exactly_one_target`). -/
structure AcceptedTarget (upstreamId : Option Id) (forwardHost : Option String)
    (forwardPort : Option Nat) : Prop where
  host : ∀ host, forwardHost = some host → shortText host = .ok host
  port : ∀ port, forwardPort = some port → 1 ≤ port ∧ port ≤ 65535
  exactlyOne : (forwardHost.isSome && forwardPort.isSome) ≠ upstreamId.isSome

/-- What `_coherent_target` asks of a location that proxies onward. -/
structure LocationSpec.Accepted (l : LocationSpec) : Prop where
  path : ∃ raw, validateLocationPath raw = .ok l.path
  pool : l.target = .pool → l.upstreamId.isSome = true ∧ l.forwardHost = none
  host : l.target = .host → l.upstreamId = none
  target : l.target.proxies = true → AcceptedTarget l.upstreamId l.forwardHost l.forwardPort

structure ProxyHostSpec.Accepted (library : SchemaLibrary) (h : ProxyHostSpec) : Prop where
  names : ∃ raw, normaliseDomains library.lower [] raw = .ok h.domainNames
  target : AcceptedTarget h.upstreamId h.forwardHost h.forwardPort
  locations : ∀ l ∈ h.locations, l.Accepted
  paths : uniqueLocationPaths [] (h.locations.map (·.path)) = .ok ()
  accessList : ∀ a, h.accessList = some a → a.Accepted library
  allow : ∀ entry ∈ h.maintenanceAllow, ∃ raw, validateAllow library raw = .ok entry

structure StreamSpec.Accepted (s : StreamSpec) : Prop where
  target : AcceptedTarget s.upstreamId s.forwardHost s.forwardPort

structure RedirectionHostSpec.Accepted (library : SchemaLibrary) (h : RedirectionHostSpec) :
    Prop where
  names : ∃ raw, normaliseDomains library.lower [] raw = .ok h.domainNames
  forward : ∃ raw, normaliseDomains library.lower [] [raw] = .ok [h.forwardDomainName]

structure DeadHostSpec.Accepted (library : SchemaLibrary) (h : DeadHostSpec) : Prop where
  names : ∃ raw, normaliseDomains library.lower [] raw = .ok h.domainNames

/-- A state all of whose objects were accepted. Ids are primary keys; certificates are what
the loader makes of their rows. -/
structure DesiredState.Accepted (library : SchemaLibrary) (cfg : Deployment)
    (state : DesiredState) : Prop where
  distinct : DistinctSpecs state
  proxyHosts : ∀ h ∈ state.proxyHosts, h.Accepted library
  httpUpstreams : ∀ u ∈ state.httpUpstreams, u.Accepted
  streamUpstreams : ∀ u ∈ state.streamUpstreams, u.Accepted
  streams : ∀ s ∈ state.streams, s.Accepted
  redirectionHosts : ∀ h ∈ state.redirectionHosts, h.Accepted library
  deadHosts : ∀ h ∈ state.deadHosts, h.Accepted library
  hostCertificates : ∀ h ∈ state.proxyHosts, ∀ c, h.certificate = some c →
    ∃ row, c = certificateSpec cfg row
  streamCertificates : ∀ s ∈ state.streams, ∀ c, s.certificate = some c →
    ∃ row, c = certificateSpec cfg row
  redirectionCertificates : ∀ h ∈ state.redirectionHosts, ∀ c, h.certificate = some c →
    ∃ row, c = certificateSpec cfg row
  deadCertificates : ∀ h ∈ state.deadHosts, ∀ c, h.certificate = some c →
    ∃ row, c = certificateSpec cfg row
  tlsCertificates : ∀ t ∈ state.defaultTls, ∃ row, t.certificate = certificateSpec cfg row

/-- The documents of a state: pages whose size was checked, a redirect target that was
validated. Location ids and status codes are keys; a stored password is the hash made of it,
which is one line. -/
structure DesiredState.AcceptedPages (library : SchemaLibrary) (state : DesiredState) :
    Prop where
  locationIds : ∀ h ∈ state.proxyHosts, ∀ l ∈ h.locations, ∀ g ∈ state.proxyHosts,
    ∀ m ∈ g.locations, ∀ i, l.id = some i → m.id = some i → m = l
  codes : (state.errorPages.map (·.code)).Nodup
  redirectUrl : ∀ site, state.defaultSite = some site → site.mode = .redirect →
    ∃ raw, validateRedirectUrl library raw = .ok site.redirectUrl
  sitePage : ∀ site, state.defaultSite = some site → validateHtml site.html = .ok site.html
  locationPages : ∀ h ∈ state.proxyHosts, ∀ l ∈ h.locations, validateHtml l.html = .ok l.html
  errorPages : ∀ page ∈ state.errorPages, validateHtml page.html = .ok page.html
  banPage : ∀ ban, state.banPage = some ban → validateHtml ban.html = .ok ban.html
  maintenancePage : ∀ m, state.maintenance = some m → validateHtml m.html = .ok m.html
  hashes : ∀ h ∈ state.proxyHosts, ∀ a, h.accessList = some a → ∀ u ∈ a.authUsers,
    OneLine u.passwordHash

/-! ### What the validators guarantee -/

theorem plainCertificate_loaded {cfg : Deployment} (plain : PlainDeployment cfg)
    {c : CertificateSpec} (loaded : ∃ row, c = certificateSpec cfg row) : PlainCertificate c := by
  obtain ⟨row, rfl⟩ := loaded
  have dir : PlainWord (cfg.nginxCertsDir ++ "/" ++ toString row.id) :=
    plainWord_under plain.certsDir (plainText_int row.id)
  exact ⟨dir.append (PlainText.literal _ rfl), dir.append (PlainText.literal _ rfl),
    plain.digest _⟩

/-- What a domain name is spelled with. -/
def nameChar (c : Char) : Bool :=
  isLabelEnd c || c = '-' || c = '.' || c = '*'

private theorem plainChar_name {c : Char} (name : nameChar c = true) : plainChar c = true := by
  -- none of the reader's characters is one of a name
  have apart : ∀ d : Char, nameChar d = false → c ≠ d := by
    rintro d other rfl
    rw [name] at other
    cases other
  have goes : endsWord c = false := by
    simp [endsWord, delimiter?, apart ' ' (by decide), apart '\t' (by decide),
      apart '\r' (by decide), apart '\n' (by decide), apart ';' (by decide),
      apart '\x7b' (by decide), apart '\x7d' (by decide)]
  simp [plainChar, goes, apart '#' (by decide), apart '"' (by decide), apart '\'' (by decide),
    apart '\\' (by decide)]

/-- Every character but the separator is in one of the parts. -/
private theorem mem_part {chars : List Char} {sep c : Char} (member : c ∈ chars)
    (apart : c ≠ sep) : ∃ part ∈ chars.splitOn sep, c ∈ part := by
  induction chars with
  | nil => cases member
  | cons first rest ih =>
    rw [List.splitOn, List.splitOnP_cons_eq_if_modifyHead]
    by_cases separates : (first == sep) = true
    · rw [if_pos separates]
      rcases List.mem_cons.mp member with same | later
      · exact absurd (same.trans (beq_iff_eq.mp separates)) apart
      · obtain ⟨part, listed, inside⟩ := ih later
        exact ⟨part, List.mem_cons_of_mem _ listed, inside⟩
    · rw [if_neg separates]
      obtain ⟨head, others, split⟩ :=
        List.exists_cons_of_ne_nil (List.splitOnP_ne_nil (· == sep) rest)
      rw [split, List.modifyHead_cons]
      rcases List.mem_cons.mp member with same | later
      · exact ⟨first :: head, List.mem_cons_self .., same ▸ List.mem_cons_self ..⟩
      · obtain ⟨part, listed, inside⟩ := ih later
        rw [List.splitOn, split] at listed
        rcases List.mem_cons.mp listed with rfl | behind
        · exact ⟨first :: part, List.mem_cons_self .., List.mem_cons_of_mem _ inside⟩
        · exact ⟨part, List.mem_cons_of_mem _ behind, inside⟩

private theorem nameChar_of_labels {chars : List Char}
    (labels : (chars.splitOn '.').all isLabel = true) :
    (∀ c ∈ chars, nameChar c = true) ∧ chars ≠ [] := by
  constructor
  · intro c member
    by_cases dot : c = '.'
    · rw [dot]
      decide
    · obtain ⟨part, listed, inside⟩ := mem_part member dot
      have label := List.all_eq_true.mp labels part listed
      simp only [isLabel, Bool.and_eq_true] at label
      have spelled := List.all_eq_true.mp label.1.1.2 c inside
      simp only [nameChar, spelled, Bool.true_or]
  · rintro rfl
    cases labels

/-- What a name that the domain validator lets through is spelled with. -/
theorem nameChar_of_domainMatches {name : String} (found : domainMatches name = true) :
    (∀ c ∈ name.toList, nameChar c = true) ∧ name.toList ≠ [] := by
  unfold domainMatches at found
  split at found
  next rest whole =>
    obtain ⟨spelled, _⟩ := nameChar_of_labels found
    refine ⟨fun c member => ?_, by simp [whole]⟩
    rw [whole] at member
    simp only [List.mem_cons] at member
    rcases member with rfl | rfl | member
    · decide
    · decide
    · exact spelled c member
  next => exact nameChar_of_labels found

/-- A name the domain validator lets through is one plain word. -/
theorem plainWord_of_domainMatches {name : String} (found : domainMatches name = true) :
    PlainWord name := by
  obtain ⟨spelled, some_⟩ := nameChar_of_domainMatches found
  exact ⟨fun c member => plainChar_name (spelled c member), some_⟩

private theorem domainMatches_normalise {lower : String → String} {raw result names : List String}
    (known : ∀ name ∈ result, domainMatches name = true)
    (accepted : normaliseDomains lower result raw = .ok names) :
    names ≠ [] ∧ ∀ name ∈ names, domainMatches name = true := by
  induction raw generalizing result with
  | nil =>
    simp only [normaliseDomains] at accepted
    split at accepted
    · cases accepted
    next some =>
      cases accepted
      exact ⟨some, known⟩
  | cons first rest ih =>
    simp only [normaliseDomains] at accepted
    split at accepted
    · cases accepted
    · split at accepted
      · cases accepted
      next found =>
        simp only [Bool.not_eq_true, Bool.not_eq_false'] at found
        refine ih ?_ accepted
        intro name member
        split at member
        · exact known name member
        · rcases List.mem_append.mp member with old | new
          · exact known name old
          · rw [List.mem_singleton.mp new]
            exact found

/-- The names of an accepted host have passed the validator. -/
theorem domainMatches_of_normalised {lower : String → String} {raw names : List String}
    (accepted : normaliseDomains lower [] raw = .ok names) :
    ∀ name ∈ names, domainMatches name = true :=
  (domainMatches_normalise (fun _ member => by cases member) accepted).2

/-- The names of an accepted host are plain words. -/
theorem plainNames_of_normalised {lower : String → String} {raw names : List String}
    (accepted : normaliseDomains lower [] raw = .ok names) : PlainNames names := by
  obtain ⟨some, known⟩ := domainMatches_normalise (fun _ member => by cases member) accepted
  exact ⟨some, fun name member => plainWord_of_domainMatches (known name member)⟩

/-- What an accepted path holds. -/
theorem path_of_validated {raw path : String} (accepted : validateLocationPath raw = .ok path) :
    (∃ rest, path.toList = '/' :: rest) ∧
    ∀ c ∈ path.toList, isSpace c = false ∧ c ∉ locationForbidden := by
  simp only [validateLocationPath] at accepted
  split at accepted
  · cases accepted
  next begins =>
    split at accepted
    · cases accepted
    · split at accepted
      · cases accepted
      next harmless =>
        split at accepted
        · cases accepted
        · cases accepted
          constructor
          · simp only [Bool.not_eq_true, Bool.not_eq_false', startsWith,
              List.isPrefixOf_iff_prefix] at begins
            obtain ⟨rest, whole⟩ := begins
            exact ⟨rest, whole.symm⟩
          · intro c member
            simp only [Bool.not_eq_true, List.any_eq_false] at harmless
            simpa using harmless c member

theorem host_of_stripped {raw host : String} (accepted : stripHost raw = .ok host) :
    host.toList ≠ [] ∧ ∀ c ∈ host.toList, isSpace c = false := by
  simp only [stripHost] at accepted
  split at accepted
  · cases accepted
  next plain =>
    cases accepted
    simp only [not_or, Bool.not_eq_true, List.any_eq_false] at plain
    refine ⟨fun empty => plain.1 (String.toList_inj.mp empty), fun c member => ?_⟩
    simpa using plain.2 c member

theorem username_of_validated {raw name : String} (accepted : validateUsername raw = .ok name) :
    ∀ c ∈ name.toList, isSpace c = false := by
  simp only [validateUsername] at accepted
  split at accepted
  · cases accepted
  · split at accepted
    · cases accepted
    next plain =>
      cases accepted
      simp only [not_or, Bool.not_eq_true, List.any_eq_false] at plain
      intro c member
      simpa using plain.2 c member

theorem beginsAddress_of_validated {library : SchemaLibrary} (documented : library.Documented)
    {raw address : String} (accepted : validateAddress library raw = .ok address) :
    BeginsAddress address := by
  simp only [validateAddress] at accepted
  split at accepted
  · cases accepted
  · split at accepted
    · cases accepted
      exact ⟨'a', ['l', 'l'], rfl, rfl⟩
    · split at accepted
      next form found =>
        cases accepted
        split at found
        · exact (documented.network _ _ found).2
        · exact documented.address _ _ found
      · cases accepted

theorem beginsAddress_of_allowed {library : SchemaLibrary} (documented : library.Documented)
    {raw entry : String} (accepted : validateAllow library raw = .ok entry) :
    BeginsAddress entry := by
  simp only [validateAllow] at accepted
  split at accepted
  next form found =>
    cases accepted
    exact (documented.network _ _ found).1
  · cases accepted

theorem redirectUrl_of_validated {library : SchemaLibrary} {raw url : String}
    (accepted : validateRedirectUrl library raw = .ok url) : NoCarriageReturn url := by
  simp only [validateRedirectUrl] at accepted
  split at accepted
  · cases accepted
  · split at accepted
    · cases accepted
    next controls =>
      have same : url = stripped raw := by
        split at accepted
        · cases accepted
        · split at accepted
          · cases accepted
          · split at accepted
            · cases accepted
            · split at accepted
              · cases accepted
              · cases accepted
                rfl
      subst same
      intro member
      simp only [Bool.not_eq_true, List.any_eq_false] at controls
      have control := controls _ member
      revert control
      decide

theorem noCarriageReturn_of_noSpace {text : String} (plain : ∀ c ∈ text.toList, isSpace c = false) :
    NoCarriageReturn text := by
  intro member
  have blank := plain _ member
  revert blank
  decide

theorem shortText_some {text : String} (accepted : shortText text = .ok text) :
    text.toList ≠ [] := by
  rintro empty
  have same : text = "" := String.toList_inj.mp empty
  subst same
  cases accepted

theorem nodup_of_unique {seen paths : List String}
    (accepted : uniqueLocationPaths seen paths = .ok ()) :
    paths.Nodup ∧ ∀ path ∈ paths, path ∉ seen := by
  induction paths generalizing seen with
  | nil => exact ⟨List.nodup_nil, fun _ member => by cases member⟩
  | cons first rest ih =>
    simp only [uniqueLocationPaths] at accepted
    split at accepted
    · cases accepted
    next fresh =>
      obtain ⟨distinct, apart⟩ := ih accepted
      refine ⟨List.nodup_cons.mpr ⟨fun member => ?_, distinct⟩, fun path member => ?_⟩
      · exact apart first member (List.mem_append_right _ (List.mem_singleton_self first))
      · rcases List.mem_cons.mp member with rfl | later
        · exact fresh
        · exact fun old => apart path later (List.mem_append_left _ old)

/-- With one location for each path the lookup gives the location its own target. -/
theorem locationTargets_own {h : ProxyHostSpec} (distinct : (h.locations.map (·.path)).Nodup)
    {l : LocationSpec} (member : l ∈ h.locations) (proxies : l.target.proxies = true) :
    (locationTargets h)[l.path]? = some (targetOf l.upstreamId l.forwardHost l.forwardPort) := by
  refine Dict.get_ofPairs _ l.path _ ?_ ?_
  · exact List.mem_map_of_mem (List.mem_filter.mpr ⟨member, proxies⟩)
  · intro target other
    obtain ⟨l', inside, same⟩ := List.mem_map.mp other
    have equal := List.inj_on_of_nodup_map distinct (List.mem_filter.mp inside).1 member
      (Prod.mk.inj same).1
    rw [equal] at same
    exact (Prod.mk.inj same).2.symm

end MegooPM
