import MegooPM.Nginx.StoredBlocks
import MegooPM.Nginx.AllOrNothing

/-!
# Headers and their levels

`proxy_set_header` is inherited whole or not at all. A location that sets a header of its
own has to repeat the line that clears the visitor's password, and the location of the cached
assets does not. The levels are those of every location at any depth, with the words as nginx
stores them; the `http` block around them sets no such header and asks for no password.
-/
namespace MegooPM

open Lib Lib.Node

/-- The directive is about this header, which is spelled in small letters here. -/
def headerIs (header : String) (args : List String) : Bool :=
  args.head?.map (fun name => name.toList.map Char.toLower) = some header.toList

/-- What a server block hands to its locations under these names. -/
def serverWords (names : List String) (level : List Lib.Node) : Words := fun name =>
  if name ∈ names then own name level else []

/-! ### The passwords of an access list -/

/-- The level hands requests on to a backend. -/
def Proxies (l : Level) : Prop :=
  l.said "proxy_pass" ≠ []

/-- Somebody is asked for a password: `off` asks nobody. -/
def Asks (auth : List (List String)) : Prop :=
  ∃ args ∈ auth, args.head? ≠ some "off"

/-- The level asks for the password that is asked for around it. -/
def AsksPassword (l : Level) : Prop :=
  l.said "auth_basic" = [] ∧ Asks (l.around "auth_basic")

/-- The lines of the `Authorization` that a backend gets. -/
def authorizationLines (l : Level) : List (List String) :=
  (l.inForce "proxy_set_header").filter (headerIs "authorization")

/-- The backend gets an empty `Authorization`, and no other one. -/
def ClearsPassword (l : Level) : Prop :=
  authorizationLines l ≠ [] ∧ ∀ args ∈ authorizationLines l, args.tail = [""]

/-- A level that asks for the password and proxies does not hand it on. -/
def KeepsPassword (l : Level) : Prop :=
  Proxies l → AsksPassword l → ClearsPassword l

def passwordNames : List String := ["auth_basic", "proxy_set_header"]

/-- No location at any depth that asks for the password hands it on. -/
def KeepsPasswords (src : Sources) (conf : List Lib.Node) : Prop :=
  ∀ level ∈ serverLevels src conf,
    ∀ l ∈ levels (serverWords passwordNames (storeAll level)) (storeAll level), KeepsPassword l

/-- What the operator's own locations inherit: the list's realm, and what the operator says
beside it. -/
def passwordWords (src : Sources) (h : ProxyHostSpec) : Words := fun name =>
  (if name = "auth_basic" then (authArguments h).map (List.map readWord) else []) ++
  serverWords passwordNames (storeAll (operatorNodes src h.advancedConfig)) name

/-- The operator's own locations clear the password where they ask for it. -/
def OperatorKeepsPasswords (src : Sources) (h : ProxyHostSpec) : Prop :=
  ∀ l ∈ levels (passwordWords src h) (storeAll (operatorNodes src h.advancedConfig)),
    KeepsPassword l

instance (l : Level) : Decidable (Proxies l) :=
  inferInstanceAs (Decidable (_ ≠ _))

instance (auth : List (List String)) : Decidable (Asks auth) :=
  inferInstanceAs (Decidable (∃ args ∈ auth, _ ≠ _))

instance (l : Level) : Decidable (AsksPassword l) :=
  inferInstanceAs (Decidable (_ ∧ _))

instance (l : Level) : Decidable (ClearsPassword l) :=
  inferInstanceAs (Decidable (_ ∧ ∀ args ∈ _, _ = _))

instance (l : Level) : Decidable (KeepsPassword l) :=
  inferInstanceAs (Decidable (_ → _))

instance (src : Sources) (conf : List Lib.Node) : Decidable (KeepsPasswords src conf) :=
  inferInstanceAs (Decidable (∀ level ∈ _, ∀ l ∈ levels _ _, KeepsPassword l))

instance (src : Sources) (h : ProxyHostSpec) : Decidable (OperatorKeepsPasswords src h) :=
  inferInstanceAs (Decidable (∀ l ∈ levels _ _, KeepsPassword l))

/-- Only the words of these directives decide. -/
theorem keepsPassword_congr {a b : Level} (said : ∀ name ∈ decisive, a.said name = b.said name)
    (around : a.around = b.around) (keeps : KeepsPassword a) : KeepsPassword b := by
  have headers := said "proxy_set_header" (by decide)
  have force : b.inForce "proxy_set_header" = a.inForce "proxy_set_header" := by
    rw [Level.inForce, Level.inForce, headers, around]
  rw [KeepsPassword, Proxies, AsksPassword, ClearsPassword, authorizationLines] at keeps ⊢
  rw [force, ← said "proxy_pass" (by decide), ← said "auth_basic" (by decide), ← around]
  exact keeps

section Bodies

variable {name : String} (cfg : Deployment) (site : Option DefaultSiteSpec) (src : Sources)
  (raw : String → List Lib.Node) (h : ProxyHostSpec) (m : Option MaintenanceSpec)

/-- The directives that decide about a location. -/
def Deciding (name : String) : Prop :=
  name = "proxy_pass" ∨ name = "auth_basic" ∨ name = "add_header"

theorem own_errorLocation (deciding : Deciding name) (code : Int) :
    own name (errorLocation cfg src code).body = [] := by
  rcases deciding with rfl | rfl | rfl <;> simp [errorLocation, inside, errorsTemplate]

theorem proxyPass_maintenanceLocation :
    own "proxy_pass" (maintenanceLocation cfg src h m).body = [] := by
  cases enabled : h.maintenanceEnabled <;>
    simp [maintenanceLocation, inside, maintenancePage, enabled, when, notes]

theorem proxyPass_challengeLocation :
    own "proxy_pass" (challengeLocation cfg src h).body = [] := by
  cases listed : h.accessList.isSome <;>
    simp [challengeLocation, inside, proxyAcmeChallenge, listed, when, notes]

theorem own_redirectingLocation (deciding : Deciding name) :
    own name (redirectingLocation src).body = [] := by
  rcases deciding with rfl | rfl | rfl <;> simp [redirectingLocation, inside, httpsRedirect]

@[simp] private theorem own_maintenanceGuard :
    own name (expand src (maintenanceGuard h)) = [] := by
  cases enabled : h.maintenanceEnabled <;> simp [maintenanceGuard, enabled, when]

private theorem own_proxyBlock (other : name = "auth_basic" ∨ name = "add_header")
    (path : List String) (scheme : HttpScheme) (target : String) :
    own name (inside src [proxyBlock h path scheme target]) = [] := by
  rcases other with rfl | rfl <;>
    simp [inside, proxyBlock, forwardedHeaders, expand_when] <;> repeat' split
  all_goals simp

/-- The headers of a location that proxies. -/
def proxyHeaders (h : ProxyHostSpec) : List (List String) :=
  own "proxy_set_header"
    (.directive "\n        " ["proxy_set_header", "Host", "$host"] :: forwardedHeaders) ++
  if h.allowWebsocketUpgrade then
    [["Upgrade", "$http_upgrade"], ["Connection", "$connection_upgrade"]]
  else []

/-- A password that is not to be passed on is cleared. -/
private theorem headers_proxyBlock {a : AccessListSpec} (listed : h.accessList = some a)
    (users : a.authUsers ≠ []) (kept : a.passAuth = false) (path : List String)
    (scheme : HttpScheme) (target : String) :
    own "proxy_set_header" (inside src [proxyBlock h path scheme target]) =
      proxyHeaders h ++ [["Authorization", "\"\""]] := by
  have cleared : (h.hasAuth && !(h.accessList.elim false (·.passAuth))) = true := by
    simp [ProxyHostSpec.hasAuth, listed, kept, users]
  cases sockets : h.allowWebsocketUpgrade <;>
    simp [inside, proxyBlock, proxyHeaders, forwardedHeaders, cleared, when, sockets]

/-- The rules of the default site set none of these. -/
private theorem own_siteRules (deciding : Deciding name) (site : DefaultSiteSpec) :
    own name (defaultSiteRules cfg site) = [] := by
  rcases deciding with rfl | rfl | rfl <;> cases mode : site.mode <;>
    simp [defaultSiteRules, mode]

theorem own_answeredBlock (deciding : Deciding name) (l : LocationSpec) :
    own name (inside (serverSources cfg site raw) [answeredBlock cfg h l]) = [] := by
  have included : own name (includedFile cfg site
      (cfg.nginxDefaultDir ++ "/" ++ defaultSiteBody)) = [] := by
    rw [includedFile_siteBody]
    cases site with
    | none => rfl
    | some site => simp [defaultSiteTemplate, managedHeader, own_siteRules cfg deciding]
  have rules : own name ((serverSources cfg site raw).files
      (cfg.nginxDefaultDir ++ "/" ++ defaultSiteBody)) = [] := included
  rcases deciding with rfl | rfl | rfl <;> cases target : l.target <;>
    simp [inside, answeredBlock, target, rules]

theorem own_rootLocation (other : name = "auth_basic" ∨ name = "add_header") :
    own name (rootLocation src h).body = [] :=
  own_proxyBlock src h other _ _ _

theorem own_extraLocation (other : name = "auth_basic" ∨ name = "add_header") (l : LocationSpec) :
    own name (extraLocation cfg (serverSources cfg site raw) h l).body = [] := by
  have deciding : Deciding name := Or.inr other
  cases proxies : l.target.proxies with
  | true =>
    simp only [extraLocation, extraRoute, proxies, if_true, inside, List.flatMap_cons,
      body_comment, List.nil_append]
    exact own_proxyBlock _ h other _ _ _
  | false =>
    simp only [extraLocation, extraRoute, proxies, Bool.false_eq_true, if_false, inside,
      List.flatMap_cons, body_comment, List.nil_append]
    exact own_answeredBlock cfg site raw h deciding l

theorem own_assetLocation :
    own "proxy_pass" (assetLocation src h).body ≠ [] ∧
    own "auth_basic" (assetLocation src h).body = [] ∧
    own "add_header" (assetLocation src h).body = [["Cache-Control", "\"public\""]] ∧
    own "proxy_set_header" (assetLocation src h).body = own "proxy_set_header"
      (.directive "\n        " ["proxy_set_header", "Host", "$host"] :: forwardedHeaders) := by
  refine ⟨?_, ?_, ?_, ?_⟩ <;> simp [assetLocation, inside, cachedAssets, forwardedHeaders]

/-! ### Passwords -/

/-- What a location of the templates says once it is stored. -/
theorem said_stored {around : Words} {l : Location} (named : AllNamed l.body)
    (name : String) : (l.stored.level around).said name = (own name l.body).map (List.map readWord) :=
  own_storeAll name named

variable {a : AccessListSpec} (listed : h.accessList = some a) (users : a.authUsers ≠ [])
  (kept : a.passAuth = false)

include listed users kept

private theorem clears_proxyBlock {around : Words} {l : Location} (named : AllNamed l.body)
    {path : List String} {scheme : HttpScheme} {target : String}
    (held : l.body = inside src [proxyBlock h path scheme target]) :
    ClearsPassword (l.stored.level around) := by
  have headers : (l.stored.level around).said "proxy_set_header" =
      (proxyHeaders h ++ [["Authorization", "\"\""]]).map (List.map readWord) := by
    rw [said_stored named, held, headers_proxyBlock src h listed users kept]
  have some_ : (l.stored.level around).said "proxy_set_header" ≠ [] := by
    rw [headers]
    simp
  have lines : authorizationLines (l.stored.level around) = [["Authorization", ""]] := by
    rw [authorizationLines, Level.inForce_said some_, headers, proxyHeaders]
    cases h.allowWebsocketUpgrade <;> decide +kernel
  rw [ClearsPassword, lines]
  decide

private theorem clears_extraLocation {around : Words} (l : LocationSpec)
    (named : AllNamed (extraLocation cfg (serverSources cfg site raw) h l).body)
    (proxies : Proxies ((extraLocation cfg (serverSources cfg site raw) h l).stored.level around)) :
    ClearsPassword ((extraLocation cfg (serverSources cfg site raw) h l).stored.level around) := by
  cases onward : l.target.proxies with
  | true =>
    have held : (extraLocation cfg (serverSources cfg site raw) h l).body =
        inside (serverSources cfg site raw) [proxyBlock h ["^~", l.path] l.forwardScheme
          (((locationTargets h)[l.path]?).getD "")] := by
      simp only [extraLocation, extraRoute, onward, if_true, inside, List.flatMap_cons,
        body_comment, List.nil_append]
    exact clears_proxyBlock _ h listed users kept named held
  | false =>
    have held : (extraLocation cfg (serverSources cfg site raw) h l).body =
        inside (serverSources cfg site raw) [answeredBlock cfg h l] := by
      simp only [extraLocation, extraRoute, onward, Bool.false_eq_true, if_false, inside,
        List.flatMap_cons, body_comment, List.nil_append]
    refine absurd ?_ proxies
    rw [said_stored named, held, own_answeredBlock cfg site raw h (Or.inl rfl), List.map_nil]

/-- Every route but the cached assets clears the password. -/
theorem routes_keepPasswords (around : Words)
    (named : ∀ l ∈ routeLocations cfg (serverSources cfg site raw) h, AllNamed l.body) :
    (∀ l ∈ routeLocations cfg (serverSources cfg site raw) h,
      ∀ inner ∈ l.stored.levels around, KeepsPassword inner) ↔
      (Asks (around "auth_basic") → h.cachingEnabled = false) := by
  have first : ∀ l ∈ routeLocations cfg (serverSources cfg site raw) h,
      (∀ inner ∈ l.stored.levels around, KeepsPassword inner) ↔
        KeepsPassword (l.stored.level around) := fun l member =>
    (steady_routes cfg site h member).forall_levels (fun _ _ => keepsPassword_congr) around
  obtain ⟨onward, inherits, _, headers⟩ := own_assetLocation (serverSources cfg site raw) h
  constructor
  · intro keeps asks
    rw [← Bool.not_eq_true]
    intro caching
    have member : assetLocation (serverSources cfg site raw) h ∈
        routeLocations cfg (serverSources cfg site raw) h := by
      simp [routeLocations, caching]
    have body := named _ member
    have proxies : Proxies ((assetLocation (serverSources cfg site raw) h).stored.level around) := by
      rw [Proxies, said_stored body]
      exact fun none_ => onward (List.map_eq_nil_iff.mp none_)
    have asked : AsksPassword
        ((assetLocation (serverSources cfg site raw) h).stored.level around) := by
      refine ⟨?_, asks⟩
      rw [said_stored body, inherits, List.map_nil]
    obtain ⟨some_, _⟩ := (first _ member).mp (keeps _ member) proxies asked
    -- the headers the assets set are their own, and none of them is this one
    refine some_ ?_
    rw [authorizationLines, Level.inForce_said, said_stored body, headers]
    · decide +kernel
    · rw [said_stored body, headers]
      simp [forwardedHeaders]
  · intro quiet l member
    rw [first l member]
    intro proxies asked
    have caching := quiet asked.2
    have body := named l member
    simp only [routeLocations, caching, Bool.false_eq_true, if_false, List.append_nil,
      List.mem_cons, List.mem_map] at member
    rcases member with rfl | ⟨spec, _, rfl⟩
    · exact clears_proxyBlock _ h listed users kept body rfl
    · exact clears_extraLocation cfg site raw h listed users kept spec body proxies

end Bodies

section Passwords

variable (cfg : Deployment) (site : Option DefaultSiteSpec) (raw : String → List Lib.Node)
  (h : ProxyHostSpec) (m : Option MaintenanceSpec)

private theorem keeps_of_still {around : Words} {l : Location} (named : AllNamed l.body)
    (steady : l.stored.Steady decisive) (still : own "proxy_pass" l.body = []) :
    ∀ inner ∈ l.stored.levels around, KeepsPassword inner := by
  refine (steady.forall_levels (fun _ _ => keepsPassword_congr) around).mpr fun proxies => ?_
  refine absurd ?_ proxies
  rw [said_stored named, still, List.map_nil]

/-- The documents of a block are not handed on. -/
private theorem documents_stay (src : Sources) {around : Words} {l : Location}
    (named : AllNamed l.body) (member : l ∈ documentLocations cfg src h m) :
    ∀ inner ∈ l.stored.levels around, KeepsPassword inner := by
  refine keeps_of_still named (steady_documents cfg src h m member) ?_
  rcases List.mem_append.mp member with page | error
  · simp only [maintenanceLocations] at page
    split at page
    · rw [List.mem_singleton.mp page]
      exact proxyPass_maintenanceLocation cfg src h m
    · cases page
  · obtain ⟨code, _, rfl⟩ := List.mem_map.mp error
    exact own_errorLocation cfg src (Or.inl rfl) code

/-- On port 80 the block also answers the challenge, and maybe redirects. -/
private theorem plain_stays (src : Sources) {around : Words} {l : Location}
    (named : AllNamed l.body) (member : l ∈ documentLocations cfg src h m ++
      [challengeLocation cfg src h, redirectingLocation src]) :
    ∀ inner ∈ l.stored.levels around, KeepsPassword inner := by
  rcases List.mem_append.mp member with document | fixed
  · exact documents_stay cfg h m src named document
  · simp only [List.mem_cons, List.not_mem_nil, or_false] at fixed
    rcases fixed with rfl | rfl
    · exact keeps_of_still named (steady_challengeLocation cfg src h)
        (proxyPass_challengeLocation cfg src h)
    · exact keeps_of_still named (steady_redirectingLocation src)
        (own_redirectingLocation src (Or.inl rfl))

private theorem challenge_stays (src : Sources) {around : Words} {l : Location}
    (named : AllNamed l.body)
    (member : l ∈ documentLocations cfg src h m ++ [challengeLocation cfg src h]) :
    ∀ inner ∈ l.stored.levels around, KeepsPassword inner := by
  refine plain_stays cfg h m src named ?_
  rcases List.mem_append.mp member with document | challenge
  · exact List.mem_append_left _ document
  · rw [List.mem_singleton.mp challenge]
    exact List.mem_append_right _ (List.mem_cons_self ..)

variable {h} {a : AccessListSpec} (listed : h.accessList = some a) (users : a.authUsers ≠ [])
  (kept : a.passAuth = false)

include listed users kept

/-- A block of the templates with the operator's text behind it: its routes and the
operator's locations decide. -/
private theorem block_keepsPasswords {block : List Lib.Node} (operator : List Lib.Node)
    (fixed : List Location) (around : Words) (named : AllNamed block)
    (still : ∀ l ∈ fixed, AllNamed l.body →
      ∀ inner ∈ l.stored.levels around, KeepsPassword inner)
    (held : locations block = fixed ++ routeLocations cfg (serverSources cfg site raw) h) :
    (∀ l ∈ levels around (storeAll (block ++ operator)), KeepsPassword l) ↔
      (Asks (around "auth_basic") → h.cachingEnabled = false) ∧
      ∀ l ∈ levels around (storeAll operator), KeepsPassword l := by
  have member : ∀ l ∈ fixed ++ routeLocations cfg (serverSources cfg site raw) h,
      AllNamed l.body := fun l inside => allNamed_location named (by rw [held]; exact inside)
  rw [List.forall_mem_append] at member
  rw [forall_levels_storeAll around named, held, List.forall_mem_append,
    routes_keepPasswords cfg site raw h listed users kept around member.2]
  refine and_congr_left' (and_iff_right fun l inside => ?_)
  exact still l inside (member.1 l inside)

omit listed users kept in
/-- What the block and the operator say together. -/
private theorem passwordWords_of {src : Sources} {block : List Lib.Node} (named : AllNamed block)
    (auth : own "auth_basic" block = authArguments h) (headers : own "proxy_set_header" block = []) :
    serverWords passwordNames (storeAll (block ++ operatorNodes src h.advancedConfig)) =
      passwordWords src h := by
  funext name
  by_cases known : name ∈ passwordNames
  · simp only [passwordWords, serverWords, if_pos known, storeAll_append, own_append,
      own_storeAll name named]
    congr 1
    simp only [passwordNames, List.mem_cons, List.not_mem_nil, or_false] at known
    rcases known with rfl | rfl
    · rw [auth, if_pos rfl]
    · rw [headers, if_neg (by decide), List.map_nil]
  · have other : name ≠ "auth_basic" := by
      rintro rfl
      exact known (by decide)
    simp only [passwordWords, serverWords, if_neg known, if_neg other, List.append_nil]

/-- The block on port 80 of a host with a certificate holds none of the operator's. -/
private theorem plain_keepsPasswords {raw : String → List Lib.Node} (skips : SkipsCode raw)
    {level : List Lib.Node}
    (read : level = expand (serverSources cfg site raw) (proxyPlainServer cfg h m))
    (quiet : Asks (passwordWords (serverSources cfg site raw) h "auth_basic") →
      h.cachingEnabled = false) :
    ∀ l ∈ levels (serverWords passwordNames (storeAll level)) (storeAll level),
      KeepsPassword l := by
  have named := allNamed_proxyPlainServer cfg site h m skips
  rw [← read] at named
  have split := locations_proxyPlainServer cfg site h m skips
  rw [← read] at split
  generalize around_ : serverWords passwordNames (storeAll level) = around
  cases forced : h.sslForced with
  | true =>
    rw [forced, if_pos rfl] at split
    rw [levels, locations_storeAll named, split]
    simp only [List.flatMap_map, List.forall_mem_flatMap]
    -- the port only redirects, and proxies nothing
    intro l member
    exact plain_stays cfg h m _ (allNamed_location named (by rw [split]; exact member)) member
  | false =>
    rw [forced, if_neg Bool.false_ne_true] at split
    rw [← List.append_nil level]
    refine (block_keepsPasswords cfg site raw listed users kept []
      (documentLocations cfg (serverSources cfg site raw) h m ++
        [challengeLocation cfg (serverSources cfg site raw) h]) around named
      (fun l member body => challenge_stays cfg h m _ body member) ?_).mpr
      ⟨fun asks => quiet ?_, fun l member => by cases member⟩
    · rw [split, List.append_assoc, List.singleton_append]
    · -- the realm is asked for on port 80 too
      have own_ : around "auth_basic" = (authArguments h).map (List.map readWord) := by
        rw [← around_, serverWords, if_pos (by decide), own_storeAll _ named, read,
          own_proxyPlainServer cfg site h m skips (Or.inr (Or.inr (Or.inl rfl))), forced]
        simp
      obtain ⟨args, member, asked⟩ := asks
      rw [own_] at member
      exact ⟨args, List.mem_append_left _ (by rw [if_pos rfl]; exact member), asked⟩

/-- The routes and the operator's locations decide about the block on port 443. -/
private theorem tls_keepsPasswords {raw : String → List Lib.Node} (skips : SkipsCode raw)
    (c : CertificateSpec) {level : List Lib.Node} (read : level = expand (serverSources cfg site raw)
      (proxyTlsHead cfg h m ++ certMaterial c ++ certificateDirectives "\n    " c ++
        proxyTlsTail cfg h)) :
    (∀ l ∈ levels (serverWords passwordNames (storeAll level)) (storeAll level),
      KeepsPassword l) ↔
      (Asks (passwordWords (serverSources cfg site raw) h "auth_basic") →
        h.cachingEnabled = false) ∧
      OperatorKeepsPasswords (serverSources cfg site raw) h := by
  have named := allNamed_proxyTlsServer cfg site h m skips c
  rw [← proxyTlsServer, expand_proxyTlsServer] at read
  rw [read, passwordWords_of named]
  · refine block_keepsPasswords cfg site raw listed users kept _
      (documentLocations cfg (serverSources cfg site raw) h m) _ named
      (fun l member body => documents_stay cfg h m _ body member) ?_
    rw [proxyTlsServer, locations_proxyTlsServer cfg site h.bare m skips]
    simp only [ProxyHostSpec.bare, operatorNodes_none, locations_nil, List.append_nil]
    rfl
  · rw [proxyTlsServer, own_proxyTlsServer cfg site h.bare m skips (Or.inr (Or.inr (Or.inl rfl)))]
    simp [ProxyHostSpec.bare, operatorNodes_none, authArguments]
  · rw [proxyTlsServer, own_proxyTlsServer cfg site h.bare m skips (Or.inr (Or.inr (Or.inr rfl)))]
    simp [ProxyHostSpec.bare, operatorNodes_none]

end Passwords

/-- A host that asks for a password and keeps it, and may cache its assets. -/
def guardedHost (caching : Bool) : ProxyHostSpec where
  id := 1
  domainNames := ["example.com"]
  upstreamId := some 1
  cachingEnabled := caching
  locations := [{ path := "/api/", upstreamId := some 1 }]
  accessList := some { id := 1, name := "office", authUsers := [⟨"alice", "x"⟩] }
  advancedConfig := "operator"

/-- A location inside another, which clears the password in its own spelling. -/
def nestedLocation : List Lib.Node :=
  [.block "\n    " ["location", "/app/"] [
    .block "\n        " ["location", "/app/api/"] [
      .directive "\n            " ["proxy_pass", "http://10.0.0.9"],
      .directive "\n            " ["proxy_set_header", "AUTHORIZATION", "''"]] "\n        "]
    "\n    "]

/-- What nginx finds in the operator's text of the guarded host. -/
def operatorText (nodes : List Lib.Node) (text : String) : List Lib.Node :=
  if text = indent4 "operator" then nodes else []

theorem skipsCode_operatorText (nodes : List Lib.Node) : SkipsCode (operatorText nodes) := by
  intro key lead text code
  refine if_neg ?_
  rintro rfl
  obtain ⟨_, same⟩ := Lib.Node.verbatim.inj (List.mem_singleton.mp code)
  -- the Lua code ends with its brace
  have last := congrArg (fun text : String => text.toList.getLast?) same
  have brace : "\") \x7d".toList.getLast? = some '\x7d' := by decide
  simp only [String.toList_append, List.getLast?_append, brace, Option.some_or] at last
  revert last
  decide

private theorem listedGuard (caching : Bool) : (guardedHost caching).accessList =
    some { id := 1, name := "office", authUsers := [⟨"alice", "x"⟩] } := rfl

end MegooPM
