import MegooPM.Nginx.TemplateFacts
import MegooPM.Nginx.FileReferences
import MegooPM.Nginx.Documents
import MegooPM.Lib.Locations

/-!
# The server blocks of a host

What nginx reads in the server blocks of a host's file: the error pages and the body of the
default site stand in place of their `include`, and `raw` is what it finds in text the
templates copy as it is, which is the operator's own configuration and the bouncer's Lua
code. The locations of every server block of a proxy host, and what each block says itself.
-/
namespace MegooPM

open Lib Lib.Node

/-! ### Reading -/

/-- The contents of the files a server block includes. The targets of the error log are
written by the container: `error_log` lines, and nothing else. -/
def includedFile (cfg : Deployment) (site : Option DefaultSiteSpec) (path : String) :
    List Lib.Node :=
  if path = cfg.nginxDefaultDir ++ "/" ++ errorsConf then errorsTemplate cfg errorCodes
  else if path = cfg.nginxDefaultDir ++ "/" ++ defaultSiteBody then
    site.elim [] fun site => defaultSiteTemplate cfg site true
  else []

def serverSources (cfg : Deployment) (site : Option DefaultSiteSpec)
    (raw : String → List Lib.Node) : Sources :=
  ⟨includedFile cfg site, raw⟩

/-- Lua code holds no directives. -/
def SkipsCode (raw : String → List Lib.Node) : Prop :=
  ∀ key lead text, .verbatim lead text ∈ crowdsecServerRewrite key → raw text = []

/-- The server blocks of a file as nginx reads them. -/
def serverLevels (src : Sources) (conf : List Lib.Node) : List (List Lib.Node) :=
  (blocks "server" conf).map fun block => expand src block.2

/-- What nginx reads in the operator's own text. -/
def operatorNodes (src : Sources) (advancedConfig : String) : List Lib.Node :=
  expand src (advanced advancedConfig)

theorem operatorNodes_none (src : Sources) : operatorNodes src "" = [] := by
  rfl

section Included

variable (cfg : Deployment) (site : Option DefaultSiteSpec)

theorem includedFile_errors :
    includedFile cfg site (cfg.nginxDefaultDir ++ "/" ++ errorsConf) =
      errorsTemplate cfg errorCodes :=
  if_pos rfl

/-- Texts with different last characters differ. -/
private theorem ne_of_last {left right a b : String} {c d : Char}
    (first : a.toList.getLast? = some c) (second : b.toList.getLast? = some d) (apart : c ≠ d) :
    left ++ a ≠ right ++ b := by
  intro same
  have last := congrArg (fun text : String => text.toList.getLast?) same
  simp only [String.toList_append, List.getLast?_append, first, second, Option.some_or,
    Option.some.injEq] at last
  exact apart last

theorem includedFile_siteBody :
    includedFile cfg site (cfg.nginxDefaultDir ++ "/" ++ defaultSiteBody) =
      site.elim [] fun site => defaultSiteTemplate cfg site true := by
  rw [includedFile, if_neg, if_pos rfl]
  exact ne_of_last (c := 'y') (d := 'c') (by decide) (by decide) (by decide)

theorem includedFile_targets : includedFile cfg site loggingTargets = [] := by
  have apart : ∀ {name : String} {d : Char}, name.toList.getLast? = some d → 'f' ≠ d →
      loggingTargets ≠ cfg.nginxDefaultDir ++ "/" ++ name := by
    intro name d last other
    have whole : loggingTargets = "" ++ loggingTargets := String.empty_append.symm
    rw [whole]
    exact ne_of_last (c := 'f') (by decide) last other
  rw [includedFile, if_neg (apart (d := 'c') (by decide) (by decide)),
    if_neg (apart (d := 'y') (by decide) (by decide))]

end Included

/-! ### What a block says itself -/

/-- The directives whose levels are compared. -/
def Levelled (name : String) : Prop :=
  name = "listen" ∨ name = "add_header" ∨ name = "auth_basic" ∨ name = "proxy_set_header"

section Pieces

variable {name : String} (cfg : Deployment) (site : Option DefaultSiteSpec)
  (raw : String → List Lib.Node) (h : ProxyHostSpec)

theorem expand_when (src : Sources) (c : Bool) (nodes : List Lib.Node) :
    expand src (when c nodes) = if c then expand src nodes else [] := by
  cases c <;> rfl

@[simp] theorem expand_notes (src : Sources) (lead : String) (lines : List String) :
    expand src (notes lead lines) = notes lead lines := by
  induction lines with
  | nil => rfl
  | cons line rest ih =>
    have tail : expand src (rest.map (Lib.Node.comment lead)) = rest.map (.comment lead) := ih
    simp only [notes, List.map_cons, expand_cons, expandNode_comment, tail, List.singleton_append]

@[simp] theorem own_notes (lead : String) (lines : List String) :
    own name (notes lead lines) = [] := by
  simp [notes, own_map]

@[simp] theorem blocks_notes (lead : String) (lines : List String) :
    blocks name (notes lead lines) = [] := by
  induction lines with
  | nil => rfl
  | cons line rest ih => exact ih

theorem expand_crowdsecServerRewrite {raw : String → List Lib.Node} (skips : SkipsCode raw)
    (key : String) : expand (serverSources cfg site raw) (crowdsecServerRewrite key) = [] := by
  have code := skips key _ _ (List.mem_singleton_self _)
  simp only [crowdsecServerRewrite, expand_cons, expandNode_verbatim, serverSources, expand_nil,
    List.append_nil]
  exact code

theorem expand_brandedErrors : expand (serverSources cfg site raw) (brandedErrors cfg) =
    notes "\n    " [
      "Branded error pages for the statuses nginx itself produces. A status",
      "the backend returns is untouched: there is no proxy_intercept_errors."] ++
    errorsTemplate cfg errorCodes := by
  simp [brandedErrors, serverSources, includedFile_errors]

private theorem own_errors (other : name ≠ "error_page") (codes : List Int) :
    own name (errorsTemplate cfg codes) = [] := by
  simp [errorsTemplate, own_flatMap, Ne.symm other]

theorem own_brandedErrors (other : name ≠ "error_page") :
    own name (expand (serverSources cfg site raw) (brandedErrors cfg)) = [] := by
  rw [expand_brandedErrors, own_append, own_notes, own_errors cfg other, List.append_nil]

section Levelled

variable (levelled : Levelled name)

include levelled

theorem own_liveLog (key : String) (bounces : Bool) :
    own name (expand (serverSources cfg site raw) (liveLog key bounces)) = [] := by
  have targets : includedFile cfg site "/etc/nginx/logging-error-targets.conf" = [] :=
    includedFile_targets cfg site
  rcases levelled with rfl | rfl | rfl | rfl <;> cases bounces <;>
    simp [liveLog, when, serverSources, targets]

theorem own_maintenancePage (m : Option MaintenanceSpec) :
    own name (expand (serverSources cfg site raw) (maintenancePage cfg h m)) = [] := by
  rcases levelled with rfl | rfl | rfl | rfl <;> simp [maintenancePage, when] <;> split <;> simp

theorem own_serverNames (names : List String) :
    own name (expand (serverSources cfg site raw) [serverNames names]) = [] := by
  rcases levelled with rfl | rfl | rfl | rfl <;> simp [serverNames]

theorem own_proxyCrowdsec {raw : String → List Lib.Node} (skips : SkipsCode raw)
    (rewrite : Bool) :
    own name (expand (serverSources cfg site raw) (proxyCrowdsec h rewrite)) = [] := by
  rcases levelled with rfl | rfl | rfl | rfl <;> cases rewrite <;>
    simp [proxyCrowdsec, expand_when, expand_crowdsecServerRewrite cfg site skips] <;> split <;>
    simp

theorem own_certificate (lead : String) (c : CertificateSpec) :
    own name (expand (serverSources cfg site raw) (certificateDirectives lead c)) = [] := by
  rcases levelled with rfl | rfl | rfl | rfl <;> simp [certificateDirectives]

end Levelled

theorem own_certMaterial (src : Sources) (c : CertificateSpec) :
    own name (expand src (certMaterial c)) = [] := by
  simp [certMaterial]

theorem own_security (src : Sources) (blockExploits : Bool) :
    own name (expand src (security blockExploits)) = [] := by
  cases blockExploits <;> simp [security, when]

theorem own_proxyAcmeChallenge (src : Sources) :
    own name (expand src (proxyAcmeChallenge cfg h)) = [] := by
  simp [proxyAcmeChallenge]

theorem own_proxyLocation (src : Sources) :
    own name (expand src (proxyLocation cfg h)) = [] := by
  have routed : ∀ l : LocationSpec, own name (expand src (extraRoute cfg h l)) = [] := by
    intro l
    cases proxies : l.target.proxies <;> simp [extraRoute, proxies, answeredBlock, proxyBlock]
  simp [proxyLocation, proxyBlock, expand_flatMap, own_flatMap, routed, expand_when, cachedAssets]
  split <;> simp

/-- The `auth_basic` of a host whose access list has users. -/
def authArguments (h : ProxyHostSpec) : List (List String) :=
  match h.accessList with
  | some a => if a.authUsers.isEmpty then [] else [["\"" ++ a.name ++ "\""]]
  | none => []

theorem own_accessControl (src : Sources) (levelled : Levelled name) :
    own name (expand src (accessControl cfg h)) =
      if name = "auth_basic" then authArguments h else [] := by
  unfold accessControl authArguments
  cases h.accessList with
  | none => simp
  | some a =>
    have rule : ∀ d : AccessListDirective, d.value ≠ "include" ∧ d.value ≠ name := by
      intro d
      rcases levelled with rfl | rfl | rfl | rfl <;> cases d <;> decide
    have rules : own name (expand src (a.clientRules.map fun r =>
        Lib.Node.directive "\n    " [r.directive.value, r.address])) = [] := by
      induction a.clientRules with
      | nil => rfl
      | cons r rest ih =>
        simp only [List.map_cons, expand_cons, expandNode_directive, (rule _).1, if_false,
          own_append, own_directive, (rule _).2, own_nil, ih, List.append_nil]
    simp only [expand_append, own_append, rules, expand_when]
    rcases levelled with rfl | rfl | rfl | rfl <;> simp <;> repeat' split <;> simp

/-- The HSTS header of a host. -/
def hstsArguments (enabled subdomains : Bool) : List (List String) :=
  if enabled then [["Strict-Transport-Security",
    "\"max-age=63072000" ++ (if subdomains then "; includeSubDomains" else "") ++ "\"", "always"]]
  else []

theorem own_hsts (src : Sources) (levelled : Levelled name) (enabled subdomains : Bool) :
    own name (expand src (hsts enabled subdomains)) =
      if name = "add_header" then hstsArguments enabled subdomains else [] := by
  rcases levelled with rfl | rfl | rfl | rfl <;> cases enabled <;>
    simp [hsts, when, hstsArguments]

private theorem own_listen (src : Sources) (levelled : Levelled name) (port : List String)
    (names : List String) :
    own name (expand src [.directive "\n    " ("listen" :: port), serverNames names]) =
      if name = "listen" then [port] else [] := by
  rcases levelled with rfl | rfl | rfl | rfl <;> simp [serverNames]

section Servers

variable (m : Option MaintenanceSpec) {raw : String → List Lib.Node} (skips : SkipsCode raw)
  (levelled : Levelled name)

include skips levelled

theorem own_proxyPlainServer :
    own name (expand (serverSources cfg site raw) (proxyPlainServer cfg h m)) =
      (if name = "listen" then [["80"]] else []) ++
      if name = "auth_basic" ∧ h.sslForced = false then authArguments h else [] := by
  have other : name ≠ "error_page" := by
    rcases levelled with rfl | rfl | rfl | rfl <;> decide
  have redirects : own name (expand (serverSources cfg site raw) [httpsRedirect]) = [] := by
    simp [httpsRedirect]
  simp only [proxyPlainServer, expand_append, own_append,
    own_maintenancePage cfg site raw h levelled m, own_brandedErrors cfg site raw other,
    own_listen _ levelled, own_liveLog cfg site raw levelled,
    own_proxyCrowdsec cfg site h levelled skips, own_proxyAcmeChallenge, List.nil_append,
    List.append_nil]
  cases h.sslForced with
  | true =>
    simp only [if_true, redirects, Bool.true_eq_false, and_false, if_false]
  | false =>
    simp only [Bool.false_eq_true, if_false, expand_append, own_append,
      own_accessControl cfg h _ levelled, own_security, own_proxyLocation, List.append_nil,
      and_true]

theorem own_proxyTlsServer (c : CertificateSpec) :
    own name (expand (serverSources cfg site raw) (proxyTlsHead cfg h m ++ certMaterial c ++
        certificateDirectives "\n    " c ++ proxyTlsTail cfg h)) =
      (if name = "listen" then [["443", "ssl"]] else []) ++
      (if name = "add_header" then hstsArguments h.hstsEnabled h.hstsSubdomains else []) ++
      (if name = "auth_basic" then authArguments h else []) ++
      own name (operatorNodes (serverSources cfg site raw) h.advancedConfig) := by
  have other : name ≠ "error_page" := by
    rcases levelled with rfl | rfl | rfl | rfl <;> decide
  have listen : own name (expand (serverSources cfg site raw)
      [.directive "\n    " ["listen", "443", "ssl"]]) =
      if name = "listen" then [["443", "ssl"]] else [] := by
    rcases levelled with rfl | rfl | rfl | rfl <;> simp
  have http2 : own name (expand (serverSources cfg site raw)
      (when h.http2Support [.directive "\n    " ["http2", "on"]])) = [] := by
    rcases levelled with rfl | rfl | rfl | rfl <;> cases h.http2Support <;> simp [when]
  simp only [proxyTlsHead, proxyTlsTail, expand_append, own_append,
    own_maintenancePage cfg site raw h levelled m, own_brandedErrors cfg site raw other, listen,
    http2, own_serverNames cfg site raw levelled, own_liveLog cfg site raw levelled,
    own_certMaterial, own_certificate cfg site raw levelled, own_hsts _ levelled,
    own_proxyCrowdsec cfg site h levelled skips, own_accessControl cfg h _ levelled,
    own_security, own_proxyLocation, List.nil_append, List.append_nil, operatorNodes]
  simp only [List.append_assoc]

theorem own_proxyOnlyServer :
    own name (expand (serverSources cfg site raw) (proxyOnlyServer cfg h m)) =
      (if name = "listen" then [["80"]] else []) ++
      (if name = "auth_basic" then authArguments h else []) ++
      own name (operatorNodes (serverSources cfg site raw) h.advancedConfig) := by
  have other : name ≠ "error_page" := by
    rcases levelled with rfl | rfl | rfl | rfl <;> decide
  simp only [proxyOnlyServer, expand_append, own_append,
    own_maintenancePage cfg site raw h levelled m, own_brandedErrors cfg site raw other,
    own_listen _ levelled, own_liveLog cfg site raw levelled,
    own_proxyCrowdsec cfg site h levelled skips, own_proxyAcmeChallenge,
    own_accessControl cfg h _ levelled, own_security, own_proxyLocation, List.nil_append,
    List.append_nil, operatorNodes]

end Servers

end Pieces

/-! ### Its locations -/

def challengePath := "/.well-known/acme-challenge/"

section Locations

variable (cfg : Deployment) (site : Option DefaultSiteSpec) (src : Sources) (h : ProxyHostSpec)
  (m : Option MaintenanceSpec)

/-- The items of the blocks a piece is made of. -/
def inside (src : Sources) (piece : List Lib.Node) : List Lib.Node :=
  expand src (piece.flatMap body)

def errorLocation (code : Int) : Location :=
  ⟨.exact, "/" ++ errorHtml code, inside src (errorsTemplate cfg [code])⟩

def maintenanceLocation : Location :=
  ⟨.exact, "/" ++ maintenanceHtml, inside src (maintenancePage cfg h m)⟩

def challengeLocation : Location :=
  ⟨.inclusive true, challengePath, inside src (proxyAcmeChallenge cfg h)⟩

def redirectingLocation : Location :=
  ⟨.inclusive false, "/", inside src [httpsRedirect]⟩

def rootLocation : Location :=
  ⟨.inclusive false, "/", inside src [proxyBlock h ["/"] h.forwardScheme (hostTarget h)]⟩

def extraLocation (l : LocationSpec) : Location :=
  ⟨.inclusive true, readWord l.path, inside src (extraRoute cfg h l)⟩

def assetPattern := "\\.(?:jpg|jpeg|gif|png|ico|css|js|woff2?|svg)$"

def assetLocation : Location :=
  ⟨.regex true, readWord assetPattern, inside src [cachedAssets h]⟩

/-- The routes of a host. -/
def routeLocations : List Location :=
  rootLocation src h :: h.locations.map (extraLocation cfg src h) ++
  if h.cachingEnabled then [assetLocation src h] else []

def maintenanceLocations : List Location :=
  if h.maintenanceEnabled then [maintenanceLocation cfg src h m] else []

@[simp] theorem locations_notes (lead : String) (lines : List String) :
    locations (notes lead lines) = [] := by
  rw [locations, blocks_notes, List.filterMap_nil]

private theorem readWord_errorHtml (code : Int) :
    readWord ("/" ++ errorHtml code) = "/" ++ errorHtml code := by
  have begins : PlainWord ("/" ++ ("megoopm-error-" ++ toString code ++ ".html")) := by
    refine PlainWord.append (PlainWord.literal _ rfl rfl) ?_
    simp only [plainText_append, plainText_int, and_true]
    exact ⟨PlainText.literal _ rfl, PlainText.literal _ rfl⟩
  exact readWord_plain begins

theorem locations_brandedErrors (raw : String → List Lib.Node) :
    locations (expand (serverSources cfg site raw) (brandedErrors cfg)) =
      errorCodes.map (errorLocation cfg (serverSources cfg site raw)) := by
  rw [expand_brandedErrors, locations_append, locations_notes, List.nil_append]
  generalize errorCodes = codes
  simp only [errorsTemplate, locations_comment, locations_flatMap]
  induction codes with
  | nil => rfl
  | cons code rest ih =>
    rw [List.flatMap_cons, ih, List.map_cons]
    simp [errorLocation, readWord_errorHtml, inside, errorsTemplate]

theorem locations_maintenancePage :
    locations (expand src (maintenancePage cfg h m)) = maintenanceLocations cfg src h m := by
  have name : readWord ("/" ++ maintenanceHtml) = "/" ++ maintenanceHtml :=
    readWord_plain ((PlainWord.literal ['/'] rfl rfl).append (PlainText.literal _ rfl))
  cases enabled : h.maintenanceEnabled <;>
    simp [maintenancePage, maintenanceLocations, maintenanceLocation, enabled, when, inside, name,
      notes]

theorem locations_proxyAcmeChallenge :
    locations (expand src (proxyAcmeChallenge cfg h)) = [challengeLocation cfg src h] := by
  have name : readWord "/.well-known/acme-challenge/" = challengePath :=
    readWord_plain (PlainWord.literal _ rfl rfl)
  simp [proxyAcmeChallenge, challengeLocation, inside, name, notes]

theorem locations_httpsRedirect :
    locations (expand src [httpsRedirect]) = [redirectingLocation src] := by
  have name : readWord "/" = "/" := readWord_plain (PlainWord.literal _ rfl rfl)
  simp [httpsRedirect, redirectingLocation, inside, name]

theorem locations_proxyLocation :
    locations (expand src (proxyLocation cfg h)) = routeLocations cfg src h := by
  have root : readWord "/" = "/" := readWord_plain (PlainWord.literal _ rfl rfl)
  have routed : ∀ l : LocationSpec, locations (expand src (extraRoute cfg h l)) =
      [extraLocation cfg src h l] := by
    intro l
    cases proxies : l.target.proxies <;>
      simp [extraRoute, extraLocation, inside, proxies, proxyBlock, answeredBlock]
  have extra : locations (expand src (h.locations.flatMap (extraRoute cfg h))) =
      h.locations.map (extraLocation cfg src h) := by
    rw [expand_flatMap, locations_flatMap, List.map_eq_flatMap]
    simp only [routed]
  rw [proxyLocation, expand_append, expand_append, locations_append, locations_append, extra,
    expand_when, routeLocations]
  congr 1
  · simp [proxyBlock, rootLocation, inside, root]
  · cases h.cachingEnabled <;>
      simp [cachedAssets, assetLocation, assetPattern, inside]

/-! ### The pieces without one -/

theorem locations_liveLog (raw : String → List Lib.Node) (key : String)
    (bounces : Bool) :
    locations (expand (serverSources cfg site raw) (liveLog key bounces)) = [] := by
  have targets : includedFile cfg site "/etc/nginx/logging-error-targets.conf" = [] :=
    includedFile_targets cfg site
  cases bounces <;> simp [liveLog, when, serverSources, targets]

private theorem locations_proxyCrowdsec {raw : String → List Lib.Node} (skips : SkipsCode raw)
    (rewrite : Bool) :
    locations (expand (serverSources cfg site raw) (proxyCrowdsec h rewrite)) = [] := by
  cases rewrite <;>
    simp [proxyCrowdsec, expand_when, expand_crowdsecServerRewrite cfg site skips] <;> split <;>
    simp

private theorem locations_accessControl : locations (expand src (accessControl cfg h)) = [] := by
  unfold accessControl
  cases h.accessList with
  | none => rfl
  | some a =>
    have rules : locations (expand src (a.clientRules.map fun r =>
        Lib.Node.directive "\n    " [r.directive.value, r.address])) = [] := by
      induction a.clientRules with
      | nil => rfl
      | cons r rest ih =>
        have other : r.directive.value ≠ "include" := by cases r.directive <;> decide
        simp only [List.map_cons, expand_cons, expandNode_directive, other, if_false, ih,
          locations_append, locations_directive, locations_nil, List.append_nil]
    simp only [expand_append, locations_append, rules, expand_when]
    simp
    repeat' split
    all_goals simp

theorem locations_security (blockExploits : Bool) :
    locations (expand src (security blockExploits)) = [] := by
  cases blockExploits <;> simp [security, when]

theorem locations_hsts (enabled subdomains : Bool) :
    locations (expand src (hsts enabled subdomains)) = [] := by
  cases enabled <;> simp [hsts, when]

theorem locations_certificateDirectives (lead : String) (c : CertificateSpec) :
    locations (expand src (certificateDirectives lead c)) = [] := by
  simp [certificateDirectives]

private theorem locations_certMaterial (c : CertificateSpec) :
    locations (expand src (certMaterial c)) = [] := by
  simp [certMaterial]

theorem locations_serverNames (names : List String) :
    locations (expand src [serverNames names]) = [] := by
  simp [serverNames]

/-! ### The three server blocks -/

/-- The documents of the error pages, which every block has. -/
def documentLocations : List Location :=
  maintenanceLocations cfg src h m ++ errorCodes.map (errorLocation cfg src)

variable {raw : String → List Lib.Node} (skips : SkipsCode raw)

include skips

theorem locations_proxyPlainServer :
    locations (expand (serverSources cfg site raw) (proxyPlainServer cfg h m)) =
      documentLocations cfg (serverSources cfg site raw) h m ++
      challengeLocation cfg (serverSources cfg site raw) h ::
      if h.sslForced then [redirectingLocation (serverSources cfg site raw)]
      else routeLocations cfg (serverSources cfg site raw) h := by
  have listen : locations (expand (serverSources cfg site raw)
      [.directive "\n    " ["listen", "80"], serverNames h.domainNames]) = [] := by
    simp [serverNames]
  rw [proxyPlainServer]
  simp only [expand_append, locations_append, locations_maintenancePage,
    locations_brandedErrors, listen, locations_liveLog, locations_proxyCrowdsec cfg site h skips,
    locations_proxyAcmeChallenge, List.append_nil, documentLocations]
  cases h.sslForced with
  | false =>
    simp [locations_accessControl, locations_security, locations_proxyLocation]
  | true =>
    simp only [if_true, locations_httpsRedirect, List.append_assoc, List.singleton_append]

theorem locations_proxyTlsServer (c : CertificateSpec) :
    locations (expand (serverSources cfg site raw) (proxyTlsHead cfg h m ++ certMaterial c ++
        certificateDirectives "\n    " c ++ proxyTlsTail cfg h)) =
      documentLocations cfg (serverSources cfg site raw) h m ++
      routeLocations cfg (serverSources cfg site raw) h ++
      locations (operatorNodes (serverSources cfg site raw) h.advancedConfig) := by
  have listen : locations (expand (serverSources cfg site raw)
      [.directive "\n    " ["listen", "443", "ssl"]]) = [] := by
    simp
  have http2 : locations (expand (serverSources cfg site raw)
      (when h.http2Support [.directive "\n    " ["http2", "on"]])) = [] := by
    cases h.http2Support <;> simp [when]
  simp only [proxyTlsHead, proxyTlsTail, expand_append, locations_append,
    locations_maintenancePage, locations_brandedErrors, listen, http2, locations_serverNames,
    locations_liveLog, locations_certMaterial, locations_certificateDirectives, locations_hsts,
    locations_proxyCrowdsec cfg site h skips, locations_accessControl, locations_security,
    locations_proxyLocation, List.append_nil, List.nil_append, documentLocations, operatorNodes]
  simp only [List.append_assoc]

theorem locations_proxyOnlyServer :
    locations (expand (serverSources cfg site raw) (proxyOnlyServer cfg h m)) =
      documentLocations cfg (serverSources cfg site raw) h m ++
      challengeLocation cfg (serverSources cfg site raw) h ::
      (routeLocations cfg (serverSources cfg site raw) h ++
        locations (operatorNodes (serverSources cfg site raw) h.advancedConfig)) := by
  have listen : locations (expand (serverSources cfg site raw)
      [.directive "\n    " ["listen", "80"], serverNames h.domainNames]) = [] := by
    simp [serverNames]
  simp only [proxyOnlyServer, expand_append, locations_append, locations_maintenancePage,
    locations_brandedErrors, listen, locations_liveLog, locations_proxyCrowdsec cfg site h skips,
    locations_proxyAcmeChallenge, locations_accessControl, locations_security,
    locations_proxyLocation, List.append_nil, documentLocations, operatorNodes]
  simp only [List.append_assoc, List.cons_append, List.nil_append]

end Locations

/-! ### Redirection and dead hosts -/

section Bouncer

variable {name : String} (cfg : Deployment) (site : Option DefaultSiteSpec)
  {raw : String → List Lib.Node} (skips : SkipsCode raw)

include skips

private theorem expand_bouncerCrowdsec (enabled : Bool) (key : String) :
    expand (serverSources cfg site raw) (bouncerCrowdsec enabled key) =
      if enabled then notes "\n    " [
        "CrowdSec bouncer, in the server-rewrite phase: this server answers with",
        "`return`, which runs before the access phase proxy hosts use."]
      else [] := by
  simp only [bouncerCrowdsec, expand_when, expand_append, expand_notes,
    expand_crowdsecServerRewrite cfg site skips, List.append_nil]

theorem locations_bouncerHead {listen : List Lib.Node}
    (none_ : locations (expand (serverSources cfg site raw) listen) = []) (names : List String)
    (key : String) (crowdsec : Bool) :
    locations (expand (serverSources cfg site raw)
      (bouncerHead cfg listen names key crowdsec)) =
      errorCodes.map (errorLocation cfg (serverSources cfg site raw)) := by
  have bouncer : locations (expand (serverSources cfg site raw)
      (bouncerCrowdsec crowdsec key)) = [] := by
    rw [expand_bouncerCrowdsec cfg site skips]
    cases crowdsec <;> simp
  simp only [bouncerHead, expand_append, locations_append, locations_brandedErrors, none_,
    locations_serverNames, locations_liveLog, bouncer, List.append_nil]

theorem own_bouncerHead (levelled : Levelled name) (listen : List Lib.Node) (names : List String)
    (key : String) (crowdsec : Bool) :
    own name (expand (serverSources cfg site raw) (bouncerHead cfg listen names key crowdsec)) =
      own name (expand (serverSources cfg site raw) listen) := by
  have other : name ≠ "error_page" := by
    rcases levelled with rfl | rfl | rfl | rfl <;> decide
  have bouncer : own name (expand (serverSources cfg site raw)
      (bouncerCrowdsec crowdsec key)) = [] := by
    rw [expand_bouncerCrowdsec cfg site skips]
    cases crowdsec <;> simp
  simp only [bouncerHead, expand_append, own_append, own_brandedErrors cfg site raw other,
    own_serverNames cfg site raw levelled, own_liveLog cfg site raw levelled, bouncer,
    List.nil_append, List.append_nil]

end Bouncer

section ListenTls

variable {name : String} (src : Sources)

theorem locations_listenTls (http2 : Bool) : locations (expand src (listenTls http2)) = [] := by
  cases http2 <;> simp [listenTls, when]

theorem own_listenTls (levelled : Levelled name) (http2 : Bool) :
    own name (expand src (listenTls http2)) =
      if name = "listen" then [["443", "ssl"]] else [] := by
  rcases levelled with rfl | rfl | rfl | rfl <;> cases http2 <;> simp [listenTls, when]

end ListenTls

end MegooPM
