import MegooPM.Nginx.State
import MegooPM.Lib.ConfTree

/-!
# Templates

The templates under `templates/nginx/`, as functions from the data they are
rendered with to configuration trees. Macros keep their names; a macro that two
templates repeat word for word is one function here. A node's `lead` is the white
space the template leaves in front of it, so printing a tree gives the rendered
bytes. Every file ends with a line end, which `FileBody.text` adds.
-/
namespace MegooPM

open Lib Lib.Node

/-- The contents of a managed file before printing. -/
inductive FileBody where
  | conf (nodes : List Node)
  | plain (text : String)

def FileBody.text : FileBody → String
  | .conf nodes => printAll nodes ++ "\n"
  | .plain text => text

/-- The configuration tree of a file; a document has none. -/
def FileBody.tree : FileBody → List Node
  | .conf nodes => nodes
  | .plain _ => []

/-! ### File names -/

def defaultSiteConf := "megoopm-default.conf"
def defaultSiteHtml := "megoopm-default.html"
def defaultSiteBody := "megoopm-default.conf.body"
def banPageHtml := "megoopm-ban.html"
def maintenanceHtml := "megoopm-maintenance.html"
def errorsConf := "megoopm-errors.conf.inc"

/-- File name of one location's own document. -/
def locationHtml (locationId : Option Id) : String :=
  "megoopm-location-" ++ (match locationId with | some i => toString i | none => "None") ++ ".html"

/-- File name of one status code's document. -/
def errorHtml (code : Int) : String :=
  "megoopm-error-" ++ toString code ++ ".html"

def htpasswdFilename (accessListId : Id) : String :=
  "megoopm-access-" ++ toString accessListId ++ ".htpasswd"

theorem htpasswdFilename_eq (i : Id) :
    htpasswdFilename i = "megoopm-access-" ++ toString i ++ ".htpasswd" := rfl

/-- Absolute path an `auth_basic_user_file` directive references. -/
def htpasswdPath (cfg : Deployment) (accessListId : Id) : String :=
  cfg.nginxConfdDir ++ "/" ++ htpasswdFilename accessListId

/-- The nginx `upstream` identifier for a pool id. -/
def poolName (upstreamId : Id) : String :=
  "megoopm_upstream_" ++ toString upstreamId

theorem poolName_eq (i : Id) : poolName i = "megoopm_upstream_" ++ toString i := rfl

/-! ### Shared pieces -/

/-- How `str()` prints an optional value. -/
def optionText {α : Type} [ToString α] : Option α → String
  | some a => toString a
  | none => "None"

/-- Consecutive comment lines. -/
def notes (lead : String) (lines : List String) : List Node :=
  lines.map (.comment lead)

/-- Nodes that are emitted only under a condition. -/
def when (c : Bool) (nodes : List Node) : List Node :=
  if c then nodes else []

/-- The line every managed file opens with. -/
def managedHeader : Node :=
  .comment "" "Managed by MegooPM — do not edit by hand."

def liveLog (key : String) (bounces : Bool) : List Node :=
  [.comment "\n\n    "
      "Live logs: lines go to the loopback relay and are stored nowhere (docs/live-logs.md).",
    .directive "\n    " ["set", "$mgm_key", key],
    .directive "\n    " ["set", "$mgm_cs", "\"\""]] ++
  when bounces
    (notes "\n    " [
      "Server-wide, not just this variable: the bouncer ends a denied request",
      "before the line above runs, and the warning would be logged for each one."] ++
    [.directive "\n    " ["uninitialized_variable_warn", "off"]]) ++
  [.directive "\n    " ["include", "/etc/nginx/logging-error-targets.conf"],
    .directive "\n    " ["error_log",
      "syslog:server=127.0.0.1:5140,tag=mgm_" ++ key ++ ",nohostname", "info"]]

def liveStreamLog (key : String) : List Node :=
  [.comment "\n\n    "
      "Live logs: lines go to the loopback relay and are stored nowhere (docs/live-logs.md).",
    .comment "\n    " "A stream line is written when the connection closes.",
    .directive "\n    " ["set", "$mgm_key", key],
    .directive "\n    " ["error_log", "/usr/local/openresty/nginx/logs/error.log", "warn"],
    .directive "\n    " ["error_log",
      "syslog:server=127.0.0.1:5140,tag=mgm_" ++ key ++ ",nohostname", "info"]]

def crowdsecServerRewrite (key : String) : List Node :=
  [.verbatim "\n    " ("server_rewrite_by_lua_block \x7b require(\"megoopm_crowdsec_check\").check(\""
    ++ key ++ "\") \x7d")]

/-- The include of the error pages, first in every managed server block. -/
def brandedErrors (cfg : Deployment) : List Node :=
  notes "\n    " [
    "Branded error pages for the statuses nginx itself produces. A status",
    "the backend returns is untouched: there is no proxy_intercept_errors."] ++
  [.directive "\n    " ["include", cfg.nginxDefaultDir ++ "/" ++ errorsConf]]

/-- `security()` of `server.conf.j2` and `redirect.conf.j2`. -/
def security (blockExploits : Bool) : List Node :=
  let refuse := [Node.directive " " ["return", "403"]]
  when blockExploits [
    .comment "\n    " "Block common exploit probes.",
    .block "\n    " ["if", "($request_uri", "~*", "\"(<|%3C).*script.*(>|%3E)\")"] refuse " ",
    .block "\n    " ["if", "($request_uri", "~*", "\"(\\.\\./|\\.\\.%2f)\")"] refuse " ",
    .block "\n    " ["if", "($query_string", "~*", "\"union.*select.*\\(\")"] refuse " "]

/-- `hsts()` of the three host templates. -/
def hsts (enabled subdomains : Bool) : List Node :=
  when enabled [.directive "\n    " ["add_header", "Strict-Transport-Security",
    "\"max-age=63072000" ++ (if subdomains then "; includeSubDomains" else "") ++ "\"", "always"]]

/-- `acme_challenge()` of `redirect.conf.j2` and `dead.conf.j2`. -/
def acmeChallenge (cfg : Deployment) : List Node :=
  [.comment "\n\n    " "ACME HTTP-01 challenge webroot (Let's Encrypt issuance/renewal, MEG-19).",
    .block "\n    " ["location", "^~", "/.well-known/acme-challenge/"] [
      .directive "\n        " ["default_type", "\"text/plain\""],
      .directive "\n        " ["alias", cfg.acmeHttpChallengeDir ++ "/"]] "\n    "]

/-- The answer of a :80 server whose host forces HTTPS. -/
def httpsRedirect : Node :=
  .block "\n\n    " ["location", "/"] [
    .directive "\n        " ["return", "301", "https://$host$request_uri"]] "\n    "

def advanced (advancedConfig : String) : List Node :=
  when (advancedConfig ≠ "") [.verbatim "\n\n    " (indent4 advancedConfig)]

/-- The paths of a certificate. -/
def certificateDirectives (lead : String) (c : CertificateSpec) : List Node :=
  [.directive lead ["ssl_certificate", c.fullchainPath],
    .directive "\n    " ["ssl_certificate_key", c.privkeyPath]]

/-- What makes a renewal a change of the rendered text, in front of the paths. -/
def certMaterial (c : CertificateSpec) : List Node :=
  .comment "\n\n    " "Renewal rewrites the files below in place, so without this line the" ::
  notes "\n    " [
    "rendered config would be unchanged and no node would reload onto the new",
    "certificate. See CertificateSpec.fingerprint."] ++
  [.comment "\n    " ("cert-material " ++ toString c.id ++ ":" ++ c.fingerprint)]

/-- The arguments of `server_name`. A host without names leaves the blank before them. -/
def serverArguments (names : List String) : List String :=
  if names = [] then [""] else names

def serverNames (names : List String) : Node :=
  .directive "\n    " ("server_name" :: serverArguments names)

/-! ### `upstream.conf.j2` -/

/-- The directive of a load-balancing method (`_LB_DIRECTIVES`). -/
def lbDirective : LoadBalanceMethod → List Node
  | .roundRobin => []
  | .leastConn => [.directive "\n    " ["least_conn"]]
  | .ipHash => [.directive "\n    " ["ip_hash"]]
  | .hash => [.directive "\n    " ["hash", "$remote_addr", "consistent"]]
  | .random => [.directive "\n    " ["random"]]

/-- The words of one `server` line. -/
def backendWords (b : BackendSpec) : List String :=
  ["server", b.host ++ ":" ++ toString b.port, "weight=" ++ toString b.weight,
    "max_fails=" ++ toString b.maxFails, "fail_timeout=" ++ toString b.failTimeoutSeconds ++ "s"] ++
  (if b.backup then ["backup"] else []) ++ (if b.down then ["down"] else [])

def upstreamConf (u : UpstreamSpec) : List Node :=
  [managedHeader,
    .comment "\n" ("upstream pool: " ++ u.name ++ " (id=" ++ toString u.id ++ ")"),
    .block "\n" ["upstream", poolName u.id]
      (lbDirective u.lbMethod ++ u.backends.map fun b => .directive "\n    " (backendWords b)) "\n"]

/-! ### `server.conf.j2` -/

/-- The `proxy_pass` destination: a pool name, or a literal `host:port`. -/
def targetOf (upstreamId : Option Id) (forwardHost : Option String) (forwardPort : Option Nat) :
    String :=
  match upstreamId with
  | some i => poolName i
  | none => optionText forwardHost ++ ":" ++ optionText forwardPort

def hostTarget (h : ProxyHostSpec) : String :=
  targetOf h.upstreamId h.forwardHost h.forwardPort

/-- Targets that proxy onward; the rest are answered by nginx itself. -/
def LocationTarget.proxies : LocationTarget → Bool
  | .pool | .host => true
  | _ => false

/-- `location_targets`: keyed by path, so of two locations with one path the later
decides for both. -/
def locationTargets (h : ProxyHostSpec) : Dict String String :=
  Dict.ofPairs <| (h.locations.filter (·.target.proxies)).map fun l =>
    (l.path, targetOf l.upstreamId l.forwardHost l.forwardPort)

def maintenanceGuard (h : ProxyHostSpec) : List Node :=
  when h.maintenanceEnabled
    (notes "\n        " [
      "Under maintenance: everyone outside the bypass list gets the page. The",
      "guard lives in each location because a server-level `if` runs in the",
      "rewrite phase, where a `return` bypasses error_page entirely and nginx",
      "serves its own body instead of ours."] ++
    [.block "\n        " ["if", "($mgm_maint_" ++ toString h.id ++ ")"]
      [.directive " " ["return", "503"]] " "])

def forwardedHeaders : List Node :=
  [.directive "\n        " ["proxy_set_header", "X-Real-IP", "$remote_addr"],
    .directive "\n        " ["proxy_set_header", "X-Forwarded-For", "$proxy_add_x_forwarded_for"],
    .directive "\n        " ["proxy_set_header", "X-Forwarded-Proto", "$scheme"]]

/-- Whether the access list of a host asks for a password. -/
def ProxyHostSpec.hasAuth (h : ProxyHostSpec) : Bool :=
  match h.accessList with
  | some a => !a.authUsers.isEmpty
  | none => false

def proxyBlock (h : ProxyHostSpec) (path : List String) (scheme : HttpScheme) (target : String) :
    Node :=
  .block "\n    " ("location" :: path)
    (maintenanceGuard h ++
    [.directive "\n        " ["proxy_pass", scheme.value ++ "://" ++ target],
      .directive "\n        " ["proxy_set_header", "Host", "$host"]] ++
    forwardedHeaders ++
    [.directive "\n        " ["proxy_http_version", "1.1"]] ++
    when h.allowWebsocketUpgrade [
      .directive "\n        " ["proxy_set_header", "Upgrade", "$http_upgrade"],
      .directive "\n        " ["proxy_set_header", "Connection", "$connection_upgrade"]] ++
    when (h.hasAuth && !(h.accessList.elim false (·.passAuth))) [
      .comment "\n        "
        "Access list consumes the basic-auth header; do not forward it upstream.",
      .directive "\n        " ["proxy_set_header", "Authorization", "\"\""]])
    "\n    "

def answeredBlock (cfg : Deployment) (h : ProxyHostSpec) (l : LocationSpec) : Node :=
  .block "\n    " ["location", "^~", l.path]
    (maintenanceGuard h ++
    match l.target with
    | .customPage => [
        .comment "\n        "
          "This location's own document, so two paths can serve different pages.",
        .directive "\n        " ["root", cfg.nginxDefaultDir],
        .directive "\n        " ["try_files", "/" ++ locationHtml l.id, "=404"]]
    | .errorPage =>
        notes "\n        " [
          "The server block maps every branded status to its document, so the",
          "bare status is enough: nginx turns it into whatever Settings ->",
          "Error pages says for this code, and the visitor gets the real status."] ++
        [.directive "\n        " ["return", optionText l.errorCode]]
    | _ =>
        notes "\n        " [
          "Whatever Settings -> Default site says, rendered once and included",
          "here: change the setting and every path using it follows."] ++
        [.directive "\n        " ["include", cfg.nginxDefaultDir ++ "/" ++ defaultSiteBody]])
    "\n    "

/-- One extra route. The lookup cannot miss: the location itself put its path in. -/
def extraRoute (cfg : Deployment) (h : ProxyHostSpec) (l : LocationSpec) : List Node :=
  [.comment "\n\n    " "Extra route: ^~ makes the longest prefix win over the cache-assets regex.",
    if l.target.proxies then
      proxyBlock h ["^~", l.path] l.forwardScheme (((locationTargets h)[l.path]?).getD "")
    else answeredBlock cfg h l]

def cachedAssets (h : ProxyHostSpec) : Node :=
  .block "\n\n    " ["location", "~*", "\\.(?:jpg|jpeg|gif|png|ico|css|js|woff2?|svg)$"]
    (maintenanceGuard h ++
    [.directive "\n        " ["proxy_pass", h.forwardScheme.value ++ "://" ++ hostTarget h],
      .directive "\n        " ["proxy_set_header", "Host", "$host"]] ++
    notes "\n        " [
      "The same client identity every other location forwards: an asset",
      "request must not reach the backend looking like it came from here."] ++
    forwardedHeaders ++
    [.directive "\n        " ["expires", "1d"],
      .directive "\n        " ["add_header", "Cache-Control", "\"public\""]])
    "\n    "

def proxyLocation (cfg : Deployment) (h : ProxyHostSpec) : List Node :=
  [proxyBlock h ["/"] h.forwardScheme (hostTarget h)] ++
  h.locations.flatMap (extraRoute cfg h) ++
  when h.cachingEnabled [cachedAssets h]

/-- `crowdsec(phase)`: in the server-rewrite phase where the server only redirects. -/
def proxyCrowdsec (h : ProxyHostSpec) (serverRewrite : Bool) : List Node :=
  when h.crowdsecEnabled
    (notes "\n    " [
      "CrowdSec bouncer (MEG-22): banned IPs are refused before the request",
      "reaches the upstream. A server that only redirects to HTTPS answers with",
      "`return`, which runs before the access phase, so it uses server_rewrite.",
      "AppSec/WAF, when the engine is configured, is currently GLOBAL (applies to",
      "every crowdsec-enabled host), so $megoopm_crowdsec_appsec is a reserved",
      "marker the handler does not yet gate on — see docs/crowdsec.md (MEG-32 / D3)."] ++
    [.directive "\n    " ["set", "$megoopm_crowdsec_appsec",
      if h.crowdsecAppsecEnabled then "on" else "off"]] ++
    if serverRewrite then crowdsecServerRewrite ("p" ++ toString h.id)
    else [.directive "\n    " ["access_by_lua_file", "/etc/nginx/lua/megoopm_crowdsec.lua"]])

def accessControl (cfg : Deployment) (h : ProxyHostSpec) : List Node :=
  match h.accessList with
  | none => []
  | some a =>
    let auth := !a.authUsers.isEmpty
    [.comment "\n    " ("Access list \"" ++ a.name ++ "\" (MEG-21).")] ++
    when auth [
      .directive "\n    " ["auth_basic", "\"" ++ a.name ++ "\""],
      .directive "\n    " ["auth_basic_user_file", htpasswdPath cfg a.id]] ++
    a.clientRules.map (fun r => .directive "\n    " [r.directive.value, r.address]) ++
    when (auth && !a.clientRules.isEmpty) [
      .comment "\n    " "Pass if EITHER gate is satisfied (any) or require BOTH (all).",
      .directive "\n    " ["satisfy", if a.satisfyAny then "any" else "all"]]

def maintenancePage (cfg : Deployment) (h : ProxyHostSpec) (maintenance : Option MaintenanceSpec) :
    List Node :=
  let seconds := (maintenance.elim 60 (·.retryAfterMinutes)) * 60
  when h.maintenanceEnabled
    (notes "\n    " [
      "BEFORE the errors include: at one configuration level the FIRST error_page",
      "for a status wins, so reversing these two serves the branded 503 and",
      "maintenance silently does nothing."] ++
    [.directive "\n    " ["error_page", "503", "/" ++ maintenanceHtml],
      .block "\n\n    " ["location", "=", "/" ++ maintenanceHtml] [
        .directive "\n        " ["root", cfg.nginxDefaultDir],
        .directive "\n        " ["internal"],
        .directive "\n        " ["add_header", "Retry-After", toString seconds, "always"]]
        "\n    "])

/-- `acme_challenge()` of `server.conf.j2`. -/
def proxyAcmeChallenge (cfg : Deployment) (h : ProxyHostSpec) : List Node :=
  [.comment "\n\n    " "ACME HTTP-01 challenge webroot (Let's Encrypt issuance/renewal, MEG-19)."] ++
  notes "\n    " [
    "Kept ahead of any HTTPS redirect so validation succeeds on ssl-forced",
    "hosts; `alias` maps the token URL straight onto the shared challenge dir."] ++
  [.block "\n    " ["location", "^~", "/.well-known/acme-challenge/"]
    ([.directive "\n        " ["default_type", "\"text/plain\""],
      .directive "\n        " ["alias", cfg.acmeHttpChallengeDir ++ "/"]] ++
    when h.accessList.isSome [
      .comment "\n        "
        "Challenge must stay reachable even when the host is access-controlled.",
      .directive "\n        " ["auth_basic", "off"],
      .directive "\n        " ["allow", "all"]])
    "\n    "]

/-- The bypass list of a host under maintenance. -/
def maintenanceGeo (h : ProxyHostSpec) : List Node :=
  when h.maintenanceEnabled
    [.comment "\n\n"
        "Which addresses skip maintenance for this host. 0 lets the address through.",
      .comment "\n" "`geo` is an http-context directive and this file is included from http\x7b\x7d.",
      .block "\n" ["geo", "$mgm_maint_" ++ toString h.id]
        (.directive "\n    " ["default", "1"] ::
          h.maintenanceAllow.map fun entry => .directive "\n    " [entry, "0"]) "\n"]

/-- The :443 server of a proxy host up to the certificate. -/
def proxyTlsHead (cfg : Deployment) (h : ProxyHostSpec) (maintenance : Option MaintenanceSpec) :
    List Node :=
  maintenancePage cfg h maintenance ++ brandedErrors cfg ++
  [.directive "\n    " ["listen", "443", "ssl"]] ++
  when h.http2Support [.directive "\n    " ["http2", "on"]] ++
  [serverNames h.domainNames] ++ liveLog ("p" ++ toString h.id) false

/-- The rest of the :443 server. -/
def proxyTlsTail (cfg : Deployment) (h : ProxyHostSpec) : List Node :=
  hsts h.hstsEnabled h.hstsSubdomains ++ proxyCrowdsec h false ++ accessControl cfg h ++
  security h.blockExploits ++ proxyLocation cfg h ++ advanced h.advancedConfig

/-- The :80 server of a proxy host that has a certificate. -/
def proxyPlainServer (cfg : Deployment) (h : ProxyHostSpec)
    (maintenance : Option MaintenanceSpec) : List Node :=
  maintenancePage cfg h maintenance ++ brandedErrors cfg ++
  [.directive "\n    " ["listen", "80"], serverNames h.domainNames] ++
  liveLog ("p" ++ toString h.id) (h.crowdsecEnabled && h.sslForced) ++
  proxyCrowdsec h h.sslForced ++ proxyAcmeChallenge cfg h ++
  if h.sslForced then [httpsRedirect]
  else accessControl cfg h ++ security h.blockExploits ++ proxyLocation cfg h

/-- The only server of a proxy host without a certificate. -/
def proxyOnlyServer (cfg : Deployment) (h : ProxyHostSpec)
    (maintenance : Option MaintenanceSpec) : List Node :=
  maintenancePage cfg h maintenance ++ brandedErrors cfg ++
  [.directive "\n    " ["listen", "80"], serverNames h.domainNames] ++
  liveLog ("p" ++ toString h.id) false ++ proxyCrowdsec h false ++ proxyAcmeChallenge cfg h ++
  accessControl cfg h ++ security h.blockExploits ++ proxyLocation cfg h ++
  advanced h.advancedConfig

def proxyHostConf (cfg : Deployment) (h : ProxyHostSpec) (maintenance : Option MaintenanceSpec) :
    List Node :=
  [managedHeader, .comment "\n" ("proxy host id=" ++ toString h.id)] ++ maintenanceGeo h ++
  match h.certificate with
  | some c => [
      .block "\n" ["server"] (proxyPlainServer cfg h maintenance) "\n",
      .block "\n\n" ["server"] (proxyTlsHead cfg h maintenance ++ certMaterial c ++
        certificateDirectives "\n    " c ++ proxyTlsTail cfg h) "\n"]
  | none => [.block "\n" ["server"] (proxyOnlyServer cfg h maintenance) "\n"]

/-! ### `redirect.conf.j2` -/

/-- `crowdsec()` of `redirect.conf.j2` and `dead.conf.j2`. -/
def bouncerCrowdsec (enabled : Bool) (key : String) : List Node :=
  when enabled
    (notes "\n    " [
      "CrowdSec bouncer, in the server-rewrite phase: this server answers with",
      "`return`, which runs before the access phase proxy hosts use."] ++
    crowdsecServerRewrite key)

/-- The start of every server block of a redirection or dead host. -/
def bouncerHead (cfg : Deployment) (listen : List Node) (names : List String) (key : String)
    (crowdsec : Bool) : List Node :=
  brandedErrors cfg ++ listen ++ [serverNames names] ++ liveLog key crowdsec ++
  bouncerCrowdsec crowdsec key

def listenTls (http2 : Bool) : List Node :=
  .directive "\n    " ["listen", "443", "ssl"] ::
  when http2 [.directive "\n    " ["http2", "on"]]

def redirectLocation (h : RedirectionHostSpec) : Node :=
  let scheme := if h.forwardScheme = .auto then "$scheme" else h.forwardScheme.value
  .block "\n\n    " ["location", "/"] [
    .directive "\n        " ["return", toString h.forwardHttpCode,
      scheme ++ "://" ++ h.forwardDomainName ++ (if h.preservePath then "$request_uri" else "")]]
    "\n    "

def redirectionHostConf (cfg : Deployment) (h : RedirectionHostSpec) : List Node :=
  let key := "r" ++ toString h.id
  let plain := [Node.directive "\n    " ["listen", "80"]]
  [managedHeader, .comment "\n" ("redirection host id=" ++ toString h.id)] ++
  match h.certificate with
  | some c => [
      .block "\n" ["server"]
        (bouncerHead cfg plain h.domainNames key h.crowdsecEnabled ++ acmeChallenge cfg ++
        if h.sslForced then [httpsRedirect]
        else security h.blockExploits ++ [redirectLocation h]) "\n",
      .block "\n\n" ["server"]
        (bouncerHead cfg (listenTls h.http2Support) h.domainNames key h.crowdsecEnabled ++
        certificateDirectives "\n\n    " c ++ hsts h.hstsEnabled h.hstsSubdomains ++
        security h.blockExploits ++ [redirectLocation h] ++ advanced h.advancedConfig) "\n"]
  | none => [
      .block "\n" ["server"]
        (bouncerHead cfg plain h.domainNames key h.crowdsecEnabled ++ acmeChallenge cfg ++
        security h.blockExploits ++ [redirectLocation h] ++ advanced h.advancedConfig) "\n"]

/-! ### `dead.conf.j2` -/

def deadLocation : Node :=
  .block "\n\n    " ["location", "/"] [.directive "\n        " ["return", "404"]] "\n    "

def deadHostConf (cfg : Deployment) (h : DeadHostSpec) : List Node :=
  let key := "d" ++ toString h.id
  let plain := [Node.directive "\n    " ["listen", "80"]]
  [managedHeader, .comment "\n" ("dead host id=" ++ toString h.id)] ++
  match h.certificate with
  | some c => [
      .block "\n" ["server"]
        (bouncerHead cfg plain h.domainNames key h.crowdsecEnabled ++ acmeChallenge cfg ++
        [if h.sslForced then httpsRedirect else deadLocation]) "\n",
      .block "\n\n" ["server"]
        (bouncerHead cfg (listenTls h.http2Support) h.domainNames key h.crowdsecEnabled ++
        certificateDirectives "\n\n    " c ++ hsts h.hstsEnabled h.hstsSubdomains ++
        [deadLocation] ++ advanced h.advancedConfig) "\n"]
  | none => [
      .block "\n" ["server"]
        (bouncerHead cfg plain h.domainNames key h.crowdsecEnabled ++ acmeChallenge cfg ++
        [deadLocation] ++ advanced h.advancedConfig) "\n"]

/-! ### `default_tls.conf.j2` -/

def defaultTlsHead (cfg : Deployment) (names : List String) : List Node :=
  brandedErrors cfg ++
  [.directive "\n    " ["listen", "443", "ssl"], serverNames names] ++ liveLog "u" true ++
  [.comment "\n\n    " "CrowdSec bouncer, always on: unclaimed names on a certificate draw"] ++
  notes "\n    " [
    "scanners, and there is no host to opt out. Server-rewrite phase, like",
    "every server that answers with `return`."] ++
  [.directive "\n    " ["server_rewrite_by_lua_file", "/etc/nginx/lua/megoopm_crowdsec.lua"],
    .comment "\n\n    " "Without this a request matching no location falls through to OpenResty's",
    .comment "\n    " "compiled-in root and is served its welcome page.",
    .directive "\n    " ["root", "/var/empty/megoopm"]]

def defaultTlsTail (cfg : Deployment) : List Node :=
  [.comment "\n\n    " "The default site the operator chose in Settings, written by the same"] ++
  notes "\n    " [
    "feature that serves it on :80 — a bare `location /`, so the mode matrix",
    "is not duplicated here. Absent when no default site is configured, in",
    "which case no location matches and nginx answers 404."] ++
  [.directive "\n    " ["include", cfg.nginxDefaultDir ++ "/*.conf"]]

def defaultTlsConf (cfg : Deployment) (spec : DefaultTlsSpec) : List Node :=
  [managedHeader,
    .block "\n" ["server"]
      (defaultTlsHead cfg spec.serverNames ++ certMaterial spec.certificate ++
      certificateDirectives "\n    " spec.certificate ++ defaultTlsTail cfg) "\n"]

/-! ### `stream.conf.j2` -/

/-- The pool a stream names. `{% if stream.upstream_id %}` reads an id of `0` as
absent. -/
def streamPool (s : StreamSpec) : Option Id :=
  s.upstreamId.filter (· ≠ 0)

def streamConf (s : StreamSpec) : List Node :=
  let literal := optionText s.forwardHost ++ ":" ++ optionText s.forwardPort
  let port := toString s.incomingPort
  [managedHeader,
    .comment "\n" ("stream id=" ++ toString s.id ++ " — " ++ port ++ " -> " ++
      (match streamPool s with | some i => "pool " ++ poolName i | none => literal)),
    .block "\n" ["server"]
      (when s.tcpForwarding [.directive "\n    "
        (["listen", port] ++ if s.certificate.isSome then ["ssl"] else [])] ++
      when s.udpForwarding [.directive "\n    " ["listen", port, "udp"]] ++
      liveStreamLog ("s" ++ toString s.id) ++
      (match s.certificate with | some c => certificateDirectives "\n\n    " c | none => []) ++
      [.directive "\n    " ["proxy_pass",
        match streamPool s with | some i => poolName i | none => literal]]) "\n"]

/-! ### `default_site.conf.j2` and `errors.conf.inc.j2` -/

def defaultSiteRules (cfg : Deployment) (site : DefaultSiteSpec) : List Node :=
  match site.mode with
  | .notFound => [.directive "\n    " ["return", "404"]]
  | .noResponse => [.directive "\n    " ["return", "444"]]
  | .redirect =>
    notes "\n    " [
      "Quoted as defence in depth; the API already rejects any target containing",
      "a quote, backslash, ';' or '$' (see schemas/instance_settings.py)."] ++
    [.directive "\n    " ["return", "301", "\"" ++ site.redirectUrl ++ "\""]]
  | .congratulations | .customPage => [
      .comment "\n    " "try_files with an absolute path serves this one document for every URI.",
      .directive "\n    " ["root", cfg.nginxDefaultDir],
      .directive "\n    " ["try_files", "/megoopm-default.html", "=404"]]

def defaultSiteTemplate (cfg : Deployment) (site : DefaultSiteSpec) (bodyOnly : Bool) : List Node :=
  [managedHeader, .comment "\n" ("default site mode=" ++ site.mode.value)] ++
  if bodyOnly then defaultSiteRules cfg site
  else [.block "\n\n" ["location", "/"] (defaultSiteRules cfg site) "\n"]

/-- The comment that opens this template is not trimmed, so its line end stays. -/
def errorsTemplate (cfg : Deployment) (codes : List Int) : List Node :=
  .comment "\n" "Managed by MegooPM — do not edit by hand." ::
  codes.flatMap fun code => [
    .directive "\n" ["error_page", toString code, "/" ++ errorHtml code],
    .block "\n" ["location", "=", "/" ++ errorHtml code] [
      .directive "\n    " ["root", cfg.nginxDefaultDir],
      .directive "\n    " ["internal"]] "\n"]

end MegooPM
