import MegooPM.Nginx.Templates

/-!
# Renderer

`services/nginx/renderer.py`: a `DesiredState` turned into the files of the three
managed directories. Each function first lists its assignments `files[name] = body`
in the source's order; the dictionary they build is then printed.
-/
namespace MegooPM

open Lib

/-- Files by name. -/
abbrev Files := Dict String String

/-- Files by name, not printed yet. -/
abbrev Bodies := Dict String FileBody

def Bodies.text (bodies : Bodies) : Files :=
  bodies.map fun _ body => body.text

/-- `_stream_directives`: a pool the stream module cannot balance. -/
structure ValueError where
  poolName : String
  lbMethod : LoadBalanceMethod
  deriving DecidableEq, Repr

/-! ### conf.d -/

def upstreamFilename (id : Id) : String := "megoopm-upstream-" ++ toString id ++ ".conf"
def proxyFilename (id : Id) : String := "megoopm-proxy-" ++ toString id ++ ".conf"
def redirectFilename (id : Id) : String := "megoopm-redirect-" ++ toString id ++ ".conf"
def deadFilename (id : Id) : String := "megoopm-dead-" ++ toString id ++ ".conf"
def defaultTlsFilename (id : Id) : String := "megoopm-default-tls-" ++ toString id ++ ".conf"
def streamFilename (id : Id) : String := "megoopm-stream-" ++ toString id ++ ".conf"

theorem proxyFilename_eq (id : Id) :
    proxyFilename id = "megoopm-proxy-" ++ toString id ++ ".conf" := rfl

def renderUpstream (u : UpstreamSpec) : String × FileBody :=
  (upstreamFilename u.id, .conf (upstreamConf u))

/-- An access list's basic-auth users. -/
def renderHtpasswd (a : AccessListSpec) : String :=
  String.join (a.authUsers.map fun u => u.username ++ ":" ++ u.passwordHash ++ "\n")

/-- The file of a host, and of its access list when that has basic-auth users. -/
def renderProxyHost (cfg : Deployment) (maintenance : Option MaintenanceSpec) (h : ProxyHostSpec) :
    List (String × FileBody) :=
  (proxyFilename h.id, .conf (proxyHostConf cfg h maintenance)) ::
  match h.accessList with
  | some a => if a.authUsers.isEmpty then [] else [(htpasswdFilename a.id, .plain (renderHtpasswd a))]
  | none => []

def configPairs (cfg : Deployment) (state : DesiredState) : List (String × FileBody) :=
  state.httpUpstreams.map renderUpstream ++
  state.proxyHosts.flatMap (renderProxyHost cfg state.maintenance) ++
  state.redirectionHosts.map (fun r => (redirectFilename r.id, .conf (redirectionHostConf cfg r))) ++
  state.deadHosts.map (fun d => (deadFilename d.id, .conf (deadHostConf cfg d))) ++
  state.defaultTls.map (fun t => (defaultTlsFilename t.certificate.id, .conf (defaultTlsConf cfg t)))

def configBodies (cfg : Deployment) (state : DesiredState) : Bodies :=
  Dict.ofPairs (configPairs cfg state)

def renderConfig (cfg : Deployment) (state : DesiredState) : Files :=
  (configBodies cfg state).text

/-! ### Streams -/

/-- The pool of a stream, unless it balances by `ip_hash`, which exists only in http. -/
def renderStreamUpstream (u : UpstreamSpec) : Except ValueError (String × FileBody) :=
  if u.lbMethod = .ipHash then .error ⟨u.name, u.lbMethod⟩ else .ok (renderUpstream u)

def streamPairs (state : DesiredState) : Except ValueError (List (String × FileBody)) := do
  let upstreams ← state.streamUpstreams.mapM renderStreamUpstream
  return upstreams ++ state.streams.map fun s => (streamFilename s.id, .conf (streamConf s))

def streamBodies (state : DesiredState) : Except ValueError Bodies :=
  (streamPairs state).map Dict.ofPairs

def renderStreamConfig (state : DesiredState) : Except ValueError Files :=
  (streamBodies state).map Bodies.text

/-! ### The default directory -/

/-- The status codes that have a page. -/
def errorCodes : List Int := [400, 401, 403, 404, 500, 502, 503, 504]

/-- Heading and sentence per code. -/
def errorCopy (code : Int) : String × String :=
  if code = 400 then ("Bad request", "The server couldn&rsquo;t understand that request.")
  else if code = 401 then ("Authentication required", "This area needs credentials.")
  else if code = 403 then ("Access denied", "You don&rsquo;t have permission to view this.")
  else if code = 404 then ("Not found", "There&rsquo;s nothing at this address.")
  else if code = 500 then ("Something went wrong", "The site hit an unexpected error.")
  else if code = 502 then
    ("Bad gateway", "The site behind this address didn&rsquo;t respond correctly.")
  else if code = 503 then
    ("Service unavailable", "The site is temporarily unable to handle the request.")
  else ("Gateway timeout", "The site behind this address took too long to answer.")

/-- Python's `a or b` on strings. -/
def orText (a b : String) : String :=
  if a = "" then b else a

def defaultSitePairs (cfg : Deployment) (site : Option DefaultSiteSpec) :
    List (String × FileBody) :=
  match site with
  | none => []
  | some site =>
    [(defaultSiteConf, .conf (defaultSiteTemplate cfg site false)),
      (defaultSiteBody, .conf (defaultSiteTemplate cfg site true))] ++
    match site.mode with
    | .congratulations => [(defaultSiteHtml, .plain cfg.congratulationsHtml)]
    | .customPage => [(defaultSiteHtml, .plain site.html)]
    | _ => []

/-- The documents of the custom-page locations of a host. -/
def locationPairs (h : ProxyHostSpec) : List (String × FileBody) :=
  (h.locations.filter fun l => l.target = .customPage ∧ l.id.isSome).map fun l =>
    (locationHtml l.id, .plain l.html)

/-- The document of one status code: the configured one, else the shipped one. -/
def errorDocument (cfg : Deployment) (pages : List ErrorPageSpec) (code : Int) : String :=
  let configured : Dict Int String := Dict.ofPairs (pages.map fun p => (p.code, p.html))
  orText ((configured[code]?).getD "") (cfg.errorHtml code (errorCopy code).1 (errorCopy code).2)

def errorPairs (cfg : Deployment) (pages : List ErrorPageSpec) : List (String × FileBody) :=
  errorCodes.map (fun code => (errorHtml code, .plain (errorDocument cfg pages code))) ++
  [(errorsConf, .conf (errorsTemplate cfg errorCodes))]

/-- No file where the body is empty: the bouncer guards on the file existing. -/
def banPairs (cfg : Deployment) (ban : Option BanPageSpec) : List (String × FileBody) :=
  match ban with
  | none => []
  | some ban =>
    match ban.mode with
    | .none => []
    | .megoopm => if cfg.bannedHtml = "" then [] else [(banPageHtml, .plain cfg.bannedHtml)]
    | .customPage => if ban.html = "" then [] else [(banPageHtml, .plain ban.html)]

def maintenanceDocument (cfg : Deployment) (spec : Option MaintenanceSpec) : String :=
  let body := match spec with
    | some m => if m.mode = .megoopm then "" else m.html
    | none => ""
  orText body cfg.maintenanceHtml

/-- Only when some host serves it. -/
def maintenancePairs (cfg : Deployment) (state : DesiredState) : List (String × FileBody) :=
  if state.proxyHosts.any (·.maintenanceEnabled) then
    [(maintenanceHtml, .plain (maintenanceDocument cfg state.maintenance))]
  else []

def defaultPairs (cfg : Deployment) (state : DesiredState) : List (String × FileBody) :=
  defaultSitePairs cfg state.defaultSite ++ state.proxyHosts.flatMap locationPairs ++
  errorPairs cfg state.errorPages ++ banPairs cfg state.banPage ++ maintenancePairs cfg state

def renderDefaultSite (cfg : Deployment) (state : DesiredState) : Files :=
  Bodies.text (Dict.ofPairs (defaultPairs cfg state))

/-! ### All three directories -/

/-- The directories the engine reconciles. -/
inductive DirName where
  | confd | stream | default
  deriving DecidableEq, Repr

end MegooPM
