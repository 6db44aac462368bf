import MegooPM.Data.Tables
import MegooPM.Lib.Dict

/-!
# Desired state

The value objects between the database and the config generator
(`services/nginx/state.py`). A mode or method the source keeps as one of an
enumeration's values is the enumeration here.
-/
namespace MegooPM

/-- A single `server` line inside an `upstream` block. -/
structure BackendSpec where
  host : String
  port : Nat
  weight : Nat := 1
  maxFails : Nat := 1
  failTimeoutSeconds : Nat := 10
  backup : Bool := false
  down : Bool := false
  deriving DecidableEq, Repr

/-- A load-balanced pool rendered as an `upstream` block. -/
structure UpstreamSpec where
  id : Id
  name : String
  lbMethod : LoadBalanceMethod := .roundRobin
  backends : List BackendSpec := []
  deriving DecidableEq, Repr

/-- What a server block needs of a certificate. `fingerprint` identifies the
material currently at the two paths. -/
structure CertificateSpec where
  id : Id
  fullchainPath : String
  privkeyPath : String
  fingerprint : String := ""
  deriving DecidableEq, Repr

structure AuthUserSpec where
  username : String
  passwordHash : String
  deriving DecidableEq, Repr

structure ClientRuleSpec where
  directive : AccessListDirective
  address : String
  deriving DecidableEq, Repr

structure AccessListSpec where
  id : Id
  name : String
  satisfyAny : Bool := false
  passAuth : Bool := false
  authUsers : List AuthUserSpec := []
  clientRules : List ClientRuleSpec := []
  deriving DecidableEq, Repr

/-- An extra `location ^~ <path>` route of a proxy host. -/
structure LocationSpec where
  path : String
  target : LocationTarget := .pool
  upstreamId : Option Id := none
  forwardHost : Option String := none
  forwardPort : Option Nat := none
  forwardScheme : HttpScheme := .http
  id : Option Id := none
  html : String := ""
  errorCode : Option Int := none
  deriving DecidableEq, Repr

/-- A reverse-proxy vhost. -/
structure ProxyHostSpec where
  id : Id
  domainNames : List String
  upstreamId : Option Id := none
  forwardHost : Option String := none
  forwardPort : Option Nat := none
  forwardScheme : HttpScheme := .http
  certificate : Option CertificateSpec := none
  accessList : Option AccessListSpec := none
  sslForced : Bool := false
  http2Support : Bool := false
  hstsEnabled : Bool := false
  hstsSubdomains : Bool := false
  cachingEnabled : Bool := false
  blockExploits : Bool := false
  allowWebsocketUpgrade : Bool := false
  crowdsecEnabled : Bool := false
  crowdsecAppsecEnabled : Bool := false
  maintenanceEnabled : Bool := false
  maintenanceAllow : List String := []
  advancedConfig : String := ""
  locations : List LocationSpec := []
  deriving DecidableEq, Repr

/-- A redirect-only vhost. -/
structure RedirectionHostSpec where
  id : Id
  domainNames : List String
  forwardDomainName : String
  forwardHttpCode : Nat := 302
  forwardScheme : RedirectScheme := .auto
  preservePath : Bool := true
  certificate : Option CertificateSpec := none
  sslForced : Bool := false
  http2Support : Bool := false
  hstsEnabled : Bool := false
  hstsSubdomains : Bool := false
  blockExploits : Bool := false
  crowdsecEnabled : Bool := true
  advancedConfig : String := ""
  deriving DecidableEq, Repr

/-- A parked vhost that always answers 404. -/
structure DeadHostSpec where
  id : Id
  domainNames : List String
  certificate : Option CertificateSpec := none
  sslForced : Bool := false
  http2Support : Bool := false
  hstsEnabled : Bool := false
  hstsSubdomains : Bool := false
  crowdsecEnabled : Bool := true
  advancedConfig : String := ""
  deriving DecidableEq, Repr

/-- A raw TCP/UDP forward of the top-level `stream` context. -/
structure StreamSpec where
  id : Id
  incomingPort : Nat
  forwardHost : Option String := none
  forwardPort : Option Nat := none
  upstreamId : Option Id := none
  tcpForwarding : Bool := true
  udpForwarding : Bool := false
  certificate : Option CertificateSpec := none
  deriving DecidableEq, Repr

structure DefaultSiteSpec where
  mode : DefaultSiteMode
  redirectUrl : String := ""
  html : String := ""
  deriving DecidableEq, Repr

/-- What one status code is answered with; an empty document means the shipped one. -/
structure ErrorPageSpec where
  code : Int
  html : String := ""
  deriving DecidableEq, Repr

structure MaintenanceSpec where
  mode : MaintenancePageMode
  html : String := ""
  retryAfterMinutes : Int := 60
  deriving DecidableEq, Repr

structure BanPageSpec where
  mode : CrowdSecBanMode
  html : String := ""
  deriving DecidableEq, Repr

/-- The default site served over TLS for names one certificate covers. -/
structure DefaultTlsSpec where
  certificate : CertificateSpec
  serverNames : List String
  deriving DecidableEq, Repr

/-- The complete set of managed objects a render pass should emit. -/
structure DesiredState where
  proxyHosts : List ProxyHostSpec := []
  httpUpstreams : List UpstreamSpec := []
  streamUpstreams : List UpstreamSpec := []
  redirectionHosts : List RedirectionHostSpec := []
  deadHosts : List DeadHostSpec := []
  streams : List StreamSpec := []
  defaultSite : Option DefaultSiteSpec := none
  defaultTls : List DefaultTlsSpec := []
  banPage : Option BanPageSpec := none
  maintenance : Option MaintenanceSpec := none
  errorPages : List ErrorPageSpec := []
  deriving DecidableEq, Repr

/-- What a deployment fixes: the directories of `core/config.py`, the shipped HTML
documents, and the digest the fingerprint of a certificate is made with (the
first sixteen hex digits of SHA-256). -/
structure Deployment where
  nginxConfdDir : String
  nginxDefaultDir : String
  nginxCertsDir : String
  acmeHttpChallengeDir : String
  congratulationsHtml : String
  bannedHtml : String
  maintenanceHtml : String
  /-- `error.html.j2` for a code, its heading and its sentence. -/
  errorHtml : Int → String → String → String
  digest : String → String

end MegooPM
