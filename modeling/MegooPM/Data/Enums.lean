import Mathlib.Data.String.Basic

/-!
# Enumerated columns

The enumerations of `models/enums.py` that the nginx configuration depends on,
each with the value the database and the templates print for it.
-/
namespace MegooPM

/-- nginx `upstream` load-balancing strategies for a backend pool. -/
inductive LoadBalanceMethod where
  | roundRobin | leastConn | ipHash | hash | random
  deriving DecidableEq, Repr

def LoadBalanceMethod.value : LoadBalanceMethod → String
  | .roundRobin => "round_robin"
  | .leastConn => "least_conn"
  | .ipHash => "ip_hash"
  | .hash => "hash"
  | .random => "random"

/-- Which nginx context a pool may be rendered into. -/
inductive UpstreamContext where
  | http | stream | both
  deriving DecidableEq, Repr

/-- How a certificate is obtained. -/
inductive CertificateProvider where
  | letsencrypt | custom | selfSigned
  deriving DecidableEq, Repr

/-- Lifecycle state of a managed certificate. -/
inductive CertificateStatus where
  | pending | active | failed | expired
  deriving DecidableEq, Repr

/-- Scheme a proxy host uses to reach its upstream. -/
inductive HttpScheme where
  | http | https
  deriving DecidableEq, Repr

def HttpScheme.value : HttpScheme → String
  | .http => "http"
  | .https => "https"

/-- What a proxy host's `location` block answers with. -/
inductive LocationTarget where
  | pool | host | defaultSite | customPage | errorPage
  deriving DecidableEq, Repr

/-- What one HTTP status code is answered with. -/
inductive ErrorPageMode where
  | default | customPage
  deriving DecidableEq, Repr

/-- Scheme applied to a redirection target. -/
inductive RedirectScheme where
  | auto | http | https
  deriving DecidableEq, Repr

def RedirectScheme.value : RedirectScheme → String
  | .auto => "auto"
  | .http => "http"
  | .https => "https"

/-- Client-rule directive for an access list entry. -/
inductive AccessListDirective where
  | allow | deny
  deriving DecidableEq, Repr

def AccessListDirective.value : AccessListDirective → String
  | .allow => "allow"
  | .deny => "deny"

/-- What nginx returns for a request matching no configured host. -/
inductive DefaultSiteMode where
  | congratulations | notFound | noResponse | redirect | customPage
  deriving DecidableEq, Repr

def DefaultSiteMode.value : DefaultSiteMode → String
  | .congratulations => "congratulations"
  | .notFound => "not_found"
  | .noResponse => "no_response"
  | .redirect => "redirect"
  | .customPage => "custom_page"

/-- What a visitor sees while a host is under maintenance. -/
inductive MaintenancePageMode where
  | megoopm | customPage
  deriving DecidableEq, Repr

/-- What a CrowdSec-blocked visitor is served. -/
inductive CrowdSecBanMode where
  | megoopm | customPage | none
  deriving DecidableEq, Repr

end MegooPM
