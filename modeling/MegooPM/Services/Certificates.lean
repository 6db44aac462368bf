import MegooPM.Services.Session

/-!
# Certificates

`services/certs/service.py`, `issuance.py` and the tasks of `tasks/certs.py`: rows in the
database, material on the shared volume. An upload writes its material before the row is
committed. A requested certificate is a `pending` row; a task that runs later writes the
material and then records the outcome on the row it had loaded when it began.
-/
namespace MegooPM

open Lib

/-- The database and the certificate volume. -/
structure Store where
  db : Database := {}
  /-- Certificates whose directory holds a chain and a key. -/
  material : List Id := []
  /-- The last id the sequence of the certificates table has given. -/
  certificateSeq : Id := 0
  deriving DecidableEq, Repr

/-! ### Rows -/

def Database.addCertificate (db : Database) (cert : Certificate) : Database :=
  { db with certificates := db.certificates ++ [cert] }

def Database.changeCertificate (db : Database) (certId : Id) (f : Certificate → Certificate) :
    Database :=
  { db with certificates := updateAt Certificate.id certId f db.certificates }

/-- A change of other columns than the key. -/
theorem constraints_changeCertificate {db : Database} (fine : db.Constraints) (certId : Id)
    {f : Certificate → Certificate} (keeps : ∀ c, (f c).id = c.id) :
    (db.changeCertificate certId f).Constraints := by
  have id_of : ∀ c : Certificate, (if c.id = certId then f c else c).id = c.id := by
    intro c
    split
    · exact keeps c
    · rfl
  have ids : (db.changeCertificate certId f).certificates.map (·.id) =
      db.certificates.map (·.id) := by
    simp only [Database.changeCertificate, updateAt, List.map_map, Function.comp_def, id_of]
  have refs : ∀ ref : Option Id, references ref Certificate.id
      (db.changeCertificate certId f).certificates = references ref Certificate.id db.certificates := by
    intro ref
    cases ref with
    | none => rfl
    | some i =>
      simp only [references, Database.changeCertificate, updateAt, List.any_map,
        Function.comp_def, id_of]
  exact { fine with
    certificateIds := ids ▸ fine.certificateIds
    hostCertificates := fun h row => (refs _).trans (fine.hostCertificates h row)
    redirectionCertificates := fun h row => (refs _).trans (fine.redirectionCertificates h row)
    deadCertificates := fun h row => (refs _).trans (fine.deadCertificates h row)
    streamCertificates := fun t row => (refs _).trans (fine.streamCertificates t row) }

/-- A foreign key after the row it may refer to is gone (`ON DELETE SET NULL`). -/
def setNull (gone : Id) (ref : Option Id) : Option Id :=
  if ref = some gone then none else ref

def Database.dropCertificate (db : Database) (certId : Id) : Database :=
  { db with
    certificates := removeAt Certificate.id certId db.certificates
    proxyHosts := db.proxyHosts.map fun h =>
      { h with certificateId := setNull certId h.certificateId }
    redirectionHosts := db.redirectionHosts.map fun h =>
      { h with certificateId := setNull certId h.certificateId }
    deadHosts := db.deadHosts.map fun h =>
      { h with certificateId := setNull certId h.certificateId }
    streams := db.streams.map fun s =>
      { s with certificateId := setNull certId s.certificateId } }

/-! ### Creation and deletion -/

/-- What `validate_certificate` reads out of an upload. -/
structure ValidatedCertificate where
  domainNames : List String
  notValidAfter : DateTime
  deriving DecidableEq, Repr

/-- The id of the next row, which the sequence has not given before. -/
def freshId (s : Store) (id : Id) : Except ServiceError Unit :=
  if s.certificateSeq < id then .ok () else .error .integrity

theorem freshId_ok {s : Store} {id : Id} {u : Unit} (fresh : freshId s id = .ok u) :
    s.certificateSeq < id := by
  unfold freshId at fresh
  split at fresh
  next above => exact above
  next => cases fresh

/-- The row of an upload. -/
def customCertificate (id : Id) (name : String) (bundle : ValidatedCertificate)
    (uploadedAt : String) : Certificate where
  id := id
  name := name
  provider := .custom
  status := .active
  domainNames := bundle.domainNames
  expiresOn := some bundle.notValidAfter
  «meta» := { uploadedAt := some uploadedAt }

def createCustomCertificate (s : Store) (id : Id) (name : String)
    (validated : Except String ValidatedCertificate) (uploadedAt : String) :
    Except ServiceError Store := do
  let bundle ← validated.mapError ServiceError.certificateValidation
  freshId s id
  let db ← commit (s.db.addCertificate (customCertificate id name bundle uploadedAt)) true
  return { db, material := id :: s.material, certificateSeq := id }

theorem createCustomCertificate_ok {s s' : Store} {id : Id} {name : String}
    {validated : Except String ValidatedCertificate} {uploadedAt : String}
    (done : createCustomCertificate s id name validated uploadedAt = .ok s') :
    ∃ bundle, validated = .ok bundle ∧ s.certificateSeq < id ∧ s'.db.Constraints ∧
      s' = { db := s.db.addCertificate (customCertificate id name bundle uploadedAt)
             material := id :: s.material, certificateSeq := id } := by
  obtain ⟨bundle, valid, done⟩ := bind_eq_ok done
  obtain ⟨_, fresh, done⟩ := bind_eq_ok done
  obtain ⟨db, committed, done⟩ := bind_eq_ok done
  obtain ⟨rfl, fine⟩ := commit_eq_ok committed
  cases done
  exact ⟨bundle, mapError_eq_ok valid, freshId_ok fresh, fine, rfl⟩

/-- Fields of a `LetsEncryptCertificateCreate`. -/
structure LetsEncryptRequest where
  name : String
  domainNames : List String
  challenge : String := "http-01"
  accountEmail : Option String := none
  dnsCredentialId : Option Id := none
  /-- The provider of the saved credential, where there is one. -/
  savedProvider : Option String := none
  deriving DecidableEq, Repr

/-- The provider of a DNS-01 request: it needs a saved credential, and no other challenge
may carry one. -/
def LetsEncryptRequest.dnsProvider (r : LetsEncryptRequest) :
    Except ServiceError (Option String) :=
  if r.challenge = "dns-01" then
    match r.dnsCredentialId with
    | none => .error (.valueError
        "DNS-01 requires dns_credential_id (saved DNS provider credentials)")
    | some _ =>
      match r.savedProvider with
      | none => .error (.valueError "Unknown DNS credential")
      | some provider => .ok (some provider)
  else if r.dnsCredentialId.isSome then
    .error (.valueError "dns_credential_id is only valid with the dns-01 challenge")
  else .ok none

/-- The row of a requested certificate. -/
def pendingCertificate (id : Id) (r : LetsEncryptRequest) (dnsProvider : Option String) :
    Certificate where
  id := id
  name := r.name
  provider := .letsencrypt
  status := .pending
  domainNames := r.domainNames
  «meta» :=
    { challenge := some r.challenge
      accountEmail := r.accountEmail
      dnsCredentialId := r.dnsCredentialId
      dnsProvider := dnsProvider }

def LetsEncryptRequest.checkDomainNames (r : LetsEncryptRequest) : Except ServiceError Unit :=
  if r.domainNames = [] then .error (.valueError "At least one domain name is required")
  else .ok ()

def createLetsencryptCertificate (s : Store) (id : Id) (r : LetsEncryptRequest) :
    Except ServiceError Store := do
  let dnsProvider ← r.dnsProvider
  r.checkDomainNames
  freshId s id
  let db ← commit (s.db.addCertificate (pendingCertificate id r dnsProvider)) true
  return { s with db, certificateSeq := id }

theorem createLetsencryptCertificate_ok {s s' : Store} {id : Id} {r : LetsEncryptRequest}
    (done : createLetsencryptCertificate s id r = .ok s') :
    ∃ dnsProvider, s.certificateSeq < id ∧ s'.db.Constraints ∧
      s' = { s with db := s.db.addCertificate (pendingCertificate id r dnsProvider)
                    certificateSeq := id } := by
  obtain ⟨dnsProvider, _, done⟩ := bind_eq_ok done
  obtain ⟨_, _, done⟩ := bind_eq_ok done
  obtain ⟨_, fresh, done⟩ := bind_eq_ok done
  obtain ⟨db, committed, done⟩ := bind_eq_ok done
  obtain ⟨rfl, fine⟩ := commit_eq_ok committed
  cases done
  exact ⟨dnsProvider, freshId_ok fresh, fine, rfl⟩

/-- Delete a row and its material; what refers to it reverts to plain HTTP. -/
def deleteCertificate (s : Store) (certId : Id) : Except ServiceError Store := do
  let _ ← orRaise (s.db.certificate? certId) (ServiceError.notFound .certificate certId)
  let db ← commit (s.db.dropCertificate certId) true
  return { s with db, material := s.material.filter (· ≠ certId) }

theorem deleteCertificate_ok {s s' : Store} {certId : Id}
    (done : deleteCertificate s certId = .ok s') :
    s'.db.Constraints ∧ s' = { s with db := s.db.dropCertificate certId
                                      material := s.material.filter (· ≠ certId) } := by
  obtain ⟨_, _, done⟩ := bind_eq_ok done
  obtain ⟨db, committed, done⟩ := bind_eq_ok done
  obtain ⟨rfl, fine⟩ := commit_eq_ok committed
  cases done
  exact ⟨fine, rfl⟩

/-! ### Issuance -/

/-- A task that issues or renews a certificate: the row it loaded, and whether the material
has been written. -/
structure Issuing where
  loaded : Certificate
  stored : Bool := false
  deriving DecidableEq, Repr

/-- The row as a successful issuance leaves it. -/
def Issuing.issued (i : Issuing) (domainNames : List String) (notValidAfter : DateTime)
    (now : String) : Certificate :=
  { i.loaded with
    domainNames := if domainNames = [] then i.loaded.domainNames else domainNames
    expiresOn := some notValidAfter
    status := .active
    «meta» := { i.loaded.meta with lastError := none, issuedAt := some now } }

/-- The row as a failure leaves it. -/
def Issuing.failed (i : Issuing) (error now : String) : Certificate :=
  { i.loaded with
    status := .failed
    «meta» := { i.loaded.meta with lastError := some error, failedAt := some now } }

/-- A column after the flush of a row: written only if it differs from what was loaded. -/
def flushed {α : Type} [DecidableEq α] (loaded new current : α) : α :=
  if new = loaded then current else new

/-- The commit of an issuing task. The row may have changed since it was loaded. -/
def Store.record (s : Store) (loaded new : Certificate) : Store :=
  { s with
    db := s.db.changeCertificate loaded.id fun row =>
      { row with
        domainNames := flushed loaded.domainNames new.domainNames row.domainNames
        expiresOn := flushed loaded.expiresOn new.expiresOn row.expiresOn
        status := flushed loaded.status new.status row.status
        «meta» := flushed loaded.meta new.meta row.meta } }

end MegooPM
