import MegooPM.Tasks.Issuance

/-!
# Failed renewals

An attempt that fails before its material is written leaves `failed` in the row, and the
error in its `meta`. Hosts and streams take their certificate whatever its status, and the
fingerprint reads neither, so their files stay as they are. The default-TLS plan takes
active certificates only: the failed one leaves it, and with it the names it served.
-/
namespace MegooPM

open Lib

/-! ### The attempt -/

/-- One run of `_issue_async` that fails before `write_material`: the row is loaded, and one
of the two failure paths commits. -/
inductive FailedAttempt (hashApr1 : String → String) (certId : Id) : Instance → Instance → Prop
  /-- The issuer raised, inside `issue_for_certificate`. -/
  | inside {s mid s' : Instance} (row : Certificate) {error now : String}
      (found : s.store.db.certificate? certId = some row)
      (loads : InstanceStep hashApr1 s (.load certId) mid)
      (fails : InstanceStep hashApr1 mid (.failed { loaded := row } error now) s') :
      FailedAttempt hashApr1 certId s s'
  /-- Something raised before it. -/
  | early {s mid s' : Instance} (row : Certificate) {error now : String}
      (found : s.store.db.certificate? certId = some row)
      (loads : InstanceStep hashApr1 s (.load certId) mid)
      (fails : InstanceStep hashApr1 mid (.failedEarly { loaded := row } error now) s') :
      FailedAttempt hashApr1 certId s s'

/-- The row that a failure leaves. -/
def Certificate.failing (m : CertificateMeta) (c : Certificate) : Certificate :=
  { c with status := .failed, «meta» := m }

/-- The table after a failure: one row, whose fingerprint is read from the same values. -/
structure FailedRow (db db' : Database) (row : Certificate) (m : CertificateMeta) : Prop where
  stored : row ∈ db.certificates
  issuedAt : m.issuedAt = row.meta.issuedAt
  wrote : db' = db.changeCertificate row.id (·.failing m)

private theorem record_failing {db : Database} (ids : (db.certificates.map (·.id)).Nodup)
    {row : Certificate} (stored : row ∈ db.certificates) (new : Certificate)
    (names : new.domainNames = row.domainNames) (expires : new.expiresOn = row.expiresOn)
    (status : new.status = .failed) (store : Store) (content : store.db = db) :
    (store.record row new).db = db.changeCertificate row.id (·.failing new.meta) := by
  have flush : ∀ {α : Type} [DecidableEq α] (old value : α), flushed old value old = value := by
    intro α _ old value
    unfold flushed
    split
    next same => exact same.symm
    next => rfl
  have rows : updateAt Certificate.id row.id (fun c =>
      { c with
        domainNames := flushed row.domainNames new.domainNames c.domainNames
        expiresOn := flushed row.expiresOn new.expiresOn c.expiresOn
        status := flushed row.status new.status c.status
        «meta» := flushed row.meta new.meta c.meta }) db.certificates =
      updateAt Certificate.id row.id (·.failing new.meta) db.certificates := by
    apply List.map_congr_left
    intro c member
    by_cases own : c.id = row.id
    · rw [if_pos own, if_pos own, List.inj_on_of_nodup_map ids member stored own]
      simp only [flush, names, expires, status, Certificate.failing]
    · rw [if_neg own, if_neg own]
  simp only [Store.record, content, Database.changeCertificate, rows]

theorem FailedAttempt.failedRow {hashApr1 : String → String} {certId : Id} {s s' : Instance}
    (constraints : s.store.db.Constraints) (attempt : FailedAttempt hashApr1 certId s s') :
    ∃ row m, row.id = certId ∧ FailedRow s.store.db s'.store.db row m := by
  have ids := constraints.certificateIds
  cases attempt with
  | inside row found loads fails =>
    have stored := List.mem_of_find?_eq_some found
    have own : row.id = certId := by simpa using List.find?_some found
    cases loads with
    | load _ =>
      cases fails with
      | failed _ =>
        refine ⟨row, _, own, stored, ?_,
          record_failing ids stored (Issuing.failed { loaded := row } _ _) rfl rfl rfl _ rfl⟩
        rfl
  | early row found loads fails =>
    have stored := List.mem_of_find?_eq_some found
    have own : row.id = certId := by simpa using List.find?_some found
    cases loads with
    | load _ =>
      cases fails with
      | failedEarly _ _ =>
        by_cases already : row.status = .failed
        · -- the row says so already, and nothing is written
          refine ⟨row, row.meta, own, stored, rfl, ?_⟩
          simp only [already, if_true]
          exact record_failing ids stored row rfl rfl already _ rfl
        · simp only [already, if_false]
          refine ⟨row, _, own, stored, ?_,
          record_failing ids stored (Issuing.failed { loaded := row } _ _) rfl rfl rfl _ rfl⟩
          rfl

/-! ### What the loader makes of it -/

section Loader

variable {cfg : Deployment} {db db' : Database} {row : Certificate} {m : CertificateMeta}
  (ids : (db.certificates.map (·.id)).Nodup) (failure : FailedRow db db' row m)

include ids failure

/-- A reference to a certificate gives the same paths and the same fingerprint. -/
private theorem related_failed (ref : Option Id) :
    (related db'.certificate? ref).map (certificateSpec cfg) =
      (related db.certificate? ref).map (certificateSpec cfg) := by
  cases ref with
  | none => rfl
  | some j =>
    have moved : db'.certificate? j = (db.certificate? j).map fun c =>
        if c.id = row.id then c.failing m else c := by
      rw [failure.wrote]
      exact find?_updateAt (fun c : Certificate => (rfl : (c.failing m).id = c.id)) j
    simp only [related, Option.bind_some, moved, Option.map_map]
    cases found : db.certificate? j with
    | none => rfl
    | some c =>
      have member := List.mem_of_find?_eq_some found
      simp only [Option.map_some, Function.comp_apply]
      by_cases own : c.id = row.id
      · rw [if_pos own, List.inj_on_of_nodup_map ids member failure.stored own]
        simp only [certificateSpec, certificateFingerprint, Certificate.failing, failure.issuedAt]
      · rw [if_neg own]

/-- Nothing but the default-TLS plan reads the status. -/
theorem desiredHosts_failed : desiredHosts cfg db' = desiredHosts cfg db := by
  have related := @related_failed cfg db db' row m ids failure
  obtain ⟨_, _, rfl⟩ := failure
  have hosts : (includedHosts db).map
      (loadedHost cfg (db.changeCertificate row.id (·.failing m))) =
      (includedHosts db).map (loadedHost cfg db) := by
    refine List.map_congr_left fun h _ => ?_
    simp only [loadedHost, proxyHostSpec, related]
    rfl
  have redirects : loadRedirectionHosts cfg (db.changeCertificate row.id (·.failing m)) =
      loadRedirectionHosts cfg db := by
    refine List.map_congr_left fun r _ => ?_
    simp only [redirectionHostSpec, related]
  have deads : loadDeadHosts cfg (db.changeCertificate row.id (·.failing m)) =
      loadDeadHosts cfg db := by
    refine List.map_congr_left fun d _ => ?_
    simp only [deadHostSpec, related]
  have streams : (includedStreams db).map
      (streamSpec cfg (db.changeCertificate row.id (·.failing m))) =
      (includedStreams db).map (streamSpec cfg db) := by
    refine List.map_congr_left fun s _ => ?_
    simp only [streamSpec, related]
  have same : includedHosts (db.changeCertificate row.id (·.failing m)) = includedHosts db := rfl
  have sameStreams : includedStreams (db.changeCertificate row.id (·.failing m)) =
      includedStreams db := rfl
  simp only [desiredHosts, same, sameStreams, hosts, redirects, deads, streams]
  rfl

/-- The active certificates are those from before, without the failed one. -/
theorem loadCertificates_failed :
    loadCertificates db' = (loadCertificates db).filter fun c => c.id ≠ row.id := by
  obtain ⟨_, _, rfl⟩ := failure
  have ids' : ((db.changeCertificate row.id (·.failing m)).certificates.map (·.id)).Nodup := by
    have keys : (db.changeCertificate row.id (·.failing m)).certificates.map (·.id) =
        db.certificates.map (·.id) := map_updateAt fun _ => rfl
    rwa [keys]
  apply eq_of_increasing (loadCertificates_ordered ids')
    ((loadCertificates_ordered ids).sublist List.filter_sublist)
  intro c
  simp only [loadCertificates, mem_sortedBy, List.mem_filter, decide_eq_true_eq,
    Database.changeCertificate, mem_updateAt]
  constructor
  · rintro ⟨⟨old, member, rfl⟩, active⟩
    split at active
    · cases active
    next other =>
      rw [if_neg other]
      exact ⟨⟨member, active⟩, other⟩
  · rintro ⟨⟨member, active⟩, other⟩
    exact ⟨⟨c, member, (if_neg other).symm⟩, active⟩

theorem desiredState_failed : desiredState cfg db' = { desiredState cfg db with
    defaultTls := tlsPlan cfg ((loadCertificates db).filter fun c => c.id ≠ row.id)
      (claimedNames cfg db) } := by
  rw [desiredState, desiredHosts_failed ids failure, loadCertificates_failed ids failure]
  rfl

end Loader

/-! ### The plan without one certificate -/

section Plan

variable {cfg : Deployment} {claimed : List String} {certificates : List Certificate}
  {row : Certificate}

/-- Without a certificate that serves nothing, the others serve what they served. -/
private theorem servedNames_without (silent : row ∈ certificates →
      servedNames claimed certificates row = [])
    (unique : ∀ c ∈ certificates, c.id = row.id → c = row) {c : Certificate} :
    servedNames claimed (certificates.filter fun c => c.id ≠ row.id) c =
      servedNames claimed certificates c := by
  unfold servedNames
  congr 2
  funext n
  rw [Bool.eq_iff_iff, serves_iff, serves_iff]
  constructor
  · rintro ⟨lists, free, least⟩
    refine ⟨lists, free, fun d stored holds => ?_⟩
    by_cases own : d.id = row.id
    · -- a name of the row that it does not serve has an owner with a lower id
      have same := unique d stored own
      subst same
      by_contra lower
      rw [not_le] at lower
      have owns : n ∈ servedNames claimed certificates d := by
        rw [mem_servedNames, serves_iff]
        refine ⟨holds, free, fun e stored' holds' => ?_⟩
        by_cases again : e.id = d.id
        · exact again.ge
        · have above := least e (List.mem_filter.mpr ⟨stored', by simpa using again⟩) holds'
          exact (lower.trans_le above).le
      rw [silent stored] at owns
      cases owns
    · exact least d (List.mem_filter.mpr ⟨stored, by simpa using own⟩) holds
  · rintro ⟨lists, free, least⟩
    exact ⟨lists, free, fun d stored => least d (List.mem_filter.mp stored).1⟩

/-- A certificate that serves nothing can be left out. -/
theorem tlsPlan_without (silent : row ∈ certificates → servedNames claimed certificates row = [])
    (unique : ∀ c ∈ certificates, c.id = row.id → c = row) :
    tlsPlan cfg (certificates.filter fun c => c.id ≠ row.id) claimed =
      tlsPlan cfg certificates claimed := by
  simp only [tlsPlan, servedNames_without silent unique, List.filter_filter]
  congr 1
  apply List.filter_congr
  intro c member
  by_cases own : c.id = row.id
  · have same := unique c member own
    subst same
    simp [silent member]
  · simp [own]

end Plan

/-! ### The rendered files -/

section Files

variable {cfg : Deployment} {state : DesiredState} {plan : List DefaultTlsSpec}

/-- A file of conf.d that is not one of a default-TLS block. -/
def IsHostFile (name : String) : Prop :=
  ∀ i, name ≠ defaultTlsFilename i

/-- Another plan changes no other file. -/
theorem renderConfig_plan (distinct : DistinctSpecs state)
    (distinct' : DistinctSpecs { state with defaultTls := plan }) {name : String}
    (other : IsHostFile name) :
    (renderConfig cfg { state with defaultTls := plan })[name]? = (renderConfig cfg state)[name]? := by
  have pairs : ∀ body, (name, body) ∈ configPairs cfg { state with defaultTls := plan } ↔
      (name, body) ∈ configPairs cfg state := by
    intro body
    have apart : ∀ plan : List DefaultTlsSpec, (name, body) ∉ plan.map fun t =>
        (defaultTlsFilename t.certificate.id, FileBody.conf (defaultTlsConf cfg t)) := by
      intro plan inside
      obtain ⟨t, _, same⟩ := List.mem_map.mp inside
      exact other _ (congrArg Prod.fst same).symm
    simp only [configPairs, List.mem_append, apart, or_false]
  apply Option.ext
  intro content
  simp only [renderConfig, configBodies]
  constructor
  · intro found
    obtain ⟨body, member, rfl⟩ := mem_pairs_of_get_text found
    exact get_text_ofPairs (functional_configPairs cfg distinct) ((pairs body).mp member)
  · intro found
    obtain ⟨body, member, rfl⟩ := mem_pairs_of_get_text found
    exact get_text_ofPairs (functional_configPairs cfg distinct') ((pairs body).mpr member)

/-- A block has a file, and no plan without its certificate has it. -/
theorem renderConfig_plan_ne {t : DefaultTlsSpec} (block : t ∈ state.defaultTls)
    (gone : ∀ u ∈ plan, u.certificate.id ≠ t.certificate.id) :
    renderConfig cfg { state with defaultTls := plan } ≠ renderConfig cfg state := by
  intro same
  have member : (defaultTlsFilename t.certificate.id, FileBody.conf (defaultTlsConf cfg t)) ∈
      configPairs cfg state :=
    List.mem_append_right _ (List.mem_map_of_mem block)
  obtain ⟨content, found⟩ := get_text_isSome member
  have found' : (renderConfig cfg { state with defaultTls := plan })[defaultTlsFilename
      t.certificate.id]? = some content := same ▸ found
  obtain ⟨body, member', _⟩ := mem_pairs_of_get_text found'
  obtain ⟨u, inside, own, _⟩ := mem_defaultTls_of_configPairs member'
  exact gone u inside own

end Files

/-! ### The whole attempt -/

/-- What a failed attempt leaves as it was: the streams, the default directory, and every
file of conf.d but the default-TLS ones. -/
structure KeepsHosts (before after : Rendering) : Prop where
  stream : after.stream = before.stream
  default : after.default = before.default
  confd : ∀ name, IsHostFile name → after.confd[name]? = before.confd[name]?

/-- The certificate answers for a name of the default site. -/
def Database.ServesDefault (cfg : Deployment) (db : Database) (row : Certificate) : Prop :=
  row.status = .active ∧ servedNames (claimedNames cfg db) (loadCertificates db) row ≠ []

theorem rendering_failed {cfg : Deployment} {db db' : Database} {row : Certificate}
    {m : CertificateMeta} (constraints : db.Constraints) (failure : FailedRow db db' row m) :
    ∃ before after, rendering cfg db = .ok before ∧ rendering cfg db' = .ok after ∧
      KeepsHosts before after ∧ (after = before ↔ ¬db.ServesDefault cfg row) := by
  have ids := constraints.certificateIds
  have constraints' : db'.Constraints := by
    rw [failure.wrote]
    exact constraints_changeCertificate constraints _ fun _ => rfl
  have distinct := distinctSpecs_desiredState cfg constraints
  have distinct' := distinctSpecs_desiredState cfg constraints'
  have rendered := rendering_ok cfg constraints'
  rw [desiredState_failed ids failure] at distinct' rendered
  refine ⟨_, _, rendering_ok cfg constraints, rendered, ⟨rfl, rfl, ?_⟩, ?_, ?_⟩
  · exact fun name other => renderConfig_plan distinct distinct' other
  · rintro same ⟨active, serving⟩
    have listed : row ∈ (loadCertificates db).filter fun c =>
        servedNames (claimedNames cfg db) (loadCertificates db) c ≠ [] := by
      refine List.mem_filter.mpr ⟨?_, by simpa using serving⟩
      simpa [loadCertificates] using ⟨failure.stored, active⟩
    refine renderConfig_plan_ne (List.mem_map_of_mem listed) ?_
      (renderConfig_eq_of_renderState same)
    intro u planned
    obtain ⟨c, kept, rfl⟩ := List.mem_map.mp planned
    have inside := (List.mem_filter.mp (List.mem_filter.mp kept).1).2
    exact of_decide_eq_true inside
  · intro silent
    have plan : tlsPlan cfg ((loadCertificates db).filter fun c => c.id ≠ row.id)
        (claimedNames cfg db) = tlsPlan cfg (loadCertificates db) (claimedNames cfg db) := by
      apply tlsPlan_without
      · intro member
        by_contra serving
        exact silent ⟨(loadCertificates_active member).2, serving⟩
      · intro c member own
        exact List.inj_on_of_nodup_map ids (loadCertificates_active member).1 failure.stored own
    rw [plan]
    rfl

/-- A failed attempt changes nothing that is served for a host or a stream. It changes the
rendered files exactly where the certificate was active and answered for a name of the
default site. -/
theorem failedRenewal_keeps (cfg : Deployment) {hashApr1 : String → String} {certId : Id}
    {s s' : Instance} (constraints : s.store.db.Constraints)
    (attempt : FailedAttempt hashApr1 certId s s') :
    ∃ row before after, s.store.db.certificate? certId = some row ∧
      rendering cfg s.store.db = .ok before ∧ rendering cfg s'.store.db = .ok after ∧
      KeepsHosts before after ∧
      desiredState cfg s'.store.db = { desiredState cfg s.store.db with
        defaultTls := tlsPlan cfg ((loadCertificates s.store.db).filter fun c => c.id ≠ certId)
          (claimedNames cfg s.store.db) } ∧
      (after = before ↔ ¬s.store.db.ServesDefault cfg row) := by
  obtain ⟨row, m, rfl, failure⟩ := attempt.failedRow constraints
  obtain ⟨before, after, rendered, rendered', keeps, same⟩ := rendering_failed constraints failure
  have ids := constraints.certificateIds
  exact ⟨row, before, after, find?_key ids failure.stored, rendered, rendered', keeps,
    desiredState_failed ids failure, same⟩

/-! ### A certificate no host uses -/

/-- An active certificate whose name no host claims. -/
def unclaimedCertificate : Certificate where
  id := 1
  name := "site"
  provider := .letsencrypt
  status := .active
  domainNames := ["a.example"]
  expiresOn := none
  «meta» := { challenge := some "http-01" }

def unclaimedInstance : Instance where
  store := { db := { certificates := [unclaimedCertificate] }, certificateSeq := 1, material := [1] }

/-- The same after the issuer was not reached. -/
def failedInstance : Instance where
  store :=
    { db := { certificates := [unclaimedCertificate.failing
        { unclaimedCertificate.meta with lastError := some "timed out", failedAt := some "now" }] }
      certificateSeq := 1, material := [1] }

private theorem unclaimed_attempt : FailedAttempt id 1 unclaimedInstance failedInstance :=
  .inside unclaimedCertificate rfl (.load rfl)
    (@InstanceStep.failed _ _ _ "timed out" "now" (List.mem_cons_self ..))

private theorem unclaimed_constraints : unclaimedInstance.store.db.Constraints := by
  decide +kernel

private theorem unclaimed_serves :
    unclaimedInstance.store.db.ServesDefault sampleDeployment unclaimedCertificate := by
  constructor
  · rfl
  · decide +kernel

theorem failedRenewal_keeps_unclaimed : ∃ row before after,
    unclaimedInstance.store.db.certificate? 1 = some row ∧
    rendering sampleDeployment unclaimedInstance.store.db = .ok before ∧
    rendering sampleDeployment failedInstance.store.db = .ok after ∧
    KeepsHosts before after ∧
    desiredState sampleDeployment failedInstance.store.db =
      { desiredState sampleDeployment unclaimedInstance.store.db with
        defaultTls := tlsPlan sampleDeployment
          ((loadCertificates unclaimedInstance.store.db).filter fun c => c.id ≠ 1)
          (claimedNames sampleDeployment unclaimedInstance.store.db) } ∧
    (after = before ↔
      ¬unclaimedInstance.store.db.ServesDefault sampleDeployment row) :=
  failedRenewal_keeps sampleDeployment unclaimed_constraints unclaimed_attempt

/-- The material is on disk and in use, and a failed attempt takes it out of the files. -/
theorem failedRenewal_drops : FailedAttempt id 1 unclaimedInstance failedInstance ∧
    unclaimedInstance.store.db.Constraints ∧ 1 ∈ unclaimedInstance.store.material ∧
    rendering sampleDeployment failedInstance.store.db ≠
      rendering sampleDeployment unclaimedInstance.store.db := by
  refine ⟨unclaimed_attempt, unclaimed_constraints, List.mem_cons_self .., fun same => ?_⟩
  have failure : FailedRow unclaimedInstance.store.db failedInstance.store.db unclaimedCertificate
      { unclaimedCertificate.meta with lastError := some "timed out", failedAt := some "now" } :=
    ⟨List.mem_cons_self .., rfl, rfl⟩
  obtain ⟨before, after, rendered, rendered', _, same'⟩ :=
    @rendering_failed sampleDeployment _ _ _ _ unclaimed_constraints failure
  rw [rendered, rendered'] at same
  exact same'.mp (Except.ok.inj same) unclaimed_serves

end MegooPM
