import MegooPM.Nginx.AllOrNothing
import MegooPM.Nginx.CertificatePaths
import MegooPM.Nginx.PoolClosure
import MegooPM.Services.Certificates
import MegooPM.Data.Timestamps

/-!
# Renewals

A renewal rewrites a certificate's material in place: the paths stay, and the row changes
in `expires_on` and `meta['issued_at']`. The templates of proxy hosts and of the default-TLS
blocks print a fingerprint of the two, so their files change with it. Those of redirection
hosts, dead hosts and streams name the same paths without it.
-/
namespace MegooPM

open Lib Lib.Node

/-! ### The fingerprint -/

/-- A row after a renewal. -/
def Certificate.renewed (c : Certificate) (expiresOn : Option DateTime) (issuedAt : Option String) :
    Certificate :=
  { c with expiresOn := expiresOn, «meta» := { c.meta with issuedAt := issuedAt } }

def Database.renew (db : Database) (certId : Id) (expiresOn : Option DateTime)
    (issuedAt : Option String) : Database :=
  db.changeCertificate certId (·.renewed expiresOn issuedAt)

/-- With an injective digest, the fingerprint tells any two versions apart. A missing
`issued_at` reads as the empty text. -/
theorem certificateFingerprint_eq (cfg : Deployment) (c : Certificate) :
    certificateFingerprint cfg c = cfg.digest
      (c.expiresOn.elim "" DateTime.isoformat ++ "|" ++ c.meta.issuedAt.getD "") := by
  cases expires : c.expiresOn <;>
    simp only [certificateFingerprint, expires, Option.elim_none, Option.elim_some]

theorem fingerprint_inj {cfg : Deployment} (injective : Function.Injective cfg.digest)
    {c d : Certificate} (same : certificateFingerprint cfg c = certificateFingerprint cfg d) :
    c.expiresOn = d.expiresOn ∧ c.meta.issuedAt.getD "" = d.meta.issuedAt.getD "" := by
  have expires_clean : ∀ o : Option DateTime,
      '|' ∉ (o.elim "" DateTime.isoformat).toList := by
    intro o
    cases o with
    | none => decide
    | some t => exact bar_notMem_isoformat t
  rw [certificateFingerprint_eq, certificateFingerprint_eq] at same
  have texts := congrArg String.toList (injective same)
  simp only [String.toList_append, List.append_assoc] at texts
  obtain ⟨expires, issued⟩ :=
    append_separator_inj (expires_clean c.expiresOn) (expires_clean d.expiresOn) texts
  refine ⟨?_, String.toList_inj.mp issued⟩
  have expires := String.toList_inj.mp expires
  cases first : c.expiresOn <;> cases second : d.expiresOn <;>
    simp only [first, second, Option.elim_none, Option.elim_some] at expires
  · rfl
  · exact absurd expires.symm (isoformat_ne_empty _)
  · exact absurd expires (isoformat_ne_empty _)
  · rw [isoformat_injective expires]

/-! ### A state with other fingerprints -/

/-- The certificate with id `i` under another fingerprint. -/
def CertificateSpec.refresh (i : Id) (fingerprint : String) (c : CertificateSpec) :
    CertificateSpec :=
  if c.id = i then { c with fingerprint := fingerprint } else c

/-- A state with every certificate spec replaced. -/
def DesiredState.mapCertificates (f : CertificateSpec → CertificateSpec) (state : DesiredState) :
    DesiredState :=
  { state with
    proxyHosts := state.proxyHosts.map fun h => { h with certificate := h.certificate.map f }
    redirectionHosts := state.redirectionHosts.map fun r =>
      { r with certificate := r.certificate.map f }
    deadHosts := state.deadHosts.map fun d => { d with certificate := d.certificate.map f }
    streams := state.streams.map fun s => { s with certificate := s.certificate.map f }
    defaultTls := state.defaultTls.map fun t => { t with certificate := f t.certificate } }

/-- Everything but the fingerprint stays. -/
structure KeepsPaths (f : CertificateSpec → CertificateSpec) : Prop where
  id : ∀ c, (f c).id = c.id
  fullchainPath : ∀ c, (f c).fullchainPath = c.fullchainPath
  privkeyPath : ∀ c, (f c).privkeyPath = c.privkeyPath

theorem keepsPaths_refresh (i : Id) (fingerprint : String) :
    KeepsPaths (CertificateSpec.refresh i fingerprint) := by
  constructor <;> intro c <;> unfold CertificateSpec.refresh <;> split <;> rfl

section Templates

variable {cfg : Deployment} {f : CertificateSpec → CertificateSpec} (keeps : KeepsPaths f)

include keeps

private theorem certificateDirectives_keeps (lead : String) (c : CertificateSpec) :
    certificateDirectives lead (f c) = certificateDirectives lead c := by
  rw [certificateDirectives, keeps.fullchainPath, keeps.privkeyPath]
  rfl

/-! Three templates print nothing of a certificate but its paths. -/

theorem redirectionHostConf_keeps (r : RedirectionHostSpec) :
    redirectionHostConf cfg { r with certificate := r.certificate.map f } =
      redirectionHostConf cfg r := by
  unfold redirectionHostConf
  cases r.certificate with
  | none => rfl
  | some c =>
    simp only [Option.map_some, certificateDirectives_keeps keeps]
    rfl

theorem deadHostConf_keeps (d : DeadHostSpec) :
    deadHostConf cfg { d with certificate := d.certificate.map f } = deadHostConf cfg d := by
  unfold deadHostConf
  cases d.certificate with
  | none => rfl
  | some c =>
    simp only [Option.map_some, certificateDirectives_keeps keeps]

theorem streamConf_keeps (s : StreamSpec) :
    streamConf { s with certificate := s.certificate.map f } = streamConf s := by
  unfold streamConf
  cases s.certificate with
  | none => rfl
  | some c =>
    simp only [Option.map_some, Option.isSome_some, certificateDirectives_keeps keeps]
    rfl

/-- The streams are rendered the same. -/
theorem renderStreamConfig_keeps (state : DesiredState) :
    renderStreamConfig (state.mapCertificates f) = renderStreamConfig state := by
  simp only [renderStreamConfig, streamBodies, streamPairs, DesiredState.mapCertificates,
    List.map_map, Function.comp_def, streamConf_keeps keeps]

/-- Where no proxy host and no default-TLS block carries a spec that changes, conf.d stays the
same. -/
theorem renderConfig_keeps {state : DesiredState}
    (hosts : ∀ h ∈ state.proxyHosts, h.certificate.map f = h.certificate)
    (blocks : ∀ t ∈ state.defaultTls, f t.certificate = t.certificate) :
    renderConfig cfg (state.mapCertificates f) = renderConfig cfg state := by
  have sameHosts : (state.mapCertificates f).proxyHosts = state.proxyHosts := by
    refine (List.map_congr_left fun h member => ?_).trans (List.map_id _)
    rw [hosts h member]
    rfl
  have sameBlocks : (state.mapCertificates f).defaultTls = state.defaultTls := by
    refine (List.map_congr_left fun t member => ?_).trans (List.map_id _)
    rw [blocks t member]
    rfl
  have pairs : configPairs cfg (state.mapCertificates f) = configPairs cfg state := by
    rw [configPairs, sameHosts, sameBlocks]
    simp only [DesiredState.mapCertificates, List.map_map, Function.comp_def,
      redirectionHostConf_keeps keeps, deadHostConf_keeps keeps]
    rfl
  rw [renderConfig, configBodies, pairs]
  rfl

end Templates

/-- No document of the default directory depends on a certificate. -/
theorem renderDefaultSite_keeps (cfg : Deployment) (f : CertificateSpec → CertificateSpec)
    (state : DesiredState) :
    renderDefaultSite cfg (state.mapCertificates f) = renderDefaultSite cfg state := by
  simp only [renderDefaultSite, defaultPairs, maintenancePairs, DesiredState.mapCertificates,
    List.flatMap_map, List.any_map, Function.comp_def]
  rfl

/-! ### Where the fingerprint is printed -/

private theorem framed_certMaterial (c : CertificateSpec) :
    Framed fun x => printAll (certMaterial { c with fingerprint := x }) := by
  have line := framed_comment "\n    " ("cert-material " ++ toString c.id ++ ":")
  exact framed_append_left line _

theorem framed_proxyHostConf (cfg : Deployment) (h : ProxyHostSpec) (m : Option MaintenanceSpec)
    (c : CertificateSpec) : Framed fun x =>
      printAll (proxyHostConf cfg { h with certificate := some { c with fingerprint := x } } m) := by
  have server := framed_block (framed_append_right (framed_append_right
    (framed_append_left (framed_certMaterial c) (proxyTlsHead cfg h m))
    (certificateDirectives "\n    " c)) (proxyTlsTail cfg h)) "\n\n" ["server"] "\n"
  have both := framed_append_left server
    [.block "\n" ["server"] (proxyPlainServer cfg h m) "\n"]
  exact framed_append_left both
    ([managedHeader, .comment "\n" ("proxy host id=" ++ toString h.id)] ++ maintenanceGeo h)

theorem framed_defaultTlsConf (cfg : Deployment) (t : DefaultTlsSpec) : Framed fun x =>
    printAll (defaultTlsConf cfg
      { t with certificate := { t.certificate with fingerprint := x } }) := by
  have server := framed_block (framed_append_right (framed_append_right
    (framed_append_left (framed_certMaterial t.certificate) (defaultTlsHead cfg t.serverNames))
    (certificateDirectives "\n    " t.certificate)) (defaultTlsTail cfg)) "\n" ["server"] "\n"
  exact framed_append_left server [managedHeader]

section Refresh

variable {cfg : Deployment} {state : DesiredState} {i : Id} {x : String}
  (distinct : DistinctSpecs state)
  (distinct' : DistinctSpecs (state.mapCertificates (CertificateSpec.refresh i x)))
  (same : renderConfig cfg state =
    renderConfig cfg (state.mapCertificates (CertificateSpec.refresh i x)))

include distinct distinct' same

/-- A proxy host tells its certificate's fingerprint. -/
theorem fingerprint_of_host {h : ProxyHostSpec} (host : h ∈ state.proxyHosts)
    {c : CertificateSpec} (own : h.certificate = some c) (id : c.id = i) : c.fingerprint = x := by
  have member : (proxyFilename h.id, .conf (proxyHostConf cfg h state.maintenance)) ∈
      configPairs cfg state :=
    mem_configPairs.mpr (Or.inr (Or.inl ⟨h, host, mem_renderProxyHost.mpr (Or.inl rfl)⟩))
  have member' : (proxyFilename h.id, .conf (proxyHostConf cfg
      { h with certificate := h.certificate.map (CertificateSpec.refresh i x) } state.maintenance)) ∈
      configPairs cfg (state.mapCertificates (CertificateSpec.refresh i x)) :=
    mem_configPairs.mpr (Or.inr (Or.inl
      ⟨_, List.mem_map_of_mem host, mem_renderProxyHost.mpr (Or.inl rfl)⟩))
  have texts := printAll_eq_of_renderConfig distinct distinct' same member member'
  rw [own, Option.map_some, CertificateSpec.refresh, if_pos id] at texts
  have plain : h = { h with certificate := some { c with fingerprint := c.fingerprint } } := by
    rw [← own]
  rw [plain] at texts
  exact (framed_proxyHostConf cfg h state.maintenance c).injective texts

/-- So does a default-TLS block. -/
theorem fingerprint_of_defaultTls {t : DefaultTlsSpec} (block : t ∈ state.defaultTls)
    (id : t.certificate.id = i) : t.certificate.fingerprint = x := by
  have member : (defaultTlsFilename t.certificate.id, .conf (defaultTlsConf cfg t)) ∈
      configPairs cfg state :=
    mem_configPairs.mpr (Or.inr (Or.inr (Or.inr (Or.inr ⟨t, block, rfl⟩))))
  have member' : (defaultTlsFilename t.certificate.id, .conf (defaultTlsConf cfg
      { t with certificate := t.certificate.refresh i x })) ∈
      configPairs cfg (state.mapCertificates (CertificateSpec.refresh i x)) := by
    refine mem_configPairs.mpr (Or.inr (Or.inr (Or.inr (Or.inr
      ⟨_, List.mem_map_of_mem block, ?_⟩))))
    rw [(keepsPaths_refresh i x).id]
  have texts := printAll_eq_of_renderConfig distinct distinct' same member member'
  rw [CertificateSpec.refresh, if_pos id] at texts
  exact (framed_defaultTlsConf cfg t).injective texts

end Refresh

/-! ### The desired state after a renewal -/

section Renew

variable {cfg : Deployment} {db : Database} {c : Certificate} {e : Option DateTime}
  {t : Option String}

theorem constraints_renew (fine : db.Constraints) (i : Id) : (db.renew i e t).Constraints :=
  constraints_changeCertificate fine i fun _ => rfl

/-- A row of the table after the renewal of the row with id `i`. -/
private def renewRow (i : Id) (e : Option DateTime) (t : Option String) (d : Certificate) :
    Certificate :=
  if d.id = i then d.renewed e t else d

private theorem renewRow_id (i : Id) (d : Certificate) : (renewRow i e t d).id = d.id := by
  unfold renewRow
  split <;> rfl

private theorem renewRow_status (i : Id) (d : Certificate) :
    (renewRow i e t d).status = d.status := by
  unfold renewRow
  split <;> rfl

private theorem renewRow_domainNames (i : Id) (d : Certificate) :
    (renewRow i e t d).domainNames = d.domainNames := by
  unfold renewRow
  split <;> rfl

private theorem certificate?_renew (i j : Id) :
    (db.renew i e t).certificate? j = (db.certificate? j).map (renewRow i e t) :=
  find?_updateAt (fun d : Certificate => (rfl : (d.renewed e t).id = d.id)) j

private theorem loadCertificates_renew (i : Id) :
    loadCertificates (db.renew i e t) = (loadCertificates db).map (renewRow i e t) := by
  have rows : (db.renew i e t).certificates = db.certificates.map (renewRow i e t) := rfl
  rw [loadCertificates, rows, List.filter_map]
  simp only [Function.comp_def, renewRow_status]
  exact sortedBy_map Certificate.id Certificate.id _ _ (renewRow_id i)

/-- A renewal changes no name, so the names a certificate serves stay. -/
private theorem servedNames_renewRow (i : Id) (claimed : List String)
    (certificates : List Certificate) (d : Certificate) :
    servedNames claimed (certificates.map (renewRow i e t)) (renewRow i e t d) =
      servedNames claimed certificates d := by
  unfold servedNames
  rw [renewRow_domainNames]
  congr 2
  funext n
  rw [Bool.eq_iff_iff, serves_iff, serves_iff, renewRow_domainNames, renewRow_id]
  simp only [List.forall_mem_map, renewRow_domainNames, renewRow_id]

/-- A spec after the renewal of `c`. -/
def renewSpec (cfg : Deployment) (c : Certificate) (e : Option DateTime) (t : Option String) :
    CertificateSpec → CertificateSpec :=
  CertificateSpec.refresh c.id (certificateFingerprint cfg (c.renewed e t))

variable (ids : (db.certificates.map (·.id)).Nodup) (row : c ∈ db.certificates)

include ids row

private theorem certificateSpec_renewRow {d : Certificate} (member : d ∈ db.certificates) :
    certificateSpec cfg (renewRow c.id e t d) = renewSpec cfg c e t (certificateSpec cfg d) := by
  by_cases same : d.id = c.id
  · have itself : (certificateSpec cfg c).id = c.id := rfl
    rw [List.inj_on_of_nodup_map ids member row same, renewRow, if_pos rfl, renewSpec,
      CertificateSpec.refresh, if_pos itself]
    rfl
  · have other : (certificateSpec cfg d).id ≠ c.id := same
    rw [renewRow, if_neg same, renewSpec, CertificateSpec.refresh, if_neg other]

private theorem related_renew (ref : Option Id) :
    (related (db.renew c.id e t).certificate? ref).map (certificateSpec cfg) =
      ((related db.certificate? ref).map (certificateSpec cfg)).map (renewSpec cfg c e t) := by
  cases ref with
  | none => rfl
  | some j =>
    simp only [related, Option.bind_some, certificate?_renew]
    cases found : db.certificate? j with
    | none => rfl
    | some d =>
      have member := List.mem_of_find?_eq_some found
      simp only [Option.map_some, certificateSpec_renewRow ids row member]

/-- Everything but the default-TLS plan. -/
private theorem desiredHosts_renew : desiredHosts cfg (db.renew c.id e t) =
    (desiredHosts cfg db).mapCertificates (renewSpec cfg c e t) := by
  have related := @related_renew cfg db c e t ids row
  -- which rows are included does not depend on the certificates
  have hosts : (includedHosts db).map (loadedHost cfg (db.renew c.id e t)) =
      ((includedHosts db).map (loadedHost cfg db)).map fun h =>
        { h with certificate := h.certificate.map (renewSpec cfg c e t) } := by
    rw [List.map_map]
    refine List.map_congr_left fun h _ => ?_
    simp only [Function.comp, loadedHost, proxyHostSpec, related]
    rfl
  have redirects : loadRedirectionHosts cfg (db.renew c.id e t) =
      (loadRedirectionHosts cfg db).map fun r =>
        { r with certificate := r.certificate.map (renewSpec cfg c e t) } := by
    rw [loadRedirectionHosts, loadRedirectionHosts, List.map_map]
    refine List.map_congr_left fun r _ => ?_
    simp only [Function.comp, redirectionHostSpec, related]
  have deads : loadDeadHosts cfg (db.renew c.id e t) = (loadDeadHosts cfg db).map fun d =>
      { d with certificate := d.certificate.map (renewSpec cfg c e t) } := by
    rw [loadDeadHosts, loadDeadHosts, List.map_map]
    refine List.map_congr_left fun d _ => ?_
    simp only [Function.comp, deadHostSpec, related]
  have streams : (includedStreams db).map (streamSpec cfg (db.renew c.id e t)) =
      ((includedStreams db).map (streamSpec cfg db)).map fun s =>
        { s with certificate := s.certificate.map (renewSpec cfg c e t) } := by
    rw [List.map_map]
    refine List.map_congr_left fun s _ => ?_
    simp only [Function.comp, streamSpec, related]
  have references : ∀ hosts : List ProxyHostSpec, httpReferences (hosts.map fun h =>
      { h with certificate := h.certificate.map (renewSpec cfg c e t) }) = httpReferences hosts := by
    intro hosts
    simp only [httpReferences, List.filterMap_map, List.flatMap_map, Function.comp_def]
  have streamReferences : ∀ streams : List StreamSpec, (streams.map fun s =>
      { s with certificate := s.certificate.map (renewSpec cfg c e t) }).filterMap (·.upstreamId) =
        streams.filterMap (·.upstreamId) := by
    intro streams
    simp only [List.filterMap_map, Function.comp_def]
  have same : includedHosts (db.renew c.id e t) = includedHosts db := rfl
  have sameStreams : includedStreams (db.renew c.id e t) = includedStreams db := rfl
  simp only [desiredHosts, same, sameStreams, hosts, redirects, deads, streams, references,
    streamReferences]
  rfl

/-- A renewal replaces the fingerprint of one certificate, everywhere. -/
theorem desiredState_renew : desiredState cfg (db.renew c.id e t) =
    (desiredState cfg db).mapCertificates (renewSpec cfg c e t) := by
  have hosts := @desiredHosts_renew cfg db c e t ids row
  have claimed : claimedTlsNames (desiredHosts cfg (db.renew c.id e t)) =
      claimedTlsNames (desiredHosts cfg db) := by
    rw [hosts]
    simp only [claimedTlsNames, DesiredState.mapCertificates, List.flatMap_map,
      Option.isSome_map]
  have plan : ∀ claimed, tlsPlan cfg (loadCertificates (db.renew c.id e t)) claimed =
      (tlsPlan cfg (loadCertificates db) claimed).map fun s =>
        { s with certificate := renewSpec cfg c e t s.certificate } := by
    intro claimed
    rw [loadCertificates_renew, tlsPlan, tlsPlan, List.filter_map, List.map_map, List.map_map]
    simp only [Function.comp_def, servedNames_renewRow]
    refine List.map_congr_left fun d member => ?_
    have active := (List.mem_filter.mp member).1
    rw [certificateSpec_renewRow ids row (loadCertificates_active active).1]
  rw [desiredState, claimed, plan, hosts]
  rfl

end Renew

/-! ### From the rendered files to a reload -/

/-- A call that finds everything up to date read what it wanted. -/
private theorem reads_of_unchanged {pre : String} {dirs : List DirName} {desired : DirName → Files}
    {answers : Answers} {disk : Disk} (tested : answers.test.ok = true)
    (reloaded : answers.reload.ok = true)
    (unchanged : (applyTargets pre dirs desired answers disk).1.changed = false) :
    ∀ d ∈ dirs, desired d = readTargets pre disk d := by
  unfold applyTargets at unchanged
  simp only [tested, reloaded, Bool.not_true, Bool.false_eq_true, if_false] at unchanged
  split at unchanged
  next same => simpa using same
  next => cases unchanged

/-- A call that wants another conf.d than the disk holds writes and reloads. -/
private theorem changed_of_confd {pre : String} {dirs : List DirName} {desired : DirName → Files}
    {answers : Answers} {disk : Disk} (tested : answers.test.ok = true)
    (reloaded : answers.reload.ok = true) (member : .confd ∈ dirs)
    (differs : desired .confd ≠ readTargets pre disk .confd) :
    (applyTargets pre dirs desired answers disk).1.changed = true ∧
      (applyTargets pre dirs desired answers disk).1.reloaded = true := by
  have notAll : ¬(dirs.all fun d => desired d = readTargets pre disk d) = true := by
    intro all
    exact differs (by simpa using List.all_eq_true.mp all _ member)
  unfold applyTargets
  simp only [notAll, tested, reloaded, Bool.not_true, Bool.false_eq_true, if_false]
  exact ⟨rfl, rfl⟩

/-- Where the disk is up to date with one state, a state with another conf.d and the same
streams is applied and reloaded. -/
theorem applyConfig_changed {cfg : Deployment} {o : ApplyOptions} {state state' : DesiredState}
    {answers : Answers} {disk : Disk} (tested : answers.test.ok = true)
    (reloaded : answers.reload.ok = true)
    (settled : ∃ r, applyConfig cfg o state answers disk = .ok r ∧ r.1.changed = false)
    (streams : renderStreamConfig state' = renderStreamConfig state)
    (differs : renderConfig cfg state ≠ renderConfig cfg state') :
    ∃ r, applyConfig cfg o state' answers disk = .ok r ∧ r.1.changed = true ∧
      r.1.reloaded = true := by
  obtain ⟨r, done, unchanged⟩ := settled
  obtain ⟨desired, rendered, done⟩ := bind_eq_ok done
  cases done
  obtain ⟨stream, streamed, rendered⟩ := bind_eq_ok rendered
  cases rendered
  have member : .confd ∈ o.dirs := by simp [ApplyOptions.dirs]
  have reads := reads_of_unchanged tested reloaded unchanged _ member
  obtain ⟨desired', rendered, own⟩ : ∃ files, renderTargets cfg o state' = .ok files ∧
      files .confd = renderConfig cfg state' := by
    rw [renderTargets, streams, streamed]
    exact ⟨_, rfl, rfl⟩
  refine ⟨_, ?_, @changed_of_confd o.managedPrefix o.dirs desired' answers _ tested reloaded member
    fun same => differs (reads.trans (same.symm.trans own))⟩
  rw [applyConfig, rendered]
  rfl

/-! ### Renewals -/

/-- The row is in a block that prints its fingerprint: one of a rendered proxy host, or a
default-TLS block. -/
def Database.PrintsFingerprint (cfg : Deployment) (db : Database) (c : Certificate) : Prop :=
  (∃ h ∈ includedHosts db, h.certificateId = some c.id) ∨
  servedNames (claimedNames cfg db) (loadCertificates db) c ≠ []

/-- The row is in a block that prints nothing but its paths. No stream is rendered where one of
them makes the rendering raise. -/
def Database.PrintsPaths (db : Database) (c : Certificate) : Prop :=
  (∃ r ∈ db.redirectionHosts, r.enabled = true ∧ r.certificateId = some c.id) ∨
  (∃ d ∈ db.deadHosts, d.enabled = true ∧ d.certificateId = some c.id) ∨
  (db.NamesStream c ∧ ¬StreamOnIpHash db)

section Renewal

variable {cfg : Deployment} {db : Database} {c : Certificate} {e : Option DateTime}
  {t : Option String} (constraints : db.Constraints) (row : c ∈ db.certificates)

include constraints row

/-- No block prints the fingerprint, so no file changes. -/
theorem renderConfig_renew_eq (silent : ¬db.PrintsFingerprint cfg c) :
    renderConfig cfg (desiredState cfg (db.renew c.id e t)) =
      renderConfig cfg (desiredState cfg db) := by
  have ids := constraints.certificateIds
  have kept : ∀ d ∈ db.certificates, d.id ≠ c.id →
      renewSpec cfg c e t (certificateSpec cfg d) = certificateSpec cfg d := by
    intro d _ other
    have apart : (certificateSpec cfg d).id ≠ c.id := other
    rw [renewSpec, CertificateSpec.refresh, if_neg apart]
  rw [desiredState_renew ids row]
  refine renderConfig_keeps (keepsPaths_refresh _ _) ?_ ?_
  · intro spec member
    obtain ⟨h, included, rfl⟩ := List.mem_map.mp member
    cases own : (loadedHost cfg db h).certificate with
    | none => rfl
    | some spec =>
      obtain ⟨d, attached, ref, rfl⟩ := (relatedCertificate_iff ids).mp own
      have other : d.id ≠ c.id := fun same => silent (Or.inl ⟨h, included, ref.trans (by rw [same])⟩)
      exact congrArg some (kept d attached other)
  · intro spec member
    obtain ⟨d, listed, rfl⟩ := List.mem_map.mp member
    obtain ⟨active, serving⟩ := List.mem_filter.mp listed
    have stored := (loadCertificates_active active).1
    refine kept d stored fun same => silent (Or.inr ?_)
    rw [List.inj_on_of_nodup_map ids stored row same] at serving
    simpa [claimedNames] using serving

theorem renderStreamConfig_renew :
    renderStreamConfig (desiredState cfg (db.renew c.id e t)) =
      renderStreamConfig (desiredState cfg db) := by
  rw [desiredState_renew constraints.certificateIds row]
  exact renderStreamConfig_keeps (keepsPaths_refresh _ _) _

/-- The renewal is in no rendered file. -/
theorem rendering_renew_eq (silent : ¬db.PrintsFingerprint cfg c) :
    rendering cfg db = rendering cfg (db.renew c.id e t) := by
  have default : renderDefaultSite cfg (desiredState cfg (db.renew c.id e t)) =
      renderDefaultSite cfg (desiredState cfg db) := by
    rw [desiredState_renew constraints.certificateIds row]
    exact renderDefaultSite_keeps cfg _ _
  rw [rendering_ok cfg constraints, rendering_ok cfg (constraints_renew constraints c.id),
    renderState, renderState, renderConfig_renew_eq constraints row silent,
    renderStreamConfig_renew constraints row, default]

/-- A block that prints the fingerprint changes. -/
theorem renderConfig_renew_ne (active : c.status = .active)
    (injective : Function.Injective cfg.digest)
    (differs : c.expiresOn ≠ e ∨ c.meta.issuedAt.getD "" ≠ t.getD "")
    (printed : db.PrintsFingerprint cfg c) :
    renderConfig cfg (desiredState cfg db) ≠
      renderConfig cfg (desiredState cfg (db.renew c.id e t)) := by
  have ids := constraints.certificateIds
  intro same
  have distinct := distinctSpecs_desiredState cfg constraints
  have distinct' := distinctSpecs_desiredState cfg (@constraints_renew _ e t constraints c.id)
  rw [desiredState_renew ids row] at same distinct'
  have unchanged : certificateFingerprint cfg c = certificateFingerprint cfg (c.renewed e t) := by
    rcases printed with ⟨h, included, ref⟩ | serving
    · exact fingerprint_of_host distinct distinct' same (List.mem_map_of_mem included)
        ((relatedCertificate_iff ids).mpr ⟨c, row, ref, rfl⟩) rfl
    · have listed : c ∈ (loadCertificates db).filter fun d =>
          servedNames (claimedNames cfg db) (loadCertificates db) d ≠ [] := by
        refine List.mem_filter.mpr ⟨?_, by simpa using serving⟩
        simpa [loadCertificates] using ⟨row, active⟩
      exact fingerprint_of_defaultTls distinct distinct' same (List.mem_map_of_mem listed) rfl
  obtain ⟨expires, issued⟩ := fingerprint_inj injective unchanged
  exact differs.elim (fun ne => ne expires) fun ne => ne issued

end Renewal

/-- The two contents render different files, and a call on a disk that is up to date with the
first reports a change and reloads. -/
def ReachesNginx (cfg : Deployment) (db db' : Database) : Prop :=
  rendering cfg db ≠ rendering cfg db' ∧
  ∀ (o : ApplyOptions) (answers : Answers) (disk : Disk) (state state' : DesiredState),
    loadDesiredState cfg db = .ok state → loadDesiredState cfg db' = .ok state' →
    answers.test.ok = true → answers.reload.ok = true →
    (∃ r, applyConfig cfg o state answers disk = .ok r ∧ r.1.changed = false) →
    ∃ r, applyConfig cfg o state' answers disk = .ok r ∧ r.1.changed = true ∧ r.1.reloaded = true

/-- A renewal of a certificate that a rendered block names reaches nginx exactly when some
block prints its fingerprint. -/
theorem renewal_reaches {cfg : Deployment} (injective : Function.Injective cfg.digest)
    {db : Database} (constraints : db.Constraints) {c : Certificate} (row : c ∈ db.certificates)
    (active : c.status = .active) {e : Option DateTime} {t : Option String}
    (differs : c.expiresOn ≠ e ∨ c.meta.issuedAt.getD "" ≠ t.getD "") :
    (db.NamesHttp cfg c ∨ (db.NamesStream c ∧ ¬StreamOnIpHash db) →
        ReachesNginx cfg db (db.renew c.id e t)) ↔
      (db.PrintsFingerprint cfg c ∨ ¬db.PrintsPaths c) := by
  have fine := @constraints_renew _ e t constraints c.id
  constructor
  · intro reaches
    by_contra silent
    obtain ⟨silent, paths⟩ := not_or.mp silent
    have named : db.NamesHttp cfg c ∨ (db.NamesStream c ∧ ¬StreamOnIpHash db) := by
      rcases not_not.mp paths with redirect | dead | stream
      · exact Or.inl (Or.inr (Or.inl redirect))
      · exact Or.inl (Or.inr (Or.inr (Or.inl dead)))
      · exact Or.inr stream
    exact (reaches named).1 (rendering_renew_eq constraints row silent)
  · intro condition named
    have printed : db.PrintsFingerprint cfg c := by
      rcases condition with printed | noPaths
      · exact printed
      rcases named with (host | redirect | dead | ⟨_, serving⟩) | stream
      · exact Or.inl host
      · exact absurd (Or.inl redirect) noPaths
      · exact absurd (Or.inr (Or.inl dead)) noPaths
      · exact Or.inr serving
      · exact absurd (Or.inr (Or.inr stream)) noPaths
    have differ := renderConfig_renew_ne constraints row active injective differs printed
    constructor
    · rw [rendering_ok cfg constraints, rendering_ok cfg fine]
      intro same
      exact differ (renderConfig_eq_of_renderState (Except.ok.inj same))
    · intro o answers disk state state' loaded loaded' tested reloaded settled
      cases (loadDesiredState_ok cfg constraints).symm.trans loaded
      cases (loadDesiredState_ok cfg fine).symm.trans loaded'
      exact applyConfig_changed tested reloaded settled
        (renderStreamConfig_renew constraints row) differ

/-! ### A host and a parked name -/

def shopCertificate : Certificate where
  id := 1
  name := "shop"
  provider := .letsencrypt
  status := .active
  domainNames := ["shop.example"]
  expiresOn := some (newYear ⟨2000 + 27, by decide⟩)
  «meta» := { issuedAt := some "2026-10-03T00:00:00+00:00" }

/-- The certificate is attached to a proxy host. -/
def shopDatabase : Database where
  certificates := [shopCertificate]
  proxyHosts := [{ id := 1, domainNames := ["shop.example"], forwardHost := some "app"
                   forwardPort := some 8080, certificateId := some 1 }]

/-- The same certificate, attached to a dead host. -/
def parkedDatabase : Database where
  certificates := [shopCertificate]
  deadHosts := [{ id := 1, domainNames := ["shop.example"], certificateId := some 1 }]

theorem renewal_reaches_shop : ReachesNginx sampleDeployment shopDatabase
    (shopDatabase.renew 1 (some (newYear 2028)) (some "2027-10-03T00:00:00+00:00")) := by
  have constraints : shopDatabase.Constraints := by decide
  have attached : ∃ h ∈ includedHosts shopDatabase, h.certificateId = some shopCertificate.id :=
    ⟨_, List.mem_singleton_self _, rfl⟩
  exact (renewal_reaches (fun _ _ same => same) constraints (List.mem_singleton_self _) rfl
    (Or.inl (by decide))).mpr (Or.inl (Or.inl attached)) (Or.inl (Or.inl attached))

/-- The renewal of a certificate that a dead host serves is in no file. -/
theorem renewal_unnoticed : ∃ db : Database, db.Constraints ∧ ∃ c ∈ db.certificates,
    c.status = .active ∧ c.expiresOn ≠ some (newYear 2028) ∧ db.NamesHttp sampleDeployment c ∧
    ¬ReachesNginx sampleDeployment db
      (db.renew c.id (some (newYear 2028)) (some "2027-10-03T00:00:00+00:00")) := by
  have constraints : parkedDatabase.Constraints := by decide
  have row : shopCertificate ∈ parkedDatabase.certificates := List.mem_singleton_self _
  have silent : ¬parkedDatabase.PrintsFingerprint sampleDeployment shopCertificate := by
    rintro (⟨h, included, _⟩ | serving)
    · cases included
    · exact serving (by decide)
  refine ⟨parkedDatabase, constraints, shopCertificate, row, rfl, by decide, ?_, ?_⟩
  · exact Or.inr (Or.inr (Or.inl ⟨_, List.mem_singleton_self _, rfl, rfl⟩))
  · intro reaches
    exact reaches.1 (rendering_renew_eq constraints row silent)

end MegooPM
