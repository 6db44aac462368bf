import MegooPM.Nginx.TemplateFacts
import MegooPM.Lib.Rows

/-!
# Certificate paths

Which certificates the rendered files name. Five places turn a row into a path: the four
kinds of host attach one by its id, whatever its status, and the default-TLS plan takes the
active ones that serve a name.
-/
namespace MegooPM

open Lib

/-! ### Named by a state -/

/-- A spec that some object of the state carries. -/
def DesiredState.Names (state : DesiredState) (c : CertificateSpec) : Prop :=
  (∃ h ∈ state.proxyHosts, h.certificate = some c) ∨
  (∃ r ∈ state.redirectionHosts, r.certificate = some c) ∨
  (∃ d ∈ state.deadHosts, d.certificate = some c) ∨
  (∃ t ∈ state.defaultTls, t.certificate = c)

private theorem mem_certificatePaths {o : Option CertificateSpec} {args : List String} :
    args ∈ certificatePaths o ↔ ∃ c, o = some c ∧ args = [c.fullchainPath] := by
  cases o <;> simp [certificatePaths]

section Directory

variable {cfg : Deployment} {state : DesiredState} (distinct : DistinctSpecs state)
  {args : List String}

include distinct

theorem mem_sslCertificate_config :
    args ∈ (configBodies cfg state).directives "ssl_certificate" ↔
      ∃ c, state.Names c ∧ args = [c.fullchainPath] := by
  rw [configBodies, mem_directives (functional_configPairs cfg distinct)]
  constructor
  · rintro ⟨file, member, inside⟩
    rcases mem_configPairs.mp member with ⟨u, _, rfl⟩ | ⟨h, host, member⟩ | ⟨r, host, rfl⟩ |
      ⟨d, host, rfl⟩ | ⟨t, host, rfl⟩
    · simp [renderUpstream, FileBody.tree] at inside
    · rcases mem_renderProxyHost.mp member with rfl | ⟨a, _, _, rfl⟩
      · rw [FileBody.tree, sslCertificate_proxyHost, mem_certificatePaths] at inside
        obtain ⟨c, own, path⟩ := inside
        exact ⟨c, Or.inl ⟨h, host, own⟩, path⟩
      · cases inside
    · rw [FileBody.tree, sslCertificate_redirectionHost, mem_certificatePaths] at inside
      obtain ⟨c, own, path⟩ := inside
      exact ⟨c, Or.inr (Or.inl ⟨r, host, own⟩), path⟩
    · rw [FileBody.tree, sslCertificate_deadHost, mem_certificatePaths] at inside
      obtain ⟨c, own, path⟩ := inside
      exact ⟨c, Or.inr (Or.inr (Or.inl ⟨d, host, own⟩)), path⟩
    · rw [FileBody.tree, sslCertificate_defaultTls, mem_certificatePaths] at inside
      obtain ⟨c, own, path⟩ := inside
      exact ⟨c, Or.inr (Or.inr (Or.inr ⟨t, host, Option.some_inj.mp own⟩)), path⟩
  · rintro ⟨c, ⟨h, host, own⟩ | ⟨r, host, own⟩ | ⟨d, host, own⟩ | ⟨t, host, rfl⟩, rfl⟩
    · refine ⟨_, mem_configPairs.mpr (Or.inr (Or.inl ⟨h, host,
        mem_renderProxyHost.mpr (Or.inl rfl)⟩)), ?_⟩
      rw [FileBody.tree, sslCertificate_proxyHost, mem_certificatePaths]
      exact ⟨c, own, rfl⟩
    · refine ⟨_, mem_configPairs.mpr (Or.inr (Or.inr (Or.inl ⟨r, host, rfl⟩))), ?_⟩
      rw [FileBody.tree, sslCertificate_redirectionHost, mem_certificatePaths]
      exact ⟨c, own, rfl⟩
    · refine ⟨_, mem_configPairs.mpr (Or.inr (Or.inr (Or.inr (Or.inl ⟨d, host, rfl⟩)))), ?_⟩
      rw [FileBody.tree, sslCertificate_deadHost, mem_certificatePaths]
      exact ⟨c, own, rfl⟩
    · refine ⟨_, mem_configPairs.mpr (Or.inr (Or.inr (Or.inr (Or.inr ⟨t, host, rfl⟩)))), ?_⟩
      rw [FileBody.tree, sslCertificate_defaultTls, mem_certificatePaths]
      exact ⟨_, rfl, rfl⟩

theorem mem_sslCertificate_stream {bodies : Bodies} (rendered : streamBodies state = .ok bodies) :
    args ∈ bodies.directives "ssl_certificate" ↔
      ∃ s ∈ state.streams, ∃ c, s.certificate = some c ∧ args = [c.fullchainPath] := by
  obtain ⟨pairs, listed, rfl⟩ := map_eq_ok rendered
  rw [streamPairs_ok listed, mem_directives (functional_streamPairs distinct)]
  simp only [List.mem_append, List.mem_map]
  constructor
  · rintro ⟨file, ⟨u, _, rfl⟩ | ⟨s, member, rfl⟩, inside⟩
    · simp [renderUpstream, FileBody.tree] at inside
    · rw [FileBody.tree, sslCertificate_stream, mem_certificatePaths] at inside
      obtain ⟨c, own, path⟩ := inside
      exact ⟨s, member, c, own, path⟩
  · rintro ⟨s, member, c, own, rfl⟩
    refine ⟨_, Or.inr ⟨s, member, rfl⟩, ?_⟩
    rw [FileBody.tree, sslCertificate_stream, mem_certificatePaths]
    exact ⟨c, own, rfl⟩

end Directory

/-! ### Named by the database -/

/-- The claimed names of the desired state. -/
def claimedNames (cfg : Deployment) (db : Database) : List String :=
  claimedTlsNames (desiredHosts cfg db)

/-- A row that the http context names. -/
def Database.NamesHttp (cfg : Deployment) (db : Database) (c : Certificate) : Prop :=
  (∃ h ∈ includedHosts db, h.certificateId = some c.id) ∨
  (∃ r ∈ db.redirectionHosts, r.enabled = true ∧ r.certificateId = some c.id) ∨
  (∃ d ∈ db.deadHosts, d.enabled = true ∧ d.certificateId = some c.id) ∨
  (c.status = .active ∧ servedNames (claimedNames cfg db) (loadCertificates db) c ≠ [])

/-- A row that the stream context names. -/
def Database.NamesStream (db : Database) (c : Certificate) : Prop :=
  ∃ s ∈ includedStreams db, s.certificateId = some c.id

section Rows

variable {cfg : Deployment} {db : Database} (constraints : db.Constraints)

/-- A foreign key leads to a row, and to one only. -/
theorem relatedCertificate_iff (ids : (db.certificates.map (·.id)).Nodup) {ref : Option Id}
    {spec : CertificateSpec} :
    (related db.certificate? ref).map (certificateSpec cfg) = some spec ↔
      ∃ c ∈ db.certificates, ref = some c.id ∧ spec = certificateSpec cfg c := by
  constructor
  · intro found
    obtain ⟨c, row, rfl⟩ := Option.map_eq_some_iff.mp found
    obtain ⟨i, rfl, lookup⟩ := Option.bind_eq_some_iff.mp row
    have same : c.id = i := by simpa using List.find?_some lookup
    exact ⟨c, List.mem_of_find?_eq_some lookup, by rw [same], rfl⟩
  · rintro ⟨c, row, rfl, rfl⟩
    have lookup : db.certificate? c.id = some c := find?_key ids row
    simp only [related, Option.bind_some, lookup, Option.map_some]

include constraints

theorem names_desiredState {spec : CertificateSpec} :
    (desiredState cfg db).Names spec ↔
      ∃ c ∈ db.certificates, db.NamesHttp cfg c ∧ spec = certificateSpec cfg c := by
  have attached := @relatedCertificate_iff cfg db constraints.certificateIds
  constructor
  · rintro (⟨_, host, own⟩ | ⟨_, host, own⟩ | ⟨_, host, own⟩ | ⟨_, host, rfl⟩)
    · obtain ⟨h, included, rfl⟩ := List.mem_map.mp host
      obtain ⟨c, row, ref, rfl⟩ := attached.mp own
      exact ⟨c, row, Or.inl ⟨h, included, ref⟩, rfl⟩
    · obtain ⟨r, member, rfl⟩ := List.mem_map.mp host
      obtain ⟨c, row, ref, rfl⟩ := attached.mp own
      have enabled : r ∈ db.redirectionHosts ∧ r.enabled = true := by simpa using member
      exact ⟨c, row, Or.inr (Or.inl ⟨r, enabled.1, enabled.2, ref⟩), rfl⟩
    · obtain ⟨d, member, rfl⟩ := List.mem_map.mp host
      obtain ⟨c, row, ref, rfl⟩ := attached.mp own
      have enabled : d ∈ db.deadHosts ∧ d.enabled = true := by simpa using member
      exact ⟨c, row, Or.inr (Or.inr (Or.inl ⟨d, enabled.1, enabled.2, ref⟩)), rfl⟩
    · obtain ⟨c, member, rfl⟩ := List.mem_map.mp host
      obtain ⟨active, serves⟩ := List.mem_filter.mp member
      obtain ⟨row, status⟩ := loadCertificates_active active
      exact ⟨c, row, Or.inr (Or.inr (Or.inr ⟨status, by simpa [claimedNames] using serves⟩)), rfl⟩
  · rintro ⟨c, row, ⟨h, included, ref⟩ | ⟨r, member, enabled, ref⟩ | ⟨d, member, enabled, ref⟩ |
      ⟨status, serves⟩, rfl⟩
    · exact Or.inl ⟨_, List.mem_map_of_mem included, attached.mpr ⟨c, row, ref, rfl⟩⟩
    · exact Or.inr (Or.inl ⟨_, List.mem_map_of_mem (by simpa using ⟨member, enabled⟩),
        attached.mpr ⟨c, row, ref, rfl⟩⟩)
    · exact Or.inr (Or.inr (Or.inl ⟨_, List.mem_map_of_mem (by simpa using ⟨member, enabled⟩),
        attached.mpr ⟨c, row, ref, rfl⟩⟩))
    · refine Or.inr (Or.inr (Or.inr ⟨_, List.mem_map_of_mem (List.mem_filter.mpr ⟨?_, ?_⟩), rfl⟩))
      · simpa [loadCertificates] using ⟨row, status⟩
      · simpa [claimedNames] using serves

theorem streamNames_desiredState {spec : CertificateSpec} :
    (∃ s ∈ (desiredState cfg db).streams, s.certificate = some spec) ↔
      ∃ c ∈ db.certificates, db.NamesStream c ∧ spec = certificateSpec cfg c := by
  have attached := @relatedCertificate_iff cfg db constraints.certificateIds
  constructor
  · rintro ⟨_, host, own⟩
    obtain ⟨s, included, rfl⟩ := List.mem_map.mp host
    obtain ⟨c, row, ref, rfl⟩ := attached.mp own
    exact ⟨c, row, ⟨s, included, ref⟩, rfl⟩
  · rintro ⟨c, row, ⟨s, included, ref⟩, rfl⟩
    exact ⟨_, List.mem_map_of_mem included, attached.mpr ⟨c, row, ref, rfl⟩⟩

end Rows

end MegooPM
