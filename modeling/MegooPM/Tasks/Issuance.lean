import MegooPM.Api.Requests
import MegooPM.Nginx.CertificatePaths
import MegooPM.Nginx.AllOrNothing
import MegooPM.Lib.Transition

/-!
# The life of a certificate

Requests and issuing tasks interleave: a row may be attached to hosts while its material is
still to come. What is active, or attached to something that is rendered, has its material
on disk in every run in which certificates are attached only once their material is there.
-/
namespace MegooPM

open Lib

/-! ### Runs -/

/-- The store, and the issuing tasks that are under way. -/
structure Instance where
  store : Store := {}
  issuing : List Issuing := []
  deriving DecidableEq, Repr

inductive InstanceEvent where
  | request (r : WriteRequest)
  /-- `_issue_async` loads the row. -/
  | load (certId : Id)
  /-- The issuer has answered and `write_material` is done. -/
  | storeMaterial (i : Issuing)
  /-- The commit of a success. -/
  | issued (i : Issuing) (domainNames : List String) (notValidAfter : DateTime) (now : String)
  /-- The commit of a failure inside `issue_for_certificate`. -/
  | failed (i : Issuing) (error now : String)
  /-- The commit of a failure before it: a row that already says so is left alone. -/
  | failedEarly (i : Issuing) (error now : String)
  /-- The worker dies. -/
  | lost (i : Issuing)

/-- A task leaves its place to what it has become. -/
def Instance.replace (s : Instance) (store : Store) (i : Issuing) (next : List Issuing) : Instance :=
  { store, issuing := next ++ s.issuing.erase i }

inductive InstanceStep (hashApr1 : String → String) :
    Instance → InstanceEvent → Instance → Prop where
  | request {s : Instance} {r : WriteRequest} {store' : Store}
      (handled : RequestStep hashApr1 s.store r store') :
      InstanceStep hashApr1 s (.request r) { s with store := store' }
  | load {s : Instance} {certId : Id} {row : Certificate}
      (found : s.store.db.certificate? certId = some row) :
      InstanceStep hashApr1 s (.load certId) { s with issuing := { loaded := row } :: s.issuing }
  | storeMaterial {s : Instance} {i : Issuing} (running : i ∈ s.issuing)
      (named : i.loaded.domainNames ≠ []) :
      InstanceStep hashApr1 s (.storeMaterial i)
        (s.replace { s.store with material := i.loaded.id :: s.store.material } i
          [{ i with stored := true }])
  | issued {s : Instance} {i : Issuing} {names : List String} {until_ : DateTime} {now : String}
      (running : i ∈ s.issuing) (stored : i.stored = true) :
      InstanceStep hashApr1 s (.issued i names until_ now)
        (s.replace (s.store.record i.loaded (i.issued names until_ now)) i [])
  | failed {s : Instance} {i : Issuing} {error now : String} (running : i ∈ s.issuing) :
      InstanceStep hashApr1 s (.failed i error now)
        (s.replace (s.store.record i.loaded (i.failed error now)) i [])
  | failedEarly {s : Instance} {i : Issuing} {error now : String} (running : i ∈ s.issuing)
      (before : i.stored = false) :
      InstanceStep hashApr1 s (.failedEarly i error now)
        (s.replace (s.store.record i.loaded
          (if i.loaded.status = .failed then i.loaded else i.failed error now)) i [])
  | lost {s : Instance} {i : Issuing} (running : i ∈ s.issuing) :
      InstanceStep hashApr1 s (.lost i) (s.replace s.store i [])

/-! ### References to certificates -/

/-- The certificates attached to hosts and streams. -/
def Database.certificateRefs (db : Database) : List Id :=
  db.proxyHosts.filterMap (·.certificateId) ++ db.redirectionHosts.filterMap (·.certificateId) ++
    db.deadHosts.filterMap (·.certificateId) ++ db.streams.filterMap (·.certificateId)

/-- The certificate a request attaches. -/
def WriteRequest.attaches : WriteRequest → Option Id
  | .createProxyHost h => h.certificateId
  | .updateProxyHost _ c => c.certificateId.value?
  | .createRedirectionHost h => h.certificateId
  | .updateRedirectionHost _ c => c.certificateId.value?
  | .createDeadHost h => h.certificateId
  | .updateDeadHost _ c => c.certificateId.value?
  | .createStream t => t.certificateId
  | .updateStream _ c => c.certificateId.value?
  | _ => none

section Refs

variable {α : Type} {rows : List α} {ref : α → Option Id} {key : α → Id} {k i : Id}

/-- A reference after a partial update: the old one, or the one that was set. -/
theorem overNullable_eq_some {c : Change Id} {old : Option Id} (now : c.overNullable old = some i) :
    old = some i ∨ c.value? = some i := by
  cases c with
  | unset => exact Or.inl now
  | null => cases now
  | set a => exact Or.inr now

private theorem refs_add {row : α} (member : i ∈ (rows ++ [row]).filterMap ref) :
    i ∈ rows.filterMap ref ∨ ref row = some i := by
  obtain ⟨x, inside, own⟩ := List.mem_filterMap.mp member
  rcases List.mem_append.mp inside with old | new
  · exact Or.inl (List.mem_filterMap.mpr ⟨x, old, own⟩)
  · rw [List.mem_singleton.mp new] at own
    exact Or.inr own

private theorem refs_map {f : α → α} (member : i ∈ (rows.map f).filterMap ref)
    (same : ∀ row, ref (f row) = ref row) : i ∈ rows.filterMap ref := by
  obtain ⟨_, inside, own⟩ := List.mem_filterMap.mp member
  obtain ⟨row, before, rfl⟩ := List.mem_map.mp inside
  exact List.mem_filterMap.mpr ⟨row, before, same row ▸ own⟩

private theorem refs_update (ref : α → Option Id) (f : α → α) {c : Change Id}
    (set : ∀ row, ref (f row) = c.overNullable (ref row))
    (member : i ∈ (updateAt key k f rows).filterMap ref) :
    i ∈ rows.filterMap ref ∨ c.value? = some i := by
  obtain ⟨row, inside, own⟩ := List.mem_filterMap.mp member
  obtain ⟨old, before, rfl⟩ := mem_updateAt.mp inside
  split at own
  next =>
    rw [set] at own
    rcases overNullable_eq_some own with kept | new
    · exact Or.inl (List.mem_filterMap.mpr ⟨old, before, kept⟩)
    · exact Or.inr new
  next => exact Or.inl (List.mem_filterMap.mpr ⟨old, before, own⟩)

private theorem refs_remove (member : i ∈ (removeAt key k rows).filterMap ref) :
    i ∈ rows.filterMap ref := by
  obtain ⟨row, inside, own⟩ := List.mem_filterMap.mp member
  exact List.mem_filterMap.mpr ⟨row, (mem_removeAt.mp inside).1, own⟩

private theorem refs_setNull {f : α → α} (member : i ∈ (rows.map f).filterMap ref)
    (set : ∀ row, ref (f row) = setNull k (ref row)) : i ∈ rows.filterMap ref ∧ i ≠ k := by
  obtain ⟨_, inside, own⟩ := List.mem_filterMap.mp member
  obtain ⟨row, before, rfl⟩ := List.mem_map.mp inside
  rw [set, setNull] at own
  split at own
  next => cases own
  next other =>
    refine ⟨List.mem_filterMap.mpr ⟨row, before, own⟩, ?_⟩
    rintro rfl
    exact other own

end Refs

theorem mem_certificateRefs {db : Database} {i : Id} : i ∈ db.certificateRefs ↔
    i ∈ db.proxyHosts.filterMap (·.certificateId) ∨
    i ∈ db.redirectionHosts.filterMap (·.certificateId) ∨
    i ∈ db.deadHosts.filterMap (·.certificateId) ∨
    i ∈ db.streams.filterMap (·.certificateId) := by
  simp only [Database.certificateRefs, List.mem_append, or_assoc]

/-- What a request leaves attached was attached before or is attached by it; a deleted
certificate is attached to nothing. -/
theorem WriteRequest.Wrote.certificateRefs {s s' : Store} {r : WriteRequest}
    (wrote : r.Wrote s s') {i : Id} (now : i ∈ s'.db.certificateRefs) :
    (i ∈ s.db.certificateRefs ∨ r.attaches = some i) ∧ ∀ d, r = .deleteCertificate d → i ≠ d := by
  rw [mem_certificateRefs] at now ⊢
  cases r <;> simp only [WriteRequest.Wrote] at wrote <;> simp only [WriteRequest.attaches]
  -- the tables of hosts and streams
  case createProxyHost h =>
    subst wrote
    have before := now.imp_left refs_add
    exact ⟨by tauto, nofun⟩
  case updateProxyHost k c =>
    subst wrote
    have before := now.imp_left (refs_update ProxyHost.certificateId c.apply fun _ => rfl)
    exact ⟨by tauto, nofun⟩
  case deleteProxyHost k =>
    subst wrote
    exact ⟨Or.inl (now.imp_left refs_remove), nofun⟩
  case createRedirectionHost h =>
    subst wrote
    have before := now.imp_right (Or.imp_left refs_add)
    exact ⟨by tauto, nofun⟩
  case updateRedirectionHost k c =>
    subst wrote
    have before := now.imp_right
      (Or.imp_left (refs_update RedirectionHost.certificateId c.apply fun _ => rfl))
    exact ⟨by tauto, nofun⟩
  case deleteRedirectionHost k =>
    subst wrote
    exact ⟨Or.inl (now.imp_right (Or.imp_left refs_remove)), nofun⟩
  case createDeadHost h =>
    subst wrote
    have before := now.imp_right (Or.imp_right (Or.imp_left refs_add))
    exact ⟨by tauto, nofun⟩
  case updateDeadHost k c =>
    subst wrote
    have before := now.imp_right (Or.imp_right
      (Or.imp_left (refs_update DeadHost.certificateId c.apply fun _ => rfl)))
    exact ⟨by tauto, nofun⟩
  case deleteDeadHost k =>
    subst wrote
    exact ⟨Or.inl (now.imp_right (Or.imp_right (Or.imp_left refs_remove))), nofun⟩
  case createStream t =>
    subst wrote
    have before := now.imp_right (Or.imp_right (Or.imp_right refs_add))
    exact ⟨by tauto, nofun⟩
  case updateStream k c =>
    subst wrote
    have before := now.imp_right (Or.imp_right
      (Or.imp_right (refs_update Stream.certificateId c.apply fun _ => rfl)))
    exact ⟨by tauto, nofun⟩
  case deleteStream k =>
    subst wrote
    exact ⟨Or.inl (now.imp_right (Or.imp_right (Or.imp_right refs_remove))), nofun⟩
  -- the two deletes that reach into the tables of hosts
  case deleteAccessList k =>
    subst wrote
    refine ⟨Or.inl (now.imp_left fun member => ?_), nofun⟩
    exact refs_map member fun row => by split <;> rfl
  case deleteCertificate k =>
    subst wrote
    have before : (i ∈ s.db.proxyHosts.filterMap (·.certificateId) ∨
        i ∈ s.db.redirectionHosts.filterMap (·.certificateId) ∨
        i ∈ s.db.deadHosts.filterMap (·.certificateId) ∨
        i ∈ s.db.streams.filterMap (·.certificateId)) ∧ i ≠ k := by
      rcases now with p | p | p | p
      all_goals
        obtain ⟨old, apart⟩ := refs_setNull (k := k) p fun _ => rfl
        exact ⟨by tauto, apart⟩
    refine ⟨Or.inl before.1, ?_⟩
    rintro d ⟨⟩
    exact before.2
  -- the others leave these tables alone
  all_goals
    first
      | subst wrote
      | obtain ⟨_, rfl⟩ := wrote
      | obtain ⟨_, _, rfl⟩ := wrote
      | obtain ⟨_, _, _, rfl⟩ := wrote
    exact ⟨Or.inl now, nofun⟩

/-! ### What a request does to the certificates -/

/-- The table and the volume as they were. -/
structure SameCertificates (s s' : Store) : Prop where
  rows : s'.db.certificates = s.db.certificates
  material : s'.material = s.material
  seq : s'.certificateSeq = s.certificateSeq

/-- One more row, with the next id; only an active one brings its material along. -/
structure AddedCertificate (s s' : Store) (cert : Certificate) : Prop where
  rows : s'.db.certificates = s.db.certificates ++ [cert]
  fresh : s.certificateSeq < cert.id
  seq : s'.certificateSeq = cert.id
  material : (s'.material = cert.id :: s.material) ∨
    (cert.status = .pending ∧ s'.material = s.material)

/-- One row less, and its directory gone. -/
structure DroppedCertificate (s s' : Store) (certId : Id) : Prop where
  rows : s'.db.certificates = removeAt Certificate.id certId s.db.certificates
  material : s'.material = s.material.filter (· ≠ certId)
  seq : s'.certificateSeq = s.certificateSeq

theorem WriteRequest.Wrote.certificates {s s' : Store} {r : WriteRequest} (wrote : r.Wrote s s') :
    SameCertificates s s' ∨ (∃ cert, AddedCertificate s s' cert) ∨
      ∃ d, r = .deleteCertificate d ∧ DroppedCertificate s s' d := by
  cases r <;> simp only [WriteRequest.Wrote] at wrote
  case uploadCustomCertificate i name validated at_ =>
    obtain ⟨bundle, _, fresh, rfl⟩ := wrote
    exact Or.inr (Or.inl ⟨_, rfl, fresh, rfl, Or.inl rfl⟩)
  case requestLetsencryptCertificate i payload =>
    obtain ⟨provider, fresh, rfl⟩ := wrote
    exact Or.inr (Or.inl ⟨_, rfl, fresh, rfl, Or.inr ⟨rfl, rfl⟩⟩)
  case deleteCertificate d =>
    subst wrote
    exact Or.inr (Or.inr ⟨d, rfl, rfl, rfl, rfl⟩)
  all_goals
    first
      | subst wrote
      | obtain ⟨_, rfl⟩ := wrote
    exact Or.inl ⟨rfl, rfl, rfl⟩

/-! ### The invariant -/

/-- What holds in every state of a run that attaches no certificate before its time. -/
structure SoundMaterial (s : Instance) : Prop where
  constraints : s.store.db.Constraints
  attached : ∀ i ∈ s.store.db.certificateRefs, i ∈ s.store.material
  active : ∀ c ∈ s.store.db.certificates, c.status = .active → c.id ∈ s.store.material
  /-- Material a task has written is there, unless the row has been deleted since. -/
  stored : ∀ i ∈ s.issuing, i.stored = true → i.loaded.id ∈ s.store.material ∨
    ∀ c ∈ s.store.db.certificates, c.id ≠ i.loaded.id
  rowIds : ∀ c ∈ s.store.db.certificates, c.id ≤ s.store.certificateSeq
  taskIds : ∀ i ∈ s.issuing, i.loaded.id ≤ s.store.certificateSeq

theorem soundMaterial_start : SoundMaterial {} := by
  constructor
  · constructor <;> simp
  all_goals
    intro x member
    cases member

/-- Every certificate a request attaches has its material on disk. -/
def InstanceEvent.AttachesStored (s : Instance) : InstanceEvent → Prop
  | .request r => ∀ i, r.attaches = some i → i ∈ s.store.material
  | _ => True

theorem soundMaterial_request {hashApr1 : String → String} {s : Instance} (sound : SoundMaterial s)
    {r : WriteRequest} {store' : Store} (handled : RequestStep hashApr1 s.store r store')
    (timely : ∀ i, r.attaches = some i → i ∈ s.store.material) :
    SoundMaterial { s with store := store' } := by
  obtain ⟨wrote, kept⟩ := handled.wrote
  have refs : ∀ i ∈ store'.db.certificateRefs, i ∈ s.store.material := by
    intro i now
    rcases (wrote.certificateRefs now).1 with old | new
    · exact sound.attached i old
    · exact timely i new
  -- the request leaves the certificates, adds one with a new id, or deletes one
  rcases wrote.certificates with ⟨rows, material, seq⟩ | ⟨cert, rows, fresh, seq, material⟩ |
    ⟨d, rfl, rows, material, seq⟩
  · constructor
    · exact kept sound.constraints
    · simpa only [material] using refs
    · simpa only [rows, material] using sound.active
    · simpa only [rows, material] using sound.stored
    · simpa only [rows, seq] using sound.rowIds
    · simpa only [seq] using sound.taskIds
  · -- the sequence has moved past every id that is in use
    have grows : ∀ i ∈ s.store.material, i ∈ store'.material := by
      intro i member
      rcases material with added | ⟨_, same⟩
      · rw [added]
        exact List.mem_cons_of_mem _ member
      · rwa [same]
    constructor
    · exact kept sound.constraints
    · exact fun i now => grows i (refs i now)
    · intro c member status
      rw [rows] at member
      rcases List.mem_append.mp member with old | new
      · exact grows _ (sound.active c old status)
      · rw [List.mem_singleton.mp new] at status ⊢
        rcases material with added | ⟨pending, _⟩
        · rw [added]
          exact List.mem_cons_self ..
        · rw [pending] at status
          cases status
    · intro i running stored
      refine (sound.stored i running stored).imp (grows _) fun gone c member => ?_
      rw [rows] at member
      rcases List.mem_append.mp member with old | new
      · exact gone c old
      · rw [List.mem_singleton.mp new]
        exact (lt_of_le_of_lt (sound.taskIds i running) fresh).ne'
    · intro c member
      rw [rows] at member
      rw [seq]
      rcases List.mem_append.mp member with old | new
      · exact (lt_of_le_of_lt (sound.rowIds c old) fresh).le
      · rw [List.mem_singleton.mp new]
    · intro i running
      rw [seq]
      exact (lt_of_le_of_lt (sound.taskIds i running) fresh).le
  · -- the deleted row is attached to nothing
    have stays : ∀ i, i ∈ s.store.material → i ≠ d → i ∈ store'.material := by
      intro i member apart
      rw [material]
      simpa using ⟨member, apart⟩
    have rows_of : ∀ c ∈ store'.db.certificates, c ∈ s.store.db.certificates ∧ c.id ≠ d := by
      intro c member
      rw [rows] at member
      exact mem_removeAt.mp member
    constructor
    · exact kept sound.constraints
    · exact fun i now => stays i (refs i now) ((wrote.certificateRefs now).2 d rfl)
    · intro c member status
      obtain ⟨old, apart⟩ := rows_of c member
      exact stays _ (sound.active c old status) apart
    · intro i running stored
      by_cases same : i.loaded.id = d
      · exact Or.inr fun c member => same ▸ (rows_of c member).2
      · exact (sound.stored i running stored).imp (fun there => stays _ there same)
          fun gone c member => gone c (rows_of c member).1
    · intro c member
      rw [seq]
      exact sound.rowIds c (rows_of c member).1
    · intro i running
      rw [seq]
      exact sound.taskIds i running

/-- The commit of a task: it makes a row active only if its own material is on disk. -/
theorem soundMaterial_record {s : Instance} (sound : SoundMaterial s) {i : Issuing}
    (running : i ∈ s.issuing) {new : Certificate}
    (backed : new.status = .active → i.stored = true ∨ i.loaded.status = .active) :
    SoundMaterial (s.replace (s.store.record i.loaded new) i []) := by
  have remains : ∀ j ∈ s.issuing.erase i, j ∈ s.issuing := fun j => List.mem_of_mem_erase
  -- a row keeps its status, or it is that of the task and takes the one written
  have rows_of : ∀ c ∈ (s.store.record i.loaded new).db.certificates,
      ∃ old ∈ s.store.db.certificates, c.id = old.id ∧
        (c.status = old.status ∨
          old.id = i.loaded.id ∧ c.status = new.status ∧ new.status ≠ i.loaded.status) := by
    intro c member
    obtain ⟨old, before, rfl⟩ := mem_updateAt.mp member
    refine ⟨old, before, ?_⟩
    split
    next same =>
      refine ⟨rfl, ?_⟩
      by_cases unchanged : new.status = i.loaded.status
      · exact Or.inl (if_pos unchanged)
      · exact Or.inr ⟨same, if_neg unchanged, unchanged⟩
    next => exact ⟨rfl, Or.inl rfl⟩
  constructor
  · exact constraints_changeCertificate sound.constraints _ fun _ => rfl
  · exact sound.attached
  · intro c member status
    obtain ⟨old, before, same, kept | ⟨own, written, changed⟩⟩ := rows_of c member
    · exact same ▸ sound.active old before (kept ▸ status)
    · -- the task has just written the status, so it has stored the material
      have now : new.status = .active := written ▸ status
      have stored : i.stored = true := by
        rcases backed now with stored | already
        · exact stored
        · exact absurd (now.trans already.symm) changed
      rcases sound.stored i running stored with there | gone
      · exact (same.trans own) ▸ there
      · exact absurd own (gone old before)
  · intro j member stored
    refine (sound.stored j (remains j member) stored).imp id fun gone c row => ?_
    obtain ⟨old, before, same, _⟩ := rows_of c row
    exact same ▸ gone old before
  · intro c row
    obtain ⟨old, before, same, _⟩ := rows_of c row
    exact same ▸ sound.rowIds old before
  · exact fun j member => sound.taskIds j (remains j member)

theorem soundMaterial_step {hashApr1 : String → String} (s : Instance) (e : InstanceEvent)
    (s' : Instance) (sound : SoundMaterial s)
    (moved : Guarded InstanceEvent.AttachesStored (InstanceStep hashApr1) s e s') :
    SoundMaterial s' := by
  obtain ⟨timely, moved⟩ := moved
  cases moved with
  | request handled => exact soundMaterial_request sound handled timely
  | load found =>
    refine { sound with stored := ?_, taskIds := ?_ }
    · intro i member stored
      rcases List.mem_cons.mp member with rfl | running
      · cases stored
      · exact sound.stored i running stored
    · intro i member
      rcases List.mem_cons.mp member with rfl | running
      · exact sound.rowIds _ (List.mem_of_find?_eq_some found)
      · exact sound.taskIds i running
  -- the material only grows
  | storeMaterial running named =>
    refine { sound with attached := ?_, active := ?_, stored := ?_, taskIds := ?_ }
    · exact fun i now => List.mem_cons_of_mem _ (sound.attached i now)
    · exact fun c row status => List.mem_cons_of_mem _ (sound.active c row status)
    · intro i member stored
      rcases List.mem_cons.mp member with rfl | other
      · exact Or.inl (List.mem_cons_self ..)
      · exact (sound.stored i (List.mem_of_mem_erase other) stored).imp_left
          (List.mem_cons_of_mem _)
    · intro i member
      rcases List.mem_cons.mp member with rfl | other
      · have own := sound.taskIds _ running
        exact own
      · exact sound.taskIds i (List.mem_of_mem_erase other)
  | issued running stored => exact soundMaterial_record sound running fun _ => Or.inl stored
  | failed running => exact soundMaterial_record sound running fun active => nomatch active
  | failedEarly running before =>
    -- a failure keeps `active` only where the row had it before
    refine soundMaterial_record sound running fun active => Or.inr ?_
    split at active
    next => exact active
    next => cases active
  | lost running =>
    exact { sound with
      stored := fun i member => sound.stored i (List.mem_of_mem_erase member)
      taskIds := fun i member => sound.taskIds i (List.mem_of_mem_erase member) }

/-! ### What is rendered -/

/-- The loader raises nothing, and every `ssl_certificate` path of both contexts is that of a
row whose material is on disk. -/
def MaterialRendered (cfg : Deployment) (s : Store) : Prop :=
  ∃ state, loadDesiredState cfg s.db = .ok state ∧
    (∀ args ∈ (configBodies cfg state).directives "ssl_certificate",
      ∃ c ∈ s.db.certificates, c.id ∈ s.material ∧ args = [(certificateSpec cfg c).fullchainPath]) ∧
    ∀ bodies, streamBodies state = .ok bodies → ∀ args ∈ bodies.directives "ssl_certificate",
      ∃ c ∈ s.db.certificates, c.id ∈ s.material ∧ args = [(certificateSpec cfg c).fullchainPath]

/-- In every run in which certificates are attached only once their material is on disk, the
rendered paths exist. -/
theorem material_rendered (cfg : Deployment) {hashApr1 : String → String} {s : Instance}
    (run : Reaches (Guarded InstanceEvent.AttachesStored (InstanceStep hashApr1)) {} s) :
    MaterialRendered cfg s.store := by
  have sound := run.invariant soundMaterial_step soundMaterial_start
  have distinct := distinctSpecs_desiredState cfg sound.constraints
  have attached := fun i ref => sound.attached i (mem_certificateRefs.mpr ref)
  refine ⟨_, loadDesiredState_ok cfg sound.constraints, ?_, ?_⟩
  · intro args named
    obtain ⟨spec, names, rfl⟩ := (mem_sslCertificate_config distinct).mp named
    obtain ⟨c, row, source, rfl⟩ := (names_desiredState sound.constraints).mp names
    refine ⟨c, row, ?_, rfl⟩
    rcases source with ⟨h, included, ref⟩ | ⟨r, member, _, ref⟩ | ⟨d, member, _, ref⟩ | ⟨status, _⟩
    · have host := (mem_includedHosts.mp included).1
      exact attached _ (Or.inl (List.mem_filterMap.mpr ⟨h, host, ref⟩))
    · exact attached _ (Or.inr (Or.inl (List.mem_filterMap.mpr ⟨r, member, ref⟩)))
    · exact attached _ (Or.inr (Or.inr (Or.inl (List.mem_filterMap.mpr ⟨d, member, ref⟩))))
    · exact sound.active c row status
  · intro bodies rendered args named
    obtain ⟨t, member, spec, own, rfl⟩ := (mem_sslCertificate_stream distinct rendered).mp named
    obtain ⟨c, row, ⟨stream, included, ref⟩, rfl⟩ :=
      (streamNames_desiredState sound.constraints).mp ⟨t, member, own⟩
    have host := (mem_includedStreams.mp included).1
    refine ⟨c, row, ?_, rfl⟩
    exact attached _ (Or.inr (Or.inr (Or.inr (List.mem_filterMap.mpr ⟨stream, host, ref⟩))))

/-! ### A sample certificate -/

def sampleRequest : LetsEncryptRequest :=
  { name := "parked", domainNames := ["parked.example"] }

/-- The row that is requested. -/
def samplePending : Certificate := pendingCertificate 1 sampleRequest none

/-- A dead host with the certificate attached. -/
def sampleDeadHost : DeadHost :=
  { id := 1, domainNames := ["parked.example"], certificateId := some 1 }

theorem step_samplePending (hashApr1 : String → String) :
    RequestStep hashApr1 {} (.requestLetsencryptCertificate 1 sampleRequest)
      { db := { certificates := [samplePending] }, certificateSeq := 1 } :=
  ⟨[.issueCertificate 1], rfl⟩

/-- When the certificate runs out. -/
def sampleExpiry : DateTime :=
  newYear ⟨2027, by decide⟩

/-- The row once it is issued. -/
def sampleIssued : Certificate :=
  Issuing.issued { loaded := samplePending } [] sampleExpiry "2026-10-03T00:00:00+00:00"

/-- Request, issuance, attachment. -/
theorem material_rendered_issued :
    ∃ s : Instance, Reaches (Guarded InstanceEvent.AttachesStored (InstanceStep id)) {} s ∧
      s.store.db.deadHosts = [sampleDeadHost] ∧ MaterialRendered sampleDeployment s.store := by
  have requested : Guarded InstanceEvent.AttachesStored (InstanceStep id) {}
      (.request (.requestLetsencryptCertificate 1 sampleRequest))
      { store := { db := { certificates := [samplePending] }, certificateSeq := 1 } } :=
    ⟨nofun, .request (step_samplePending id)⟩
  have loaded : Guarded InstanceEvent.AttachesStored (InstanceStep id)
      { store := { db := { certificates := [samplePending] }, certificateSeq := 1 } } (.load 1)
      { store := { db := { certificates := [samplePending] }, certificateSeq := 1 }
        issuing := [{ loaded := samplePending }] } :=
    ⟨trivial, .load rfl⟩
  have stored : Guarded InstanceEvent.AttachesStored (InstanceStep id)
      { store := { db := { certificates := [samplePending] }, certificateSeq := 1 }
        issuing := [{ loaded := samplePending }] } (.storeMaterial { loaded := samplePending })
      { store := { db := { certificates := [samplePending] }, material := [1], certificateSeq := 1 }
        issuing := [{ loaded := samplePending, stored := true }] } :=
    ⟨trivial, .storeMaterial (by decide) (by decide)⟩
  have issued : Guarded InstanceEvent.AttachesStored (InstanceStep id)
      { store := { db := { certificates := [samplePending] }, material := [1], certificateSeq := 1 }
        issuing := [{ loaded := samplePending, stored := true }] }
      (.issued { loaded := samplePending, stored := true } [] sampleExpiry
        "2026-10-03T00:00:00+00:00")
      { store := { db := { certificates := [sampleIssued] }, material := [1], certificateSeq := 1 } } :=
    ⟨trivial, .issued (by decide) rfl⟩
  have attached : Guarded InstanceEvent.AttachesStored (InstanceStep id)
      { store := { db := { certificates := [sampleIssued] }, material := [1], certificateSeq := 1 } }
      (.request (.createDeadHost sampleDeadHost))
      { store := { db := { certificates := [sampleIssued], deadHosts := [sampleDeadHost] }
                   material := [1], certificateSeq := 1 } } := by
    refine ⟨?_, .request ⟨[.reloadNginxConfig], rfl⟩⟩
    rintro i ⟨⟩
    decide
  have run := (((((Reaches.refl _ _).tail requested).tail loaded).tail stored).tail issued).tail
    attached
  exact ⟨_, run, rfl, material_rendered sampleDeployment run⟩

/-- A certificate that is still pending may be attached, and its path is rendered. -/
theorem pending_rendered :
    ∃ s : Instance, Reaches (InstanceStep id) {} s ∧ ¬MaterialRendered sampleDeployment s.store := by
  have requested : InstanceStep id {} (.request (.requestLetsencryptCertificate 1 sampleRequest))
      { store := { db := { certificates := [samplePending] }, certificateSeq := 1 } } :=
    .request (step_samplePending id)
  have handled : RequestStep id
      { db := { certificates := [samplePending] }, certificateSeq := 1 }
      (.createDeadHost sampleDeadHost)
      { db := { certificates := [samplePending], deadHosts := [sampleDeadHost] }
        certificateSeq := 1 } :=
    ⟨[.reloadNginxConfig], rfl⟩
  refine ⟨_, ((Reaches.refl _ _).tail requested).tail (.request handled), ?_⟩
  rintro ⟨state, loaded, http, _⟩
  have constraints := handled.wrote.2
    ((step_samplePending id).wrote.2 soundMaterial_start.constraints)
  cases (loadDesiredState_ok sampleDeployment constraints).symm.trans loaded
  have distinct := distinctSpecs_desiredState sampleDeployment constraints
  have names := (@names_desiredState sampleDeployment _ constraints _).mpr
    ⟨samplePending, List.mem_singleton_self _, Or.inr (Or.inr (Or.inl
      ⟨sampleDeadHost, List.mem_singleton_self _, rfl, rfl⟩)), rfl⟩
  obtain ⟨c, _, there, _⟩ := http _ ((mem_sslCertificate_config distinct).mpr ⟨_, names, rfl⟩)
  cases there

end MegooPM
