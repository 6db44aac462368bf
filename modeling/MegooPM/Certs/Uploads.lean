import MegooPM.Certs.Agreement

/-!
# Uploaded certificates

Which certificates are issued again: the renew route and the request for a new certificate put an
id into the task queue, and so does the sweep of `services/certs/renewal.py` for every one that
expires soon. A worker issues whatever id it takes from the queue; tasks interleave with requests
and may be delivered again.
-/
namespace MegooPM

open Lib

def DateTime.fields (t : DateTime) : List Nat :=
  [t.year, t.month, t.day, t.hour, t.minute, t.second, t.microsecond]

/-- `horizon` is `now + timedelta(days=before_days)`. -/
def isDueForRenewal (expiresOn : Option DateTime) (horizon : DateTime) : Bool :=
  match expiresOn with
  | none => true
  | some expires => decide (expires.fields ≤ horizon.fields)

/-- Only `letsencrypt` certificates, and no pending ones. -/
def listDueCertificateIds (db : Database) (horizon : DateTime) : List Id :=
  ((sortedBy Certificate.id (db.certificates.filter fun c =>
    c.provider = .letsencrypt ∧ c.status ≠ .pending)).filter fun c =>
      isDueForRenewal c.expiresOn horizon).map (·.id)

/-- The files of a directory after `write_material`. -/
def Material.above (m : Material) (old : MaterialFile → Option Bytes) :
    MaterialFile → Option Bytes
  | .fullchain => some m.fullchain
  | .privkey => some m.privkey
  | .chain => m.chain.or (old .chain)

/-- What `validate_certificate` returns for the material of an upload. -/
def CertEnv.validated (env : CertEnv) (m : Material) : ValidatedCertificate where
  domainNames := env.domainNames m.fullchain
  notValidAfter := env.expiry m.fullchain

/-- The tasks under way are operations of the host; `uploads` is what each upload came with. -/
structure UploadHost where
  host : CertHost := {}
  queue : List Id := []
  uploads : Id → Option Material := fun _ => none

inductive UploadEvent where
  | upload (certId : Id) (name : String) (material : Material) (uploadedAt : String)
  | request (certId : Id) (r : LetsEncryptRequest)
  | renew (certId : Id)
  /-- `kept`: what `rmtree` could not delete -/
  | delete (certId : Id) (kept : List MaterialFile)
  | sweep (horizon : DateTime)
  /-- a worker takes an id from the queue, which may hand it out again -/
  | take (op : Nat) (certId : Id) (again : Bool)
  | answer (op : Nat) (issued : IssuedCertificate)
  | write (op : Nat)
  | commit (op : Nat) (now : String)
  | commitFailure (op : Nat) (early : Bool) (error now : String)
  | abandon (op : Nat)
  deriving DecidableEq, Repr

namespace UploadHost

/-- A task goes on. -/
def advance (env : CertEnv) (s : UploadHost) (e : CertEvent) : Option UploadHost :=
  (s.host.next env e).map fun host => { s with host := host }

def next (env : CertEnv) (s : UploadHost) : UploadEvent → Option UploadHost
  | .upload certId name material uploadedAt =>
    match createCustomCertificate { db := s.host.db, certificateSeq := s.host.seq } certId name
      (.ok (env.validated material)) uploadedAt with
    | .ok store =>
      some { s with
        host := { s.host with
          db := store.db
          seq := store.certificateSeq
          disk := Function.update s.host.disk certId (material.above (s.host.disk certId)) }
        uploads := Function.update s.uploads certId (some material) }
    | .error _ => none
  | .request certId r =>
    (s.host.next env (.request certId r)).map fun host =>
      { s with host := host, queue := certId :: s.queue }
  | .renew certId =>
    (s.host.db.certificate? certId).map fun _ => { s with queue := certId :: s.queue }
  | .delete certId kept =>
    match deleteCertificate { db := s.host.db } certId with
    | .ok store =>
      some { s with
        host := { s.host with
          db := store.db
          disk := Function.update s.host.disk certId fun file =>
            if file ∈ kept then s.host.disk certId file else none } }
    | .error _ => none
  | .sweep horizon => some { s with queue := listDueCertificateIds s.host.db horizon ++ s.queue }
  | .take op certId again =>
    if certId ∈ s.queue then
      let left := if again then s.queue else s.queue.erase certId
      match s.host.db.certificate? certId with
      | some _ => (s.host.next env (.issue op certId)).map fun host =>
          { s with host := host, queue := left }
      | none => some { s with queue := left }
    else none
  | .answer op issued => s.advance env (.answer op issued)
  | .write op => s.advance env (.write op)
  | .commit op now => s.advance env (.commit op now)
  | .commitFailure op early error now => s.advance env (.commitFailure op early error now)
  | .abandon op => s.advance env (.abandon op)

end UploadHost

/-- The row that an issuing task has loaded. -/
def CertOp.reissues : CertOp → Option Certificate
  | .issue loaded => some loaded
  | .store loaded _ _ => some loaded
  | _ => none

/-- Uploaded rows have exactly their uploaded files and never fail, and no task issues one. -/
structure UploadHost.Kept (s : UploadHost) : Prop where
  material : ∀ row ∈ s.host.db.certificates, row.provider = .custom →
    ∃ m, s.uploads row.id = some m ∧ s.host.disk row.id .fullchain = some m.fullchain ∧
      s.host.disk row.id .privkey = some m.privkey
  status : ∀ row ∈ s.host.db.certificates, row.provider = .custom → row.status ≠ .failed
  spared : ∀ op o, s.host.ops op = some o → ∃ loaded, o.reissues = some loaded ∧
    loaded.provider ≠ .custom

/-- The renew route is not asked for an uploaded certificate. -/
def UploadHost.filtered (s : UploadHost) : UploadEvent → Prop
  | .renew certId => ∀ row ∈ s.host.db.certificates, row.id = certId → row.provider ≠ .custom
  | _ => True

/-! ### What a task's step does -/

section Tasks

variable {env : CertEnv} {s t : CertHost} {op : Nat} {o : CertOp} {loaded : Certificate}

/-- The step of a task that issues `loaded`: its own place, its own directory and perhaps its own
row change. -/
structure TaskMoves (s t : CertHost) (op : Nat) (loaded : Certificate) : Prop where
  seq : t.seq = s.seq
  ops : t.ops = Function.update s.ops op none ∨
    ∃ o, o.reissues = some loaded ∧ t.ops = Function.update s.ops op (some o)
  disk : ∀ other, other ≠ loaded.id → t.disk other = s.disk other
  db : t.db = s.db ∨ ∃ new, t.db = s.recorded loaded new

theorem reissues_certId (issues : o.reissues = some loaded) : o.certId = loaded.id := by
  cases o with
  | issue row =>
    cases issues
    rfl
  | store row issued left =>
    cases issues
    rfl
  | upload row material left => exact absurd issues (by simp [CertOp.reissues])
  | delete certId removed => exact absurd issues (by simp [CertOp.reissues])

theorem taskMoves_write (issues : o.reissues = some loaded) (moved : s.write op o = some t) :
    TaskMoves s t op loaded := by
  unfold CertHost.write at moved
  split at moved
  next => exact absurd issues (by simp [CertOp.reissues])
  next row issued file left =>
    cases issues
    cases moved
    exact ⟨rfl, Or.inr ⟨_, rfl, rfl⟩, fun other distinct => s.setFile_of_ne file _ distinct,
      Or.inl rfl⟩
  next => exact absurd moved (by simp)

theorem taskMoves_commit {now : String} (issues : o.reissues = some loaded)
    (moved : s.commit env op now o = some t) : TaskMoves s t op loaded := by
  unfold CertHost.commit at moved
  split at moved
  next => exact absurd issues (by simp [CertOp.reissues])
  next row issued =>
    cases issues
    cases moved
    exact ⟨rfl, Or.inl rfl, fun _ _ => rfl, Or.inr ⟨_, rfl⟩⟩
  next => exact absurd issues (by simp [CertOp.reissues])
  next => exact absurd moved (by simp)

theorem taskMoves_commitFailure {early : Bool} {error now : String}
    (issues : o.reissues = some loaded) (moved : s.commitFailure op early error now o = some t) :
    TaskMoves s t op loaded := by
  unfold CertHost.commitFailure at moved
  split at moved
  next row =>
    cases issues
    cases moved
    exact ⟨rfl, Or.inl rfl, fun _ _ => rfl, Or.inr ⟨_, rfl⟩⟩
  next row issued left =>
    cases issues
    cases moved
    exact ⟨rfl, Or.inl rfl, fun _ _ => rfl, Or.inr ⟨_, rfl⟩⟩
  next => exact absurd moved (by simp)

theorem taskMoves_answer {issued : IssuedCertificate}
    (moved : s.next env (.answer op issued) = some t) :
    ∃ row, s.ops op = some (.issue row) ∧ TaskMoves s t op row := by
  simp only [CertHost.next] at moved
  split at moved
  next row here =>
    split at moved
    next =>
      cases moved
      exact ⟨row, here, rfl, Or.inr ⟨_, rfl, rfl⟩, fun _ _ => rfl, Or.inl rfl⟩
    next => exact absurd moved (by simp)
  next => exact absurd moved (by simp)

end Tasks

namespace UploadHost

/-- The id waits in the queue, or a task works on it. -/
def Busy (s : UploadHost) (certId : Id) : Prop :=
  certId ∈ s.queue ∨ ∃ op o, s.host.ops op = some o ∧ o.certId = certId

structure Sound (s : UploadHost) : Prop where
  rows : ∀ row ∈ s.host.db.certificates, row.id ≤ s.host.seq
  busy : ∀ certId, s.Busy certId → certId ≤ s.host.seq
  unique : ∀ a ∈ s.host.db.certificates, ∀ b ∈ s.host.db.certificates, a.id = b.id → a = b
  idle : ∀ row ∈ s.host.db.certificates, s.Busy row.id → row.provider ≠ .custom
  kept : s.Kept

section Steps

variable {env : CertEnv} {s : UploadHost} {certId : Id}

/-- A step that leaves the rows, the files and the tasks alone. -/
theorem Sound.enqueue {queue : List Id} (sound : s.Sound)
    (fine : ∀ id ∈ queue, id ∈ s.queue ∨ (id ≤ s.host.seq ∧
      ∀ row ∈ s.host.db.certificates, row.id = id → row.provider ≠ .custom)) :
    ({ s with queue := queue } : UploadHost).Sound where
  rows := sound.rows
  busy := by
    rintro id (waits | runs)
    · rcases fine id waits with before | ⟨bound, -⟩
      · exact sound.busy id (Or.inl before)
      · exact bound
    · exact sound.busy id (Or.inr runs)
  unique := sound.unique
  idle := by
    rintro row member (waits | runs)
    · rcases fine row.id waits with before | ⟨-, spared⟩
      · exact sound.idle row member (Or.inl before)
      · exact spared row member rfl
    · exact sound.idle row member (Or.inr runs)
  kept := ⟨sound.kept.material, sound.kept.status, sound.kept.spared⟩

/-- A new id is free. -/
theorem Sound.fresh (sound : s.Sound) (new : s.host.seq < certId) :
    (∀ row ∈ s.host.db.certificates, row.id ≠ certId) ∧ ¬ s.Busy certId := by
  constructor
  · rintro row member rfl
    exact absurd (sound.rows row member) (not_le.mpr new)
  · intro busy
    exact absurd (sound.busy certId busy) (not_le.mpr new)

/-- A row with a new id is added; what an uploaded row needs is there. -/
theorem Sound.add {disk : Id → MaterialFile → Option Bytes} {uploads : Id → Option Material}
    (sound : s.Sound) (row : Certificate) (new : s.host.seq < row.id)
    (others : ∀ id, id ≠ row.id → disk id = s.host.disk id ∧ uploads id = s.uploads id)
    (custom : row.provider = .custom → row.status ≠ .failed ∧ ∃ m, uploads row.id = some m ∧
      disk row.id .fullchain = some m.fullchain ∧ disk row.id .privkey = some m.privkey) :
    ({ s with
      host := { s.host with db := s.host.db.addCertificate row, seq := row.id, disk := disk }
      uploads := uploads } : UploadHost).Sound := by
  obtain ⟨absent, free⟩ := sound.fresh new
  -- the id of the new row is past all others, and no task is about it
  have added : ∀ other ∈ (s.host.db.addCertificate row).certificates,
      other ∈ s.host.db.certificates ∧ other.id ≠ row.id ∨ other = row := by
    intro other member
    rcases List.mem_append.mp member with old | last
    · exact Or.inl ⟨old, absent other old⟩
    · exact Or.inr (List.mem_singleton.mp last)
  constructor
  case rows =>
    intro other member
    rcases added other member with ⟨old, -⟩ | rfl
    · exact le_trans (sound.rows other old) (le_of_lt new)
    · exact le_refl _
  case busy => exact fun id busy => le_trans (sound.busy id busy) (le_of_lt new)
  case unique =>
    intro a first b second same
    rcases added a first with ⟨left, apart⟩ | rfl
    · rcases added b second with ⟨right, -⟩ | rfl
      · exact sound.unique a left b right same
      · exact absurd same apart
    · rcases added b second with ⟨-, apart⟩ | rfl
      · exact absurd same.symm apart
      · rfl
  case idle =>
    intro other member busy
    rcases added other member with ⟨old, -⟩ | rfl
    · exact sound.idle other old busy
    · exact absurd busy free
  case kept =>
    refine ⟨fun other member uploaded => ?_, fun other member uploaded => ?_, sound.kept.spared⟩
    · rcases added other member with ⟨old, apart⟩ | rfl
      · obtain ⟨sameDisk, sameUpload⟩ := others other.id apart
        simp only [sameDisk, sameUpload]
        exact sound.kept.material other old uploaded
      · exact (custom uploaded).2
    · rcases added other member with ⟨old, -⟩ | rfl
      · exact sound.kept.status other old uploaded
      · exact (custom uploaded).1

/-- A row goes, and perhaps its files. -/
theorem Sound.drop {files : MaterialFile → Option Bytes} (sound : s.Sound) :
    ({ s with
      host := { s.host with
        db := s.host.db.dropCertificate certId
        disk := Function.update s.host.disk certId files } } : UploadHost).Sound := by
  have old : ∀ {row : Certificate}, row ∈ (s.host.db.dropCertificate certId).certificates →
      row ∈ s.host.db.certificates ∧ row.id ≠ certId := fun member => mem_removeAt.mp member
  constructor
  case rows => exact fun row member => sound.rows row (old member).1
  case busy => exact sound.busy
  case unique => exact fun a first b second => sound.unique a (old first).1 b (old second).1
  case idle => exact fun row member => sound.idle row (old member).1
  case kept =>
    refine ⟨fun row member uploaded => ?_, fun row member => sound.kept.status row (old member).1,
      sound.kept.spared⟩
    simp only [Function.update_of_ne (old member).2]
    exact sound.kept.material row (old member).1 uploaded

/-- A task goes on: it is not about an uploaded row, so none of those changes. -/
theorem Sound.advance {t : CertHost} {op : Nat} {o : CertOp} {loaded : Certificate}
    (sound : s.Sound) (here : s.host.ops op = some o) (issues : o.reissues = some loaded)
    (moves : TaskMoves s.host t op loaded) : ({ s with host := t } : UploadHost).Sound := by
  have working : s.Busy loaded.id := Or.inr ⟨op, o, here, reissues_certId issues⟩
  have acme : loaded.provider ≠ .custom := by
    obtain ⟨row, same, other⟩ := sound.kept.spared op o here
    rw [issues] at same
    cases same
    exact other
  -- a row after the step comes from one with the same key and provider
  have origin : ∀ row ∈ t.db.certificates, ∃ old ∈ s.host.db.certificates,
      old.id = row.id ∧ old.provider = row.provider ∧ (old.id ≠ loaded.id → row = old) := by
    intro row member
    rcases moves.db with same | ⟨new, changed⟩
    · rw [same] at member
      exact ⟨row, member, rfl, rfl, fun _ => rfl⟩
    · rw [changed] at member
      obtain ⟨old, inside, rfl⟩ := mem_updateAt.mp member
      refine ⟨old, inside, ?_⟩
      split
      next own => exact ⟨rfl, rfl, fun other => absurd own other⟩
      next => exact ⟨rfl, rfl, fun _ => rfl⟩
  have unchanged : ∀ row ∈ t.db.certificates, row.provider = .custom →
      row ∈ s.host.db.certificates ∧ row.id ≠ loaded.id := by
    intro row member uploaded
    obtain ⟨old, inside, key, provider, same⟩ := origin row member
    have other : old.id ≠ loaded.id := by
      intro own
      exact sound.idle old inside (own ▸ working) (provider.trans uploaded)
    exact ⟨same other ▸ inside, key ▸ other⟩
  have runs : ∀ {v p}, t.ops v = some p → s.host.ops v = some p ∨ p.reissues = some loaded := by
    intro v p there
    rcases moves.ops with gone | ⟨next, same, kept⟩
    · rw [gone] at there
      by_cases mine : v = op
      · rw [mine, Function.update_self] at there
        exact absurd there (by simp)
      · rw [Function.update_of_ne mine] at there
        exact Or.inl there
    · rw [kept] at there
      by_cases mine : v = op
      · rw [mine, Function.update_self] at there
        cases there
        exact Or.inr same
      · rw [Function.update_of_ne mine] at there
        exact Or.inl there
  have before : ∀ id, ({ s with host := t } : UploadHost).Busy id → s.Busy id := by
    rintro id (waits | ⟨v, p, there, own⟩)
    · exact Or.inl waits
    · rcases runs there with old | same
      · exact Or.inr ⟨v, p, old, own⟩
      · rw [reissues_certId same] at own
        exact own ▸ working
  constructor
  case rows =>
    intro row member
    obtain ⟨old, inside, key, -⟩ := origin row member
    rw [← key, moves.seq]
    exact sound.rows old inside
  case busy =>
    intro id busy
    rw [moves.seq]
    exact sound.busy id (before id busy)
  case unique =>
    intro a first b second same
    rcases moves.db with still | ⟨new, changed⟩
    · rw [still] at first second
      exact sound.unique a first b second same
    · rw [changed] at first second
      obtain ⟨left, insideLeft, rfl⟩ := mem_updateAt.mp first
      obtain ⟨right, insideRight, rfl⟩ := mem_updateAt.mp second
      have keys : left.id = right.id := by
        split at same <;> split at same <;> exact same
      rw [sound.unique left insideLeft right insideRight keys]
  case idle =>
    intro row member busy uploaded
    obtain ⟨inside, -⟩ := unchanged row member uploaded
    exact sound.idle row inside (before _ busy) uploaded
  case kept =>
    refine ⟨fun row member uploaded => ?_, fun row member uploaded => ?_, fun v p there => ?_⟩
    · obtain ⟨inside, other⟩ := unchanged row member uploaded
      simp only [moves.disk row.id other]
      exact sound.kept.material row inside uploaded
    · exact sound.kept.status row (unchanged row member uploaded).1 uploaded
    · rcases runs there with old | same
      · exact sound.kept.spared v p old
      · exact ⟨loaded, same, acme⟩

/-- A worker loads the row of an id from the queue. -/
theorem Sound.load {row : Certificate} (sound : s.Sound) (op : Nat) (waits : row.id ∈ s.queue)
    (member : row ∈ s.host.db.certificates) :
    ({ s with host := s.host.put op (some (.issue row)) } : UploadHost).Sound := by
  have acme := sound.idle row member (Or.inl waits)
  have runs : ∀ {v p}, (s.host.put op (some (.issue row))).ops v = some p →
      s.host.ops v = some p ∨ p = .issue row := by
    intro v p there
    by_cases mine : v = op
    · simp only [mine, CertHost.put, Function.update_self] at there
      exact Or.inr (Option.some.inj there).symm
    · simp only [CertHost.put, Function.update_of_ne mine] at there
      exact Or.inl there
  have before : ∀ id, ({ s with host := s.host.put op (some (.issue row)) } : UploadHost).Busy id →
      s.Busy id := by
    rintro id (waiting | ⟨v, p, there, own⟩)
    · exact Or.inl waiting
    · rcases runs there with old | rfl
      · exact Or.inr ⟨v, p, old, own⟩
      · exact Or.inl (own ▸ waits)
  constructor
  case rows => exact sound.rows
  case busy => exact fun id busy => sound.busy id (before id busy)
  case unique => exact sound.unique
  case idle => exact fun other inside busy => sound.idle other inside (before _ busy)
  case kept =>
    refine ⟨sound.kept.material, sound.kept.status, fun v p there => ?_⟩
    rcases runs there with old | rfl
    · exact sound.kept.spared v p old
    · exact ⟨row, rfl, acme⟩

theorem mem_listDueCertificateIds {db : Database} {horizon : DateTime}
    (due : certId ∈ listDueCertificateIds db horizon) :
    ∃ row ∈ db.certificates, row.id = certId ∧ row.provider = .letsencrypt := by
  obtain ⟨row, chosen, same⟩ := List.mem_map.mp due
  have member := (mem_sortedBy _ _ _).mp (List.mem_filter.mp chosen).1
  obtain ⟨inside, kind⟩ := List.mem_filter.mp member
  exact ⟨row, inside, same, (of_decide_eq_true kind).1⟩

/-- An id that a row with another provider has. -/
theorem Sound.spare {row : Certificate} (sound : s.Sound) (member : row ∈ s.host.db.certificates)
    (own : row.id = certId) (other : row.provider ≠ .custom) :
    certId ≤ s.host.seq ∧
      ∀ third ∈ s.host.db.certificates, third.id = certId → third.provider ≠ .custom := by
  refine ⟨own ▸ sound.rows row member, fun third inside same => ?_⟩
  rw [sound.unique third inside row member (same.trans own.symm)]
  exact other

theorem Sound.take {t : UploadHost} {op : Nat} {again : Bool} (sound : s.Sound)
    (moved : s.next env (.take op certId again) = some t) : t.Sound := by
  simp only [UploadHost.next] at moved
  split at moved
  next waits =>
    have fewer : ∀ id ∈ (if again then s.queue else s.queue.erase certId), id ∈ s.queue := by
      intro id member
      split at member
      · exact member
      · exact List.mem_of_mem_erase member
    split at moved
    next row found =>
      obtain ⟨host, began, rfl⟩ := Option.map_eq_some_iff.mp moved
      simp only [CertHost.next] at began
      split at began
      next =>
        obtain ⟨loaded, same, rfl⟩ := Option.map_eq_some_iff.mp began
        have own : loaded.id = certId := by simpa using List.find?_some same
        have waiting : loaded.id ∈ s.queue := own ▸ waits
        have loads := sound.load op waiting (List.mem_of_find?_eq_some same)
        exact loads.enqueue fun id member => Or.inl (fewer id member)
      next => exact absurd began (by simp)
    next missing =>
      cases moved
      exact sound.enqueue fun id member => Or.inl (fewer id member)
  next => exact absurd moved (by simp)

/-- One step. -/
theorem Sound.step {t : UploadHost} {e : UploadEvent} (sound : s.Sound) (filtered : s.filtered e)
    (moved : s.next env e = some t) : t.Sound := by
  -- a task works on a row that the request or the sweep let through
  have tasks : ∀ {op o}, s.host.ops op = some o → ∃ loaded, o.reissues = some loaded := by
    intro op o here
    obtain ⟨loaded, issues, -⟩ := sound.kept.spared op o here
    exact ⟨loaded, issues⟩
  cases e with
  | upload certId name material uploadedAt =>
    simp only [UploadHost.next] at moved
    split at moved
    next store created =>
      cases moved
      obtain ⟨bundle, valid, new, -, rfl⟩ := createCustomCertificate_ok created
      refine sound.add (customCertificate certId name bundle uploadedAt) new ?_ ?_
      · intro id other
        exact ⟨Function.update_of_ne other .., Function.update_of_ne other ..⟩
      · intro _
        have own : (customCertificate certId name bundle uploadedAt).id = certId := rfl
        refine ⟨by simp [customCertificate], material, ?_, ?_, ?_⟩
        · rw [own, Function.update_self]
        · rw [own, Function.update_self]
          rfl
        · rw [own, Function.update_self]
          rfl
    next => exact absurd moved (by simp)
  | request certId r =>
    obtain ⟨host, created, rfl⟩ := Option.map_eq_some_iff.mp moved
    simp only [CertHost.next] at created
    split at created
    next store done =>
      cases created
      obtain ⟨dnsProvider, new, -, rfl⟩ := createLetsencryptCertificate_ok done
      -- a requested row is pending, so it may be issued
      have added := sound.add (pendingCertificate certId r dnsProvider) new
        (fun _ _ => ⟨rfl, rfl⟩) (fun custom => absurd custom (by simp [pendingCertificate]))
      refine added.enqueue fun id member => ?_
      rcases List.mem_cons.mp member with rfl | old
      · exact Or.inr (added.spare (List.mem_append_right _ (List.mem_singleton_self _)) rfl
          (by simp [pendingCertificate]))
      · exact Or.inl old
    next => exact absurd created (by simp)
  | renew certId =>
    obtain ⟨row, found, rfl⟩ := Option.map_eq_some_iff.mp moved
    have own : row.id = certId := by simpa using List.find?_some found
    refine sound.enqueue fun id member => ?_
    rcases List.mem_cons.mp member with rfl | old
    -- this route asks for no provider: the condition does
    · exact Or.inr ⟨own ▸ sound.rows row (List.mem_of_find?_eq_some found), filtered⟩
    · exact Or.inl old
  | delete certId kept =>
    simp only [UploadHost.next] at moved
    split at moved
    next store deleted =>
      cases moved
      obtain ⟨-, rfl⟩ := deleteCertificate_ok deleted
      exact sound.drop
    next => exact absurd moved (by simp)
  | sweep horizon =>
    cases moved
    refine sound.enqueue fun id member => ?_
    rcases List.mem_append.mp member with due | old
    -- the sweep takes rows of Let's Encrypt only
    · obtain ⟨row, inside, own, acme⟩ := mem_listDueCertificateIds due
      exact Or.inr (sound.spare inside own (by simp [acme]))
    · exact Or.inl old
  | take op certId again => exact sound.take moved
  | answer op issued =>
    obtain ⟨host, went, rfl⟩ := Option.map_eq_some_iff.mp moved
    obtain ⟨row, here, moves⟩ := taskMoves_answer went
    exact sound.advance here rfl moves
  | write op =>
    obtain ⟨host, went, rfl⟩ := Option.map_eq_some_iff.mp moved
    obtain ⟨o, here, wrote⟩ := Option.bind_eq_some_iff.mp went
    obtain ⟨loaded, issues⟩ := tasks here
    exact sound.advance here issues (taskMoves_write issues wrote)
  | commit op now =>
    obtain ⟨host, went, rfl⟩ := Option.map_eq_some_iff.mp moved
    obtain ⟨o, here, committed⟩ := Option.bind_eq_some_iff.mp went
    obtain ⟨loaded, issues⟩ := tasks here
    exact sound.advance here issues (taskMoves_commit issues committed)
  | commitFailure op early error now =>
    obtain ⟨host, went, rfl⟩ := Option.map_eq_some_iff.mp moved
    obtain ⟨o, here, committed⟩ := Option.bind_eq_some_iff.mp went
    obtain ⟨loaded, issues⟩ := tasks here
    exact sound.advance here issues (taskMoves_commitFailure issues committed)
  | abandon op =>
    obtain ⟨host, went, rfl⟩ := Option.map_eq_some_iff.mp moved
    obtain ⟨o, here, rfl⟩ := Option.map_eq_some_iff.mp went
    obtain ⟨loaded, issues⟩ := tasks here
    exact sound.advance here issues ⟨rfl, Or.inl rfl, fun _ _ => rfl, Or.inl rfl⟩

end Steps

end UploadHost

/-! ### Runs -/

def UploadStep (env : CertEnv) (s : UploadHost) (e : UploadEvent) (t : UploadHost) : Prop :=
  s.next env e = some t

theorem uploads_initial : UploadHost.Sound {} where
  rows := fun _ member => absurd member (List.not_mem_nil)
  busy := by
    rintro id (waits | ⟨op, o, there, -⟩)
    · exact absurd waits (List.not_mem_nil)
    · exact absurd there (by simp)
  unique := fun _ member => absurd member (List.not_mem_nil)
  idle := fun _ member => absurd member (List.not_mem_nil)
  kept :=
    { material := fun _ member => absurd member (List.not_mem_nil)
      status := fun _ member => absurd member (List.not_mem_nil)
      spared := fun _ _ there => absurd there (by simp) }

/-- Uploaded certificates stay as they were uploaded, over every run in which the renew route is
asked for other certificates only. -/
theorem uploads_stay {env : CertEnv} {s : UploadHost}
    (run : Reaches (Guarded UploadHost.filtered (UploadStep env)) {} s) : s.Kept := by
  have sound : s.Sound :=
    run.invariant (P := UploadHost.Sound) (fun _ _ _ sound moved => sound.step moved.1 moved.2)
      uploads_initial
  exact sound.kept

/-- An upload beside a certificate that is issued at the operator's request. -/
def uploadAndRenew : List UploadEvent :=
  [.upload 1 "uploaded" firstMaterial "then", .request 2 exampleRequest, .renew 2,
   .sweep secondExpiry, .take 0 2 false, .answer 0 secondIssued, .write 0, .write 0,
   .commit 0 "now"]

private theorem uploadAndRenew_filtered :
    Fits UploadHost.filtered (UploadHost.next sampleCertEnv) uploadAndRenew {} := by
  refine And.intro trivial (And.intro trivial (And.intro ?acme ?_))
  case acme =>
    intro row member own
    rcases List.mem_pair.mp member with rfl | rfl
    · exact absurd own (by decide)
    · decide
  repeat' apply And.intro trivial
  trivial

theorem uploads_stay_renewed :
    ∃ s, play (UploadHost.next sampleCertEnv) uploadAndRenew {} = some s ∧
      s.host.disk 1 .fullchain = some [1] ∧ s.host.disk 2 .fullchain = some [2] ∧ s.Kept :=
  ⟨_, rfl, rfl, rfl, uploads_stay (Reaches.of_fits uploadAndRenew_filtered rfl)⟩

/-- The operator asks to renew an uploaded certificate, and the issuer refuses. -/
def refusedRenewal : List UploadEvent :=
  [.upload 1 "uploaded" firstMaterial "then", .renew 1, .take 0 1 false,
   .commitFailure 0 false "refused" "now"]

/-- The issuer answers. -/
def grantedRenewal : List UploadEvent :=
  [.upload 1 "uploaded" firstMaterial "then", .renew 1, .take 0 1 false, .answer 0 secondIssued,
   .write 0, .write 0, .commit 0 "now"]

/-- The uploaded certificate fails, or its files are replaced. -/
theorem upload_reissued : ∃ s t row,
    play (UploadHost.next sampleCertEnv) refusedRenewal {} = some s ∧
      row ∈ s.host.db.certificates ∧ row.provider = .custom ∧ row.status = .failed ∧ ¬ s.Kept ∧
    play (UploadHost.next sampleCertEnv) grantedRenewal {} = some t ∧
      t.uploads 1 = some firstMaterial ∧ t.host.disk 1 .fullchain = some [2] ∧ ¬ t.Kept := by
  refine ⟨_, _, _, rfl, List.mem_singleton_self _, rfl, rfl, fun kept => ?_, rfl, rfl, rfl,
    fun kept => ?_⟩
  · exact kept.status _ (List.mem_singleton_self _) rfl rfl
  · obtain ⟨m, known, there, -⟩ := kept.material _ (List.mem_singleton_self _) rfl
    have uploaded : firstMaterial = m := Option.some.inj known
    subst uploaded
    have replaced : some [2] = some firstMaterial.fullchain := there
    exact absurd replaced (by decide)

end MegooPM
