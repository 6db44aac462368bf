import MegooPM.Services.Certificates
import MegooPM.Certs.Storage

/-!
# Certificate rows and their material

Uploads, issuances, renewals and deletions, step by step: `create_custom_certificate`,
`_issue_async` with `issue_for_certificate`, and `delete_certificate` with their routes and
tasks. Each changes files before the transaction it belongs to is committed, and may stop at any
point in between. An active row should always describe the chain that is on disk.
-/
namespace MegooPM

open Lib

/-- What the x509 library reads out of the first certificate of a chain, and the setting that
replaces the ACME issuer. -/
structure CertEnv where
  expiry : Bytes → DateTime
  domainNames : Bytes → List String
  acmeSelfSigned : Bool

inductive IssuerKind where
  | selfSigned | acme
  deriving DecidableEq, Repr

def CertEnv.buildIssuer (env : CertEnv) (certificate : Certificate) : IssuerKind :=
  if certificate.provider = .selfSigned ∨ env.acmeSelfSigned then .selfSigned else .acme

/-- A certificate's dates have no fraction of a second. -/
def DateTime.wholeSecond (t : DateTime) : DateTime :=
  { t with microsecond := (newYear t.year).microsecond }

structure IssuedCertificate where
  material : Material
  notValidAfter : DateTime
  deriving DecidableEq, Repr

/-- The ACME issuer reads `not_valid_after` from the chain it got. The self-signing one returns
the time it asked for, which the chain holds in whole seconds. -/
def CertEnv.answers (env : CertEnv) (issued : IssuedCertificate) : IssuerKind → Bool
  | .acme => decide (issued.notValidAfter = env.expiry issued.material.fullchain)
  | .selfSigned =>
    decide (env.expiry issued.material.fullchain = issued.notValidAfter.wholeSecond)

/-- An operation under way, and the files it has still to write. -/
inductive CertOp where
  /-- the row is flushed, not committed -/
  | upload (row : Certificate) (material : Material) (left : List MaterialFile)
  /-- `_issue_async` has loaded the row -/
  | issue (loaded : Certificate)
  /-- the issuer has answered -/
  | store (loaded : Certificate) (issued : IssuedCertificate) (left : List MaterialFile)
  /-- the deletion is flushed; whether `rmtree` has deleted anything -/
  | delete (certId : Id) (removed : Bool)
  deriving DecidableEq, Repr

def CertOp.certId : CertOp → Id
  | .upload row _ _ => row.id
  | .issue loaded => loaded.id
  | .store loaded _ _ => loaded.id
  | .delete certId _ => certId

/-- Files of a committed row were changed. -/
def CertOp.touched : CertOp → Bool
  | .store _ _ left => decide (left ≠ [.fullchain, .privkey])
  | .delete _ removed => removed
  | _ => false

/-- The committed database, the volume, and the operations under way. -/
structure CertHost where
  db : Database := {}
  disk : Id → MaterialFile → Option Bytes := fun _ _ => none
  /-- the last id the sequence has given -/
  seq : Id := 0
  ops : Nat → Option CertOp := fun _ => none

inductive CertEvent where
  | upload (op : Nat) (certId : Id) (name : String) (material : Material) (uploadedAt : String)
  /-- a pending row is committed -/
  | request (certId : Id) (r : LetsEncryptRequest)
  | issue (op : Nat) (certId : Id)
  | answer (op : Nat) (issued : IssuedCertificate)
  /-- the next file is in place -/
  | write (op : Nat)
  | commit (op : Nat) (now : String)
  /-- the `except` branch of `_issue_async`; `early` if `issue_for_certificate` was not at work -/
  | commitFailure (op : Nat) (early : Bool) (error now : String)
  /-- nothing is committed: a statement, a file operation or the commit fails, or the worker dies -/
  | abandon (op : Nat)
  | delete (op : Nat) (certId : Id)
  /-- `rmtree` deletes a file; it may pass over any -/
  | remove (op : Nat) (file : MaterialFile)
  deriving DecidableEq, Repr

namespace CertHost

def put (s : CertHost) (op : Nat) (next : Option CertOp) : CertHost :=
  { s with ops := Function.update s.ops op next }

def setFile (s : CertHost) (certId : Id) (file : MaterialFile) (content : Option Bytes) :
    Id → MaterialFile → Option Bytes :=
  Function.update s.disk certId (Function.update (s.disk certId) file content)

/-- The commit of a row that an issuing task had loaded. -/
def recorded (s : CertHost) (loaded new : Certificate) : Database :=
  (Store.record { db := s.db } loaded new).db

/-- The files an upload writes. -/
def uploadFiles (material : Material) : List MaterialFile :=
  .fullchain :: .privkey :: if material.chain.isSome then [.chain] else []

/-- The next `_atomic_write` of an operation. -/
def write (s : CertHost) (op : Nat) : CertOp → Option CertHost
  | .upload row material (file :: left) =>
    some { s.put op (some (.upload row material left)) with
      disk := s.setFile row.id file (some (material.get file)) }
  | .store loaded issued (file :: left) =>
    some { s.put op (some (.store loaded issued left)) with
      disk := s.setFile loaded.id file (some (issued.material.get file)) }
  | _ => none

def commit (s : CertHost) (env : CertEnv) (op : Nat) (now : String) : CertOp → Option CertHost
  | .upload row _ [] => some { s.put op none with db := s.db.addCertificate row }
  | .store loaded issued [] =>
    some { s.put op none with
      db := s.recorded loaded (Issuing.issued { loaded := loaded }
        (env.domainNames issued.material.fullchain) issued.notValidAfter now) }
  | .delete certId _ => some { s.put op none with db := s.db.dropCertificate certId }
  | _ => none

def commitFailure (s : CertHost) (op : Nat) (early : Bool) (error now : String) :
    CertOp → Option CertHost
  | .issue loaded =>
    some { s.put op none with
      db := s.recorded loaded (if early ∧ loaded.status = .failed then loaded
        else Issuing.failed { loaded := loaded } error now) }
  | .store loaded _ _ =>
    some { s.put op none with
      db := s.recorded loaded (Issuing.failed { loaded := loaded } error now) }
  | _ => none

def next (env : CertEnv) (s : CertHost) : CertEvent → Option CertHost
  | .upload op certId name material uploadedAt =>
    if s.ops op = none ∧ s.seq < certId then
      let bundle : ValidatedCertificate :=
        { domainNames := env.domainNames material.fullchain
          notValidAfter := env.expiry material.fullchain }
      some { s.put op (some (.upload (customCertificate certId name bundle uploadedAt) material
        (uploadFiles material))) with seq := certId }
    else none
  | .request certId r =>
    match createLetsencryptCertificate { db := s.db, certificateSeq := s.seq } certId r with
    | .ok store => some { s with db := store.db, seq := store.certificateSeq }
    | .error _ => none
  | .issue op certId =>
    if s.ops op = none then
      (s.db.certificate? certId).map fun row => s.put op (some (.issue row))
    else none
  | .answer op issued =>
    match s.ops op with
    | some (.issue loaded) =>
      if loaded.domainNames ≠ [] ∧ env.answers issued (env.buildIssuer loaded) then
        some (s.put op (some (.store loaded issued [.fullchain, .privkey])))
      else none
    | _ => none
  | .write op => (s.ops op).bind (s.write op)
  | .commit op now => (s.ops op).bind (s.commit env op now)
  | .commitFailure op early error now => (s.ops op).bind (s.commitFailure op early error now)
  | .abandon op => (s.ops op).map fun _ => s.put op none
  | .delete op certId =>
    if s.ops op = none then
      (s.db.certificate? certId).map fun _ => s.put op (some (.delete certId false))
    else none
  | .remove op file =>
    match s.ops op with
    | some (.delete certId _) =>
      some { s.put op (some (.delete certId true)) with disk := s.setFile certId file none }
    | _ => none

/-- A row describes what is on disk: both files are there, and its expiry is the leaf's. -/
def RowAgrees (env : CertEnv) (s : CertHost) (row : Certificate) : Prop :=
  ∃ chain key, s.disk row.id .fullchain = some chain ∧ s.disk row.id .privkey = some key ∧
    row.expiresOn = some (env.expiry chain)

/-- Every active row agrees with the disk, once nothing is under way. -/
def Agrees (env : CertEnv) (s : CertHost) : Prop :=
  (∀ op, s.ops op = none) → ∀ row ∈ s.db.certificates, row.status = .active → s.RowAgrees env row

/-- Operations on one certificate do not overlap, a self-signed certificate is asked for until a
whole second, and an operation that has changed files of an active row is not abandoned. -/
def orderly (env : CertEnv) (s : CertHost) : CertEvent → Prop
  | .issue _ certId => ∀ op o, s.ops op = some o → o.certId ≠ certId
  | .delete _ certId => ∀ op o, s.ops op = some o → o.certId ≠ certId
  | .answer op issued => ∀ loaded, s.ops op = some (.issue loaded) →
    env.buildIssuer loaded = .selfSigned → issued.notValidAfter.microsecond.val = 0
  | .abandon op => ∀ o, s.ops op = some o → o.touched = true →
    ∀ row ∈ s.db.certificates, row.id = o.certId → row.status ≠ .active
  | _ => True

/-! ### One certificate at a time -/

/-- The files that are no longer to be written are written. -/
def Written (s : CertHost) (certId : Id) (material : Material) (left : List MaterialFile) : Prop :=
  ∀ file ∈ [MaterialFile.fullchain, MaterialFile.privkey], file ∉ left →
    s.disk certId file = some (material.get file)

/-- Nobody has changed the row since it was loaded. -/
def Current (s : CertHost) (loaded : Certificate) : Prop :=
  ∀ row ∈ s.db.certificates, row.id = loaded.id → row = loaded

def OpSound (env : CertEnv) (s : CertHost) : CertOp → Prop
  | .upload row material left =>
    (∀ other ∈ s.db.certificates, other.id ≠ row.id) ∧
      row.expiresOn = some (env.expiry material.fullchain) ∧ s.Written row.id material left
  | .issue loaded => s.Current loaded
  | .store loaded issued left =>
    s.Current loaded ∧ issued.notValidAfter = env.expiry issued.material.fullchain ∧
      s.Written loaded.id issued.material left ∧ left <:+ [.fullchain, .privkey]
  | .delete _ _ => True

/-- What holds of one certificate. -/
structure SoundAt (env : CertEnv) (s : CertHost) (certId : Id) : Prop where
  unique : ∀ a ∈ s.db.certificates, ∀ b ∈ s.db.certificates, a.id = certId → b.id = certId → a = b
  alone : ∀ u v o p, s.ops u = some o → s.ops v = some p → o.certId = certId →
    p.certId = certId → u = v
  ops : ∀ op o, s.ops op = some o → o.certId = certId → s.OpSound env o
  agree : ∀ row ∈ s.db.certificates, row.id = certId → row.status = .active →
    (∀ op o, s.ops op = some o → o.certId = certId → o.touched = false) → s.RowAgrees env row

structure Sound (env : CertEnv) (s : CertHost) : Prop where
  rows : ∀ row ∈ s.db.certificates, row.id ≤ s.seq
  running : ∀ op o, s.ops op = some o → o.certId ≤ s.seq
  each : ∀ certId, s.SoundAt env certId

theorem Sound.agrees {env : CertEnv} {s : CertHost} (sound : s.Sound env) : s.Agrees env := by
  intro still row member active
  refine (sound.each row.id).agree row member rfl active fun op o there => ?_
  rw [still op] at there
  exact absurd there (by simp)

/-- Nothing of this certificate differs between the two. -/
structure SameAt (s t : CertHost) (certId : Id) : Prop where
  rows : ∀ row : Certificate, row.id = certId → (row ∈ t.db.certificates ↔ row ∈ s.db.certificates)
  disk : t.disk certId = s.disk certId
  ops : ∀ op (o : CertOp), o.certId = certId → (t.ops op = some o ↔ s.ops op = some o)

section Frame

variable {env : CertEnv} {s t : CertHost} {op : Nat} {certId : Id}

theorem SoundAt.frame (sound : s.SoundAt env certId) (same : SameAt s t certId) :
    t.SoundAt env certId := by
  have old : ∀ {row : Certificate}, row ∈ t.db.certificates → row.id = certId →
      row ∈ s.db.certificates := fun member own => (same.rows _ own).mp member
  have written : ∀ {material left}, s.Written certId material left →
      t.Written certId material left := by
    intro material left known file either done
    rw [same.disk]
    exact known file either done
  constructor
  case unique =>
    intro a first b second left right
    exact sound.unique a (old first left) b (old second right) left right
  case alone =>
    intro u v o p first second left right
    exact sound.alone u v o p ((same.ops u o left).mp first) ((same.ops v p right).mp second)
      left right
  case ops =>
    intro op o there own
    have known := sound.ops op o ((same.ops op o own).mp there) own
    -- each operation knows something about the rows and files of its certificate only
    cases o with
    | upload row material left =>
      cases own
      exact ⟨fun other member here => known.1 other (old member here) here, known.2.1,
        written known.2.2⟩
    | issue loaded =>
      cases own
      exact fun row member here => known row (old member here) here
    | store loaded issued left =>
      cases own
      exact ⟨fun row member here => known.1 row (old member here) here, known.2.1,
        written known.2.2.1, known.2.2.2⟩
    | delete certId removed => trivial
  case agree =>
    intro row member own active untouched
    obtain ⟨chain, key, first, second, expiry⟩ := sound.agree row (old member own) own active
      fun op o there mine => untouched op o ((same.ops op o mine).mpr there) mine
    subst own
    refine ⟨chain, key, ?_, ?_, expiry⟩
    · rw [same.disk]
      exact first
    · rw [same.disk]
      exact second

/-- After a step of `op`, which is the only operation of its certificate. -/
theorem SoundAt.of_sole {next : Option CertOp} (moved : t.ops = Function.update s.ops op next)
    (sole : ∀ v o, v ≠ op → s.ops v = some o → o.certId ≠ certId)
    (unique : ∀ a ∈ t.db.certificates, ∀ b ∈ t.db.certificates, a.id = certId → b.id = certId →
      a = b)
    (mine : ∀ o, next = some o → o.certId = certId ∧ t.OpSound env o)
    (agree : ∀ row ∈ t.db.certificates, row.id = certId → row.status = .active →
      (∀ o, next = some o → o.touched = false) → t.RowAgrees env row) :
    t.SoundAt env certId := by
  have only : ∀ {v o}, t.ops v = some o → o.certId = certId → v = op ∧ next = some o := by
    intro v o there own
    rw [moved] at there
    by_cases same : v = op
    · subst same
      rw [Function.update_self] at there
      exact ⟨rfl, there⟩
    · rw [Function.update_of_ne same] at there
      exact absurd own (sole v o same there)
  constructor
  case unique => exact unique
  case alone =>
    intro u v o p first second left right
    exact (only first left).1.trans (only second right).1.symm
  case ops =>
    intro v o there own
    exact (mine o (only there own).2).2
  case agree =>
    intro row member own active untouched
    refine agree row member own active fun o here => untouched op o ?_ (mine o here).1
    rw [moved, Function.update_self, here]

/-- A step of `op` changes the rows, the files and the operations of one certificate only. -/
theorem Sound.at_ {next : Option CertOp} (sound : s.Sound env)
    (moved : t.ops = Function.update s.ops op next)
    (was : ∀ o, s.ops op = some o → o.certId = certId)
    (now : ∀ o, next = some o → o.certId = certId)
    (seq : s.seq ≤ t.seq) (bound : certId ≤ t.seq)
    (rows : ∀ row : Certificate, row.id ≠ certId →
      (row ∈ t.db.certificates ↔ row ∈ s.db.certificates))
    (disk : ∀ other, other ≠ certId → t.disk other = s.disk other)
    (here : t.SoundAt env certId) : t.Sound env := by
  constructor
  case rows =>
    intro row member
    by_cases own : row.id = certId
    · rw [own]
      exact bound
    · exact le_trans (sound.rows row ((rows row own).mp member)) seq
  case running =>
    intro v o there
    rw [moved] at there
    by_cases same : v = op
    · rw [same, Function.update_self] at there
      rw [now o there]
      exact bound
    · rw [Function.update_of_ne same] at there
      exact le_trans (sound.running v o there) seq
  case each =>
    intro other
    by_cases same : other = certId
    · rw [same]
      exact here
    -- nothing of another certificate has changed
    · refine (sound.each other).frame ⟨?_, disk other same, ?_⟩
      · intro row own
        exact rows row (own ▸ same)
      · intro v o own
        rw [moved]
        by_cases ours : v = op
        · rw [ours, Function.update_self]
          constructor
          · exact fun there => absurd (own.symm.trans (now o there)) same
          · exact fun there => absurd (own.symm.trans (was o there)) same
        · rw [Function.update_of_ne ours]

theorem Sound.sole {o : CertOp} (sound : s.Sound env) (here : s.ops op = some o) :
    ∀ v p, v ≠ op → s.ops v = some p → p.certId ≠ o.certId :=
  fun v p other there same => other ((sound.each o.certId).alone v op p o there here same rfl)

/-- A step of an operation that is under way. -/
theorem Sound.go {o : CertOp} {next : Option CertOp} (sound : s.Sound env)
    (here : s.ops op = some o) (moved : t.ops = Function.update s.ops op next)
    (seq : t.seq = s.seq)
    (rows : ∀ row : Certificate, row.id ≠ o.certId →
      (row ∈ t.db.certificates ↔ row ∈ s.db.certificates))
    (disk : ∀ other, other ≠ o.certId → t.disk other = s.disk other)
    (unique : ∀ a ∈ t.db.certificates, ∀ b ∈ t.db.certificates, a.id = o.certId →
      b.id = o.certId → a = b)
    (mine : ∀ p, next = some p → p.certId = o.certId ∧ t.OpSound env p)
    (agree : ∀ row ∈ t.db.certificates, row.id = o.certId → row.status = .active →
      (∀ p, next = some p → p.touched = false) → t.RowAgrees env row) : t.Sound env := by
  refine sound.at_ moved (fun p there => ?_) (fun p there => (mine p there).1) (le_of_eq seq.symm)
    (seq ▸ sound.running op o here) rows disk
    (SoundAt.of_sole moved (sound.sole here) unique mine agree)
  rw [here] at there
  cases there
  rfl

/-- The row agrees as long as the operation has changed nothing. -/
theorem Sound.still {o : CertOp} (sound : s.Sound env) (here : s.ops op = some o)
    (untouched : o.touched = false) {row : Certificate} (member : row ∈ s.db.certificates)
    (own : row.id = o.certId) (active : row.status = .active) : s.RowAgrees env row := by
  refine (sound.each o.certId).agree row member own active fun v p there same => ?_
  have ours := (sound.each o.certId).alone v op p o there here same rfl
  rw [ours, here] at there
  cases there
  exact untouched

end Frame

section Steps

variable {env : CertEnv} {s t : CertHost} {op : Nat} {certId : Id}

theorem setFile_of_ne (s : CertHost) {other : Id} (file : MaterialFile) (content : Option Bytes)
    (distinct : other ≠ certId) : s.setFile certId file content other = s.disk other :=
  Function.update_of_ne distinct ..

/-- The next file is in place. -/
theorem Written.next {material : Material} {file : MaterialFile} {left : List MaterialFile}
    (written : s.Written certId material (file :: left))
    (disk : t.disk = s.setFile certId file (some (material.get file))) :
    t.Written certId material left := by
  intro other either done
  rw [disk, setFile, Function.update_self]
  by_cases same : other = file
  · rw [same, Function.update_self]
  · rw [Function.update_of_ne same]
    refine written other either fun member => ?_
    rcases List.mem_cons.mp member with now | later
    · exact same now
    · exact done later

theorem Sound.write {o : CertOp} (sound : s.Sound env) (here : s.ops op = some o)
    (moved : s.write op o = some t) : t.Sound env := by
  have known := (sound.each o.certId).ops op o here rfl
  unfold CertHost.write at moved
  split at moved
  next row material file left =>
    cases moved
    refine sound.go here rfl rfl (fun _ _ => Iff.rfl)
      (fun other distinct => s.setFile_of_ne file _ distinct) (sound.each _).unique ?_ ?_
    · rintro p ⟨⟩
      exact ⟨rfl, known.1, known.2.1, known.2.2.next rfl⟩
    · intro other member own
      exact absurd own (known.1 other member)
  next loaded issued file left =>
    cases moved
    obtain ⟨current, expiry, written, suffix⟩ := known
    refine sound.go here rfl rfl (fun _ _ => Iff.rfl)
      (fun other distinct => s.setFile_of_ne file _ distinct) (sound.each _).unique ?_ ?_
    · rintro p ⟨⟩
      exact ⟨rfl, current, expiry, written.next rfl, (List.suffix_cons file left).trans suffix⟩
    · -- one file has been written, so no more than one is left
      intro other member own active untouched
      have fewer := suffix.length_le
      have whole : left = [.fullchain, .privkey] := by
        simpa [CertOp.touched] using untouched _ rfl
      rw [whole, List.length_cons] at fewer
      exact absurd fewer (by simp)
  next => exact absurd moved (by simp)

theorem Written.done {material : Material} (written : s.Written certId material []) :
    s.disk certId .fullchain = some material.fullchain ∧
      s.disk certId .privkey = some material.privkey :=
  ⟨written .fullchain (by simp) (by simp), written .privkey (by simp) (by simp)⟩

theorem flushed_same {α : Type} [DecidableEq α] (loaded new : α) :
    flushed loaded new loaded = new := by
  unfold flushed
  split
  next same => exact same.symm
  next => rfl

/-- The rows after the commit of a row nobody else has changed. -/
theorem mem_recorded {loaded new row : Certificate} (current : s.Current loaded)
    (member : row ∈ (s.recorded loaded new).certificates) (own : row.id = loaded.id) :
    loaded ∈ s.db.certificates ∧ row = { loaded with
      domainNames := new.domainNames, expiresOn := new.expiresOn, status := new.status
      «meta» := new.meta } := by
  obtain ⟨old, inside, changed⟩ := mem_updateAt.mp member
  have same : old.id = loaded.id := by
    by_contra other
    rw [if_neg other] at changed
    rw [changed] at own
    exact other own
  have known := current old inside same
  rw [if_pos same, known] at changed
  simp only [flushed_same] at changed
  exact ⟨known ▸ inside, changed⟩

theorem mem_recorded_of_ne {loaded new row : Certificate} (other : row.id ≠ loaded.id) :
    row ∈ (s.recorded loaded new).certificates ↔ row ∈ s.db.certificates := by
  constructor
  · intro member
    obtain ⟨old, inside, changed⟩ := mem_updateAt.mp member
    split at changed
    next same =>
      rw [changed] at other
      exact absurd same other
    next => exact changed ▸ inside
  · intro member
    refine mem_updateAt.mpr ⟨row, member, ?_⟩
    rw [if_neg other]

/-- An issuing task commits. -/
theorem Sound.recorded {o : CertOp} {loaded new : Certificate} (sound : s.Sound env)
    (here : s.ops op = some o) (own : o.certId = loaded.id) (current : s.Current loaded)
    (agree : new.status = .active → s.RowAgrees env { loaded with expiresOn := new.expiresOn }) :
    ({ s.put op none with db := s.recorded loaded new } : CertHost).Sound env := by
  refine sound.go here rfl rfl (fun row other => mem_recorded_of_ne (own ▸ other))
    (fun _ _ => rfl) ?_ (fun p none => absurd none (by simp)) ?_
  · intro a first b second left right
    rw [(mem_recorded current first (left.trans own)).2,
      (mem_recorded current second (right.trans own)).2]
  · intro row member same active _
    obtain ⟨-, fields⟩ := mem_recorded current member (same.trans own)
    subst fields
    exact agree active

theorem Sound.commit {o : CertOp} {now : String} (sound : s.Sound env)
    (here : s.ops op = some o) (moved : s.commit env op now o = some t) : t.Sound env := by
  have known := (sound.each o.certId).ops op o here rfl
  unfold CertHost.commit at moved
  split at moved
  next row material =>
    cases moved
    obtain ⟨absent, expiry, written⟩ := known
    -- an upload adds the row whose files it has written
    have added : ∀ other ∈ (s.db.addCertificate row).certificates, other.id = row.id →
        other = row := by
      intro other member own
      rcases List.mem_append.mp member with old | new
      · exact absurd own (absent other old)
      · exact List.mem_singleton.mp new
    refine sound.go here rfl rfl (fun other distinct => ?_) (fun _ _ => rfl) ?_
      (fun p none => absurd none (by simp)) ?_
    · constructor
      · intro member
        rcases List.mem_append.mp member with old | new
        · exact old
        · rw [List.mem_singleton.mp new] at distinct
          exact absurd rfl distinct
      · exact fun member => List.mem_append_left _ member
    · intro a first b second left right
      rw [added a first left, added b second right]
    · intro other member own _ _
      rw [added other member own]
      exact ⟨material.fullchain, material.privkey, written.done.1, written.done.2, expiry⟩
  next loaded issued =>
    cases moved
    -- an issue records the expiry of what it has written
    obtain ⟨current, expiry, written, -⟩ := known
    refine sound.recorded here rfl current fun _ => ?_
    refine ⟨issued.material.fullchain, issued.material.privkey, written.done.1, written.done.2, ?_⟩
    rw [← expiry]
    rfl
  next certId removed =>
    cases moved
    -- a delete takes the row before the files
    have gone : ∀ row ∈ (s.db.dropCertificate certId).certificates, row.id ≠ certId :=
      fun row member => (mem_removeAt.mp member).2
    refine sound.go here rfl rfl (fun row other => ?_) (fun _ _ => rfl) ?_
      (fun p none => absurd none (by simp)) ?_
    · exact ⟨fun member => (mem_removeAt.mp member).1, fun member => mem_removeAt.mpr ⟨member, other⟩⟩
    · intro a first _ _ left
      exact absurd left (gone a first)
    · intro row member own
      exact absurd own (gone row member)
  next => exact absurd moved (by simp)

theorem Sound.commitFailure {o : CertOp} {early : Bool} {error now : String} (sound : s.Sound env)
    (here : s.ops op = some o) (moved : s.commitFailure op early error now o = some t) :
    t.Sound env := by
  have known := (sound.each o.certId).ops op o here rfl
  unfold CertHost.commitFailure at moved
  split at moved
  next loaded =>
    cases moved
    refine sound.recorded here rfl known fun active => ?_
    -- the new status is `failed`, also where the row is left as it was
    split at active
    next already => exact absurd (already.2.symm.trans active) (by simp)
    next => exact absurd active (by simp [Issuing.failed])
  next loaded issued left =>
    cases moved
    exact sound.recorded here rfl known.1 fun active => absurd active (by simp [Issuing.failed])
  next => exact absurd moved (by simp)

/-- Nothing is committed. -/
theorem Sound.abandon {o : CertOp} (sound : s.Sound env) (here : s.ops op = some o)
    (harmless : o.touched = true → ∀ row ∈ s.db.certificates, row.id = o.certId →
      row.status ≠ .active) : (s.put op none).Sound env := by
  refine sound.go here rfl rfl (fun _ _ => Iff.rfl) (fun _ _ => rfl) (sound.each _).unique
    (fun p none => absurd none (by simp)) ?_
  intro row member own active _
  cases touched : o.touched with
  | true => exact absurd active (harmless touched row member own)
  | false => exact sound.still here touched member own active

/-- An operation begins on a certificate that has none. -/
theorem Sound.begin {o : CertOp} (sound : s.Sound env) (free : s.ops op = none)
    (unused : ∀ v p, s.ops v = some p → p.certId ≠ o.certId) (bound : o.certId ≤ s.seq)
    (mine : s.OpSound env o) : (s.put op (some o)).Sound env := by
  refine sound.at_ rfl (fun p there => ?_) ?_ (le_refl _) bound (fun _ _ => Iff.rfl)
    (fun _ _ => rfl) (SoundAt.of_sole rfl (fun v p _ there => unused v p there)
      (sound.each _).unique ?_ ?_)
  · rw [free] at there
    exact absurd there (by simp)
  · rintro p ⟨⟩
    rfl
  · rintro p ⟨⟩
    refine ⟨rfl, ?_⟩
    cases o with
    | upload row material left => exact mine
    | issue loaded => exact mine
    | store loaded issued left => exact mine
    | delete certId removed => trivial
  · intro row member own active _
    exact (sound.each _).agree row member own active
      fun v p there same => absurd same (unused v p there)

theorem Sound.raise {seq : Id} (sound : s.Sound env) (later : s.seq ≤ seq) :
    ({ s with seq := seq } : CertHost).Sound env where
  rows := fun row member => le_trans (sound.rows row member) later
  running := fun v o there => le_trans (sound.running v o there) later
  each := fun other => (sound.each other).frame
    ⟨fun _ _ => Iff.rfl, rfl, fun _ _ _ => Iff.rfl⟩

/-- A new id is not in use. -/
theorem Sound.unused (sound : s.Sound env) (fresh : s.seq < certId) :
    (∀ row ∈ s.db.certificates, row.id ≠ certId) ∧
      ∀ v o, s.ops v = some o → o.certId ≠ certId := by
  constructor
  · intro row member same
    exact absurd (sound.rows row member) (not_le.mpr (same ▸ fresh))
  · intro v o there same
    exact absurd (sound.running v o there) (not_le.mpr (same ▸ fresh))

/-- A pending row needs no files. -/
theorem Sound.request (sound : s.Sound env) (row : Certificate) (fresh : s.seq < row.id)
    (pending : row.status = .pending) :
    ({ s with db := s.db.addCertificate row, seq := row.id } : CertHost).Sound env := by
  obtain ⟨absent, unused⟩ := sound.unused fresh
  have added : ∀ other ∈ (s.db.addCertificate row).certificates,
      other ∈ s.db.certificates ∨ other = row := by
    intro other member
    rcases List.mem_append.mp member with old | new
    · exact Or.inl old
    · exact Or.inr (List.mem_singleton.mp new)
  constructor
  case rows =>
    intro other member
    rcases added other member with old | rfl
    · exact le_trans (sound.rows other old) (le_of_lt fresh)
    · exact le_refl _
  case running => exact fun v o there => le_trans (sound.running v o there) (le_of_lt fresh)
  case each =>
    intro other
    by_cases same : other = row.id
    · subst same
      -- the new row is the only one, pending, and no operation is about it
      have only : ∀ third ∈ (s.db.addCertificate row).certificates, third.id = row.id →
          third = row := by
        intro third member own
        rcases added third member with old | new
        · exact absurd own (absent third old)
        · exact new
      constructor
      case unique =>
        intro a first b second left right
        rw [only a first left, only b second right]
      case alone => exact fun u v o p first _ left => absurd left (unused u o first)
      case ops => exact fun v o there own => absurd own (unused v o there)
      case agree =>
        intro third member own active
        rw [only third member own, pending] at active
        exact absurd active (by simp)
    · refine (sound.each other).frame ⟨fun third own => ?_, rfl, fun _ _ _ => Iff.rfl⟩
      constructor
      · intro member
        rcases added third member with old | rfl
        · exact old
        · exact absurd own.symm same
      · exact fun member => List.mem_append_left _ member

theorem answers_expiry {issued : IssuedCertificate} {kind : IssuerKind}
    (answered : env.answers issued kind = true)
    (whole : kind = .selfSigned → issued.notValidAfter.microsecond.val = 0) :
    issued.notValidAfter = env.expiry issued.material.fullchain := by
  cases kind with
  | acme => exact of_decide_eq_true answered
  | selfSigned =>
    have truncated := of_decide_eq_true answered
    have second : (newYear issued.notValidAfter.year).microsecond =
        issued.notValidAfter.microsecond := Fin.ext (whole rfl).symm
    rw [truncated, DateTime.wholeSecond, second]

/-- One step. -/
theorem Sound.step {e : CertEvent} (sound : s.Sound env) (orderly : s.orderly env e)
    (moved : s.next env e = some t) : t.Sound env := by
  cases e with
  | upload op certId name material uploadedAt =>
    simp only [CertHost.next] at moved
    split at moved
    next begins =>
      cases moved
      obtain ⟨free, fresh⟩ := begins
      obtain ⟨absent, unused⟩ := sound.unused fresh
      refine (sound.raise (le_of_lt fresh)).begin free unused (le_refl _) ⟨absent, rfl, ?_⟩
      intro file either done
      refine absurd ?_ done
      rcases List.mem_pair.mp either with rfl | rfl
      · exact List.mem_cons_self ..
      · exact List.mem_cons_of_mem _ (List.mem_cons_self ..)
    next => exact absurd moved (by simp)
  | request certId r =>
    simp only [CertHost.next] at moved
    split at moved
    next store created =>
      cases moved
      obtain ⟨dnsProvider, fresh, -, rfl⟩ := createLetsencryptCertificate_ok created
      exact sound.request (pendingCertificate certId r dnsProvider) fresh rfl
    next => exact absurd moved (by simp)
  | issue op certId =>
    simp only [CertHost.next] at moved
    split at moved
    next free =>
      obtain ⟨row, found, rfl⟩ := Option.map_eq_some_iff.mp moved
      have member := List.mem_of_find?_eq_some found
      have own : row.id = certId := by simpa using List.find?_some found
      -- by the condition no other operation is about this certificate
      have unused : ∀ v p, s.ops v = some p → p.certId ≠ row.id := by
        rw [own]
        exact orderly
      refine sound.begin free unused (sound.rows row member) ?_
      exact fun other there same => (sound.each row.id).unique other there row member same rfl
    next => exact absurd moved (by simp)
  | answer op issued =>
    simp only [CertHost.next] at moved
    split at moved
    next loaded here =>
      split at moved
      next answered =>
        cases moved
        have current := (sound.each _).ops op _ here rfl
        -- the answer is kept in the task, and nothing is written yet
        refine sound.go here rfl rfl (fun _ _ => Iff.rfl) (fun _ _ => rfl) (sound.each _).unique
          ?_ fun row member own active _ => sound.still here rfl member own active
        rintro p ⟨⟩
        refine ⟨rfl, current, answers_expiry answered.2 (orderly loaded here), ?_,
          List.suffix_refl _⟩
        exact fun file either done => absurd either done
      next => exact absurd moved (by simp)
    next => exact absurd moved (by simp)
  | write op =>
    obtain ⟨o, here, went⟩ := Option.bind_eq_some_iff.mp moved
    exact sound.write here went
  | commit op now =>
    obtain ⟨o, here, went⟩ := Option.bind_eq_some_iff.mp moved
    exact sound.commit here went
  | commitFailure op early error now =>
    obtain ⟨o, here, went⟩ := Option.bind_eq_some_iff.mp moved
    exact sound.commitFailure here went
  | abandon op =>
    obtain ⟨o, here, rfl⟩ := Option.map_eq_some_iff.mp moved
    exact sound.abandon here (orderly o here)
  | delete op certId =>
    simp only [CertHost.next] at moved
    split at moved
    next free =>
      obtain ⟨row, found, rfl⟩ := Option.map_eq_some_iff.mp moved
      have own : row.id = certId := by simpa using List.find?_some found
      refine sound.begin free orderly ?_ trivial
      exact own ▸ sound.rows row (List.mem_of_find?_eq_some found)
    next => exact absurd moved (by simp)
  | remove op file =>
    simp only [CertHost.next] at moved
    split at moved
    next certId removed here =>
      cases moved
      refine sound.go here rfl rfl (fun _ _ => Iff.rfl)
        (fun other distinct => s.setFile_of_ne file none distinct) (sound.each _).unique ?_ ?_
      · rintro p ⟨⟩
        exact ⟨rfl, trivial⟩
      · intro row member own active untouched
        -- while its files go nothing is promised of the certificate
        exact absurd (untouched _ rfl) (by simp [CertOp.touched])
    next => exact absurd moved (by simp)

end Steps

end CertHost

/-! ### Runs -/

def CertStep (env : CertEnv) (s : CertHost) (e : CertEvent) (t : CertHost) : Prop :=
  s.next env e = some t

theorem certHost_initial (env : CertEnv) : CertHost.Sound env {} where
  rows := fun _ member => absurd member (List.not_mem_nil)
  running := fun _ _ there => absurd there (by simp)
  each := fun _ =>
    { unique := fun _ member => absurd member (List.not_mem_nil)
      alone := fun _ _ _ _ there => absurd there (by simp)
      ops := fun _ _ there => absurd there (by simp)
      agree := fun _ member => absurd member (List.not_mem_nil) }

/-- Active rows agree with the disk whenever nothing is under way, over every orderly run. -/
theorem rows_agree {env : CertEnv} {s : CertHost}
    (run : Reaches (Guarded (CertHost.orderly env) (CertStep env)) {} s) : s.Agrees env := by
  have sound : s.Sound env :=
    run.invariant (P := CertHost.Sound env) (fun _ _ _ sound moved => sound.step moved.1 moved.2)
      (certHost_initial env)
  exact sound.agrees

def firstExpiry : DateTime :=
  newYear ⟨2031, by decide⟩

def secondExpiry : DateTime :=
  newYear ⟨2032, by decide⟩

/-- The chains of two issuances, one year apart. -/
def sampleCertEnv : CertEnv where
  expiry := fun chain => if chain = [1] then firstExpiry else secondExpiry
  domainNames := fun _ => ["example.com"]
  acmeSelfSigned := false

def exampleRequest : LetsEncryptRequest where
  name := "example"
  domainNames := ["example.com"]

def firstIssued : IssuedCertificate where
  material := firstMaterial
  notValidAfter := firstExpiry

def secondIssued : IssuedCertificate where
  material := secondMaterial
  notValidAfter := secondExpiry

/-- A certificate is requested and issued. -/
def requestedAndIssued : List CertEvent :=
  [.request 1 exampleRequest, .issue 0 1, .answer 0 firstIssued, .write 0, .write 0, .commit 0 "now"]

private theorem requestedAndIssued_orderly :
    Fits (CertHost.orderly sampleCertEnv) (CertHost.next sampleCertEnv) requestedAndIssued {} := by
  refine And.intro trivial (And.intro ?unused (And.intro ?whole (And.intro trivial
    (And.intro trivial (And.intro trivial trivial)))))
  case unused =>
    intro op o there
    exact absurd there (by simp)
  case whole =>
    intro loaded _ _
    rfl

theorem rows_agree_issued :
    ∃ s row, play (CertHost.next sampleCertEnv) requestedAndIssued {} = some s ∧
      s.db.certificates = [row] ∧ row.status = .active ∧ row.expiresOn = some firstExpiry ∧
      s.disk 1 .fullchain = some [1] ∧ s.disk 1 .privkey = some [11] ∧ s.Agrees sampleCertEnv :=
  ⟨_, _, rfl, rfl, rfl, rfl, rfl, rfl, rows_agree (Reaches.of_fits requestedAndIssued_orderly rfl)⟩

/-- The files of a renewal are in place when its commit fails. -/
def lostRenewal : List CertEvent :=
  requestedAndIssued ++ [.issue 0 1, .answer 0 secondIssued, .write 0, .write 0, .abandon 0]

/-- The files of a deleted certificate are gone when the commit fails. -/
def lostDeletion : List CertEvent :=
  requestedAndIssued ++ [.delete 0 1, .remove 0 .fullchain, .remove 0 .privkey, .abandon 0]

def selfSignedEnv : CertEnv :=
  { sampleCertEnv with acmeSelfSigned := true }

/-- The self-signing issuer is asked half a second after the year has begun. -/
def halfSecondIssued : IssuedCertificate where
  material := firstMaterial
  notValidAfter := { firstExpiry with microsecond := ⟨500000, by decide⟩ }

def selfSignedIssuance : List CertEvent :=
  [.request 1 exampleRequest, .issue 0 1, .answer 0 halfSecondIssued, .write 0, .write 0,
   .commit 0 "now"]

/-- Each leaves an active row that does not describe the disk. -/
theorem rows_disagree : ∃ s t u row,
    play (CertHost.next sampleCertEnv) lostRenewal {} = some s ∧
      row ∈ s.db.certificates ∧ row.status = .active ∧ row.expiresOn = some firstExpiry ∧
      s.disk 1 .fullchain = some [2] ∧ ¬ s.Agrees sampleCertEnv ∧
    play (CertHost.next sampleCertEnv) lostDeletion {} = some t ∧
      row ∈ t.db.certificates ∧ t.disk 1 .fullchain = none ∧ t.disk 1 .privkey = none ∧
      ¬ t.Agrees sampleCertEnv ∧
    play (CertHost.next selfSignedEnv) selfSignedIssuance {} = some u ∧
      ¬ u.Agrees selfSignedEnv := by
  refine ⟨_, _, _, _, rfl, List.mem_singleton_self _, rfl, rfl, rfl, fun agrees => ?_,
    rfl, List.mem_singleton_self _, rfl, rfl, fun agrees => ?_, rfl, fun agrees => ?_⟩
  · obtain ⟨chain, _, there, -, expiry⟩ := agrees
      (fun op => by simp [CertHost.put]) _ (List.mem_singleton_self _) rfl
    have renewed : [2] = chain := Option.some.inj there
    subst renewed
    have wrong : some firstExpiry = some secondExpiry := expiry
    exact absurd wrong (by decide)
  · obtain ⟨chain, _, there, -⟩ := agrees
      (fun op => by simp [CertHost.put]) _ (List.mem_singleton_self _) rfl
    have gone : none = some chain := there
    exact absurd gone (by simp)
  · obtain ⟨chain, _, there, -, expiry⟩ := agrees
      (fun op => by simp [CertHost.put]) _ (List.mem_singleton_self _) rfl
    have issued : [1] = chain := Option.some.inj there
    subst issued
    have wrong : some halfSecondIssued.notValidAfter = some firstExpiry := expiry
    exact absurd wrong (by decide)

end MegooPM
