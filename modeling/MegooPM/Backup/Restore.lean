import MegooPM.Backup.Runner
import MegooPM.Accounts.Tables

/-!
# Restoring a backup

`restore_backup` of `services/backup/runner.py` up to the call of `pg.restore`, with
`extract_archive` of `archive.py`. Everything the verification writes goes into one temporary
directory; the archive may hold anything.
-/
namespace MegooPM

open Lib

/-! ### The archive -/

abbrev FsPath := List String

inductive FsEntry where
  | dir
  | file (bytes : Bytes)
  deriving DecidableEq, Repr

abbrev FileSystem := FsPath → Option FsEntry

structure BackupMeta where
  createdAt : Instant
  appVersion : String
  alembicRevision : String
  trigger : String
  dbBytes : Int
  certBytes : Int
  deriving DecidableEq, Repr

inductive ArchiveError where
  /-- `tarfile.TarError` -/
  | tar
  /-- any other exception, such as a full disk -/
  | other
  deriving DecidableEq, Repr

structure TarMember where
  name : String
  /-- what `extractfile` reads -/
  data : Except ArchiveError (Option Bytes)

/-- What the restore takes from `tarfile`, `pathlib` and `json`. -/
structure ArchiveEnv where
  /-- the members of an archive in order, up to where reading on raises -/
  members : Bytes → List (Except ArchiveError TarMember)
  /-- `(dest / name).resolve()` -/
  resolve : FileSystem → FsPath → String → FsPath
  /-- `tar.extract(member, dest, filter="data")` -/
  extract : FileSystem → FsPath → TarMember → FileSystem × Option ArchiveError
  /-- `BackupMeta.from_json`; `none` where it raises -/
  fromJson : Bytes → Option BackupMeta
  /-- the data filter writes below the destination only, and the destination stays -/
  extract_outside : ∀ fs dest member path, ¬dest <+: path → (extract fs dest member).1 path = fs path
  extract_dest : ∀ fs dest member, (extract fs dest member).1 dest = fs dest

def memberMeta : String := "meta.json"

def memberDb : String := "db.dump"

inductive RestoreError where
  | rejected (message : String)
  /-- an exception that is not turned into a refusal -/
  | raised
  deriving DecidableEq, Repr

/-- `BackupArchiveError`s become refusals, other exceptions pass. -/
def ArchiveError.restore : ArchiveError → RestoreError
  | .tar => .rejected "unreadable archive"
  | .other => .raised

/-- The loop of `extract_archive`, and the checks after it. -/
def extractMembers (env : ArchiveEnv) (dest : FsPath) :
    List (Except ArchiveError TarMember) → FileSystem → Option BackupMeta → Bool →
      FileSystem × Except RestoreError BackupMeta
  | [], fs, found, seenDump =>
    match found with
    | none => (fs, .error (.rejected ("archive has no " ++ memberMeta)))
    | some found =>
      if seenDump then (fs, .ok found)
      else (fs, .error (.rejected ("archive has no " ++ memberDb)))
  | .error e :: _, fs, _, _ => (fs, .error e.restore)
  | .ok member :: rest, fs, found, seenDump =>
    if ¬env.resolve fs dest "" <+: env.resolve fs dest member.name then
      (fs, .error (.rejected ("archive member escapes the destination: " ++ member.name)))
    else if member.name = memberMeta then
      match member.data with
      | .error e => (fs, .error e.restore)
      | .ok raw =>
        match env.fromJson (raw.getD []) with
        | none => (fs, .error (.rejected ("unreadable " ++ memberMeta)))
        | some found => extractMembers env dest rest fs (some found) seenDump
    else
      match env.extract fs dest member with
      | (fs, some e) => (fs, .error e.restore)
      | (fs, none) => extractMembers env dest rest fs found (seenDump || member.name = memberDb)

def extractArchive (env : ArchiveEnv) (src : Bytes) (dest : FsPath) (fs : FileSystem) :
    FileSystem × Except RestoreError BackupMeta :=
  extractMembers env dest (env.members src) fs none false

/-! ### The call -/

/-- What may raise besides what the file holds. -/
inductive RestoreStep where
  | temporaryDirectory | stepVerifying | openHeader | stepUnpacking | openSealed | createArchive
  | writeArchive | openArchive | stepRestoring
  deriving DecidableEq, Repr

/-- How the temporary directory is deleted. -/
inductive Cleanup where
  | removed
  /-- it raises; the directory stays, with some of what is in it -/
  | left (kept : FsPath → Bool)

structure RestoreCall where
  /-- the bytes of the backup -/
  file : Bytes
  secretKey : Bytes
  knownRevisions : List String
  /-- the temporary directory -/
  work : FsPath
  fails : RestoreStep → Bool
  /-- what was written when decryption stops -/
  written : Bytes
  cleanup : Cleanup

/-- The database, and every file of the host. -/
structure RestoreHost (δ : Type) where
  database : δ
  fs : FileSystem

inductive RestoreOutcome where
  /-- it raises before `pg.restore` is called -/
  | refused (error : RestoreError)
  /-- `pg.restore` is called, and how the rest ends -/
  | ran (ended : Except RestoreError BackupMeta)
  deriving DecidableEq, Repr

def RestoreCall.archivePath (c : RestoreCall) : FsPath :=
  c.work ++ ["archive.tar"]

/-- What leaving the `with` block makes of the files. -/
def RestoreCall.leave (c : RestoreCall) (fs : FileSystem) : FileSystem :=
  fun path =>
    if c.work <+: path then
      match c.cleanup with
      | .removed => none
      | .left kept => if path = c.work ∨ kept path = true then fs path else none
    else fs path

/-- Everything between the temporary directory and `pg.restore`. -/
def verifyBackup (crypto : CryptoEnv) (archive : ArchiveEnv) (c : RestoreCall) (fs : FileSystem) :
    FileSystem × Except RestoreError BackupMeta :=
  if c.fails .stepVerifying || c.fails .openHeader then (fs, .error .raised)
  else match readHeader c.file with
    -- `read_header` is called outside the `try` here, so its errors pass as they are
    | .error _ => (fs, .error .raised)
    | .ok (header, _) =>
      if header.fingerprint ≠ keyFingerprint crypto c.secretKey then
        (fs, .error (.rejected
          "this backup was made with a different SECRET_KEY and cannot be read"))
      else if c.fails .stepUnpacking || c.fails .openSealed || c.fails .createArchive then
        (fs, .error .raised)
      else if c.fails .writeArchive then
        (Function.update fs c.archivePath (some (.file c.written)), .error .raised)
      else match decryptStream crypto c.file c.secretKey with
        | .error (.format message) | .error (.key message) =>
          (Function.update fs c.archivePath (some (.file c.written)), .error (.rejected message))
        | .error .struct =>
          (Function.update fs c.archivePath (some (.file c.written)), .error .raised)
        | .ok (_, plain) =>
          let fs := Function.update fs c.archivePath (some (.file plain))
          if c.fails .openArchive then (fs, .error .raised)
          else match extractArchive archive plain c.work fs with
            | (fs, .error e) => (fs, .error e)
            | (fs, .ok found) =>
              if found.alembicRevision ≠ "" ∧ found.alembicRevision ∉ c.knownRevisions then
                (fs, .error (.rejected ("this backup is from a newer MegooPM (database revision " ++
                  found.alembicRevision ++ "); upgrade before restoring it")))
              else if c.fails .stepRestoring then (fs, .error .raised)
              else (fs, .ok found)

/-- Verify a backup completely, then go on; `next` is `pg.restore` and what follows it. -/
def restoreBackup {δ : Type} (crypto : CryptoEnv) (archive : ArchiveEnv) (c : RestoreCall)
    (next : RestoreHost δ → BackupMeta → RestoreHost δ × Except RestoreError Unit) (s : RestoreHost δ) :
    RestoreHost δ × RestoreOutcome :=
  if c.fails .temporaryDirectory then (s, .refused .raised)
  else
    match verifyBackup crypto archive c (Function.update s.fs c.work (some .dir)) with
    | (fs, .error e) => ({ s with fs := c.leave fs }, .refused e)
    | (fs, .ok found) =>
      let (after, ended) := next { s with fs := fs } found
      ({ after with fs := c.leave after.fs }, .ran (ended.map fun _ => found))

/-! ### Nothing is touched -/

/-- Only what lies below a directory has changed. -/
structure Below (dest : FsPath) (fs fs' : FileSystem) : Prop where
  outside : ∀ path, ¬dest <+: path → fs' path = fs path
  dest : fs' dest = fs dest

section Below

variable {dest : FsPath} {fs fs' fs'' : FileSystem}

theorem Below.refl (dest : FsPath) (fs : FileSystem) : Below dest fs fs :=
  ⟨fun _ _ => rfl, rfl⟩

theorem Below.trans (first : Below dest fs fs') (second : Below dest fs' fs'') :
    Below dest fs fs'' :=
  ⟨fun path out => (second.outside path out).trans (first.outside path out),
    second.dest.trans first.dest⟩

theorem below_update (name : String) (entry : Option FsEntry) :
    Below dest fs (Function.update fs (dest ++ [name]) entry) := by
  constructor
  · intro path out
    have other : path ≠ dest ++ [name] := by
      rintro rfl
      exact out (List.prefix_append ..)
    exact Function.update_of_ne other _ _
  · exact Function.update_of_ne (by simp) _ _

theorem below_extract (env : ArchiveEnv) (member : TarMember) :
    Below dest fs (env.extract fs dest member).1 :=
  ⟨env.extract_outside fs dest member, env.extract_dest fs dest member⟩

/-- Whatever the members are. -/
theorem below_extractMembers (env : ArchiveEnv) (members : List (Except ArchiveError TarMember))
    (fs : FileSystem) (found : Option BackupMeta) (seenDump : Bool) :
    Below dest fs (extractMembers env dest members fs found seenDump).1 := by
  induction members generalizing fs found seenDump with
  | nil =>
    unfold extractMembers
    split
    · exact .refl dest fs
    · split <;> exact .refl dest fs
  | cons first rest ih =>
    cases first with
    | error e => exact .refl dest fs
    | ok member =>
      unfold extractMembers
      split
      · exact .refl dest fs
      · split
        · split
          · exact .refl dest fs
          · split
            · exact .refl dest fs
            · exact ih ..
        · have written : Below dest fs (env.extract fs dest member).1 := below_extract env member
          split
          next stopped =>
            rw [stopped] at written
            exact written
          next went =>
            rw [went] at written
            exact written.trans (ih ..)

theorem below_verifyBackup (crypto : CryptoEnv) (archive : ArchiveEnv) (c : RestoreCall)
    (fs : FileSystem) : Below c.work fs (verifyBackup crypto archive c fs).1 := by
  unfold verifyBackup
  split
  · exact .refl _ fs
  · split
    · exact .refl _ fs
    · split
      · exact .refl _ fs
      · split
        · exact .refl _ fs
        · split
          · exact below_update ..
          · split
            · exact below_update ..
            · exact below_update ..
            · exact below_update ..
            next plain _ =>
              have wrote : Below c.work fs
                  (Function.update fs c.archivePath (some (.file plain))) := below_update ..
              have unpacked := wrote.trans
                (below_extractMembers archive (archive.members plain) _ none false)
              simp only
              split
              · exact wrote
              · split
                next stopped =>
                  rw [extractArchive] at stopped
                  rw [stopped] at unpacked
                  exact unpacked
                next went =>
                  rw [extractArchive] at went
                  rw [went] at unpacked
                  split
                  · exact unpacked
                  · split <;> exact unpacked

end Below

/-- Leaving the block undoes what was written into a new directory, if it can be deleted. -/
theorem leave_eq_iff {c : RestoreCall} {before fs : FileSystem}
    (fresh : ∀ path, c.work <+: path → before path = none)
    (below : Below c.work (Function.update before c.work (some .dir)) fs) :
    c.leave fs = before ↔ c.cleanup = .removed := by
  cases cleaned : c.cleanup with
  | removed =>
    refine ⟨fun _ => rfl, fun _ => ?_⟩
    funext path
    simp only [RestoreCall.leave, cleaned]
    split
    next inside => exact (fresh path inside).symm
    next out =>
      have other : path ≠ c.work := by
        rintro rfl
        exact out List.prefix_rfl
      rw [below.outside path out, Function.update_of_ne other]
  | left kept =>
    refine ⟨fun same => ?_, fun removed => by cases removed⟩
    -- the directory itself is still there
    have there := congrFun same c.work
    simp only [RestoreCall.leave, cleaned, List.prefix_rfl, if_true, true_or, below.dest,
      Function.update_self, fresh c.work List.prefix_rfl] at there
    cases there

/-- A call that is refused leaves the database and every file as they were exactly when there
was no temporary directory or it could be deleted. -/
theorem restoreBackup_unchanged_iff {δ : Type} {crypto : CryptoEnv} {archive : ArchiveEnv}
    {c : RestoreCall} {next : RestoreHost δ → BackupMeta → RestoreHost δ × Except RestoreError Unit}
    {s : RestoreHost δ} (fresh : ∀ path, c.work <+: path → s.fs path = none) {e : RestoreError}
    (refused : (restoreBackup crypto archive c next s).2 = .refused e) :
    (restoreBackup crypto archive c next s).1 = s ↔
      c.fails .temporaryDirectory = true ∨ c.cleanup = .removed := by
  revert refused
  unfold restoreBackup
  by_cases early : c.fails .temporaryDirectory = true
  · simp [early]
  · rw [if_neg early]
    have below := below_verifyBackup crypto archive c (Function.update s.fs c.work (some .dir))
    split
    next fs e verified =>
      rw [verified] at below
      intro _
      have same : ({ s with fs := c.leave fs } : RestoreHost δ) = s ↔ c.leave fs = s.fs := by
        constructor
        · exact fun same => congrArg RestoreHost.fs same
        · exact fun same => by rw [same]
      rw [same, leave_eq_iff fresh below]
      simp [early]
    next => exact fun refused => by cases refused

/-- A restore that stops before `pg.restore` has touched nothing, exactly when its temporary
directory could not be made or can be deleted; a backup that stops before its rename has touched
nothing, exactly when it stops before the part is opened or is clean. -/
theorem backups_untouched_iff {δ : Type} (crypto : CryptoEnv) (archive : ArchiveEnv)
    (c : RestoreCall) (next : RestoreHost δ → BackupMeta → RestoreHost δ × Except RestoreError Unit)
    (s : RestoreHost δ) (fresh : ∀ path, c.work <+: path → s.fs path = none)
    (made : CreateCall) (dir : BackupDir) :
    (∀ e, (restoreBackup crypto archive c next s).2 = .refused e →
      ((restoreBackup crypto archive c next s).1 = s ↔
        c.fails .temporaryDirectory = true ∨ c.cleanup = .removed)) ∧
    ((createBackup crypto made dir).2 = .raised ∨ (createBackup crypto made dir).2 = .blocked →
      ((createBackup crypto made dir).1 = dir.files ↔
        earlySteps.any made.fails = true ∨ made.Clean crypto dir)) :=
  ⟨fun _ refused => restoreBackup_unchanged_iff fresh refused, createBackup_unchanged_iff⟩

/-- An archive library that writes members flat. -/
def sampleArchive : ArchiveEnv where
  members := fun _ => []
  resolve := fun _ dest name => if name = "" then dest else dest ++ [name]
  extract := fun fs dest member => (Function.update fs (dest ++ [member.name]) (some (.file [])), none)
  fromJson := fun _ => none
  extract_outside := fun _ _ member => (below_update member.name _).outside
  extract_dest := fun _ _ member => (below_update member.name _).dest

/-- A file that is no backup. -/
def sampleRestore : RestoreCall where
  file := [1, 2, 3]
  secretKey := [115]
  knownRevisions := []
  work := ["tmp", "megoopm-restore-1"]
  fails := fun _ => false
  written := []
  cleanup := .removed

/-- One live certificate. -/
def sampleRestoreHost : RestoreHost Nat where
  database := 7
  fs := fun path => if path = ["certs", "1", "privkey.pem"] then some (.file [9]) else none

def emptyDir : BackupDir where
  files := fun _ => none
  clock := 0
  older := fun _ _ none => by cases none

/-- The thread that writes the archive raises. -/
def brokenBackup : CreateCall where
  name := "megoopm-20260101-030000-auto.mgb"
  secretKey := [115]
  src := sampleSource
  salt := List.Vector.replicate 16 1
  noncePrefix := List.Vector.replicate 8 2
  fails := fun _ => false
  writer := .raised
  pipeHolds := true
  written := []

theorem backups_untouched_broken :
    (restoreBackup sampleCrypto sampleArchive sampleRestore (fun s _ => (s, .ok ()))
      sampleRestoreHost).2 = .refused .raised ∧
    (restoreBackup sampleCrypto sampleArchive sampleRestore (fun s _ => (s, .ok ()))
      sampleRestoreHost).1 = sampleRestoreHost ∧
    (createBackup sampleCrypto brokenBackup emptyDir).1 = emptyDir.files := by
  have fresh : ∀ path, sampleRestore.work <+: path → sampleRestoreHost.fs path = none := by
    rintro _ ⟨rest, rfl⟩
    have other : sampleRestore.work ++ rest ≠ ["certs", "1", "privkey.pem"] := by
      simp [sampleRestore]
    simp only [sampleRestoreHost, if_neg other]
  obtain ⟨restore, create⟩ := backups_untouched_iff sampleCrypto sampleArchive sampleRestore
    (fun s _ => (s, .ok ())) sampleRestoreHost fresh brokenBackup emptyDir
  refine ⟨rfl, (restore .raised rfl).mpr (Or.inr rfl), ?_⟩
  have clean : brokenBackup.Clean sampleCrypto emptyDir := by
    simp [CreateCall.Clean, brokenBackup, emptyDir]
  exact (create (Or.inl (by decide))).mpr (Or.inr clean)

/-- Everything goes well until the temporary directory cannot be deleted. -/
def leftBackup : CreateCall :=
  { brokenBackup with writer := .finished, fails := fun step => step = .cleanup }

theorem part_left_behind :
    (createBackup sampleCrypto leftBackup emptyDir).2 = .raised ∧
    (createBackup sampleCrypto leftBackup emptyDir).1 ≠ emptyDir.files := by
  refine ⟨by decide, fun same => ?_⟩
  have there : (createBackup sampleCrypto leftBackup emptyDir).1 leftBackup.part ≠ none := by decide
  exact there (congrFun same _)

end MegooPM
