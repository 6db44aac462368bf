import MegooPM.Backup.Envelope
import Mathlib.Logic.Function.Basic

/-!
# Taking a backup

`create_backup` of `services/backup/runner.py`. The archive is written into a pipe by a thread
while the caller seals what comes out of it into `<name>.part`, which is renamed at the end.
Every step of the call may raise; what is left in the directory then is said step by step.
-/
namespace MegooPM

open Lib

/-- A file, and which write made it. -/
structure StoredFile where
  bytes : Bytes
  version : Nat
  deriving DecidableEq, Repr

/-- The backup directory; `clock` is the version the next write gets. -/
structure BackupDir where
  files : String → Option StoredFile
  clock : Nat
  older : ∀ name file, files name = some file → file.version < clock

/-- What the calling thread does, in order. -/
inductive CreateStep where
  | mkdir | temporaryDirectory | dump | stat | space | revision | pipe | start
  | openPipe | openPart | encrypt | flush | fsync | close
  /-- `part.unlink` -/
  | unlink
  | join
  /-- the temporary directory is deleted -/
  | cleanup
  | rename | chmod
  deriving DecidableEq, Repr

/-- How the thread that writes the archive ends. -/
inductive WriterEnd where
  | finished
  /-- it raises, after the pipe was opened: the reader sees the end of the file -/
  | raised
  /-- `os.fdopen` raises: the writing end stays open -/
  | unopened
  deriving DecidableEq, Repr

/-- One call: its arguments, and how its steps go. -/
structure CreateCall where
  name : String
  secretKey : Bytes
  /-- what the pipe hands out -/
  src : Source
  salt : List.Vector UInt8 16
  noncePrefix : List.Vector UInt8 8
  /-- the steps that raise -/
  fails : CreateStep → Bool
  writer : WriterEnd
  /-- the thread can end with nobody reading -/
  pipeHolds : Bool
  /-- what was written when `encrypt_stream` raises -/
  written : Bytes

inductive CreateOutcome where
  | returned
  /-- it raises before the rename -/
  | raised
  /-- the rename or the chmod after it raises -/
  | raisedLate
  /-- it waits for ever -/
  | blocked
  deriving DecidableEq, Repr

def CreateCall.part (c : CreateCall) : String :=
  c.name ++ ".part"

/-- The part with these bytes in it. -/
def CreateCall.withPart (c : CreateCall) (dir : BackupDir) (bytes : Bytes) :
    String → Option StoredFile :=
  Function.update dir.files c.part (some { bytes := bytes, version := dir.clock })

/-- The `except` branch, and what it raises if the thread can be joined. -/
def CreateCall.abandon (c : CreateCall) (files : String → Option StoredFile)
    (joined : CreateOutcome) : (String → Option StoredFile) × CreateOutcome :=
  if c.fails .unlink then (files, .raised) else (Function.update files c.part none, joined)

/-- From the opening of the pipe to the end of the `with` block: `returned` if the part is whole. -/
def sealPart (env : CryptoEnv) (c : CreateCall) (dir : BackupDir) :
    (String → Option StoredFile) × CreateOutcome :=
  if c.fails .openPipe then
    -- the reading end stays open, so the thread may wait for a reader
    c.abandon dir.files (if c.pipeHolds then .raised else .blocked)
  else if c.fails .openPart then c.abandon dir.files .raised
  else if c.fails .encrypt then c.abandon (c.withPart dir c.written) .raised
  else if c.writer = .unopened then (c.withPart dir [], .blocked)
  else match encryptStream env c.src c.secretKey c.salt c.noncePrefix with
    | none => c.abandon (c.withPart dir c.written) .raised
    | some (_, bytes) =>
      if c.fails .flush || c.fails .fsync || c.fails .close then
        c.abandon (c.withPart dir bytes) .raised
      else if c.fails .join then (c.withPart dir bytes, .raised)
      else if c.writer = .raised then c.abandon (c.withPart dir bytes) .raised
      else (c.withPart dir bytes, .returned)

/-- The steps before the pipe is opened. -/
def earlySteps : List CreateStep :=
  [.mkdir, .temporaryDirectory, .dump, .stat, .space, .revision, .pipe, .start]

/-- Dump, pack, seal and rename. -/
def createBackup (env : CryptoEnv) (c : CreateCall) (dir : BackupDir) :
    (String → Option StoredFile) × CreateOutcome :=
  if earlySteps.any c.fails then (dir.files, .raised)
  else match sealPart env c dir with
    | (files, .returned) =>
      if c.fails .cleanup then (files, .raised)
      else if c.fails .rename then (files, .raisedLate)
      else
        (Function.update (Function.update files c.part none) c.name (files c.part),
          if c.fails .chmod then .raisedLate else .returned)
    | stopped => stopped

/-! ### What is left behind -/

/-- Sealing raises once the part is open. -/
def CreateCall.sealFails (env : CryptoEnv) (c : CreateCall) : Prop :=
  c.fails .encrypt = true ∨ c.writer ≠ .unopened ∧
    (encryptStream env c.src c.secretKey c.salt c.noncePrefix = none ∨
      c.fails .flush = true ∨ c.fails .fsync = true ∨ c.fails .close = true)

/-- The part was not there, and what stops the call after it was opened is the sealing or the
other thread: the part can be deleted then, and neither the waiting for the thread nor the
deletion of the temporary directory raises. A call that stops before the part is opened finds
no part to delete, or cannot delete it. -/
def CreateCall.Clean (env : CryptoEnv) (c : CreateCall) (dir : BackupDir) : Prop :=
  if c.fails .openPipe = true ∨ c.fails .openPart = true then
    dir.files c.part = none ∨ c.fails .unlink = true
  else
    dir.files c.part = none ∧ c.fails .unlink = false ∧
      (c.sealFails env ∨ c.writer = .raised ∧ c.fails .join = false)

section Left

variable {env : CryptoEnv} {c : CreateCall} {dir : BackupDir}

/-- A part that was opened is a new file. -/
theorem withPart_ne (bytes : Bytes) : c.withPart dir bytes ≠ dir.files := by
  intro same
  have there := congrFun same c.part
  rw [CreateCall.withPart, Function.update_self] at there
  exact lt_irrefl _ (dir.older c.part _ there.symm)

theorem abandon_eq_iff {files : String → Option StoredFile} {joined : CreateOutcome}
    (others : ∀ name, name ≠ c.part → files name = dir.files name) :
    (c.abandon files joined).1 = dir.files ↔
      (c.fails .unlink = true ∧ files = dir.files) ∨
      (c.fails .unlink = false ∧ dir.files c.part = none) := by
  unfold CreateCall.abandon
  cases fails : c.fails .unlink with
  | true => simp
  | false =>
    have removed : Function.update files c.part none = Function.update dir.files c.part none := by
      funext name
      by_cases own : name = c.part
      · subst own
        rw [Function.update_self, Function.update_self]
      · rw [Function.update_of_ne own, Function.update_of_ne own, others name own]
    simp only [Bool.false_eq_true, if_false, removed, Function.update_eq_self_iff, false_and,
      true_and, false_or]
    exact eq_comm

/-- Abandoned with the part open. -/
theorem abandon_withPart {bytes : Bytes} {joined : CreateOutcome} :
    (c.abandon (c.withPart dir bytes) joined).1 = dir.files ↔
      c.fails .unlink = false ∧ dir.files c.part = none := by
  rw [abandon_eq_iff fun name other => Function.update_of_ne other _ _]
  constructor
  · rintro (⟨_, same⟩ | clean)
    · exact absurd same (withPart_ne bytes)
    · exact clean
  · exact Or.inr

/-- Abandoned before the part was opened. -/
theorem abandon_unopened {joined : CreateOutcome} :
    (c.abandon dir.files joined).1 = dir.files ↔
      dir.files c.part = none ∨ c.fails .unlink = true := by
  rw [abandon_eq_iff fun _ _ => rfl]
  cases c.fails .unlink <;> simp

/-- Sealing, step by step: the directory is as it was exactly when the call is clean. -/
theorem sealPart_eq_iff : (sealPart env c dir).1 = dir.files ↔ c.Clean env dir := by
  unfold sealPart CreateCall.Clean CreateCall.sealFails
  by_cases pipe : c.fails .openPipe = true
  · rw [if_pos pipe, if_pos (Or.inl pipe)]
    exact abandon_unopened
  rw [if_neg pipe]
  by_cases opening : c.fails .openPart = true
  · rw [if_pos opening, if_pos (Or.inr opening)]
    exact abandon_unopened
  rw [if_neg opening, if_neg (not_or.mpr ⟨pipe, opening⟩)]
  -- the part is open from here on
  by_cases encrypting : c.fails .encrypt = true
  · rw [if_pos encrypting, abandon_withPart]
    simp [encrypting, and_comm]
  rw [if_neg encrypting]
  by_cases unopened : c.writer = .unopened
  · rw [if_pos unopened]
    simp [withPart_ne, encrypting, unopened]
  rw [if_neg unopened]
  split
  next long =>
    rw [abandon_withPart]
    simp [long, unopened, and_comm]
  next chunks bytes made =>
    by_cases writing : (c.fails .flush || c.fails .fsync || c.fails .close) = true
    · rw [if_pos writing, abandon_withPart]
      simp only [Bool.or_eq_true, or_assoc] at writing
      simp [writing, unopened, and_comm]
    rw [if_neg writing]
    simp only [Bool.or_eq_true, or_assoc] at writing
    by_cases joining : c.fails .join = true
    · rw [if_pos joining]
      simp [withPart_ne, encrypting, made, writing, joining]
    rw [if_neg joining]
    by_cases thread : c.writer = .raised
    · rw [if_pos thread, abandon_withPart]
      simp [thread, joining, and_comm]
    · rw [if_neg thread]
      simp [withPart_ne, encrypting, made, writing, thread]

/-- A call that stops before the rename leaves the directory alone exactly when it is clean. -/
theorem createBackup_unchanged_iff
    (stopped : (createBackup env c dir).2 = .raised ∨ (createBackup env c dir).2 = .blocked) :
    (createBackup env c dir).1 = dir.files ↔ earlySteps.any c.fails = true ∨ c.Clean env dir := by
  revert stopped
  unfold createBackup
  by_cases early : earlySteps.any c.fails = true
  · simp [early]
  · rw [if_neg early, ← sealPart_eq_iff]
    split
    next files whole =>
      rw [whole]
      split
      · simp [early]
      · split
        · intro stopped
          simp at stopped
        · intro stopped
          cases chmod : c.fails .chmod <;> simp [chmod] at stopped
    next => simp [early]

end Left

/-! ### A call that returns -/

section Returned

variable {env : CryptoEnv} {c : CreateCall} {dir : BackupDir} {files : String → Option StoredFile}

theorem sealPart_returned (ran : sealPart env c dir = (files, .returned)) :
    ∃ bytes, files = c.withPart dir bytes := by
  have abandoned : ∀ {others joined}, joined ≠ CreateOutcome.returned →
      c.abandon others joined ≠ (files, .returned) := by
    intro others joined other same
    simp only [CreateCall.abandon] at same
    split at same
    next => cases same
    next => exact other (Prod.mk.inj same).2
  unfold sealPart at ran
  split at ran
  next => exact absurd ran (abandoned (by split <;> decide))
  split at ran
  next => exact absurd ran (abandoned (by decide))
  split at ran
  next => exact absurd ran (abandoned (by decide))
  split at ran
  next => cases ran
  split at ran
  next => exact absurd ran (abandoned (by decide))
  next chunks bytes _ =>
    split at ran
    next => exact absurd ran (abandoned (by decide))
    split at ran
    next => cases ran
    split at ran
    next => exact absurd ran (abandoned (by decide))
    next => exact ⟨bytes, (Prod.mk.inj ran).1.symm⟩

/-- What a call that returns leaves: the part is gone and the file is in its place. -/
theorem createBackup_returned (ran : createBackup env c dir = (files, .returned)) :
    ∃ file, files = Function.update (Function.update dir.files c.part none) c.name (some file) := by
  unfold createBackup at ran
  split at ran
  next => cases ran
  split at ran
  next others whole =>
    obtain ⟨bytes, rfl⟩ := sealPart_returned whole
    split at ran
    next => cases ran
    split at ran
    next => cases ran
    next =>
      refine ⟨{ bytes := bytes, version := dir.clock }, ?_⟩
      rw [← (Prod.mk.inj ran).1, CreateCall.withPart, Function.update_self,
        Function.update_idem]
  next stopped other =>
    exact absurd ran (other files)

end Returned

end MegooPM
