import MegooPM.Backup.Envelope
import MegooPM.Backup.Names
import MegooPM.Lib.Files
import MegooPM.Lib.Transition
import Mathlib

/-!
# Uploads side by side

`upload_backup` of `api/routes/backups.py` and the file work of `create_backup`, call by call.
Each opens `<name>.part`, writes to its descriptor in pieces, and renames the part at the end;
between any two calls another request may go on. A name is made of the second of the start and
the trigger, and nothing else.
-/
namespace MegooPM

open Lib

/-- A request to upload a backup, or a run of `create_backup`. -/
structure Transfer where
  started : DateTime
  trigger : FileTrigger
  /-- what the request sends, or what the run seals -/
  body : Bytes

namespace Transfer

def name (x : Transfer) : String :=
  newName x.started x.trigger

def part (x : Transfer) : String :=
  x.name ++ ".part"

end Transfer

/-- `_IO_CHUNK` -/
def ioChunk : Nat := 1024 * 1024

/-- Where a transfer is; `inode` is that of its descriptor. -/
inductive TransferPc where
  | idle
  /-- in the `with` block: so much was read, and so much of it has reached the file -/
  | writing (inode received flushed : Nat)
  /-- the `with` block is left, with everything written -/
  | closed (inode : Nat)
  /-- the header is checked, or the other thread has ended well -/
  | ready (inode : Nat)
  /-- in an `except` branch -/
  | discarding (inode : Option Nat)
  | placed (inode : Nat)
  | succeeded (inode : Nat)
  | failed (inode : Option Nat)
  deriving DecidableEq, Repr

structure TransferState where
  files : Files String
  pc : Nat → TransferPc

inductive TransferEvent where
  /-- an exception before the `try`: too large by its declared length, no space, no dump -/
  | refuse (job : Nat)
  | «open» (job : Nat)
  /-- the next piece is read, and given to the writer -/
  | receive (job n : Nat)
  /-- so many more bytes reach the file -/
  | write (job n : Nat)
  | close (job : Nat)
  /-- `read_header` of the part; for a run of `create_backup`, the end of its thread -/
  | check (job : Nat)
  /-- an exception in the `try`; `n` bytes are flushed while the file is closed -/
  | raises (job n : Nat)
  | discard (job : Nat) (ok : Bool)
  | rename (job : Nat) (ok : Bool)
  /-- `chmod`; for an upload the audit row, its commit and `describe` too -/
  | finish (job : Nat) (ok : Bool)
  deriving DecidableEq, Repr

namespace TransferState

def move (s : TransferState) (job : Nat) (files : Files String) (pc : TransferPc) :
    TransferState where
  files := files
  pc := Function.update s.pc job pc

theorem pc_move_self (s : TransferState) (job : Nat) (files : Files String) (pc : TransferPc) :
    (s.move job files pc).pc job = pc :=
  Function.update_self ..

theorem pc_move_of_ne (s : TransferState) {job other : Nat} (files : Files String) (pc : TransferPc)
    (apart : other ≠ job) : (s.move job files pc).pc other = s.pc other :=
  Function.update_of_ne apart ..

section Steps

variable (jobs : Nat → Transfer) (maxBytes : Nat)

/-- What one `receive` takes: a chunk of an upload within the limit, or any piece of a sealed
file. Past the limit an upload can only raise. -/
def Receives (x : Transfer) (received n : Nat) : Prop :=
  0 < n ∧ received + n ≤ x.body.length ∧ (x.trigger = .upload →
    n = min ioChunk (x.body.length - received) ∧ received + n ≤ maxBytes)

instance (x : Transfer) (received n : Nat) : Decidable (Receives maxBytes x received n) :=
  inferInstanceAs (Decidable (_ ∧ _ ∧ (_ → _)))

/-- `n` more bytes through the descriptor. -/
def writeNext (files : Files String) (x : Transfer) (inode flushed n : Nat) : Files String :=
  files.writeAt inode flushed ((x.body.drop flushed).take n)

/-- The check of the part before it is renamed; an upload reads it back by its name. -/
def checkPart (s : TransferState) (x : Transfer) (inode : Nat) : TransferPc :=
  if x.trigger = .upload then
    match s.files.read x.part with
    | none => .discarding (some inode)
    | some bytes => if (readHeader bytes).isOk then .ready inode else .discarding (some inode)
  else .ready inode

/-- The rename; outside the `try`, so nothing is discarded where it raises. -/
def renamePart (s : TransferState) (job : Nat) (inode : Nat) (ok : Bool) : TransferState :=
  if ok = true ∧ (s.files.inode (jobs job).part).isSome = true then
    s.move job (s.files.rename (jobs job).part (jobs job).name) (.placed inode)
  else s.move job s.files (.failed (some inode))

def next (s : TransferState) : TransferEvent → Option TransferState
  | .refuse job => if s.pc job = .idle then some (s.move job s.files (.failed none)) else none
  | .«open» job =>
    if s.pc job = .idle then
      some (s.move job (s.files.create (jobs job).part)
        (.writing (s.files.opened (jobs job).part) 0 0))
    else none
  | .receive job n =>
    match s.pc job with
    | .writing inode received flushed =>
      if Receives maxBytes (jobs job) received n then
        some (s.move job s.files (.writing inode (received + n) flushed))
      else none
    | _ => none
  | .write job n =>
    match s.pc job with
    | .writing inode received flushed =>
      if flushed + n ≤ received then
        some (s.move job (writeNext s.files (jobs job) inode flushed n)
          (.writing inode received (flushed + n)))
      else none
    | _ => none
  | .close job =>
    match s.pc job with
    | .writing inode received flushed =>
      if received = (jobs job).body.length ∧ flushed = received then
        some (s.move job s.files (.closed inode))
      else none
    | _ => none
  | .check job =>
    match s.pc job with
    | .closed inode => some (s.move job s.files (s.checkPart (jobs job) inode))
    | _ => none
  | .raises job n =>
    match s.pc job with
    | .idle => some (s.move job s.files (.discarding none))
    | .writing inode received flushed =>
      if flushed + n ≤ received then
        some (s.move job (writeNext s.files (jobs job) inode flushed n) (.discarding (some inode)))
      else none
    | .closed inode => some (s.move job s.files (.discarding (some inode)))
    | _ => none
  | .discard job ok =>
    match s.pc job with
    | .discarding inode =>
      some (s.move job (if ok then s.files.unlink (jobs job).part else s.files) (.failed inode))
    | _ => none
  | .rename job ok =>
    match s.pc job with
    | .ready inode => some (s.renamePart jobs job inode ok)
    | _ => none
  | .finish job ok =>
    match s.pc job with
    | .placed inode =>
      some (s.move job s.files (if ok then .succeeded inode else .failed (some inode)))
    | _ => none

/-- What a request has a right to: its file is what it sent once it is in place, its part is
what it has written until then, and nothing is left of it where it fails. -/
def UnharmedAt (s : TransferState) (job : Nat) : Prop :=
  match s.pc job with
  | .idle => True
  | .writing _ _ flushed => s.files.read (jobs job).part = some ((jobs job).body.take flushed)
  | .closed _ => s.files.read (jobs job).part = some (jobs job).body
  | .ready _ => s.files.read (jobs job).part = some (jobs job).body
  | .discarding _ => True
  | .placed _ => s.files.read (jobs job).name = some (jobs job).body
  | .succeeded _ => s.files.read (jobs job).name = some (jobs job).body
  | .failed none => True
  | .failed (some inode) => ∀ name, s.files.inode name ≠ some inode

def Unharmed (s : TransferState) : Prop :=
  ∀ job, s.UnharmedAt jobs job

/-- A transfer that has come to the directory. -/
def Active (pc : TransferPc) : Prop :=
  pc ≠ .idle ∧ pc ≠ .failed none

/-- No transfer comes to the directory under a name that another one has there, and no call
raises after which nothing is cleaned up: the deletion of a part, the rename, what follows it. -/
def apart (s : TransferState) : TransferEvent → Prop
  | .«open» job => ∀ other, other ≠ job → Active (s.pc other) →
      (jobs other).name ≠ (jobs job).name
  | .raises job _ => ∀ other, other ≠ job → Active (s.pc other) →
      (jobs other).name ≠ (jobs job).name
  | .discard _ ok => ok = true
  | .rename _ ok => ok = true
  | .finish _ ok => ok = true
  | _ => True

end Steps

end TransferState

/-! ### Names -/

namespace Transfer

theorem part_ne_name (x y : Transfer) : x.part ≠ y.name := by
  intro same
  have whole := not_part_of_matches (matchesName_newName y.started y.trigger)
  have part := isPart_append x.name
  rw [show x.name ++ ".part" = newName y.started y.trigger from same, whole] at part
  cases part

theorem part_inj {x y : Transfer} (same : x.part = y.part) : x.name = y.name := by
  have texts := congrArg String.toList same
  simp only [part, String.toList_append] at texts
  exact String.toList_inj.mp (List.append_cancel_right texts)

/-! ### What a transfer relies on -/

def Own (x : Transfer) (pc : TransferPc) (f : Files String) : Prop :=
  match pc with
  | .idle => True
  | .writing inode received flushed => f.inode x.part = some inode ∧
      f.read x.part = some (x.body.take flushed) ∧ flushed ≤ received ∧ received ≤ x.body.length
  | .closed inode => f.inode x.part = some inode ∧ f.read x.part = some x.body
  | .ready inode => f.inode x.part = some inode ∧ f.read x.part = some x.body
  | .discarding none => True
  | .discarding (some inode) => f.inode x.part = some inode
  | .placed _ => f.read x.name = some x.body
  | .succeeded _ => f.read x.name = some x.body
  | .failed none => True
  | .failed (some inode) => f.Nameless inode

/-- What a step of another transfer leaves alone. -/
structure Kept (x : Transfer) (f g : Files String) : Prop where
  partInode : g.inode x.part = f.inode x.part
  partRead : g.read x.part = f.read x.part
  nameRead : g.read x.name = f.read x.name
  nameless : ∀ inode, f.Nameless inode → g.Nameless inode

section Frame

variable {x y : Transfer} {f g : Files String} {pc : TransferPc}

theorem Own.frame (own : x.Own pc f) (kept : x.Kept f g) : x.Own pc g := by
  cases pc with
  | idle => trivial
  | writing inode received flushed => simpa only [Own, kept.partInode, kept.partRead] using own
  | closed inode => simpa only [Own, kept.partInode, kept.partRead] using own
  | ready inode => simpa only [Own, kept.partInode, kept.partRead] using own
  | discarding inode =>
    cases inode with
    | none => trivial
    | some inode => simpa only [Own, kept.partInode] using own
  | placed inode => simpa only [Own, kept.nameRead] using own
  | succeeded inode => simpa only [Own, kept.nameRead] using own
  | failed inode =>
    cases inode with
    | none => trivial
    | some inode => exact kept.nameless inode own

theorem Kept.refl (x : Transfer) (f : Files String) : x.Kept f f :=
  ⟨rfl, rfl, rfl, fun _ nameless => nameless⟩

theorem kept_create (other : x.name ≠ y.name) : x.Kept f (f.create y.part) where
  partInode := f.inode_create_of_ne fun same => other (part_inj same)
  partRead := f.read_create_of_ne fun same => other (part_inj same)
  nameRead := f.read_create_of_ne fun same => part_ne_name y x same.symm
  nameless := fun _ nameless => nameless.create

theorem kept_unlink (other : x.name ≠ y.name) : x.Kept f (f.unlink y.part) where
  partInode := f.inode_unlink_of_ne fun same => other (part_inj same)
  partRead := f.read_unlink_of_ne fun same => other (part_inj same)
  nameRead := f.read_unlink_of_ne fun same => part_ne_name y x same.symm
  nameless := fun _ nameless => nameless.unlink

theorem kept_rename (other : x.name ≠ y.name) : x.Kept f (f.rename y.part y.name) where
  partInode := f.inode_rename_of_ne (fun same => other (part_inj same)) (part_ne_name x y)
  partRead := f.read_rename_of_ne (fun same => other (part_inj same)) (part_ne_name x y)
  nameRead := f.read_rename_of_ne (fun same => part_ne_name y x same.symm) other
  nameless := fun _ nameless => nameless.rename

/-- A write through the descriptor of another transfer, whose part is its inode's only name. -/
theorem kept_writeAt {inode offset : Nat} {piece : Bytes} (other : x.name ≠ y.name)
    (named : f.inode y.part = some inode) : x.Kept f (f.writeAt inode offset piece) where
  partInode := rfl
  partRead := f.read_writeAt_of_ne fun same => other (part_inj (f.single _ _ _ same named))
  nameRead := f.read_writeAt_of_ne fun same =>
    part_ne_name y x (f.single _ _ _ named same)
  nameless := fun _ nameless => nameless.writeAt

/-- The next bytes in the part. -/
theorem Own.written {inode received flushed n : Nat} (own : x.Own (.writing inode received flushed) f)
    (within : flushed + n ≤ received) :
    x.Own (.writing inode received (flushed + n)) (TransferState.writeNext f x inode flushed n) := by
  obtain ⟨named, content, _, whole⟩ := own
  have grown := f.read_writeAt_self flushed ((x.body.drop flushed).take n) named content
  rw [splice_take x.body (within.trans whole)] at grown
  exact ⟨named, grown, within, whole⟩

end Frame

end Transfer

/-! ### What the steps keep -/

namespace TransferState

variable {jobs : Nat → Transfer} {maxBytes : Nat}

/-- No two transfers share a name in the directory, and each has what it relies on. -/
structure Sound (jobs : Nat → Transfer) (s : TransferState) : Prop where
  distinct : ∀ job other, other ≠ job → Active (s.pc job) → Active (s.pc other) →
    (jobs other).name ≠ (jobs job).name
  own : ∀ job, (jobs job).Own (s.pc job) s.files

section Moves

variable {s t : TransferState} {job : Nat} {pc : TransferPc} {files : Files String}

/-- A transfer's step: it comes to a point that is its own, and the others keep theirs. -/
theorem Sound.move (sound : s.Sound jobs)
    (alone : Active pc → ∀ other, other ≠ job → Active (s.pc other) →
      (jobs other).name ≠ (jobs job).name)
    (own : (jobs job).Own pc files)
    (kept : ∀ other, other ≠ job → Active (s.pc other) → (jobs other).Kept s.files files) :
    (s.move job files pc).Sound jobs := by
  constructor
  case distinct =>
    intro first second other active active'
    by_cases here : first = job
    · subst here
      rw [pc_move_self] at active
      rw [pc_move_of_ne s files pc other] at active'
      exact alone active second other active'
    · rw [pc_move_of_ne s files pc here] at active
      by_cases there : second = job
      · subst there
        rw [pc_move_self] at active'
        exact (alone active' first here active).symm
      · rw [pc_move_of_ne s files pc there] at active'
        exact sound.distinct first second other active active'
  case own =>
    intro other
    by_cases here : other = job
    · subst here
      rw [pc_move_self]
      exact own
    · rw [pc_move_of_ne s files pc here]
      by_cases active : Active (s.pc other)
      -- an upload under way keeps what it has of the files; the others have nothing
      · exact (sound.own other).frame (kept other here active)
      · rcases not_and_or.mp active with idle | refused
        · rw [not_not.mp idle]
          trivial
        · rw [not_not.mp refused]
          trivial

/-- A step of a transfer that is in the directory already. -/
theorem Sound.go (sound : s.Sound jobs) (here : Active (s.pc job))
    (own : (jobs job).Own pc files)
    (kept : ∀ other, (jobs other).name ≠ (jobs job).name → (jobs other).Kept s.files files) :
    (s.move job files pc).Sound jobs :=
  sound.move (fun _ other apart active => sound.distinct job other apart here active) own
    fun other apart active => kept other (sound.distinct job other apart here active)

theorem Sound.unharmed (sound : s.Sound jobs) : s.Unharmed jobs := by
  intro job
  have own := sound.own job
  unfold UnharmedAt
  cases h : s.pc job with
  | idle => trivial
  | writing inode received flushed =>
    rw [h] at own
    exact own.2.1
  | closed inode =>
    rw [h] at own
    exact own.2
  | ready inode =>
    rw [h] at own
    exact own.2
  | discarding inode => trivial
  | placed inode =>
    rw [h] at own
    exact own
  | succeeded inode =>
    rw [h] at own
    exact own
  | failed inode =>
    cases inode with
    | none => trivial
    | some inode =>
      rw [h] at own
      exact own.1

private theorem kept_still {x y : Transfer} (_ : x.name ≠ y.name) : x.Kept s.files s.files :=
  Transfer.Kept.refl _ _

/-! Each event by itself. -/

theorem Sound.refuse (sound : s.Sound jobs) (moved : s.next jobs maxBytes (.refuse job) = some t) :
    t.Sound jobs := by
  simp only [next] at moved
  split at moved
  next here =>
    cases moved
    refine sound.move (fun active => absurd rfl active.2) trivial ?_
    exact fun _ _ _ => Transfer.Kept.refl _ _
  next => cases moved

/-- The part is new, and no other transfer in the directory has its name. -/
theorem Sound.opened (sound : s.Sound jobs) (alone : s.apart jobs (.«open» job))
    (moved : s.next jobs maxBytes (.«open» job) = some t) : t.Sound jobs := by
  simp only [next] at moved
  split at moved
  next here =>
    cases moved
    refine sound.move (fun _ => alone) ?_ fun other apart active =>
      Transfer.kept_create (alone other apart active)
    exact ⟨s.files.inode_create_self, s.files.read_create_self, le_rfl, Nat.zero_le _⟩
  next => cases moved

theorem Sound.receive {n : Nat} (sound : s.Sound jobs)
    (moved : s.next jobs maxBytes (.receive job n) = some t) : t.Sound jobs := by
  have own := sound.own job
  simp only [next] at moved
  split at moved
  next inode received flushed here =>
    rw [here] at own
    split at moved
    next receives =>
      cases moved
      refine sound.go (by simp [here, Active]) ?_ fun _ => kept_still
      obtain ⟨named, content, behind, _⟩ := own
      exact ⟨named, content, le_trans behind (Nat.le_add_right _ _), receives.2.1⟩
    next => cases moved
  next => cases moved

theorem Sound.write {n : Nat} (sound : s.Sound jobs)
    (moved : s.next jobs maxBytes (.write job n) = some t) : t.Sound jobs := by
  have own := sound.own job
  simp only [next] at moved
  split at moved
  next inode received flushed here =>
    rw [here] at own
    split at moved
    next within =>
      cases moved
      exact sound.go (by simp [here, Active]) (own.written within) fun other apart =>
        Transfer.kept_writeAt apart own.1
    next => cases moved
  next => cases moved

theorem Sound.close (sound : s.Sound jobs) (moved : s.next jobs maxBytes (.close job) = some t) :
    t.Sound jobs := by
  have own := sound.own job
  simp only [next] at moved
  split at moved
  next inode received flushed here =>
    rw [here] at own
    split at moved
    next whole =>
      cases moved
      refine sound.go (by simp [here, Active]) ?_ fun _ => kept_still
      obtain ⟨named, content, _, _⟩ := own
      rw [whole.2, whole.1, List.take_length] at content
      exact ⟨named, content⟩
    next => cases moved
  next => cases moved

theorem Sound.check (sound : s.Sound jobs) (moved : s.next jobs maxBytes (.check job) = some t) :
    t.Sound jobs := by
  have own := sound.own job
  simp only [next] at moved
  split at moved
  next inode here =>
    rw [here] at own
    cases moved
    refine sound.go (by simp [here, Active]) ?_ fun _ => kept_still
    unfold checkPart
    split
    next =>
      split
      next => exact own.1
      next bytes _ =>
        split
        · exact own
        · exact own.1
    next => exact own
  next => cases moved

/-- An exception in the `try`, before the part was opened or after it. -/
theorem Sound.raises {n : Nat} (sound : s.Sound jobs) (alone : s.apart jobs (.raises job n))
    (moved : s.next jobs maxBytes (.raises job n) = some t) : t.Sound jobs := by
  have own := sound.own job
  simp only [next] at moved
  split at moved
  next here =>
    cases moved
    exact sound.move (fun _ => alone) trivial fun _ _ _ => Transfer.Kept.refl _ _
  next inode received flushed here =>
    rw [here] at own
    split at moved
    next within =>
      cases moved
      exact sound.go (by simp [here, Active]) (own.written within).1 fun other apart =>
        Transfer.kept_writeAt apart own.1
    next => cases moved
  next inode here =>
    rw [here] at own
    cases moved
    exact sound.go (by simp [here, Active]) own.1 fun _ => kept_still
  next => cases moved

theorem Sound.discard (sound : s.Sound jobs)
    (moved : s.next jobs maxBytes (.discard job true) = some t) : t.Sound jobs := by
  have own := sound.own job
  simp only [next] at moved
  split at moved
  next inode here =>
    rw [here] at own
    cases moved
    refine sound.go (by simp [here, Active]) ?_ fun other apart => Transfer.kept_unlink apart
    cases inode with
    | none => trivial
    | some inode => exact Files.nameless_unlink own
  next => cases moved

theorem Sound.rename (sound : s.Sound jobs)
    (moved : s.next jobs maxBytes (.rename job true) = some t) : t.Sound jobs := by
  have own := sound.own job
  simp only [next] at moved
  split at moved
  next inode here =>
    rw [here] at own
    have there : (s.files.inode (jobs job).part).isSome = true := by
      rw [own.1]
      rfl
    simp only [renamePart, there, and_self, if_true, Option.some.injEq] at moved
    subst moved
    refine sound.go (by simp [here, Active]) ?_ fun other apart => Transfer.kept_rename apart
    exact s.files.read_rename_target.trans own.2
  next => cases moved

theorem Sound.finish (sound : s.Sound jobs)
    (moved : s.next jobs maxBytes (.finish job true) = some t) : t.Sound jobs := by
  have own := sound.own job
  simp only [next] at moved
  split at moved
  next inode here =>
    rw [here] at own
    cases moved
    exact sound.go (by simp [here, Active]) own fun _ => kept_still
  next => cases moved

/-- Every step keeps the transfers apart, and each with its own. -/
theorem Sound.step {e : TransferEvent} (sound : s.Sound jobs) (alone : s.apart jobs e)
    (moved : s.next jobs maxBytes e = some t) : t.Sound jobs := by
  cases e with
  | refuse job => exact sound.refuse moved
  | «open» job => exact sound.opened alone moved
  | receive job n => exact sound.receive moved
  | write job n => exact sound.write moved
  | close job => exact sound.close moved
  | check job => exact sound.check moved
  | raises job n => exact sound.raises alone moved
  | discard job ok =>
    cases (alone : ok = true)
    exact sound.discard moved
  | rename job ok =>
    cases (alone : ok = true)
    exact sound.rename moved
  | finish job ok =>
    cases (alone : ok = true)
    exact sound.finish moved

end Moves

end TransferState

/-! ### Runs -/

def TransferStep (jobs : Nat → Transfer) (maxBytes : Nat) (s : TransferState) (e : TransferEvent)
    (t : TransferState) : Prop :=
  s.next jobs maxBytes e = some t

theorem transfers_initial {jobs : Nat → Transfer} {start : TransferState}
    (idle : ∀ job, start.pc job = .idle) : start.Sound jobs where
  distinct := fun job _ _ active => absurd (idle job) active.1
  own := fun job => by
    rw [idle job]
    trivial

/-- Over every run in which no two transfers share a name and nothing raises that is not cleaned
up after, each has its file as it sent it, or nothing. -/
theorem transfers_unharmed (jobs : Nat → Transfer) (maxBytes : Nat) (start s : TransferState)
    (idle : ∀ job, start.pc job = .idle)
    (run : Reaches (Guarded (TransferState.apart jobs) (TransferStep jobs maxBytes)) start s) :
    s.Unharmed jobs := by
  have sound : s.Sound jobs :=
    run.invariant (P := TransferState.Sound jobs)
      (fun _ _ _ sound moved => sound.step moved.1 moved.2) (transfers_initial idle)
  exact sound.unharmed

/-- A body with the header of a backup file and one byte after it. -/
def shortBody (last : UInt8) : Bytes :=
  magic ++ formatVersion :: (List.replicate 32 0 ++ [last])

private theorem uploadYear : 2026 < 10000 := by decide

/-- Two uploads that start at these seconds of one minute. -/
def twoUploads (first second : Fin 60) (job : Nat) : Transfer where
  started := { newYear ⟨2026, uploadYear⟩ with second := if job = 0 then first else second }
  trigger := .upload
  body := shortBody (if job = 0 then 1 else 2)

def noTransfers : TransferState where
  files := Files.empty
  pc := fun _ => .idle

def sideBySide : List TransferEvent :=
  [.«open» 0, .«open» 1, .receive 0 43, .receive 1 43, .write 1 20, .write 0 43, .write 1 23,
    .close 0, .check 0, .rename 0 true, .close 1, .check 1, .finish 0 true, .rename 1 true,
    .finish 1 true]

private theorem sideBySide_apart : Fits (TransferState.apart (twoUploads 4 5))
    (TransferState.next (twoUploads 4 5) 100) sideBySide noTransfers := by
  have other_name : (twoUploads 4 5 0).name ≠ (twoUploads 4 5 1).name := by decide +kernel
  refine And.intro (fun other _ active => absurd rfl active.1) ?_
  refine And.intro (fun other apart active => ?_) ?_
  · by_cases first : other = 0
    · subst first
      exact other_name
    · refine absurd ?_ active.1
      exact TransferState.pc_move_of_ne noTransfers _ _ first
  · repeat' apply And.intro trivial
    trivial

theorem transfers_unharmed_apart : ∃ s,
    play (TransferState.next (twoUploads 4 5) 100) sideBySide noTransfers = some s ∧
      s.pc 0 = .succeeded 0 ∧ s.pc 1 = .succeeded 1 ∧ s.Unharmed (twoUploads 4 5) :=
  ⟨_, rfl, rfl, rfl, transfers_unharmed (twoUploads 4 5) 100 noTransfers _ (fun _ => rfl)
    (Reaches.of_fits sideBySide_apart rfl)⟩

/-! ### Two uploads of one second -/

/-- The second upload opens the part that the first one is writing, and writes on after the
first has answered. Each body is a chunk and `k` more bytes. -/
def oneSecond (k : Nat) : List TransferEvent :=
  [.«open» 0, .«open» 1, .receive 0 ioChunk, .write 0 ioChunk, .receive 0 k, .write 0 k, .close 0,
    .check 0, .rename 0 true, .finish 0 true, .receive 1 ioChunk, .write 1 ioChunk, .receive 1 k,
    .write 1 k]

private theorem inode_writeNext (f : Files String) (x : Transfer) (inode flushed n : Nat) :
    (TransferState.writeNext f x inode flushed n).inode = f.inode :=
  rfl

/-- A body that is written in two pieces, over a file that is not longer. -/
private theorem read_writeNext {f : Files String} {x : Transfer} {a : String} {inode k : Nat}
    {old : Bytes} (named : f.inode a = some inode) (before : f.read a = some old)
    (long : x.body.length = ioChunk + k) (short : old.length ≤ ioChunk + k) :
    (TransferState.writeNext (TransferState.writeNext f x inode 0 ioChunk) x inode ioChunk k).read
      a = some x.body := by
  have chunk : splice old 0 ((x.body.drop 0).take ioChunk) =
      x.body.take ioChunk ++ old.drop ioChunk := by
    have pieces := @splice_over x.body old 0 ioChunk (by omega)
    simpa only [List.take_zero, List.nil_append, List.drop_zero, Nat.zero_add] using pieces
  have first := f.read_writeAt_self 0 ((x.body.drop 0).take ioChunk) named before
  rw [chunk] at first
  have second := (TransferState.writeNext f x inode 0 ioChunk).read_writeAt_self ioChunk
    ((x.body.drop ioChunk).take k) named first
  have rest : old.drop (ioChunk + k) = [] := List.drop_eq_nil_iff.mpr short
  rw [splice_over x.body old (by omega), rest, List.append_nil, ← long, List.take_length] at second
  exact second

/-- Whatever the two send, the first one is answered and its file holds what the second one
sent. -/
theorem upload_overwrites {jobs : Nat → Transfer} {maxBytes k : Nat}
    (same : (jobs 1).name = (jobs 0).name) (uploads : (jobs 0).trigger = .upload)
    (long : ∀ job, (jobs job).body.length = ioChunk + k) (short : 0 < k ∧ k ≤ ioChunk)
    (room : ioChunk + k ≤ maxBytes) (header : (readHeader (jobs 0).body).isOk = true) :
    ∃ s, play (TransferState.next jobs maxBytes) (oneSecond k) noTransfers = some s ∧
      s.pc 0 = .succeeded 0 ∧ s.files.read (jobs 0).name = some (jobs 1).body := by
  have part : (jobs 1).part = (jobs 0).part := congrArg (· ++ ".part") same
  have first : ∀ job, TransferState.Receives maxBytes (jobs job) 0 ioChunk := by
    intro job
    have length := long job
    refine ⟨by decide, by omega, fun _ => ⟨by omega, by omega⟩⟩
  have rest : ∀ job, TransferState.Receives maxBytes (jobs job) ioChunk k := by
    intro job
    have length := long job
    refine ⟨short.1, by omega, fun _ => ⟨by omega, room⟩⟩
  have opened : (Files.empty.create (jobs 0).part).opened (jobs 0).part = 0 := by
    simp [Files.opened, Files.create, Files.empty]
  -- both descriptors are on one inode, whose name the first rename changes
  have named : ((Files.empty.create (jobs 0).part).create (jobs 0).part).inode
      (jobs 0).part = some 0 := by
    rw [Files.inode_create_self, opened]
  have written := read_writeNext named (Files.read_create_self _) (long 0) (Nat.zero_le _)
  generalize files : TransferState.writeNext (TransferState.writeNext
    ((Files.empty.create (jobs 0).part).create (jobs 0).part) (jobs 0) 0 0 ioChunk) (jobs 0) 0
      ioChunk k = f at written
  have partName : f.inode (jobs 0).part = some 0 := by
    rw [← files, inode_writeNext, inode_writeNext, named]
  have fileName : (f.rename (jobs 0).part (jobs 0).name).inode (jobs 0).name = some 0 := by
    simp only [Files.rename, Function.update_self, partName]
  have placed : (f.rename (jobs 0).part (jobs 0).name).read (jobs 0).name = some (jobs 0).body :=
    (Files.read_rename_target _).trans written
  have overwritten := read_writeNext fileName placed (long 1) (Nat.le_of_eq (long 0))
  have observed : (play (TransferState.next jobs maxBytes) (oneSecond k) noTransfers).map
      (fun s => (s.pc 0, s.files)) = some (.succeeded 0, TransferState.writeNext
        (TransferState.writeNext (f.rename (jobs 0).part (jobs 0).name) (jobs 1) 0 0 ioChunk)
        (jobs 1) 0 ioChunk k) := by
    have empty : Files.empty.opened (jobs 0).part = 0 := rfl
    simp only [oneSecond, play, Option.bind_some, TransferState.next, noTransfers, if_true,
      TransferState.move, Function.update_self, part, empty, opened, first, rest, Nat.zero_add,
      le_refl, long, and_self, Function.update_of_ne, ne_eq, one_ne_zero, zero_ne_one,
      not_false_eq_true, TransferState.checkPart, uploads, files, written, header,
      TransferState.renamePart, partName, Option.isSome_some, Option.map_some]
  obtain ⟨s, played, seen⟩ := Option.map_eq_some_iff.mp observed
  obtain ⟨done, left⟩ := Prod.mk.inj seen
  exact ⟨s, played, done, left ▸ overwritten⟩

/-- A body that is longer than a chunk, so that its reads let others go on. -/
def longBody (last : UInt8) : Bytes :=
  magic ++ formatVersion :: (List.replicate 32 0 ++ List.replicate ioChunk last)

theorem length_longBody (last : UInt8) : (longBody last).length = ioChunk + 42 := by
  simp [longBody, magic]

def longUploads (job : Nat) : Transfer where
  started := newYear ⟨2026, uploadYear⟩
  trigger := .upload
  body := longBody (if job = 0 then 1 else 2)

/-- The first upload has succeeded, and its file holds what the second one sent. -/
theorem upload_overwritten : ∃ s,
    play (TransferState.next longUploads (2 * ioChunk)) (oneSecond 42) noTransfers = some s ∧
      s.pc 0 = .succeeded 0 ∧ s.files.read (longUploads 0).name = some (longBody 2) ∧
      ¬s.Unharmed longUploads := by
  have header : (readHeader (longUploads 0).body).isOk = true := rfl
  obtain ⟨s, played, done, content⟩ := @upload_overwrites longUploads (2 * ioChunk) 42 rfl rfl
    (fun _ => length_longBody _) (by decide) (by decide) header
  refine ⟨s, played, done, content, fun unharmed => ?_⟩
  have own := unharmed 0
  rw [TransferState.UnharmedAt, done] at own
  have same : longBody 2 = longBody 1 := Option.some.inj (content.symm.trans own)
  exact absurd (congrArg (List.getD · 42 0) same) (by decide)

end MegooPM
