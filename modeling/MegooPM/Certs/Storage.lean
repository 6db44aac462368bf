import MegooPM.Data.Tables
import MegooPM.Lib.Files
import MegooPM.Lib.Transition

/-!
# Certificate material on the shared volume

`write_material` of `services/certs/storage.py`, call by call. Each file is written under a
temporary name that all writers of that file share and then renamed; the chain goes first, the
key second. Any number of writers interleave, a call may raise and a writer may die at any point.
-/
namespace MegooPM

open Lib

inductive MaterialFile where
  | fullchain | privkey | chain
  deriving DecidableEq, Repr

def MaterialFile.name : MaterialFile → String
  | .fullchain => "fullchain.pem"
  | .privkey => "privkey.pem"
  | .chain => "chain.pem"

/-- `path.with_name(f".{path.name}.tmp")` -/
def MaterialFile.tmp (file : MaterialFile) : String :=
  "." ++ file.name ++ ".tmp"

/-- What one issuance or upload writes. -/
structure Material where
  fullchain : Bytes
  privkey : Bytes
  chain : Option Bytes := none
  deriving DecidableEq, Repr

def Material.get (m : Material) : MaterialFile → Bytes
  | .fullchain => m.fullchain
  | .privkey => m.privkey
  | .chain => m.chain.getD []

/-- The call of `_atomic_write` that is next or under way. -/
inductive WritePc where
  /-- `os.open` of the temporary name; the directory is made before -/
  | openTmp
  /-- the descriptor's inode, and how much has reached it -/
  | writing (inode done : Nat)
  | chmod
  | replace
  /-- `tmp.exists()`, and whether the file is in place -/
  | tidy (ok : Bool)
  | unlink (ok : Bool)
  deriving DecidableEq, Repr

/-- A `write_material` under way. -/
structure Writing where
  certId : Id
  material : Material
  file : MaterialFile := .fullchain
  pc : WritePc := .openTmp
  deriving DecidableEq, Repr

/-- A file of the volume: the certificate's directory and the name in it. -/
abbrev VolumeName := Id × String

namespace Writing

def data (x : Writing) : Bytes :=
  x.material.get x.file

def path (x : Writing) : VolumeName :=
  (x.certId, x.file.name)

def tmp (x : Writing) : VolumeName :=
  (x.certId, x.file.tmp)

/-- The next file, once one is in place. -/
def after (x : Writing) : Option Writing :=
  match x.file with
  | .fullchain => some { x with file := .privkey, pc := .openTmp }
  | .privkey =>
    if x.material.chain.isSome then some { x with file := .chain, pc := .openTmp } else none
  | .chain => none

/-- Where a raised exception leads: the `finally` branch, or out of `write_material`. -/
def raised (x : Writing) : Option Writing :=
  match x.pc with
  | .writing _ _ => some { x with pc := .tidy false }
  | .chmod => some { x with pc := .tidy false }
  | .replace => some { x with pc := .tidy false }
  | _ => none

end Writing

/-- The files, the writers under way, and every material that a writer ever came with. -/
structure CertVolume where
  files : Files VolumeName := Files.empty
  writers : Nat → Option Writing := fun _ => none
  begun : List (Id × Material) := []

inductive VolumeEvent where
  | start (writer : Nat) (certId : Id) (material : Material)
  /-- the next call returns -/
  | call (writer : Nat)
  /-- so many more bytes reach the file -/
  | write (writer n : Nat)
  /-- the next call raises -/
  | raises (writer : Nat)
  | dies (writer : Nat)
  deriving DecidableEq, Repr

namespace CertVolume

/-- A writer's step. -/
def move (s : CertVolume) (writer : Nat) (files : Files VolumeName) (next : Option Writing) :
    CertVolume :=
  { s with files := files, writers := Function.update s.writers writer next }

theorem writers_move_self (s : CertVolume) (writer : Nat) (files : Files VolumeName)
    (next : Option Writing) : (s.move writer files next).writers writer = next :=
  Function.update_self ..

theorem writers_move_of_ne (s : CertVolume) {writer v : Nat} (files : Files VolumeName)
    (next : Option Writing) (other : v ≠ writer) :
    (s.move writer files next).writers v = s.writers v :=
  Function.update_of_ne other ..

/-- The end of one `_atomic_write`: on to the next file, or the exception goes on. -/
def settle (s : CertVolume) (writer : Nat) (x : Writing) (files : Files VolumeName) (ok : Bool) :
    CertVolume :=
  s.move writer files (if ok then x.after else none)

/-- The next call of a writer returns; `none` where it can only raise. -/
def call (s : CertVolume) (writer : Nat) (x : Writing) : Option CertVolume :=
  match x.pc with
  | .openTmp =>
    some (s.move writer (s.files.create x.tmp)
      (some { x with pc := .writing (s.files.opened x.tmp) 0 }))
  | .writing _ done =>
    if done = x.data.length then some (s.move writer s.files (some { x with pc := .chmod }))
    else none
  | .chmod =>
    if (s.files.inode x.tmp).isSome then
      some (s.move writer s.files (some { x with pc := .replace }))
    else none
  | .replace =>
    if (s.files.inode x.tmp).isSome then
      some (s.move writer (s.files.rename x.tmp x.path) (some { x with pc := .tidy true }))
    else none
  | .tidy ok =>
    if (s.files.inode x.tmp).isSome then
      some (s.move writer s.files (some { x with pc := .unlink ok }))
    else some (s.settle writer x s.files ok)
  | .unlink ok => some (s.settle writer x (s.files.unlink x.tmp) ok)

/-- `fh.write` gets `n` bytes further. -/
def write (s : CertVolume) (writer : Nat) (x : Writing) (n : Nat) : Option CertVolume :=
  match x.pc with
  | .writing inode done =>
    if done + n ≤ x.data.length then
      some (s.move writer (s.files.writeAt inode done ((x.data.drop done).take n))
        (some { x with pc := .writing inode (done + n) }))
    else none
  | _ => none

def next (s : CertVolume) : VolumeEvent → Option CertVolume
  | .start writer certId material =>
    if s.writers writer = none then
      some { s.move writer s.files (some { certId := certId, material := material }) with
        begun := (certId, material) :: s.begun }
    else none
  | .call writer => (s.writers writer).bind (s.call writer)
  | .write writer n => (s.writers writer).bind fun x => s.write writer x n
  | .raises writer => (s.writers writer).map fun x => s.move writer s.files x.raised
  | .dies writer => (s.writers writer).map fun _ => s.move writer s.files none

/-- If the chain and the key of a certificate both exist, one issuance came with both. -/
def PairedAt (s : CertVolume) (certId : Id) : Prop :=
  ∀ chain key, s.files.read (certId, MaterialFile.fullchain.name) = some chain →
    s.files.read (certId, MaterialFile.privkey.name) = some key →
    ∃ material, (certId, material) ∈ s.begun ∧ chain = material.fullchain ∧
      key = material.privkey

def Paired (s : CertVolume) : Prop :=
  ∀ certId, s.PairedAt certId

/-- A write begins only where there is no key yet and nobody else is writing. -/
def fresh (s : CertVolume) : VolumeEvent → Prop
  | .start _ certId _ =>
    s.files.read (certId, MaterialFile.privkey.name) = none ∧
      ∀ writer x, s.writers writer = some x → x.certId ≠ certId
  | _ => True

end CertVolume

/-! ### What the steps keep -/

section Names

theorem name_ne_tmp (a b : MaterialFile) : a.name ≠ b.tmp := by
  cases a <;> cases b <;> decide

theorem path_ne_tmp (certId : Id) (a : MaterialFile) (x : Writing) :
    ((certId, a.name) : VolumeName) ≠ x.tmp :=
  fun same => name_ne_tmp a x.file (congrArg Prod.snd same)

end Names

namespace Writing

/-- The key is not there before the chain is; then the new key comes. -/
def Progress (x : Writing) (f : Files VolumeName) : Prop :=
  match x.file with
  | .fullchain =>
    f.read (x.certId, MaterialFile.privkey.name) = none ∧ (x.pc = .tidy true →
      f.read (x.certId, MaterialFile.fullchain.name) = some x.material.fullchain)
  | .privkey =>
    f.read (x.certId, MaterialFile.fullchain.name) = some x.material.fullchain ∧
      (x.pc = .tidy true →
        f.read (x.certId, MaterialFile.privkey.name) = some x.material.privkey) ∧
      (x.pc ≠ .tidy true → f.read (x.certId, MaterialFile.privkey.name) = none)
  | .chain =>
    f.read (x.certId, MaterialFile.fullchain.name) = some x.material.fullchain ∧
      f.read (x.certId, MaterialFile.privkey.name) = some x.material.privkey

/-- The temporary file holds what this writer has written so far. -/
def Temp (x : Writing) (f : Files VolumeName) : Prop :=
  match x.pc with
  | .openTmp => True
  | .writing inode done =>
    f.inode x.tmp = some inode ∧ f.read x.tmp = some (x.data.take done) ∧ done ≤ x.data.length
  | .chmod => f.read x.tmp = some x.data
  | .replace => f.read x.tmp = some x.data
  | .tidy ok => ok = true → f.read x.tmp = none
  | .unlink ok => ok = false

def Stage (x : Writing) (f : Files VolumeName) : Prop :=
  x.Progress f ∧ x.Temp f

section Stage

variable {x : Writing} {f g : Files VolumeName}

/-- What a writer relies on is in its own directory. -/
theorem Stage.frame (stage : x.Stage f)
    (inode : ∀ name, g.inode (x.certId, name) = f.inode (x.certId, name))
    (read : ∀ name, g.read (x.certId, name) = f.read (x.certId, name)) : x.Stage g := by
  simpa only [Stage, Progress, Temp, tmp, inode, read] using stage

/-- The final files stand and the writer is not at the point where one was just put there. -/
theorem Progress.moved {pc : WritePc} (progress : x.Progress f)
    (before : x.pc ≠ .tidy true) (later : pc ≠ .tidy true)
    (read : ∀ file : MaterialFile, g.read (x.certId, file.name) = f.read (x.certId, file.name)) :
    Progress { x with pc := pc } g := by
  unfold Progress at progress ⊢
  cases h : x.file with
  | fullchain =>
    simp only [h, read] at progress ⊢
    exact ⟨progress.1, fun now => absurd now later⟩
  | privkey =>
    simp only [h, read] at progress ⊢
    exact ⟨progress.1, fun now => absurd now later, fun _ => progress.2.2 before⟩
  | chain =>
    simp only [h, read] at progress ⊢
    exact progress

theorem Stage.created (stage : x.Stage f) (here : x.pc = .openTmp) :
    Stage { x with pc := .writing (f.opened x.tmp) 0 } (f.create x.tmp) := by
  refine ⟨stage.1.moved (by simp [here]) (by simp) fun file =>
    f.read_create_of_ne (path_ne_tmp x.certId file x), ?_⟩
  exact ⟨f.inode_create_self, f.read_create_self, Nat.zero_le _⟩

theorem Stage.written {inode done n : Nat} (stage : x.Stage f) (here : x.pc = .writing inode done)
    (within : done + n ≤ x.data.length) :
    Stage { x with pc := .writing inode (done + n) }
      (f.writeAt inode done ((x.data.drop done).take n)) := by
  obtain ⟨progress, temp⟩ := stage
  simp only [Temp, here] at temp
  obtain ⟨own, content, -⟩ := temp
  refine ⟨progress.moved (by simp [here]) (by simp) fun file => f.read_writeAt_of_ne ?_, ?_⟩
  · -- the descriptor's inode has the temporary name and no other
    exact fun foreign => path_ne_tmp x.certId file x (f.single _ _ _ foreign own)
  · refine ⟨own, ?_, within⟩
    have grown := f.read_writeAt_self done ((x.data.drop done).take n) own content
    rw [splice_take x.data within] at grown
    exact grown

theorem Stage.closed {inode done : Nat} (stage : x.Stage f) (here : x.pc = .writing inode done)
    (whole : done = x.data.length) : Stage { x with pc := .chmod } f := by
  obtain ⟨progress, temp⟩ := stage
  simp only [Temp, here, whole, List.take_length] at temp
  exact ⟨progress.moved (by simp [here]) (by simp) fun _ => rfl, temp.2.1⟩

theorem Stage.chmodded (stage : x.Stage f) (here : x.pc = .chmod) :
    Stage { x with pc := .replace } f := by
  obtain ⟨progress, temp⟩ := stage
  simp only [Temp, here] at temp
  exact ⟨progress.moved (by simp [here]) (by simp) fun _ => rfl, temp⟩

theorem Stage.replaced (stage : x.Stage f) (here : x.pc = .replace) :
    Stage { x with pc := .tidy true } (f.rename x.tmp x.path) := by
  obtain ⟨progress, temp⟩ := stage
  simp only [Temp, here] at temp
  have other : ∀ file : MaterialFile, file.name ≠ x.file.name →
      (f.rename x.tmp x.path).read (x.certId, file.name) = f.read (x.certId, file.name) :=
    fun file distinct => f.read_rename_of_ne (path_ne_tmp x.certId file x)
      fun same => distinct (congrArg Prod.snd same)
  have placed : (f.rename x.tmp x.path).read (x.certId, x.file.name) = some x.data := by
    rw [← temp]
    exact f.read_rename_target
  have gone : (f.rename x.tmp x.path).read x.tmp = none :=
    f.read_rename_source (path_ne_tmp x.certId x.file x).symm
  refine ⟨?_, fun _ => gone⟩
  unfold Progress at progress ⊢
  cases h : x.file with
  | fullchain =>
    simp only [h, data, Material.get] at progress placed other ⊢
    exact ⟨(other .privkey (by decide)).trans progress.1, fun _ => placed⟩
  | privkey =>
    simp only [h, data, Material.get] at progress placed other ⊢
    exact ⟨(other .fullchain (by decide)).trans progress.1, fun _ => placed,
      fun elsewhere => absurd rfl elsewhere⟩
  | chain =>
    simp only [h] at progress other ⊢
    exact ⟨(other .fullchain (by decide)).trans progress.1,
      (other .privkey (by decide)).trans progress.2⟩

theorem Stage.leftover {ok : Bool} (stage : x.Stage f) (here : x.pc = .tidy ok)
    (found : (f.inode x.tmp).isSome) : Stage { x with pc := .unlink ok } f := by
  obtain ⟨progress, temp⟩ := stage
  simp only [Temp, here] at temp
  cases ok with
  | true =>
    have none := temp rfl
    rw [Files.read, Option.map_eq_none_iff] at none
    rw [none] at found
    exact absurd found (by simp)
  | false => exact ⟨progress.moved (by simp [here]) (by simp) fun _ => rfl, rfl⟩

theorem Stage.raised {y : Writing} (stage : x.Stage f) (next : x.raised = some y) :
    y = { x with pc := .tidy false } ∧ y.Stage f := by
  have tidied : x.pc ≠ .tidy true → Stage { x with pc := .tidy false } f := fun before =>
    ⟨stage.1.moved before (by simp) fun _ => rfl, fun placed => absurd placed (by simp)⟩
  unfold Writing.raised at next
  split at next
  next here =>
    cases next
    exact ⟨rfl, tidied (by simp [here])⟩
  next here =>
    cases next
    exact ⟨rfl, tidied (by simp [here])⟩
  next here =>
    cases next
    exact ⟨rfl, tidied (by simp [here])⟩
  next => exact absurd next (by simp)

theorem Stage.after {y : Writing} (stage : x.Stage f) (here : x.pc = .tidy true)
    (next : x.after = some y) :
    y.certId = x.certId ∧ y.material = x.material ∧ y.Stage f := by
  obtain ⟨progress, -⟩ := stage
  unfold Writing.after at next
  unfold Progress at progress
  cases h : x.file with
  | fullchain =>
    simp only [h] at next progress
    cases next
    exact ⟨rfl, rfl, ⟨progress.2 here, fun now => absurd now (by simp), fun _ => progress.1⟩,
      trivial⟩
  | privkey =>
    simp only [h] at next progress
    split at next
    next =>
      cases next
      exact ⟨rfl, rfl, ⟨progress.1, progress.2.1 here⟩, trivial⟩
    next => exact absurd next (by simp)
  | chain =>
    simp only [h] at next
    exact absurd next (by simp)

/-- Whatever the writer's point is, the pair is its own or there is none. -/
theorem Stage.pair (stage : x.Stage f) {chain key : Bytes}
    (left : f.read (x.certId, MaterialFile.fullchain.name) = some chain)
    (right : f.read (x.certId, MaterialFile.privkey.name) = some key) :
    chain = x.material.fullchain ∧ key = x.material.privkey := by
  obtain ⟨progress, -⟩ := stage
  unfold Progress at progress
  cases h : x.file with
  | fullchain =>
    simp only [h] at progress
    rw [progress.1] at right
    exact absurd right (by simp)
  | privkey =>
    simp only [h] at progress
    by_cases placed : x.pc = .tidy true
    · rw [progress.1] at left
      rw [progress.2.1 placed] at right
      exact ⟨(Option.some.inj left).symm, (Option.some.inj right).symm⟩
    · rw [progress.2.2 placed] at right
      exact absurd right (by simp)
  | chain =>
    simp only [h] at progress
    rw [progress.1] at left
    rw [progress.2] at right
    exact ⟨(Option.some.inj left).symm, (Option.some.inj right).symm⟩

end Stage

end Writing

namespace CertVolume

/-- One writer for each certificate, each at a point where the pair is its own. -/
structure Sound (s : CertVolume) : Prop where
  alone : ∀ v w x y, s.writers v = some x → s.writers w = some y → x.certId = y.certId → v = w
  begun : ∀ w x, s.writers w = some x → (x.certId, x.material) ∈ s.begun
  stage : ∀ w x, s.writers w = some x → x.Stage s.files
  idle : ∀ certId, (∀ w x, s.writers w = some x → x.certId ≠ certId) → s.PairedAt certId

section Moves

variable {s t : CertVolume} {w : Nat} {x : Writing}

theorem Sound.pairedAt (sound : s.Sound) (here : s.writers w = some x) : s.PairedAt x.certId := by
  intro chain key left right
  obtain ⟨first, second⟩ := (sound.stage w x here).pair left right
  exact ⟨x.material, sound.begun w x here, first, second⟩

theorem Sound.paired (sound : s.Sound) : s.Paired := by
  intro certId
  by_cases busy : ∃ w x, s.writers w = some x ∧ x.certId = certId
  · obtain ⟨w, x, here, rfl⟩ := busy
    exact sound.pairedAt here
  · exact sound.idle certId fun w x here same => busy ⟨w, x, here, same⟩

/-- A step of one writer: it touches its own directory only, and leaves it at a new point or with
the final files as they were. -/
theorem Sound.move {files : Files VolumeName} {next : Option Writing} (sound : s.Sound)
    (here : s.writers w = some x)
    (inode : ∀ certId name, certId ≠ x.certId →
      files.inode (certId, name) = s.files.inode (certId, name))
    (read : ∀ certId name, certId ≠ x.certId →
      files.read (certId, name) = s.files.read (certId, name))
    (mine : ∀ y, next = some y →
      y.certId = x.certId ∧ y.material = x.material ∧ y.Stage files)
    (ends : next = none → ∀ file : MaterialFile,
      files.read (x.certId, file.name) = s.files.read (x.certId, file.name)) :
    (s.move w files next).Sound := by
  -- the other writers stand where they stood, and write elsewhere
  have others : ∀ {v y}, v ≠ w → (s.move w files next).writers v = some y →
      s.writers v = some y ∧ y.certId ≠ x.certId := by
    intro v y other there
    rw [s.writers_move_of_ne files next other] at there
    exact ⟨there, fun same => other (sound.alone v w y x there here same)⟩
  have own : ∀ {y}, (s.move w files next).writers w = some y → next = some y := by
    intro y there
    rwa [writers_move_self] at there
  constructor
  case alone =>
    intro u v y z left right same
    by_cases first : u = w
    · by_cases second : v = w
      · exact first.trans second.symm
      · subst first
        obtain ⟨-, apart⟩ := others second right
        exact absurd (same.symm.trans (mine y (own left)).1) apart
    · obtain ⟨before, apart⟩ := others first left
      by_cases second : v = w
      · subst second
        exact absurd (same.trans (mine z (own right)).1) apart
      · exact sound.alone u v y z before (others second right).1 same
  case begun =>
    intro v y there
    by_cases same : v = w
    · subst same
      obtain ⟨certId, material, -⟩ := mine y (own there)
      rw [certId, material]
      exact sound.begun v x here
    · exact sound.begun v y (others same there).1
  case stage =>
    intro v y there
    by_cases same : v = w
    · subst same
      exact (mine y (own there)).2.2
    · obtain ⟨before, apart⟩ := others same there
      exact (sound.stage v y before).frame (fun name => inode _ name apart)
        fun name => read _ name apart
  case idle =>
    intro certId unused chain key left right
    by_cases same : certId = x.certId
    · subst same
      cases h : next with
      | some y =>
        refine absurd (mine y h).1 (unused w y ?_)
        rw [writers_move_self, h]
      -- the writer leaves, and what it leaves is a pair as before
      | none =>
        simp only [CertVolume.move, ends h] at left right
        exact sound.pairedAt here chain key left right
    · simp only [CertVolume.move, read _ _ same] at left right
      refine sound.idle certId (fun v y there back => ?_) chain key left right
      by_cases mover : v = w
      · subst mover
        rw [here] at there
        cases there
        exact same back.symm
      · refine unused v y ?_ back
        rwa [s.writers_move_of_ne files next mover]

/-- A step that leaves the files alone. -/
theorem Sound.still {next : Option Writing} (sound : s.Sound) (here : s.writers w = some x)
    (mine : ∀ y, next = some y →
      y.certId = x.certId ∧ y.material = x.material ∧ y.Stage s.files) :
    (s.move w s.files next).Sound :=
  sound.move here (fun _ _ _ => rfl) (fun _ _ _ => rfl) mine fun _ _ => rfl

theorem Sound.call (sound : s.Sound) (here : s.writers w = some x)
    (moved : s.call w x = some t) : t.Sound := by
  have stage := sound.stage w x here
  -- names of other directories are neither the temporary name nor the final one
  have foreign : ∀ {certId : Id} {name : String} {file : String}, certId ≠ x.certId →
      ((certId, name) : VolumeName) ≠ (x.certId, file) :=
    fun other same => other (congrArg Prod.fst same)
  have none_of : ∀ {y : Writing}, (none : Option Writing) = some y → y.certId = x.certId ∧
      y.material = x.material ∧ y.Stage s.files := fun no => absurd no (by simp)
  unfold CertVolume.call at moved
  split at moved
  next pc =>
    cases moved
    refine sound.move here (fun _ _ other => s.files.inode_create_of_ne (foreign other))
      (fun _ _ other => s.files.read_create_of_ne (foreign other)) ?_
      fun no => absurd no (by simp)
    rintro y ⟨⟩
    exact ⟨rfl, rfl, stage.created pc⟩
  next inode done pc =>
    split at moved
    next whole =>
      cases moved
      refine sound.still here ?_
      rintro y ⟨⟩
      exact ⟨rfl, rfl, stage.closed pc whole⟩
    next => exact absurd moved (by simp)
  next pc =>
    split at moved
    next =>
      cases moved
      refine sound.still here ?_
      rintro y ⟨⟩
      exact ⟨rfl, rfl, stage.chmodded pc⟩
    next => exact absurd moved (by simp)
  next pc =>
    split at moved
    next =>
      cases moved
      refine sound.move here
        (fun _ _ other => s.files.inode_rename_of_ne (foreign other) (foreign other))
        (fun _ _ other => s.files.read_rename_of_ne (foreign other) (foreign other)) ?_
        fun no => absurd no (by simp)
      rintro y ⟨⟩
      exact ⟨rfl, rfl, stage.replaced pc⟩
    next => exact absurd moved (by simp)
  next ok pc =>
    split at moved
    next found =>
      cases moved
      refine sound.still here ?_
      rintro y ⟨⟩
      exact ⟨rfl, rfl, stage.leftover pc found⟩
    next =>
      cases moved
      refine sound.still here fun y next => ?_
      cases ok with
      | true => exact stage.after pc next
      | false => exact none_of next
  next ok pc =>
    cases moved
    have failed : ok = false := by
      have temp := stage.2
      simpa only [Writing.Temp, pc] using temp
    subst failed
    exact sound.move here (fun _ _ other => s.files.inode_unlink_of_ne (foreign other))
      (fun _ _ other => s.files.read_unlink_of_ne (foreign other))
      (fun y next => absurd next (by simp))
      fun _ file => s.files.read_unlink_of_ne (path_ne_tmp x.certId file x)

theorem Sound.write {n : Nat} (sound : s.Sound) (here : s.writers w = some x)
    (moved : s.write w x n = some t) : t.Sound := by
  have stage := sound.stage w x here
  unfold CertVolume.write at moved
  split at moved
  next inode done pc =>
    split at moved
    next within =>
      cases moved
      have own : s.files.inode x.tmp = some inode := by
        have temp := stage.2
        simp only [Writing.Temp, pc] at temp
        exact temp.1
      refine sound.move here (fun _ _ _ => rfl) (fun certId name other => ?_) ?_
        fun no => absurd no (by simp)
      · refine s.files.read_writeAt_of_ne fun named => other ?_
        exact congrArg Prod.fst (s.files.single _ _ _ named own)
      · rintro y ⟨⟩
        exact ⟨rfl, rfl, stage.written pc within⟩
    next => exact absurd moved (by simp)
  next => exact absurd moved (by simp)

/-- A writer begins where no key is and nobody writes. -/
theorem Sound.start {certId : Id} {material : Material} (sound : s.Sound)
    (free : s.writers w = none)
    (keyless : s.files.read (certId, MaterialFile.privkey.name) = none)
    (unused : ∀ v x, s.writers v = some x → x.certId ≠ certId) :
    ({ s.move w s.files (some { certId := certId, material := material }) with
      begun := (certId, material) :: s.begun } : CertVolume).Sound := by
  have old : ∀ {v y}, v ≠ w → (s.move w s.files (some { certId := certId, material := material })
      ).writers v = some y → s.writers v = some y := by
    intro v y other there
    rwa [s.writers_move_of_ne s.files _ other] at there
  -- nothing of the new writer has been written
  have own : ∀ {y}, (s.move w s.files (some { certId := certId, material := material })
      ).writers w = some y → y = { certId := certId, material := material } := by
    intro y there
    rw [writers_move_self] at there
    exact (Option.some.inj there).symm
  constructor
  case alone =>
    intro u v y z left right same
    by_cases first : u = w
    · by_cases second : v = w
      · exact first.trans second.symm
      · subst first
        rw [own left] at same
        exact absurd same.symm (unused v z (old second right))
    · by_cases second : v = w
      · subst second
        rw [own right] at same
        exact absurd same (unused u y (old first left))
      · exact sound.alone u v y z (old first left) (old second right) same
  case begun =>
    intro v y there
    by_cases same : v = w
    · subst same
      rw [own there]
      exact List.mem_cons_self ..
    · exact List.mem_cons_of_mem _ (sound.begun v y (old same there))
  case stage =>
    intro v y there
    by_cases same : v = w
    · subst same
      rw [own there]
      exact ⟨⟨keyless, fun now => absurd now (by simp)⟩, trivial⟩
    · exact sound.stage v y (old same there)
  case idle =>
    intro other unwritten chain key left right
    -- who writes here now wrote here before
    have unbegun : ∀ v x, s.writers v = some x → x.certId ≠ other := by
      intro v y there
      have distinct : v ≠ w := by
        rintro rfl
        rw [free] at there
        exact absurd there (by simp)
      refine unwritten v y ?_
      exact (s.writers_move_of_ne s.files _ distinct).trans there
    obtain ⟨found, member, pair⟩ := sound.idle other unbegun chain key left right
    exact ⟨found, List.mem_cons_of_mem _ member, pair⟩

/-- One step. -/
theorem Sound.step {e : VolumeEvent} (sound : s.Sound) (fresh : s.fresh e)
    (moved : s.next e = some t) : t.Sound := by
  cases e with
  | start writer certId material =>
    simp only [CertVolume.next] at moved
    split at moved
    next free =>
      cases moved
      exact sound.start free fresh.1 fresh.2
    next => exact absurd moved (by simp)
  | call writer =>
    obtain ⟨x, here, went⟩ := Option.bind_eq_some_iff.mp moved
    exact sound.call here went
  | write writer n =>
    obtain ⟨x, here, went⟩ := Option.bind_eq_some_iff.mp moved
    exact sound.write here went
  | raises writer =>
    obtain ⟨x, here, rfl⟩ := Option.map_eq_some_iff.mp moved
    refine sound.still here fun y next => ?_
    obtain ⟨rfl, stage⟩ := (sound.stage writer x here).raised next
    exact ⟨rfl, rfl, stage⟩
  | dies writer =>
    obtain ⟨x, here, rfl⟩ := Option.map_eq_some_iff.mp moved
    exact sound.still here fun y next => absurd next (by simp)

end Moves

end CertVolume

/-! ### Runs -/

def VolumeStep (s : CertVolume) (e : VolumeEvent) (t : CertVolume) : Prop :=
  s.next e = some t

theorem volume_initial : CertVolume.Sound {} where
  alone := fun _ _ _ _ there => absurd there (by simp)
  begun := fun _ _ there => absurd there (by simp)
  stage := fun _ _ there => absurd there (by simp)
  idle := fun _ _ _ _ there => absurd there (by simp [Files.read, Files.empty])

/-- A chain and a key that are both there come from one issuance, over every run in which each
write is the certificate's first and the only one under way. -/
theorem pair_matches {s : CertVolume} (run : Reaches (Guarded CertVolume.fresh VolumeStep) {} s) :
    s.Paired := by
  have sound : s.Sound :=
    run.invariant (P := CertVolume.Sound) (fun _ _ _ sound moved => sound.step moved.1 moved.2)
      volume_initial
  exact sound.paired

def firstMaterial : Material where
  fullchain := [1]
  privkey := [11]

def secondMaterial : Material where
  fullchain := [2]
  privkey := [12]

/-- One `_atomic_write` of a single byte. -/
def writeByte (writer : Nat) : List VolumeEvent :=
  [.call writer, .write writer 1, .call writer, .call writer, .call writer, .call writer]

def firstIssuance : List VolumeEvent :=
  .start 0 7 firstMaterial :: writeByte 0 ++ writeByte 0

private theorem firstIssuance_fresh :
    Fits CertVolume.fresh CertVolume.next firstIssuance {} := by
  have unused : ∀ writer x, ({} : CertVolume).writers writer = some x → x.certId ≠ 7 :=
    fun _ _ there => absurd there (by simp)
  refine And.intro ⟨rfl, unused⟩ ?_
  repeat' apply And.intro trivial
  trivial

theorem pair_matches_first :
    ∃ s, play CertVolume.next firstIssuance {} = some s ∧ s.writers 0 = none ∧
      s.files.read (7, "fullchain.pem") = some [1] ∧ s.files.read (7, "privkey.pem") = some [11] ∧
      s.Paired :=
  ⟨_, rfl, rfl, rfl, rfl, pair_matches (Reaches.of_fits firstIssuance_fresh rfl)⟩

/-- A renewal dies after it has put the new chain into place. -/
def cutRenewal : List VolumeEvent :=
  firstIssuance ++ .start 1 7 secondMaterial :: writeByte 1 ++ [.dies 1]

/-- Two issuances of one certificate take turns, and both return. -/
def twoIssuances : List VolumeEvent :=
  [.start 0 7 firstMaterial, .start 1 7 secondMaterial] ++ writeByte 0 ++ writeByte 1 ++
    writeByte 1 ++ writeByte 0

private theorem not_paired_mixed {s : CertVolume}
    (begun : ∀ entry ∈ s.begun, entry = (7, firstMaterial) ∨ entry = (7, secondMaterial))
    (left : s.files.read (7, "fullchain.pem") = some [2])
    (right : s.files.read (7, "privkey.pem") = some [11]) : ¬ s.Paired := by
  intro paired
  obtain ⟨material, member, chain, key⟩ := paired 7 [2] [11] left right
  rcases begun _ member with first | second
  · cases first
    exact absurd chain (by decide)
  · cases second
    exact absurd key (by decide)

/-- The new chain stands beside the old key. -/
theorem pair_mixed : ∃ s t,
    play CertVolume.next cutRenewal {} = some s ∧ s.writers 0 = none ∧ s.writers 1 = none ∧
      s.files.read (7, "fullchain.pem") = some [2] ∧ s.files.read (7, "privkey.pem") = some [11] ∧
      ¬ s.Paired ∧
    play CertVolume.next twoIssuances {} = some t ∧ t.writers 0 = none ∧ t.writers 1 = none ∧
      t.files.read (7, "fullchain.pem") = some [2] ∧ t.files.read (7, "privkey.pem") = some [11] ∧
      ¬ t.Paired := by
  refine ⟨_, _, rfl, rfl, rfl, rfl, rfl, not_paired_mixed ?_ rfl rfl,
    rfl, rfl, rfl, rfl, rfl, not_paired_mixed ?_ rfl rfl⟩
  · intro entry member
    exact (List.mem_pair.mp member).symm
  · intro entry member
    exact (List.mem_pair.mp member).symm

end MegooPM
