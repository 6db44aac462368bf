import MegooPM.Nginx.Settled
import Mathlib.Logic.Function.Basic

/-!
# The cluster

Any number of nodes share the config directories and the `config_version` row; each
runs its own nginx and keeps a local marker. `_apply_ha` and `reconcile_local_nginx`
(`tasks/nginx.py`) run as tasks, any number of them on any node, one action at a time.

An apply loads its state, waits for the advisory lock, runs `apply_config` under it,
commits the version together with the lock, and only then writes the marker. A
reconcile takes no lock.
-/
namespace MegooPM

open Lib

/-! ### Versions and markers -/

/-- The shared version; a missing row reads as `0`. -/
def readConfigVersion (row : Option Nat) : Nat :=
  row.getD 0

/-- The version after a bump; a missing row is inserted with `1`. -/
def bumpConfigVersion (row : Option Nat) : Nat :=
  match row with
  | none => 1
  | some current => current + 1

theorem bumpConfigVersion_eq (row : Option Nat) :
    bumpConfigVersion row = readConfigVersion row + 1 := by
  cases row <;> rfl

def unknownLocalVersion : Int := -1

/-- What a node's marker says; a node without one has never reconciled. -/
def readLocalVersion (marker : Option Nat) : Int :=
  match marker with
  | none => unknownLocalVersion
  | some version => version

/-! ### Tasks -/

/-- Where a run of `_apply_ha` stands. -/
inductive ApplyPoint where
  /-- the state is loaded, the lock not yet held -/
  | waiting
  /-- inside `apply_config`; `reloaded` when a reload of this call succeeded -/
  | inside (phase : Phase) (reloaded : Bool)
  /-- the lock is released, the marker not yet written -/
  | committed (version : Nat)

/-- Where a run of `reconcile_local_nginx` stands. -/
inductive ReconcilePoint where
  | starting
  | read (version : Nat)
  | testing (version : Nat)
  | reloading (version : Nat)
  | reloaded (version : Nat)

inductive Task (cfg : Deployment) (ν : Type) where
  | idle
  | apply (node : ν) (c : Call cfg) (point : ApplyPoint)
  | reconcile (node : ν) (point : ReconcilePoint)

/-- One node's nginx and its marker file. -/
structure Node where
  loaded : DirName → Files
  marker : Option Nat

structure Cluster (cfg : Deployment) (ν τ : Type) where
  disk : Disk
  configVersion : Option Nat
  lock : Option τ
  node : ν → Node
  task : τ → Task cfg ν

inductive ClusterEvent (cfg : Deployment) (ν τ : Type) where
  | startApply (t : τ) (n : ν) (c : Call cfg)
  | startReconcile (t : τ) (n : ν)
  /-- the next action of a task; `answer` is what the node's controller says if it is asked -/
  | act (t : τ) (answer : CommandResult)

/-- The task an event belongs to. -/
def ClusterEvent.task {cfg : Deployment} {ν τ : Type} : ClusterEvent cfg ν τ → τ
  | .startApply t _ _ | .startReconcile t _ | .act t _ => t

/-- The arguments `_apply_ha` passes: all directories, and no lock of its own. -/
def haOptions (p : ManagedPrefix) : ApplyOptions :=
  { managedPrefix := p.text, ownLock := false }

namespace Cluster

variable {cfg : Deployment} {ν τ : Type} [DecidableEq ν] [DecidableEq τ]

def setTask (s : Cluster cfg ν τ) (t : τ) (x : Task cfg ν) : Cluster cfg ν τ :=
  { s with task := Function.update s.task t x }

def setLoaded (s : Cluster cfg ν τ) (n : ν) (files : DirName → Files) : Cluster cfg ν τ :=
  { s with node := Function.update s.node n { s.node n with loaded := files } }

/-- `write_local_version`. -/
def setMarker (s : Cluster cfg ν τ) (n : ν) (version : Nat) : Cluster cfg ν τ :=
  { s with node := Function.update s.node n { s.node n with marker := some version } }

/-- The committed version. -/
def version (s : Cluster cfg ν τ) : Nat :=
  readConfigVersion s.configVersion

/-- What an action of `apply_config` leads to on a node. -/
def work (p : ManagedPrefix) (s : Cluster cfg ν τ) (n : ν) (c : Call cfg) (phase : Phase)
    (answer : CommandResult) : Running :=
  Running.after (c.job p) answer ⟨phase, s.disk, (s.node n).loaded⟩

/-- Whether that action reloads the node's nginx. -/
def workLoads (p : ManagedPrefix) (s : Cluster cfg ν τ) (c : Call cfg) (phase : Phase)
    (answer : CommandResult) : Bool :=
  (phase.next (c.job p) answer s.disk).loads

/-- The actions of the tasks. -/
inductive Step (p : ManagedPrefix) :
    Cluster cfg ν τ → ClusterEvent cfg ν τ → Cluster cfg ν τ → Prop
  | startApply {s t n c} (free : s.task t = .idle) (options : c.options = haOptions p) :
    Step p s (.startApply t n c) (s.setTask t (.apply n c .waiting))
  | enter {s t n c answer} (here : s.task t = .apply n c .waiting) (free : s.lock = none) :
    Step p s (.act t answer)
      ({ s with lock := some t }.setTask t (.apply n c (.inside .entered false)))
  | work {s t n c phase reloaded answer} (here : s.task t = .apply n c (.inside phase reloaded))
      (running : phase.isDone = false) :
    Step p s (.act t answer)
      (({ s with disk := (s.work p n c phase answer).disk }.setLoaded n
          (s.work p n c phase answer).loaded).setTask t
        (.apply n c (.inside (s.work p n c phase answer).phase
          (reloaded || s.workLoads p c phase answer))))
  | commitChanged {s t n c result reloaded answer}
      (here : s.task t = .apply n c (.inside (.done result) reloaded))
      (changed : result.changed = true) :
    Step p s (.act t answer)
      ({ s with configVersion := some (bumpConfigVersion s.configVersion), lock := none }.setTask t
        (.apply n c (.committed (bumpConfigVersion s.configVersion))))
  | commitUnchanged {s t n c result reloaded answer}
      (here : s.task t = .apply n c (.inside (.done result) reloaded))
      (unchanged : result.changed = false) :
    Step p s (.act t answer)
      ({ s with lock := none }.setTask t (.apply n c (.committed s.version)))
  | mark {s t n c version answer} (here : s.task t = .apply n c (.committed version)) :
    Step p s (.act t answer) ((s.setMarker n version).setTask t .idle)
  | startReconcile {s t n} (free : s.task t = .idle) :
    Step p s (.startReconcile t n) (s.setTask t (.reconcile n .starting))
  | readVersion {s t n answer} (here : s.task t = .reconcile n .starting) :
    Step p s (.act t answer) (s.setTask t (.reconcile n (.read s.version)))
  | current {s t n answer} {version : Nat} (here : s.task t = .reconcile n (.read version))
      (reached : (version : Int) ≤ readLocalVersion (s.node n).marker) :
    Step p s (.act t answer) (s.setTask t .idle)
  | newer {s t n answer} {version : Nat} (here : s.task t = .reconcile n (.read version))
      (behind : readLocalVersion (s.node n).marker < version) :
    Step p s (.act t answer) (s.setTask t (.reconcile n (.testing version)))
  | testFailed {s t n version answer} (here : s.task t = .reconcile n (.testing version))
      (failed : answer.ok = false) :
    Step p s (.act t answer) (s.setTask t .idle)
  | testOk {s t n version answer} (here : s.task t = .reconcile n (.testing version))
      (ok : answer.ok = true) :
    Step p s (.act t answer) (s.setTask t (.reconcile n (.reloading version)))
  | reloadFailed {s t n version answer} (here : s.task t = .reconcile n (.reloading version))
      (failed : answer.ok = false) :
    Step p s (.act t answer) (s.setTask t .idle)
  | reloadOk {s t n version answer} (here : s.task t = .reconcile n (.reloading version))
      (ok : answer.ok = true) :
    Step p s (.act t answer)
      ((s.setLoaded n (managedSet p s.disk)).setTask t (.reconcile n (.reloaded version)))
  | record {s t n version answer} (here : s.task t = .reconcile n (.reloaded version)) :
    Step p s (.act t answer) ((s.setMarker n version).setTask t .idle)

/-- The node whose nginx an action reloads. -/
def loadsOn (p : ManagedPrefix) (s : Cluster cfg ν τ) : ClusterEvent cfg ν τ → Option ν
  | .act t answer =>
    match s.task t with
    | .apply n c (.inside phase _) =>
      if !phase.isDone && s.workLoads p c phase answer then some n else none
    | .reconcile n (.reloading _) => if answer.ok then some n else none
    | _ => none
  | _ => none

/-- Every node's nginx runs the shared files, no node has a marker, no task runs. -/
def start (p : ManagedPrefix) (disk : Disk) (row : Option Nat) : Cluster cfg ν τ where
  disk := disk
  configVersion := row
  lock := none
  node := fun _ => { loaded := managedSet p disk, marker := none }
  task := fun _ => .idle

/-! ### Field lemmas -/

section Fields

variable (s : Cluster cfg ν τ) (t : τ) (n : ν)

omit [DecidableEq ν] in
theorem task_setTask (x : Task cfg ν) (u : τ) :
    (s.setTask t x).task u = if u = t then x else s.task u := by
  simp only [setTask, Function.update_apply]

omit [DecidableEq ν] in
@[simp] theorem disk_setTask (x : Task cfg ν) : (s.setTask t x).disk = s.disk := rfl

omit [DecidableEq ν] in
@[simp] theorem lock_setTask (x : Task cfg ν) : (s.setTask t x).lock = s.lock := rfl

omit [DecidableEq ν] in
@[simp] theorem node_setTask (x : Task cfg ν) : (s.setTask t x).node = s.node := rfl

omit [DecidableEq ν] in
@[simp] theorem version_setTask (x : Task cfg ν) : (s.setTask t x).version = s.version := rfl

omit [DecidableEq τ] in
@[simp] theorem task_setLoaded (files : DirName → Files) :
    (s.setLoaded n files).task = s.task := rfl

omit [DecidableEq τ] in
@[simp] theorem disk_setLoaded (files : DirName → Files) :
    (s.setLoaded n files).disk = s.disk := rfl

omit [DecidableEq τ] in
@[simp] theorem lock_setLoaded (files : DirName → Files) :
    (s.setLoaded n files).lock = s.lock := rfl

omit [DecidableEq τ] in
@[simp] theorem version_setLoaded (files : DirName → Files) :
    (s.setLoaded n files).version = s.version := rfl

omit [DecidableEq τ] in
@[simp] theorem marker_setLoaded (files : DirName → Files) (m : ν) :
    ((s.setLoaded n files).node m).marker = (s.node m).marker := by
  simp only [setLoaded, Function.update_apply]
  split
  next here => rw [here]
  next => rfl

omit [DecidableEq τ] in
@[simp] theorem task_setMarker (v : Nat) : (s.setMarker n v).task = s.task := rfl

omit [DecidableEq τ] in
@[simp] theorem disk_setMarker (v : Nat) : (s.setMarker n v).disk = s.disk := rfl

omit [DecidableEq τ] in
@[simp] theorem lock_setMarker (v : Nat) : (s.setMarker n v).lock = s.lock := rfl

omit [DecidableEq τ] in
@[simp] theorem version_setMarker (v : Nat) : (s.setMarker n v).version = s.version := rfl

omit [DecidableEq τ] in
theorem marker_setMarker (v : Nat) (m : ν) :
    ((s.setMarker n v).node m).marker = if m = n then some v else (s.node m).marker := by
  simp only [setMarker, Function.update_apply]
  split <;> rfl

omit [DecidableEq τ] in
@[simp] theorem loaded_setMarker (v : Nat) (m : ν) :
    ((s.setMarker n v).node m).loaded = (s.node m).loaded := by
  simp only [setMarker, Function.update_apply]
  split
  next here => rw [here]
  next => rfl

end Fields

/-! ### One action -/

section Actions

variable {p : ManagedPrefix} {s s' : Cluster cfg ν τ} {e : ClusterEvent cfg ν τ}

/-- The other tasks stay where they are. -/
theorem Step.task_other (moved : s.Step p e s') {u : τ} (other : u ≠ e.task) :
    s'.task u = s.task u := by
  cases moved <;> exact Function.update_of_ne other _ _

/-- The version only grows, and only when a task publishes. -/
theorem Step.version_eq (moved : s.Step p e s') :
    s'.version = s.version ∨
    s'.version = s.version + 1 ∧ ∃ t answer n c result reloaded, e = .act t answer ∧
      s.task t = .apply n c (.inside (.done result) reloaded) ∧ result.changed = true := by
  cases moved with
  | commitChanged here changed =>
    exact Or.inr ⟨bumpConfigVersion_eq _, _, _, _, _, _, _, rfl, here, changed⟩
  | _ => exact Or.inl rfl

theorem Step.version_le (moved : s.Step p e s') : s.version ≤ s'.version := by
  rcases moved.version_eq with same | ⟨more, _⟩ <;> omega

/-- A marker is written by an apply that has committed or a reconcile that has reloaded. -/
theorem Step.marker_cases (moved : s.Step p e s') (n : ν) :
    (s'.node n).marker = (s.node n).marker ∨
    ∃ v, (s'.node n).marker = some v ∧
      ((∃ c, s.task e.task = .apply n c (.committed v)) ∨
        s.task e.task = .reconcile n (.reloaded v)) := by
  cases moved with
  | work here running =>
    left
    simp only [node_setTask, marker_setLoaded]
  | reloadOk here ok =>
    left
    simp only [node_setTask, marker_setLoaded]
  | mark here =>
    simp only [node_setTask, marker_setMarker]
    split
    next same =>
      subst same
      exact Or.inr ⟨_, rfl, Or.inl ⟨_, here⟩⟩
    next => exact Or.inl rfl
  | record here =>
    simp only [node_setTask, marker_setMarker]
    split
    next same =>
      subst same
      exact Or.inr ⟨_, rfl, Or.inr here⟩
    next => exact Or.inl rfl
  | _ => exact Or.inl rfl

/-- Only a task inside `apply_config` touches the shared files. -/
theorem Step.disk_cases (moved : s.Step p e s') :
    s'.disk = s.disk ∨ ∃ n c phase reloaded,
      s.task e.task = .apply n c (.inside phase reloaded) ∧ phase.isDone = false := by
  cases moved with
  | work here running => exact Or.inr ⟨_, _, _, _, here, running⟩
  | _ => exact Or.inl rfl

/-- The lock changes hands only between none and the acting task. -/
theorem Step.lock_cases (moved : s.Step p e s') :
    s'.lock = s.lock ∨ (s.lock = none ∧ s'.lock = some e.task) ∨
    (s'.lock = none ∧ ∃ n c result reloaded,
      s.task e.task = .apply n c (.inside (.done result) reloaded)) := by
  cases moved with
  | enter here free => exact Or.inr (Or.inl ⟨free, rfl⟩)
  | commitChanged here changed => exact Or.inr (Or.inr ⟨rfl, _, _, _, _, here⟩)
  | commitUnchanged here unchanged => exact Or.inr (Or.inr ⟨rfl, _, _, _, _, here⟩)
  | _ => exact Or.inl rfl

/-- A task outside `apply_config` leaves the files, the version and a lock that is held. -/
theorem Step.outside (moved : s.Step p e s')
    (outside : ∀ n c phase reloaded, s.task e.task ≠ .apply n c (.inside phase reloaded)) :
    s'.disk = s.disk ∧ s'.version = s.version ∧ ∀ t, s.lock = some t → s'.lock = some t := by
  refine ⟨?_, ?_, fun t held => ?_⟩
  · rcases moved.disk_cases with same | ⟨n, c, phase, reloaded, here, _⟩
    · exact same
    · exact absurd here (outside n c phase reloaded)
  · rcases moved.version_eq with same | ⟨_, t, answer, n, c, result, reloaded, rfl, here, _⟩
    · exact same
    · exact absurd here (outside n c _ reloaded)
  · rcases moved.lock_cases with same | ⟨free, _⟩ | ⟨_, n, c, result, reloaded, here⟩
    · rw [same, held]
    · cases free.symm.trans held
    · exact absurd here (outside n c _ reloaded)

/-- What a node's nginx runs changes by a reload of an apply or of a reconcile there. -/
theorem Step.loaded_cases (moved : s.Step p e s') (n : ν) :
    (s'.node n).loaded = (s.node n).loaded ∨
    (s'.node n).loaded = managedSet p s'.disk ∧
      ((∃ c phase phase' reloaded, s.task e.task = .apply n c (.inside phase reloaded) ∧
          s'.task e.task = .apply n c (.inside phase' true)) ∨
        ∃ v answer, e = .act e.task answer ∧ s.task e.task = .reconcile n (.reloading v) ∧
          answer.ok = true ∧ s'.lock = s.lock) := by
  cases moved with
  | @work t m c phase reloaded answer here running =>
    by_cases same : n = m
    · subst same
      have now : ((s.setLoaded n (s.work p n c phase answer).loaded).node n).loaded =
          (s.work p n c phase answer).loaded := by
        simp only [setLoaded, Function.update_self]
      cases loads : (phase.next (c.job p) answer s.disk).loads with
      | true =>
        refine Or.inr ⟨now.trans ?_,
          Or.inl ⟨c, phase, (s.work p n c phase answer).phase, reloaded, here, ?_⟩⟩
        · simp only [Cluster.work, Running.after, loads, if_true]
          rfl
        · have ended : (reloaded || s.workLoads p c phase answer) = true := by
            simp only [workLoads, loads, Bool.or_true]
          simp only [task_setTask, ClusterEvent.task, if_true, ended]
      | false =>
        refine Or.inl (now.trans ?_)
        simp only [Cluster.work, Running.after, loads, if_false, Bool.false_eq_true]
    · left
      show ((s.setLoaded m _).node n).loaded = _
      simp only [setLoaded, Function.update_of_ne same]
  | @reloadOk t m version answer here ok =>
    by_cases same : n = m
    · subst same
      refine Or.inr ⟨?_, Or.inr ⟨version, answer, rfl, here, ok, rfl⟩⟩
      show ((s.setLoaded n _).node n).loaded = _
      simp only [setLoaded, Function.update_self]
      rfl
    · left
      show ((s.setLoaded m _).node n).loaded = _
      simp only [setLoaded, Function.update_of_ne same]
  -- a marker is written, and what is loaded stays
  | mark here =>
    left
    simp only [node_setTask, loaded_setMarker]
  | record here =>
    left
    simp only [node_setTask, loaded_setMarker]
  | _ => exact Or.inl rfl

/-- A call that has returned commits, with a new version if it changed something. -/
theorem Step.done_cases (moved : s.Step p e s') {n : ν} {c : Call cfg} {result : ApplyResult}
    {reloaded : Bool} (here : s.task e.task = .apply n c (.inside (.done result) reloaded)) :
    s'.lock = none ∧ s'.disk = s.disk ∧ s'.node = s.node ∧
      (result.changed = true → s'.version = s.version + 1) := by
  cases moved with
  | commitChanged inside changed => exact ⟨rfl, rfl, rfl, fun _ => bumpConfigVersion_eq _⟩
  | commitUnchanged inside unchanged =>
    cases inside.symm.trans here
    exact ⟨rfl, rfl, rfl, fun changed => by rw [unchanged] at changed; cases changed⟩
  | work inside running =>
    cases inside.symm.trans here
    cases running
  | startApply free _ => cases free.symm.trans here
  | startReconcile free => cases free.symm.trans here
  | enter other _ => cases other.symm.trans here
  | mark other => cases other.symm.trans here
  | readVersion other => cases other.symm.trans here
  | current other _ => cases other.symm.trans here
  | newer other _ => cases other.symm.trans here
  | testFailed other _ => cases other.symm.trans here
  | testOk other _ => cases other.symm.trans here
  | reloadFailed other _ => cases other.symm.trans here
  | reloadOk other _ => cases other.symm.trans here
  | record other => cases other.symm.trans here

/-- A task inside `apply_config` stays there until it releases the lock. -/
theorem Step.inside_cases (moved : s.Step p e s') {n : ν} {c : Call cfg} {phase : Phase}
    {reloaded : Bool} (here : s.task e.task = .apply n c (.inside phase reloaded)) :
    s'.lock = none ∨ ∃ phase' reloaded', s'.task e.task = .apply n c (.inside phase' reloaded') := by
  cases moved with
  | work inside running =>
    have same := inside.symm.trans here
    cases same
    exact Or.inr ⟨_, _, Function.update_self ..⟩
  | commitChanged inside changed => exact Or.inl rfl
  | commitUnchanged inside unchanged => exact Or.inl rfl
  | startApply free _ => cases free.symm.trans here
  | startReconcile free => cases free.symm.trans here
  | enter other _ => cases other.symm.trans here
  | mark other => cases other.symm.trans here
  | readVersion other => cases other.symm.trans here
  | current other _ => cases other.symm.trans here
  | newer other _ => cases other.symm.trans here
  | testFailed other _ => cases other.symm.trans here
  | testOk other _ => cases other.symm.trans here
  | reloadFailed other _ => cases other.symm.trans here
  | reloadOk other _ => cases other.symm.trans here
  | record other => cases other.symm.trans here

/-- A task that takes the lock enters `apply_config`. -/
theorem Step.entered_of_lock (moved : s.Step p e s') (free : s.lock = none)
    (taken : s'.lock = some e.task) :
    ∃ n c, s'.task e.task = .apply n c (.inside .entered false) := by
  cases moved with
  | enter here _ => exact ⟨_, _, Function.update_self ..⟩
  | commitChanged here changed => cases taken
  | commitUnchanged here unchanged => cases taken
  | _ => cases free.symm.trans taken

/-- The lock is only ever held by a task inside `apply_config`. -/
theorem Step.holder (moved : s.Step p e s')
    (holder : ∀ t, s.lock = some t →
      ∃ n c phase reloaded, s.task t = .apply n c (.inside phase reloaded))
    (t : τ) (held : s'.lock = some t) :
    ∃ n c phase reloaded, s'.task t = .apply n c (.inside phase reloaded) := by
  rcases moved.lock_cases with same | ⟨free, taken⟩ | ⟨free, _⟩
  · obtain ⟨n, c, phase, reloaded, here⟩ := holder t (same.symm.trans held)
    by_cases acting : t = e.task
    · subst acting
      rcases moved.inside_cases here with free | ⟨phase', reloaded', there⟩
      · cases free.symm.trans held
      · exact ⟨n, c, phase', reloaded', there⟩
    · exact ⟨n, c, phase, reloaded, (moved.task_other acting).trans here⟩
  · cases taken.symm.trans held
    obtain ⟨n, c, there⟩ := moved.entered_of_lock free taken
    exact ⟨n, c, _, _, there⟩
  · cases free.symm.trans held

end Actions

end Cluster

end MegooPM
