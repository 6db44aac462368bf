import MegooPM.Cluster.Loads
import MegooPM.Cluster.Markers
import MegooPM.Tasks.WritePath

/-!
# Restores

`_restore` (`tasks/backup.py`) replaces the database by an archive's, and with it the
`config_version` row, and queues an apply like any other. It runs under no lock of the
cluster and leaves every marker where it is.

A node whose marker has reached the shared version takes itself to be current. That is
right as long as a version is published only once: a restore that brings back a lower one
lets an apply publish a version that a marker has reached already, and that node will not
load the files it stands for.
-/
namespace MegooPM

open Lib

/-- What a restore brings back: the database, and with it the row. -/
structure Archive where
  db : Database
  row : Option Nat

/-- What happens in a cluster whose database is written and can be replaced. -/
inductive RestoreEvent (cfg : Deployment) (ν τ : Type) where
  /-- a commit of the API -/
  | write (db : Database)
  | restore (archive : Archive)
  /-- a `reload_nginx_config` is queued: by a commit, by a restore, by a worker that starts -/
  | enqueue
  /-- a worker takes one and begins to load the desired state -/
  | load (t : τ)
  /-- the load raises -/
  | giveUp (t : τ)
  | action (e : ClusterEvent cfg ν τ)

/-- A cluster with its database. -/
structure Restorable (cfg : Deployment) (ν τ : Type) where
  base : Cluster cfg ν τ
  db : Database
  /-- commits and restores so far -/
  writes : Nat
  queued : Nat
  /-- the `writes` when the load of a task began, until it has loaded -/
  loading : τ → Option Nat
  /-- the `writes` when the load of a task began, once it has loaded -/
  since : τ → Nat
  /-- the `since` of the last task that took the apply lock -/
  entered : Option Nat
  /-- the managed files as the last holder of the apply lock left them -/
  shared : DirName → Files
  /-- since the last write an apply has begun to load, and has ended without a rollback -/
  reapplied : Bool
  /-- since a version was published or brought back a reconcile has ended at it on the node -/
  reconciled : ν → Bool

namespace Cluster

variable {cfg : Deployment} {ν τ : Type}

/-- Version `v` stands in the marker of node `n`, or a task is about to write it there. -/
def Claims (s : Cluster cfg ν τ) (n : ν) (v : Nat) : Prop :=
  (s.node n).marker = some v ∨
  ∃ t, (∃ c, s.task t = .apply n c (.committed v)) ∨ s.task t = .reconcile n (.reloaded v)

/-- The action takes the apply lock, if it can. -/
def takesLock (s : Cluster cfg ν τ) : ClusterEvent cfg ν τ → Bool
  | .act t _ =>
    match s.task t with
    | .apply _ _ .waiting => true
    | _ => false
  | _ => false

/-- What the call returned that the action commits. -/
def commits (s : Cluster cfg ν τ) : ClusterEvent cfg ν τ → Option ApplyResult
  | .act t _ =>
    match s.task t with
    | .apply _ _ (.inside (.done result) _) => some result
    | _ => none
  | _ => none

/-- The node on which the action ends a reconcile at the shared version: the node has reloaded
for it, or its marker was there already. -/
def reconciles (s : Cluster cfg ν τ) : ClusterEvent cfg ν τ → Option ν
  | .act t _ =>
    match s.task t with
    | .reconcile n (.reloaded v) => if s.version ≤ v then some n else none
    | .reconcile n (.read v) =>
      if s.version ≤ v ∧ (v : Int) ≤ readLocalVersion (s.node n).marker then some n else none
    | _ => none
  | _ => none

/-- What an action commits, the call of its task has returned. -/
theorem commits_eq {s : Cluster cfg ν τ} {e : ClusterEvent cfg ν τ} {result : ApplyResult}
    (commits : s.commits e = some result) :
    ∃ t answer n c reloaded, e = .act t answer ∧
      s.task t = .apply n c (.inside (.done result) reloaded) := by
  cases e with
  | startApply t n c => cases commits
  | startReconcile t n => cases commits
  | act t answer =>
    simp only [Cluster.commits] at commits
    split at commits
    next n c result' reloaded here =>
      cases commits
      exact ⟨t, answer, n, c, reloaded, rfl, here⟩
    next => cases commits

section Step

variable [DecidableEq ν] [DecidableEq τ] {p : ManagedPrefix} {s s' : Cluster cfg ν τ}
  {e : ClusterEvent cfg ν τ}

/-- A claim is made by a commit or by the reload of a reconcile. -/
theorem Step.claims_cases (moved : s.Step p e s') {n : ν} {v : Nat} (claims : s'.Claims n v) :
    s.Claims n v ∨
    (v = s'.version ∧ s'.lock = none ∧ ∃ c result reloaded answer, e = .act e.task answer ∧
      s.task e.task = .apply n c (.inside (.done result) reloaded)) ∨
    ∃ answer, e = .act e.task answer ∧ s.task e.task = .reconcile n (.reloading v) ∧
      answer.ok = true ∧ (s'.node n).loaded = managedSet p s'.disk := by
  rcases claims with marked | ⟨t, pending⟩
  · left
    -- a marker is written with a version that was about to be marked
    rcases moved.marker_cases n with same | ⟨w, written, source⟩
    · exact Or.inl (same.symm.trans marked)
    · cases written.symm.trans marked
      exact Or.inr ⟨e.task, source⟩
  · by_cases acting : t = e.task
    · subst acting
      rcases pending with ⟨c, here⟩ | here
      · -- only a commit leads to `committed`
        cases moved with
        | @commitChanged t m c' result reloaded answer before changed =>
          simp only [task_setTask, ClusterEvent.task, if_true] at here
          cases here
          exact Or.inr (Or.inl ⟨rfl, rfl, c, result, reloaded, answer, rfl, before⟩)
        | @commitUnchanged t m c' result reloaded answer before unchanged =>
          simp only [task_setTask, ClusterEvent.task, if_true] at here
          cases here
          exact Or.inr (Or.inl ⟨rfl, rfl, c, result, reloaded, answer, rfl, before⟩)
        | _ =>
          simp only [task_setTask, ClusterEvent.task, if_true] at here
          cases here
      · -- only a reload leads to `reloaded`
        cases moved with
        | @reloadOk t m version answer before ok =>
          simp only [task_setTask, ClusterEvent.task, if_true] at here
          cases here
          refine Or.inr (Or.inr ⟨answer, rfl, before, ok, ?_⟩)
          show ((s.setLoaded n _).node n).loaded = _
          simp only [setLoaded, Function.update_self]
          rfl
        | _ =>
          simp only [task_setTask, ClusterEvent.task, if_true] at here
          cases here
    -- the other tasks stand where they stood
    · rw [moved.task_other acting] at pending
      exact Or.inl (Or.inr ⟨t, pending⟩)

/-- A reconcile that ends at the shared version leaves a claim that has reached it. -/
theorem Step.reconciles_claims (moved : s.Step p e s') {n : ν} (ends : s.reconciles e = some n) :
    s'.version = s.version ∧ ∃ v, s'.version ≤ v ∧ s'.Claims n v := by
  cases e with
  | startApply t m c => cases ends
  | startReconcile t m => cases ends
  | act t answer =>
    simp only [reconciles] at ends
    split at ends
    -- the node has reloaded, and its task records the version
    next m v here =>
      split at ends
      next reached =>
        obtain rfl := Option.some.inj ends
        cases moved with
        | record there =>
          cases here.symm.trans there
          refine ⟨rfl, v, reached, Or.inl ?_⟩
          show ((s.setMarker m v).node m).marker = some v
          rw [marker_setMarker, if_pos rfl]
        | _ => simp_all
      next => cases ends
    -- the marker was there already, and the task ends
    next m v here =>
      split at ends
      next reached =>
        obtain rfl := Option.some.inj ends
        cases moved with
        | current there _ =>
          refine ⟨rfl, ?_⟩
          cases marked : (s.node m).marker with
          | none =>
            rw [marked] at reached
            simp only [readLocalVersion, unknownLocalVersion] at reached
            omega
          | some w =>
            rw [marked] at reached
            simp only [readLocalVersion] at reached
            refine ⟨w, ?_, Or.inl marked⟩
            show s.version ≤ w
            omega
        | newer there behind =>
          cases here.symm.trans there
          omega
        | _ => simp_all
      next => cases ends
    next => cases ends

end Step

end Cluster

namespace Restorable

variable {cfg : Deployment} {ν τ : Type}

/-- Nothing written yet, nothing queued, no task running. -/
def start (p : ManagedPrefix) (db : Database) (disk : Disk) (row : Option Nat) :
    Restorable cfg ν τ where
  base := Cluster.start p disk row
  db := db
  writes := 0
  queued := 0
  loading := fun _ => none
  since := fun _ => 0
  entered := none
  shared := managedSet p disk
  reapplied := false
  reconciled := fun _ => false

/-- The state after a restore. -/
def restored (s : Restorable cfg ν τ) (archive : Archive) : Restorable cfg ν τ :=
  { s with
    base := { s.base with configVersion := archive.row }
    db := archive.db
    writes := s.writes + 1
    reapplied := false
    reconciled := fun _ => false }

/-- What a task needs to begin: an apply has loaded, and saw the whole database if nothing
was written while it did; a reconcile has not. -/
def Admits (s : Restorable cfg ν τ) : ClusterEvent cfg ν τ → Prop
  | .startApply t _ c => ∃ since, s.loading t = some since ∧
      (since = s.writes → loadDesiredState cfg s.db = .ok c.state)
  | .startReconcile t _ => s.loading t = none
  | .act _ _ => True

section Next

variable [DecidableEq ν] [DecidableEq τ]

/-- The state after an action that leads to `base`. -/
def next (p : ManagedPrefix) (s : Restorable cfg ν τ) (e : ClusterEvent cfg ν τ)
    (base : Cluster cfg ν τ) : Restorable cfg ν τ :=
  { s with
    base := base
    loading := match e with
      | .startApply t _ _ => Function.update s.loading t none
      | _ => s.loading
    since := match e with
      | .startApply t _ _ => Function.update s.since t ((s.loading t).getD 0)
      | _ => s.since
    entered := if s.base.takesLock e then some (s.since e.task) else s.entered
    shared := if base.lock.isNone then managedSet p base.disk else s.shared
    reapplied := s.reapplied ||
      (s.base.commits e).any fun result => !result.rolledBack && s.since e.task == s.writes
    reconciled := fun n => !(s.base.commits e).any (·.changed) &&
      (s.reconciled n || s.base.reconciles e == some n) }

inductive Step (p : ManagedPrefix) :
    Restorable cfg ν τ → RestoreEvent cfg ν τ → Restorable cfg ν τ → Prop
  | write {s db} :
    Step p s (.write db) { s with db, writes := s.writes + 1, reapplied := false }
  | restore {s archive} : Step p s (.restore archive) (s.restored archive)
  | enqueue {s} : Step p s .enqueue { s with queued := s.queued + 1 }
  | load {s t} (free : s.base.task t = .idle) (unloading : s.loading t = none)
      (any : 0 < s.queued) :
    Step p s (.load t) { s with
      queued := s.queued - 1
      loading := Function.update s.loading t (some s.writes) }
  | giveUp {s t} (loading : (s.loading t).isSome = true) :
    Step p s (.giveUp t) { s with loading := Function.update s.loading t none }
  | action {s e base} (admits : s.Admits e) (moved : s.base.Step p e base) :
    Step p s (.action e) (s.next p e base)

end Next

/-! ### The property and its condition -/

/-- The nginx of node `n` runs the shared files, or already those of the apply that holds
the lock and is about to publish them. -/
def Serves (p : ManagedPrefix) (s : Restorable cfg ν τ) (n : ν) : Prop :=
  (s.base.node n).loaded = s.shared ∨
  ∃ t m c result reloaded, s.base.lock = some t ∧
    s.base.task t = .apply m c (.inside (.done result) reloaded) ∧ result.changed = true ∧
    (s.base.node n).loaded = managedSet p s.base.disk

/-- No task takes the lock with a state loaded before the one last applied. -/
def InOrder (s : Restorable cfg ν τ) : ClusterEvent cfg ν τ → Prop
  | .act t _ => ∀ n c, s.base.task t = .apply n c .waiting →
      ∀ last, s.entered = some last → last ≤ s.since t
  | _ => True

/-- A version is published only above every marker and every version about to be marked. -/
def PublishesAbove (s : Restorable cfg ν τ) : ClusterEvent cfg ν τ → Prop
  | .act t _ => ∀ n c result reloaded,
      s.base.task t = .apply n c (.inside (.done result) reloaded) → result.changed = true →
      ∀ m v, s.base.Claims m v → v ≤ s.base.version
  | _ => True

/-- An apply marks only what its node has reached, reconciles reload and applies compare only
at rest, the applies go by age, and no version stands for two sets of files: one that is
published is above every marker, and a marker that reaches the one a restore brings back had
reached the shared one before. -/
def Keeps (p : ManagedPrefix) (s : Restorable cfg ν τ) : RestoreEvent cfg ν τ → Prop
  | .action e => s.base.MarksOnlyReached e ∧ s.base.ReloadsSettled p e ∧ s.InOrder e ∧
      s.PublishesAbove e
  | .restore archive => ∀ n v, s.base.Claims n v → readConfigVersion archive.row ≤ v →
      s.base.version ≤ v
  | _ => True

/-- While no apply is writing, a node whose marker has reached the shared version runs the
shared files. -/
def PeersFollow (p : ManagedPrefix) (s : Restorable cfg ν τ) : Prop :=
  s.base.lock = none → ∀ n, (s.base.version : Int) ≤ readLocalVersion (s.base.node n).marker →
    (s.base.node n).loaded = managedSet p s.base.disk

/-- So does a node that has reconciled since the version was published or brought back. -/
def ReconciledFollow (p : ManagedPrefix) (s : Restorable cfg ν τ) : Prop :=
  s.base.lock = none → ∀ n, s.reconciled n = true →
    (s.base.node n).loaded = managedSet p s.base.disk

/-- The shared files are the rendering of the archive, and every node that has reconciled
runs them. -/
def RunsRestored (p : ManagedPrefix) (s : Restorable cfg ν τ) (archive : Archive) : Prop :=
  ∃ state desired, loadDesiredState cfg archive.db = .ok state ∧
    renderTargets cfg (haOptions p) state = .ok desired ∧
    managedSet p s.base.disk = desired ∧
    ∀ n, s.reconciled n = true → (s.base.node n).loaded = desired

/-! ### The invariant -/

/-- What is known of a state whose load began at `since`. -/
structure Loaded (p : ManagedPrefix) (s : Restorable cfg ν τ) (since : Nat) (c : Call cfg) :
    Prop where
  seen : since ≤ s.writes
  options : c.options = haOptions p
  current : since = s.writes → loadDesiredState cfg s.db = .ok c.state

/-- What is known of a call inside `apply_config`. -/
structure Inside (p : ManagedPrefix) (s : Restorable cfg ν τ) (t : τ) (n : ν) (c : Call cfg)
    (phase : Phase) (reloaded : Bool) : Prop where
  held : s.base.lock = some t
  last : s.entered = some (s.since t)
  loaded : s.Loaded p (s.since t) c
  tracks : ∃ found, managedSet p found = s.shared ∧
    (phase ≠ .entered → ∀ d, CleanFiles (managedSet p found d)) ∧
    phase.Tracks (c.job p) found s.base.disk
  own : reloaded = true → phase.isDone = true ∧
    (s.base.node n).loaded = managedSet p s.base.disk
  changes : ∀ result, phase = .done result → result.changed = true → reloaded = true

def TaskOk (p : ManagedPrefix) (s : Restorable cfg ν τ) (t : τ) : Task cfg ν → Prop
  | .apply _ c .waiting => s.Loaded p (s.since t) c
  | .apply n c (.inside phase reloaded) => s.Inside p t n c phase reloaded
  | _ => True

structure Inv (p : ManagedPrefix) (s : Restorable cfg ν τ) : Prop where
  rest : s.base.lock = none → s.shared = managedSet p s.base.disk
  holder : ∀ t, s.base.lock = some t →
    ∃ n c phase reloaded, s.base.task t = .apply n c (.inside phase reloaded)
  tasks : ∀ t, s.TaskOk p t (s.base.task t)
  loads : ∀ t since, s.loading t = some since → since ≤ s.writes
  /-- a marker that has reached the shared version keeps its promise -/
  follows : ∀ n v, s.base.Claims n v → s.base.version ≤ v → s.Serves p n
  reconciled : ∀ n, s.reconciled n = true → s.Serves p n
  /-- after a re-apply the shared files are the rendering of the database -/
  applied : s.reapplied = true → s.entered = some s.writes ∧
    ∃ c : Call cfg, s.Loaded p s.writes c ∧ s.shared = c.desired

/-- At a settled point of the call that holds the lock the shared files are on disk, unless
the call is about to publish its own. -/
theorem Inside.settled {p : ManagedPrefix} {s : Restorable cfg ν τ} {t : τ} {n : ν} {c : Call cfg}
    {phase : Phase} {reloaded : Bool} (inside : s.Inside p t n c phase reloaded)
    (settled : phase.settled = true) :
    managedSet p s.base.disk = s.shared ∨
    ∃ result, phase = .done result ∧ result.changed = true := by
  obtain ⟨found, same, clean, tracks⟩ := inside.tracks
  rcases tracks.settled settled clean with back | ⟨result, rfl, changed, _⟩
  · exact Or.inl (back.trans same)
  · exact Or.inr ⟨result, rfl, changed⟩

/-- A node that has loaded at such a point serves. -/
theorem Inside.serves {p : ManagedPrefix} {s : Restorable cfg ν τ} {t : τ} {m : ν} {c : Call cfg}
    {phase : Phase} {reloaded : Bool} (inside : s.Inside p t m c phase reloaded)
    (here : s.base.task t = .apply m c (.inside phase reloaded)) (settled : phase.settled = true)
    {n : ν} (loads : (s.base.node n).loaded = managedSet p s.base.disk) : s.Serves p n := by
  rcases inside.settled settled with same | ⟨result, rfl, changed⟩
  · exact Or.inl (loads.trans same)
  · exact Or.inr ⟨t, m, c, result, reloaded, inside.held, here, changed, loads⟩

/-- A call that returns leaves its rendering, or has rolled back to the shared files. -/
theorem Inside.returns {p : ManagedPrefix} {s : Restorable cfg ν τ} {t : τ} {n : ν} {c : Call cfg}
    {result : ApplyResult} {reloaded : Bool} (inside : s.Inside p t n c (.done result) reloaded) :
    result.rolledBack = true ∧ managedSet p s.base.disk = s.shared ∨
    result.rolledBack = false ∧ managedSet p s.base.disk = c.desired := by
  obtain ⟨found, same, clean, tracks⟩ := inside.tracks
  have clean := clean fun same => by cases same
  cases kept : result.rolledBack with
  | true =>
    -- a rollback puts back what was found, which is what the last holder left
    rcases tracks with ⟨_, no, _⟩ | ⟨_, _, back⟩ | ⟨_, no, _⟩
    · cases kept.symm.trans no
    · refine Or.inl ⟨rfl, ?_⟩
      rw [back, ← same]
      exact managedSet_restored (c.job p) clean
    · cases kept.symm.trans no
  | false =>
    -- without one all of the rendering stands
    refine Or.inr ⟨rfl, funext fun d => tracks.desired kept clean ?_⟩
    show d ∈ c.options.dirs
    rw [inside.loaded.options]
    exact Audited.haOptions_dirs p d

section Step

variable [DecidableEq ν] [DecidableEq τ] {p : ManagedPrefix} {s : Restorable cfg ν τ}
  {e : ClusterEvent cfg ν τ} {base : Cluster cfg ν τ}

/-- While the lock is held, and while nobody takes it, the shared files stay. -/
private theorem shared_next (inv : s.Inv p) (keeps : base.disk = s.base.disk)
    (free : base.lock = none → s.base.lock = none) : (s.next p e base).shared = s.shared := by
  cases held : base.lock with
  | none =>
    simp only [next, held, Option.isNone_none, if_true]
    rw [keeps]
    exact (inv.rest (free held)).symm
  | some t => simp only [next, held, Option.isNone_some, if_false, Bool.false_eq_true]

/-- What a task that is not inside `apply_config` leaves as it is. -/
private theorem outside_next (inv : s.Inv p) (moved : s.base.Step p e base)
    (outside : ∀ n c phase reloaded, s.base.task e.task ≠ .apply n c (.inside phase reloaded)) :
    base.disk = s.base.disk ∧ (s.next p e base).shared = s.shared ∧
      ∀ t, s.base.lock = some t → base.lock = some t := by
  obtain ⟨disk, _, lock⟩ := moved.outside outside
  refine ⟨disk, shared_next inv disk fun free => ?_, lock⟩
  cases held : s.base.lock with
  | none => rfl
  | some t => cases free.symm.trans (lock t held)

omit [DecidableEq ν] [DecidableEq τ] in
/-- A task beside the holder of the lock is not inside `apply_config`. -/
private theorem outside_of_held (inv : s.Inv p) {u t : τ} (other : u ≠ t)
    (held : s.base.lock = some u) :
    ∀ n c phase reloaded, s.base.task t ≠ .apply n c (.inside phase reloaded) := by
  intro n c phase reloaded here
  have mine := inv.tasks t
  rw [here] at mine
  exact other (Option.some.inj (held.symm.trans mine.held))

/-- The `since` of a task is its own. -/
private theorem since_other {u : τ} (other : u ≠ e.task) :
    (s.next p e base).since u = s.since u := by
  cases e with
  | startApply t n c => exact Function.update_of_ne other _ _
  | _ => rfl

/-- A task that has begun keeps its `since`. -/
private theorem since_act {t : τ} {answer : CommandResult} :
    (s.next p (.act t answer) base).since = s.since := rfl

/-- Nobody takes the lock while it is held. -/
private theorem entered_held (moved : s.base.Step p e base) {u : τ} (held : s.base.lock = some u) :
    (s.next p e base).entered = s.entered := by
  cases moved with
  | enter here free => cases held.symm.trans free
  | startApply => rfl
  | startReconcile => rfl
  | work here running | commitChanged here changed | commitUnchanged here unchanged | mark here
    | readVersion here | current here reached | newer here behind | testFailed here failed
    | testOk here ok | reloadFailed here failed | reloadOk here ok | record here =>
    simp only [next, Cluster.takesLock, here, if_false, Bool.false_eq_true]

private theorem taskOk_other (inv : s.Inv p) (moved : s.base.Step p e base) {u : τ}
    (other : u ≠ e.task) : (s.next p e base).TaskOk p u (base.task u) := by
  have before := inv.tasks u
  rw [moved.task_other other]
  have since : (s.next p e base).since u = s.since u := since_other other
  cases here : s.base.task u with
  | idle => trivial
  | reconcile n point => cases point <;> trivial
  | apply n c point =>
    rw [here] at before
    cases point with
    | waiting =>
      show Loaded p _ ((s.next p e base).since u) c
      rw [since]
      exact ⟨before.seen, before.options, before.current⟩
    | committed v => trivial
    | inside phase reloaded =>
      obtain ⟨held, last, loaded, ⟨found, same, clean, tracks⟩, own, changes⟩ := before
      obtain ⟨disk, shared, lock⟩ := outside_next inv moved (outside_of_held inv other held)
      refine ⟨lock u held, ?_, ?_, ⟨found, same.trans shared.symm, clean, ?_⟩, ?_, changes⟩
      · rw [entered_held moved held, since]
        exact last
      · rw [since]
        exact ⟨loaded.seen, loaded.options, loaded.current⟩
      · show phase.Tracks (c.job p) found base.disk
        rw [disk]
        exact tracks
      · intro loaded
        obtain ⟨ended, runs⟩ := own loaded
        refine ⟨ended, ?_⟩
        -- a reconcile of the same node loads the same files
        rcases moved.loaded_cases n with same | ⟨new, _⟩
        · show (base.node n).loaded = managedSet p base.disk
          rw [same, disk]
          exact runs
        · exact new

/-- An action of `apply_config` that loads ends the call, with the new files loaded. -/
private theorem inside_work (inv : s.Inv p) {t : τ} {n : ν} {c : Call cfg} {phase : Phase}
    {reloaded : Bool} {answer : CommandResult} (settled : s.base.ReloadsSettled p (.act t answer))
    (here : s.base.task t = .apply n c (.inside phase reloaded)) (running : phase.isDone = false)
    (moved : s.base.Step p (.act t answer) base) (lock : base.lock = s.base.lock)
    (disk : base.disk = (s.base.work p n c phase answer).disk)
    (loaded : (base.node n).loaded = (s.base.work p n c phase answer).loaded) :
    (s.next p (.act t answer) base).Inside p t n c (s.base.work p n c phase answer).phase
      (reloaded || s.base.workLoads p c phase answer) := by
  have before := inv.tasks t
  rw [here] at before
  obtain ⟨held, last, known, ⟨found, same, clean, tracks⟩, own, _⟩ := before
  -- a call that has reloaded is at its end
  have fresh : reloaded = false := by
    cases known : reloaded with
    | false => rfl
    | true => cases running.symm.trans (own known).1
  subst fresh
  have kept : (s.next p (.act t answer) base).shared = s.shared := by
    simp only [next, lock, held, Option.isNone_some, if_false, Bool.false_eq_true]
  have compares : phase = .entered → ∀ d, CleanFiles (managedSet p s.base.disk d) := by
    rintro rfl
    exact settled.1 n c false here
  refine ⟨lock.trans held, ?_, ⟨known.seen, known.options, known.current⟩,
    ⟨found, same.trans kept.symm, fun _ => tracks.clean_next compares clean, ?_⟩, ?_, ?_⟩
  · rw [entered_held moved held, since_act]
    exact last
  · show Phase.Tracks (c.job p) found base.disk _
    rw [disk]
    exact tracks.next answer
  · intro loads
    have loads : (phase.next (c.job p) answer s.base.disk).loads = true := by
      simpa [Cluster.workLoads] using loads
    refine ⟨Phase.isDone_of_loads running loads, ?_⟩
    show (base.node n).loaded = managedSet p base.disk
    rw [loaded, disk]
    simp only [Cluster.work, Running.after, loads, if_true]
    rfl
  · intro result ends changed
    have loads := Phase.loads_of_changed running ends changed
    simp only [Cluster.workLoads, loads, Bool.or_true]

/-- The acting task. -/
private theorem taskOk_own (inv : s.Inv p) (settled : s.base.ReloadsSettled p e)
    (admits : s.Admits e) (moved : s.base.Step p e base) :
    (s.next p e base).TaskOk p e.task (base.task e.task) := by
  have step := moved
  cases moved with
  | @startApply t n c free options =>
    simp only [Cluster.task_setTask, ClusterEvent.task, if_true]
    -- the load ends here, and the task keeps when it began
    obtain ⟨since, loading, current⟩ := admits
    have now : (s.next p (.startApply t n c) (s.base.setTask t (.apply n c .waiting))).since t =
        since := by
      simp only [next, Function.update_self, loading, Option.getD_some]
    show Loaded p _ (Restorable.since _ t) c
    rw [now]
    exact ⟨inv.loads t since loading, options, current⟩
  | @enter t n c answer here free =>
    simp only [Cluster.task_setTask, ClusterEvent.task, if_true]
    -- the disk is as the last holder left it, so what the call finds is shared
    have before := inv.tasks t
    rw [here] at before
    refine ⟨rfl, ?_, ⟨before.seen, before.options, before.current⟩,
      ⟨s.base.disk, (inv.rest free).symm, fun past => absurd rfl past, rfl⟩, ?_, ?_⟩
    · simp only [next, Cluster.takesLock, here, if_true]
      rfl
    · intro loaded
      cases loaded
    · intro result ends
      cases ends
  | @work t n c phase reloaded answer here running =>
    simp only [Cluster.task_setTask, ClusterEvent.task, if_true]
    refine inside_work inv settled here running step rfl rfl ?_
    show ((s.base.setLoaded n _).node n).loaded = _
    simp only [Cluster.setLoaded, Function.update_self]
  | _ =>
    simp only [Cluster.task_setTask, ClusterEvent.task, if_true]
    trivial

private theorem tasks_step (inv : s.Inv p) (settled : s.base.ReloadsSettled p e)
    (admits : s.Admits e) (moved : s.base.Step p e base) (t : τ) :
    (s.next p e base).TaskOk p t (base.task t) := by
  by_cases acting : t = e.task
  · subst acting
    exact taskOk_own inv settled admits moved
  · exact taskOk_other inv moved acting

/-- What the return of a call leaves. -/
private theorem done_next (inv : s.Inv p) (moved : s.base.Step p e base) {n : ν} {c : Call cfg}
    {result : ApplyResult} {reloaded : Bool}
    (here : s.base.task e.task = .apply n c (.inside (.done result) reloaded)) :
    (s.next p e base).shared = managedSet p s.base.disk ∧
      (managedSet p s.base.disk = s.shared ∨ result.changed = true) := by
  obtain ⟨released, disk, _⟩ := moved.done_cases here
  have mine := inv.tasks e.task
  rw [here] at mine
  refine ⟨?_, (Inside.settled mine rfl).imp_right ?_⟩
  · simp only [next, released, Option.isNone_none, if_true, disk]
  · rintro ⟨_, same, changed⟩
    cases same
    exact changed

/-- A call under way keeps the lock. -/
private theorem running_next (inv : s.Inv p) (moved : s.base.Step p e base) {n : ν} {c : Call cfg}
    {phase : Phase} {reloaded : Bool}
    (here : s.base.task e.task = .apply n c (.inside phase reloaded))
    (running : phase.isDone = false) : (s.next p e base).shared = s.shared := by
  have mine := inv.tasks e.task
  rw [here] at mine
  have held : base.lock = some e.task := by
    rcases moved.lock_cases with same | ⟨free, _⟩ | ⟨_, _, _, _, _, ended⟩
    · exact same.trans mine.held
    · cases free.symm.trans mine.held
    · cases ended.symm.trans here
      cases running
  simp only [next, held, Option.isNone_some, if_false, Bool.false_eq_true]

omit [DecidableEq ν] [DecidableEq τ] in
/-- Where the acting task stands: outside `apply_config`, at the end of it, or under way. -/
private theorem acting_cases (s : Restorable cfg ν τ) (t : τ) :
    (∀ n c phase reloaded, s.base.task t ≠ .apply n c (.inside phase reloaded)) ∨
    (∃ n c result reloaded, s.base.task t = .apply n c (.inside (.done result) reloaded)) ∨
    ∃ n c phase reloaded, s.base.task t = .apply n c (.inside phase reloaded) ∧
      phase.isDone = false := by
  by_cases inside : ∃ n c phase reloaded, s.base.task t = .apply n c (.inside phase reloaded)
  · obtain ⟨n, c, phase, reloaded, here⟩ := inside
    cases phase with
    | done result => exact Or.inr (Or.inl ⟨n, c, result, reloaded, here⟩)
    | _ => exact Or.inr (Or.inr ⟨n, c, _, reloaded, here, rfl⟩)
  · left
    intro n c phase reloaded here
    exact inside ⟨n, c, phase, reloaded, here⟩

/-- A node that reloads by a reconcile serves: the files are settled. -/
private theorem serves_of_reconcile (inv : s.Inv p) (settled : s.base.ReloadsSettled p e)
    (moved : s.base.Step p e base) {n : ν} {v : Nat} {answer : CommandResult}
    (acts : e = .act e.task answer) (here : s.base.task e.task = .reconcile n (.reloading v))
    (ok : answer.ok = true) (loads : (base.node n).loaded = managedSet p base.disk) :
    (s.next p e base).Serves p n := by
  have outside : ∀ m c phase reloaded,
      s.base.task e.task ≠ .apply m c (.inside phase reloaded) := by
    intro m c phase reloaded inside
    cases inside.symm.trans here
  -- a reconcile writes no managed file
  obtain ⟨disk, shared, lock⟩ := outside_next inv moved outside
  cases held : s.base.lock with
  | none =>
    left
    show (base.node n).loaded = _
    rw [loads, shared, disk]
    exact (inv.rest held).symm
  | some u =>
    -- an apply holds the lock, and by the condition its files are settled
    obtain ⟨m, c, phase, reloaded, inside⟩ := inv.holder u held
    have other : u ≠ e.task := by
      rintro rfl
      cases inside.symm.trans here
    have ends : phase.settled = true := by
      rw [acts] at settled
      exact settled.2 n v here ok u m c phase reloaded inside
    have there := (moved.task_other other).trans inside
    have after := taskOk_other inv moved other
    rw [there] at after
    exact Inside.serves after there ends loads

/-- A node that serves still does, unless a new version is out. -/
private theorem serves_step (inv : s.Inv p) (settled : s.base.ReloadsSettled p e)
    (admits : s.Admits e) (moved : s.base.Step p e base) (same : base.version = s.base.version)
    {n : ν} (serves : s.Serves p n) : (s.next p e base).Serves p n := by
  rcases acting_cases s e.task with outside | ⟨m, c, result, reloaded, here⟩ |
    ⟨m, c, phase, reloaded, here, running⟩
  -- outside the lock no file changes, so what matters is what the node loads
  · obtain ⟨disk, shared, lock⟩ := outside_next inv moved outside
    rcases moved.loaded_cases n with kept | ⟨new, ⟨c, phase, _, reloaded, here, _⟩ |
      ⟨v, answer, acts, here, ok, _⟩⟩
    · rcases serves with runs | ⟨t, m, c, result, reloaded, held, here, changed, runs⟩
      · exact Or.inl (kept.trans (runs.trans shared.symm))
      · have other : t ≠ e.task := by
          rintro rfl
          exact outside _ _ _ _ here
        refine Or.inr ⟨t, m, c, result, reloaded, lock t held,
          (moved.task_other other).trans here, changed, ?_⟩
        show (base.node n).loaded = managedSet p base.disk
        rw [kept, disk]
        exact runs
    · exact absurd here (outside n c phase reloaded)
    · exact serves_of_reconcile inv settled moved acts here ok new
  -- a call that returns without a new version has left the shared files
  · obtain ⟨_, disk, node, publishes⟩ := moved.done_cases here
    have unchanged : result.changed = false := by
      cases known : result.changed with
      | false => rfl
      | true =>
        have more := publishes known
        omega
    obtain ⟨shared, back | changed⟩ := done_next inv moved here
    · rcases serves with runs | ⟨t, m', c', result', _, held, there, changed, _⟩
      · left
        show (base.node n).loaded = _
        rw [node, shared, back]
        exact runs
      · have mine := inv.tasks e.task
        rw [here] at mine
        cases held.symm.trans mine.held
        cases there.symm.trans here
        cases changed.symm.trans unchanged
    · cases changed.symm.trans unchanged
  -- a call under way publishes nothing yet
  · have shared := running_next inv moved here running
    rcases moved.loaded_cases n with kept | ⟨new, ⟨_, _, phase', _, _, there⟩ | ⟨_, _, _, there, _⟩⟩
    · rcases serves with runs | ⟨t, m', c', result', _, held, there, _, _⟩
      · exact Or.inl (kept.trans (runs.trans shared.symm))
      · have mine := inv.tasks e.task
        rw [here] at mine
        cases held.symm.trans mine.held
        cases there.symm.trans here
        cases running
    · -- the call itself reloads: it has come to its end
      have after := taskOk_own inv settled admits moved
      rw [there] at after
      have ended := (after.own rfl).1
      have ends : phase'.settled = true := by
        cases phase' with
        | done result => rfl
        | _ => cases ended
      exact Inside.serves after there ends new
    · cases there.symm.trans here

omit [DecidableEq ν] [DecidableEq τ] in
/-- A node whose marker has reached the shared version serves. -/
private theorem serves_of_reached (inv : s.Inv p) {n : ν}
    (reached : (s.base.version : Int) ≤ readLocalVersion (s.base.node n).marker) :
    s.Serves p n := by
  cases marked : (s.base.node n).marker with
  | none =>
    rw [marked] at reached
    simp only [readLocalVersion, unknownLocalVersion] at reached
    omega
  | some v =>
    rw [marked] at reached
    simp only [readLocalVersion] at reached
    exact inv.follows n v (Or.inl marked) (by omega)

/-- The node a commit is made for runs what the commit leaves. -/
private theorem serves_of_commit (inv : s.Inv p) (marks : s.base.MarksOnlyReached e)
    (moved : s.base.Step p e base) {n : ν} {c : Call cfg} {result : ApplyResult} {reloaded : Bool}
    {answer : CommandResult} (acts : e = .act e.task answer)
    (here : s.base.task e.task = .apply n c (.inside (.done result) reloaded)) :
    (s.next p e base).Serves p n := by
  obtain ⟨_, _, node, _⟩ := moved.done_cases here
  obtain ⟨shared, back⟩ := done_next inv moved here
  have mine := inv.tasks e.task
  rw [here] at mine
  left
  show (base.node n).loaded = _
  rw [node, shared]
  cases known : reloaded with
  | true => exact (mine.own known).2
  | false =>
    -- nothing was loaded: the node must have been there already
    subst known
    rw [acts] at marks
    have serves := serves_of_reached inv (marks n c result here)
    have unchanged : result.changed = false := by
      cases changed : result.changed with
      | false => rfl
      | true => cases mine.changes result rfl changed
    rcases serves with runs | ⟨t, m, c', result', _, held', there, changed, _⟩
    · rcases back with back | changed
      · exact runs.trans back.symm
      · cases changed.symm.trans unchanged
    · cases held'.symm.trans mine.held
      cases there.symm.trans here
      cases changed.symm.trans unchanged

private theorem follows_step (inv : s.Inv p) (keeps : s.Keeps p (.action e)) (admits : s.Admits e)
    (moved : s.base.Step p e base) {n : ν} {v : Nat} (claims : base.Claims n v)
    (reaches : base.version ≤ v) : (s.next p e base).Serves p n := by
  -- either the claim is old, or it is made by the commit or the reload of this step
  obtain ⟨marks, settled, _, above⟩ := keeps
  rcases moved.claims_cases claims with old | ⟨_, _, c, result, reloaded, answer, acts, here⟩ |
    ⟨answer, acts, here, ok, loads⟩
  · rcases moved.version_eq with same |
      ⟨more, t, answer, m, c, result, reloaded, rfl, here, changed⟩
    · exact serves_step inv settled admits moved same (inv.follows n v old (same ▸ reaches))
    · -- a new version is out, and no claim has reached it
      have below := above m c result reloaded here changed n v old
      omega
  · exact serves_of_commit inv marks moved acts here
  · exact serves_of_reconcile inv settled moved acts here ok loads

private theorem reconciled_step (inv : s.Inv p) (keeps : s.Keeps p (.action e))
    (admits : s.Admits e) (moved : s.base.Step p e base) {n : ν}
    (reconciled : (s.next p e base).reconciled n = true) : (s.next p e base).Serves p n := by
  simp only [next, Bool.and_eq_true, Bool.not_eq_true', Bool.or_eq_true, beq_iff_eq] at reconciled
  -- no version has come out since the reconcile, or it ends with this step
  obtain ⟨quiet, before | ends⟩ := reconciled
  · have same : base.version = s.base.version := by
      rcases moved.version_eq with same | ⟨_, t, answer, m, c, result, reloaded, rfl, here, changed⟩
      · exact same
      · simp [Cluster.commits, here, changed] at quiet
    exact serves_step inv keeps.2.1 admits moved same (inv.reconciled n before)
  · obtain ⟨_, v, reached, claims⟩ := moved.reconciles_claims ends
    exact follows_step inv keeps admits moved claims reached

omit [DecidableEq ν] [DecidableEq τ] in
/-- The state a task has loaded, once a re-apply is through. -/
private theorem Inside.since_eq (inv : s.Inv p) {t : τ} {n : ν} {c : Call cfg} {phase : Phase}
    {reloaded : Bool} (inside : s.Inside p t n c phase reloaded) (again : s.reapplied = true) :
    s.since t = s.writes := by
  have last := (inv.applied again).1
  exact Option.some.inj (inside.last.symm.trans last)

/-- The acting task has made a re-apply only where it returns. -/
private theorem reapplied_cases (again : (s.next p e base).reapplied = true) :
    s.reapplied = true ∨ ∃ result, s.base.commits e = some result ∧ result.rolledBack = false ∧
      s.since e.task = s.writes := by
  simp only [next, Bool.or_eq_true, Option.any_eq_true, Bool.and_eq_true, Bool.not_eq_true',
    beq_iff_eq] at again
  exact again

/-- A task that waits takes the lock, and no other. -/
private theorem entered_cases (inv : s.Inv p) (inOrder : s.InOrder e) (again : s.reapplied = true) :
    (s.next p e base).entered = some s.writes := by
  have last := (inv.applied again).1
  cases e with
  | startApply t n c => exact last
  | startReconcile t n => exact last
  | act t answer =>
    cases takes : s.base.takesLock (.act t answer) with
    | false =>
      simp only [next, takes, if_false, Bool.false_eq_true]
      exact last
    | true =>
      simp only [next, takes, if_true, ClusterEvent.task]
      simp only [Cluster.takesLock] at takes
      split at takes
      next n c here =>
        -- its state is no older than the one applied, which is the newest
        have later := inOrder n c here _ last
        have loaded := inv.tasks t
        rw [here] at loaded
        exact congrArg some (Nat.le_antisymm loaded.seen later)
      next => cases takes

private theorem applied_step (inv : s.Inv p) (inOrder : s.InOrder e)
    (moved : s.base.Step p e base) (again : (s.next p e base).reapplied = true) :
    (s.next p e base).entered = some s.writes ∧
      ∃ c : Call cfg, s.Loaded p s.writes c ∧ (s.next p e base).shared = c.desired := by
  have mine := inv.tasks e.task
  rcases acting_cases s e.task with outside | ⟨m, c, result, reloaded, here⟩ |
    ⟨m, c, phase, reloaded, here, running⟩
  · rcases reapplied_cases again with before | ⟨result, commits, _⟩
    · obtain ⟨_, c, loaded, same⟩ := inv.applied before
      exact ⟨entered_cases inv inOrder before, c, loaded,
        (outside_next inv moved outside).2.1.trans same⟩
    · obtain ⟨t, answer, m, c, reloaded, rfl, here⟩ := Cluster.commits_eq commits
      exact absurd here (outside m c _ reloaded)
  · rw [here] at mine
    have shared := (done_next inv moved here).1
    have entered : (s.next p e base).entered = some (s.since e.task) :=
      (entered_held moved mine.held).trans mine.last
    -- rolled back: the files are as before; kept: they are those of the newest state
    rcases mine.returns with ⟨back, same⟩ | ⟨_, same⟩
    · rcases reapplied_cases again with before | ⟨result', commits, kept, _⟩
      · obtain ⟨last, c, loaded, rendered⟩ := inv.applied before
        exact ⟨entered_cases inv inOrder before, c, loaded, shared.trans (same.trans rendered)⟩
      · obtain ⟨t, answer, m, c, reloaded, rfl, there⟩ := Cluster.commits_eq commits
        cases there.symm.trans here
        cases kept.symm.trans back
    · have newest : s.since e.task = s.writes := by
        rcases reapplied_cases again with before | ⟨_, _, _, newest⟩
        · exact mine.since_eq inv before
        · exact newest
      rw [newest] at entered
      have loaded := mine.loaded
      rw [newest] at loaded
      exact ⟨entered, c, loaded, shared.trans same⟩
  · rcases reapplied_cases again with before | ⟨result, commits, _⟩
    · obtain ⟨_, c, loaded, same⟩ := inv.applied before
      exact ⟨entered_cases inv inOrder before, c, loaded,
        (running_next inv moved here running).trans same⟩
    · obtain ⟨t, answer, m', c', reloaded', rfl, there⟩ := Cluster.commits_eq commits
      cases there.symm.trans here
      cases running

omit [DecidableEq ν] in
/-- A load that begins, or ends without a result. -/
private theorem loads_update (inv : s.Inv p) {t u : τ} {x : Option Nat} {since : Nat}
    (known : ∀ since, x = some since → since ≤ s.writes)
    (loading : Function.update s.loading t x u = some since) : since ≤ s.writes := by
  rw [Function.update_apply] at loading
  split at loading
  · exact known since loading
  · exact inv.loads u since loading

private theorem loads_step (inv : s.Inv p) {t : τ} {since : Nat}
    (loading : (s.next p e base).loading t = some since) : since ≤ s.writes := by
  cases e with
  | startApply u n c => exact loads_update inv (fun _ none => by cases none) loading
  | _ => exact inv.loads t since loading

/-- An action keeps the invariant. -/
theorem inv_action (inv : s.Inv p) (keeps : s.Keeps p (.action e)) (admits : s.Admits e)
    (moved : s.base.Step p e base) : (s.next p e base).Inv p where
  rest := by
    intro free
    have free : base.lock = none := free
    simp only [next, free, Option.isNone_none, if_true]
  holder := moved.holder inv.holder
  tasks := tasks_step inv keeps.2.1 admits moved
  loads := fun _ _ => loads_step inv
  follows := fun _ _ => follows_step inv keeps admits moved
  reconciled := fun _ => reconciled_step inv keeps admits moved
  applied := by
    intro again
    obtain ⟨entered, c, loaded, shared⟩ := applied_step inv keeps.2.2.1 moved again
    exact ⟨entered, c, ⟨loaded.seen, loaded.options, loaded.current⟩, shared⟩

omit [DecidableEq ν] [DecidableEq τ] in
/-- What is known of a task where only the database, the queue and the loads have changed. -/
private theorem TaskOk.carried {s' : Restorable cfg ν τ} {t : τ} {x : Task cfg ν}
    (ok : s.TaskOk p t x) (lock : s'.base.lock = s.base.lock) (disk : s'.base.disk = s.base.disk)
    (node : s'.base.node = s.base.node) (since : s'.since = s.since)
    (entered : s'.entered = s.entered) (shared : s'.shared = s.shared)
    (later : ∀ since c, s.Loaded p since c → s'.Loaded p since c) : s'.TaskOk p t x := by
  cases x with
  | idle => trivial
  | reconcile n point => cases point <;> trivial
  | apply n c point =>
    cases point with
    | waiting =>
      show Loaded p s' (s'.since t) c
      rw [since]
      exact later _ _ ok
    | committed v => trivial
    | inside phase reloaded =>
      obtain ⟨held, last, loaded, tracks, own, changes⟩ := ok
      refine ⟨lock.trans held, ?_, ?_, ?_, ?_, changes⟩
      · rw [entered, since]
        exact last
      · rw [since]
        exact later _ _ loaded
      · rw [shared, disk]
        exact tracks
      · rw [node, disk]
        exact own

omit [DecidableEq ν] [DecidableEq τ] in
/-- A write makes every loaded state an older one. -/
private theorem Loaded.later {s' : Restorable cfg ν τ} (written : s'.writes = s.writes + 1)
    (since : Nat) (c : Call cfg) (loaded : s.Loaded p since c) : s'.Loaded p since c := by
  have seen := loaded.seen
  exact ⟨by omega, loaded.options, fun now => by omega⟩

omit [DecidableEq ν] [DecidableEq τ] in
theorem inv_written (inv : s.Inv p) (db : Database) :
    Inv p { s with db, writes := s.writes + 1, reapplied := false } where
  rest := inv.rest
  holder := inv.holder
  tasks := fun t => (inv.tasks t).carried rfl rfl rfl rfl rfl rfl (Loaded.later rfl)
  loads := fun t since loading => Nat.le_succ_of_le (inv.loads t since loading)
  follows := inv.follows
  reconciled := inv.reconciled
  applied := fun again => by cases again

omit [DecidableEq ν] [DecidableEq τ] in
theorem inv_restored (inv : s.Inv p) {archive : Archive}
    (keeps : ∀ n v, s.base.Claims n v → readConfigVersion archive.row ≤ v → s.base.version ≤ v) :
    (s.restored archive).Inv p where
  rest := inv.rest
  holder := inv.holder
  tasks := fun t => (inv.tasks t).carried rfl rfl rfl rfl rfl rfl (Loaded.later rfl)
  loads := fun t since loading => Nat.le_succ_of_le (inv.loads t since loading)
  follows := fun n v claims reaches => inv.follows n v claims (keeps n v claims reaches)
  reconciled := fun _ ends => by cases ends
  applied := fun again => by cases again

omit [DecidableEq ν] [DecidableEq τ] in
/-- What is queued and what is being loaded is no concern of the cluster. -/
theorem inv_queued (inv : s.Inv p) (queued : Nat) {loading : τ → Option Nat}
    (loads : ∀ t since, loading t = some since → since ≤ s.writes) :
    Inv p { s with queued, loading } where
  rest := inv.rest
  holder := inv.holder
  tasks := fun t => (inv.tasks t).carried rfl rfl rfl rfl rfl rfl
    fun _ _ loaded => ⟨loaded.seen, loaded.options, loaded.current⟩
  loads := loads
  follows := inv.follows
  reconciled := inv.reconciled
  applied := by
    intro again
    obtain ⟨last, c, loaded, shared⟩ := inv.applied again
    exact ⟨last, c, ⟨loaded.seen, loaded.options, loaded.current⟩, shared⟩

theorem inv_step {event : RestoreEvent cfg ν τ} {s' : Restorable cfg ν τ} (inv : s.Inv p)
    (keeps : s.Keeps p event) (moved : Step p s event s') : s'.Inv p := by
  cases moved with
  | write => exact inv_written inv _
  | restore => exact inv_restored inv keeps
  | enqueue => exact inv_queued inv _ inv.loads
  | load free unloading any =>
    refine inv_queued inv _ fun u since loading => loads_update inv ?_ loading
    intro since now
    cases now
    exact Nat.le_refl _
  | giveUp loading =>
    refine inv_queued inv s.queued fun u since loading => loads_update inv ?_ loading
    intro since none
    cases none
  | action admits moved => exact inv_action inv keeps admits moved

end Step

theorem inv_start {p : ManagedPrefix} (db : Database) (disk : Disk) (row : Option Nat) :
    (start p db disk row : Restorable cfg ν τ).Inv p where
  rest := fun _ => rfl
  holder := fun _ held => by cases held
  tasks := fun _ => trivial
  loads := fun _ _ loading => by cases loading
  follows := by
    rintro n v (marked | ⟨t, ⟨c, here⟩ | here⟩)
    · cases marked
    · cases here
    · cases here
  reconciled := fun _ ends => by cases ends
  applied := fun again => by cases again

/-- Where no apply is writing, to serve is to run the shared files. -/
private theorem Serves.loaded {p : ManagedPrefix} {s : Restorable cfg ν τ} {n : ν}
    (serves : s.Serves p n) (inv : s.Inv p) (free : s.base.lock = none) :
    (s.base.node n).loaded = managedSet p s.base.disk := by
  rcases serves with runs | ⟨t, _, _, _, _, held, _⟩
  · exact runs.trans (inv.rest free)
  · cases free.symm.trans held

/-- The runs in which every step meets the condition. -/
abbrev KeptRun [DecidableEq ν] [DecidableEq τ] (p : ManagedPrefix)
    (s s' : Restorable cfg ν τ) : Prop :=
  Reaches (Guarded (Keeps p) (Step p)) s s'

section Runs

variable [DecidableEq ν] [DecidableEq τ] {p : ManagedPrefix} {s s' : Restorable cfg ν τ}

theorem inv_run (inv : s.Inv p) (run : s.KeptRun p s') : s'.Inv p := by
  apply Reaches.invariant (P := Inv p) ?_ inv run
  intro s e s' before moved
  exact inv_step before moved.1 moved.2

/-- The database changes only with a write. -/
theorem db_of_run (run : s.KeptRun p s') :
    s.writes ≤ s'.writes ∧ (s'.writes = s.writes → s'.db = s.db) := by
  let same (u : Restorable cfg ν τ) : Prop :=
    s.writes ≤ u.writes ∧ (u.writes = s.writes → u.db = s.db)
  apply Reaches.invariant (P := same) ?_ ⟨Nat.le_refl _, fun _ => rfl⟩ run
  rintro u e u' ⟨grows, before⟩ ⟨_, moved⟩
  cases moved with
  | write | restore =>
    refine ⟨Nat.le_succ_of_le grows, fun again => ?_⟩
    simp only [restored] at again
    omega
  | _ => exact ⟨grows, before⟩

omit [DecidableEq ν] [DecidableEq τ] in
theorem peersFollow_of_inv (inv : s.Inv p) : s.PeersFollow p := by
  intro free n reached
  exact (serves_of_reached inv reached).loaded inv free

omit [DecidableEq ν] [DecidableEq τ] in
theorem reconciledFollow_of_inv (inv : s.Inv p) : s.ReconciledFollow p := by
  intro free n ends
  exact (inv.reconciled n ends).loaded inv free

omit [DecidableEq ν] [DecidableEq τ] in
/-- After a restore and its re-apply. -/
theorem runsRestored_of_inv (inv : s.Inv p) {archive : Archive} (db : s.db = archive.db)
    (again : s.reapplied = true) (free : s.base.lock = none) : s.RunsRestored p archive := by
  obtain ⟨_, c, loaded, shared⟩ := inv.applied again
  have onDisk : managedSet p s.base.disk = c.desired := (inv.rest free).symm.trans shared
  refine ⟨c.state, c.desired, ?_, ?_, onDisk, fun n ends => ?_⟩
  · rw [← db]
    exact loaded.current rfl
  · rw [← loaded.options]
    exact c.rendered
  · exact (reconciledFollow_of_inv inv free n ends).trans onDisk

end Runs

/-- In every run whose steps meet the condition, a node whose marker has reached the shared
version runs the shared files, and so does a node on which a reconcile has ended at that
version. After a restore and its re-apply these files are the rendering of the archive. -/
theorem peers_follow [DecidableEq ν] [DecidableEq τ] {p : ManagedPrefix} {db : Database}
    {disk : Disk} {row : Option Nat} {s : Restorable cfg ν τ}
    (run : (start p db disk row).KeptRun p s) :
    s.PeersFollow p ∧ s.ReconciledFollow p ∧
    ∀ (s₀ : Restorable cfg ν τ) (archive : Archive), (start p db disk row).KeptRun p s₀ →
      s₀.Keeps p (.restore archive) → (s₀.restored archive).KeptRun p s →
      s.writes = s₀.writes + 1 → s.reapplied = true → s.base.lock = none →
      s.RunsRestored p archive := by
  have inv := inv_run (inv_start db disk row) run
  refine ⟨peersFollow_of_inv inv, reconciledFollow_of_inv inv, ?_⟩
  intro s₀ archive _ _ after written again free
  exact runsRestored_of_inv inv ((db_of_run after).2 written) again free

/-! ### One task after the other -/

section Solo

variable [DecidableEq ν] [DecidableEq τ] {p : ManagedPrefix} {s : Restorable cfg ν τ}
  {strict : Prop}

/-- Runs that meet the condition where `strict` holds. -/
abbrev SoloRun (p : ManagedPrefix) (strict : Prop) (s s' : Restorable cfg ν τ) : Prop :=
  Reaches (Guarded (fun s e => strict → s.Keeps p e) (Step p)) s s'

/-- No task runs, none is loading and nobody holds the lock. -/
structure Quiet (p : ManagedPrefix) (s : Restorable cfg ν τ) : Prop where
  idle : ∀ u, s.base.task u = .idle
  unloading : ∀ u, s.loading u = none
  unlocked : s.base.lock = none
  rest : s.shared = managedSet p s.base.disk

/-- The state while task `t` applies `c` on node `n`. -/
def applying (s : Restorable cfg ν τ) (t : τ) (n : ν) (c : Call cfg) (r : Running)
    (reloaded : Bool) : Restorable cfg ν τ :=
  { s with
    base := { s.base with
      disk := r.disk
      lock := some t
      node := Function.update s.base.node n { s.base.node n with loaded := r.loaded }
      task := Function.update s.base.task t (.apply n c (.inside r.phase reloaded)) }
    since := Function.update s.since t s.writes
    entered := some s.writes }

/-- The state once it is through. -/
def applied (p : ManagedPrefix) (s : Restorable cfg ν τ) (t : τ) (n : ν) (c : Call cfg) :
    Restorable cfg ν τ :=
  { s with
    base := { s.base with
      disk := (c.job p).synced s.base.disk
      configVersion := some (s.base.version + 1)
      node := Function.update s.base.node n
        { loaded := managedSet p ((c.job p).synced s.base.disk)
          marker := some (s.base.version + 1) } }
    since := Function.update s.since t s.writes
    entered := some s.writes
    shared := managedSet p ((c.job p).synced s.base.disk)
    reapplied := true
    reconciled := fun _ => false }

/-- The state while task `t` reconciles node `n`. -/
def reconciling (s : Restorable cfg ν τ) (t : τ) (n : ν) (point : ReconcilePoint)
    (loaded : DirName → Files) : Restorable cfg ν τ :=
  { s with
    base := { s.base with
      node := Function.update s.base.node n { s.base.node n with loaded }
      task := Function.update s.base.task t (.reconcile n point) } }

/-- The state once it has reloaded. -/
def followed (p : ManagedPrefix) (s : Restorable cfg ν τ) (n : ν) : Restorable cfg ν τ :=
  { s with
    base := { s.base with
      node := Function.update s.base.node n
        { loaded := managedSet p s.base.disk, marker := some s.base.version } }
    reconciled := fun m => s.reconciled m || some n == some m }

/-- An action that neither takes the lock nor commits nor ends a reconcile. -/
private theorem next_plain {t : τ} {answer : CommandResult} {base : Cluster cfg ν τ}
    (takes : s.base.takesLock (.act t answer) = false)
    (commits : s.base.commits (.act t answer) = none)
    (reconciles : s.base.reconciles (.act t answer) = none) :
    s.next p (.act t answer) base =
      { s with base, shared := if base.lock.isNone then managedSet p base.disk else s.shared } := by
  simp [next, takes, commits, reconciles]

/-- A task loads the database. -/
private theorem reaches_waiting (t : τ) (n : ν) {c : Call cfg} (quiet : s.Quiet p)
    (options : c.options = haOptions p) (loaded : loadDesiredState cfg s.db = .ok c.state) :
    s.SoloRun p strict { s with
      base := s.base.setTask t (.apply n c .waiting)
      since := Function.update s.since t s.writes } := by
  let s₁ : Restorable cfg ν τ := { s with queued := s.queued + 1 }
  let s₂ : Restorable cfg ν τ := { s₁ with
    queued := s₁.queued - 1
    loading := Function.update s₁.loading t (some s₁.writes) }
  have run₁ : s.SoloRun p strict s₁ :=
    Reaches.tail (Reaches.refl ..) (e := .enqueue) ⟨fun _ => trivial, .enqueue⟩
  have run₂ : s.SoloRun p strict s₂ := run₁.tail (e := .load t)
    ⟨fun _ => trivial, .load (quiet.idle t) (quiet.unloading t) (Nat.succ_pos _)⟩
  have loading : s₂.loading t = some s.writes := Function.update_self ..
  have run₃ := run₂.tail (e := .action (.startApply t n c))
    ⟨fun _ => ⟨trivial, trivial, trivial, trivial⟩,
      .action ⟨s.writes, loading, fun _ => loaded⟩ (Cluster.Step.startApply (quiet.idle t) options)⟩
  convert run₃ using 1
  have back : Function.update s.loading t none = s.loading := by
    rw [← quiet.unloading t]
    exact Function.update_eq_self ..
  simp [next, s₁, s₂, Cluster.takesLock, Cluster.commits, Cluster.reconciles, quiet.unlocked,
    quiet.rest, Cluster.setTask, back]

omit [DecidableEq ν] [DecidableEq τ] in
/-- An action inside `apply_config` meets the condition, if it compares with clean files. -/
private theorem keeps_work {t : τ} {n : ν} {c : Call cfg} {phase : Phase} {reloaded : Bool}
    {answer : CommandResult} (here : s.base.task t = .apply n c (.inside phase reloaded))
    (running : phase.isDone = false)
    (compares : phase = .entered → ∀ d, CleanFiles (managedSet p s.base.disk d)) :
    s.Keeps p (.action (.act t answer)) := by
  refine ⟨?_, ⟨?_, ?_⟩, ?_, ?_⟩
  · intro m c' result there
    cases here.symm.trans there
    cases running
  · intro m c' reloaded' there
    cases here.symm.trans there
    exact compares rfl
  · intro m v there
    cases here.symm.trans there
  · intro m c' there
    cases here.symm.trans there
  · intro m c' result reloaded' there
    cases here.symm.trans there
    cases running

omit [DecidableEq ν] [DecidableEq τ] in
/-- So does a commit above every claim, and what a task does that has left the lock. -/
private theorem keeps_after {t : τ} {answer : CommandResult}
    (after : (∃ n c v, s.base.task t = .apply n c (.committed v)) ∨
      (∃ n c result, s.base.task t = .apply n c (.inside (.done result) true)) ∧
        ∀ m v, s.base.Claims m v → v ≤ s.base.version) :
    s.Keeps p (.action (.act t answer)) := by
  refine ⟨?_, ⟨?_, ?_⟩, ?_, ?_⟩
  · intro m c' result there
    rcases after with ⟨n, c, v, here⟩ | ⟨⟨n, c, result, here⟩, _⟩ <;> cases here.symm.trans there
  · intro m c' reloaded' there
    rcases after with ⟨n, c, v, here⟩ | ⟨⟨n, c, result, here⟩, _⟩ <;> cases here.symm.trans there
  · intro m v there
    rcases after with ⟨n, c, v, here⟩ | ⟨⟨n, c, result, here⟩, _⟩ <;> cases here.symm.trans there
  · intro m c' there
    rcases after with ⟨n, c, v, here⟩ | ⟨⟨n, c, result, here⟩, _⟩ <;> cases here.symm.trans there
  · intro m c' result reloaded' there _
    rcases after with ⟨n, c, v, here⟩ | ⟨_, above⟩
    · cases here.symm.trans there
    · exact above

/-- One action of a call. -/
private theorem applying_step {t : τ} {n : ν} {c : Call cfg} {r r' : Running} {reloaded : Bool}
    {answer : CommandResult} (moved : callStep (c.job p) r answer r')
    (compares : strict → r.phase = .entered → ∀ d, CleanFiles (managedSet p r.disk d)) :
    Guarded (fun s e => strict → s.Keeps p e) (Step p) (s.applying t n c r reloaded)
      (.action (.act t answer)) (s.applying t n c r'
        (reloaded || (r.phase.next (c.job p) answer r.disk).loads)) := by
  obtain ⟨running, rfl⟩ := moved
  have here : (s.applying t n c r reloaded).base.task t = .apply n c (.inside r.phase reloaded) :=
    Function.update_self ..
  refine ⟨fun must => keeps_work here running (compares must), ?_⟩
  have acts : (s.applying t n c r reloaded).base.Step p (.act t answer) _ :=
    Cluster.Step.work here running
  have commits : (s.applying t n c r reloaded).base.commits (.act t answer) = none := by
    simp only [Cluster.commits, here]
    cases known : r.phase with
    | done result =>
      rw [known] at running
      cases running
    | _ => rfl
  convert Step.action (e := .act t answer) trivial acts using 1
  rw [next_plain (by simp only [Cluster.takesLock, here]) commits
    (by simp only [Cluster.reconciles, here])]
  simp [applying, Cluster.work, Running.after, Cluster.workLoads, Cluster.setTask,
    Cluster.setLoaded]

/-- From the lock to the end of a call that is accepted. -/
private theorem reaches_returned {t : τ} {n : ν} {c : Call cfg}
    (clean : strict → ∀ d, CleanFiles (managedSet p s.base.disk d))
    (differs : ¬∀ d ∈ (c.job p).dirs, (c.job p).desired d =
      readTargets (c.job p).pre s.base.disk d) :
    ∃ result, result.changed = true ∧ result.rolledBack = false ∧
      (s.applying t n c ⟨.entered, s.base.disk, (s.base.node n).loaded⟩ false).SoloRun p strict
        (s.applying t n c ⟨.done result, (c.job p).synced s.base.disk,
          managedSet p ((c.job p).synced s.base.disk)⟩ true) := by
  -- the run of the call alone, simulated action by action
  obtain ⟨result, changed, kept, run⟩ := run_accepted differs (s.base.node n).loaded
  refine ⟨result, changed, kept, ?_⟩
  let follows (r : Running) (u : Restorable cfg ν τ) : Prop :=
    (r.phase = .entered → strict → ∀ d, CleanFiles (managedSet p r.disk d)) ∧
    ∃ reloaded, u = s.applying t n c r reloaded ∧
      ∀ result, r.phase = .done result → result.changed = true → reloaded = true
  have simulates : ∀ r answer r' u, follows r u →
      Guarded (fun _ answer => answer.ok = true) (callStep (c.job p)) r answer r' →
      ∃ e v, Guarded (fun s e => strict → s.Keeps p e) (Step p) u e v ∧ follows r' v := by
    rintro r answer r' u ⟨compares, reloaded, rfl, _⟩ ⟨_, moved⟩
    refine ⟨_, _, applying_step moved fun must entered => compares entered must, ?_, _, rfl, ?_⟩
    · obtain ⟨_, rfl⟩ := moved
      exact fun again => absurd again Phase.next_ne_entered
    · obtain ⟨running, rfl⟩ := moved
      intro result ends changed
      rw [Phase.loads_of_changed running ends changed, Bool.or_true]
  obtain ⟨u, reached, _, reloaded, rfl, truly⟩ := run.simulate (R := follows) simulates
    ⟨fun _ => clean, false, rfl, fun _ ends => by cases ends⟩
  rw [truly result rfl changed] at reached
  exact reached

/-- A waiting task takes the lock. -/
private theorem reaches_entered (t : τ) (n : ν) {c : Call cfg} (quiet : s.Quiet p)
    (inOrder : ∀ last, s.entered = some last → last ≤ s.writes) :
    ({ s with
      base := s.base.setTask t (.apply n c .waiting)
      since := Function.update s.since t s.writes } : Restorable cfg ν τ).SoloRun p strict
      (s.applying t n c ⟨.entered, s.base.disk, (s.base.node n).loaded⟩ false) := by
  let waits : Restorable cfg ν τ := { s with
    base := s.base.setTask t (.apply n c .waiting)
    since := Function.update s.since t s.writes }
  have here : waits.base.task t = .apply n c .waiting := Function.update_self ..
  have keeps : waits.Keeps p (.action (.act t { ok := true })) := by
    refine ⟨?_, ⟨?_, ?_⟩, ?_, ?_⟩
    · intro m c' result there
      cases here.symm.trans there
    · intro m c' reloaded there
      cases here.symm.trans there
    · intro m v there
      cases here.symm.trans there
    · intro _ _ _ last same
      have since : waits.since t = s.writes := Function.update_self ..
      rw [since]
      exact inOrder last same
    · intro m c' result reloaded there
      cases here.symm.trans there
  have acts : waits.base.Step p (.act t { ok := true }) _ := Cluster.Step.enter here quiet.unlocked
  refine Reaches.tail (Reaches.refl ..) (e := .action (.act t { ok := true })) ⟨fun _ => keeps, ?_⟩
  convert Step.action (e := .act t { ok := true }) trivial acts using 1
  simp [next, waits, applying, Cluster.takesLock, Cluster.commits, Cluster.reconciles,
    Cluster.setTask, ClusterEvent.task]

/-- The commit, and the marker. -/
private theorem reaches_marked {t : τ} {n : ν} {c : Call cfg} {result : ApplyResult}
    (quiet : s.Quiet p) (changed : result.changed = true) (kept : result.rolledBack = false)
    (above : strict → ∀ m v, s.base.Claims m v → v ≤ s.base.version) :
    (s.applying t n c ⟨.done result, (c.job p).synced s.base.disk,
      managedSet p ((c.job p).synced s.base.disk)⟩ true).SoloRun p strict (s.applied p t n c) := by
  let returned := s.applying t n c ⟨.done result, (c.job p).synced s.base.disk,
    managedSet p ((c.job p).synced s.base.disk)⟩ true
  have here : returned.base.task t = .apply n c (.inside (.done result) true) :=
    Function.update_self ..
  -- the returned call claims nothing yet
  have same : ∀ m v, returned.base.Claims m v → s.base.Claims m v := by
    rintro m v (marked | ⟨u, carries⟩)
    · left
      simp only [returned, applying, Function.update_apply] at marked
      split at marked
      next same =>
        rw [same]
        exact marked
      next => exact marked
    · by_cases acting : u = t
      · subst acting
        rcases carries with ⟨_, there⟩ | there <;> cases here.symm.trans there
      · simp only [returned, applying, Function.update_of_ne acting] at carries
        exact Or.inr ⟨u, carries⟩
  have commits : returned.base.Step p (.act t { ok := true }) _ :=
    Cluster.Step.commitChanged here changed
  -- the version is out, and the marker still to be written
  let published : Restorable cfg ν τ := { s.applied p t n c with
    base := { (s.applied p t n c).base with
      node := Function.update s.base.node n
        { s.base.node n with loaded := managedSet p ((c.job p).synced s.base.disk) }
      task := Function.update s.base.task t (.apply n c (.committed (s.base.version + 1))) } }
  have first : returned.SoloRun p strict published := by
    refine Reaches.tail (Reaches.refl ..) (e := .action (.act t { ok := true }))
      ⟨fun must => ?_, ?_⟩
    · exact keeps_after (Or.inr ⟨⟨n, c, result, here⟩,
        fun m v claims => above must m v (same m v claims)⟩)
    · convert Step.action (e := .act t { ok := true }) trivial commits using 1
      have since : returned.since t = returned.writes := Function.update_self ..
      simp only [next, Cluster.takesLock, Cluster.commits, Cluster.reconciles, here,
        ClusterEvent.task, since]
      simp [published, applied, returned, applying, bumpConfigVersion_eq, Cluster.version,
        Cluster.setTask, quiet.unlocked, changed, kept]
  have there : published.base.task t = .apply n c (.committed (s.base.version + 1)) :=
    Function.update_self ..
  have marks : published.base.Step p (.act t { ok := true }) _ := Cluster.Step.mark there
  refine first.tail (e := .action (.act t { ok := true })) ⟨fun _ => ?_, ?_⟩
  · exact keeps_after (Or.inl ⟨n, c, _, there⟩)
  · convert Step.action (e := .act t { ok := true }) trivial marks using 1
    have idle : Function.update s.base.task t .idle = s.base.task := by
      rw [← quiet.idle t]
      exact Function.update_eq_self ..
    rw [next_plain (by simp only [Cluster.takesLock, there]) (by simp only [Cluster.commits, there])
      (by simp only [Cluster.reconciles, there])]
    simp [published, applied, Cluster.setMarker, Cluster.setTask, idle, quiet.unlocked]

/-- An apply that finds a difference, from its load to its marker. -/
theorem reaches_applied (t : τ) (n : ν) {c : Call cfg} (quiet : s.Quiet p)
    (options : c.options = haOptions p) (loaded : loadDesiredState cfg s.db = .ok c.state)
    (inOrder : ∀ last, s.entered = some last → last ≤ s.writes)
    (clean : strict → ∀ d, CleanFiles (managedSet p s.base.disk d))
    (above : strict → ∀ m v, s.base.Claims m v → v ≤ s.base.version)
    (differs : ¬∀ d ∈ (c.job p).dirs, (c.job p).desired d =
      readTargets (c.job p).pre s.base.disk d) :
    s.SoloRun p strict (s.applied p t n c) := by
  have waiting : s.SoloRun p strict _ := reaches_waiting t n quiet options loaded
  have entered := Reaches.trans waiting (reaches_entered t n quiet inOrder)
  obtain ⟨result, changed, kept, returned⟩ := reaches_returned (t := t) (n := n) clean differs
  exact Reaches.trans (Reaches.trans entered returned) (reaches_marked quiet changed kept above)

/-- An action of a reconcile meets the condition while no other task is under way. -/
private theorem keeps_reconciling {t : τ} {n : ν} {point : ReconcilePoint}
    {loaded : DirName → Files} {answer : CommandResult} (quiet : s.Quiet p) :
    (s.reconciling t n point loaded).Keeps p (.action (.act t answer)) := by
  have here : (s.reconciling t n point loaded).base.task t = .reconcile n point :=
    Function.update_self ..
  refine ⟨?_, ⟨?_, ?_⟩, ?_, ?_⟩
  · intro m c result there
    cases here.symm.trans there
  · intro m c reloaded there
    cases here.symm.trans there
  · intro m v _ _ u m' c phase reloaded inside
    simp only [reconciling, Function.update_apply, quiet.idle] at inside
    split at inside <;> cases inside
  · intro m c there
    cases here.symm.trans there
  · intro m c result reloaded there
    cases here.symm.trans there

/-- An action that moves a reconcile on. -/
private theorem reconciling_step {t : τ} {n : ν} {point next : ReconcilePoint}
    {loaded loaded' : DirName → Files} (quiet : s.Quiet p)
    (goes : (s.reconciling t n point loaded).base.Step p (.act t { ok := true })
      (s.reconciling t n next loaded').base)
    (quietly : (s.reconciling t n point loaded).base.reconciles (.act t { ok := true }) = none) :
    (s.reconciling t n point loaded).SoloRun p strict (s.reconciling t n next loaded') := by
  have here : (s.reconciling t n point loaded).base.task t = .reconcile n point :=
    Function.update_self ..
  refine Reaches.tail (Reaches.refl ..) (e := .action (.act t { ok := true }))
    ⟨fun _ => keeps_reconciling quiet, ?_⟩
  convert Step.action (e := .act t { ok := true }) trivial goes using 1
  rw [next_plain (by simp only [Cluster.takesLock, here]) (by simp only [Cluster.commits, here])
    quietly]
  simp [reconciling, quiet.unlocked, quiet.rest]

/-- A reconcile of a node that is behind, from its start to its marker. -/
theorem reaches_followed (t : τ) {n : ν} (quiet : s.Quiet p)
    (behind : readLocalVersion (s.base.node n).marker < s.base.version) :
    s.SoloRun p strict (s.followed p n) := by
  let point (x : ReconcilePoint) := s.reconciling t n x (s.base.node n).loaded
  let version := s.base.version
  have ok : ({ ok := true } : CommandResult).ok = true := rfl
  have here (x : ReconcilePoint) (loaded : DirName → Files) :
      (s.reconciling t n x loaded).base.task t = .reconcile n x := Function.update_self ..
  -- from point to point: each action but the last leaves the markers
  have started : s.SoloRun p strict (point .starting) := by
    refine Reaches.tail (Reaches.refl ..) (e := .action (.startReconcile t n))
      ⟨fun _ => ⟨trivial, trivial, trivial, trivial⟩, ?_⟩
    convert Step.action (e := .startReconcile t n) (quiet.unloading t)
      (Cluster.Step.startReconcile (quiet.idle t)) using 1
    simp [next, point, reconciling, Cluster.takesLock, Cluster.commits, Cluster.reconciles,
      Cluster.setTask, quiet.unlocked, quiet.rest]
  have reads : (point .starting).SoloRun p strict (point (.read version)) := by
    refine reconciling_step quiet ?_ (by simp only [Cluster.reconciles, here])
    convert Cluster.Step.readVersion (here .starting _) using 1
    simp [reconciling, Cluster.setTask, version, Cluster.version]
  have newer : (point (.read version)).SoloRun p strict (point (.testing version)) := by
    have marker : ((point (.read version)).base.node n).marker = (s.base.node n).marker := by
      simp [point, reconciling]
    refine reconciling_step quiet ?_ ?_
    · convert Cluster.Step.newer (here (.read version) _) (marker ▸ behind) using 1
      simp [reconciling, Cluster.setTask]
    · simp only [Cluster.reconciles, here]
      exact if_neg fun reached => absurd reached.2 (Int.not_le.mpr (marker ▸ behind))
  have tested : (point (.testing version)).SoloRun p strict (point (.reloading version)) := by
    refine reconciling_step quiet ?_ (by simp only [Cluster.reconciles, here])
    convert Cluster.Step.testOk (here (.testing version) _) ok using 1
    simp [reconciling, Cluster.setTask]
  have reloaded : (point (.reloading version)).SoloRun p strict
      (s.reconciling t n (.reloaded version) (managedSet p s.base.disk)) := by
    refine reconciling_step quiet ?_ (by simp only [Cluster.reconciles, here])
    convert Cluster.Step.reloadOk (here (.reloading version) _) ok using 1
    simp [reconciling, Cluster.setTask, Cluster.setLoaded]
  have recorded : (s.reconciling t n (.reloaded version)
      (managedSet p s.base.disk)).SoloRun p strict (s.followed p n) := by
    have there := here (.reloaded version) (managedSet p s.base.disk)
    refine Reaches.tail (Reaches.refl ..) (e := .action (.act t { ok := true }))
      ⟨fun _ => keeps_reconciling quiet, ?_⟩
    convert Step.action (e := .act t { ok := true }) trivial (Cluster.Step.record there) using 1
    have idle : Function.update s.base.task t .idle = s.base.task := by
      rw [← quiet.idle t]
      exact Function.update_eq_self ..
    simp only [next, Cluster.takesLock, Cluster.commits, Cluster.reconciles, there]
    simp [followed, reconciling, Cluster.setMarker, Cluster.setTask, idle, quiet.unlocked,
      quiet.rest, version, Cluster.version]
  exact Reaches.trans (Reaches.trans (Reaches.trans started reads) (Reaches.trans newer tested))
    (Reaches.trans reloaded recorded)

theorem quiet_applied {t : τ} {n : ν} {c : Call cfg} (quiet : s.Quiet p) :
    (s.applied p t n c).Quiet p :=
  ⟨quiet.idle, quiet.unloading, quiet.unlocked, rfl⟩

omit [DecidableEq τ] in
theorem quiet_followed {n : ν} (quiet : s.Quiet p) : (s.followed p n).Quiet p :=
  ⟨quiet.idle, quiet.unloading, quiet.unlocked, quiet.rest⟩

omit [DecidableEq ν] [DecidableEq τ] in
theorem quiet_restored {archive : Archive} (quiet : s.Quiet p) : (s.restored archive).Quiet p :=
  ⟨quiet.idle, quiet.unloading, quiet.unlocked, quiet.rest⟩

omit [DecidableEq ν] [DecidableEq τ] in
/-- Where no task runs a claim is a marker. -/
theorem claims_of_quiet (quiet : s.Quiet p) {n : ν} {v : Nat} (claims : s.base.Claims n v) :
    (s.base.node n).marker = some v := by
  rcases claims with marked | ⟨t, ⟨c, here⟩ | here⟩
  · exact marked
  · cases (quiet.idle t).symm.trans here
  · cases (quiet.idle t).symm.trans here

end Solo

end Restorable

/-! ### Two nodes, one restore -/

/-- Two nodes and two tasks, an empty database, an empty disk and version `0`. -/
def sampleRestorable : Restorable sampleDeployment Bool Bool :=
  Restorable.start defaultPrefix {} (fun _ => ∅) (some 0)

/-- The state once the first node has applied the empty database and the second has reconciled. -/
def sampleInStep (c : Call sampleDeployment) : Restorable sampleDeployment Bool Bool :=
  (sampleRestorable.applied defaultPrefix false false c).followed defaultPrefix true

private theorem quiet_sample : sampleRestorable.Quiet defaultPrefix :=
  ⟨fun _ => rfl, fun _ => rfl, rfl, rfl⟩

private theorem quiet_sampleInStep (c : Call sampleDeployment) :
    (sampleInStep c).Quiet defaultPrefix :=
  Restorable.quiet_followed (Restorable.quiet_applied quiet_sample)

/-- Both nodes stand at version `1`. -/
private theorem claims_sampleInStep {c : Call sampleDeployment} {n : Bool} {v : Nat}
    (claims : (sampleInStep c).base.Claims n v) : v = 1 := by
  have marked := Restorable.claims_of_quiet (quiet_sampleInStep c) claims
  cases n <;> cases marked <;> rfl

private theorem reaches_sampleInStep {c : Call sampleDeployment}
    (options : c.options = haOptions defaultPrefix) (state : c.state = {})
    (differs : ¬∀ d ∈ (c.job defaultPrefix).dirs, (c.job defaultPrefix).desired d =
      readTargets (c.job defaultPrefix).pre (fun _ => ∅) d) :
    sampleRestorable.SoloRun defaultPrefix True (sampleInStep c) := by
  have loaded : loadDesiredState sampleDeployment sampleRestorable.db = .ok c.state := by
    rw [state]
    rfl
  have none : ∀ m v, sampleRestorable.base.Claims m v → v ≤ sampleRestorable.base.version := by
    intro m v claims
    cases Restorable.claims_of_quiet quiet_sample claims
  have applied : sampleRestorable.SoloRun defaultPrefix True _ :=
    Restorable.reaches_applied false false quiet_sample options loaded (fun _ same => by cases same)
      (fun _ => clean_noFiles _) (fun _ => none) differs
  have behind : unknownLocalVersion < ((0 + 1 : Nat) : Int) := by decide
  exact Reaches.trans applied
    (Restorable.reaches_followed true (Restorable.quiet_applied quiet_sample) behind)

/-- A backup of version `1` is restored and its apply changes the files: the peer is behind,
reconciles, and runs what the restored database renders to. -/
theorem peers_follow_restored : ∃ s₀ s : Restorable sampleDeployment Bool Bool,
    (s₀.restored ⟨deadHostDb, some 1⟩).KeptRun defaultPrefix s ∧ s.base.lock = none ∧
    s.reconciled true = true ∧ (s.base.node true).marker = some s.base.version ∧
    (s.base.node true).loaded = managedSet defaultPrefix s.base.disk ∧
    s.RunsRestored defaultPrefix ⟨deadHostDb, some 1⟩ := by
  obtain ⟨empty, emptyOptions, emptyState, clean, emptyDiffers⟩ := sampleApply
  obtain ⟨host, hostOptions, hostLoaded, content, present⟩ := deadHostCall
  have hostDiffers := deadHost_differs hostOptions emptyOptions emptyState present
  have cleanDisk : ∀ d, CleanFiles
      (managedSet defaultPrefix ((empty.job defaultPrefix).synced fun _ => ∅) d) :=
    clean_synced empty (clean_noFiles _) clean
  let s₀ := sampleInStep empty
  let archive : Archive := ⟨deadHostDb, some 1⟩
  let quiet : (s₀.restored archive).Quiet defaultPrefix :=
    Restorable.quiet_restored (quiet_sampleInStep empty)
  have kept {s s' : Restorable sampleDeployment Bool Bool}
      (run : s.SoloRun defaultPrefix True s') : s.KeptRun defaultPrefix s' :=
    run.mono fun _ _ _ moved => ⟨moved.1 trivial, moved.2⟩
  have before : sampleRestorable.KeptRun defaultPrefix s₀ :=
    kept (reaches_sampleInStep emptyOptions emptyState emptyDiffers)
  -- the archive stands at the version of the cluster, and so do both markers
  have keeps : s₀.Keeps defaultPrefix (.restore archive) := fun _ _ _ reached => reached
  have above : ∀ m v, (s₀.restored archive).base.Claims m v → v ≤ 1 := fun m v claims =>
    Nat.le_of_eq (claims_sampleInStep (c := empty) claims)
  have applied : (s₀.restored archive).SoloRun defaultPrefix True _ :=
    Restorable.reaches_applied false false quiet hostOptions hostLoaded
      (fun _ same => by cases same; exact Nat.zero_le _) (fun _ => cleanDisk) (fun _ => above)
      hostDiffers
  -- the apply of the restored database has published version 2
  have behind : ((1 : Nat) : Int) < ((1 + 1 : Nat) : Int) := by decide
  have followed : (s₀.restored archive).SoloRun defaultPrefix True _ := Reaches.trans applied
    (Restorable.reaches_followed (n := true) true (Restorable.quiet_applied quiet) behind)
  have restored : sampleRestorable.KeptRun defaultPrefix (s₀.restored archive) :=
    before.tail ⟨keeps, .restore⟩
  obtain ⟨peers, _, restores⟩ := Restorable.peers_follow (Reaches.trans restored (kept followed))
  refine ⟨s₀, _, kept followed, rfl, rfl, rfl, peers rfl true (Int.le_refl _), ?_⟩
  exact restores s₀ archive before keeps (kept followed) rfl rfl rfl

/-- A backup from before the first apply is restored, and its apply brings the version back to
where the marker of the peer stands: the peer takes itself to be current and keeps running
the files of the replaced database. -/
theorem peer_stranded : ∃ s : Restorable sampleDeployment Bool Bool,
    Reaches (Restorable.Step defaultPrefix) sampleRestorable s ∧ s.Quiet defaultPrefix ∧
    (s.base.version : Int) ≤ readLocalVersion (s.base.node true).marker ∧
    (s.base.node true).loaded ≠ managedSet defaultPrefix s.base.disk := by
  obtain ⟨empty, emptyOptions, emptyState, clean, emptyDiffers⟩ := sampleApply
  obtain ⟨host, hostOptions, hostLoaded, content, present⟩ := deadHostCall
  have hostDiffers := deadHost_differs hostOptions emptyOptions emptyState present
  let start : Disk := (empty.job defaultPrefix).synced fun _ => ∅
  have cleanDisk : ∀ d, CleanFiles (managedSet defaultPrefix start d) :=
    clean_synced empty (clean_noFiles _) clean
  let s₀ := sampleInStep empty
  let archive : Archive := ⟨deadHostDb, some 0⟩
  let quiet : (s₀.restored archive).Quiet defaultPrefix :=
    Restorable.quiet_restored (quiet_sampleInStep empty)
  have before := (reaches_sampleInStep emptyOptions emptyState emptyDiffers).of_guarded
  have applied : (s₀.restored archive).SoloRun defaultPrefix False _ :=
    Restorable.reaches_applied false false quiet hostOptions hostLoaded
      (fun _ same => by cases same; exact Nat.zero_le _) (fun no => no.elim) (fun no => no.elim)
      hostDiffers
  refine ⟨_, Reaches.trans (before.tail (e := .restore archive) .restore) applied.of_guarded,
    Restorable.quiet_applied quiet, Int.le_refl _, ?_⟩
  -- the peer runs what the empty database renders to, and the host is not in it
  intro same
  apply hostDiffers
  intro d target
  have synced := (host.job defaultPrefix).managedFiles_synced start target
  have onDisk : managedFiles (host.job defaultPrefix).pre (start d) =
      (host.job defaultPrefix).desired d := (congrFun same d).trans synced
  exact onDisk.symm.trans (readManaged_of_clean (cleanDisk d)).symm

end MegooPM
