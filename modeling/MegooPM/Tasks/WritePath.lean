import MegooPM.Nginx.Settled
import MegooPM.Nginx.Loader
import Mathlib.Logic.Function.Basic

/-!
# From a commit to the disk

Every commit of the API is followed by one `reload_nginx_config` task. A task loads the
desired state first and takes the lock afterwards (`_apply_single_host` and `_apply_ha`
alike), so two tasks can write in the other order than they have loaded, and the files
of an older state stay. As long as no task takes the lock with a state that is older
than the one last applied, the disk ends up as the rendering of the last commit.
-/
namespace MegooPM

open Lib

/-- Where a run of `reload_nginx_config` stands; `since` is the number of commits when it
began to load. -/
inductive ReloadTask (cfg : Deployment) where
  | idle
  | loading (since : Nat)
  | waiting (since : Nat) (c : Call cfg)
  | inside (since : Nat) (c : Call cfg) (phase : Phase)

/-- The database, the queue, the workers and the shared files. -/
structure WritePath (cfg : Deployment) (τ : Type) where
  db : Database
  commits : Nat
  /-- commits whose task is not enqueued yet -/
  owed : Nat
  queued : Nat
  lock : Option τ
  disk : Disk
  task : τ → ReloadTask cfg
  /-- the `since` of the last task that took the lock -/
  applied : Option Nat

inductive WriteEvent (cfg : Deployment) (τ : Type) where
  | commit (db : Database)
  | enqueue
  | begin (t : τ)
  | load (t : τ) (c : Call cfg)
  | enter (t : τ)
  | act (t : τ) (answer : CommandResult)
  | finish (t : τ)

/-- The arguments of the task's call; a single host takes the `flock`, an HA node has the
advisory lock. -/
def taskOptions (p : ManagedPrefix) (ownLock : Bool) : ApplyOptions :=
  { managedPrefix := p.text, ownLock := ownLock }

namespace WritePath

variable {cfg : Deployment} {τ : Type} [DecidableEq τ]

def setTask (s : WritePath cfg τ) (t : τ) (x : ReloadTask cfg) : WritePath cfg τ :=
  { s with task := Function.update s.task t x }

/-- What can happen. A load that no commit overlaps returns the state of the database; the
queries of one that a commit overlaps may see both, so nothing is said of its result. -/
inductive Step (p : ManagedPrefix) (ownLock : Bool) :
    WritePath cfg τ → WriteEvent cfg τ → WritePath cfg τ → Prop
  | commit {s db} :
    Step p ownLock s (.commit db) { s with db, commits := s.commits + 1, owed := s.owed + 1 }
  | enqueue {s} (due : 0 < s.owed) :
    Step p ownLock s .enqueue { s with owed := s.owed - 1, queued := s.queued + 1 }
  | begin {s t} (free : s.task t = .idle) (any : 0 < s.queued) :
    Step p ownLock s (.begin t)
      ({ s with queued := s.queued - 1 }.setTask t (.loading s.commits))
  | load {s t since c} (here : s.task t = .loading since)
      (options : c.options = taskOptions p ownLock)
      (loaded : since = s.commits → loadDesiredState cfg s.db = .ok c.state) :
    Step p ownLock s (.load t c) (s.setTask t (.waiting since c))
  | enter {s t since c} (here : s.task t = .waiting since c) (free : s.lock = none) :
    Step p ownLock s (.enter t)
      ({ s with
        lock := some t
        disk := if ownLock then openLock s.disk else s.disk
        applied := some since }.setTask t (.inside since c .entered))
  | act {s t since c phase answer} (here : s.task t = .inside since c phase)
      (running : phase.isDone = false) :
    Step p ownLock s (.act t answer)
      ({ s with disk := (phase.next (c.job p) answer s.disk).disk }.setTask t
        (.inside since c (phase.next (c.job p) answer s.disk).phase))
  | finish {s t since c result} (here : s.task t = .inside since c (.done result)) :
    Step p ownLock s (.finish t) ({ s with lock := none }.setTask t .idle)

/-- Nothing committed yet, nothing queued, no task running. -/
def start (db : Database) (disk : Disk) : WritePath cfg τ where
  db := db
  commits := 0
  owed := 0
  queued := 0
  lock := none
  disk := disk
  task := fun _ => .idle
  applied := none

/-- Every enqueued task has completed. -/
def Quiescent (s : WritePath cfg τ) : Prop :=
  s.owed = 0 ∧ s.queued = 0 ∧ ∀ t, s.task t = .idle

/-- The managed files are the rendering of the committed database. -/
def Consistent (p : ManagedPrefix) (ownLock : Bool) (s : WritePath cfg τ) : Prop :=
  ∃ state desired, loadDesiredState cfg s.db = .ok state ∧
    renderTargets cfg (taskOptions p ownLock) state = .ok desired ∧
    ∀ d, managedSet p s.disk d = desired d

/-- Every apply validates and reloads. -/
def Accepted (_ : WritePath cfg τ) : WriteEvent cfg τ → Prop
  | .act _ answer => answer.ok = true
  | _ => True

/-- No task takes the lock with a state loaded before the one last applied, and none compares
with a file that holds a carriage return. -/
def InOrder (p : ManagedPrefix) (s : WritePath cfg τ) : WriteEvent cfg τ → Prop
  | .enter t => ∀ since c, s.task t = .waiting since c →
      ∀ last, s.applied = some last → last ≤ since
  | .act t _ => ∀ since c, s.task t = .inside since c .entered →
      ∀ d, CleanFiles (managedSet p s.disk d)
  | _ => True

end WritePath

/-! ### An apply that succeeds -/

/-- The points of a call that does not come to a rollback. -/
def Phase.straight : Phase → Bool
  | .restoring _ _ _ _ | .reloadingAgain _ _ _ => false
  | .done result => !result.rolledBack
  | _ => true

theorem Phase.straight_next {job : Job} {answer : CommandResult} {disk : Disk} {phase : Phase}
    (straight : phase.straight = true) (ok : answer.ok = true) :
    (phase.next job answer disk).phase.straight = true := by
  cases phase with
  | entered =>
    simp only [Phase.next]
    split <;> rfl
  | compared currents => rfl
  | syncing currents todo => cases todo <;> rfl
  | testing currents =>
    simp only [Phase.next, ok, if_true]
    rfl
  | reloading currents test =>
    simp only [Phase.next, ok, if_true]
    rfl
  | restoring currents test reload todo => cases straight
  | reloadingAgain currents test reload => cases straight
  | done result => exact straight

/-- A call that returns without a rollback leaves its rendering. -/
theorem Phase.Tracks.desired {job : Job} {found disk : Disk} {result : ApplyResult}
    (tracks : (Phase.done result).Tracks job found disk) (kept : result.rolledBack = false)
    (clean : ∀ d, CleanFiles (managedSet job.managedPrefix found d)) {d : DirName}
    (target : d ∈ job.dirs) : managedSet job.managedPrefix disk d = job.desired d := by
  rcases tracks with ⟨_, _, rfl, same⟩ | ⟨_, back, _⟩ | ⟨_, _, rfl⟩
  · exact (readManaged_of_clean (clean d)).symm.trans (same d target).symm
  · rw [kept] at back
    cases back
  · exact job.managedFiles_synced found target

namespace WritePath

variable {cfg : Deployment} {τ : Type} [DecidableEq τ]

/-! ### The invariant -/

/-- What is known of a loaded state, given the database and the number of commits. -/
structure Loaded (p : ManagedPrefix) (ownLock : Bool) (db : Database) (commits since : Nat)
    (c : Call cfg) : Prop where
  seen : since ≤ commits
  options : c.options = taskOptions p ownLock
  current : since = commits → loadDesiredState cfg db = .ok c.state

def TaskOk (p : ManagedPrefix) (ownLock : Bool) (s : WritePath cfg τ) (t : τ) :
    ReloadTask cfg → Prop
  | .idle => True
  | .loading since => since ≤ s.commits
  | .waiting since c => Loaded p ownLock s.db s.commits since c
  | .inside since c phase =>
    s.lock = some t ∧ s.applied = some since ∧ Loaded p ownLock s.db s.commits since c ∧
    phase.straight = true ∧
    ∃ found, (phase ≠ .entered → ∀ d, CleanFiles (managedSet p found d)) ∧
      phase.Tracks (c.job p) found s.disk

/-- The disk holds the rendering of what was last applied. -/
def Rests (p : ManagedPrefix) (ownLock : Bool) (s : WritePath cfg τ) : Prop :=
  ∀ last, s.applied = some last →
    ∃ c : Call cfg, Loaded p ownLock s.db s.commits last c ∧ ∀ d, managedSet p s.disk d = c.desired d

/-- The last commit is applied, or some task will still apply it. -/
def Pending (s : WritePath cfg τ) : Prop :=
  s.commits = 0 ∨ s.applied = some s.commits ∨ 0 < s.owed ∨ 0 < s.queued ∨
  ∃ t, s.task t = .loading s.commits ∨ ∃ c, s.task t = .waiting s.commits c

structure Inv (p : ManagedPrefix) (ownLock : Bool) (s : WritePath cfg τ) : Prop where
  rest : s.lock = none → s.Rests p ownLock
  holder : ∀ t, s.lock = some t → ∃ since c phase, s.task t = .inside since c phase
  tasks : ∀ t, s.TaskOk p ownLock t (s.task t)
  pending : s.Pending

section Step

variable {p : ManagedPrefix} {ownLock : Bool} {s s' : WritePath cfg τ}

omit [DecidableEq τ] in
/-- A commit makes every loaded state an older one. -/
theorem Loaded.later {db : Database} {commits since : Nat} {c : Call cfg}
    (loaded : Loaded p ownLock db commits since c) (db' : Database) :
    Loaded p ownLock db' (commits + 1) since c where
  seen := Nat.le_succ_of_le loaded.seen
  options := loaded.options
  current := by
    intro now
    have seen := loaded.seen
    omega

omit [DecidableEq τ] in
/-- A task outside the lock is not concerned by what happens inside. -/
private theorem TaskOk.outside {t : τ} {x : ReloadTask cfg} (ok : s.TaskOk p ownLock t x)
    (outside : s.lock ≠ some t) (commits : s'.commits = s.commits) (db : s'.db = s.db) :
    s'.TaskOk p ownLock t x := by
  cases x with
  | idle => trivial
  | loading since =>
    show since ≤ s'.commits
    rw [commits]
    exact ok
  | waiting since c =>
    show Loaded p ownLock s'.db s'.commits since c
    rw [commits, db]
    exact ok
  | inside since c phase => exact absurd ok.1 outside

omit [DecidableEq τ] in
private theorem inv_commit (inv : s.Inv p ownLock) (db : Database) :
    Inv p ownLock { s with db, commits := s.commits + 1, owed := s.owed + 1 } where
  rest := by
    intro free since applied
    obtain ⟨c, loaded, same⟩ := inv.rest free since applied
    exact ⟨c, loaded.later db, same⟩
  holder := inv.holder
  tasks := by
    intro t
    have before := inv.tasks t
    simp only
    cases here : s.task t with
    | idle => trivial
    | loading since =>
      rw [here] at before
      exact Nat.le_succ_of_le before
    | waiting since c =>
      rw [here] at before
      exact Loaded.later before db
    | inside since c phase =>
      rw [here] at before
      obtain ⟨held, last, loaded, rest⟩ := before
      exact ⟨held, last, loaded.later db, rest⟩
  pending := Or.inr (Or.inr (Or.inl (Nat.succ_pos _)))

omit [DecidableEq τ] in
private theorem inv_enqueue (inv : s.Inv p ownLock) :
    Inv p ownLock { s with owed := s.owed - 1, queued := s.queued + 1 } where
  rest := inv.rest
  holder := inv.holder
  tasks := inv.tasks
  pending := Or.inr (Or.inr (Or.inr (Or.inl (Nat.succ_pos _))))

private theorem holder_setTask (inv : s.Inv p ownLock) {t : τ} {x : ReloadTask cfg}
    (outside : ∀ since c phase, s.task t ≠ .inside since c phase) (u : τ)
    (held : s.lock = some u) :
    ∃ since c phase, Function.update s.task t x u = .inside since c phase := by
  obtain ⟨since, c, phase, here⟩ := inv.holder u held
  have other : u ≠ t := by
    rintro rfl
    exact outside since c phase here
  exact ⟨since, c, phase, (Function.update_of_ne other _ _).trans here⟩

private theorem inv_begin (inv : s.Inv p ownLock) {t : τ} (free : s.task t = .idle) :
    Inv p ownLock ({ s with queued := s.queued - 1 }.setTask t (.loading s.commits)) where
  rest := inv.rest
  holder := holder_setTask inv (by simp [free])
  tasks := by
    intro u
    by_cases mine : u = t
    · subst mine
      simp only [setTask, Function.update_self]
      exact Nat.le_refl _
    · simp only [setTask, Function.update_of_ne mine]
      exact inv.tasks u
  pending := by
    -- the task just begun will load the last commit
    refine Or.inr (Or.inr (Or.inr (Or.inr ⟨t, Or.inl ?_⟩)))
    simp only [setTask, Function.update_self]

private theorem inv_load (inv : s.Inv p ownLock) {t : τ} {since : Nat} {c : Call cfg}
    (here : s.task t = .loading since) (options : c.options = taskOptions p ownLock)
    (current : since = s.commits → loadDesiredState cfg s.db = .ok c.state) :
    Inv p ownLock (s.setTask t (.waiting since c)) where
  rest := inv.rest
  holder := holder_setTask inv (by simp [here])
  tasks := by
    intro u
    by_cases mine : u = t
    · subst mine
      have seen := inv.tasks u
      rw [here] at seen
      simp only [setTask, Function.update_self]
      exact ⟨seen, options, current⟩
    · simp only [setTask, Function.update_of_ne mine]
      exact inv.tasks u
  pending := by
    rcases inv.pending with none | applied | owed | queued | ⟨u, carries⟩
    · exact Or.inl none
    · exact Or.inr (Or.inl applied)
    · exact Or.inr (Or.inr (Or.inl owed))
    · exact Or.inr (Or.inr (Or.inr (Or.inl queued)))
    · refine Or.inr (Or.inr (Or.inr (Or.inr ⟨u, ?_⟩)))
      by_cases mine : u = t
      · subst mine
        rcases carries with loading | ⟨c', waiting⟩
        · -- the task that loads the last commit now waits with it
          rw [here] at loading
          cases loading
          exact Or.inr ⟨c, Function.update_self ..⟩
        · rw [here] at waiting
          cases waiting
      · simp only [setTask, Function.update_of_ne mine]
        exact carries

private theorem inv_enter (inv : s.Inv p ownLock) {t : τ} {since : Nat} {c : Call cfg}
    (here : s.task t = .waiting since c) (free : s.lock = none)
    (inOrder : ∀ last, s.applied = some last → last ≤ since) :
    Inv p ownLock ({ s with
      lock := some t
      disk := if ownLock then openLock s.disk else s.disk
      applied := some since }.setTask t (.inside since c .entered)) where
  rest := by
    intro unlocked
    cases unlocked
  holder := by
    intro u held
    cases held
    exact ⟨since, c, .entered, Function.update_self ..⟩
  tasks := by
    intro u
    by_cases mine : u = t
    · subst mine
      have loaded := inv.tasks u
      rw [here] at loaded
      simp only [setTask, Function.update_self]
      exact ⟨rfl, rfl, loaded, rfl, _, fun past => absurd rfl past, rfl⟩
    · simp only [setTask, Function.update_of_ne mine]
      exact (inv.tasks u).outside (by simp [free]) rfl rfl
  pending := by
    have loaded := inv.tasks t
    rw [here] at loaded
    -- either this apply has seen the last commit, or whoever carries it goes on doing so
    by_cases latest : since = s.commits
    · exact Or.inr (Or.inl (congrArg some latest))
    rcases inv.pending with none | applied | owed | queued | ⟨u, carries⟩
    · exact Or.inl none
    · have behind := inOrder _ applied
      have seen := loaded.seen
      omega
    · exact Or.inr (Or.inr (Or.inl owed))
    · exact Or.inr (Or.inr (Or.inr (Or.inl queued)))
    · refine Or.inr (Or.inr (Or.inr (Or.inr ⟨u, ?_⟩)))
      have other : u ≠ t := by
        rintro rfl
        rcases carries with loading | ⟨c', waiting⟩
        · rw [here] at loading
          cases loading
        · rw [here] at waiting
          cases waiting
          exact latest rfl
      simp only [setTask, Function.update_of_ne other]
      exact carries

omit [DecidableEq τ] in
/-- A task inside the lock is none of those that still carry the last commit. -/
private theorem pending_inside (inv : s.Inv p ownLock) {t : τ} {since : Nat} {c : Call cfg}
    {phase : Phase} (here : s.task t = .inside since c phase) {task : τ → ReloadTask cfg}
    (others : ∀ u, u ≠ t → task u = s.task u) (lock : Option τ) (disk : Disk) :
    Pending { s with lock := lock, disk := disk, task := task } := by
  rcases inv.pending with none | applied | owed | queued | ⟨u, carries⟩
  · exact Or.inl none
  · exact Or.inr (Or.inl applied)
  · exact Or.inr (Or.inr (Or.inl owed))
  · exact Or.inr (Or.inr (Or.inr (Or.inl queued)))
  · refine Or.inr (Or.inr (Or.inr (Or.inr ⟨u, ?_⟩)))
    have other : u ≠ t := by
      rintro rfl
      rw [here] at carries
      rcases carries with loading | ⟨c', waiting⟩
      · cases loading
      · cases waiting
    simp only [others u other]
    exact carries

private theorem inv_act (inv : s.Inv p ownLock) {t : τ} {since : Nat} {c : Call cfg}
    {phase : Phase} {answer : CommandResult} (here : s.task t = .inside since c phase)
    (ok : answer.ok = true)
    (compares : phase = .entered → ∀ d, CleanFiles (managedSet p s.disk d)) :
    Inv p ownLock ({ s with disk := (phase.next (c.job p) answer s.disk).disk }.setTask t
      (.inside since c (phase.next (c.job p) answer s.disk).phase)) := by
  have mine := inv.tasks t
  rw [here] at mine
  obtain ⟨held, last, loaded, straight, found, clean, tracks⟩ := mine
  constructor
  · intro free
    cases held.symm.trans free
  · intro u theirs
    cases held.symm.trans theirs
    exact ⟨since, c, _, Function.update_self ..⟩
  · intro u
    by_cases same : u = t
    · subst same
      simp only [setTask, Function.update_self]
      have cleanFound : ∀ d, CleanFiles (managedSet p found d) := tracks.clean_next compares clean
      exact ⟨held, last, loaded, Phase.straight_next straight ok, found, fun _ => cleanFound,
        tracks.next answer⟩
    · simp only [setTask, Function.update_of_ne same]
      refine (inv.tasks u).outside ?_ rfl rfl
      rw [held]
      exact fun equal => same (Option.some.inj equal).symm
  · exact pending_inside inv here (fun u other => Function.update_of_ne other _ _) s.lock _

theorem mem_taskOptions (p : ManagedPrefix) (ownLock : Bool) (d : DirName) :
    d ∈ (taskOptions p ownLock).dirs := by
  cases d <;> simp [taskOptions, ApplyOptions.dirs]

private theorem inv_finish (inv : s.Inv p ownLock) {t : τ} {since : Nat} {c : Call cfg}
    {result : ApplyResult} (here : s.task t = .inside since c (.done result)) :
    Inv p ownLock ({ s with lock := none }.setTask t .idle) := by
  have mine := inv.tasks t
  rw [here] at mine
  obtain ⟨held, applied, loaded, straight, found, clean, tracks⟩ := mine
  constructor
  · intro _
    -- the call that ends here leaves its whole rendering
    have whole : ∀ d, managedSet p s.disk d = c.desired d := by
      intro d
      apply tracks.desired (by simpa [Phase.straight] using straight)
        (clean fun same => by cases same)
      show d ∈ c.options.dirs
      rw [loaded.options]
      exact mem_taskOptions p ownLock d
    intro last same
    cases applied.symm.trans same
    exact ⟨c, loaded, whole⟩
  · intro u taken
    cases taken
  · intro u
    by_cases same : u = t
    · subst same
      simp only [setTask, Function.update_self]
      trivial
    · simp only [setTask, Function.update_of_ne same]
      refine (inv.tasks u).outside ?_ rfl rfl
      rw [held]
      exact fun equal => same (Option.some.inj equal).symm
  · exact pending_inside inv here (fun u other => Function.update_of_ne other _ _) none s.disk

theorem inv_step {e : WriteEvent cfg τ} (inv : s.Inv p ownLock) (accepted : s.Accepted e)
    (inOrder : s.InOrder p e) (moved : s.Step p ownLock e s') : s'.Inv p ownLock := by
  cases moved with
  | commit => exact inv_commit inv _
  | enqueue due => exact inv_enqueue inv
  | begin free any => exact inv_begin inv free
  | load here options loaded => exact inv_load inv here options loaded
  | enter here free => exact inv_enter inv here free (inOrder _ _ here)
  | act here running =>
    refine inv_act inv here accepted ?_
    rintro rfl
    exact inOrder _ _ here
  | finish here => exact inv_finish inv here

end Step

omit [DecidableEq τ] in
theorem inv_start {p : ManagedPrefix} {ownLock : Bool} (db : Database) (disk : Disk) :
    (start db disk : WritePath cfg τ).Inv p ownLock where
  rest := fun _ _ applied => by cases applied
  holder := fun _ held => by cases held
  tasks := fun _ => trivial
  pending := Or.inl rfl

/-- In every run in which every apply succeeds, none takes the lock with an older state than
the one last applied and none compares with a file that holds a carriage return, once every
task has completed the disk is the rendering of the last commit. -/
theorem quiescent_consistent {p : ManagedPrefix} {ownLock : Bool} {db : Database} {disk : Disk}
    {s : WritePath cfg τ}
    (run : Reaches (Guarded (fun s e => s.Accepted e ∧ s.InOrder p e) (Step p ownLock))
      (start db disk) s)
    (written : 0 < s.commits) (quiescent : s.Quiescent) : s.Consistent p ownLock := by
  have inv : s.Inv p ownLock := by
    apply Reaches.invariant (P := fun s : WritePath cfg τ => s.Inv p ownLock) ?_
      (inv_start db disk) run
    intro s e s' before moved
    exact inv_step before moved.1.1 moved.1.2 moved.2
  obtain ⟨owed, queued, idle⟩ := quiescent
  have applied : s.applied = some s.commits := by
    rcases inv.pending with none | applied | due | any | ⟨t, loading | ⟨c, waiting⟩⟩
    · omega
    · exact applied
    · omega
    · omega
    · rw [idle t] at loading
      cases loading
    · rw [idle t] at waiting
      cases waiting
  have free : s.lock = none := by
    cases held : s.lock with
    | none => rfl
    | some t =>
      obtain ⟨since, c, phase, here⟩ := inv.holder t held
      rw [idle t] at here
      cases here
  obtain ⟨c, loaded, same⟩ := inv.rest free _ applied
  refine ⟨c.state, c.desired, loaded.current rfl, ?_, same⟩
  rw [← loaded.options]
  exact c.rendered

/-! ### Runs of one task -/

/-- Runs in which every apply succeeds; where `strict` holds, also in order. -/
abbrev TaskRun (p : ManagedPrefix) (strict : Prop) : WritePath cfg τ → WritePath cfg τ → Prop :=
  Reaches (Guarded (fun s e => s.Accepted e ∧ (strict → s.InOrder p e)) (Step p false))

section Runs

variable {p : ManagedPrefix} {strict : Prop} {s : WritePath cfg τ} {t : τ} {c : Call cfg}

/-- A commit, and a task that has loaded it. -/
theorem reaches_waiting (free : s.task t = .idle) {db : Database}
    (options : c.options = taskOptions p false)
    (loaded : loadDesiredState cfg db = .ok c.state) :
    s.TaskRun p strict ({ s with db := db, commits := s.commits + 1 }.setTask t
      (.waiting (s.commits + 1) c)) := by
  let s₁ : WritePath cfg τ := { s with db, commits := s.commits + 1, owed := s.owed + 1 }
  let s₂ : WritePath cfg τ := { s₁ with owed := s₁.owed - 1, queued := s₁.queued + 1 }
  let s₃ := { s₂ with queued := s₂.queued - 1 }.setTask t (.loading s₂.commits)
  have run₁ : s.TaskRun p strict s₁ :=
    Reaches.tail (Reaches.refl ..) (e := .commit db) ⟨⟨trivial, fun _ => trivial⟩, .commit⟩
  have run₂ : s.TaskRun p strict s₂ :=
    run₁.tail (e := .enqueue) ⟨⟨trivial, fun _ => trivial⟩, .enqueue (Nat.succ_pos _)⟩
  have run₃ : s.TaskRun p strict s₃ :=
    run₂.tail (e := .begin t) ⟨⟨trivial, fun _ => trivial⟩, .begin free (Nat.succ_pos _)⟩
  have here : s₃.task t = .loading (s.commits + 1) := Function.update_self ..
  have run₄ := run₃.tail (e := .load t c)
    ⟨⟨trivial, fun _ => trivial⟩, .load here options fun _ => loaded⟩
  have same : s₃.setTask t (.waiting (s.commits + 1) c) =
      { s with db := db, commits := s.commits + 1 }.setTask t (.waiting (s.commits + 1) c) := by
    simp [s₃, s₂, s₁, setTask]
  rwa [same] at run₄

/-- A waiting task takes the lock, finds a difference and is accepted. -/
theorem reaches_applied {since : Nat} (here : s.task t = .waiting since c) (free : s.lock = none)
    (inOrder : strict → ∀ last, s.applied = some last → last ≤ since)
    (clean : strict → ∀ d, CleanFiles (managedSet p s.disk d))
    (differs : ¬∀ d ∈ (c.job p).dirs, (c.job p).desired d = readTargets (c.job p).pre s.disk d) :
    s.TaskRun p strict ({ s with
      disk := (c.job p).synced s.disk
      applied := some since }.setTask t .idle) := by
  let inside (r : Running) : WritePath cfg τ :=
    { s with lock := some t, disk := r.disk, applied := some since }.setTask t (.inside since c r.phase)
  have entered : s.TaskRun p strict (inside ⟨.entered, s.disk, fun _ => ∅⟩) := by
    refine Reaches.tail (Reaches.refl ..) (e := .enter t) ⟨⟨trivial, fun must => ?_⟩, .enter here free⟩
    intro since' c' same
    cases here.symm.trans same
    exact inOrder must
  -- the call runs as if it were alone
  obtain ⟨result, _, _, run⟩ := run_accepted differs (fun _ => ∅)
  let follows (r : Running) (u : WritePath cfg τ) : Prop := u = inside r ∧
    (r.phase = .entered → strict → ∀ d, CleanFiles (managedSet p r.disk d))
  have simulates : ∀ r answer r' u, follows r u →
      Guarded (fun _ answer => answer.ok = true) (callStep (c.job p)) r answer r' →
      ∃ e v, Guarded (fun s e => s.Accepted e ∧ (strict → s.InOrder p e)) (Step p false) u e v ∧
        follows r' v := by
    rintro r answer r' u ⟨rfl, compares⟩ ⟨ok, running, rfl⟩
    have there : (inside r).task t = .inside since c r.phase := Function.update_self ..
    refine ⟨.act t answer, _, ⟨⟨ok, fun must since' c' entered => ?_⟩, .act there running⟩, ?_,
      fun again => absurd again Phase.next_ne_entered⟩
    · have here : r.phase = .entered := (ReloadTask.inside.inj (there.symm.trans entered)).2.2
      exact compares here must
    · simp [inside, setTask, Running.after]
  obtain ⟨u, applied, rfl, _⟩ := run.simulate (R := follows) simulates ⟨rfl, fun _ => clean⟩
  have last : (inside ⟨.done result, (c.job p).synced s.disk,
      managedSet p ((c.job p).synced s.disk)⟩).task t = .inside since c (.done result) :=
    Function.update_self ..
  have finished := (Reaches.trans entered applied).tail (e := .finish t)
    ⟨⟨trivial, fun _ => trivial⟩, .finish last⟩
  convert finished using 1
  simp [inside, setTask, free]

end Runs

end WritePath

/-! ### Two commits, two tasks -/

/-- A database with one dead host. -/
def deadHostDb : Database :=
  { deadHosts := [{ id := 1, domainNames := ["gone.example"] }] }

/-- Its rendering has a file for the host. -/
theorem deadHostCall : ∃ c : Call sampleDeployment,
    c.options = taskOptions defaultPrefix false ∧
    loadDesiredState sampleDeployment deadHostDb = .ok c.state ∧
    ∃ content, (c.desired .confd)[deadFilename 1]? = some content := by
  let spec := deadHostSpec sampleDeployment deadHostDb { id := 1, domainNames := ["gone.example"] }
  let state : DesiredState := { deadHosts := [spec] }
  have member : (deadFilename 1, FileBody.conf (deadHostConf sampleDeployment spec)) ∈
      configPairs sampleDeployment state := List.mem_singleton_self _
  obtain ⟨content, present⟩ := get_text_isSome member
  cases rendered : renderTargets sampleDeployment (taskOptions defaultPrefix false) state with
  | error e => cases rendered
  | ok desired =>
    refine ⟨⟨_, state, desired, rendered⟩, rfl, rfl, content, ?_⟩
    cases rendered
    exact present

/-- The empty database renders nothing into conf.d. -/
private theorem confd_empty {desired : DirName → Files}
    (rendered : renderTargets sampleDeployment (taskOptions defaultPrefix false) {} = .ok desired)
    (name : String) : (desired .confd)[name]? = none := by
  cases rendered
  cases found : (renderConfig sampleDeployment {})[name]? with
  | none => exact found
  | some content =>
    obtain ⟨_, member, _⟩ := mem_pairs_of_get_text found
    cases member

/-- Where the empty database is applied the host's file is missing. -/
theorem deadHost_differs {host empty : Call sampleDeployment}
    (options : host.options = taskOptions defaultPrefix false)
    (emptyOptions : empty.options = taskOptions defaultPrefix false) (state : empty.state = {})
    {content : String} (present : (host.desired .confd)[deadFilename 1]? = some content) :
    ¬∀ d ∈ (host.job defaultPrefix).dirs, (host.job defaultPrefix).desired d =
      readTargets (host.job defaultPrefix).pre ((empty.job defaultPrefix).synced fun _ => ∅) d := by
  intro same
  have nothing : ∀ name : String, (empty.desired .confd)[name]? = none := by
    apply confd_empty
    rw [← state, ← emptyOptions]
    exact empty.rendered
  have target : DirName.confd ∈ (host.job defaultPrefix).dirs := by
    show DirName.confd ∈ host.options.dirs
    rw [options]
    exact WritePath.mem_taskOptions ..
  have here : DirName.confd ∈ (empty.job defaultPrefix).dirs := by
    show DirName.confd ∈ empty.options.dirs
    rw [emptyOptions]
    exact WritePath.mem_taskOptions ..
  have synced := (empty.job defaultPrefix).managedFiles_synced (fun _ => ∅) here
  have read := congrArg (fun files : Files => files[deadFilename 1]?) (same .confd target)
  simp only [readTargets, readManaged_eq_map, Std.ExtTreeMap.getElem?_map] at read
  rw [show (host.job defaultPrefix).desired .confd = host.desired .confd from rfl, present,
    show (host.job defaultPrefix).pre = (empty.job defaultPrefix).pre from rfl, synced,
    show (empty.job defaultPrefix).desired .confd = empty.desired .confd from rfl, nothing] at read
  cases read

/-- Two commits, loaded by two tasks that take the lock in the same order: the disk is the
rendering of the second. -/
theorem quiescent_consistent_first : ∃ s : WritePath sampleDeployment Bool,
    s.commits = 2 ∧ s.Quiescent ∧ s.Consistent defaultPrefix false := by
  obtain ⟨empty, emptyOptions, emptyState, clean, emptyDiffers⟩ := sampleApply
  obtain ⟨host, hostOptions, hostLoaded, content, present⟩ := deadHostCall
  have emptyLoaded : loadDesiredState sampleDeployment {} = .ok empty.state := by
    rw [emptyState]
    rfl
  have hostDiffers := deadHost_differs hostOptions emptyOptions emptyState present
  -- on disk are then the files of the empty database
  have cleanDisk : ∀ d, CleanFiles
      (managedSet defaultPrefix ((empty.job defaultPrefix).synced fun _ => ∅) d) :=
    clean_synced empty (clean_noFiles _) clean
  let s : WritePath sampleDeployment Bool := WritePath.start deadHostDb (fun _ => ∅)
  have run₁ : s.TaskRun defaultPrefix True _ :=
    WritePath.reaches_waiting (t := true) rfl emptyOptions emptyLoaded
  have run₂ : s.TaskRun defaultPrefix True _ := Reaches.trans run₁
    (WritePath.reaches_waiting (t := false) rfl hostOptions hostLoaded)
  have run₃ : s.TaskRun defaultPrefix True _ := Reaches.trans run₂
    (WritePath.reaches_applied (show WritePath.task _ true = .waiting 1 empty from rfl) rfl
      (fun _ _ none => nomatch none) (fun _ => clean_noFiles _) emptyDiffers)
  have run₄ : s.TaskRun defaultPrefix True _ := Reaches.trans run₃
    (WritePath.reaches_applied (show WritePath.task _ false = .waiting 2 host from rfl) rfl
      (fun _ last same => by cases same; decide) (fun _ => cleanDisk) hostDiffers)
  have quiescent : ∀ t : Bool, Function.update (Function.update (Function.update (Function.update
      s.task true (.waiting 1 empty)) false (.waiting 2 host)) true .idle) false .idle t =
      .idle := by
    intro t
    cases t <;> rfl
  refine ⟨_, rfl, ⟨rfl, rfl, quiescent⟩, WritePath.quiescent_consistent
    (run₄.mono fun _ _ _ moved => ⟨⟨moved.1.1, moved.1.2 trivial⟩, moved.2⟩) Nat.two_pos
    ⟨rfl, rfl, quiescent⟩⟩

/-- A host is committed and loaded by one task; before that task takes the lock, the host is
removed again and a second task applies the removal. Then the first task writes the host
back, and nothing is left to correct it. -/
theorem older_state_stays : ∃ s : WritePath sampleDeployment Bool,
    Reaches (Guarded WritePath.Accepted (WritePath.Step defaultPrefix false))
      (WritePath.start {} (fun _ => ∅)) s ∧
    0 < s.commits ∧ s.Quiescent ∧ ¬s.Consistent defaultPrefix false := by
  obtain ⟨old, oldOptions, oldLoaded, content, present⟩ := deadHostCall
  obtain ⟨new, newOptions, newState, _, newDiffers⟩ := sampleApply
  have newLoaded : loadDesiredState sampleDeployment {} = .ok new.state := by
    rw [newState]
    rfl
  let s : WritePath sampleDeployment Bool := WritePath.start {} (fun _ => ∅)
  have run₁ : s.TaskRun defaultPrefix False _ :=
    WritePath.reaches_waiting (t := true) rfl oldOptions oldLoaded
  have run₂ : s.TaskRun defaultPrefix False _ := Reaches.trans run₁
    (WritePath.reaches_waiting (t := false) rfl newOptions newLoaded)
  have run₃ : s.TaskRun defaultPrefix False _ := Reaches.trans run₂
    (WritePath.reaches_applied (show WritePath.task _ false = .waiting 2 new from rfl) rfl
      (fun no => no.elim) (fun no => no.elim) newDiffers)
  -- the disk of the second task lacks the host of the first
  have differs := deadHost_differs oldOptions newOptions newState present
  have run₄ : s.TaskRun defaultPrefix False _ := Reaches.trans run₃
    (WritePath.reaches_applied (show WritePath.task _ true = .waiting 1 old from rfl) rfl
      (fun no => no.elim) (fun no => no.elim) differs)
  refine ⟨_, run₄.mono fun _ _ _ moved => ⟨moved.1.1, moved.2⟩, Nat.succ_pos _, ⟨rfl, rfl, ?_⟩, ?_⟩
  · intro t
    cases t <;> rfl
  · rintro ⟨state, desired, loaded, rendered, same⟩
    cases loaded
    have written := (old.job defaultPrefix).managedFiles_synced
      ((new.job defaultPrefix).synced fun _ => ∅) (d := .confd) (by
        show DirName.confd ∈ old.options.dirs
        rw [oldOptions]
        exact WritePath.mem_taskOptions ..)
    have read := congrArg (fun files : Files => files[deadFilename 1]?)
      (written.symm.trans (same .confd))
    simp only [confd_empty rendered] at read
    rw [show (old.job defaultPrefix).desired .confd = old.desired .confd from rfl, present] at read
    cases read

end MegooPM
