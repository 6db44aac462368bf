import MegooPM.Cluster.Protocol

/-!
# What a marker says

A marker `v` on a node should mean that the node's own nginx has loaded the shared
files since those of version `v` were written. `_apply_ha` writes the current version
even when its call did not reload this node's nginx, which is truthful only where the
marker was already there. All other writes of a marker are truthful.

The clock ticks with every action; `writtenAt v` is when the sync that became version
`v` was through, `lastLoad n` when the nginx of node `n` last loaded.
-/
namespace MegooPM

open Lib

/-- A cluster with the times of its writes and loads. -/
structure Timed (cfg : Deployment) (ν τ : Type) where
  base : Cluster cfg ν τ
  clock : Nat
  writtenAt : Nat → Nat
  syncedAt : τ → Nat
  lastLoad : ν → Nat

namespace Cluster

variable {cfg : Deployment} {ν τ : Type} [DecidableEq ν] [DecidableEq τ]

/-- The task whose sync an action ends. -/
def endsSync (s : Cluster cfg ν τ) : ClusterEvent cfg ν τ → Option τ
  | .act t _ =>
    match s.task t with
    | .apply _ _ (.inside (.syncing _ []) _) => some t
    | _ => none
  | _ => none

/-- The task that publishes a new version. -/
def publishes (s : Cluster cfg ν τ) : ClusterEvent cfg ν τ → Option τ
  | .act t _ =>
    match s.task t with
    | .apply _ _ (.inside (.done result) _) => if result.changed then some t else none
    | _ => none
  | _ => none

/-- An apply that commits without having reloaded its node's nginx does so on a node
whose marker already holds the shared version. -/
def MarksOnlyReached (s : Cluster cfg ν τ) : ClusterEvent cfg ν τ → Prop
  | .act t _ => ∀ n c result, s.task t = .apply n c (.inside (.done result) false) →
      (s.version : Int) ≤ readLocalVersion (s.node n).marker
  | _ => True

end Cluster

namespace Timed

variable {cfg : Deployment} {ν τ : Type} [DecidableEq ν] [DecidableEq τ]

def start (base : Cluster cfg ν τ) : Timed cfg ν τ where
  base := base
  clock := 0
  writtenAt := fun _ => 0
  syncedAt := fun _ => 0
  lastLoad := fun _ => 0

/-- A value set for one key, if there is one. -/
def stamp {κ : Type} [DecidableEq κ] (f : κ → Nat) (key : Option κ) (time : Nat) : κ → Nat :=
  match key with
  | some k => Function.update f k time
  | none => f

def step (p : ManagedPrefix) (s : Timed cfg ν τ) (e : ClusterEvent cfg ν τ)
    (s' : Timed cfg ν τ) : Prop :=
  s.base.Step p e s'.base ∧
  s'.clock = s.clock + 1 ∧
  s'.syncedAt = stamp s.syncedAt (s.base.endsSync e) (s.clock + 1) ∧
  s'.lastLoad = stamp s.lastLoad (s.base.loadsOn p e) (s.clock + 1) ∧
  s'.writtenAt = match s.base.publishes e with
    | some t => Function.update s.writtenAt (s.base.version + 1) (s.syncedAt t)
    | none => s.writtenAt

/-- The nginx of node `n` has loaded since the files of version `v` were written. -/
def Reached (s : Timed cfg ν τ) (n : ν) (v : Nat) : Prop :=
  v ≤ s.base.version ∧ s.writtenAt v ≤ s.lastLoad n

/-- Every marker is truthful. -/
def MarkersTruthful (s : Timed cfg ν τ) : Prop :=
  ∀ n v, (s.base.node n).marker = some v → s.Reached n v

/-! ### The invariant -/

/-- What holds of a task, by where it stands. -/
def TaskOk (s : Timed cfg ν τ) (t : τ) : Task cfg ν → Prop
  | .apply n _ (.inside phase reloaded) =>
    s.base.lock = some t ∧
    (reloaded = true → phase.isDone = true ∧ s.syncedAt t ≤ s.lastLoad n ∧
      s.Reached n s.base.version) ∧
    (∀ result, phase = .done result → result.changed = true → reloaded = true)
  | .apply n _ (.committed v) => s.Reached n v
  | .reconcile _ (.read v) | .reconcile _ (.testing v) | .reconcile _ (.reloading v) =>
    v ≤ s.base.version
  | .reconcile n (.reloaded v) => s.Reached n v
  | _ => True

structure Inv (s : Timed cfg ν τ) : Prop where
  loads : ∀ n, s.lastLoad n ≤ s.clock
  written : ∀ v ≤ s.base.version, s.writtenAt v ≤ s.clock
  synced : ∀ t, s.syncedAt t ≤ s.clock
  markers : s.MarkersTruthful
  tasks : ∀ t, s.TaskOk t (s.base.task t)

/-- What later states keep: versions and loads only grow, published versions stay. -/
structure Later (s s' : Timed cfg ν τ) : Prop where
  version : s.base.version ≤ s'.base.version
  written : ∀ v ≤ s.base.version, s'.writtenAt v = s.writtenAt v
  loads : ∀ n, s.lastLoad n ≤ s'.lastLoad n

omit [DecidableEq ν] [DecidableEq τ] in
theorem Reached.later {s s' : Timed cfg ν τ} (later : s.Later s') {n : ν} {v : Nat}
    (reached : s.Reached n v) : s'.Reached n v := by
  refine ⟨reached.1.trans later.version, ?_⟩
  rw [later.written v reached.1]
  exact reached.2.trans (later.loads n)

theorem stamp_le {κ : Type} [DecidableEq κ] {f : κ → Nat} {time : Nat} (below : ∀ k, f k ≤ time)
    (key : Option κ) (k : κ) : f k ≤ stamp f key time k ∧ stamp f key time k ≤ time := by
  cases key with
  | none => exact ⟨Nat.le_refl _, below k⟩
  | some j =>
    simp only [stamp, Function.update_apply]
    split
    · exact ⟨below k, Nat.le_refl _⟩
    · exact ⟨Nat.le_refl _, below k⟩

section Step

variable {p : ManagedPrefix} {s s' : Timed cfg ν τ} {e : ClusterEvent cfg ν τ}

private theorem written_old (moved : s.step p e s') {v : Nat} (old : v ≤ s.base.version) :
    s'.writtenAt v = s.writtenAt v := by
  rw [moved.2.2.2.2]
  split
  · rw [Function.update_of_ne (by omega)]
  · rfl

theorem later_of_step (inv : s.Inv) (moved : s.step p e s') : s.Later s' where
  version := moved.1.version_le
  written := fun _ old => written_old moved old
  loads := by
    intro n
    rw [moved.2.2.2.1]
    exact (stamp_le (fun m => (inv.loads m).trans (Nat.le_succ _)) _ n).1

private theorem written_le (inv : s.Inv) (moved : s.step p e s') :
    ∀ v ≤ s'.base.version, s'.writtenAt v ≤ s'.clock := by
  intro v known
  rw [moved.2.1]
  by_cases old : v ≤ s.base.version
  · rw [written_old moved old]
    have before := inv.written v old
    omega
  · rcases moved.1.version_eq with same | ⟨more, t, answer, n, c, result, reloaded, rfl, here, changed⟩
    · omega
    · have new : v = s.base.version + 1 := by omega
      have published : s.base.publishes (.act t answer) = some t := by
        simp only [Cluster.publishes, here, changed, if_true]
      rw [moved.2.2.2.2, published, new]
      simp only [Function.update_self]
      have before := inv.synced t
      omega

/-- The lock holder keeps the lock and sees no version but its own. -/
private theorem holder_keeps (inv : s.Inv) (moved : s.step p e s') {u : τ} (other : u ≠ e.task)
    (held : s.base.lock = some u) : s'.base.lock = some u ∧ s'.base.version = s.base.version := by
  have outside : ∀ n c phase reloaded,
      s.base.task e.task ≠ .apply n c (.inside phase reloaded) := by
    intro n c phase reloaded here
    have mine := inv.tasks e.task
    rw [here] at mine
    exact other (Option.some.inj (held.symm.trans mine.1))
  obtain ⟨_, version, lock⟩ := moved.1.outside outside
  exact ⟨lock u held, version⟩

/-- Only the acting task can end its sync. -/
private theorem syncedAt_other (moved : s.step p e s') {u : τ} (other : u ≠ e.task) :
    s'.syncedAt u = s.syncedAt u := by
  rw [moved.2.2.1]
  cases ends : s.base.endsSync e with
  | none => rfl
  | some t =>
    have acting : t = e.task := by
      cases e with
      | act t' answer =>
        simp only [Cluster.endsSync] at ends
        split at ends
        · exact (Option.some.inj ends).symm
        · cases ends
      | _ => cases ends
    rw [acting]
    exact Function.update_of_ne other _ _

private theorem taskOk_other (inv : s.Inv) (moved : s.step p e s') {u : τ} (other : u ≠ e.task) :
    s'.TaskOk u (s'.base.task u) := by
  have later := later_of_step inv moved
  have before := inv.tasks u
  rw [moved.1.task_other other]
  cases here : s.base.task u with
  | idle => trivial
  | apply n c point =>
    rw [here] at before
    cases point with
    | waiting => trivial
    | inside phase reloaded =>
      obtain ⟨held, own, changes⟩ := before
      obtain ⟨holds, same⟩ := holder_keeps inv moved other held
      refine ⟨holds, fun loaded => ?_, changes⟩
      obtain ⟨ended, synced, reached⟩ := own loaded
      refine ⟨ended, ?_, ?_⟩
      · rw [syncedAt_other moved other]
        exact synced.trans (later.loads n)
      · rw [same]
        exact reached.later later
    | committed v => exact Reached.later later before
  | reconcile n point =>
    rw [here] at before
    cases point with
    | starting => trivial
    | read v => exact Nat.le_trans before later.version
    | testing v => exact Nat.le_trans before later.version
    | reloading v => exact Nat.le_trans before later.version
    | reloaded v => exact Reached.later later before

/-- An action of `apply_config` that loads does so at the end of the call, after its sync. -/
private theorem taskOk_work {t : τ} {n : ν} {c : Call cfg} {phase : Phase} {reloaded : Bool}
    {answer : CommandResult} (inv : s.Inv) (moved : s.step p (.act t answer) s')
    (here : s.base.task t = .apply n c (.inside phase reloaded)) (running : phase.isDone = false)
    (holds : s'.base.lock = s.base.lock) (same : s'.base.version = s.base.version) :
    s'.TaskOk t (.apply n c (.inside (s.base.work p n c phase answer).phase
      (reloaded || s.base.workLoads p c phase answer))) := by
  have before := inv.tasks t
  rw [here] at before
  obtain ⟨held, own, _⟩ := before
  -- a call that has reloaded is at its end
  have fresh : reloaded = false := by
    cases loaded : reloaded with
    | false => rfl
    | true =>
      have ended := (own loaded).1
      rw [running] at ended
      cases ended
  subst fresh
  refine ⟨holds.trans held, fun loads => ?_, fun result ends changed => ?_⟩
  · have loads : s.base.workLoads p c phase answer = true := by simpa using loads
    have now : s'.lastLoad n = s.clock + 1 := by
      rw [moved.2.2.2.1]
      simp only [Cluster.loadsOn, here, running, loads, Bool.not_false, Bool.and_self, if_true, stamp,
        Function.update_self]
    -- an action that loads is not the one that ends the sync
    have notSync : ∀ currents, phase ≠ .syncing currents [] := by
      rintro currents rfl
      cases loads
    have unsynced : s'.syncedAt t = s.syncedAt t := by
      rw [moved.2.2.1]
      have none : s.base.endsSync (.act t answer) = none := by
        simp only [Cluster.endsSync, here]
        split
        next currents _ same =>
          cases same
          exact absurd rfl (notSync _)
        next => rfl
      rw [none]
      rfl
    refine ⟨?_, ?_, ?_⟩
    · exact Phase.isDone_of_loads running loads
    · rw [unsynced, now]
      have at' := inv.synced t
      omega
    · refine ⟨Nat.le_refl _, ?_⟩
      rw [same, now, written_old moved (Nat.le_refl _)]
      have at' := inv.written s.base.version (Nat.le_refl _)
      omega
  · have loads := Phase.loads_of_changed running ends changed
    simp only [Cluster.workLoads, loads, Bool.or_true]

/-- The acting task. -/
private theorem taskOk_own (inv : s.Inv) (reached : s.base.MarksOnlyReached e)
    (moved : s.step p e s') : s'.TaskOk e.task (s'.base.task e.task) := by
  have later := later_of_step inv moved
  obtain ⟨base', clock', writtenAt', syncedAt', lastLoad'⟩ := s'
  have acted := moved.1
  simp only at acted
  cases acted with
  | startApply free options =>
    simp only [Cluster.task_setTask, ClusterEvent.task, if_true]
    trivial
  | startReconcile free =>
    simp only [Cluster.task_setTask, ClusterEvent.task, if_true]
    trivial
  | enter here free =>
    simp only [Cluster.task_setTask, ClusterEvent.task, if_true]
    refine ⟨rfl, fun loaded => ?_, fun result ends => ?_⟩
    · cases loaded
    · cases ends
  | work here running =>
    simp only [Cluster.task_setTask, ClusterEvent.task, if_true]
    exact taskOk_work inv moved here running rfl rfl
  | @commitChanged t n c result reloaded answer here changed =>
    simp only [Cluster.task_setTask, ClusterEvent.task, if_true]
    have before := inv.tasks t
    rw [here] at before
    obtain ⟨_, own, changes⟩ := before
    obtain ⟨_, synced, _⟩ := own (changes result rfl changed)
    refine ⟨Nat.le_refl _, ?_⟩
    have published : s.base.publishes (.act t answer) = some t := by
      simp only [Cluster.publishes, here, changed, if_true]
    have written : writtenAt' (s.base.version + 1) = s.syncedAt t := by
      have stamped := moved.2.2.2.2
      rw [published] at stamped
      simp only at stamped
      rw [stamped, Function.update_self]
    rw [bumpConfigVersion_eq]
    show writtenAt' (s.base.version + 1) ≤ lastLoad' n
    rw [written]
    exact synced.trans (later.loads n)
  | @commitUnchanged t n c result reloaded answer here unchanged =>
    simp only [Cluster.task_setTask, ClusterEvent.task, if_true]
    have before := inv.tasks t
    rw [here] at before
    apply Reached.later later
    cases loaded : reloaded with
    | true => exact (before.2.1 loaded).2.2
    | false =>
      -- nothing was loaded: the marker must say so already
      subst loaded
      have marked := reached n c result here
      cases found : (s.base.node n).marker with
      | none =>
        rw [found] at marked
        simp only [readLocalVersion, unknownLocalVersion] at marked
        omega
      | some v =>
        rw [found] at marked
        simp only [readLocalVersion] at marked
        have shown := inv.markers n v found
        have same : v = s.base.version := by
          have below := shown.1
          omega
        rw [← same]
        exact shown
  | mark here =>
    simp only [Cluster.task_setTask, ClusterEvent.task, if_true]
    trivial
  | readVersion here =>
    simp only [Cluster.task_setTask, ClusterEvent.task, if_true]
    exact Nat.le_refl _
  | current here reached =>
    simp only [Cluster.task_setTask, ClusterEvent.task, if_true]
    trivial
  | @newer t n answer version here behind =>
    simp only [Cluster.task_setTask, ClusterEvent.task, if_true]
    have before := inv.tasks t
    rw [here] at before
    exact before
  | testFailed here failed =>
    simp only [Cluster.task_setTask, ClusterEvent.task, if_true]
    trivial
  | @testOk t n version answer here ok =>
    simp only [Cluster.task_setTask, ClusterEvent.task, if_true]
    have before := inv.tasks t
    rw [here] at before
    exact before
  | reloadFailed here failed =>
    simp only [Cluster.task_setTask, ClusterEvent.task, if_true]
    trivial
  | @reloadOk t n version answer here ok =>
    simp only [Cluster.task_setTask, ClusterEvent.task, if_true]
    have before := inv.tasks t
    rw [here] at before
    have now : lastLoad' n = s.clock + 1 := by
      have stamped := moved.2.2.2.1
      simp only [Cluster.loadsOn, here, ok, if_true, stamp] at stamped
      rw [stamped, Function.update_self]
    refine ⟨before, ?_⟩
    show writtenAt' version ≤ lastLoad' n
    have old := written_old moved before
    simp only at old
    rw [now, old]
    have earlier := inv.written version before
    omega
  | record here =>
    simp only [Cluster.task_setTask, ClusterEvent.task, if_true]
    trivial

private theorem markers_step (inv : s.Inv) (moved : s.step p e s') : s'.MarkersTruthful := by
  have later := later_of_step inv moved
  intro n v marked
  rcases moved.1.marker_cases n with same | ⟨w, written, source⟩
  · rw [same] at marked
    exact (inv.markers n v marked).later later
  · rw [written] at marked
    cases marked
    have task := inv.tasks e.task
    rcases source with ⟨c, here⟩ | here
    · rw [here] at task
      exact Reached.later later task
    · rw [here] at task
      exact Reached.later later task

theorem inv_step (inv : s.Inv) (reached : s.base.MarksOnlyReached e) (moved : s.step p e s') :
    s'.Inv where
  loads := by
    intro n
    rw [moved.2.1, moved.2.2.2.1]
    exact (stamp_le (fun m => (inv.loads m).trans (Nat.le_succ _)) _ n).2
  written := written_le inv moved
  synced := by
    intro t
    rw [moved.2.1, moved.2.2.1]
    exact (stamp_le (fun u => (inv.synced u).trans (Nat.le_succ _)) _ t).2
  markers := markers_step inv moved
  tasks := by
    intro t
    by_cases mine : t = e.task
    · subst mine
      exact taskOk_own inv reached moved
    · exact taskOk_other inv moved mine

end Step

omit [DecidableEq ν] [DecidableEq τ] in
theorem inv_start (p : ManagedPrefix) (disk : Disk) (row : Option Nat) :
    (Timed.start (Cluster.start p disk row : Cluster cfg ν τ)).Inv where
  loads := fun _ => Nat.le_refl _
  written := fun _ _ => Nat.le_refl _
  synced := fun _ => Nat.le_refl _
  markers := by
    intro n v marked
    cases marked
  tasks := fun _ => trivial

/-- In every run in which an apply commits without having reloaded its own nginx only where
the marker already holds the shared version, every marker of every reached state is
truthful. -/
theorem markers_truthful {p : ManagedPrefix} {disk : Disk} {row : Option Nat}
    {s : Timed cfg ν τ}
    (run : Reaches (Guarded (fun s => s.base.MarksOnlyReached) (Timed.step p))
      (Timed.start (Cluster.start p disk row)) s) : s.MarkersTruthful := by
  have inv : s.Inv := by
    apply Reaches.invariant (P := Inv) ?_ (inv_start p disk row) run
    intro t e u before moved
    exact inv_step before moved.1 moved.2
  exact inv.markers

/-! ### Two nodes -/

/-- The state after an action that leads to `base`. -/
def after (p : ManagedPrefix) (s : Timed cfg ν τ) (e : ClusterEvent cfg ν τ)
    (base : Cluster cfg ν τ) : Timed cfg ν τ where
  base := base
  clock := s.clock + 1
  syncedAt := stamp s.syncedAt (s.base.endsSync e) (s.clock + 1)
  lastLoad := stamp s.lastLoad (s.base.loadsOn p e) (s.clock + 1)
  writtenAt := match s.base.publishes e with
    | some t => Function.update s.writtenAt (s.base.version + 1) (s.syncedAt t)
    | none => s.writtenAt

/-- The cluster after the task `t` of node `n` has done its part of a run. -/
structure Untouched (s s' : Timed cfg ν τ) (t : τ) (n : ν) : Prop where
  task : ∀ u, u ≠ t → s'.base.task u = s.base.task u
  loaded : ∀ m, m ≠ n → s'.base.node m = s.base.node m
  lastLoad : ∀ m, m ≠ n → s'.lastLoad m = s.lastLoad m
  marker : ∀ m, (s'.base.node m).marker = (s.base.node m).marker
  version : s'.base.version = s.base.version
  writtenAt : s'.writtenAt = s.writtenAt

/-- Task `t` is inside `apply_config`, in the state of the call alone. -/
def Runs (s : Timed cfg ν τ) (t : τ) (n : ν) (c : Call cfg) (r : Running) : Prop :=
  ∃ reloaded, s.base.task t = .apply n c (.inside r.phase reloaded) ∧
    s.base.disk = r.disk ∧ (s.base.node n).loaded = r.loaded

theorem runs_step {p : ManagedPrefix} {s : Timed cfg ν τ} {t : τ} {n : ν} {c : Call cfg}
    {r r' : Running} {answer : CommandResult} (runs : s.Runs t n c r)
    (moved : callStep (c.job p) r answer r') :
    ∃ s', Guarded (fun s : Timed cfg ν τ => s.base.MarksOnlyReached) (Timed.step p) s
        (.act t answer) s' ∧
      s'.Runs t n c r' ∧ s.Untouched s' t n ∧
      ((∃ currents, r.phase = .syncing currents []) → s.clock < s'.syncedAt t) ∧
      ((∀ currents, r.phase ≠ .syncing currents []) → s'.syncedAt t = s.syncedAt t) ∧
      ((r.phase.next (c.job p) answer r.disk).loads = false → s'.lastLoad = s.lastLoad) := by
  obtain ⟨reloaded, here, disk, loaded⟩ := runs
  obtain ⟨running, rfl⟩ := moved
  obtain ⟨phase, _, _⟩ := r
  subst disk loaded
  -- the call has not returned, so the action publishes nothing
  have notDone : ∀ result, phase ≠ .done result := by
    rintro result rfl
    cases running
  refine ⟨s.after p (.act t answer) _, ⟨?_, Cluster.Step.work here running, rfl, rfl, rfl, rfl⟩,
    ⟨reloaded || s.base.workLoads p c phase answer, ?_, rfl, ?_⟩, ?_, ?_, ?_, ?_⟩
  · intro m d result ended
    rw [here] at ended
    cases ended
    exact absurd rfl (notDone result)
  · exact Function.update_self ..
  · simp only [after, Cluster.setLoaded, Function.update_self]
    rfl
  · refine ⟨fun u other => Function.update_of_ne other _ _, fun m other => ?_, fun m other => ?_,
      fun m => ?_, rfl, ?_⟩
    · exact Function.update_of_ne other _ _
    · simp only [after, Cluster.loadsOn, here]
      split
      · exact Function.update_of_ne other _ _
      · rfl
    · simp only [after, Cluster.marker_setLoaded]
    · simp only [after, Cluster.publishes, here]
      split
      next t' found =>
        split at found
        next same =>
          cases same
          exact absurd rfl (notDone _)
        next => cases found
      next => rfl
  · rintro ⟨currents, same⟩
    simp only at same
    subst same
    simp only [after, Cluster.endsSync, here, stamp, Function.update_self]
    omega
  · intro notSync
    simp only [after, Cluster.endsSync, here]
    split
    next currents _ same =>
      cases same
      exact absurd rfl (notSync _)
    next => rfl
  · intro quiet
    simp only [after, Cluster.loadsOn, here, Cluster.workLoads, quiet, Bool.and_false,
      Bool.false_eq_true, if_false, stamp]

omit [DecidableEq ν] [DecidableEq τ] in
theorem Untouched.trans {s s' s'' : Timed cfg ν τ} {t : τ} {n : ν} (first : s.Untouched s' t n)
    (second : s'.Untouched s'' t n) : s.Untouched s'' t n where
  task := fun u other => (second.task u other).trans (first.task u other)
  loaded := fun m other => (second.loaded m other).trans (first.loaded m other)
  lastLoad := fun m other => (second.lastLoad m other).trans (first.lastLoad m other)
  marker := fun m => (second.marker m).trans (first.marker m)
  version := second.version.trans first.version
  writtenAt := second.writtenAt.trans first.writtenAt

/-- A run of the call alone is a run of the cluster that touches nothing else. -/
theorem runs_reaches {p : ManagedPrefix} {s : Timed cfg ν τ} {t : τ} {n : ν} {c : Call cfg}
    {r r' : Running} (runs : s.Runs t n c r) (run : Reaches (callStep (c.job p)) r r') :
    ∃ s', Reaches (Guarded (fun s : Timed cfg ν τ => s.base.MarksOnlyReached) (Timed.step p)) s s' ∧
      s'.Runs t n c r' ∧ s.Untouched s' t n := by
  induction run with
  | refl =>
    exact ⟨s, Reaches.refl .., runs, fun _ _ => rfl, fun _ _ => rfl, fun _ _ => rfl, fun _ => rfl,
      rfl, rfl⟩
  | tail _ last ih =>
    obtain ⟨answer, moved⟩ := last
    obtain ⟨middle, before, there, same⟩ := ih
    obtain ⟨s', acted, runs', same', _⟩ := runs_step there moved
    exact ⟨s', before.tail acted, runs', same.trans same'⟩

omit [DecidableEq ν] [DecidableEq τ] in
private theorem clock_le {ok : Timed cfg ν τ → ClusterEvent cfg ν τ → Prop}
    [DecidableEq ν] [DecidableEq τ] {p : ManagedPrefix} {s s' : Timed cfg ν τ}
    (run : Reaches (Guarded ok (Timed.step p)) s s') : s.clock ≤ s'.clock := by
  induction run with
  | refl => exact Nat.le_refl _
  | tail _ last ih =>
    obtain ⟨e, _, moved⟩ := last
    rw [moved.2.1]
    omega

/-- The runs in which an apply marks only what its node has reached. -/
abbrev MarkedRun (p : ManagedPrefix) (s s' : Timed cfg ν τ) : Prop :=
  Reaches (Guarded (fun s : Timed cfg ν τ => s.base.MarksOnlyReached) (Timed.step p)) s s'

/-- An action of a task that is not about to commit. -/
theorem markedRun_act (p : ManagedPrefix) (s : Timed cfg ν τ) {t : τ} {answer : CommandResult}
    {base : Cluster cfg ν τ} (moved : s.base.Step p (.act t answer) base)
    (elsewhere : ∀ n c result, s.base.task t ≠ .apply n c (.inside (.done result) false)) :
    s.MarkedRun p (s.after p (.act t answer) base) := by
  refine Reaches.tail (Reaches.refl ..) (e := .act t answer) ⟨?_, moved, rfl, rfl, rfl, rfl⟩
  intro n c result here
  exact absurd here (elsewhere n c result)

/-- Loading the state and taking the lock. -/
theorem reaches_entered {p : ManagedPrefix} {s : Timed cfg ν τ} {t : τ} (n : ν) {c : Call cfg}
    (free : s.base.task t = .idle) (unlocked : s.base.lock = none)
    (options : c.options = haOptions p) :
    ∃ s', s.MarkedRun p s' ∧ s.Untouched s' t n ∧ s'.lastLoad = s.lastLoad ∧
      s'.Runs t n c ⟨.entered, s.base.disk, (s.base.node n).loaded⟩ := by
  let waits := s.after p (.startApply t n c) (s.base.setTask t (.apply n c .waiting))
  have started : s.MarkedRun p waits :=
    Reaches.tail (Reaches.refl ..) (e := .startApply t n c)
      ⟨trivial, Cluster.Step.startApply free options, rfl, rfl, rfl, rfl⟩
  have waiting : waits.base.task t = .apply n c .waiting := Function.update_self ..
  have entered := markedRun_act p waits
    (Cluster.Step.enter waiting unlocked : Cluster.Step p _ (.act t { ok := true }) _)
    (by simp [waiting])
  have noLoad : ∀ base, (waits.after p (.act t { ok := true }) base).lastLoad = s.lastLoad := by
    intro base
    simp only [after, Cluster.loadsOn, waiting]
    rfl
  refine ⟨_, Reaches.trans started entered, ⟨fun u other => ?_, fun _ _ => rfl,
    fun m _ => congrFun (noLoad _) m, fun _ => rfl, rfl, ?_⟩, noLoad _, false, Function.update_self ..,
    rfl, rfl⟩
  · show Function.update (Function.update s.base.task t _) t _ u = _
    rw [Function.update_of_ne other, Function.update_of_ne other]
  · simp only [after, Cluster.publishes, waiting]
    rfl

/-- The call, on a disk that differs: synced, accepted, reloaded. -/
theorem reaches_applied {p : ManagedPrefix} {s : Timed cfg ν τ} {t : τ} {n : ν} {c : Call cfg}
    {start : Disk} {loaded : DirName → Files} (runs : s.Runs t n c ⟨.entered, start, loaded⟩)
    (differs : ¬∀ d ∈ (c.job p).dirs, (c.job p).desired d = readTargets (c.job p).pre start d) :
    ∃ s' result, s.MarkedRun p s' ∧ s.Untouched s' t n ∧ s.clock < s'.syncedAt t ∧
      result.changed = true ∧ s'.Runs t n c ⟨.done result, (c.job p).synced start,
        managedSet p ((c.job p).synced start)⟩ := by
  let job := c.job p
  let currents := readTargets job.pre start
  have ok : ({ ok := true } : CommandResult).ok = true := rfl
  obtain ⟨s₁, run₁, runs₁, same₁⟩ := runs_reaches runs
    (Reaches.head (step_differs differs loaded { ok := true })
      (run_to_synced job start currents loaded).of_guarded)
  obtain ⟨s₂, step₂, runs₂, same₂, synced₂, _⟩ := runs_step runs₁
    (step_synced job (job.synced start) currents loaded { ok := true })
  obtain ⟨s₃, step₃, runs₃, same₃, _, kept₃, _⟩ := runs_step runs₂
    (step_accepted job (job.synced start) currents loaded ok)
  obtain ⟨s₄, step₄, runs₄, same₄, _, kept₄, _⟩ := runs_step runs₃
    (step_reloaded job (job.synced start) currents loaded { ok := true } ok)
  have late : s.clock < s₄.syncedAt t := by
    rw [kept₄ (fun _ same => by cases same), kept₃ (fun _ same => by cases same)]
    have synced := synced₂ ⟨currents, rfl⟩
    have early := clock_le run₁
    omega
  exact ⟨s₄, _, ((run₁.tail step₂).tail step₃).tail step₄,
    ((same₁.trans same₂).trans same₃).trans same₄, late, rfl, runs₄⟩

/-- The commit of a change and the marker. -/
theorem reaches_marked {p : ManagedPrefix} {s : Timed cfg ν τ} {t : τ} {n : ν} {c : Call cfg}
    {result : ApplyResult} (here : s.base.task t = .apply n c (.inside (.done result) true))
    (changed : result.changed = true) :
    ∃ s', s.MarkedRun p s' ∧ s'.base.disk = s.base.disk ∧ s'.base.lock = none ∧
      s'.base.version = s.base.version + 1 ∧
      (s'.base.node n).marker = some (s.base.version + 1) ∧
      s'.writtenAt (s.base.version + 1) = s.syncedAt t ∧ s'.lastLoad = s.lastLoad ∧
      ∀ u, u ≠ t → s'.base.task u = s.base.task u := by
  let commits := s.after p (.act t { ok := true })
    ({ s.base with
      configVersion := some (bumpConfigVersion s.base.configVersion)
      lock := none }.setTask t (.apply n c (.committed (bumpConfigVersion s.base.configVersion))))
  have committed : s.MarkedRun p commits :=
    markedRun_act p s (Cluster.Step.commitChanged here changed) (by simp [here])
  have pending : commits.base.task t =
      .apply n c (.committed (bumpConfigVersion s.base.configVersion)) := Function.update_self ..
  have marked := markedRun_act p commits
    (Cluster.Step.mark pending : Cluster.Step p _ (.act t { ok := true }) _) (by simp [pending])
  have published : s.base.publishes (.act t { ok := true }) = some t := by
    simp only [Cluster.publishes, here, changed, if_true]
  have quiet : commits.base.publishes (.act t { ok := true }) = none := by
    simp only [Cluster.publishes, pending]
  have noLoad : s.base.loadsOn p (.act t { ok := true }) = none := by
    simp [Cluster.loadsOn, here, Phase.isDone]
  have noLoad' : commits.base.loadsOn p (.act t { ok := true }) = none := by
    simp only [Cluster.loadsOn, pending]
  refine ⟨_, Reaches.trans committed marked, rfl, rfl, bumpConfigVersion_eq _, ?_, ?_, ?_, ?_⟩
  · show ((commits.base.setMarker n _).node n).marker = _
    rw [Cluster.marker_setMarker, if_pos rfl, bumpConfigVersion_eq]
    rfl
  · simp only [after, quiet]
    simp only [commits, after, published, Function.update_self]
  · simp only [after, noLoad', stamp]
    simp only [commits, after, noLoad, stamp]
  · intro u other
    show Function.update (Function.update s.base.task t _) t _ u = _
    rw [Function.update_of_ne other, Function.update_of_ne other]

/-- The commit of an apply that changed nothing, and the marker it writes all the same. -/
theorem reaches_marked_unchanged (p : ManagedPrefix) {s : Timed cfg ν τ} {t : τ} {n : ν}
    {c : Call cfg} {result : ApplyResult} {reloaded : Bool}
    (here : s.base.task t = .apply n c (.inside (.done result) reloaded))
    (unchanged : result.changed = false) :
    ∃ s', Reaches (Timed.step p) s s' ∧ (s'.base.node n).marker = some s.base.version ∧
      s'.writtenAt = s.writtenAt ∧ s'.lastLoad = s.lastLoad := by
  let e : ClusterEvent cfg ν τ := .act t { ok := true }
  let commits := s.after p e
    ({ s.base with lock := none }.setTask t (.apply n c (.committed s.base.version)))
  have committed : Timed.step p s e commits :=
    ⟨Cluster.Step.commitUnchanged here unchanged, rfl, rfl, rfl, rfl⟩
  have pending : commits.base.task t = .apply n c (.committed s.base.version) :=
    Function.update_self ..
  let marks := commits.after p e ((commits.base.setMarker n s.base.version).setTask t .idle)
  have marked : Timed.step p commits e marks :=
    ⟨Cluster.Step.mark pending, rfl, rfl, rfl, rfl⟩
  have quiet : s.base.publishes e = none := by
    simp [Cluster.publishes, e, here, unchanged]
  have quiet' : commits.base.publishes e = none := by
    simp only [Cluster.publishes, e, pending]
  have noLoad : s.base.loadsOn p e = none := by
    simp [Cluster.loadsOn, e, here, Phase.isDone]
  have noLoad' : commits.base.loadsOn p e = none := by
    simp only [Cluster.loadsOn, e, pending]
  refine ⟨marks, Reaches.tail (Reaches.tail (Reaches.refl ..) committed) marked, ?_, ?_, ?_⟩
  · show ((commits.base.setMarker n _).node n).marker = _
    rw [Cluster.marker_setMarker, if_pos rfl]
  · simp only [marks, after, quiet']
    simp only [commits, after, quiet]
  · simp only [marks, after, noLoad', stamp]
    simp only [commits, after, noLoad, stamp]

/-- A whole apply that changes something, from loading its state to the marker. The new
version counts as written when the sync was through. -/
theorem reaches_changed {p : ManagedPrefix} {s : Timed cfg ν τ} {t : τ} (n : ν) {c : Call cfg}
    (inv : s.Inv) (free : s.base.task t = .idle) (unlocked : s.base.lock = none)
    (options : c.options = haOptions p)
    (differs : ¬∀ d ∈ (c.job p).dirs, (c.job p).desired d =
      readTargets (c.job p).pre s.base.disk d) :
    ∃ s', s.MarkedRun p s' ∧ s'.base.disk = (c.job p).synced s.base.disk ∧
      s'.base.lock = none ∧ s'.base.version = s.base.version + 1 ∧
      (s'.base.node n).marker = some (s.base.version + 1) ∧
      s.clock < s'.writtenAt (s.base.version + 1) ∧
      (∀ u, u ≠ t → s'.base.task u = s.base.task u) ∧
      (∀ m, m ≠ n → s'.lastLoad m = s.lastLoad m) := by
  obtain ⟨s₁, run₁, same₁, _, runs₁⟩ := reaches_entered n free unlocked options
  obtain ⟨s₂, result, run₂, same₂, late, changed, reloaded, here, disk, _⟩ :=
    reaches_applied runs₁ differs
  have run := Reaches.trans run₁ run₂
  have same := same₁.trans same₂
  -- a change is only reported after a reload
  have truly : reloaded = true := by
    have inv₂ : s₂.Inv := by
      apply Reaches.invariant (P := Inv) ?_ inv run
      intro u e v before moved
      exact inv_step before moved.1 moved.2
    have mine := inv₂.tasks t
    rw [here] at mine
    exact mine.2.2 result rfl changed
  subst truly
  obtain ⟨s₃, run₃, disk₃, lock₃, version₃, marker₃, written₃, loads₃, tasks₃⟩ :=
    reaches_marked (p := p) here changed
  rw [same.version] at version₃ marker₃ written₃
  refine ⟨s₃, Reaches.trans run run₃, disk₃.trans disk, lock₃, version₃, marker₃, ?_, ?_, ?_⟩
  · rw [written₃]
    have early := clock_le run₁
    omega
  · intro u other
    rw [tasks₃ u other, same.task u other]
  · intro m other
    rw [loads₃, same.lastLoad m other]

end Timed

/-! ### The sample cluster -/

/-- Two nodes and two tasks, an empty disk and version `0`. -/
def sampleStart : Timed sampleDeployment Bool Bool :=
  Timed.start (Cluster.start defaultPrefix (fun _ => ∅) (some 0))

/-- The first node of a cluster applies a change: its marker is truthful. -/
theorem markers_truthful_first : ∃ s : Timed sampleDeployment Bool Bool,
    (s.base.node false).marker = some 1 ∧ s.Reached false 1 := by
  obtain ⟨c, options, _, _, differs⟩ := sampleApply
  have inv : sampleStart.Inv := Timed.inv_start defaultPrefix (fun _ => ∅) (some 0)
  obtain ⟨s, run, _, _, _, marker, _⟩ :=
    Timed.reaches_changed (t := false) false inv rfl rfl options differs
  exact ⟨s, marker, Timed.markers_truthful run false 1 marker⟩

/-- The second node then applies the same state: nothing changes, its nginx is not reloaded,
and its marker claims the new version all the same. -/
theorem marker_untruthful : ∃ s : Timed sampleDeployment Bool Bool,
    Reaches (Timed.step defaultPrefix) sampleStart s ∧ (s.base.node true).marker = some 1 ∧
      s.lastLoad true < s.writtenAt 1 := by
  obtain ⟨c, options, _, clean, differs⟩ := sampleApply
  have inv : sampleStart.Inv := Timed.inv_start defaultPrefix (fun _ => ∅) (some 0)
  obtain ⟨s, run, disk, lock, version, _, written, tasks, loads⟩ :=
    Timed.reaches_changed (t := false) false inv rfl rfl options differs
  -- the second apply finds the disk as it wants it
  have reads := reads_synced c defaultPrefix clean (fun _ => ∅)
  rw [← show s.base.disk = (c.job defaultPrefix).synced (fun _ => ∅) from disk] at reads
  obtain ⟨s₁, run₁, same₁, loads₁, runs₁⟩ :=
    Timed.reaches_entered (p := defaultPrefix) true (tasks true (by decide)) lock options
  obtain ⟨s₂, step₂, ⟨reloaded, here, _, _⟩, same₂, _, _, quiet₂⟩ :=
    Timed.runs_step runs₁ (step_upToDate reads _ { ok := true })
  have noLoad : s₂.lastLoad = s₁.lastLoad := by
    apply quiet₂
    have all : ((c.job defaultPrefix).dirs.all fun d => (c.job defaultPrefix).desired d =
        readTargets (c.job defaultPrefix).pre s.base.disk d) = true := by
      simpa using reads
    simp only [Phase.next, all, if_true]
  -- it commits the version it did not load
  obtain ⟨s₃, run₃, marker₃, written₃, loads₃⟩ :=
    Timed.reaches_marked_unchanged defaultPrefix here rfl
  have version₂ : s₂.base.version = 1 := by
    rw [same₂.version, same₁.version, version]
    rfl
  have upTo := ((Reaches.trans run run₁).tail step₂).of_guarded
  refine ⟨s₃, Reaches.trans upTo run₃, ?_, ?_⟩
  · rw [marker₃, version₂]
  · rw [loads₃, written₃, noLoad, loads₁, same₂.writtenAt, same₁.writtenAt, loads true (by decide)]
    exact written

end MegooPM
