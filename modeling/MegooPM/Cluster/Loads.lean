import MegooPM.Cluster.Protocol

/-!
# What the cluster loads

Every file set a node's nginx loads should be the full rendering of one state that the
writing node's `nginx -t` accepted and that was kept. The writer holds the apply lock,
but `reconcile_local_nginx` takes none: its reload can land in the middle of a sync or
before a rollback. As long as no reconcile reloads between the first write of an apply
and its end, only such sets are loaded; a rollback brings the files back only where the
apply has compared with files without carriage returns.
-/
namespace MegooPM

open Lib

/-- A cluster with a record of what was tested, kept and loaded. -/
structure Audited (cfg : Deployment) (ν τ : Type) where
  base : Cluster cfg ν τ
  /-- the set on disk at the start -/
  initial : DirName → Files
  /-- the calls whose set the writer's `nginx -t` accepted, with the set it saw -/
  accepted : List (Call cfg × (DirName → Files))
  /-- the calls whose reload then succeeded, so that nothing was rolled back -/
  kept : List (Call cfg × (DirName → Files))
  /-- every set a node's nginx loaded by `controller.reload()` -/
  loads : List (DirName → Files)

namespace Cluster

variable {cfg : Deployment} {ν τ : Type} [DecidableEq ν] [DecidableEq τ]

/-- The call whose `nginx -t` an action passes. -/
def accepts (s : Cluster cfg ν τ) : ClusterEvent cfg ν τ → Option (Call cfg)
  | .act t answer =>
    match s.task t with
    | .apply _ c (.inside (.testing _) _) => if answer.ok then some c else none
    | _ => none
  | _ => none

/-- The call whose reload an action completes. -/
def keeps (s : Cluster cfg ν τ) : ClusterEvent cfg ν τ → Option (Call cfg)
  | .act t answer =>
    match s.task t with
    | .apply _ c (.inside (.reloading _ _) _) => if answer.ok then some c else none
    | _ => none
  | _ => none

/-- An apply compares with files without carriage returns, and a reconcile reloads only while
no apply is between its first write and its end. -/
def ReloadsSettled (p : ManagedPrefix) (s : Cluster cfg ν τ) : ClusterEvent cfg ν τ → Prop
  | .startApply _ _ _ | .startReconcile _ _ => True
  | .act t answer =>
    (∀ n c reloaded, s.task t = .apply n c (.inside .entered reloaded) →
      ∀ d, CleanFiles (managedSet p s.disk d)) ∧
    ∀ n v, s.task t = .reconcile n (.reloading v) → answer.ok = true →
      ∀ u m c phase reloaded, s.task u = .apply m c (.inside phase reloaded) →
        phase.settled = true

end Cluster

namespace Audited

variable {cfg : Deployment} {ν τ : Type} [DecidableEq ν] [DecidableEq τ]

def start (p : ManagedPrefix) (disk : Disk) (row : Option Nat) : Audited cfg ν τ where
  base := Cluster.start p disk row
  initial := managedSet p disk
  accepted := []
  kept := []
  loads := []

/-- A record, with what is on disk now. -/
def entry (p : ManagedPrefix) (s : Audited cfg ν τ) (c : Option (Call cfg)) :
    List (Call cfg × (DirName → Files)) :=
  c.toList.map fun c => (c, managedSet p s.base.disk)

def step (p : ManagedPrefix) (s : Audited cfg ν τ) (e : ClusterEvent cfg ν τ)
    (s' : Audited cfg ν τ) : Prop :=
  s.base.Step p e s'.base ∧
  s'.initial = s.initial ∧
  s'.accepted = s.entry p (s.base.accepts e) ++ s.accepted ∧
  s'.kept = s.entry p (s.base.keeps e) ++ s.kept ∧
  s'.loads = (if (s.base.loadsOn p e).isSome then [managedSet p s.base.disk] else []) ++ s.loads

/-- The set the run started from, or the full rendering of a call that was accepted and
kept. -/
def Validated (s : Audited cfg ν τ) (set : DirName → Files) : Prop :=
  set = s.initial ∨ ∃ c, (c, set) ∈ s.accepted ∧ (c, set) ∈ s.kept ∧ ∀ d, set d = c.desired d

/-- Every set that was loaded is validated. -/
def LoadsValidated (s : Audited cfg ν τ) : Prop :=
  ∀ set ∈ s.loads, s.Validated set

/-! ### The invariant -/

/-- What the record holds of a call, by where it stands. -/
def Recorded (p : ManagedPrefix) (s : Audited cfg ν τ) (c : Call cfg) : Phase → Prop
  | .reloading _ _ => (c, managedSet p s.base.disk) ∈ s.accepted
  | .done result => result.changed = true →
    (c, managedSet p s.base.disk) ∈ s.accepted ∧ (c, managedSet p s.base.disk) ∈ s.kept
  | _ => True

def TaskOk (p : ManagedPrefix) (s : Audited cfg ν τ) (t : τ) : Task cfg ν → Prop
  | .apply _ c .waiting => c.options = haOptions p
  | .apply _ c (.inside phase _) =>
    s.base.lock = some t ∧ c.options = haOptions p ∧
    ∃ found, (phase ≠ .entered → ∀ d, CleanFiles (managedSet p found d)) ∧
      s.Validated (managedSet p found) ∧ phase.Tracks (c.job p) found s.base.disk ∧
      s.Recorded p c phase
  | _ => True

/-- The disk is at rest on a validated set. -/
def Rests (p : ManagedPrefix) (s : Audited cfg ν τ) : Prop :=
  s.Validated (managedSet p s.base.disk)

structure Inv (p : ManagedPrefix) (s : Audited cfg ν τ) : Prop where
  rest : s.base.lock = none → s.Rests p
  holder : ∀ t, s.base.lock = some t →
    ∃ n c phase reloaded, s.base.task t = .apply n c (.inside phase reloaded)
  tasks : ∀ t, s.TaskOk p t (s.base.task t)
  loads : s.LoadsValidated

theorem haOptions_dirs (p : ManagedPrefix) (d : DirName) : d ∈ (haOptions p).dirs := by
  cases d <;> simp [haOptions, ApplyOptions.dirs]

section Step

variable {p : ManagedPrefix} {s s' : Audited cfg ν τ} {e : ClusterEvent cfg ν τ}

theorem Validated.later (moved : s.step p e s') {set : DirName → Files}
    (validated : s.Validated set) : s'.Validated set := by
  rcases validated with same | ⟨c, accepted, kept, whole⟩
  · left
    rw [same, moved.2.1]
  · right
    refine ⟨c, ?_, ?_, whole⟩
    · rw [moved.2.2.1]
      exact List.mem_append_right _ accepted
    · rw [moved.2.2.2.1]
      exact List.mem_append_right _ kept

/-- What a synced call of `_apply_ha` leaves is its whole rendering. -/
private theorem managedSet_synced {c : Call cfg} (options : c.options = haOptions p) (found : Disk)
    (d : DirName) : managedSet p ((c.job p).synced found) d = c.desired d := by
  apply (c.job p).managedFiles_synced found
  show d ∈ c.options.dirs
  rw [options]
  exact haOptions_dirs p d

omit [DecidableEq ν] [DecidableEq τ] in
/-- At a settled point of the call that holds the lock, the disk is at rest. -/
private theorem rests_of_settled {t : τ} {n : ν} {c : Call cfg} {phase : Phase} {reloaded : Bool}
    (task : s.TaskOk p t (.apply n c (.inside phase reloaded))) (settled : phase.settled = true) :
    s.Rests p := by
  obtain ⟨_, options, found, cleanFound, validated, tracks, recorded⟩ := task
  rcases tracks.settled settled cleanFound with same | ⟨result, rfl, changed, same⟩
  · rw [Rests, show managedSet p s.base.disk = managedSet p found from same]
    exact validated
  · have whole : ∀ d, managedSet p s.base.disk d = c.desired d := by
      intro d
      rw [same]
      exact managedSet_synced options found d
    obtain ⟨accepted, kept⟩ := recorded changed
    exact Or.inr ⟨c, accepted, kept, whole⟩

/-- A task that is not the acting one keeps the files and the lock it sees. -/
private theorem holder_keeps (inv : s.Inv p) (moved : s.step p e s') {u : τ} (other : u ≠ e.task)
    (held : s.base.lock = some u) :
    s'.base.lock = some u ∧ s'.base.disk = s.base.disk := by
  have outside : ∀ n c phase reloaded,
      s.base.task e.task ≠ .apply n c (.inside phase reloaded) := by
    intro n c phase reloaded here
    have mine := inv.tasks e.task
    rw [here] at mine
    exact other (Option.some.inj (held.symm.trans mine.1))
  obtain ⟨disk, _, lock⟩ := moved.1.outside outside
  exact ⟨lock u held, disk⟩

private theorem recorded_later (moved : s.step p e s') (same : s'.base.disk = s.base.disk)
    {c : Call cfg} {phase : Phase} (recorded : s.Recorded p c phase) : s'.Recorded p c phase := by
  cases phase with
  | reloading currents test =>
    show (c, managedSet p s'.base.disk) ∈ s'.accepted
    rw [same, moved.2.2.1]
    exact List.mem_append_right _ recorded
  | done result =>
    intro changed
    obtain ⟨accepted, kept⟩ := recorded changed
    rw [same, moved.2.2.1, moved.2.2.2.1]
    exact ⟨List.mem_append_right _ accepted, List.mem_append_right _ kept⟩
  | _ => trivial

private theorem taskOk_other (inv : s.Inv p) (moved : s.step p e s') {u : τ} (other : u ≠ e.task) :
    s'.TaskOk p u (s'.base.task u) := by
  have before := inv.tasks u
  rw [moved.1.task_other other]
  cases here : s.base.task u with
  | idle => trivial
  | reconcile n point => cases point <;> trivial
  | apply n c point =>
    rw [here] at before
    cases point with
    | waiting => exact before
    | committed v => trivial
    | inside phase reloaded =>
      obtain ⟨held, options, found, cleanFound, validated, tracks, recorded⟩ := before
      obtain ⟨holds, same⟩ := holder_keeps inv moved other held
      refine ⟨holds, options, found, cleanFound, validated.later moved, ?_,
        recorded_later moved same recorded⟩
      rw [same]
      exact tracks

private theorem rests_later (moved : s.step p e s') (same : s'.base.disk = s.base.disk)
    (rests : s.Rests p) : s'.Rests p := by
  rw [Rests, same]
  exact rests.later moved

/-- The record after an action of `apply_config`. -/
private theorem recorded_next {t : τ} {n : ν} {c : Call cfg} {phase : Phase} {reloaded : Bool}
    {answer : CommandResult} (moved : s.step p (.act t answer) s')
    (here : s.base.task t = .apply n c (.inside phase reloaded))
    (disk : s'.base.disk = (phase.next (c.job p) answer s.base.disk).disk)
    (recorded : s.Recorded p c phase) :
    s'.Recorded p c (phase.next (c.job p) answer s.base.disk).phase := by
  have accepted := moved.2.2.1
  have kept := moved.2.2.2.1
  -- what was tested is recorded by the test, what is kept by the reload
  cases phase with
  | entered =>
    simp only [Phase.next]
    split
    · intro changed
      cases changed
    · trivial
  | compared currents => trivial
  | syncing currents todo => cases todo <;> trivial
  | testing currents =>
    simp only [Phase.next] at disk ⊢
    split
    next ok =>
      rw [if_pos ok] at disk
      show (c, managedSet p s'.base.disk) ∈ s'.accepted
      simp only [Cluster.accepts, here, ok, if_true] at accepted
      rw [accepted, disk]
      exact List.mem_append_left _ (List.mem_singleton_self _)
    next => trivial
  | reloading currents test =>
    simp only [Phase.next] at disk ⊢
    split
    next ok =>
      rw [if_pos ok] at disk
      intro _
      simp only [Cluster.keeps, here, ok, if_true] at kept
      rw [accepted, kept, disk]
      exact ⟨List.mem_append_right _ recorded, List.mem_append_left _ (List.mem_singleton_self _)⟩
    next => trivial
  | restoring currents test reload todo =>
    cases todo <;> cases reload
    · intro changed
      cases changed
    all_goals trivial
  | reloadingAgain currents test reload =>
    intro changed
    cases changed
  | done result =>
    have same : s'.base.disk = s.base.disk := disk
    exact recorded_later moved same recorded

/-- The acting task. -/
private theorem taskOk_own (inv : s.Inv p) (settled : s.base.ReloadsSettled p e)
    (moved : s.step p e s') : s'.TaskOk p e.task (s'.base.task e.task) := by
  obtain ⟨base', initial', accepted', kept', loads'⟩ := s'
  have acted := moved.1
  simp only at acted
  cases acted with
  | startApply free options =>
    simp only [Cluster.task_setTask, ClusterEvent.task, if_true]
    exact options
  | @enter t n c answer here free =>
    simp only [Cluster.task_setTask, ClusterEvent.task, if_true]
    have before := inv.tasks t
    rw [here] at before
    exact ⟨rfl, before, s.base.disk, fun past => absurd rfl past, (inv.rest free).later moved, rfl,
      trivial⟩
  | @work t n c phase reloaded answer here running =>
    simp only [Cluster.task_setTask, ClusterEvent.task, if_true]
    have before := inv.tasks t
    rw [here] at before
    obtain ⟨held, options, found, cleanFound, validated, tracks, recorded⟩ := before
    have clean : ∀ d, CleanFiles (managedSet p found d) := by
      refine tracks.clean_next ?_ cleanFound
      rintro rfl
      exact settled.1 n c reloaded here
    exact ⟨held, options, found, fun _ => clean, validated.later moved, tracks.next answer,
      recorded_next moved here rfl recorded⟩
  | _ =>
    simp only [Cluster.task_setTask, ClusterEvent.task, if_true]
    trivial

private theorem rest_step (inv : s.Inv p) (moved : s.step p e s') (free : s'.base.lock = none) :
    s'.Rests p := by
  have mine := inv.tasks e.task
  rcases moved.1.lock_cases with same | ⟨_, taken⟩ | ⟨_, n, c, result, reloaded, here⟩
  · rw [same] at free
    apply rests_later moved ?_ (inv.rest free)
    rcases moved.1.disk_cases with kept | ⟨n, c, phase, reloaded, here, _⟩
    · exact kept
    · rw [here] at mine
      cases free.symm.trans mine.1
  · cases free.symm.trans taken
  · rw [here] at mine
    apply rests_later moved ?_ (rests_of_settled mine rfl)
    rcases moved.1.disk_cases with kept | ⟨n', c', phase, reloaded', inside, running⟩
    · exact kept
    · rw [here] at inside
      cases inside
      cases running

/-- What an action loads is validated once the action is through. -/
private theorem loaded_validated (inv : s.Inv p) (settled : s.base.ReloadsSettled p e)
    (moved : s.step p e s') (loads : (s.base.loadsOn p e).isSome = true) :
    s'.Validated (managedSet p s.base.disk) := by
  cases e with
  | startApply t n c => cases loads
  | startReconcile t n => cases loads
  | act t answer =>
    have mine := inv.tasks t
    cases here : s.base.task t with
    | idle => simp [Cluster.loadsOn, here] at loads
    | reconcile n point =>
      cases point with
      | reloading v =>
        have ok : answer.ok = true := by
          by_contra failed
          simp [Cluster.loadsOn, here, failed] at loads
        -- no lock is taken here: an apply elsewhere must stand at a settled point
        have rests : s.Rests p := by
          cases held : s.base.lock with
          | none => exact inv.rest held
          | some u =>
            obtain ⟨m, c, phase, reloaded, inside⟩ := inv.holder u held
            have theirs := inv.tasks u
            rw [inside] at theirs
            exact rests_of_settled theirs (settled.2 n v here ok u m c phase reloaded inside)
        exact rests.later moved
      | _ => simp [Cluster.loadsOn, here] at loads
    | apply n c point =>
      cases point with
      | waiting => simp [Cluster.loadsOn, here] at loads
      | committed v => simp [Cluster.loadsOn, here] at loads
      | inside phase reloaded =>
        rw [here] at mine
        have own : (phase.next (c.job p) answer s.base.disk).loads = true := by
          by_contra quiet
          simp [Cluster.loadsOn, Cluster.workLoads, here, quiet] at loads
        have known := mine
        obtain ⟨_, options, found, _, _, tracks, recorded⟩ := mine
        rcases tracks.loads own with ⟨_, ⟨disk, currents, test, rfl⟩ | ⟨_, currents, test, reload, rfl⟩⟩
        · have ok : answer.ok = true := by
            by_contra failed
            simp [Phase.next, failed] at own
          have whole : ∀ d, managedSet p s.base.disk d = c.desired d := by
            rw [disk]
            exact managedSet_synced options found
          refine Or.inr ⟨c, ?_, ?_, whole⟩
          · rw [moved.2.2.1]
            exact List.mem_append_right _ recorded
          · have kept := moved.2.2.2.1
            simp only [Cluster.keeps, here, ok, if_true] at kept
            rw [kept]
            exact List.mem_append_left _ (List.mem_singleton_self _)
        · exact Validated.later moved (rests_of_settled known rfl)

private theorem loads_step (inv : s.Inv p) (settled : s.base.ReloadsSettled p e)
    (moved : s.step p e s') : s'.LoadsValidated := by
  intro set member
  rw [moved.2.2.2.2] at member
  rcases List.mem_append.mp member with new | old
  · split at new
    next loads =>
      rw [List.mem_singleton.mp new]
      exact loaded_validated inv settled moved loads
    next => cases new
  · exact (inv.loads set old).later moved

theorem inv_step (inv : s.Inv p) (settled : s.base.ReloadsSettled p e) (moved : s.step p e s') :
    s'.Inv p where
  rest := rest_step inv moved
  holder := moved.1.holder inv.holder
  tasks := by
    intro t
    by_cases acting : t = e.task
    · subst acting
      exact taskOk_own inv settled moved
    · exact taskOk_other inv moved acting
  loads := loads_step inv settled moved

end Step

omit [DecidableEq ν] [DecidableEq τ] in
theorem inv_start {p : ManagedPrefix} {disk : Disk} (row : Option Nat) :
    (start p disk row : Audited cfg ν τ).Inv p where
  rest := fun _ => Or.inl rfl
  holder := fun _ held => by cases held
  tasks := fun _ => trivial
  loads := fun _ member => by cases member

/-- In every run in which no reconcile reloads between the first write of an apply and its
end, and no apply compares with a file that holds a carriage return, only validated sets are
loaded. -/
theorem loads_validated {p : ManagedPrefix} {disk : Disk} {row : Option Nat}
    {s : Audited cfg ν τ}
    (run : Reaches (Guarded (fun s : Audited cfg ν τ => s.base.ReloadsSettled p) (Audited.step p))
      (start p disk row) s) : s.LoadsValidated := by
  have inv : s.Inv p := by
    apply Reaches.invariant (P := fun s : Audited cfg ν τ => s.Inv p) ?_ (inv_start row) run
    intro s e s' before moved
    exact inv_step before moved.1 moved.2
  exact inv.loads

/-! ### A writer and a reconciler -/

/-- The state after an action that leads to `base`. -/
def after (p : ManagedPrefix) (s : Audited cfg ν τ) (e : ClusterEvent cfg ν τ)
    (base : Cluster cfg ν τ) : Audited cfg ν τ where
  base := base
  initial := s.initial
  accepted := s.entry p (s.base.accepts e) ++ s.accepted
  kept := s.entry p (s.base.keeps e) ++ s.kept
  loads := (if (s.base.loadsOn p e).isSome then [managedSet p s.base.disk] else []) ++ s.loads

/-- The runs in which no reconcile reloads while an apply is writing. -/
abbrev SettledRun (p : ManagedPrefix) (s s' : Audited cfg ν τ) : Prop :=
  Reaches (Guarded (fun s : Audited cfg ν τ => s.base.ReloadsSettled p) (Audited.step p)) s s'

/-- An action of a task that does not reload as a reconcile, and compares with clean files. -/
theorem settledRun_act (p : ManagedPrefix) (s : Audited cfg ν τ) {t : τ} {answer : CommandResult}
    {base : Cluster cfg ν τ} (moved : s.base.Step p (.act t answer) base)
    (elsewhere : ∀ n v, s.base.task t ≠ .reconcile n (.reloading v))
    (compares : ∀ n c reloaded, s.base.task t = .apply n c (.inside .entered reloaded) →
      ∀ d, CleanFiles (managedSet p s.base.disk d)) :
    s.SettledRun p (s.after p (.act t answer) base) := by
  refine Reaches.tail (Reaches.refl ..) (e := .act t answer)
    ⟨⟨compares, ?_⟩, moved, rfl, rfl, rfl, rfl⟩
  intro n v here
  exact absurd here (elsewhere n v)

/-- Task `t` is inside `apply_config` for `c`, in the state of the call alone. -/
def Runs (s : Audited cfg ν τ) (t : τ) (c : Call cfg) (r : Running) : Prop :=
  ∃ n reloaded, s.base.task t = .apply n c (.inside r.phase reloaded) ∧ s.base.disk = r.disk

/-- The same record, and the other tasks where they were. -/
structure SameRecord (s s' : Audited cfg ν τ) (t : τ) : Prop where
  initial : s'.initial = s.initial
  kept : s'.kept = s.kept
  task : ∀ u, u ≠ t → s'.base.task u = s.base.task u

theorem runs_step {p : ManagedPrefix} {s : Audited cfg ν τ} {t : τ} {c : Call cfg}
    {r r' : Running} {answer : CommandResult} (runs : s.Runs t c r)
    (moved : callStep (c.job p) r answer r')
    (clean : r.phase = .entered → ∀ d, CleanFiles (managedSet p r.disk d)) :
    ∃ s', s.SettledRun p s' ∧ s'.Runs t c r' ∧
      ((∀ currents test, r.phase ≠ .reloading currents test) → s.SameRecord s' t) ∧
      ((r.phase.next (c.job p) answer r.disk).loads = true → managedSet p r.disk ∈ s'.loads) := by
  obtain ⟨n, reloaded, here, disk⟩ := runs
  obtain ⟨running, rfl⟩ := moved
  obtain ⟨phase, _, loaded⟩ := r
  subst disk
  have compares : ∀ n' c' reloaded', s.base.task t = .apply n' c' (.inside .entered reloaded') →
      ∀ d, CleanFiles (managedSet p s.base.disk d) := by
    intro n' c' reloaded' there
    cases here.symm.trans there
    exact clean rfl
  refine ⟨_, settledRun_act p s (Cluster.Step.work here running) (by simp [here]) compares,
    ⟨n, _, Function.update_self .., rfl⟩, fun notReloading => ⟨rfl, ?_, ?_⟩, fun loads => ?_⟩
  · have nothing : s.base.keeps (.act t answer) = none := by
      simp only [Cluster.keeps, here]
      split
      next currents test _ same =>
        cases same
        exact absurd rfl (notReloading currents test)
      next => rfl
    simp only [after, nothing]
    rfl
  · exact fun u other => Function.update_of_ne other _ _
  · simp only at running loads
    simp [after, Cluster.loadsOn, here, running, Cluster.workLoads, loads]

omit [DecidableEq ν] [DecidableEq τ] in
theorem SameRecord.trans {s s' s'' : Audited cfg ν τ} {t : τ} (first : s.SameRecord s' t)
    (second : s'.SameRecord s'' t) : s.SameRecord s'' t where
  initial := second.initial.trans first.initial
  kept := second.kept.trans first.kept
  task := fun u other => (second.task u other).trans (first.task u other)

/-- The points of a call up to the end of its sync. -/
def early : Phase → Bool
  | .entered | .compared _ | .syncing _ _ => true
  | _ => false

/-- A call does not come back to its sync. -/
private theorem early_before {job : Job} {r r' : Running} {answer : CommandResult}
    (moved : callStep job r answer r') (later : early r'.phase = true) : early r.phase = true := by
  obtain ⟨running, rfl⟩ := moved
  obtain ⟨phase, disk, loaded⟩ := r
  cases phase with
  | testing currents =>
    simp only [Running.after, Phase.next] at later
    split at later <;> cases later
  | reloading currents test =>
    simp only [Running.after, Phase.next] at later
    split at later <;> cases later
  | restoring currents test reload todo => cases todo <;> cases reload <;> cases later
  | reloadingAgain currents test reload => cases later
  | done result => cases running
  | _ => rfl

/-- A call that is left alone compares where it began. -/
theorem clean_of_reaches {p : ManagedPrefix} {job : Job} {r r' : Running}
    (run : Reaches (callStep job) r r')
    (clean : r.phase = .entered → ∀ d, CleanFiles (managedSet p r.disk d))
    (compares : r'.phase = .entered) (d : DirName) : CleanFiles (managedSet p r'.disk d) := by
  cases run with
  | refl => exact clean compares d
  | tail _ last =>
    obtain ⟨_, _, rfl⟩ := last
    exact absurd compares Phase.next_ne_entered

/-- A call on its way through the sync reloads nothing. -/
theorem runs_reaches {p : ManagedPrefix} {s : Audited cfg ν τ} {t : τ} {c : Call cfg}
    {r r' : Running} (runs : s.Runs t c r) (run : Reaches (callStep (c.job p)) r r')
    (later : early r'.phase = true)
    (clean : r.phase = .entered → ∀ d, CleanFiles (managedSet p r.disk d)) :
    ∃ s', s.SettledRun p s' ∧ s'.Runs t c r' ∧ s.SameRecord s' t := by
  induction run with
  | refl => exact ⟨s, Reaches.refl .., runs, rfl, rfl, fun _ _ => rfl⟩
  | @tail m r' way last ih =>
    obtain ⟨answer, moved⟩ := last
    have before := early_before moved later
    obtain ⟨middle, run₁, runs₁, same₁⟩ := ih before
    obtain ⟨s', run₂, runs₂, same₂, _⟩ := runs_step runs₁ moved (clean_of_reaches way clean)
    have notReloading : ∀ currents test, m.phase ≠ .reloading currents test := by
      intro currents test here
      rw [here] at before
      cases before
    exact ⟨s', Reaches.trans run₁ run₂, runs₂, same₁.trans (same₂ notReloading)⟩

/-- Loading the state and taking the lock. -/
theorem reaches_entered {p : ManagedPrefix} {s : Audited cfg ν τ} {t : τ} (n : ν) {c : Call cfg}
    (free : s.base.task t = .idle) (unlocked : s.base.lock = none)
    (options : c.options = haOptions p) (loaded : DirName → Files) :
    ∃ s', s.SettledRun p s' ∧ s'.Runs t c ⟨.entered, s.base.disk, loaded⟩ ∧ s.SameRecord s' t := by
  let waits := s.after p (.startApply t n c) (s.base.setTask t (.apply n c .waiting))
  have started : s.SettledRun p waits :=
    Reaches.tail (Reaches.refl ..) (e := .startApply t n c)
      ⟨trivial, Cluster.Step.startApply free options, rfl, rfl, rfl, rfl⟩
  have waiting : waits.base.task t = .apply n c .waiting := Function.update_self ..
  have entered := settledRun_act p waits
    (Cluster.Step.enter waiting unlocked : Cluster.Step p _ (.act t { ok := true }) _)
    (by simp [waiting]) (by simp [waiting])
  refine ⟨_, Reaches.trans started entered, ⟨n, false, Function.update_self .., rfl⟩, rfl, ?_, ?_⟩
  · simp only [after, Cluster.keeps, waiting]
    rfl
  · intro u other
    show Function.update (Function.update s.base.task t _) t _ u = _
    rw [Function.update_of_ne other, Function.update_of_ne other]

/-- An apply that finds a difference, up to the end of its sync. -/
theorem reaches_synced {p : ManagedPrefix} {s : Audited cfg ν τ} {t : τ} (n : ν) {c : Call cfg}
    (free : s.base.task t = .idle) (unlocked : s.base.lock = none)
    (options : c.options = haOptions p) (clean : ∀ d, CleanFiles (managedSet p s.base.disk d))
    (differs : ¬∀ d ∈ (c.job p).dirs, (c.job p).desired d =
      readTargets (c.job p).pre s.base.disk d) :
    ∃ s' currents, s.SettledRun p s' ∧
      s'.Runs t c ⟨.syncing currents [], (c.job p).synced s.base.disk, fun _ => ∅⟩ ∧
      s.SameRecord s' t := by
  obtain ⟨s₁, run₁, runs₁, same₁⟩ := reaches_entered n free unlocked options (fun _ => ∅)
  obtain ⟨s₂, run₂, runs₂, same₂⟩ := runs_reaches runs₁
    (Reaches.head (step_differs differs _ { ok := true }) (run_to_synced _ _ _ _).of_guarded) rfl
    fun _ => clean
  exact ⟨s₂, _, Reaches.trans run₁ run₂, runs₂, same₁.trans same₂⟩

/-- A reconcile on a node without a marker, up to its reload. -/
theorem reaches_reloading {p : ManagedPrefix} {s : Audited cfg ν τ} {t : τ} {n : ν}
    (free : s.base.task t = .idle) (fresh : (s.base.node n).marker = none) :
    ∃ s', s.SettledRun p s' ∧ s'.base.task t = .reconcile n (.reloading s.base.version) ∧
      s.SameRecord s' t ∧ s'.base.disk = s.base.disk ∧ s'.base.lock = s.base.lock := by
  let e : ClusterEvent cfg ν τ := .act t { ok := true }
  let starts := s.after p (.startReconcile t n) (s.base.setTask t (.reconcile n .starting))
  have run₁ : s.SettledRun p starts :=
    Reaches.tail (Reaches.refl ..) (e := .startReconcile t n)
      ⟨trivial, Cluster.Step.startReconcile free, rfl, rfl, rfl, rfl⟩
  have here₁ : starts.base.task t = .reconcile n .starting := Function.update_self ..
  let reads := starts.after p e (starts.base.setTask t (.reconcile n (.read s.base.version)))
  have run₂ : starts.SettledRun p reads :=
    settledRun_act p starts (Cluster.Step.readVersion here₁) (by simp [here₁]) (by simp [here₁])
  have here₂ : reads.base.task t = .reconcile n (.read s.base.version) := Function.update_self ..
  -- a node without a marker is behind every version
  have behind : readLocalVersion (reads.base.node n).marker < s.base.version := by
    rw [show (reads.base.node n).marker = none from fresh]
    simp only [readLocalVersion, unknownLocalVersion]
    omega
  let tests := reads.after p e (reads.base.setTask t (.reconcile n (.testing s.base.version)))
  have run₃ : reads.SettledRun p tests :=
    settledRun_act p reads (Cluster.Step.newer here₂ behind) (by simp [here₂]) (by simp [here₂])
  have here₃ : tests.base.task t = .reconcile n (.testing s.base.version) := Function.update_self ..
  have run₄ := settledRun_act p tests
    (Cluster.Step.testOk here₃ rfl : Cluster.Step p _ (.act t { ok := true }) _) (by simp [here₃])
    (by simp [here₃])
  refine ⟨_, Reaches.trans (Reaches.trans run₁ run₂) (Reaches.trans run₃ run₄),
    Function.update_self .., ⟨rfl, ?_, ?_⟩, rfl, rfl⟩
  · have nothing₂ : starts.base.keeps e = none := by simp only [Cluster.keeps, e, here₁]
    have nothing₃ : reads.base.keeps e = none := by simp only [Cluster.keeps, e, here₂]
    have nothing₄ : tests.base.keeps (.act t { ok := true }) = none := by
      simp only [Cluster.keeps, here₃]
    simp only [after, nothing₄]
    simp only [tests, after, nothing₃]
    simp only [reads, after, nothing₂]
    rfl
  · intro u other
    show Function.update (Function.update (Function.update (Function.update s.base.task t _) t _) t _)
      t _ u = _
    simp only [Function.update_of_ne other]

end Audited

/-! ### The sample cluster -/

/-- Two nodes and two tasks, an empty disk and version `0`. -/
def sampleAudited : Audited sampleDeployment Bool Bool :=
  Audited.start defaultPrefix (fun _ => ∅) (some 0)

/-- An apply on its own: what it loads is validated. -/
theorem loads_validated_first : ∃ (s : Audited sampleDeployment Bool Bool) (set : DirName → Files),
    set ∈ s.loads ∧ s.Validated set := by
  obtain ⟨c, options, _, _, differs⟩ := sampleApply
  obtain ⟨s₁, currents, run₁, runs₁, _⟩ := Audited.reaches_synced (s := sampleAudited) (t := false)
    false rfl rfl options (clean_noFiles _) differs
  obtain ⟨s₂, run₂, runs₂, _⟩ := Audited.runs_step runs₁
    (step_synced _ _ currents _ { ok := true }) fun same => by cases same
  have ok : ({ ok := true } : CommandResult).ok = true := rfl
  obtain ⟨s₃, run₃, runs₃, _⟩ := Audited.runs_step runs₂ (step_accepted _ _ currents _ ok)
    fun same => by cases same
  obtain ⟨s₄, run₄, _, _, loads⟩ := Audited.runs_step runs₃
    (step_reloaded _ _ currents _ { ok := true } ok) fun same => by cases same
  have run := Reaches.trans (Reaches.trans run₁ run₂) (Reaches.trans run₃ run₄)
  have member := loads rfl
  exact ⟨s₄, _, member, Audited.loads_validated run _ member⟩

/-- A reconcile that has passed its own test reloads while an apply on the other node has
written its files and not tested them: the set it loads was never accepted. -/
theorem load_unvalidated : ∃ (s : Audited sampleDeployment Bool Bool) (set : DirName → Files),
    Reaches (Audited.step defaultPrefix) sampleAudited s ∧ set ∈ s.loads ∧ ¬s.Validated set := by
  obtain ⟨c, options, _, _, differs⟩ := sampleApply
  obtain ⟨s₁, run₁, here₁, same₁, disk₁, lock₁⟩ :=
    Audited.reaches_reloading (p := defaultPrefix) (s := sampleAudited) (t := true) (n := true) rfl rfl
  have free : s₁.base.task false = .idle := same₁.task false (by decide)
  have found : s₁.base.disk = fun _ => ∅ := disk₁
  obtain ⟨s₂, currents, run₂, ⟨_, _, _, disk₂⟩, same₂⟩ := Audited.reaches_synced (s := s₁) (t := false)
    false free lock₁ options (by rw [found]; exact clean_noFiles defaultPrefix)
    (by rw [found]; exact differs)
  have here₂ : s₂.base.task true = .reconcile true (.reloading 0) :=
    (same₂.task true (by decide)).trans here₁
  -- the reload takes what is on disk by then
  let e : ClusterEvent sampleDeployment Bool Bool := .act true { ok := true }
  have reload : Audited.step defaultPrefix s₂ e (s₂.after defaultPrefix e _) :=
    ⟨Cluster.Step.reloadOk here₂ rfl, rfl, rfl, rfl, rfl⟩
  refine ⟨_, managedSet defaultPrefix s₂.base.disk,
    (Reaches.trans run₁ run₂).of_guarded.tail reload, ?_, ?_⟩
  · simp [Audited.after, Cluster.loadsOn, e, here₂]
  · rintro (same | ⟨d, _, kept, _⟩)
    · rw [show (s₂.after defaultPrefix e _).initial = managedSet defaultPrefix (fun _ => ∅) from
        same₂.initial.trans same₁.initial, disk₂, found] at same
      apply differs
      intro d target
      have synced := (c.job defaultPrefix).managedFiles_synced (fun _ => ∅) target
      have read := readManaged_of_clean (clean_noFiles defaultPrefix d)
      exact synced.symm.trans ((congrFun same d).trans read.symm)
    · have nothing : s₂.base.keeps e = none := by simp only [Cluster.keeps, e, here₂]
      have none : s₂.kept = [] := same₂.kept.trans same₁.kept
      simp only [Audited.after, nothing, none] at kept
      cases kept

end MegooPM
