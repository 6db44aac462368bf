import MegooPM.Nginx.Settled

/-!
# Truthful answers over runs with failures

One host on which calls of `apply_config` follow each other and may be cut off at any
action. The up-to-date answer compares the rendering with the disk only, so it is
truthful as long as the disk and the running nginx agree whenever no call is under
way. A cut between the first write of a call and its reload breaks that agreement
for good; without such a cut, and without carriage returns for `read_text` to
translate where a call compares, every answer is truthful.
-/
namespace MegooPM

open Lib

/-- A host: its disk, what its nginx last loaded, and the call under way or just
returned. -/
structure Host (cfg : Deployment) where
  disk : Disk
  loaded : DirName → Files
  call : Option (Call cfg × Phase)

/-- What can happen on a host. -/
inductive HostEvent (cfg : Deployment) where
  /-- the next call enters its lock -/
  | begin (c : Call cfg)
  /-- one action of the call; `answer` is what the controller says if it is asked -/
  | act (answer : CommandResult)
  /-- the process dies, or a controller call raises; `leftover` is what a write that was
  under way had put into its temp file -/
  | cut (leftover : Option String)

/-- The instruction a phase is at. -/
def Phase.instruction (job : Job) : Phase → Option Instr
  | .compared _ => (syncProgram job.dirs job.desired).head?
  | .syncing _ todo => todo.head?
  | .restoring _ _ _ todo => todo.head?
  | _ => none

/-- The disk after a cut: a write under way leaves its temp file. -/
def abandon (i : Option Instr) (leftover : Option String) (disk : Disk) : Disk :=
  match i, leftover with
  | some (.write d name _), some text => updateDir disk d fun dir => dir.insert (tempName name) text
  | _, _ => disk

namespace Host

variable {cfg : Deployment}

/-- nginx was started on what is on disk. -/
def start (p : ManagedPrefix) (disk : Disk) : Host cfg where
  disk := disk
  loaded := managedSet p disk
  call := none

/-- Whether a new call can enter. -/
def idle (s : Host cfg) : Bool :=
  match s.call with
  | none => true
  | some (_, phase) => phase.isDone

def step (p : ManagedPrefix) (s : Host cfg) (e : HostEvent cfg) (s' : Host cfg) : Prop :=
  match e with
  | .begin c => s.idle = true ∧ c.options.managedPrefix = p.text ∧
      s' = { s with
        disk := if c.options.ownLock then openLock s.disk else s.disk
        call := some (c, .entered) }
  | .act answer => ∃ c phase r, s.call = some (c, phase) ∧
      callStep (c.job p) ⟨phase, s.disk, s.loaded⟩ answer r ∧
      s' = { disk := r.disk, loaded := r.loaded, call := some (c, r.phase) }
  | .cut leftover => ∃ c phase, s.call = some (c, phase) ∧
      s' = { s with
        disk := abandon (phase.instruction (c.job p)) leftover s.disk
        call := none }

/-- A call that returned without a rollback: nginx runs exactly the managed files on disk,
and these are the rendering of the call's state. -/
def Truthful (p : ManagedPrefix) (s : Host cfg) : Prop :=
  ∀ c result, s.call = some (c, .done result) → result.rolledBack = false →
    s.loaded = managedSet p s.disk ∧ ∀ d ∈ c.options.dirs, managedSet p s.disk d = c.desired d

end Host

/-! ### The condition -/

/-- A call compares with files without carriage returns, and is cut off at settled points
only. -/
def Host.orderly {cfg : Deployment} (p : ManagedPrefix) (s : Host cfg) : HostEvent cfg → Prop
  | .begin _ => True
  | .act _ => ∀ c, s.call = some (c, .entered) → ∀ d, CleanFiles (managedSet p s.disk d)
  | .cut _ => ∀ c phase, s.call = some (c, phase) → phase.settled = true

/-- A temp file left behind is not managed. -/
theorem managedSet_abandon (p : ManagedPrefix) (i : Option Instr) (leftover : Option String)
    (disk : Disk) : managedSet p (abandon i leftover disk) = managedSet p disk := by
  unfold abandon
  split
  next d name content text =>
    funext e
    by_cases here : e = d
    · subst here
      apply Std.ExtTreeMap.ext_getElem?
      intro other
      simp only [managedSet, get_managedFiles, updateDir_self]
      split
      next managed => rw [Dict.get_insert, if_neg (tempName_ne (p.visible other managed))]
      next => rfl
    · simp only [managedSet, updateDir_other _ _ here]
  next => rfl

/-! ### The invariant -/

namespace Host

variable {cfg : Deployment} {p : ManagedPrefix}

/-- The call under way started from a disk nginx agreed with, and a call that has
returned leaves a disk nginx agrees with. -/
def CallInv (p : ManagedPrefix) (s : Host cfg) (c : Call cfg) (phase : Phase) : Prop :=
  ∃ start, (phase ≠ .entered → ∀ d, CleanFiles (managedSet p start d)) ∧
    phase.Tracks (c.job p) start s.disk ∧
    s.loaded = managedSet p (if phase.isDone then s.disk else start)

def Inv (p : ManagedPrefix) (s : Host cfg) : Prop :=
  match s.call with
  | none => s.loaded = managedSet p s.disk
  | some (c, phase) => s.CallInv p c phase

/-- Where the disk agrees with nginx again: at every settled point. -/
private theorem agrees_of_settled {s : Host cfg} {c : Call cfg} {phase : Phase}
    (inv : s.CallInv p c phase) (settled : phase.settled = true) :
    s.loaded = managedSet p s.disk := by
  obtain ⟨start, clean, tracks, loaded⟩ := inv
  cases ended : phase.isDone with
  | true =>
    rw [ended] at loaded
    exact loaded
  | false =>
    rw [ended] at loaded
    rcases tracks.settled settled clean with same | ⟨result, done, _⟩
    · rw [show managedSet p s.disk = managedSet p start from same]
      exact loaded
    · rw [done] at ended
      cases ended

private theorem inv_begin {s : Host cfg} (inv : s.Inv p) (idle : s.idle = true) :
    s.loaded = managedSet p s.disk := by
  unfold Inv at inv
  unfold Host.idle at idle
  split at inv
  next none => exact inv
  next c phase here =>
    simp only [here] at idle
    cases phase with
    | done result => exact agrees_of_settled inv rfl
    | _ => cases idle

/-- One action of a call keeps the invariant. -/
private theorem inv_act {s : Host cfg} {c : Call cfg} {phase : Phase} (inv : s.CallInv p c phase)
    (compares : phase = .entered → ∀ d, CleanFiles (managedSet p s.disk d))
    (running : phase.isDone = false) (answer : CommandResult) :
    let r := Running.after (c.job p) answer ⟨phase, s.disk, s.loaded⟩
    CallInv p ({ disk := r.disk, loaded := r.loaded, call := some (c, r.phase) } : Host cfg) c
      r.phase := by
  obtain ⟨start, clean, tracks, loaded⟩ := inv
  have cleanStart : ∀ d, CleanFiles (managedSet p start d) := tracks.clean_next compares clean
  intro r
  let o := phase.next (c.job p) answer s.disk
  have onward := tracks.next answer
  refine ⟨start, fun _ => cleanStart, onward, ?_⟩
  rw [running] at loaded
  show (if o.loads then managedSet p o.disk else s.loaded) =
    managedSet p (if o.phase.isDone then o.disk else start)
  by_cases loads : o.loads = true
  · have ended : o.phase.isDone = true := Phase.isDone_of_loads running loads
    simp only [loads, ended, if_true]
  · simp only [loads, if_false, Bool.false_eq_true]
    cases ends : o.phase with
    | done result =>
      have back : managedSet p ((c.job p).restored start) = managedSet p start :=
        managedSet_restored (c.job p) cleanStart
      have unchanged : ¬result.changed = true := fun changed =>
        loads (Phase.loads_of_changed running ends changed)
      change o.phase.Tracks (c.job p) start o.disk at onward
      rw [ends] at onward
      rcases onward with ⟨_, _, same, _⟩ | ⟨_, _, same⟩ | ⟨changed, _⟩
      · rw [same]
        exact loaded
      · simp only [Phase.isDone, if_true, same, back]
        exact loaded
      · exact absurd changed unchanged
    | _ => exact loaded

theorem inv_step {s s' : Host cfg} {e : HostEvent cfg} (inv : s.Inv p) (orderly : s.orderly p e)
    (moved : s.step p e s') : s'.Inv p := by
  cases e with
  | begin c =>
    obtain ⟨idle, _, rfl⟩ := moved
    refine ⟨if c.options.ownLock then openLock s.disk else s.disk, fun past => absurd rfl past,
      rfl, ?_⟩
    rw [inv_begin inv idle]
    simp only [Phase.isDone, if_false, Bool.false_eq_true]
    split
    · rw [managedSet_openLock]
    · rfl
  | act answer =>
    obtain ⟨c, phase, r, here, ⟨running, rfl⟩, rfl⟩ := moved
    unfold Inv at inv
    rw [here] at inv
    refine inv_act inv ?_ running answer
    rintro rfl
    exact orderly c here
  | cut leftover =>
    obtain ⟨c, phase, here, rfl⟩ := moved
    unfold Inv at inv
    rw [here] at inv
    have settled := agrees_of_settled inv (orderly c phase here)
    show s.loaded = managedSet p _
    rw [managedSet_abandon]
    exact settled

/-- In the invariant, an answer without a rollback is truthful. -/
theorem truthful_of_inv {s : Host cfg} (inv : s.Inv p) : s.Truthful p := by
  intro c result here kept
  unfold Inv at inv
  rw [here] at inv
  refine ⟨agrees_of_settled inv rfl, ?_⟩
  intro d target
  obtain ⟨start, clean, tracks, _⟩ := inv
  have cleanStart := clean fun same => by cases same
  rcases tracks with ⟨_, _, same, equal⟩ | ⟨_, rolledBack, _⟩ | ⟨_, _, same⟩
  · rw [same]
    calc managedSet p start d
        = readManaged p.text (start d) := (readManaged_of_clean (cleanStart d)).symm
      _ = c.desired d := (equal d target).symm
  · rw [kept] at rolledBack
    cases rolledBack
  · rw [same]
    exact (c.job p).managedFiles_synced start target

/-- In every run in which no call is cut off between its first write and the end of its
reload or rollback, and none compares with a file that holds a carriage return, every answer
without a rollback is truthful. -/
theorem answers_truthful {disk : Disk} {s : Host cfg}
    (run : Reaches (Guarded (Host.orderly p) (Host.step p)) (Host.start p disk) s) :
    s.Truthful p := by
  apply truthful_of_inv
  apply Reaches.invariant (P := Inv p) ?_ ?_ run
  · intro t e u inv moved
    exact inv_step inv moved.1 moved.2
  · exact rfl

/-- The actions of a call, on a host whose files were clean when it compared. -/
theorem reaches_of_call {c : Call cfg} {r r' : Running} (run : Reaches (callStep (c.job p)) r r')
    (clean : r.phase = .entered → ∀ d, CleanFiles (managedSet p r.disk d)) :
    Reaches (Guarded (Host.orderly p) (Host.step p)) ⟨r.disk, r.loaded, some (c, r.phase)⟩
      ⟨r'.disk, r'.loaded, some (c, r'.phase)⟩ := by
  induction run with
  | refl => exact Reaches.refl ..
  | @tail m _ before last ih =>
    obtain ⟨answer, moved⟩ := last
    refine Reaches.tail ih (e := .act answer) ⟨?_, c, _, _, rfl, moved, rfl⟩
    intro c' compares
    -- the comparison is the first action of a call
    cases before with
    | refl => exact clean (Prod.mk.inj (Option.some.inj compares)).2
    | tail _ earlier =>
      obtain ⟨_, _, rfl⟩ := earlier
      exact absurd (Prod.mk.inj (Option.some.inj compares)).2 Phase.next_ne_entered

end Host

/-! ### The sample deployment -/

/-- The first call on an empty disk reports the change, truthfully. -/
theorem answers_truthful_first : ∃ (s : Host sampleDeployment) (c : Call sampleDeployment)
    (result : ApplyResult),
    s.call = some (c, .done result) ∧ result.changed = true ∧ c.state = {} ∧
    s.loaded = managedSet defaultPrefix s.disk ∧
    ∀ d ∈ c.options.dirs, managedSet defaultPrefix s.disk d = c.desired d := by
  obtain ⟨desired, rendered, _, content, wanted⟩ := renderTargets_empty
  let c : Call sampleDeployment := ⟨{}, {}, desired, rendered⟩
  let disk : Disk := fun _ => ∅
  obtain ⟨loaded, run, _⟩ := run_applyTargets (c.job defaultPrefix) acceptAll (openLock disk)
    (managedSet defaultPrefix disk)
  have begun : Guarded (Host.orderly defaultPrefix) (Host.step defaultPrefix)
      (Host.start defaultPrefix disk) (.begin c)
      ⟨openLock disk, managedSet defaultPrefix disk, some (c, .entered)⟩ :=
    ⟨trivial, rfl, rfl, rfl⟩
  have clean : ∀ d, CleanFiles (managedSet defaultPrefix (openLock disk) d) := by
    rw [managedSet_openLock]
    exact clean_noFiles defaultPrefix
  have path := applied_of_unmanaged wanted (openLock disk) (by decide)
  have whole := Reaches.head begun (Host.reaches_of_call run fun _ => clean)
  rw [show applyTargets (c.job defaultPrefix).pre (c.job defaultPrefix).dirs
    (c.job defaultPrefix).desired acceptAll (openLock disk) = _ from path] at whole
  exact ⟨_, c, _, rfl, rfl, rfl, Host.answers_truthful whole c _ rfl rfl⟩

/-- A call is cut off after its sync, before `nginx -t`: the next call for the same state
answers that everything is up to date, while nginx still runs the empty configuration. -/
theorem upToDate_untruthful : ∃ (s : Host sampleDeployment) (c : Call sampleDeployment),
    Reaches (Host.step defaultPrefix) (Host.start defaultPrefix fun _ => ∅) s ∧
    c.options = {} ∧ c.state = {} ∧
    s.call = some (c, .done (upToDate c.options.dirs c.desired)) ∧
    s.loaded .default = ∅ ∧ managedSet defaultPrefix s.disk .default ≠ ∅ := by
  obtain ⟨desired, rendered, _, content, wanted⟩ := renderTargets_empty
  let c : Call sampleDeployment := ⟨{}, {}, desired, rendered⟩
  let disk : Disk := fun _ => ∅
  let job := c.job defaultPrefix
  let loaded := managedSet defaultPrefix disk
  have target : DirName.default ∈ job.dirs := by
    show DirName.default ∈ ({} : ApplyOptions).dirs
    decide
  -- the first call, up to the test
  have differs : ¬∀ d ∈ job.dirs, job.desired d = readTargets job.pre (openLock disk) d := by
    intro same
    have read := congrArg (fun files : Files => files[errorsConf]?) (same .default target)
    simp only [readTargets, get_readManaged] at read
    rw [show (job.desired .default)[errorsConf]? = some content from wanted,
      show (openLock disk .default)[errorsConf]? = none by decide, Option.map_none, ite_self] at read
    cases read
  have toSynced := Reaches.head (step_differs differs loaded { ok := true })
    (run_to_synced job (openLock disk) (readTargets job.pre (openLock disk)) loaded).of_guarded
  have cleanStart : ∀ d, CleanFiles (managedSet defaultPrefix (openLock disk) d) := by
    rw [managedSet_openLock]
    exact clean_noFiles defaultPrefix
  have toTest := Host.reaches_of_call
    (Reaches.tail toSynced (step_synced job _ _ loaded { ok := true })) fun _ => cleanStart
  have begun : Host.step defaultPrefix (Host.start defaultPrefix disk) (.begin c)
      ⟨openLock disk, loaded, some (c, .entered)⟩ := ⟨rfl, rfl, rfl⟩
  have cut : Host.step defaultPrefix
      ⟨job.synced (openLock disk), loaded, some (c, .testing (readTargets job.pre (openLock disk)))⟩
      (.cut none) ⟨job.synced (openLock disk), loaded, none⟩ := ⟨c, _, rfl, rfl⟩
  -- the second call
  let left := openLock (job.synced (openLock disk))
  have again : Host.step defaultPrefix ⟨job.synced (openLock disk), loaded, none⟩ (.begin c)
      ⟨left, loaded, some (c, .entered)⟩ := ⟨rfl, rfl, rfl⟩
  have reads : ∀ d ∈ job.dirs, job.desired d = readTargets job.pre left d := by
    intro d target
    have synced := job.managedFiles_synced (openLock disk) target
    have clean : CleanFiles (managedFiles job.pre (job.synced (openLock disk) d)) := by
      rw [synced]
      exact clean_renderTargets_empty rendered d
    calc job.desired d = managedFiles job.pre (job.synced (openLock disk) d) := synced.symm
      _ = readManaged job.pre (job.synced (openLock disk) d) := (readManaged_of_clean clean).symm
      _ = readTargets job.pre left d := (readManaged_openLock defaultPrefix.visible _ d).symm
  have cleanLeft : ∀ d, CleanFiles (managedSet defaultPrefix left d) := by
    rw [managedSet_openLock]
    exact clean_synced c cleanStart (clean_renderTargets_empty rendered)
  have answered := Host.reaches_of_call
    (Reaches.tail (Reaches.refl (callStep job) ⟨.entered, left, loaded⟩)
      (step_upToDate reads loaded { ok := true })) fun _ => cleanLeft
  refine ⟨⟨left, loaded, some (c, .done (upToDate job.dirs job.desired))⟩, c, ?_, rfl, rfl, rfl,
    ?_, ?_⟩
  · exact Reaches.trans (Reaches.head begun toTest.of_guarded)
      (Reaches.head cut (Reaches.head again answered.of_guarded))
  · show managedFiles defaultManagedPrefix ∅ = ∅
    decide
  · intro empty
    have synced := job.managedFiles_synced (openLock disk) target
    rw [managedSet_openLock] at empty
    have found := congrArg (fun files : Files => files[errorsConf]?) (synced.symm.trans empty)
    rw [show (job.desired .default)[errorsConf]? = some content from wanted] at found
    simp at found

end MegooPM
