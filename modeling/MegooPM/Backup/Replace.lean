import MegooPM.Backup.Restore
import MegooPM.Lib.Transition

/-!
# Replacing a live tree

`_replace_tree` of `services/backup/runner.py`, call by call. The new tree is copied beside the
live one, the live one is renamed away and the copy renamed into its place. A call may raise and
the process may die at any point; the next attempt starts by deleting what the last one left.
-/
namespace MegooPM

open Lib

/-- The files of a directory, by their path below it. -/
abbrev Tree := List (FsPath × FsEntry)

/-- The live directory, its `.restoring` and its `.previous`. -/
structure Siblings where
  target : Option Tree
  staged : Option Tree
  previous : Option Tree
  deriving DecidableEq, Repr

/-- The call that is next or under way. -/
inductive ReplacePc where
  /-- `rmtree(staged)`, which ignores errors -/
  | clearStaged
  /-- `copytree(source, staged)` -/
  | copy
  | copying
  /-- `rmtree(previous)`, which ignores errors -/
  | clearPrevious
  /-- `target.rename(previous)`, if there is a target -/
  | setAside
  /-- `staged.rename(target)` -/
  | install
  /-- `rmtree(previous)` again -/
  | discard
  deriving DecidableEq, Repr

/-- `good` is the last tree that was put into place as a whole. -/
structure ReplaceState where
  dirs : Siblings
  running : Option (Tree × ReplacePc) := none
  good : Tree
  deriving DecidableEq, Repr

inductive ReplaceLabel where
  | start (source : Tree)
  /-- a deletion gets some way -/
  | removing (left : Option Tree)
  /-- a copy gets some way -/
  | copying (copied : Tree)
  /-- the call returns -/
  | next
  /-- it raises, or the process dies -/
  | stop
  deriving DecidableEq, Repr

/-- What is left of a directory while it is deleted. -/
def shrinks (before left : Option Tree) : Bool :=
  match before, left with
  | _, none => true
  | some before, some left => left.isSublist before
  | none, some _ => false

/-- A directory can be renamed to this name: nothing is there, or an empty directory. -/
def vacant (there : Option Tree) : Bool :=
  there = none || there = some []

def ReplaceState.step (s : ReplaceState) : ReplaceLabel → Option ReplaceState
  | .start source =>
    if s.running = none then some { s with running := some (source, .clearStaged) } else none
  | .removing left =>
    match s.running with
    | some (_, .clearStaged) =>
      if shrinks s.dirs.staged left then some { s with dirs := { s.dirs with staged := left } }
      else none
    | some (_, .clearPrevious) | some (_, .discard) =>
      if shrinks s.dirs.previous left then some { s with dirs := { s.dirs with previous := left } }
      else none
    | _ => none
  | .copying copied =>
    match s.running with
    | some (source, .copy) =>
      -- it raises if the directory is still there
      if s.dirs.staged = none then
        some { s with dirs := { s.dirs with staged := some copied }, running := some (source, .copying) }
      else none
    | some (_, .copying) => some { s with dirs := { s.dirs with staged := some copied } }
    | _ => none
  | .next =>
    match s.running with
    | some (source, .clearStaged) => some { s with running := some (source, .copy) }
    | some (source, .copying) =>
      some { s with dirs := { s.dirs with staged := some source }
                    running := some (source, .clearPrevious) }
    | some (source, .clearPrevious) => some { s with running := some (source, .setAside) }
    | some (source, .setAside) =>
      match s.dirs.target with
      | none => some { s with running := some (source, .install) }
      | some live =>
        if vacant s.dirs.previous then
          some { s with dirs := { s.dirs with target := none, previous := some live }
                        running := some (source, .install) }
        else none
    | some (source, .install) =>
      match s.dirs.staged with
      | none => none
      | some new =>
        if vacant s.dirs.target then
          some { dirs := { s.dirs with target := some new, staged := none }
                 running := some (source, .discard)
                 good := new }
        else none
    | some (_, .discard) => some { s with running := none }
    | _ => none
  | .stop => if s.running = none then none else some { s with running := none }

def ReplaceStep (s : ReplaceState) (l : ReplaceLabel) (s' : ReplaceState) : Prop :=
  s.step l = some s'

/-- The attempt is between its two renames. -/
def ReplaceState.between (s : ReplaceState) : Bool :=
  match s.running with
  | some (_, .install) => true
  | _ => false

/-- An attempt does not stop between its two renames. -/
def unbroken (s : ReplaceState) (l : ReplaceLabel) : Prop :=
  l = .stop → s.between = false

/-- A complete copy of a tree is on disk. -/
def Siblings.Holds (dirs : Siblings) (tree : Tree) : Prop :=
  dirs.target = some tree ∨ dirs.staged = some tree ∨ dirs.previous = some tree

/-! ### What a step does -/

inductive ReplaceEffect (s : ReplaceState) : ReplaceLabel → ReplaceState → Prop
  | start (source : Tree) (idle : s.running = none) :
    ReplaceEffect s (.start source) { s with running := some (source, .clearStaged) }
  | stop (source : Tree) (pc : ReplacePc) (running : s.running = some (source, pc)) :
    ReplaceEffect s .stop { s with running := none }
  | clearing (source : Tree) (left : Option Tree) (running : s.running = some (source, .clearStaged)) :
    ReplaceEffect s (.removing left) { s with dirs := { s.dirs with staged := left } }
  | cleared (source : Tree) (running : s.running = some (source, .clearStaged)) :
    ReplaceEffect s .next { s with running := some (source, .copy) }
  | copying (source copied : Tree)
    (running : s.running = some (source, .copy) ∨ s.running = some (source, .copying)) :
    ReplaceEffect s (.copying copied)
      { s with dirs := { s.dirs with staged := some copied }, running := some (source, .copying) }
  | copied (source : Tree) (running : s.running = some (source, .copying)) :
    ReplaceEffect s .next
      { s with dirs := { s.dirs with staged := some source }
               running := some (source, .clearPrevious) }
  | forgetting (source : Tree) (left : Option Tree)
    (running : s.running = some (source, .clearPrevious) ∨ s.running = some (source, .discard)) :
    ReplaceEffect s (.removing left) { s with dirs := { s.dirs with previous := left } }
  | forgot (source : Tree) (running : s.running = some (source, .clearPrevious)) :
    ReplaceEffect s .next { s with running := some (source, .setAside) }
  | absent (source : Tree) (running : s.running = some (source, .setAside))
    (missing : s.dirs.target = none) :
    ReplaceEffect s .next { s with running := some (source, .install) }
  | aside (source live : Tree) (running : s.running = some (source, .setAside))
    (there : s.dirs.target = some live) :
    ReplaceEffect s .next
      { s with dirs := { s.dirs with target := none, previous := some live }
               running := some (source, .install) }
  | installed (source new : Tree) (running : s.running = some (source, .install))
    (there : s.dirs.staged = some new) :
    ReplaceEffect s .next
      { dirs := { s.dirs with target := some new, staged := none }
        running := some (source, .discard)
        good := new }
  | discarded (source : Tree) (running : s.running = some (source, .discard)) :
    ReplaceEffect s .next { s with running := none }

section Steps

variable {s s' : ReplaceState} {l : ReplaceLabel}

theorem ReplaceStep.effect (step : ReplaceStep s l s') : ReplaceEffect s l s' := by
  unfold ReplaceStep ReplaceState.step at step
  split at step
  next source =>
    split at step
    next idle =>
      cases step
      exact .start source idle
    next => cases step
  -- a deletion goes on, in the staging directory or in the one set aside
  next left =>
    split at step
    next source running =>
      split at step
      · cases step
        exact .clearing source left running
      · cases step
    next source running =>
      split at step
      · cases step
        exact .forgetting source left (Or.inl running)
      · cases step
    next source running =>
      split at step
      · cases step
        exact .forgetting source left (Or.inr running)
      · cases step
    next => cases step
  -- a copy goes on
  next copied =>
    split at step
    next source running =>
      split at step
      · cases step
        exact .copying source copied (Or.inl running)
      · cases step
    next source running =>
      cases step
      have same : ({ s with dirs := { s.dirs with staged := some copied } } : ReplaceState) =
          { s with dirs := { s.dirs with staged := some copied }
                   running := some (source, .copying) } := by rw [running]
      rw [same]
      exact .copying source copied (Or.inr running)
    next => cases step
  next =>
    split at step
    next source running =>
      cases step
      exact .cleared source running
    next source running =>
      cases step
      exact .copied source running
    next source running =>
      cases step
      exact .forgot source running
    next source running =>
      split at step
      next missing =>
        cases step
        exact .absent source running missing
      next live there =>
        split at step
        · cases step
          exact .aside source live running there
        · cases step
    next source running =>
      split at step
      next => cases step
      next new there =>
        split at step
        · cases step
          exact .installed source new running there
        · cases step
    next source running =>
      cases step
      exact .discarded source running
    next => cases step
  next =>
    split at step
    next => cases step
    -- the attempt stops where it is
    next busy =>
      cases step
      obtain ⟨⟨source, pc⟩, running⟩ := Option.ne_none_iff_exists'.mp busy
      exact .stop source pc running

/-! ### Under way -/

/-- Where the trees are, call by call. -/
def ReplaceState.Placed (s : ReplaceState) : Prop :=
  match s.running with
  | none | some (_, .clearStaged) | some (_, .copy) | some (_, .copying) | some (_, .discard) =>
    s.dirs.target = some s.good
  | some (source, .clearPrevious) | some (source, .setAside) =>
    s.dirs.target = some s.good ∧ s.dirs.staged = some source
  | some (source, .install) =>
    s.dirs.target = none ∧ s.dirs.staged = some source ∧ s.dirs.previous = some s.good

theorem ReplaceState.Placed.holds (placed : s.Placed) : s.dirs.Holds s.good := by
  unfold ReplaceState.Placed at placed
  split at placed
  all_goals first
    | exact Or.inl placed
    | exact Or.inl placed.1
    | exact Or.inr (Or.inr placed.2.2)

/-- Where the trees are after a step. -/
theorem step_placed (placed : s.Placed) (ok : unbroken s l) (step : ReplaceStep s l s') :
    s'.Placed := by
  cases step.effect with
  | start source idle => simpa only [ReplaceState.Placed, idle] using placed
  | stop source pc running =>
    have apart := ok rfl
    simp only [ReplaceState.between, running] at apart
    simp only [ReplaceState.Placed, running] at placed ⊢
    cases pc with
    | install => cases apart
    | clearPrevious | setAside => exact placed.1
    | clearStaged | copy | copying | discard => exact placed
  | clearing source left running => simpa only [ReplaceState.Placed, running] using placed
  | cleared source running => simpa only [ReplaceState.Placed, running] using placed
  | copying source copied running =>
    rcases running with running | running
    · simpa only [ReplaceState.Placed, running] using placed
    · simpa only [ReplaceState.Placed, running] using placed
  | copied source running => simpa only [ReplaceState.Placed, running, and_true] using placed
  | forgetting source left running =>
    rcases running with running | running
    · simpa only [ReplaceState.Placed, running] using placed
    · simpa only [ReplaceState.Placed, running] using placed
  | forgot source running => simpa only [ReplaceState.Placed, running] using placed
  | absent source running missing =>
    simp only [ReplaceState.Placed, running, missing] at placed
    cases placed.1
  | aside source live running there =>
    simp only [ReplaceState.Placed, running, there] at placed
    exact ⟨rfl, placed.2, placed.1⟩
  | installed source new running there => exact rfl
  | discarded source running => simpa only [ReplaceState.Placed, running] using placed

/-- The attempt under way is for `source`, and what is good is what was or what will be. -/
structure ReplaceState.Within (old source : Tree) (s : ReplaceState) : Prop where
  placed : s.Placed
  running : ∀ tree pc, s.running = some (tree, pc) → tree = source
  good : s.good = old ∨ s.good = source

theorem step_within {old source : Tree} (within : s.Within old source) (ok : unbroken s l)
    (under : ∀ tree, l ≠ .start tree) (step : ReplaceStep s l s') : s'.Within old source := by
  have placed := step_placed within.placed ok step
  have same : ∀ tree pc, s.running = some (tree, pc) → tree = source := within.running
  cases step.effect with
  | start source idle => exact absurd rfl (under source)
  | stop tree pc running | discarded tree running =>
    exact ⟨placed, (fun _ _ none => by cases none), within.good⟩
  | clearing tree left running | forgetting tree left running => exact ⟨placed, same, within.good⟩
  | cleared tree running | forgot tree running | absent tree running missing
  | copied tree running | aside tree live running there =>
    refine ⟨placed, fun other pc now => ?_, within.good⟩
    cases now
    exact same _ _ running
  | copying tree copied running =>
    refine ⟨placed, fun other pc now => ?_, within.good⟩
    cases now
    rcases running with running | running
    · exact same _ _ running
    · exact same _ _ running
  | installed tree new running there =>
    have whole := within.placed
    simp only [ReplaceState.Placed, running, there] at whole
    have own := same _ _ running
    refine ⟨placed, fun other pc now => ?_, Or.inr ?_⟩
    · cases now
      exact own
    · exact (Option.some.inj whole.2.1).trans own

end Steps

/-- In every run in which no attempt stops between its two renames, a complete copy of the last
good tree is on disk; between attempts it is the live one, and whatever becomes of the next
attempt, it leaves the old tree or the new one there. -/
theorem tree_old_or_new {dirs : Siblings} {first : Tree} (live : dirs.target = some first)
    {s : ReplaceState}
    (run : Reaches (Guarded unbroken ReplaceStep) { dirs := dirs, good := first } s) :
    s.dirs.Holds s.good ∧
    (s.running = none → s.dirs.target = some s.good ∧
      ∀ source s', Reaches (Guarded (fun s l => unbroken s l ∧ ∀ tree, l ≠ .start tree) ReplaceStep)
          { s with running := some (source, .clearStaged) } s' →
        (s'.good = s.good ∨ s'.good = source) ∧ s'.dirs.Holds s'.good ∧
        (s'.running = none → s'.dirs.target = some s.good ∨ s'.dirs.target = some source)) := by
  have start : ReplaceState.Placed { dirs := dirs, good := first } := live
  have placed : s.Placed := by
    refine run.invariant (P := ReplaceState.Placed) ?_ start
    rintro s l s' before ⟨ok, step⟩
    exact step_placed before ok step
  refine ⟨placed.holds, fun idle => ?_⟩
  have target : s.dirs.target = some s.good := by
    simpa only [ReplaceState.Placed, idle] using placed
  refine ⟨target, fun source s' attempt => ?_⟩
  have begun : ({ s with running := some (source, .clearStaged) } : ReplaceState).Within
      s.good source := by
    refine ⟨target, fun tree pc now => ?_, Or.inl rfl⟩
    cases now
    rfl
  have within : s'.Within s.good source := by
    refine attempt.invariant (P := ReplaceState.Within s.good source) ?_ begun
    rintro s l s' before ⟨⟨ok, under⟩, step⟩
    exact step_within before ok under step
  refine ⟨within.good, within.placed.holds, fun done => ?_⟩
  have last : s'.dirs.target = some s'.good := by
    simpa only [ReplaceState.Placed, done] using within.placed
  rw [last]
  rcases within.good with good | good
  · exact Or.inl (by rw [good])
  · exact Or.inr (by rw [good])

def oldTree : Tree := [(["1", "privkey.pem"], .file [1])]

def newTree : Tree := [(["2", "privkey.pem"], .file [2])]

/-- The old tree is live; earlier attempts have left something of both kinds. -/
def sampleDirs : Siblings where
  target := some oldTree
  staged := some newTree
  previous := some []

/-- Stopped while it copies. -/
def stoppedAttempt : List ReplaceLabel :=
  [.start newTree, .removing none, .next, .copying [], .stop]

/-- A whole attempt, from its first call on. -/
def wholeAttempt : List ReplaceLabel :=
  [.removing none, .next, .copying [], .next, .removing none, .next, .next, .next, .removing none,
   .next]

/-- The next attempt clears away what the stopped one has left, and the old tree is replaced. -/
theorem tree_old_or_new_stopped :
    ∃ s s', play ReplaceState.step stoppedAttempt { dirs := sampleDirs, good := oldTree } = some s ∧
      s.running = none ∧ s.dirs.staged = some [] ∧ s.dirs.target = some oldTree ∧
      play ReplaceState.step wholeAttempt { s with running := some (newTree, .clearStaged) } =
        some s' ∧
      s'.dirs.target = some newTree ∧ s'.dirs.Holds s'.good := by
  refine ⟨_, _, rfl, rfl, rfl, rfl, rfl, rfl, ?_⟩
  have live : sampleDirs.target = some oldTree := rfl
  -- the stop comes before the first rename
  have stopped : Fits unbroken ReplaceState.step stoppedAttempt
      { dirs := sampleDirs, good := oldTree } := by
    refine ⟨?_, ?_, ?_, ?_, fun _ => rfl, trivial⟩ <;> exact fun stop => nomatch stop
  have whole : ∀ s, ∀ l ∈ wholeAttempt, unbroken s l ∧ ∀ tree, l ≠ .start tree := by
    intro s l member
    constructor
    · intro stop
      subst stop
      exact absurd member (by decide)
    · intro tree start
      subst start
      simp [wholeAttempt] at member
  obtain ⟨_, between⟩ := tree_old_or_new live (Reaches.of_fits stopped rfl)
  exact ((between rfl).2 newTree _ (Reaches.of_play whole rfl)).2.1

/-- Stopped between the renames; the second attempt stops before its last rename, the third one
after its first deletion. -/
def brokenAttempts : List ReplaceLabel :=
  [.start newTree, .removing none, .next, .copying [], .next, .removing none, .next, .next, .stop,
   .start newTree, .removing none, .next, .copying [], .next, .removing none, .next, .stop,
   .start newTree, .removing none, .next, .stop]

/-- No copy is left, and there was none in the live place from the first attempt on. -/
theorem trees_lost :
    ∃ s t, play ReplaceState.step (brokenAttempts.take 9) { dirs := sampleDirs, good := oldTree } =
        some s ∧ s.running = none ∧ s.dirs.target = none ∧
      Reaches ReplaceStep { dirs := sampleDirs, good := oldTree } t ∧
      t.dirs = { target := none, staged := none, previous := none } := by
  have free : ∀ s : ReplaceState, ∀ l ∈ brokenAttempts, True := fun _ _ _ => trivial
  exact ⟨_, _, rfl, rfl, rfl, (Reaches.of_play free rfl).of_guarded, rfl⟩

end MegooPM
