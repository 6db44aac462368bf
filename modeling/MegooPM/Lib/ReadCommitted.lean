import MegooPM.Lib.Transition
import Mathlib.Logic.Function.Basic

/-!
# Transactions at READ COMMITTED

Every statement of a transaction sees what is committed at the moment it runs. Its writes
become visible together, at the commit; a row a statement has written stays locked until
then. Any number of sessions run such transactions, one statement at a time, in any order.

A transaction is verified on its own, against a contract: what the commits of the others may
do between two of its statements, and what its own commit does. The contract then holds of
every run.
-/
namespace MegooPM.Lib

/-- What a session still has to do, over a store `σ` with rows `κ` and visible events `ο`. -/
inductive Txn (σ κ ο : Type) where
  /-- nothing: the transaction is over, or rolled back -/
  | done
  /-- a query -/
  | read (next : σ → Txn σ κ ο)
  /-- a writing statement reaches a row: it waits for the lock, looks at the row again and
  takes it if it is still wanted -/
  | take (row : κ) (wanted : σ → Bool) (next : Bool → Txn σ κ ο)
  /-- something the outside can see, with no write -/
  | emit (event : ο) (next : Txn σ κ ο)
  /-- the pending writes and the commit; the database may refuse them -/
  | commit (rows : List κ) (write : σ → Option σ) (event : ο)

namespace Txn

variable {σ κ ο : Type}

/-- A writing statement visits rows one after the other; `next` gets those it took. -/
def takeAll (wanted : κ → σ → Bool) : List κ → (List κ → Txn σ κ ο) → Txn σ κ ο
  | [], next => next []
  | row :: rest, next =>
    take row (wanted row) fun got =>
      takeAll wanted rest fun rows => next (if got then row :: rows else rows)

/-- The transaction with nobody else around: what is committed and what is seen. -/
def alone : Txn σ κ ο → σ → σ × List ο
  | .done, s => (s, [])
  | .read next, s => (next s).alone s
  | .take _ wanted next, s => (next (wanted s)).alone s
  | .emit event next, s => ((next.alone s).1, event :: (next.alone s).2)
  | .commit _ write event, s =>
    match write s with
    | some t => (t, [event])
    | none => (s, [])

/-- Alone, a statement takes every row it wants. -/
theorem alone_takeAll (wanted : κ → σ → Bool) (rows : List κ) (next : List κ → Txn σ κ ο) (s : σ) :
    (takeAll wanted rows next).alone s = (next (rows.filter (wanted · s))).alone s := by
  induction rows generalizing next with
  | nil => rfl
  | cons row rest ih =>
    simp only [takeAll, alone, List.filter_cons]
    rw [ih]

end Txn

/-- The sessions, the locks they hold, what is committed and what was seen so far. -/
structure World (σ κ ο ι : Type) where
  store : σ
  log : List ο
  program : ι → Txn σ κ ο
  holder : κ → Option ι

inductive Label (σ κ ο ι : Type) where
  | start (i : ι) (p : Txn σ κ ο)
  | act (i : ι)
  /-- the session is rolled back: an error, a lost connection, a deadlock -/
  | abort (i : ι)

/-- Only these transactions are started. -/
def Label.Allowed {σ κ ο ι : Type} (requests : Txn σ κ ο → Prop) : Label σ κ ο ι → Prop
  | .start _ p => requests p
  | _ => True

namespace World

variable {σ κ ο ι : Type} [DecidableEq κ] [DecidableEq ι]

/-- Every session is idle and no row is locked. -/
def idle (store : σ) : World σ κ ο ι where
  store := store
  log := []
  program := fun _ => .done
  holder := fun _ => none

def setProgram (w : World σ κ ο ι) (i : ι) (p : Txn σ κ ο) : World σ κ ο ι :=
  { w with program := Function.update w.program i p }

/-- The session ends and its locks are gone. -/
def finish (w : World σ κ ο ι) (i : ι) : World σ κ ο ι :=
  { w with
    program := Function.update w.program i .done
    holder := fun row => if w.holder row = some i then none else w.holder row }

/-- No other session holds the row. -/
def free (w : World σ κ ο ι) (i : ι) (row : κ) : Bool :=
  w.holder row = none ∨ w.holder row = some i

/-- The next statement of a session, if it does not have to wait. -/
def act (w : World σ κ ο ι) (i : ι) : Option (World σ κ ο ι) :=
  match w.program i with
  | .done => none
  | .read next => some (w.setProgram i (next w.store))
  | .emit event next => some ({ w with log := w.log ++ [event] }.setProgram i next)
  | .take row wanted next =>
    if w.free i row = false then none
    else if wanted w.store then
      some ({ w with holder := Function.update w.holder row (some i) }.setProgram i (next true))
    else some (w.setProgram i (next false))
  | .commit rows write event =>
    if rows.all (w.free i) = false then none
    else match write w.store with
      | some store => some ({ w with store := store, log := w.log ++ [event] }.finish i)
      | none => some (w.finish i)

def next (w : World σ κ ο ι) : Label σ κ ο ι → Option (World σ κ ο ι)
  | .start i p =>
    match w.program i with
    | .done => some (w.setProgram i p)
    | _ => none
  | .act i => w.act i
  | .abort i => some (w.finish i)

/-- One statement of one session, or a session that begins or breaks off. -/
def Step (requests : Txn σ κ ο → Prop) (w : World σ κ ο ι) (l : Label σ κ ο ι)
    (w' : World σ κ ο ι) : Prop :=
  l.Allowed requests ∧ w.next l = some w'

/-- The event of the commit a label performs. -/
def committing (w : World σ κ ο ι) : Label σ κ ο ι → Option ο
  | .act i =>
    match w.program i with
    | .commit _ _ event => some event
    | _ => none
  | _ => none

/-- The commit a label performs, if any, is as `guard` asks. -/
def Meets (guard : σ → ο → Prop) (w : World σ κ ο ι) (l : Label σ κ ο ι) : Prop :=
  ∀ event ∈ w.committing l, guard w.store event

/-! ### What one step does -/

section Steps

variable {w w' : World σ κ ο ι} {l : Label σ κ ο ι}

/-- A step that is no commit and shows nothing: where the session stands afterwards. -/
inductive Quiet (w : World σ κ ο ι) (l : Label σ κ ο ι) (i : ι) : Txn σ κ ο → Prop
  | ended : Quiet w l i .done
  | begun {p} (started : l = .start i p) : Quiet w l i p
  | queried {next} (here : w.program i = .read next) : Quiet w l i (next w.store)
  | visited {row wanted next} (here : w.program i = .take row wanted next) :
    Quiet w l i (next (wanted w.store))

/-- A step leaves what is committed alone, shows an event, or commits. -/
theorem next_cases (moved : w.next l = some w') :
    (w'.store = w.store ∧ w'.log = w.log ∧
      ∃ i p, w'.program = Function.update w.program i p ∧ Quiet w l i p) ∨
    (w'.store = w.store ∧ ∃ i event next, w.program i = .emit event next ∧
      w'.log = w.log ++ [event] ∧ w'.program = Function.update w.program i next) ∨
    (∃ i rows write event, w.program i = .commit rows write event ∧ l = .act i ∧
      write w.store = some w'.store ∧ w'.log = w.log ++ [event] ∧
      w'.program = Function.update w.program i .done) := by
  cases l with
  | start i p =>
    simp only [next] at moved
    split at moved
    · cases moved
      exact Or.inl ⟨rfl, rfl, i, p, rfl, .begun rfl⟩
    · cases moved
  | abort i =>
    cases moved
    exact Or.inl ⟨rfl, rfl, i, .done, rfl, .ended⟩
  | act i =>
    simp only [next, act] at moved
    split at moved
    next => cases moved
    next query here =>
      cases moved
      exact Or.inl ⟨rfl, rfl, i, _, rfl, .queried here⟩
    next event rest here =>
      cases moved
      exact Or.inr (Or.inl ⟨rfl, i, event, rest, here, rfl, rfl⟩)
    next row wanted rest here =>
      have visited := Quiet.visited (l := .act i) here
      split at moved
      · cases moved
      -- the row is free: it is locked if it still matches
      · split at moved <;> cases moved <;> rename_i matched
        · rw [matched] at visited
          exact Or.inl ⟨rfl, rfl, i, _, rfl, visited⟩
        · rw [Bool.not_eq_true _ |>.mp matched] at visited
          exact Or.inl ⟨rfl, rfl, i, _, rfl, visited⟩
    next rows write event here =>
      split at moved
      · cases moved
      · split at moved <;> cases moved
        next store written =>
          exact Or.inr (Or.inr ⟨i, rows, write, event, here, rfl, written, rfl, rfl⟩)
        next => exact Or.inl ⟨rfl, rfl, i, .done, rfl, .ended⟩

end Steps

end World

/-! ### Contracts -/

/-- What the transactions of a system assume of each other and promise. -/
structure Contract (σ ο : Type) where
  /-- holds of everything that is committed -/
  valid : σ → Prop
  /-- what may happen between two statements -/
  rely : σ → σ → Prop
  /-- the commits that are promised about -/
  guard : σ → ο → Prop
  /-- what they do, given what was seen so far -/
  commits : List ο → σ → ο → σ → Prop
  /-- what is shown without a commit -/
  emits : ο → Prop
  refl : ∀ s, rely s s
  trans : ∀ s t u, rely s t → rely t u → rely s u
  commits_valid : ∀ log s event t, valid s → commits log s event t → valid t
  commits_rely : ∀ log s event t, valid s → commits log s event t → rely s t

namespace Txn

variable {σ κ ο : Type}

/-- From here on, whatever the others do in between, the transaction keeps the contract. -/
def Safe (c : Contract σ ο) : List ο → σ → Txn σ κ ο → Prop
  | _, _, .done => True
  | log, s, .read next => ∀ log' t, log ⊆ log' → c.valid t → c.rely s t → (next t).Safe c log' t
  | log, s, .take _ wanted next => ∀ log' t, log ⊆ log' → c.valid t → c.rely s t →
    (next (wanted t)).Safe c log' t
  | log, s, .emit event next => c.emits event ∧ next.Safe c (log ++ [event]) s
  | log, s, .commit _ write event => ∀ log' t u, log ⊆ log' → c.valid t → c.rely s t →
    c.guard t event → write t = some u → c.commits log' t event u

variable {c : Contract σ ο} {log log' : List ο} {s t : σ}

theorem Safe.mono {p : Txn σ κ ο} (safe : p.Safe c log s) (grown : log ⊆ log')
    (later : c.rely s t) : p.Safe c log' t := by
  induction p generalizing log log' s t with
  | done => exact trivial
  | read next ih =>
    exact fun _ u more valid reached =>
      safe _ u (List.Subset.trans grown more) valid (c.trans _ _ _ later reached)
  | take row wanted next ih =>
    exact fun _ u more valid reached =>
      safe _ u (List.Subset.trans grown more) valid (c.trans _ _ _ later reached)
  | emit event next ih =>
    refine ⟨safe.1, ih safe.2 ?_ later⟩
    exact List.append_subset.mpr
      ⟨List.subset_append_of_subset_left _ grown, List.subset_append_right ..⟩
  | commit rows write event =>
    exact fun _ u v more valid reached =>
      safe _ u v (List.Subset.trans grown more) valid (c.trans _ _ _ later reached)

/-- A statement over several rows. What it did not take was not wanted when it came by. -/
theorem Safe.takeAll {wanted : κ → σ → Bool} {rows : List κ} {next : List κ → Txn σ κ ο}
    (cont : ∀ log' t taken, log ⊆ log' → c.rely s t → taken ⊆ rows →
      (∀ row ∈ rows, row ∉ taken → ∃ u, c.rely s u ∧ c.rely u t ∧ wanted row u = false) →
      (next taken).Safe c log' t) : (Txn.takeAll wanted rows next).Safe c log s := by
  induction rows generalizing log s next with
  | nil =>
    exact cont log s [] (List.Subset.refl _) (c.refl s) (List.nil_subset _)
      fun _ member => absurd member List.not_mem_nil
  | cons row rest ih =>
    intro before u grown valid reached
    refine ih fun after t taken more later inside missed => ?_
    refine cont after t _ (List.Subset.trans grown more) (c.trans _ _ _ reached later) ?_ ?_
    · split
      · exact List.cons_subset_cons _ inside
      · exact fun _ member => List.mem_cons_of_mem _ (inside member)
    · intro other member absent
      rcases List.mem_cons.mp member with rfl | member
      · refine ⟨u, reached, later, ?_⟩
        by_contra found
        rw [Bool.not_eq_false _ |>.mp found] at absent
        exact absent (List.mem_cons_self ..)
      · have left : other ∉ taken := by
          intro kept
          split at absent
          · exact absent (List.mem_cons_of_mem _ kept)
          · exact absent kept
        obtain ⟨v, before, after, unwanted⟩ := missed other member left
        exact ⟨v, c.trans _ _ _ reached before, after, unwanted⟩

end Txn

namespace World

variable {σ κ ο ι : Type} [DecidableEq κ] [DecidableEq ι]

/-- What is committed is valid, and every session is safe from here on. -/
def Keeps (c : Contract σ ο) (w : World σ κ ο ι) : Prop :=
  c.valid w.store ∧ ∀ i, (w.program i).Safe c w.log w.store

omit [DecidableEq κ] [DecidableEq ι] in
theorem keeps_idle {c : Contract σ ο} {s : σ} (valid : c.valid s) :
    (idle s : World σ κ ο ι).Keeps c :=
  ⟨valid, fun _ => trivial⟩

section Contracts

variable {c : Contract σ ο} {requests : Txn σ κ ο → Prop} {w w' : World σ κ ο ι}

omit [DecidableEq κ] in
/-- Every session but one stays where it is; that one is safe where it goes. -/
private theorem safe_update {log log' : List ο} {s s' : σ} {program : ι → Txn σ κ ο} {i : ι}
    {p : Txn σ κ ο} (others : ∀ j, (program j).Safe c log s) (grown : log ⊆ log')
    (later : c.rely s s') (own : p.Safe c log' s') :
    ∀ j, (Function.update program i p j).Safe c log' s' := by
  intro j
  by_cases here : j = i
  · rw [here, Function.update_self]
    exact own
  · rw [Function.update_of_ne here]
    exact (others j).mono grown later

/-- One step under the contract. -/
theorem step_contract (promise : ∀ p, requests p → ∀ log s, p.Safe c log s) {l : Label σ κ ο ι}
    (keeps : w.Keeps c) (moved : Guarded (Meets c.guard) (Step requests) w l w') :
    w'.Keeps c ∧
    ((w'.store = w.store ∧ w'.log = w.log) ∨
      (w'.store = w.store ∧ ∃ event, c.emits event ∧ w'.log = w.log ++ [event]) ∨
      ∃ event, c.guard w.store event ∧ c.commits w.log w.store event w'.store ∧
        w'.log = w.log ++ [event]) := by
  obtain ⟨valid, safe⟩ := keeps
  obtain ⟨met, allowed, moved⟩ := moved
  have all := List.Subset.refl w.log
  rcases next_cases moved with ⟨store, log, i, p, program, quiet⟩ |
    ⟨store, i, event, rest, here, log, program⟩ |
    ⟨i, rows, write, event, here, rfl, written, log, program⟩
  · refine ⟨⟨store ▸ valid, ?_⟩, Or.inl ⟨store, log⟩⟩
    rw [store, log, program]
    refine safe_update safe all (c.refl _) ?_
    have own := safe i
    cases quiet with
    | ended => exact trivial
    | begun started =>
      subst started
      exact promise p allowed _ _
    | queried here =>
      rw [here] at own
      exact own _ _ all valid (c.refl _)
    | visited here =>
      rw [here] at own
      exact own _ _ all valid (c.refl _)
  · have own := safe i
    rw [here] at own
    refine ⟨⟨store ▸ valid, ?_⟩, Or.inr (Or.inl ⟨store, event, own.1, log⟩)⟩
    rw [store, log, program]
    exact safe_update safe (List.subset_append_left ..) (c.refl _) own.2
  · have own := safe i
    rw [here] at own
    have asked : c.guard w.store event := met event (by simp only [committing, here, Option.mem_def])
    -- the write was promised to keep the contract where the guard holds
    have does := own _ _ _ all valid (c.refl _) asked written
    refine ⟨⟨c.commits_valid _ _ _ _ valid does, ?_⟩, Or.inr (Or.inr ⟨event, asked, does, log⟩)⟩
    rw [log, program]
    exact safe_update safe (List.subset_append_left ..) (c.commits_rely _ _ _ _ valid does) trivial

/-- A property of the store and of what was seen that every commit keeps holds of every run. -/
theorem run_invariant (promise : ∀ p, requests p → ∀ log s, p.Safe c log s)
    {P : σ → List ο → Prop}
    (commits : ∀ s log event t, c.valid s → P s log → c.guard s event →
      c.commits log s event t → P t (log ++ [event]))
    (emits : ∀ s log event, P s log → c.emits event → P s (log ++ [event]))
    (keeps : w.Keeps c) (start : P w.store w.log)
    (run : Reaches (Guarded (Meets c.guard) (Step requests)) w w') :
    w'.Keeps c ∧ P w'.store w'.log := by
  refine run.invariant (P := fun w => w.Keeps c ∧ P w.store w.log) ?_ ⟨keeps, start⟩
  intro u l v before moved
  obtain ⟨keeps, before⟩ := before
  obtain ⟨after, same | shown | committed⟩ := step_contract promise keeps moved
  · exact ⟨after, by rwa [same.1, same.2]⟩
  · obtain ⟨store, event, emitted, log⟩ := shown
    refine ⟨after, ?_⟩
    rw [store, log]
    exact emits _ _ _ before emitted
  · obtain ⟨event, asked, does, log⟩ := committed
    refine ⟨after, ?_⟩
    rw [log]
    exact commits _ _ _ _ keeps.1 before asked does

/-- Between two points of a run the store changes as the contract says. -/
theorem run_rely (promise : ∀ p, requests p → ∀ log s, p.Safe c log s) (keeps : w.Keeps c)
    (run : Reaches (Guarded (Meets c.guard) (Step requests)) w w') :
    c.rely w.store w'.store := by
  refine (run_invariant promise (P := fun s _ => c.rely w.store s) ?_ ?_ keeps (c.refl _) run).2
  · intro s log event t valid before asked does
    exact c.trans _ _ _ before (c.commits_rely _ _ _ _ valid does)
  · intro s log event before _
    exact before

/-- A commit that is let through only while nothing is used, and uses it up for good, happens
once. -/
theorem run_once [DecidableEq ο] (promise : ∀ p, requests p → ∀ log s, p.Safe c log s) {event : ο}
    {U : σ → Prop} (stable : ∀ s t, c.rely s t → U s → U t)
    (fresh : ∀ s, c.valid s → c.guard s event → ¬U s)
    (uses : ∀ log s t, c.commits log s event t → U t)
    (silent : ¬c.emits event) (keeps : w.Keeps c) (start : event ∉ w.log)
    (run : Reaches (Guarded (Meets c.guard) (Step requests)) w w') : w'.log.count event ≤ 1 := by
  refine (run_invariant promise (P := fun s log => log.count event ≤ 1 ∧ (event ∈ log → U s))
    ?_ ?_ keeps ⟨?_, fun seen => absurd seen start⟩ run).2.1
  · rintro s log other t valid ⟨once, used⟩ asked does
    by_cases same : other = event
    · subst same
      -- the first time: had it happened before, the guard would not let it through
      have first : other ∉ log := fun seen => fresh s valid asked (used seen)
      have before : log.count other = 0 := List.count_eq_zero.mpr first
      refine ⟨?_, fun _ => uses _ _ _ does⟩
      rw [List.count_append, List.count_singleton_self]
      omega
    · refine ⟨?_, fun seen => ?_⟩
      · rw [List.count_append, List.count_singleton, if_neg (by simpa using same)]
        exact once
      · rcases List.mem_append.mp seen with old | new
        · exact stable s t (c.commits_rely _ _ _ _ valid does) (used old)
        · exact absurd (List.mem_singleton.mp new).symm same
  · rintro s log other ⟨once, used⟩ emitted
    have apart : other ≠ event := fun same => silent (same ▸ emitted)
    refine ⟨?_, fun seen => ?_⟩
    · rw [List.count_append, List.count_singleton, if_neg (by simpa using apart)]
      exact once
    · rcases List.mem_append.mp seen with old | new
      · exact used old
      · exact absurd (List.mem_singleton.mp new).symm apart
  · rw [List.count_eq_zero.mpr start]
    exact Nat.zero_le 1

end Contracts

/-! ### Runs that are computed -/

/-- The labels one after the other. -/
def play (w : World σ κ ο ι) : List (Label σ κ ο ι) → Option (World σ κ ο ι)
  | [] => some w
  | l :: rest => (w.next l).bind (·.play rest)

/-- The labels one after the other, as long as `guard` is met. -/
def playWithin (guard : σ → ο → Bool) (w : World σ κ ο ι) :
    List (Label σ κ ο ι) → Option (World σ κ ο ι)
  | [] => some w
  | l :: rest =>
    if (w.committing l).all (guard w.store) then (w.next l).bind (·.playWithin guard rest)
    else none

theorem reaches_playWithin {requests : Txn σ κ ο → Prop} {guard : σ → ο → Bool}
    {w w' : World σ κ ο ι} {labels : List (Label σ κ ο ι)}
    (allowed : ∀ l ∈ labels, l.Allowed requests) (played : w.playWithin guard labels = some w') :
    Reaches (Guarded (Meets fun s event => guard s event = true) (Step requests)) w w' := by
  induction labels generalizing w with
  | nil =>
    cases played
    exact Reaches.refl _ _
  | cons l rest ih =>
    simp only [playWithin] at played
    split at played
    next met =>
      obtain ⟨u, moved, later⟩ := Option.bind_eq_some_iff.mp played
      refine Reaches.head ⟨?_, allowed l (List.mem_cons_self ..), moved⟩
        (ih (fun l member => allowed l (List.mem_cons_of_mem _ member)) later)
      intro event shown
      rw [Option.mem_def.mp shown] at met
      simpa using met
    next => cases played

theorem reaches_play {requests : Txn σ κ ο → Prop} {w w' : World σ κ ο ι}
    {labels : List (Label σ κ ο ι)} (allowed : ∀ l ∈ labels, l.Allowed requests)
    (played : w.play labels = some w') : Reaches (Step requests) w w' := by
  induction labels generalizing w with
  | nil =>
    cases played
    exact Reaches.refl _ _
  | cons l rest ih =>
    obtain ⟨u, moved, later⟩ := Option.bind_eq_some_iff.mp played
    exact Reaches.head ⟨allowed l (List.mem_cons_self ..), moved⟩
      (ih (fun l member => allowed l (List.mem_cons_of_mem _ member)) later)

end World
end MegooPM.Lib
