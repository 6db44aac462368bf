import Mathlib
import MegooPM.Lib.Transition

/-!
# Decisions in a live-log session

`new_decisions`, `_poll_decisions` and `_read_decisions`: the loop looks at the watch flag once a
tick, reads the active decisions while it is set, and sends those that the last read did not have.
The flag may change at any time, also while a read is in progress. A send that fails ends the
session.
-/
namespace MegooPM.Live

open Lib

/-- A decision; only its id is looked at. -/
structure Decision (δ : Type) where
  id : Option Int
  details : δ
deriving DecidableEq

/-- `new_decisions`: the ids seen so far, and the decisions that were not among them. -/
def newDecisions {δ : Type} (seen : Finset Int) :
    List (Decision δ) → Finset Int × List (Decision δ)
  | [] => (seen, [])
  | decision :: rest =>
    match decision.id with
    | none => newDecisions seen rest
    | some id =>
      if id ∈ seen then newDecisions seen rest
      else
        let later := newDecisions (insert id seen) rest
        (later.1, decision :: later.2)

def idsOf {δ : Type} (decisions : List (Decision δ)) : List Int :=
  decisions.filterMap (·.id)

def decisionsSeconds : ℚ := 5

/-- What happens in a session, in order. -/
inductive DecisionEntry (δ : Type) where
  | watch (on : Bool)
  /-- the loop sees the flag off -/
  | reset
  | failed
  /-- a read with what it gave and what was sent -/
  | read (current announced : List (Decision δ))
deriving DecidableEq

structure DecisionPoll (δ : Type) where
  /-- `self._decisions` -/
  watching : Bool
  seen : Finset Int
  primed : Bool
  /-- `none` for `float("-inf")` -/
  nextPoll : Option ℚ
  /-- the `announce` of the read in progress -/
  reading : Option Bool
  log : List (DecisionEntry δ)
deriving DecidableEq

inductive DecisionEvent (δ : Type) where
  /-- a watch frame arrives -/
  | watch (on : Bool)
  /-- the loop goes round -/
  | tick (now : ℚ)
  /-- the read in progress ends; `through` are the decisions the limiter lets pass -/
  | finish (result : Option (List (Decision δ))) (through : Decision δ → Bool)

namespace DecisionPoll

variable {δ : Type}

def start : DecisionPoll δ := ⟨false, ∅, false, none, none, []⟩

/-- The end of `_read_decisions`. -/
def finish (s : DecisionPoll δ) (announce : Bool) (current : List (Decision δ))
    (through : Decision δ → Bool) : DecisionPoll δ :=
  let found := newDecisions s.seen current
  { s with
    seen := found.1 ∩ (idsOf current).toFinset
    primed := true
    reading := none
    log := s.log ++ [.read current (if announce then found.2.filter through else [])] }

def next (s : DecisionPoll δ) : DecisionEvent δ → Option (DecisionPoll δ)
  | .watch on => some { s with watching := on, log := s.log ++ [.watch on] }
  | .tick now =>
    if s.reading ≠ none then none
    else if !s.watching then
      some { s with seen := ∅, primed := false, nextPoll := none, log := s.log ++ [.reset] }
    else if s.nextPoll.all (· ≤ now) then
      some { s with nextPoll := some (now + decisionsSeconds), reading := some s.primed }
    else some s
  | .finish result through =>
    match s.reading, result with
    | none, _ => none
    | some _, none => some { s with reading := none, log := s.log ++ [.failed] }
    | some announce, some current => some (s.finish announce current through)

end DecisionPoll

/-! ### New decisions -/

section

variable {δ : Type}

theorem newDecisions_seen (seen : Finset Int) (current : List (Decision δ)) :
    (newDecisions seen current).1 = seen ∪ (idsOf current).toFinset := by
  induction current generalizing seen with
  | nil => simp [newDecisions, idsOf]
  | cons decision rest ih =>
    cases known : decision.id with
    | none => simp [newDecisions, known, ih, idsOf]
    | some id =>
      by_cases old : id ∈ seen
      · simp only [newDecisions, known, old, if_true, ih]
        ext other
        simp only [idsOf, List.filterMap_cons, known, Finset.mem_union, List.mem_toFinset,
          List.mem_cons]
        constructor
        · rintro (before | later)
          · exact .inl before
          · exact .inr (.inr later)
        · rintro (before | rfl | later)
          · exact .inl before
          · exact .inl old
          · exact .inr later
      · simp only [newDecisions, known, old, if_false, ih]
        ext other
        simp only [idsOf, List.filterMap_cons, known, Finset.mem_union, Finset.mem_insert,
          List.mem_toFinset, List.mem_cons]
        tauto

/-- The new ones were not seen, each comes once, and all were read. -/
theorem newDecisions_fresh (seen : Finset Int) (current : List (Decision δ)) :
    (newDecisions seen current).2.Sublist current ∧
    (∀ d ∈ (newDecisions seen current).2, ∃ id, d.id = some id ∧ id ∉ seen) ∧
    (idsOf (newDecisions seen current).2).Nodup := by
  induction current generalizing seen with
  | nil => exact ⟨List.Sublist.refl _, by simp [newDecisions], List.nodup_nil⟩
  | cons decision rest ih =>
    cases known : decision.id with
    | none =>
      simp only [newDecisions, known]
      obtain ⟨sub, fresh, once⟩ := ih seen
      exact ⟨sub.cons _, fresh, once⟩
    | some id =>
      by_cases old : id ∈ seen
      · simp only [newDecisions, known, old, if_true]
        obtain ⟨sub, fresh, once⟩ := ih seen
        exact ⟨sub.cons _, fresh, once⟩
      · simp only [newDecisions, known, old, if_false]
        obtain ⟨sub, fresh, once⟩ := ih (insert id seen)
        refine ⟨sub.cons_cons _, ?_, ?_⟩
        · intro d member
          rcases List.mem_cons.mp member with rfl | later
          · exact ⟨id, known, old⟩
          · obtain ⟨other, named, new⟩ := fresh d later
            exact ⟨other, named, fun before => new (Finset.mem_insert_of_mem before)⟩
        · have apart : id ∉ idsOf (newDecisions (insert id seen) rest).2 := by
            intro member
            obtain ⟨d, later, named⟩ := List.mem_filterMap.mp member
            obtain ⟨other, same, new⟩ := fresh d later
            rw [named] at same
            cases same
            exact new (Finset.mem_insert_self _ _)
          simp only [idsOf, List.filterMap_cons, known]
          exact List.nodup_cons.mpr ⟨apart, once⟩

end

/-! ### The log -/

section

variable {δ : Type}

/-- What the last successful read gave, where the loop has not seen the flag off since. -/
def lastRead (log : List (DecisionEntry δ)) : Option (List (Decision δ)) :=
  log.foldl (fun last entry =>
    match entry with
    | .read current _ => some current
    | .reset => none
    | _ => last) none

@[simp] theorem lastRead_nil : lastRead ([] : List (DecisionEntry δ)) = none := rfl

@[simp] theorem lastRead_read (log : List (DecisionEntry δ)) (current announced : List (Decision δ)) :
    lastRead (log ++ [.read current announced]) = some current := by
  simp [lastRead]

@[simp] theorem lastRead_reset (log : List (DecisionEntry δ)) : lastRead (log ++ [.reset]) = none := by
  simp [lastRead]

@[simp] theorem lastRead_watch (log : List (DecisionEntry δ)) (on : Bool) :
    lastRead (log ++ [.watch on]) = lastRead log := by
  simp [lastRead]

@[simp] theorem lastRead_failed (log : List (DecisionEntry δ)) :
    lastRead (log ++ [.failed]) = lastRead log := by
  simp [lastRead]

/-- What a read may announce after the one before it. -/
def Announces (last : Option (List (Decision δ))) (current announced : List (Decision δ)) : Prop :=
  announced.Sublist current ∧ (idsOf announced).Nodup ∧ (∀ d ∈ announced, d.id ≠ none) ∧
    match last with
    | none => announced = []
    | some before => ∀ id ∈ idsOf announced, id ∉ idsOf before

/-- Each read announces no more than it may. -/
def Told (log : List (DecisionEntry δ)) : Prop :=
  ∀ before current announced after, log = before ++ .read current announced :: after →
    Announces (lastRead before) current announced

theorem told_nil : Told ([] : List (DecisionEntry δ)) := by
  intro before current announced after split
  cases before <;> cases split

/-- A log with one more entry. -/
theorem Told.append {log : List (DecisionEntry δ)} (told : Told log) {entry : DecisionEntry δ}
    (last : ∀ current announced, entry = .read current announced →
      Announces (lastRead log) current announced) : Told (log ++ [entry]) := by
  intro before current announced after split
  rcases List.eq_nil_or_concat after with rfl | ⟨earlier, other, rfl⟩
  · obtain ⟨rfl, same⟩ := List.append_inj' split rfl
    cases same
    exact last current announced rfl
  · rw [List.concat_eq_append, ← List.cons_append, ← List.append_assoc] at split
    obtain ⟨rfl, -⟩ := List.append_inj' split rfl
    exact told before current announced earlier rfl

theorem lastRead_append_cases (before middle : List (DecisionEntry δ))
    (first announced : List (Decision δ)) {last : List (Decision δ)}
    (read : lastRead (before ++ .read first announced :: middle) = some last) :
    last = first ∨ ∃ sent, .read last sent ∈ middle := by
  induction middle using List.reverseRecOn with
  | nil =>
    rw [lastRead_read] at read
    exact .inl (Option.some.inj read).symm
  | append_singleton middle entry ih =>
    have split : before ++ .read first announced :: (middle ++ [entry]) =
        before ++ .read first announced :: middle ++ [entry] := by simp
    have earlier (same : lastRead (before ++ .read first announced :: middle) = some last) :
        last = first ∨ ∃ sent, .read last sent ∈ middle ++ [entry] :=
      (ih same).imp_right fun ⟨sent, member⟩ => ⟨sent, List.mem_append_left _ member⟩
    rw [split] at read
    cases entry with
    | watch on => exact earlier (by rwa [lastRead_watch] at read)
    | failed => exact earlier (by rwa [lastRead_failed] at read)
    | reset =>
      rw [lastRead_reset] at read
      cases read
    | read current sent =>
      rw [lastRead_read] at read
      cases read
      exact .inr ⟨sent, by simp⟩

theorem exists_of_lastRead {log : List (DecisionEntry δ)} {last : List (Decision δ)}
    (read : lastRead log = some last) :
    ∃ before announced after, log = before ++ .read last announced :: after ∧
      ∀ current sent, .read current sent ∉ after := by
  induction log using List.reverseRecOn with
  | nil => cases read
  | append_singleton log entry ih =>
    have earlier (same : lastRead log = some last)
        (other : ∀ current sent, entry ≠ .read current sent) :
        ∃ before announced after, log ++ [entry] = before ++ .read last announced :: after ∧
          ∀ current sent, .read current sent ∉ after := by
      obtain ⟨before, announced, after, split, none_⟩ := ih same
      refine ⟨before, announced, after ++ [entry], by simp [split], ?_⟩
      intro current sent member
      rcases List.mem_append.mp member with old | new
      · exact none_ current sent old
      · exact other current sent (List.mem_singleton.mp new).symm
    cases entry with
    | watch on => exact earlier (by rwa [lastRead_watch] at read) (by simp)
    | failed => exact earlier (by rwa [lastRead_failed] at read) (by simp)
    | reset =>
      rw [lastRead_reset] at read
      cases read
    | read current sent =>
      rw [lastRead_read] at read
      cases read
      exact ⟨log, sent, [], rfl, by simp⟩

end

/-! ### Sessions -/

namespace DecisionPoll

variable {δ : Type}

def Step (s : DecisionPoll δ) (e : DecisionEvent δ) (s' : DecisionPoll δ) : Prop :=
  s.next e = some s'

/-- The remembered ids are those of the last read. -/
structure Remembers (s : DecisionPoll δ) : Prop where
  seen : s.seen = (lastRead s.log).elim ∅ fun last => (idsOf last).toFinset
  primed : s.primed = (lastRead s.log).isSome
  reading : ∀ announce, s.reading = some announce → announce = s.primed
  told : Told s.log

theorem remembers_start : Remembers (start : DecisionPoll δ) where
  seen := rfl
  primed := rfl
  reading := by simp [start]
  told := told_nil

/-- The first read announces nothing, and a later one what the read before it did not have. -/
theorem Remembers.announces {s : DecisionPoll δ} (remembers : Remembers s)
    (current : List (Decision δ)) (through : Decision δ → Bool) :
    Announces (lastRead s.log) current
      (if s.primed then (newDecisions s.seen current).2.filter through else []) := by
  obtain ⟨sub, fresh, once⟩ := newDecisions_fresh s.seen current
  have filtered := List.filter_sublist (p := through) (l := (newDecisions s.seen current).2)
  cases last : lastRead s.log with
  | none =>
    rw [remembers.primed, last]
    exact ⟨List.nil_sublist _, List.nodup_nil, by simp, rfl⟩
  | some before =>
    rw [remembers.primed, last]
    refine ⟨filtered.trans sub, once.sublist (filtered.filterMap _), ?_, ?_⟩
    · intro d member none_
      obtain ⟨id, named, -⟩ := fresh d (filtered.subset member)
      rw [none_] at named
      cases named
    · intro id member earlier
      obtain ⟨d, sent, named⟩ := List.mem_filterMap.mp member
      obtain ⟨other, same, new⟩ := fresh d (filtered.subset sent)
      rw [named] at same
      cases same
      rw [remembers.seen, last] at new
      exact new (List.mem_toFinset.mpr earlier)

theorem Remembers.finish {s : DecisionPoll δ} (remembers : Remembers s) {announce : Bool}
    (reading : s.reading = some announce) (current : List (Decision δ))
    (through : Decision δ → Bool) : Remembers (s.finish announce current through) := by
  have announces := remembers.announces current through
  rw [← remembers.reading announce reading] at announces
  refine ⟨?_, ?_, by simp [DecisionPoll.finish], ?_⟩
  · simp only [DecisionPoll.finish, lastRead_read, newDecisions_seen, Option.elim_some]
    exact Finset.union_inter_cancel_right
  · simp [DecisionPoll.finish]
  · refine remembers.told.append ?_
    rintro _ _ ⟨⟩
    exact announces

theorem Remembers.next {s s' : DecisionPoll δ} (remembers : Remembers s) {e : DecisionEvent δ}
    (moved : s.next e = some s') : Remembers s' := by
  cases e with
  | watch on =>
    cases moved
    exact ⟨by simpa using remembers.seen, by simpa using remembers.primed, remembers.reading,
      remembers.told.append (by simp)⟩
  | tick now =>
    simp only [DecisionPoll.next] at moved
    split at moved
    · cases moved
    next idle =>
      split at moved
      · cases moved
        refine ⟨by simp, by simp, ?_, remembers.told.append (by simp)⟩
        intro announce reading
        have busy : s.reading = some announce := reading
        exact absurd (by simp [busy]) idle
      split at moved
      · cases moved
        exact ⟨remembers.seen, remembers.primed, by simp, remembers.told⟩
      · cases moved
        exact remembers
  | finish result through =>
    simp only [DecisionPoll.next] at moved
    split at moved
    · cases moved
    · cases moved
      exact ⟨by simpa using remembers.seen, by simpa using remembers.primed, by simp,
        remembers.told.append (by simp)⟩
    next announce current reading =>
      cases moved
      exact remembers.finish reading current through

/-- Over any reads and toggles: the first successful read after the loop has seen the watch off
announces nothing; a decision is not announced while the reads before went on having it; each
read announces a decision once; and only ids of the last successful read are remembered. -/
theorem decisions_announced {s : DecisionPoll δ} (run : Reaches Step start s) :
    (∀ before current announced after, s.log = before ++ .read current announced :: after →
      lastRead before = none → announced = []) ∧
    (∀ before first sent middle current announced after id,
      s.log = before ++ .read first sent :: (middle ++ .read current announced :: after) →
      id ∈ idsOf first → (∀ between sent', .read between sent' ∈ middle → id ∈ idsOf between) →
      id ∉ idsOf announced) ∧
    (∀ before current announced after, s.log = before ++ .read current announced :: after →
      (idsOf announced).Nodup ∧ ∀ d ∈ announced, d ∈ current ∧ d.id ≠ none) ∧
    ∀ id ∈ s.seen, ∃ before current announced after,
      s.log = before ++ .read current announced :: after ∧
        (∀ other sent, .read other sent ∉ after) ∧ id ∈ idsOf current := by
  have remembers : Remembers s :=
    run.invariant (P := Remembers) (fun _ _ _ before moved => before.next moved) remembers_start
  refine ⟨?_, ?_, ?_, ?_⟩
  · intro before current announced after split first
    have announces := remembers.told before current announced after split
    rw [first] at announces
    exact announces.2.2.2
  · intro before first sent middle current announced after id split here there member
    have split' : s.log = before ++ .read first sent :: middle ++ .read current announced :: after := by
      rw [split, List.append_assoc, List.cons_append]
    have announces := (remembers.told _ current announced after split').2.2.2
    cases last : lastRead (before ++ .read first sent :: middle) with
    | none =>
      rw [last] at announces
      rw [announces] at member
      cases member
    | some read =>
      rw [last] at announces
      apply announces id member
      rcases lastRead_append_cases before middle first sent last with rfl | ⟨sent', inside⟩
      · exact here
      · exact there read sent' inside
  · intro before current announced after split
    obtain ⟨sub, once, named, -⟩ := remembers.told before current announced after split
    exact ⟨once, fun d member => ⟨sub.subset member, named d member⟩⟩
  · intro id member
    rw [remembers.seen] at member
    cases last : lastRead s.log with
    | none =>
      rw [last] at member
      cases Finset.notMem_empty id member
    | some current =>
      rw [last] at member
      obtain ⟨before, announced, after, split, none_⟩ := exists_of_lastRead last
      exact ⟨before, current, announced, after, split, none_, List.mem_toFinset.mp member⟩

/-- The flag after these entries. -/
def watchedIn (log : List (DecisionEntry δ)) : Bool :=
  log.foldl (fun on entry =>
    match entry with
    | .watch on' => on'
    | _ => on) false

def ban (id : Int) : Decision Unit := ⟨some id, ()⟩

/-- A third decision is announced; the watch goes off and on between two rounds of the loop. -/
def briefToggle : List (DecisionEvent Unit) :=
  [.watch true, .tick 0, .finish (some [ban 1]) fun _ => true, .watch false, .watch true, .tick 5,
    .finish (some [ban 1, ban 2]) fun _ => true]

theorem briefToggle_log : (play next briefToggle start).map (·.log) =
    some [.watch true, .read [ban 1] [], .watch false, .watch true,
      .read [ban 1, ban 2] [ban 2]] := by
  decide +kernel

theorem decisions_announced_brief :
    ∃ s, play next briefToggle start = some s ∧ s.log.length = 5 ∧
      (∀ id ∈ s.seen, ∃ before current announced after,
        s.log = before ++ .read current announced :: after ∧
          (∀ other sent, .read other sent ∉ after) ∧ id ∈ idsOf current) := by
  obtain ⟨s, played, log⟩ := Option.map_eq_some_iff.mp briefToggle_log
  have run : Reaches (Guarded (fun _ _ => True) Step) start s :=
    Reaches.of_play (fun _ _ _ => trivial) played
  exact ⟨s, played, by rw [log]; rfl, (decisions_announced run.of_guarded).2.2.2⟩

/-- The loop misses a watch that goes off and on between two rounds. -/
theorem decisions_announced_restart : ¬ ∀ s : DecisionPoll Unit, Reaches Step start s →
    ∀ before middle current announced after,
      s.log = before ++ .watch true :: (middle ++ .read current announced :: after) →
      watchedIn before = false → (∀ other sent, .read other sent ∉ middle) →
      ∀ id ∈ idsOf current, id ∉ idsOf announced := by
  intro quiet
  obtain ⟨s, played, log⟩ := Option.map_eq_some_iff.mp briefToggle_log
  have run : Reaches (Guarded (fun _ _ => True) Step) start s :=
    Reaches.of_play (fun _ _ _ => trivial) played
  exact quiet s run.of_guarded [.watch true, .read [ban 1] [], .watch false] [] [ban 1, ban 2]
    [ban 2] [] log (by decide) (by simp) 2 (by decide) (by decide)

end DecisionPoll

end MegooPM.Live
