import MegooPM.Lib.Polling
import MegooPM.Lib.Text
import Mathlib

/-!
# Waiting for a TXT record

`wait_for_txt` of `dns_providers/propagation.py`: the servers that have not served the value are
asked again, round by round, and the clock is read after each round.
-/
namespace MegooPM.Propagation

open Lib

/-- An element of the list of servers; its place tells two listings of one server apart. -/
structure Listing where
  server : String
  place : Nat
  deriving DecidableEq, Repr

/-- `query(server, name)`: the values served, or the type of the exception. -/
abbrev Answer := Except String (List String)

/-- The arguments, but for the servers and the callables. -/
structure Wait where
  name : String
  value : String
  timeoutSeconds : Int
  intervalSeconds : Int
  settleSeconds : Int := 0
  serverLabel : String := "authoritative nameservers"
  reason : Option String := none

/-- What the call sees of the outside. -/
structure Outside (τ : Type) where
  /-- the answer in a round -/
  answer : Nat → Listing → Answer
  /-- the readings of the clock: one at the start, then one after each round -/
  reading : Nat → τ
  /-- `clock() + timeout_seconds` -/
  later : τ → Int → τ

inductive WaitEnd where
  | returned
  /-- `PropagationTimeoutError`, with those it counts as missing -/
  | timedOut (missing : List Listing) (message : String)
  /-- `PropagationTimeoutError`, for an empty list -/
  | noServers (message : String)
  deriving DecidableEq, Repr

/-- The polls of each round, the sleeps, and how the call ended. -/
structure WaitRun where
  rounds : List (List (Listing × Answer))
  slept : List Int
  ending : WaitEnd

/-- `value in served`, for a query that answers. -/
def serves (value : String) : Answer → Bool
  | .ok served => value ∈ served
  | .error _ => false

/-- `d[key] = v` of a dictionary in the order of insertion. -/
def assign (d : List (String × String)) (key v : String) : List (String × String) :=
  if d.any (·.1 = key) then d.map fun p => if p.1 = key then (key, v) else p
  else d ++ [(key, v)]

/-- What a poll that did not find the value says. -/
def refusal : Answer → String
  | .error exception => "unreachable (" ++ exception ++ ")"
  | .ok _ => "serving other values"

/-- The body of the loop over the servers: those still pending, and the reasons. -/
def pollOne (value : String) (ask : Listing → Answer)
    (acc : List Listing × List (String × String)) (e : Listing) :
    List Listing × List (String × String) :=
  if serves value (ask e) then acc
  else (acc.1 ++ [e], assign acc.2 e.server (refusal (ask e)))

def pollServers (value : String) (ask : Listing → Answer) (pending : List Listing) :
    List Listing × List (String × String) :=
  pending.foldl (pollOne value ask) ([], [])

/-- `Counter(values).most_common()` -/
def mostCommon (values : List String) : List (String × Nat) :=
  sortedBy (fun p => -(p.2 : Int)) (values.eraseDups.map fun v => (v, values.count v))

/-- The text of the error after a timeout. -/
def Wait.message (c : Wait) (missing total : Nat) (reasons : List (String × String)) : String :=
  let detail := ", ".intercalate
    ((mostCommon (reasons.map (·.2))).map fun p => p.2.repr ++ " " ++ p.1)
  let message := "TXT " ++ c.name ++ " not visible on " ++ missing.repr ++ "/" ++ total.repr ++ " " ++
    c.serverLabel ++ " after " ++ toString c.timeoutSeconds ++ "s (" ++ detail ++ ")"
  match c.reason.filter (· ≠ "") with
  | none => message
  | some reason => message ++ " — checked this way because " ++ reason

variable {τ : Type} [LinearOrder τ]

/-- The loop from some round on, for as many rounds as the bound says. -/
def waitLoop (c : Wait) (o : Outside τ) (total : Nat) (deadline : τ) :
    Nat → Nat → List Listing → Option WaitRun
  | 0, _, _ => none
  | bound + 1, k, pending =>
    let polls := pending.map fun e => (e, o.answer k e)
    let (still, reasons) := pollServers c.value (o.answer k) pending
    if still.isEmpty then
      some { rounds := [polls], slept := [c.settleSeconds].filter (0 < ·), ending := .returned }
    else if deadline ≤ o.reading (k + 1) then
      some { rounds := [polls], slept := [],
             ending := .timedOut still (c.message still.length total reasons) }
    else
      (waitLoop c o total deadline bound (k + 1) still).map fun run =>
        { run with rounds := polls :: run.rounds, slept := c.intervalSeconds :: run.slept }

def listings (servers : List String) : List Listing :=
  servers.mapIdx fun place server => { server, place }

/-- `wait_for_txt` for the servers that were given or found. -/
def waitForTxt (bound : Nat) (c : Wait) (o : Outside τ) (servers : List String) : Option WaitRun :=
  if servers.isEmpty then
    some { rounds := [], slept := [],
           -- the name is a DNS name, which `repr` puts between quotes
           ending := .noServers ("No authoritative nameservers found for '" ++ c.name ++ "'") }
  else
    waitLoop c o servers.length (o.later (o.reading 0) c.timeoutSeconds) bound 0 (listings servers)

/-! ### The rounds -/

section Rounds

variable {c : Wait} {o : Outside τ} {deadline : τ} {total : Nat} {items : List Listing}

omit [LinearOrder τ] in
theorem pollServers_pending (value : String) (ask : Listing → Answer) (pending : List Listing) :
    (pollServers value ask pending).1 = pending.filter fun e => !serves value (ask e) := by
  have loop : ∀ acc : List Listing × List (String × String),
      (pending.foldl (pollOne value ask) acc).1 =
        acc.1 ++ pending.filter fun e => !serves value (ask e) := by
    induction pending with
    | nil => simp
    | cons e rest ih =>
      intro acc
      rw [List.foldl_cons, ih, pollOne]
      by_cases served : serves value (ask e) = true
      · simp [served]
      · simp [served]
  exact loop ([], [])

/-- A listing has answered once it has served the value. -/
def answered (c : Wait) (o : Outside τ) (k : Nat) (e : Listing) : Bool :=
  serves c.value (o.answer k e)

/-- The polls of a round. -/
def roundPolls (c : Wait) (o : Outside τ) (items : List Listing) (k : Nat) :
    List (Listing × Answer) :=
  (Polling.remaining (answered c o) items k).map fun e => (e, o.answer k e)

/-- How a call ends whose last round is before the round `n`. -/
def endAfter (c : Wait) (o : Outside τ) (total : Nat) (items : List Listing) (n : Nat) : WaitEnd :=
  let left := Polling.remaining (answered c o) items n
  if left.isEmpty then .returned
  else .timedOut left (c.message left.length total
    (pollServers c.value (o.answer (n - 1)) (Polling.remaining (answered c o) items (n - 1))).2)

/-- The loop makes the rounds that the answers and the clock call for. -/
theorem waitLoop_eq {bound k : Nat} {run : WaitRun}
    (ran : waitLoop c o total deadline bound k (Polling.remaining (answered c o) items k) =
      some run) :
    ∃ n, Polling.rounds (answered c o) (fun j => deadline ≤ o.reading j) items bound k = some n ∧
      run.rounds = (List.range' k (n - k)).map (roundPolls c o items) ∧
      run.ending = endAfter c o total items n := by
  induction bound generalizing k run with
  | zero => cases ran
  | succ bound ih =>
    have still : (pollServers c.value (o.answer k) (Polling.remaining (answered c o) items k)).1 =
        Polling.remaining (answered c o) items (k + 1) := pollServers_pending ..
    rw [waitLoop] at ran
    rw [Polling.rounds]
    simp only [still] at ran
    split at ran
    next none_ =>
      cases ran
      refine ⟨k + 1, by rw [none_]; rfl, by simp [roundPolls], ?_⟩
      simp only [endAfter, none_, if_true]
    next some_ =>
      split at ran
      next late =>
        cases ran
        refine ⟨k + 1, by simp [late], by simp [roundPolls], ?_⟩
        simp only [endAfter, if_neg some_, Nat.add_sub_cancel]
      next early =>
        obtain ⟨rest, later, rfl⟩ := Option.map_eq_some_iff.mp ran
        obtain ⟨n, more, polls, ending⟩ := ih later
        have above := (Polling.rounds_spec more).1
        refine ⟨n, ?_, ?_, ending⟩
        · simp [some_, early, more]
        · have split : n - k = n - (k + 1) + 1 := by omega
          rw [split, List.range'_succ, List.map_cons, ← polls]
          rfl

/-- It ends at the latest with the first reading at or past the deadline. -/
theorem waitLoop_ends {n : Nat} (time : deadline ≤ o.reading n) {bound k : Nat}
    {pending : List Listing} (start : k < n) (enough : n ≤ k + bound) :
    ∃ run, waitLoop c o total deadline bound k pending = some run := by
  induction bound generalizing k pending with
  | zero => omega
  | succ bound ih =>
    rw [waitLoop]
    simp only
    split
    · exact ⟨_, rfl⟩
    · split
      · exact ⟨_, rfl⟩
      next early =>
        have other : k + 1 ≠ n := by
          rintro rfl
          exact early time
        obtain ⟨run, later⟩ := ih (k := k + 1) (by omega) (by omega)
        rw [later]
        exact ⟨_, rfl⟩

end Rounds

/-! ### What a call that ended says -/

/-- The listing was served the value in some poll. -/
def WaitRun.Served (run : WaitRun) (c : Wait) (e : Listing) : Prop :=
  ∃ polls ∈ run.rounds, ∃ poll ∈ polls, poll.1 = e ∧ serves c.value poll.2 = true

/-- What a run says of the listings, of the clock and of the rounds. The last field is about a
clock that is at `started k` when the round `k` starts and has not gone back until it is read. -/
structure WaitRun.Sound (run : WaitRun) (c : Wait) (o : Outside τ) (servers : List String) :
    Prop where
  returned : run.ending = .returned → ∀ e ∈ listings servers, run.Served c e
  timedOut : ∀ missing message, run.ending = .timedOut missing message →
    o.later (o.reading 0) c.timeoutSeconds ≤ o.reading run.rounds.length ∧
    (∀ e, e ∈ missing ↔ e ∈ listings servers ∧ ¬run.Served c e) ∧
    ∃ reasons, message = c.message missing.length servers.length reasons
  once : ∀ polls ∈ run.rounds, (polls.map (·.1)).Nodup
  again : run.rounds.Pairwise fun earlier later =>
    ∀ p ∈ earlier, ∀ q ∈ later, p.1 = q.1 → serves c.value p.2 = false
  early : ∀ k, 0 < k → k < run.rounds.length →
    o.reading k < o.later (o.reading 0) c.timeoutSeconds
  late : ∀ started : Nat → τ, (∀ k < run.rounds.length, started k ≤ o.reading (k + 1)) →
    ∀ j k, j < run.rounds.length → k < run.rounds.length →
      o.later (o.reading 0) c.timeoutSeconds ≤ started j →
      o.later (o.reading 0) c.timeoutSeconds ≤ started k → j = k

section Ended

variable {c : Wait} {o : Outside τ} {servers : List String} {run : WaitRun} {items : List Listing}
  {n : Nat}

theorem nodup_listings (servers : List String) : (listings servers).Nodup := by
  rw [List.nodup_iff_getElem?_ne_getElem?]
  intro i j below within same
  have left : i < servers.length := by
    rw [listings, List.length_mapIdx] at within
    omega
  have right : j < servers.length := by
    rwa [listings, List.length_mapIdx] at within
  simp only [listings, List.getElem?_mapIdx, List.getElem?_eq_getElem left,
    List.getElem?_eq_getElem right, Option.map_some, Option.some.injEq, Listing.mk.injEq] at same
  omega

omit [LinearOrder τ] in
theorem mem_roundPolls {k : Nat} {poll : Listing × Answer} :
    poll ∈ roundPolls c o items k ↔ poll.1 ∈ Polling.remaining (answered c o) items k ∧
      poll.2 = o.answer k poll.1 := by
  rw [roundPolls, List.mem_map]
  constructor
  · rintro ⟨e, member, rfl⟩
    exact ⟨member, rfl⟩
  · rintro ⟨member, same⟩
    exact ⟨poll.1, member, Prod.ext rfl same.symm⟩

omit [LinearOrder τ] in
/-- Who is left after the rounds was not served in any of them. -/
theorem mem_remaining_iff (rounds : run.rounds = (List.range' 0 n).map (roundPolls c o items))
    {e : Listing} : e ∈ Polling.remaining (answered c o) items n ↔
      e ∈ items ∧ ¬run.Served c e := by
  rw [Polling.mem_remaining]
  refine and_congr_right fun member => ?_
  unfold WaitRun.Served
  rw [rounds]
  constructor
  · rintro never ⟨_, inside, poll, asked, rfl, served⟩
    obtain ⟨k, bound, rfl⟩ := List.mem_map.mp inside
    obtain ⟨_, same⟩ := mem_roundPolls.mp asked
    have silent := never k (by simpa using bound)
    rw [answered, ← same, served] at silent
    cases silent
  · intro never k below
    by_contra served
    rw [Bool.not_eq_false] at served
    -- the first round it was served in is one it was asked in
    have first : ∃ j < n, answered c o j e = true ∧ ∀ i < j, answered c o i e = false := by
      classical
      have some_ : ∃ j, answered c o j e = true := ⟨k, served⟩
      refine ⟨Nat.find some_, lt_of_le_of_lt (Nat.find_min' some_ served) below,
        Nat.find_spec some_, fun i before => ?_⟩
      exact Bool.eq_false_iff.mpr (Nat.find_min some_ before)
    obtain ⟨j, within, found, before⟩ := first
    refine never ⟨_, List.mem_map_of_mem (by simpa using within), (e, o.answer j e), ?_, rfl, found⟩
    exact mem_roundPolls.mpr ⟨Polling.mem_remaining.mpr ⟨member, before⟩, rfl⟩

theorem sound_of_rounds (rounds : run.rounds = (List.range' 0 n).map (roundPolls c o
      (listings servers)))
    (ending : run.ending = endAfter c o servers.length (listings servers) n)
    (reached : Polling.remaining (answered c o) (listings servers) n = [] ∨
      o.later (o.reading 0) c.timeoutSeconds ≤ o.reading n)
    (early : ∀ k, 0 < k → k < n → o.reading k < o.later (o.reading 0) c.timeoutSeconds) :
    run.Sound c o servers := by
  have length : run.rounds.length = n := by rw [rounds, List.length_map, List.length_range']
  have left := fun e => mem_remaining_iff (e := e) rounds
  refine ⟨fun back e member => ?_, fun missing message back => ?_, fun polls member => ?_, ?_,
    length ▸ early, fun started steady j k below within overdue overdue' => ?_⟩
  · by_contra never
    have still := (left e).mpr ⟨member, never⟩
    simp only [ending, endAfter] at back
    split at back
    next none_ => exact List.ne_nil_of_mem still (List.isEmpty_iff.mp none_)
    next => cases back
  · simp only [ending, endAfter] at back
    split at back
    next => cases back
    next some_ =>
      cases back
      refine ⟨length ▸ reached.resolve_left fun none_ => some_ (List.isEmpty_iff.mpr none_),
        left, _, rfl⟩
  · rw [rounds] at member
    obtain ⟨k, _, rfl⟩ := List.mem_map.mp member
    rw [roundPolls, List.map_map]
    exact (Polling.nodup_remaining (nodup_listings servers) k).map fun _ _ same => same
  · rw [rounds, List.pairwise_map]
    refine (List.pairwise_lt_range' (s := 0) (n := n)).imp fun before p asked q again same => ?_
    obtain ⟨_, answer⟩ := mem_roundPolls.mp asked
    obtain ⟨still, _⟩ := mem_roundPolls.mp again
    -- whoever is asked again has not answered before
    rw [answer, same]
    exact (Polling.mem_remaining.mp still).2 _ before
  · -- a round that is not the last is followed by a reading before the deadline
    rw [length] at below within
    have last : ∀ i < n, o.later (o.reading 0) c.timeoutSeconds ≤ started i → i + 1 = n := by
      intro i inside past
      by_contra other
      have reading := early (i + 1) (Nat.succ_pos i) (by omega)
      exact absurd (past.trans (steady i (length.symm ▸ inside))) (not_le.mpr reading)
    have first := last j below overdue
    have second := last k within overdue'
    omega

end Ended

/-- Whatever the servers answer and the clock says: what a call says when it ends is so, and it
ends with the first reading at or past the deadline at the latest. -/
theorem waitForTxt_sound (c : Wait) (o : Outside τ) (servers : List String) :
    (∀ bound run, waitForTxt bound c o servers = some run → run.Sound c o servers) ∧
    ∀ k, o.later (o.reading 0) c.timeoutSeconds ≤ o.reading (k + 1) →
      ∃ run, waitForTxt (k + 1) c o servers = some run ∧ run.rounds.length ≤ k + 1 := by
  have called : ∀ bound run, waitForTxt bound c o servers = some run →
      run.Sound c o servers ∧ run.rounds.length ≤ bound := by
    intro bound run ran
    unfold waitForTxt at ran
    split at ran
    next none_ =>
      cases ran
      refine ⟨⟨fun back => (by cases back), fun _ _ back => (by cases back),
        fun _ member => (by cases member), List.Pairwise.nil, fun _ _ below => (by cases below),
        fun _ _ _ _ below => (by cases below)⟩, Nat.zero_le _⟩
    next some_ =>
      obtain ⟨n, made, rounds, ending⟩ := waitLoop_eq ran
      obtain ⟨_, within, ends, before⟩ := Polling.rounds_spec made
      rw [Nat.sub_zero] at rounds
      refine ⟨sound_of_rounds rounds ending ?_ fun k positive below => ?_, ?_⟩
      · exact ends.imp_right of_decide_eq_true
      · exact not_le.mp (of_decide_eq_false (before k positive below).2)
      · rw [rounds, List.length_map, List.length_range']
        omega
  refine ⟨fun bound run ran => (called bound run ran).1, fun k time => ?_⟩
  have ended : ∃ run, waitForTxt (k + 1) c o servers = some run := by
    unfold waitForTxt
    split
    · exact ⟨_, rfl⟩
    · exact waitLoop_ends time (Nat.succ_pos k) (by omega)
  obtain ⟨run, ran⟩ := ended
  exact ⟨run, ran, (called _ run ran).2⟩

/-! ### Two calls -/

def challenge : Wait where
  name := "_acme-challenge.example.com"
  value := "v"
  timeoutSeconds := 5
  intervalSeconds := 1

/-- A clock that ticks with the rounds, and a second server that is one round behind. -/
def oneBehind : Outside Int where
  answer k e := .ok (if k = 0 ∧ e.server = "ns2" then [] else ["v"])
  reading k := k
  later := (· + ·)

theorem waitForTxt_sound_behind :
    ∃ run, waitForTxt 5 challenge oneBehind ["ns1", "ns2"] = some run ∧ run.ending = .returned ∧
      run.rounds.length = 2 ∧ run.Served challenge { server := "ns2", place := 1 } := by
  obtain ⟨run, ran, _⟩ := (waitForTxt_sound challenge oneBehind ["ns1", "ns2"]).2 4 (by decide)
  have sound := (waitForTxt_sound challenge oneBehind ["ns1", "ns2"]).1 5 run ran
  have made : (waitForTxt 5 challenge oneBehind ["ns1", "ns2"]).map
      (fun run => (run.ending, run.rounds.length)) = some (.returned, 2) := by decide
  rw [ran, Option.map_some, Option.some.injEq, Prod.mk.injEq] at made
  exact ⟨run, ran, made.1, made.2, sound.returned made.1 _ (by decide)⟩

/-- The one server that is asked answers once and then fails. -/
def answersOnce : Outside Int where
  answer _ e := if e.place = 0 then .ok ["v"] else .error "LifetimeTimeout"
  reading k := 5 * k
  later := (· + ·)

/-- A server that takes three rounds, and a clock that has gone back whenever it is read. -/
def goesBack : Outside Int where
  answer k _ := .ok (if k < 2 then [] else ["v"])
  reading _ := 0
  later := (· + ·)

/-- A server that is listed twice is asked again after it has served the value, and counted as
missing; and where the clock shows `9` at the start of each round and `0` when it is read, two
rounds start after the deadline. -/
theorem listed_twice_missing :
    (∃ run missing message, waitForTxt 1 challenge answersOnce ["ns1", "ns1"] = some run ∧
      run.ending = .timedOut missing message ∧ "ns1" ∈ missing.map (·.server) ∧
      ∃ polls ∈ run.rounds, ∃ poll ∈ polls, poll.1.server = "ns1" ∧
        serves challenge.value poll.2 = true) ∧
    ∃ run, waitForTxt 3 challenge goesBack ["ns1"] = some run ∧ 1 < run.rounds.length ∧
      ∀ k < run.rounds.length,
        goesBack.later (goesBack.reading 0) challenge.timeoutSeconds ≤ (fun _ => (9 : Int)) k := by
  constructor
  · refine ⟨_, _, _, rfl, rfl, by decide, ?_⟩
    exact ⟨_, List.mem_singleton_self _, _, List.mem_cons_self .., rfl, by decide⟩
  · refine ⟨_, rfl, by decide, fun k _ => ?_⟩
    show (0 : Int) + 5 ≤ 9
    decide

end MegooPM.Propagation
