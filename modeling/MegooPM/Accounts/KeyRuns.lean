import MegooPM.Accounts.ApiKeys
import MegooPM.Lib.Traces

/-!
# Runs with API keys

What holds in every run of the requests of `Accounts.ApiKeys`, in whatever order their statements
commit: who mints and manages keys, how many a user can have, and what switching one off stops.
-/
namespace MegooPM

open Lib

/-! ### Where keys come from -/

/-- The bearer is an access token of this user, not a key. -/
def SignedIn (env : KeyEnv) (bearer : String) (userId : Id) : Prop :=
  startsWith bearer keyTokenPrefix = false ∧ ∃ now, env.accessUser now bearer = some userId

/-- What the owner last set the key to; a new one is enabled. -/
def enabledIn (log : List KeyEvent) (keyId : Id) : Bool :=
  log.foldl (fun on event =>
    match event with
    | .toggled id enabled _ => if id = keyId then enabled else on
    | _ => on) true

/-- What must have been done before. A key that is found is enabled by then, not deleted, and the
time is before its expiry. -/
def KeyEvent.Allowed (env : KeyEnv) (before : List KeyEvent) : KeyEvent → Prop
  | .minted keyId userId _ _ bearer =>
    SignedIn env bearer userId ∧
      ∀ owner token expiresAt by_, .minted keyId owner token expiresAt by_ ∉ before
  | .toggled keyId _ bearer | .deleted keyId bearer =>
    ∃ userId, SignedIn env bearer userId ∧
      ∃ token expiresAt by_, .minted keyId userId token expiresAt by_ ∈ before
  | .checked _ keyId now bearer =>
    startsWith bearer keyTokenPrefix = true ∧
      (∃ userId token expiresAt by_, .minted keyId userId token expiresAt by_ ∈ before ∧
        keyPrefix token = keyPrefix bearer ∧ env.sha256 token = env.sha256 bearer ∧
        ∀ expiry ∈ expiresAt, now < expiry) ∧
      enabledIn before keyId = true ∧ ∀ by_, .deleted keyId by_ ∉ before
  | .letIn request keyId userId bearer =>
    startsWith bearer keyTokenPrefix = true ∧
      (∃ token expiresAt by_, .minted keyId userId token expiresAt by_ ∈ before ∧
        keyPrefix token = keyPrefix bearer ∧ env.sha256 token = env.sha256 bearer) ∧
      ∃ now, .checked request keyId now bearer ∈ before

/-- The row is of a key that was minted. -/
def ApiKey.Minted (env : KeyEnv) (log : List KeyEvent) (key : ApiKey) : Prop :=
  ∃ token by_, .minted key.id key.userId token key.expiresAt by_ ∈ log ∧
    key.tokenPrefix = keyPrefix token ∧ key.tokenHash = env.sha256 token

/-- What is known of the bearer of the request with this number, in this phase. -/
def KeyPhase.Informed (env : KeyEnv) (log : List KeyEvent) (i : Nat) (bearer : String) :
    KeyPhase → Prop
  | .keyRead key | .touching key =>
    startsWith bearer keyTokenPrefix = true ∧ key.Minted env log ∧
      key.tokenPrefix = keyPrefix bearer ∧ key.tokenHash = env.sha256 bearer ∧
      ∃ now, .checked i key.id now bearer ∈ log
  | .tokenRead userId | .admitted userId false | .minting userId _ => SignedIn env bearer userId
  | .owned key => SignedIn env bearer key.userId ∧ key.Minted env log
  | .arrived | .admitted _ true | .ended => True

section

variable {env : KeyEnv} {log : List KeyEvent}

theorem ApiKey.Minted.mono {key : ApiKey} (minted : key.Minted env log) (events : List KeyEvent) :
    key.Minted env (log ++ events) := by
  obtain ⟨token, by_, member, same⟩ := minted
  exact ⟨token, by_, List.mem_append_left _ member, same⟩

private theorem checked_mono {i : Nat} {keyId : Id} {bearer : String}
    (checked : ∃ now, KeyEvent.checked i keyId now bearer ∈ log) (events : List KeyEvent) :
    ∃ now, KeyEvent.checked i keyId now bearer ∈ log ++ events := by
  obtain ⟨now, member⟩ := checked
  exact ⟨now, List.mem_append_left _ member⟩

theorem KeyPhase.Informed.mono {i : Nat} {bearer : String} {phase : KeyPhase}
    (informed : phase.Informed env log i bearer) (events : List KeyEvent) :
    phase.Informed env (log ++ events) i bearer := by
  cases phase with
  | keyRead key =>
    obtain ⟨byKey, minted, begins, digest, checked⟩ := informed
    exact ⟨byKey, minted.mono events, begins, digest, checked_mono checked events⟩
  | touching key =>
    obtain ⟨byKey, minted, begins, digest, checked⟩ := informed
    exact ⟨byKey, minted.mono events, begins, digest, checked_mono checked events⟩
  | owned key => exact ⟨informed.1, informed.2.mono events⟩
  | admitted userId viaKey =>
    cases viaKey with
    | true => trivial
    | false => exact informed
  | tokenRead userId => exact informed
  | minting userId retried => exact informed
  | arrived => trivial
  | ended => trivial

/-- Only a switch of the key itself counts. -/
theorem enabledIn_append {keyId : Id} {events : List KeyEvent}
    (others : ∀ enabled by_, .toggled keyId enabled by_ ∉ events) :
    enabledIn (log ++ events) keyId = enabledIn log keyId := by
  unfold enabledIn
  rw [List.foldl_append]
  generalize log.foldl _ true = on
  induction events with
  | nil => rfl
  | cons event events ih =>
    rw [List.foldl_cons]
    have rest := ih fun enabled by_ member => others enabled by_ (List.mem_cons_of_mem _ member)
    split
    next id enabled by_ =>
      have apart : id ≠ keyId := by
        rintro rfl
        exact others enabled by_ (List.mem_cons_self ..)
      rw [if_neg apart]
      exact rest
    next => exact rest

@[simp] theorem enabledIn_toggled (keyId : Id) (enabled : Bool) (by_ : String) :
    enabledIn (log ++ [.toggled keyId enabled by_]) keyId = enabled := by
  rw [enabledIn, List.foldl_append]
  exact if_pos rfl

/-- A key that was never switched is enabled. -/
theorem enabledIn_untouched {keyId : Id}
    (untouched : ∀ enabled by_, .toggled keyId enabled by_ ∉ log) : enabledIn log keyId = true := by
  have same : enabledIn ([] ++ log) keyId = enabledIn [] keyId := enabledIn_append untouched
  rwa [List.nil_append] at same

/-- An id is minted once. -/
theorem minted_unique (justified : Justified (KeyEvent.Allowed env) log) {keyId owner other : Id}
    {token token' : String} {expiresAt expiresAt' : Option Instant} {by_ by' : String}
    (first : .minted keyId owner token expiresAt by_ ∈ log)
    (second : .minted keyId other token' expiresAt' by' ∈ log) : owner = other := by
  obtain ⟨before, later, split⟩ := List.append_of_mem first
  have fresh := (justified _ _ _ split).2
  rw [split] at second
  rcases List.mem_append.mp second with earlier | here
  · exact absurd earlier (fresh _ _ _ _)
  · rcases List.mem_cons.mp here with same | after
    · cases same
      rfl
    · obtain ⟨middle, rest, tail⟩ := List.append_of_mem after
      rw [tail, ← List.cons_append, ← List.append_assoc] at split
      have again := (justified _ _ _ split).2
      exact absurd (List.mem_append_right _ (List.mem_cons_self ..)) (again owner token expiresAt by_)

end

namespace KeyWorld

variable {env : KeyEnv} {w : KeyWorld}

/-- The row is of a key that was minted, and is as the log has it. -/
structure Recorded (env : KeyEnv) (log : List KeyEvent) (key : ApiKey) : Prop where
  minted : key.Minted env log
  enabled : key.enabled = enabledIn log key.id
  kept : ∀ by_, .deleted key.id by_ ∉ log

/-- What every step keeps. -/
structure Traced (env : KeyEnv) (w : KeyWorld) : Prop where
  justified : Justified (KeyEvent.Allowed env) w.log
  rows : ∀ key ∈ w.keys, Recorded env w.log key
  /-- the sequence is not behind an id it gave -/
  ids : ∀ keyId userId token expiresAt by_,
    .minted keyId userId token expiresAt by_ ∈ w.log → keyId ≤ w.keySeq
  requests : ∀ i (r : KeyRequest), w.requests[i]? = some r → r.phase.Informed env w.log i r.token

/-- Keys are switched and deleted after they were minted. -/
private theorem Traced.managed_le (traced : w.Traced env) {keyId : Id} {event : KeyEvent}
    (managed : (∃ enabled by_, event = .toggled keyId enabled by_) ∨
      ∃ by_, event = .deleted keyId by_) (member : event ∈ w.log) : keyId ≤ w.keySeq := by
  obtain ⟨before, later, split⟩ := List.append_of_mem member
  have allowed := traced.justified _ _ _ split
  have minted : ∃ userId token expiresAt by_, .minted keyId userId token expiresAt by_ ∈ before := by
    rcases managed with ⟨enabled, by_, rfl⟩ | ⟨by_, rfl⟩
    · obtain ⟨userId, _, token, expiresAt, by_, given⟩ := allowed
      exact ⟨userId, token, expiresAt, by_, given⟩
    · obtain ⟨userId, _, token, expiresAt, by_, given⟩ := allowed
      exact ⟨userId, token, expiresAt, by_, given⟩
  obtain ⟨userId, token, expiresAt, by_, given⟩ := minted
  refine traced.ids keyId userId token expiresAt by_ ?_
  rw [split]
  exact List.mem_append_left _ given

/-- Nothing was done to a row but what the events do to its key. -/
private theorem Recorded.mono {log events : List KeyEvent} {key : ApiKey}
    (recorded : Recorded env log key)
    (switched : ∀ enabled by_, .toggled key.id enabled by_ ∉ events)
    (deleted : ∀ by_, .deleted key.id by_ ∉ events) : Recorded env (log ++ events) key where
  minted := recorded.minted.mono events
  enabled := recorded.enabled.trans (enabledIn_append switched).symm
  kept by_ member :=
    (List.mem_append.mp member).elim (recorded.kept by_) (deleted by_)

section Move

variable {i : Nat} {r : KeyRequest} {phase : KeyPhase} {keys : List ApiKey} {seq : Id}
  {events : List KeyEvent}

theorem Move.single (move : w.Move env i r phase keys seq events) : events.length ≤ 1 := by
  cases move <;> simp

/-- The sequence only grows, past every id it gives. -/
theorem Move.seq_le (move : w.Move env i r phase keys seq events) :
    w.keySeq ≤ seq ∧ ∀ keyId userId token expiresAt by_,
      .minted keyId userId token expiresAt by_ ∈ events → keyId ≤ seq := by
  cases move with
  | ended later => exact ⟨later, nofun⟩
  -- an INSERT that fails uses up an id as well
  | again => exact ⟨Int.le_add_one (Int.le_refl _), nofun⟩
  | minted _ id =>
    refine ⟨Int.le_add_one (Int.le_refl _), fun keyId userId token expiresAt by_ given => ?_⟩
    cases List.mem_singleton.mp given
    exact Int.le_of_eq id
  | letIn => exact ⟨Int.le_refl _, fun _ _ _ _ _ given => by cases List.mem_singleton.mp given⟩
  | toggled => exact ⟨Int.le_refl _, fun _ _ _ _ _ given => by cases List.mem_singleton.mp given⟩
  | deleted => exact ⟨Int.le_refl _, fun _ _ _ _ _ given => by cases List.mem_singleton.mp given⟩
  | keyRead => exact ⟨Int.le_refl _, fun _ _ _ _ _ given => by cases List.mem_singleton.mp given⟩
  | touching | tokenRead | admitted | minting | owned => exact ⟨Int.le_refl _, nofun⟩

private theorem Traced.allowed (traced : w.Traced env)
    (informed : r.phase.Informed env w.log i r.token)
    (move : w.Move env i r phase keys seq events) : ∀ event ∈ events, event.Allowed env w.log := by
  cases move with
  | keyRead byKey member begins digest enabled unexpired =>
    -- the row is as the log has it
    obtain ⟨⟨token, by_, given, begins', digest'⟩, logged, kept⟩ := traced.rows _ member
    exact List.forall_mem_singleton.mpr ⟨byKey,
      ⟨_, token, _, by_, given, begins'.symm.trans begins, digest'.symm.trans digest, unexpired⟩,
      logged.symm.trans enabled, kept⟩
  | letIn before =>
    rw [before] at informed
    -- the row was minted with the prefix and the digest that this bearer has
    obtain ⟨byKey, ⟨token, by_, given, begins, digest⟩, begins', digest', checked⟩ := informed
    exact List.forall_mem_singleton.mpr ⟨byKey,
      ⟨token, _, by_, given, begins.symm.trans begins', digest.symm.trans digest'⟩, checked⟩
  | minted before id =>
    rw [before] at informed
    refine List.forall_mem_singleton.mpr ⟨informed, fun owner token expiresAt by_ given => ?_⟩
    -- every id given before is behind the sequence
    have later : w.keySeq < _ := Int.lt_of_add_one_le (Int.le_of_eq id.symm)
    exact absurd (traced.ids _ _ _ _ _ given) (Int.not_le.mpr later)
  | toggled before =>
    rw [before] at informed
    obtain ⟨signedIn, token, by_, given, _⟩ := informed
    exact List.forall_mem_singleton.mpr ⟨_, signedIn, token, _, by_, given⟩
  | deleted before =>
    rw [before] at informed
    obtain ⟨signedIn, token, by_, given, _⟩ := informed
    exact List.forall_mem_singleton.mpr ⟨_, signedIn, token, _, by_, given⟩
  | ended | touching | tokenRead | admitted | minting | again | owned =>
    exact List.forall_mem_nil _

private theorem Traced.rows_move (traced : w.Traced env)
    (move : w.Move env i r phase keys seq events) :
    ∀ key ∈ keys, Recorded env (w.log ++ events) key := by
  have kept : (∀ keyId enabled by_, .toggled keyId enabled by_ ∉ events) →
      (∀ keyId by_, .deleted keyId by_ ∉ events) →
      ∀ key ∈ w.keys, Recorded env (w.log ++ events) key :=
    fun switched deleted key member =>
      (traced.rows key member).mono (switched key.id) (deleted key.id)
  cases move with
  | letIn _ touched =>
    intro new member
    obtain ⟨old, inside, same⟩ := touched new member
    obtain ⟨minted, enabled, there⟩ := kept (by simp) (by simp) old inside
    rw [same]
    exact ⟨minted, enabled, there⟩
  | @minted _ _ key token _ id owner begins digest enabled =>
    have later : ¬key.id ≤ w.keySeq :=
      Int.not_le.mpr (Int.lt_of_add_one_le (Int.le_of_eq id.symm))
    refine List.forall_mem_append.mpr ⟨kept (by simp) (by simp),
      List.forall_mem_singleton.mpr ⟨⟨token, r.token, List.mem_append_right _ ?_, begins, digest⟩,
        ?_, fun by_ member => ?_⟩⟩
    · rw [owner]
      exact List.mem_singleton_self _
    -- no event before names an id that is still to come
    · rw [enabled, enabledIn_append (by simp), enabledIn_untouched]
      intro on by_ member
      exact absurd (traced.managed_le (Or.inl ⟨on, by_, rfl⟩) member) later
    · rcases List.mem_append.mp member with before | new
      · exact absurd (traced.managed_le (Or.inr ⟨by_, rfl⟩) before) later
      · cases List.mem_singleton.mp new
  | @toggled changed enabled =>
    intro new member
    obtain ⟨old, inside, rfl⟩ := List.mem_map.mp member
    have recorded := traced.rows old inside
    split
    next same =>
      refine ⟨recorded.minted.mono _, ?_, fun by_ member => ?_⟩
      · simp only [same, enabledIn_toggled]
      · rcases List.mem_append.mp member with before | after
        · exact recorded.kept by_ before
        · cases List.mem_singleton.mp after
    next other =>
      refine recorded.mono (fun on by_ member => ?_) (by simp)
      exact other (KeyEvent.toggled.inj (List.mem_singleton.mp member)).1
  | deleted =>
    intro key member
    obtain ⟨inside, other⟩ := List.mem_filter.mp member
    refine (traced.rows key inside).mono (by simp) fun by_ gone => ?_
    exact of_decide_eq_true other (KeyEvent.deleted.inj (List.mem_singleton.mp gone)).1
  | keyRead => exact kept (by simp) (by simp)
  | ended | touching | tokenRead | admitted | minting | again | owned =>
    exact kept (by simp) (by simp)

private theorem Traced.informed_move (traced : w.Traced env)
    (informed : r.phase.Informed env w.log i r.token)
    (move : w.Move env i r phase keys seq events) :
    phase.Informed env (w.log ++ events) i r.token := by
  cases move with
  | @keyRead _ now byKey member begins digest =>
    exact ⟨byKey, (traced.rows _ member).minted.mono _, begins, digest, now,
      List.mem_append_right _ (List.mem_singleton_self _)⟩
  | touching before =>
    rw [before] at informed
    have named : (KeyPhase.touching _).Informed env w.log i r.token := informed
    exact named.mono []
  | tokenRead signedIn valid => exact ⟨signedIn, _, valid⟩
  | admitted before | minting before | again before =>
    rw [before] at informed
    exact informed
  | owned before member owner =>
    rw [before] at informed
    rw [← owner] at informed
    exact ⟨informed, (traced.rows _ member).minted.mono _⟩
  | ended | letIn | minted | toggled | deleted => trivial

end Move

/-- Every order of statements keeps it. -/
theorem Traced.step (traced : w.Traced env) {l : KeyLabel} {w' : KeyWorld}
    (moved : w.Step env l w') : w'.Traced env := by
  rcases step_cases moved with ⟨i, r, here, phase, events, move, requests, log⟩ |
    ⟨token, action, rfl⟩ | ⟨keys, seq, requests, log⟩
  · -- a request makes its next statement
    have informed := traced.requests i r here
    refine ⟨?_, ?_, ?_, ?_⟩
    · rw [log]
      exact traced.justified.append move.single (traced.allowed informed move)
    · rw [log]
      exact traced.rows_move move
    · rw [log]
      intro keyId userId token expiresAt by_ given
      rcases List.mem_append.mp given with old | new
      · exact Int.le_trans (traced.ids _ _ _ _ _ old) move.seq_le.1
      · exact move.seq_le.2 _ _ _ _ _ new
    · rw [requests, log]
      intro j r' there
      rw [List.getElem?_set] at there
      split at there
      next same =>
        subst same
        split at there
        next =>
          cases there
          have informed' := traced.informed_move informed move
          exact informed'
        next => cases there
      next => exact (traced.requests j r' there).mono events
  · -- a request arrives, and knows nothing yet
    refine ⟨traced.justified, traced.rows, traced.ids, fun j r there => ?_⟩
    rw [List.getElem?_append] at there
    split at there
    next => exact traced.requests j r there
    next =>
      cases List.mem_singleton.mp (List.mem_of_getElem? there)
      trivial
  · refine ⟨?_, ?_, ?_, ?_⟩
    · rw [log]
      exact traced.justified
    · rw [log]
      exact fun key member => traced.rows key (keys.subset member)
    · rw [log, seq]
      exact traced.ids
    · rw [requests, log]
      exact traced.requests

/-- Whatever requests arrive and in whatever order their statements commit: a key is minted by a
session of its owner and never gets an id again, only a session of its owner switches or deletes
it, and no other bearer gets in as its owner than one with the prefix and the digest of its
token, which was found in the same request while the key was there, switched on and not expired.
No key mints or manages keys. -/
theorem keys_justified (env : KeyEnv) (users : List User) {w : KeyWorld}
    (run : Reaches (Step env) { users } w) : Justified (KeyEvent.Allowed env) w.log := by
  have start : Traced env { users } := by
    refine ⟨.nil, List.forall_mem_nil _, ?_, fun i r there => ?_⟩
    · intro _ _ _ _ _ given
      cases given
    · cases there
  have traced : w.Traced env := run.invariant (fun _ _ _ traced moved => traced.step moved) start
  exact traced.justified

end KeyWorld

section OneOwner

/-- The token of a key, and an access token of user 1. -/
def ciToken : String := "mgm_AAAAAAAAAAAAAAAAAAAAAAAAAAAAAAAAAAAAAAAAAAA"

def sessionToken : String := "eyJhbGciOiJIUzI1NiJ9.eyJzdWIiOiIxIn0.c2ln"

/-- The digest of that key, and the session that is open. -/
def ciEnv : KeyEnv where
  sha256 token :=
    if token = ciToken then "44e602b99da8ef12da94657e96524cdf0198f2d7f206b5f73c01d6acd729d9fc"
    else ""
  accessUser _ bearer := if bearer = sessionToken then some 1 else none

def ciOwner : User where
  id := 1
  email := "ops@example.com"
  hashedPassword := ""

/-- So many statements of a request. -/
def statements (request count : Nat) : List KeyLabel :=
  List.replicate count (.act request 0 "AAAAAAAAAAAAAAAAAAAAAAAAAAAAAAAAAAAAAAAAAAA")

/-- A session mints a key that is soon to expire; a request comes with it before, and one after. -/
def mintAndUse : List KeyLabel :=
  [.arrive sessionToken (.createKey "ci" (some 1))] ++ statements 0 4 ++
    [.arrive ciToken .other] ++ statements 1 3 ++
    [.arrive ciToken .other, .act 2 1 ""]

theorem KeyWorld.keys_justified_ci : ∃ w,
    play (KeyWorld.next ciEnv) mintAndUse { users := [ciOwner] } = some w ∧
    w.log = [.minted 1 1 ciToken (some 1) sessionToken, .checked 1 1 0 ciToken,
      .letIn 1 1 1 ciToken] ∧
    Justified (KeyEvent.Allowed ciEnv) w.log := by
  have ends : ∃ w, play (KeyWorld.next ciEnv) mintAndUse { users := [ciOwner] } = some w ∧
      w.log = [.minted 1 1 ciToken (some 1) sessionToken, .checked 1 1 0 ciToken,
        .letIn 1 1 1 ciToken] := ⟨_, rfl, rfl⟩
  obtain ⟨w, played, log⟩ := ends
  exact ⟨w, played, log, keys_justified ciEnv [ciOwner]
    (Reaches.of_guarded (Reaches.of_play (fun _ _ _ => trivial) played))⟩

end OneOwner

/-! ### How many keys a user has -/

/-- A request of the user is between the check of the limit and its INSERT. -/
def KeyPhase.mints (userId : Id) : KeyPhase → Bool
  | .minting id _ => id = userId
  | _ => false

namespace KeyWorld

/-- The keys of the user, expired and disabled ones included. -/
def held (w : KeyWorld) (userId : Id) : Nat :=
  w.keys.countP (·.userId = userId)

def mintings (w : KeyWorld) (userId : Id) : Nat :=
  w.requests.countP (·.phase.mints userId)

private theorem countP_owner {left right : List ApiKey}
    (same : left.map (·.userId) = right.map (·.userId)) (userId : Id) :
    left.countP (·.userId = userId) = right.countP (·.userId = userId) := by
  have counted := congrArg (List.countP fun id => decide (id = userId)) same
  rw [List.countP_map, List.countP_map] at counted
  exact counted

private theorem setKey_owners (id : Id) (enabled : Bool) (keys : List ApiKey) :
    (setKey id (fun key => { key with enabled := enabled }) keys).map (·.userId) =
      keys.map (·.userId) := by
  rw [setKey, List.map_map]
  refine List.map_congr_left fun key _ => ?_
  simp only [Function.comp_apply]
  split <;> rfl

/-- Only a minting request adds a key, and there is room where one starts. -/
private theorem Move.held {env : KeyEnv} {w : KeyWorld} {i : Nat} {r : KeyRequest}
    {phase : KeyPhase} {keys : List ApiKey} {seq : Id} {events : List KeyEvent}
    (move : w.Move env i r phase keys seq events) (userId : Id) :
    keys.countP (·.userId = userId) + (if phase.mints userId then 1 else 0) ≤
        w.held userId + (if r.phase.mints userId then 1 else 0) ∨
      keys = w.keys ∧ w.held userId < maxKeys := by
  cases move with
  | @minting owner _ few =>
    -- the check of the limit: it starts with room, and counts from now on
    by_cases same : owner = userId
    · subst same
      exact Or.inr ⟨rfl, few⟩
    · refine Or.inl ?_
      have foreign : (KeyPhase.minting owner false).mints userId = false := decide_eq_false same
      rw [foreign, if_neg Bool.false_ne_true]
      exact Nat.le_add_right _ _
  | again before => exact Or.inl (by rw [before]; exact Nat.le_refl _)
  | minted before _ owner =>
    left
    rw [before, List.countP_append, List.countP_singleton, owner]
    exact Nat.le_of_eq rfl
  | letIn _ _ owners =>
    refine Or.inl ?_
    rw [countP_owner owners]
    exact Nat.le_add_right _ _
  | toggled =>
    refine Or.inl ?_
    rw [countP_owner (setKey_owners _ _ _)]
    exact Nat.le_add_right _ _
  | deleted => exact Or.inl (Nat.le_add_right_of_le List.filter_sublist.countP_le)
  | ended | keyRead | touching | tokenRead | admitted | owned => exact Or.inl (Nat.le_add_right _ _)

/-- Where no more than so many creations of a user are under way at once, the limit is passed by
no more than that, less one: one at a time keeps it. -/
theorem keys_limited (env : KeyEnv) (users : List User) (userId : Id) (most : Nat) {w : KeyWorld}
    (run : Reaches (Guarded (fun w _ => w.mintings userId ≤ most) (Step env)) { users } w) :
    w.held userId < maxKeys + most := by
  -- the creations under way count as keys, as long as they are not too many
  have counted : w.held userId < maxKeys + most ∧
      (w.mintings userId ≤ most → w.held userId + w.mintings userId < maxKeys + most) := by
    refine run.invariant (P := fun w => w.held userId < maxKeys + most ∧
      (w.mintings userId ≤ most → w.held userId + w.mintings userId < maxKeys + most)) ?_ ?_
    · rintro w l w' ⟨_, few⟩ ⟨bounded, moved⟩
      have few := few bounded
      rcases step_cases moved with ⟨i, r, here, phase, events, move, requests, _⟩ |
        ⟨token, action, rfl⟩ | ⟨keys, _, requests, _⟩
      · rcases move.held userId with fewer | ⟨same, room⟩
        · have changed : w'.mintings userId + (if r.phase.mints userId then 1 else 0) =
              w.mintings userId + (if phase.mints userId then 1 else 0) := by
            unfold mintings
            rw [requests]
            exact countP_set_add _ here _
          unfold held at few fewer ⊢
          omega
        · unfold held at room ⊢
          rw [same]
          omega
      · have arrived : KeyWorld.mintings { w with requests := w.requests ++ [{ token, action }] }
            userId = w.mintings userId := by
          unfold mintings
          rw [List.countP_append]
          rfl
        have same : KeyWorld.held { w with requests := w.requests ++ [{ token, action }] } userId =
          w.held userId := rfl
        omega
      · have fewer : w'.held userId ≤ w.held userId := keys.countP_le
        have same : w'.mintings userId = w.mintings userId := by
          unfold mintings
          rw [requests]
        omega
    · have none_ : 0 < maxKeys := by decide
      have start : 0 < maxKeys + most := Nat.lt_of_lt_of_le none_ (Nat.le_add_right _ _)
      exact ⟨start, fun _ => start⟩
  exact counted.1

end KeyWorld

/-- Two sessions of one user create a key each, at once. -/
def mintTwo : List KeyLabel :=
  [.arrive sessionToken (.createKey "ci" none), .arrive sessionToken (.createKey "cd" none)] ++
    statements 0 3 ++ statements 1 3 ++ statements 0 1 ++
    [.act 1 0 "BBBBBBBBBBBBBBBBBBBBBBBBBBBBBBBBBBBBBBBBBBB"]

theorem KeyWorld.keys_limited_two : ∃ w,
    play (KeyWorld.next ciEnv) mintTwo { users := [ciOwner] } = some w ∧ w.held 1 = 2 ∧
    w.held 1 < maxKeys + 2 := by
  have ends : ∃ w, play (KeyWorld.next ciEnv) mintTwo { users := [ciOwner] } = some w ∧
      w.held 1 = 2 := ⟨_, rfl, rfl⟩
  have fits : Fits (fun w _ => w.mintings 1 ≤ 2) (KeyWorld.next ciEnv) mintTwo
      { users := [ciOwner] } := by
    repeat' apply And.intro
    all_goals first | decide | trivial
  obtain ⟨w, played, two⟩ := ends
  exact ⟨w, played, two, keys_limited ciEnv [ciOwner] 1 2 (Reaches.of_fits fits played)⟩

namespace KeyWorld

/-! ### Switching a key off -/

section SwitchedOff

variable {env : KeyEnv} {w : KeyWorld} {i : Nat} {r : KeyRequest} {phase : KeyPhase}
  {keys : List ApiKey} {seq : Id} {events : List KeyEvent}

/-- Every row was there with its id, or has a new one; only a switch turns it on. -/
private theorem Move.row (move : w.Move env i r phase keys seq events) {new : ApiKey}
    (member : new ∈ keys) : w.keySeq < new.id ∨ ∃ old ∈ w.keys, old.id = new.id ∧
      (new.enabled = true → old.enabled = true ∨ ∃ by_, .toggled new.id true by_ ∈ events) := by
  have kept : new ∈ w.keys → ∃ old ∈ w.keys, old.id = new.id ∧
      (new.enabled = true → old.enabled = true ∨ ∃ by_, .toggled new.id true by_ ∈ events) :=
    fun inside => ⟨new, inside, rfl, Or.inl⟩
  cases move with
  | letIn _ touched =>
    obtain ⟨old, inside, same⟩ := touched new member
    refine Or.inr ⟨old, inside, ?_, ?_⟩
    · rw [same]
    · rw [same]
      exact Or.inl
  | minted _ id =>
    rcases List.mem_append.mp member with inside | added
    · exact Or.inr (kept inside)
    · cases List.mem_singleton.mp added
      exact Or.inl (Int.lt_of_add_one_le (Int.le_of_eq id.symm))
  | toggled before =>
    obtain ⟨old, inside, rfl⟩ := List.mem_map.mp member
    right
    split
    next same =>
      refine ⟨old, inside, rfl, fun on => Or.inr ⟨r.token, ?_⟩⟩
      cases on
      rw [same]
      exact List.mem_singleton_self _
    next => exact ⟨old, inside, rfl, Or.inl⟩
  | deleted => exact Or.inr (kept (List.mem_of_mem_filter member))
  | ended | keyRead | touching | tokenRead | admitted | minting | again | owned =>
    exact Or.inr (kept member)

/-- A request that holds a key has just read it, switched on, or held it before. -/
private theorem Move.holds (move : w.Move env i r phase keys seq events) {key : ApiKey}
    (held : phase = .keyRead key ∨ phase = .touching key) :
    (key ∈ w.keys ∧ key.enabled = true) ∨ r.phase = .keyRead key := by
  cases move with
  | keyRead _ member _ _ enabled =>
    rcases held with same | same
    · cases same
      exact Or.inl ⟨member, enabled⟩
    · cases same
  | touching before =>
    rcases held with same | same
    · cases same
    · cases same
      exact Or.inr before
  | _ => rcases held with same | same <;> cases same

private theorem Move.letIn_event (move : w.Move env i r phase keys seq events) {request : Nat}
    {keyId userId : Id} {bearer : String} (event : .letIn request keyId userId bearer ∈ events) :
    request = i ∧ ∃ key, r.phase = .touching key ∧ key.id = keyId := by
  cases move with
  | letIn before =>
    cases List.mem_singleton.mp event
    exact ⟨rfl, _, before, rfl⟩
  | minted | toggled | deleted | keyRead => cases List.mem_singleton.mp event
  | _ => cases event

private theorem Move.toggled_event (move : w.Move env i r phase keys seq events) {keyId : Id}
    {enabled : Bool} {by_ : String} (event : .toggled keyId enabled by_ ∈ events) :
    ∃ row ∈ w.keys, row.id = keyId := by
  cases move with
  | toggled _ present =>
    cases List.mem_singleton.mp event
    exact present
  | minted | letIn | deleted | keyRead => cases List.mem_singleton.mp event
  | _ => cases event

end SwitchedOff

/-- The key has a row. -/
def HasRow (w : KeyWorld) (keyId : Id) : Prop :=
  ∃ key ∈ w.keys, key.id = keyId

/-- A request that arrives from now on gets in with the key only where it is still there, and
after it was switched on. -/
def OnlyIfToggled (w : KeyWorld) (keyId : Id) (before : List KeyEvent) (event : KeyEvent) : Prop :=
  ∀ request userId bearer, event = .letIn request keyId userId bearer →
    w.requests.length ≤ request →
      w.HasRow keyId ∧ ∃ by_, .toggled keyId true by_ ∈ before

/-- The same, and it was switched on by a session of the owner that gets in. -/
def OnlyIfOn (env : KeyEnv) (w : KeyWorld) (keyId : Id) (before : List KeyEvent)
    (event : KeyEvent) : Prop :=
  ∀ request userId bearer, event = .letIn request keyId userId bearer →
    w.requests.length ≤ request →
      w.HasRow keyId ∧ ∃ by_, .toggled keyId true by_ ∈ before ∧ SignedIn env by_ userId

/-- No row of the key is enabled, and none of the later requests holds it. -/
structure Off (w : KeyWorld) (keyId : Id) (now : KeyWorld) : Prop where
  rows : ∀ key ∈ now.keys, key.id = keyId → key.enabled = false
  requests : ∀ j r key, w.requests.length ≤ j → now.requests[j]? = some r →
    (r.phase = .keyRead key ∨ r.phase = .touching key) → key.id ≠ keyId

/-- What every step after `w` keeps. -/
structure Shut (w : KeyWorld) (keyId : Id) (new : List KeyEvent) (now : KeyWorld) : Prop where
  log : now.log = w.log ++ new
  justified : Justified (w.OnlyIfToggled keyId) new
  used : keyId ≤ now.keySeq
  there : now.HasRow keyId → w.HasRow keyId
  off : (w.HasRow keyId ∧ ∃ by_, .toggled keyId true by_ ∈ new) ∨ w.Off keyId now

theorem Shut.step {env : KeyEnv} {w now now' : KeyWorld} {keyId : Id} {new : List KeyEvent}
    (shut : w.Shut keyId new now) {l : KeyLabel} (moved : now.Step env l now') :
    ∃ new', w.Shut keyId new' now' := by
  rcases step_cases moved with ⟨i, r, here, phase, events, move, requests, log⟩ |
    ⟨token, action, rfl⟩ | ⟨keys, seq, requests, log⟩
  · have row : ∀ key ∈ now'.keys, key.id = keyId → ∃ old ∈ now.keys, old.id = key.id ∧
        (key.enabled = true → old.enabled = true ∨ ∃ by_, .toggled key.id true by_ ∈ events) := by
      intro key member same
      rcases move.row member with fresh | old
      · rw [same] at fresh
        exact absurd shut.used (Int.not_le.mpr fresh)
      · exact old
    -- the request with this step, first what it logs and then what it leaves
    refine ⟨new ++ events, ?_, ?_, Int.le_trans shut.used move.seq_le.1, ?_, ?_⟩
    · rw [log, shut.log, List.append_assoc]
    · refine shut.justified.append move.single ?_
      rintro event member request userId bearer rfl late
      obtain ⟨rfl, key, touching, same⟩ := move.letIn_event member
      rcases shut.off with on | off
      · exact on
      · exact absurd same (off.requests request r key late here (Or.inr touching))
    · rintro ⟨key, member, same⟩
      obtain ⟨old, inside, id, _⟩ := row key member same
      exact shut.there ⟨old, inside, id.trans same⟩
    · rcases shut.off with ⟨there, by_, on⟩ | off
      · exact Or.inl ⟨there, by_, List.mem_append_left _ on⟩
      · -- either this step switches the key on, or it stays off
        by_cases switched : ∃ by_, .toggled keyId true by_ ∈ events
        · obtain ⟨by_, on⟩ := switched
          exact Or.inl ⟨shut.there (move.toggled_event on), by_, List.mem_append_right _ on⟩
        · refine Or.inr ⟨fun key member same => ?_, fun j r' key late there held => ?_⟩
          · obtain ⟨old, inside, id, only⟩ := row key member same
            by_contra enabled
            rw [Bool.not_eq_false] at enabled
            rcases only enabled with before | on
            · rw [off.rows old inside (id.trans same)] at before
              cases before
            · rw [same] at on
              exact switched on
          · rw [requests, List.getElem?_set] at there
            split at there
            next at_ =>
              subst at_
              split at there
              next inside =>
                cases there
                rcases move.holds held with ⟨member, enabled⟩ | before
                · intro same
                  rw [off.rows key member same] at enabled
                  cases enabled
                · exact off.requests i r key late here (Or.inl before)
              next => cases there
            next => exact off.requests j r' key late there held
  · refine ⟨new, shut.log, shut.justified, shut.used, shut.there, ?_⟩
    refine shut.off.imp_right fun off => ⟨off.rows, fun j r key late there held => ?_⟩
    rw [List.getElem?_append] at there
    split at there
    next => exact off.requests j r key late there held
    next =>
      cases List.mem_singleton.mp (List.mem_of_getElem? there)
      rcases held with same | same <;> cases same
  · refine ⟨new, log.trans shut.log, shut.justified, ?_, ?_, ?_⟩
    · rw [seq]
      exact shut.used
    · rintro ⟨key, member, same⟩
      exact shut.there ⟨key, keys.subset member, same⟩
    · refine shut.off.imp_right fun off => ⟨fun key member => off.rows key (keys.subset member), ?_⟩
      rw [requests]
      exact off.requests

/-- Whoever switched the key on was signed in as the owner that it lets in. -/
private theorem Shut.byOwner {env : KeyEnv} {w now : KeyWorld} {keyId : Id} {new : List KeyEvent}
    (shut : w.Shut keyId new now) (justified : Justified (KeyEvent.Allowed env) now.log) :
    Justified (OnlyIfOn env w keyId) new := by
  rintro before event later split request userId bearer rfl late
  obtain ⟨there, by_, on⟩ := shut.justified before _ later split request userId bearer rfl late
  refine ⟨there, by_, on, ?_⟩
  have whole : now.log = (w.log ++ before) ++ .letIn request keyId userId bearer :: later := by
    rw [shut.log, split, List.append_assoc]
  obtain ⟨_, ⟨token, expiresAt, by', given, _⟩, _⟩ := justified _ _ _ whole
  obtain ⟨front, back, inside⟩ := List.append_of_mem on
  have earlier : now.log = (w.log ++ front) ++ .toggled keyId true by_ ::
      (back ++ .letIn request keyId userId bearer :: later) := by
    rw [whole, inside]
    simp only [List.append_assoc, List.cons_append]
  obtain ⟨owner, signedIn, token', expiresAt', by'', minted⟩ := justified _ _ _ earlier
  -- the key was minted once, so the two owners are the same
  have same : owner = userId := minted_unique justified
    (by rw [earlier]; exact List.mem_append_left _ minted)
    (by rw [whole]; exact List.mem_append_left _ given)
  exact same ▸ signedIn

/-- Once no row of a key is enabled, because it was switched off or deleted, no request that
arrives later gets in with it, however the requests before are interleaved with it: not unless the
row is still there and a session of its owner switches it on again. -/
theorem switched_off_stays_out (env : KeyEnv) (users : List User) {w now : KeyWorld} {keyId : Id}
    (earlier : Reaches (Step env) { users } w)
    (off : ∀ key ∈ w.keys, key.id = keyId → key.enabled = false) (used : keyId ≤ w.keySeq)
    (run : Reaches (Step env) w now) :
    ∃ new, now.log = w.log ++ new ∧ Justified (OnlyIfOn env w keyId) new := by
  have start : w.Shut keyId [] w := by
    refine ⟨(List.append_nil _).symm, .nil, used, id, Or.inr ⟨off, fun j r key late there => ?_⟩⟩
    rw [List.getElem?_eq_none late] at there
    cases there
  have shut : ∃ new, w.Shut keyId new now :=
    run.invariant (P := fun now => ∃ new, w.Shut keyId new now)
      (fun _ _ _ ⟨_, shut⟩ moved => shut.step moved) ⟨[], start⟩
  obtain ⟨new, shut⟩ := shut
  exact ⟨new, shut.log, shut.byOwner (keys_justified env users (earlier.trans run))⟩

end KeyWorld

/-- A session mints a key and switches it off. -/
def switchOff : List KeyLabel :=
  [.arrive sessionToken (.createKey "ci" none)] ++ statements 0 4 ++
    [.arrive sessionToken (.updateKey 1 false)] ++ statements 1 4

/-- The key of the owner, switched off. -/
def ciSwitchedOff : KeyWorld where
  users := [ciOwner]
  keys := [{ id := 1, userId := 1, name := "ci", tokenPrefix := "mgm_AAAAAAAA"
             tokenHash := "44e602b99da8ef12da94657e96524cdf0198f2d7f206b5f73c01d6acd729d9fc"
             enabled := false }]
  keySeq := 1
  requests := [{ token := sessionToken, action := .createKey "ci" none, phase := .ended },
    { token := sessionToken, action := .updateKey 1 false, phase := .ended }]
  log := [.minted 1 1 ciToken none sessionToken, .toggled 1 false sessionToken]

/-- A request comes with it, its owner switches it on, and another request comes. -/
def switchOn : List KeyLabel :=
  [.arrive ciToken .other] ++ statements 2 1 ++
    [.arrive sessionToken (.updateKey 1 true)] ++ statements 3 4 ++
    [.arrive ciToken .other] ++ statements 4 3

theorem KeyWorld.switched_off_stays_out_ci : ∃ w,
    play (KeyWorld.next ciEnv) switchOn ciSwitchedOff = some w ∧
    w.log = ciSwitchedOff.log ++
      [.toggled 1 true sessionToken, .checked 4 1 0 ciToken, .letIn 4 1 1 ciToken] ∧
    ∃ new, w.log = ciSwitchedOff.log ++ new ∧
      Justified (OnlyIfOn ciEnv ciSwitchedOff 1) new := by
  have ends : ∃ w, play (KeyWorld.next ciEnv) switchOn ciSwitchedOff = some w ∧
      w.log = ciSwitchedOff.log ++
        [.toggled 1 true sessionToken, .checked 4 1 0 ciToken, .letIn 4 1 1 ciToken] :=
    ⟨_, rfl, rfl⟩
  have before : play (KeyWorld.next ciEnv) switchOff { users := [ciOwner] } =
      some ciSwitchedOff := rfl
  have off : ∀ key ∈ ciSwitchedOff.keys, key.id = 1 → key.enabled = false :=
    List.forall_mem_singleton.mpr fun _ => rfl
  obtain ⟨w, played, log⟩ := ends
  exact ⟨w, played, log, switched_off_stays_out ciEnv [ciOwner]
    (Reaches.of_guarded (Reaches.of_play (fun _ _ _ => trivial) before)) off (Int.le_refl _)
    (Reaches.of_guarded (Reaches.of_play (fun _ _ _ => trivial) played))⟩

end MegooPM
