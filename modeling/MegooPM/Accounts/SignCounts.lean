import MegooPM.Accounts.Tables
import MegooPM.Lib.Bytes
import MegooPM.Lib.ReadCommitted

/-!
# Sign counts

`mfa_passkey_verify` once it has taken its challenge. The passkey is listed, the assertion checked
against the count of that row, and the new count written with the commit, whatever the stored one is
by then. An authenticator that was cloned shows by a count that does not grow; the check holds of a
run as long as it still holds of the stored row when a request commits.
-/
namespace MegooPM

open Lib

/-- The columns of `passkey` that the ceremony reads or writes. -/
structure StoredPasskey where
  id : Id
  userId : Id
  credentialId : Bytes
  publicKey : Bytes
  signCount : Nat
  lastUsedAt : Option Instant := none
  deriving DecidableEq, Repr

/-- An assertion as the browser sends it, and what the library reads out of it. -/
structure PasskeyEnv (Credential : Type) where
  /-- `credential_id_of` -/
  credentialIdOf : Credential → Option Bytes
  /-- `verify_authentication_response` against a challenge, a public key and the current count: the
  new count; `none` where it raises -/
  verifyResponse : Credential → Bytes → Bytes → Nat → Option Nat

inductive PasskeyEvent where
  /-- the request answers with tokens; the passkey and the count the assertion carried -/
  | accepted (passkey : Id) (count : Nat)
  | refused
  deriving DecidableEq, Repr

abbrev PasskeyTxn := Txn (List StoredPasskey) Id PasskeyEvent

section Requests

variable {Credential : Type} (env : PasskeyEnv Credential)

/-- The authenticator's new sign count, or `none` for `PasskeyRejected`. -/
def verifyAuthentication (credential : Credential) (challenge : Bytes) (passkey : StoredPasskey) :
    Option Nat :=
  match env.verifyResponse credential challenge passkey.publicKey passkey.signCount with
  | none => none
  | some newSignCount =>
    if passkey.signCount > 0 ∧ newSignCount ≤ passkey.signCount then none else some newSignCount

/-- The row after the UPDATE for a passkey that was loaded and edited. -/
def StoredPasskey.flush (loaded edited row : StoredPasskey) : StoredPasskey :=
  { row with
    signCount := flushColumn loaded.signCount edited.signCount row.signCount
    lastUsedAt := flushColumn loaded.lastUsedAt edited.lastUsedAt row.lastUsedAt }

/-- `touch`; the UPDATE is refused as stale if the row is gone. -/
def touch (rows : List StoredPasskey) (passkey : StoredPasskey) (newSignCount : Nat)
    (now : Instant) : Option (List StoredPasskey) :=
  let edited := { passkey with signCount := newSignCount, lastUsedAt := some now }
  if edited = passkey then some rows
  else if rows.any (·.id = passkey.id) then
    some (updateAt StoredPasskey.id passkey.id (passkey.flush edited) rows)
  else none

/-- The request of a user from `list_for` on, with the challenge it was handed. -/
def mfaPasskeyVerify (userId : Id) (credential : Credential) (challenge : Bytes) (now : Instant) :
    PasskeyTxn :=
  .read fun rows =>
    let listed := rows.filter (·.userId = userId)
    match listed.find? fun p => some p.credentialId = env.credentialIdOf credential with
    | none => .emit .refused .done
    | some passkey =>
      match verifyAuthentication env credential challenge passkey with
      | none => .emit .refused .done
      | some newCount =>
        .commit [passkey.id] (fun rows => touch rows passkey newCount now)
          (.accepted passkey.id newCount)

/-- The requests of any users, with any challenges and assertions. -/
inductive AssertionRequest : PasskeyTxn → Prop
  | verify (userId : Id) (credential : Credential) (challenge : Bytes) (now : Instant) :
    AssertionRequest (mfaPasskeyVerify env userId credential challenge now)

end Requests

def storedCount (i : Id) (rows : List StoredPasskey) : Option Nat :=
  (rows.find? (·.id = i)).map (·.signCount)

/-- The stored count of a passkey is still zero or below the count that is accepted. -/
def stillGrows (i : Id) (rows : List StoredPasskey) : PasskeyEvent → Bool
  | .accepted passkey count =>
    passkey ≠ i || (storedCount i rows).all fun stored => stored = 0 || stored < count
  | .refused => true

/-- The passkey stays, and its count does not go back. -/
def CountGrows (i : Id) (s t : List StoredPasskey) : Prop :=
  ∀ a, storedCount i s = some a → ∃ b, storedCount i t = some b ∧ a ≤ b

/-- What the commits of requests do to the count of a passkey. -/
def AssertionCommit (i : Id) (s : List StoredPasskey) : PasskeyEvent → List StoredPasskey → Prop
  | .accepted passkey count, t => CountGrows i s t ∧ (passkey = i → storedCount i t = some count)
  | .refused, _ => False

/-- The contract of the requests, about one passkey. -/
def assertionContract (i : Id) : Contract (List StoredPasskey) PasskeyEvent where
  valid := fun _ => True
  rely := CountGrows i
  guard := fun s event => stillGrows i s event = true
  commits := fun _ => AssertionCommit i
  emits := fun event => event = .refused
  refl := fun _ a stored => ⟨a, stored, Nat.le_refl a⟩
  trans := by
    intro s t u first second a stored
    obtain ⟨b, stored', le⟩ := first a stored
    obtain ⟨c, stored'', le'⟩ := second b stored'
    exact ⟨c, stored'', Nat.le_trans le le'⟩
  commits_valid := fun _ _ _ _ _ _ => trivial
  commits_rely := by
    intro log s event t _ does
    cases event with
    | accepted passkey count => exact does.1
    | refused => exact does.elim

section Requests

variable {Credential : Type} {env : PasskeyEnv Credential} {i : Id} {s t : List StoredPasskey}

/-- A count that is accepted is above the loaded one, or the loaded one is zero. -/
theorem verifyAuthentication_grows {credential : Credential} {challenge : Bytes}
    {passkey : StoredPasskey} {count : Nat}
    (accepts : verifyAuthentication env credential challenge passkey = some count) :
    passkey.signCount = 0 ∨ passkey.signCount < count := by
  unfold verifyAuthentication at accepts
  split at accepts
  next => cases accepts
  next newSignCount _ =>
    split at accepts
    next => cases accepts
    next passes =>
      cases accepts
      omega

/-- The count of a passkey after another one's, or its own, was touched. -/
theorem storedCount_touch {passkey : StoredPasskey} {count : Nat} {now : Instant}
    (written : touch s passkey count now = some t) :
    storedCount i t = (storedCount i s).map fun stored =>
      if passkey.id = i then flushColumn passkey.signCount count stored else stored := by
  simp only [touch] at written
  by_cases same : { passkey with signCount := count, lastUsedAt := some now } = passkey
  · rw [if_pos same] at written
    cases written
    have unchanged : count = passkey.signCount := congrArg StoredPasskey.signCount same
    have kept : (fun stored => if passkey.id = i then flushColumn passkey.signCount count stored
        else stored) = id := by
      funext stored
      rw [unchanged, flushColumn_same, ite_self, id_eq]
    rw [kept, Option.map_id, id_eq]
  · rw [if_neg same] at written
    obtain ⟨-, sent⟩ := Option.ite_none_right_eq_some.mp written
    cases sent
    have keeps : ∀ row, (passkey.flush { passkey with
        signCount := count, lastUsedAt := some now } row).id = row.id := fun _ => rfl
    rw [storedCount, storedCount, find?_updateAt keeps, Option.map_map, Option.map_map]
    refine Option.map_congr fun row found => ?_
    have own : row.id = i := by simpa using List.find?_some found
    simp only [Function.comp_apply, own, eq_comm (a := i)]
    split
    next => rfl
    next => rfl

/-- The commit of a request whose count still passes the stored one. -/
theorem assertionCommit_of_touch {passkey : StoredPasskey} {count : Nat} {now : Instant}
    (grows : passkey.signCount = 0 ∨ passkey.signCount < count)
    (fresh : stillGrows i s (.accepted passkey.id count) = true)
    (written : touch s passkey count now = some t)
    (there : passkey.id = i → ∃ stored, storedCount i s = some stored) :
    AssertionCommit i s (.accepted passkey.id count) t := by
  have after := storedCount_touch (i := i) written
  by_cases own : passkey.id = i
  · subst own
    obtain ⟨stored, known⟩ := there rfl
    simp only [stillGrows, known, ne_eq, not_true_eq_false, decide_false, Bool.false_or,
      Option.all_some, Bool.or_eq_true, decide_eq_true_eq] at fresh
    -- a column that is not in the UPDATE was loaded as the zero that is still stored
    have becomes : flushColumn passkey.signCount count stored = count := by
      unfold flushColumn
      split
      next same => omega
      next => rfl
    rw [known, Option.map_some, if_pos rfl, becomes] at after
    refine ⟨fun a is => ⟨count, after, ?_⟩, fun _ => after⟩
    rw [known, Option.some.injEq] at is
    omega
  · refine ⟨fun a is => ⟨a, ?_, Nat.le_refl a⟩, fun same => absurd same own⟩
    rw [after, is, Option.map_some, if_neg own]

theorem mfaPasskeyVerify_safe (p : PasskeyTxn) (request : AssertionRequest env p)
    (log : List PasskeyEvent) (s : List StoredPasskey) : p.Safe (assertionContract i) log s := by
  obtain ⟨userId, credential, challenge, now⟩ := request
  intro _ rows _ _ _
  dsimp only
  split
  next => exact ⟨rfl, trivial⟩
  next passkey found =>
    split
    next => exact ⟨rfl, trivial⟩
    next count accepts =>
      intro _ t u _ _ later fresh written
      refine assertionCommit_of_touch (verifyAuthentication_grows accepts) fresh written ?_
      rintro rfl
      -- the row was there when it was listed, and stays
      have member := (List.mem_filter.mp (List.mem_of_find?_eq_some found)).1
      have listed : (rows.find? (·.id = passkey.id)).isSome :=
        List.find?_isSome.mpr ⟨passkey, member, by simp⟩
      obtain ⟨row, first⟩ := Option.isSome_iff_exists.mp listed
      obtain ⟨stored, known, -⟩ := later row.signCount (by rw [storedCount, first]; rfl)
      exact ⟨stored, known⟩

end Requests

/-- In every run of requests in which a count that is written still passes the stored one, the
stored count of a passkey never goes back, no count but zero is accepted twice, and zero is not
accepted once the stored count is positive. -/
theorem signCount_grows {Credential : Type} {env : PasskeyEnv Credential} {i : Id}
    {rows : List StoredPasskey} {w w' : World (List StoredPasskey) Id PasskeyEvent Nat}
    (run : Reaches (Guarded (World.Meets fun s event => stillGrows i s event = true)
      (World.Step (AssertionRequest env))) (World.idle rows) w)
    (more : Reaches (Guarded (World.Meets fun s event => stillGrows i s event = true)
      (World.Step (AssertionRequest env))) w w') :
    CountGrows i w.store w'.store ∧
    (∀ count, 0 < count → w'.log.count (.accepted i count) ≤ 1) ∧
    ∀ stored, storedCount i w.store = some stored → 0 < stored →
      w'.log.count (.accepted i 0) = w.log.count (.accepted i 0) := by
  have idle := World.keeps_idle (c := assertionContract i) (κ := Id) (ι := Nat) (s := rows) trivial
  have keeps := (World.run_invariant mfaPasskeyVerify_safe (P := fun _ _ => True)
    (fun _ _ _ _ _ _ _ _ => trivial) (fun _ _ _ _ _ => trivial) idle trivial run).1
  refine ⟨World.run_rely mfaPasskeyVerify_safe keeps more, fun count positive => ?_,
    fun stored known positive => ?_⟩
  -- from the first acceptance on the stored count is no lower
  · refine World.run_once (c := assertionContract i) mfaPasskeyVerify_safe
      (U := fun s => ∃ stored, storedCount i s = some stored ∧ count ≤ stored)
      ?_ ?_ ?_ ?_ idle List.not_mem_nil (run.trans more)
    · rintro s t grows ⟨stored, known, le⟩
      obtain ⟨later, known', le'⟩ := grows stored known
      exact ⟨later, known', Nat.le_trans le le'⟩
    · rintro s _ fresh ⟨stored, known, le⟩
      have fresh : stillGrows i s (.accepted i count) = true := fresh
      simp only [stillGrows, known, ne_eq, not_true_eq_false, decide_false, Bool.false_or,
        Option.all_some, Bool.or_eq_true, decide_eq_true_eq] at fresh
      omega
    · rintro _ s t ⟨_, becomes⟩
      exact ⟨count, becomes rfl, Nat.le_refl count⟩
    · exact fun same => PasskeyEvent.noConfusion same
  · -- a positive count stays positive, and then a zero does not pass it
    refine (World.run_invariant mfaPasskeyVerify_safe
      (P := fun s log => (∃ stored, storedCount i s = some stored ∧ 0 < stored) ∧
        log.count (.accepted i 0) = w.log.count (.accepted i 0))
      ?_ ?_ keeps ⟨⟨stored, known, positive⟩, rfl⟩ more).2.2
    · rintro s log event t _ ⟨⟨stored, known, positive⟩, same⟩ fresh does
      obtain ⟨later, known', le⟩ := (assertionContract i).commits_rely log s event t trivial does
        stored known
      refine ⟨⟨later, known', Nat.lt_of_lt_of_le positive le⟩, ?_⟩
      have other : event ≠ .accepted i 0 := by
        rintro rfl
        have fresh : stillGrows i s (.accepted i 0) = true := fresh
        simp only [stillGrows, known, ne_eq, not_true_eq_false, decide_false, Bool.false_or,
          Option.all_some, Bool.or_eq_true, decide_eq_true_eq] at fresh
        omega
      rw [List.count_append, List.count_singleton, if_neg (by simpa using other)]
      exact same
    · rintro s log event ⟨held, same⟩ emitted
      have emitted : event = .refused := emitted
      refine ⟨held, ?_⟩
      rw [List.count_append, emitted, List.count_singleton, if_neg (by simp)]
      exact same

/-! ### Two assertions at once -/

/-- Assertions that carry a count, checked against the current one as the library does. -/
def countingEnv : PasskeyEnv Nat where
  credentialIdOf := fun _ => some [1]
  verifyResponse := fun count _ _ current =>
    if (0 < count ∨ 0 < current) ∧ count ≤ current then none else some count

def countingPasskey : StoredPasskey :=
  { id := 1, userId := 2, credentialId := [1], publicKey := [9], signCount := 5 }

/-- The request of the user with an assertion that carries this count. -/
def countingRequest (count : Nat) : PasskeyTxn :=
  mfaPasskeyVerify countingEnv 2 count [] 1000

private theorem request_counting (count : Nat) :
    AssertionRequest countingEnv (countingRequest count) :=
  .verify 2 count [] 1000

/-- One request after the other; the second carries the count of the first and is refused. -/
def assertTwice : List (Label (List StoredPasskey) Id PasskeyEvent Nat) :=
  [.start 0 (countingRequest 6), .act 0, .act 0, .start 1 (countingRequest 6), .act 1, .act 1,
   .start 2 (countingRequest 8), .act 2, .act 2]

theorem signCount_grows_twice :
    ∃ w, (World.idle [countingPasskey]).playWithin (stillGrows 1) assertTwice = some w ∧
      w.log = [.accepted 1 6, .refused, .accepted 1 8] ∧
      CountGrows 1 [countingPasskey] w.store := by
  have allowed : ∀ l ∈ assertTwice, l.Allowed (AssertionRequest countingEnv) := by
    simp [assertTwice, request_counting, Label.Allowed]
  refine ⟨_, rfl, rfl, ?_⟩
  exact (signCount_grows (Reaches.refl _ _) (World.reaches_playWithin allowed rfl)).1

/-- Two requests with counts of their own: both list the passkey before either has written. -/
def assertAtOnce (first second : Nat) : List (Label (List StoredPasskey) Id PasskeyEvent Nat) :=
  [.start 0 (countingRequest first), .start 1 (countingRequest second), .act 0, .act 1, .act 0]

/-- An assertion and its copy are both accepted, and a later count is replaced by an earlier one. -/
theorem signCount_replayed :
    ∃ u v w x : World (List StoredPasskey) Id PasskeyEvent Nat,
      Reaches (World.Step (AssertionRequest countingEnv)) (World.idle [countingPasskey]) u ∧
      Reaches (World.Step (AssertionRequest countingEnv)) u v ∧
      v.log.count (.accepted 1 6) = 2 ∧
      Reaches (World.Step (AssertionRequest countingEnv)) (World.idle [countingPasskey]) w ∧
      storedCount 1 w.store = some 7 ∧
      Reaches (World.Step (AssertionRequest countingEnv)) w x ∧
      storedCount 1 x.store = some 6 := by
  have allowed : ∀ first second, ∀ l ∈ assertAtOnce first second,
      l.Allowed (AssertionRequest countingEnv) := by
    intro first second
    simp [assertAtOnce, request_counting, Label.Allowed]
  have commits : ∀ l ∈ [(.act 1 : Label (List StoredPasskey) Id PasskeyEvent Nat)],
      l.Allowed (AssertionRequest countingEnv) := by
    simp [Label.Allowed]
  exact ⟨_, _, _, _, World.reaches_play (allowed 6 6) rfl, World.reaches_play commits rfl,
    by decide, World.reaches_play (allowed 7 6) rfl, rfl, World.reaches_play commits rfl, rfl⟩

end MegooPM
