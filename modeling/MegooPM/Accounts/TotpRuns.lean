import MegooPM.Accounts.Totp

/-!
# Runs of the second factor

Any number of sessions verify codes, enrol and disable at once. The checks are made on what a
session has loaded, and the columns are written with its commit: each check holds of a run as
long as it still holds of what is committed when the session writes.
-/
namespace MegooPM

open Lib

/-! ### Replay -/

/-- The calls of one user's logins. -/
inductive VerifyRequest (env : TotpEnv) (userId : Id) : TotpTxn → Prop
  | verify (code : String) (now usedAt : Instant) :
    VerifyRequest env userId (verifyCode env userId code now usedAt)

/-- A time-step is still later than the stored one, and a recovery code still unspent, when
they are written. -/
def stillFresh (userId : Id) (db : Accounts) : TotpEvent → Bool
  | .accepted step => (db.user? userId).all fun user => user.totpLastStep.all (· < step)
  | .recovered codeId => db.recoveryCodes.any fun c => c.id = codeId && c.usedAt = none
  | _ => true

/-- The stored step later on. -/
def StepLe (before after : Option Int) : Prop :=
  ∀ x ∈ before, ∃ y ∈ after, x ≤ y

/-- The last step does not go back, 2FA stays as it is, and spent codes stay spent. -/
structure FactorAges (userId : Id) (s t : Accounts) : Prop where
  user : ∀ a, s.user? userId = some a → ∃ b, t.user? userId = some b ∧
    b.totpEnabledAt = a.totpEnabledAt ∧ StepLe a.totpLastStep b.totpLastStep
  codes : ∀ c ∈ s.recoveryCodes, ∃ d ∈ t.recoveryCodes, d.id = c.id ∧
    (c.usedAt ≠ none → d.usedAt ≠ none)

theorem FactorAges.refl (userId : Id) (s : Accounts) : FactorAges userId s s where
  user := fun a found => ⟨a, found, rfl, fun x present => ⟨x, present, le_refl x⟩⟩
  codes := fun c member => ⟨c, member, rfl, id⟩

theorem FactorAges.trans {userId : Id} {s t u : Accounts} (first : FactorAges userId s t)
    (second : FactorAges userId t u) : FactorAges userId s u where
  user := by
    intro a found
    obtain ⟨b, found', enabled, le⟩ := first.user a found
    obtain ⟨c, found'', enabled', le'⟩ := second.user b found'
    refine ⟨c, found'', enabled'.trans enabled, fun x present => ?_⟩
    obtain ⟨y, present', below⟩ := le x present
    obtain ⟨z, present'', below'⟩ := le' y present'
    exact ⟨z, present'', le_trans below below'⟩
  codes := by
    intro c member
    obtain ⟨d, member', same, spent⟩ := first.codes c member
    obtain ⟨e, member'', same', spent'⟩ := second.codes d member'
    exact ⟨e, member'', same'.trans same, spent' ∘ spent⟩

/-- The step is written to the row of one user. -/
def Accounts.setLastStep (db : Accounts) (userId : Id) (step : Int) : Accounts :=
  { db with
    users := updateAt User.id userId (fun row => { row with totpLastStep := some step }) db.users }

/-- What the commits of `verify_code` write. -/
def VerifyCommit (userId : Id) (s : Accounts) : TotpEvent → Accounts → Prop
  | .accepted step, t =>
    (∀ user, s.user? userId = some user → ∀ last ∈ user.totpLastStep, last < step) ∧
    (s.user? userId).isSome ∧ t = s.setLastStep userId step
  | .recovered codeId, t => ∃ now, (∃ c ∈ s.recoveryCodes, c.id = codeId) ∧
    t = { s with
      recoveryCodes :=
        updateAt RecoveryCode.id codeId (fun c => { c with usedAt := some now }) s.recoveryCodes }
  | _, _ => False

section Verify

variable {env : TotpEnv} {userId : Id} {s t : Accounts}

theorem user?_setLastStep (step : Int) :
    (s.setLastStep userId step).user? userId =
      (s.user? userId).map fun row => { row with totpLastStep := some step } :=
  find?_updateAt_self fun _ => rfl

theorem VerifyCommit.ages {event : TotpEvent} (does : VerifyCommit userId s event t) :
    FactorAges userId s t := by
  cases event with
  | accepted step =>
    obtain ⟨later, _, rfl⟩ := does
    refine ⟨fun a found => ?_, fun c member => ⟨c, member, rfl, id⟩⟩
    refine ⟨{ a with totpLastStep := some step }, ?_, rfl, fun last present => ?_⟩
    · rw [user?_setLastStep, found]
      rfl
    · exact ⟨step, rfl, le_of_lt (later a found last present)⟩
  | recovered codeId =>
    obtain ⟨now, _, rfl⟩ := does
    refine ⟨(FactorAges.refl userId s).user, fun c member => ?_⟩
    refine ⟨_, mem_updateAt.mpr ⟨c, member, rfl⟩, ?_⟩
    split
    · exact ⟨rfl, fun _ => Option.some_ne_none _⟩
    · exact ⟨rfl, id⟩
  | _ => exact does.elim

theorem VerifyCommit.valid {event : TotpEvent} (valid : (s.recoveryCodes.map (·.id)).Nodup)
    (does : VerifyCommit userId s event t) : (t.recoveryCodes.map (·.id)).Nodup := by
  cases event with
  | accepted step =>
    obtain ⟨_, _, rfl⟩ := does
    exact valid
  | recovered codeId =>
    obtain ⟨now, _, rfl⟩ := does
    have ids : (updateAt RecoveryCode.id codeId (fun c => { c with usedAt := some now })
        s.recoveryCodes).map (·.id) = s.recoveryCodes.map (·.id) := map_updateAt fun _ => rfl
    rw [ids]
    exact valid
  | _ => exact does.elim

/-- The contract of the logins of one user. -/
def verifyContract (userId : Id) : Contract Accounts TotpEvent where
  valid := fun db => (db.recoveryCodes.map (·.id)).Nodup
  rely := FactorAges userId
  guard := fun s event => stillFresh userId s event = true
  commits := fun _ => VerifyCommit userId
  emits := fun event => event = .rejected
  refl := FactorAges.refl userId
  trans := fun _ _ _ => FactorAges.trans
  commits_valid := fun _ _ _ _ => VerifyCommit.valid
  commits_rely := fun _ _ _ _ _ => VerifyCommit.ages

/-- Only the column of the step goes into the UPDATE. -/
private theorem flushUser_step {user : User} {step : Int}
    (newer : ∀ last ∈ user.totpLastStep, last < step)
    (flushed : s.flushUser user { user with totpLastStep := some step } = some t) :
    (s.user? user.id).isSome ∧ t = s.setLastStep user.id step := by
  have changed : some step ≠ user.totpLastStep := fun same => lt_irrefl step (newer step same.symm)
  have edited : { user with totpLastStep := some step } ≠ user := fun same =>
    changed (congrArg User.totpLastStep same)
  have row_eq : user.flush { user with totpLastStep := some step } =
      fun row => { row with totpLastStep := some step } := by
    funext row
    simp only [User.flush, flushColumn, if_neg changed, if_true]
  obtain ⟨⟨row, member, own⟩, rfl⟩ := flushUser_eq edited flushed
  rw [row_eq]
  refine ⟨?_, rfl⟩
  rw [Accounts.user?, List.find?_isSome]
  exact ⟨row, member, by simpa using own⟩

private theorem verifyStep_safe {user : User} (own : user.id = userId) (secretEnc code : String)
    (now : Instant) (log : List TotpEvent) :
    (verifyStep env user secretEnc code now).Safe (verifyContract userId) log s := by
  unfold verifyStep
  split
  next => trivial
  next secret _ =>
    split
    next => trivial
    next => exact ⟨rfl, trivial⟩
    next step matched =>
      intro _ v w _ _ _ fresh written
      obtain ⟨there, rfl⟩ := flushUser_step (verifyTotp_gt matched) written
      rw [own] at there
      refine ⟨fun current found last present => ?_, there, by rw [own]⟩
      have fresh : stillFresh userId v (.accepted step) = true := fresh
      simp only [stillFresh, found, Option.all_some, Option.mem_def.mp present,
        decide_eq_true_eq] at fresh
      exact fresh

private theorem verifyRecovery_safe (user : User) (code : String) (usedAt : Instant)
    (log : List TotpEvent) :
    (verifyRecovery env user code usedAt).Safe (verifyContract userId) log s := by
  intro _ db _ _ _
  simp only
  split
  next => trivial
  next => exact ⟨rfl, trivial⟩
  next row found =>
    intro _ v w _ _ _ _ written
    simp only [Accounts.spendCode] at written
    split at written
    next there =>
      cases written
      obtain ⟨c, member, same⟩ := List.any_eq_true.mp there
      exact ⟨usedAt, ⟨c, member, by simpa using same⟩, rfl⟩
    next => cases written

theorem verifyRequest_safe (p : TotpTxn) (request : VerifyRequest env userId p)
    (log : List TotpEvent) (s : Accounts) : p.Safe (verifyContract userId) log s := by
  obtain ⟨code, now, usedAt⟩ := request
  refine withUser_safe (fun log db user _ found => ?_) log s
  have own : user.id = userId := by simpa using List.find?_some found
  split
  · exact ⟨rfl, trivial⟩
  · split
    · exact ⟨rfl, trivial⟩
    · split
      · exact verifyStep_safe own _ code now log
      · exact verifyRecovery_safe user code usedAt log

end Verify

/-- In every run of logins in which what is written is still fresh, no time-step and no
recovery code is accepted twice, and the stored step does not go back. -/
theorem factor_not_replayed {env : TotpEnv} {userId : Id} {db : Accounts}
    (constraints : db.Constraints) {w w' : World Accounts AccountRow TotpEvent Nat}
    (run : Reaches (Guarded (World.Meets fun s event => stillFresh userId s event = true)
      (World.Step (VerifyRequest env userId))) (World.idle db) w)
    (more : Reaches (Guarded (World.Meets fun s event => stillFresh userId s event = true)
      (World.Step (VerifyRequest env userId))) w w') :
    (∀ step, w'.log.count (.accepted step) ≤ 1) ∧
    (∀ a b, w.store.user? userId = some a → w'.store.user? userId = some b →
      StepLe a.totpLastStep b.totpLastStep) ∧
    ∀ codeId, w'.log.count (.recovered codeId) ≤ 1 := by
  have idle := World.keeps_idle (c := verifyContract userId) (κ := AccountRow) (ι := Nat)
    constraints.recoveryCodeIds
  refine ⟨fun step => ?_, fun a b found found' => ?_, fun codeId => ?_⟩
  -- a step is used up once the row holds it or a later one
  · refine World.run_once (c := verifyContract userId) verifyRequest_safe
      (U := fun s => ∃ user, s.user? userId = some user ∧ ∃ last ∈ user.totpLastStep, step ≤ last)
      ?_ ?_ ?_ ?_ idle List.not_mem_nil (run.trans more)
    · rintro s t ages ⟨user, found, last, present, below⟩
      obtain ⟨later, found', _, le⟩ := ages.user user found
      obtain ⟨next, present', le⟩ := le last present
      exact ⟨later, found', next, present', le_trans below le⟩
    · rintro s _ fresh ⟨user, found, last, present, below⟩
      have fresh : stillFresh userId s (.accepted step) = true := fresh
      simp only [stillFresh, found, Option.all_some, Option.mem_def.mp present,
        decide_eq_true_eq] at fresh
      exact absurd fresh (not_lt.mpr below)
    · rintro _ s t ⟨_, there, rfl⟩
      obtain ⟨user, found⟩ := Option.isSome_iff_exists.mp there
      refine ⟨{ user with totpLastStep := some step }, ?_, step, rfl, le_refl step⟩
      rw [user?_setLastStep, found]
      rfl
    · exact fun same => TotpEvent.noConfusion same
  · -- the keeping of the contract at `w` comes from the first part of the run
    have keeps := (World.run_invariant verifyRequest_safe (P := fun _ _ => True)
      (fun _ _ _ _ _ _ _ _ => trivial) (fun _ _ _ _ _ => trivial) idle trivial run).1
    obtain ⟨c, same, _, le⟩ := (World.run_rely verifyRequest_safe keeps more).user a found
    rw [found'] at same
    cases same
    exact le
  -- a recovery code is used up once its row is stamped
  · refine World.run_once (c := verifyContract userId) verifyRequest_safe
      (U := fun s => ∃ c ∈ s.recoveryCodes, c.id = codeId ∧ c.usedAt ≠ none)
      ?_ ?_ ?_ ?_ idle List.not_mem_nil (run.trans more)
    · rintro s t ages ⟨c, member, same, spent⟩
      obtain ⟨d, member', same', spent'⟩ := ages.codes c member
      exact ⟨d, member', same'.trans same, spent' spent⟩
    · rintro s valid fresh ⟨c, member, same, spent⟩
      obtain ⟨d, member', unspent⟩ := List.any_eq_true.mp fresh
      simp only [Bool.and_eq_true, decide_eq_true_eq] at unspent
      have row : c = d :=
        List.inj_on_of_nodup_map valid member member' (same.trans unspent.1.symm)
      exact spent (row ▸ unspent.2)
    · rintro _ s t ⟨now, ⟨c, member, same⟩, rfl⟩
      refine ⟨_, mem_updateAt.mpr ⟨c, member, rfl⟩, ?_⟩
      rw [if_pos same]
      exact ⟨same, Option.some_ne_none _⟩
    · exact fun same => TotpEvent.noConfusion same

/-- The key of RFC 6238, as an authenticator app gets it. -/
def rfcSecret : String := "GEZDGNBVGY3TQOJQGEZDGNBVGY3TQOJQ"

/-- A key that was generated later. -/
def laterSecret : String := "JBSWY3DPEHPK3PXPJBSWY3DPEHPK3PXP"

/-- The codes of RFC 4226 for the first counters, and two ciphertexts. -/
def sampleEnv : TotpEnv where
  totpAt := fun secret time =>
    if secret = rfcSecret then
      match time / 30 with
      | 0 => some "755224"
      | 1 => some "287082"
      | _ => some "359152"
    else some "000000"
  encryptSecret := fun raw _ => if raw = rfcSecret then "gAAAAABn1" else "gAAAAABn2"
  decryptSecret := fun token =>
    if token = "gAAAAABn1" then some rfcSecret
    else if token = "gAAAAABn2" then some laterSecret
    else none
  verifyPassword := fun password hash => some (hash = "$argon2id$" ++ password)
  isDigit := Char.isDigit
  upper := fun text => String.ofList (text.toList.map Char.toUpper)

/-- A user with 2FA on. -/
def enrolledAccounts : Accounts where
  users := [{
    id := 1, email := "ada@example.org", hashedPassword := "$argon2id$1"
    totpSecretEnc := some "gAAAAABn1", totpEnabledAt := some 1000000, totpLastStep := some 0 }]
  userSeq := 1

theorem constraints_enrolledAccounts : enrolledAccounts.Constraints := by
  constructor <;> decide

/-- A code is presented after the other session is through, and refused. -/
def loginRun : List (Label Accounts AccountRow TotpEvent Nat) :=
  [.start 0 (verifyCode sampleEnv 1 "287 082" 59000000 59000000), .act 0, .act 0,
   .start 1 (verifyCode sampleEnv 1 "287082" 59000000 59000000), .act 1, .act 1]

theorem allowed_loginRun : ∀ l ∈ loginRun, l.Allowed (VerifyRequest sampleEnv 1) := by
  simp [loginRun, Label.Allowed, VerifyRequest.verify]

theorem factor_not_replayed_login :
    ∃ w, (World.idle enrolledAccounts).playWithin (stillFresh 1) loginRun = some w ∧
      w.log = [.accepted 1, .rejected] ∧ ∀ step, w.log.count (.accepted step) ≤ 1 := by
  refine ⟨_, rfl, rfl, ?_⟩
  exact (factor_not_replayed constraints_enrolledAccounts (Reaches.refl _ _)
    (World.reaches_playWithin allowed_loginRun rfl)).1

/-- Two logins present the same code: both load the user before either has written. -/
def replayRun : List (Label Accounts AccountRow TotpEvent Nat) :=
  [.start 0 (verifyCode sampleEnv 1 "287082" 59000000 59000000),
   .start 1 (verifyCode sampleEnv 1 "287082" 59000000 59000000),
   .act 0, .act 1, .act 0, .act 1]

theorem factor_replayed :
    enrolledAccounts.Constraints ∧ ∃ w : World Accounts AccountRow TotpEvent Nat,
      Reaches (World.Step (VerifyRequest sampleEnv 1)) (World.idle enrolledAccounts) w ∧
      w.log.count (.accepted 1) = 2 := by
  have allowed : ∀ l ∈ replayRun, l.Allowed (VerifyRequest sampleEnv 1) := by
    simp [replayRun, Label.Allowed, VerifyRequest.verify]
  exact ⟨constraints_enrolledAccounts, _, World.reaches_play allowed rfl, by decide⟩

/-! ### Enrolment -/

/-- The calls about one user's second factor. -/
inductive FactorRequest (env : TotpEnv) (userId : Id) : TotpTxn → Prop
  | start (raw : String) (salt : Nat) :
    FactorRequest env userId (startEnrolment env userId raw salt)
  | confirm (code : String) (now enabledAt : Instant) (codeHashes : List String) :
    FactorRequest env userId (confirmEnrolment env userId code now enabledAt codeHashes)
  | verify (code : String) (now usedAt : Instant) :
    FactorRequest env userId (verifyCode env userId code now usedAt)
  | disable : FactorRequest env userId (disable userId)

/-- A secret is stored while 2FA is still off, and 2FA is switched on over the secret that was
checked. -/
def stillPending (userId : Id) (db : Accounts) : TotpEvent → Bool
  | .started _ => db.users.all fun user => user.id ≠ userId || !user.totpEnabled
  | .enabled secretEnc => db.users.all fun user =>
    user.id ≠ userId || user.totpSecretEnc = some secretEnc
  | _ => true

/-- Some confirmation has checked a valid code against the stored secret. -/
def Proven (env : TotpEnv) (log : List TotpEvent) (user : User) : Prop :=
  ∃ secretEnc secret, user.totpSecretEnc = some secretEnc ∧
    env.decryptSecret secretEnc = some secret ∧ .checked secret ∈ log

/-- Who has 2FA on after a commit had it on before, with the same secret, or it is proven. -/
def FactorCommit (env : TotpEnv) (userId : Id) (log : List TotpEvent) (s t : Accounts) : Prop :=
  ∀ b ∈ t.users, b.id = userId → b.totpEnabled = true →
    (∃ a ∈ s.users, a.id = userId ∧ a.totpEnabled = true ∧ b.totpSecretEnc = a.totpSecretEnc) ∨
    Proven env log b

def factorContract (env : TotpEnv) (userId : Id) : Contract Accounts TotpEvent where
  valid := fun _ => True
  rely := fun _ _ => True
  guard := fun s event => stillPending userId s event = true
  commits := fun log s _ t => FactorCommit env userId log s t
  emits := fun _ => True
  refl := fun _ => trivial
  trans := fun _ _ _ _ _ => trivial
  commits_valid := fun _ _ _ _ _ _ => trivial
  commits_rely := fun _ _ _ _ _ _ => trivial

section Factor

variable {env : TotpEnv} {userId : Id} {s t : Accounts} {log : List TotpEvent}

/-- A row after a flush is a row from before, or the loaded one with its edits. -/
theorem mem_flushUser {loaded edited b : User} (flushed : s.flushUser loaded edited = some t)
    (member : b ∈ t.users) :
    b ∈ s.users ∨ ∃ a ∈ s.users, a.id = loaded.id ∧ b = loaded.flush edited a := by
  by_cases edits : edited = loaded
  · rw [Accounts.flushUser, if_pos edits] at flushed
    cases flushed
    exact Or.inl member
  · obtain ⟨_, rfl⟩ := flushUser_eq edits flushed
    obtain ⟨a, inside, rfl⟩ := mem_updateAt.mp member
    split
    next own => exact Or.inr ⟨a, inside, own, rfl⟩
    next => exact Or.inl inside

/-- A commit keeps 2FA honest if the row it edits comes out off, unchanged or proven. -/
private theorem factorCommit_flush {loaded edited : User} (own : loaded.id = userId)
    (flushed : s.flushUser loaded edited = some t)
    (row : ∀ a ∈ s.users, a.id = userId → (loaded.flush edited a).totpEnabled = true →
      (a.totpEnabled = true ∧ (loaded.flush edited a).totpSecretEnc = a.totpSecretEnc) ∨
      Proven env log (loaded.flush edited a)) : FactorCommit env userId log s t := by
  intro b member id on
  rcases mem_flushUser flushed member with old | ⟨a, inside, same, rfl⟩
  · exact Or.inl ⟨b, old, id, on, rfl⟩
  · rcases row a inside (same.trans own) on with ⟨before, secret⟩ | proven
    · exact Or.inl ⟨a, inside, same.trans own, before, secret⟩
    · exact Or.inr proven

private theorem start_safe (raw : String) (salt : Nat) (log : List TotpEvent) (s : Accounts) :
    (startEnrolment env userId raw salt).Safe (factorContract env userId) log s := by
  refine withUser_safe (fun log db user _ found => ?_) log s
  have own : user.id = userId := by simpa using List.find?_some found
  split
  · exact ⟨trivial, trivial⟩
  · intro _ v w _ _ _ pending written
    refine factorCommit_flush own written fun a inside id on => ?_
    have off := List.all_eq_true.mp pending a inside
    simp only [User.totpEnabled, User.flush, flushColumn_same] at on
    simp [id, User.totpEnabled, on] at off

/-- A DELETE over the codes leaves everything it does not take to what follows. -/
private theorem takeCodes_safe {c : Contract Accounts TotpEvent} {next : List AccountRow → TotpTxn}
    (cont : ∀ log' t taken, log ⊆ log' → (next taken).Safe c log' t) :
    (takeCodes userId next).Safe c log s := by
  intro _ db grown _ _
  refine Txn.Safe.takeAll fun log' t taken more _ _ _ => ?_
  exact cont log' t taken (List.Subset.trans grown more)

private theorem confirm_safe (code : String) (now enabledAt : Instant) (codeHashes : List String)
    (log : List TotpEvent) (s : Accounts) :
    (confirmEnrolment env userId code now enabledAt codeHashes).Safe (factorContract env userId)
      log s := by
  refine withUser_safe (fun log db user _ found => ?_) log s
  have own : user.id = userId := by simpa using List.find?_some found
  split
  · exact ⟨trivial, trivial⟩
  · split
    · exact ⟨trivial, trivial⟩
    next secretEnc _ =>
      split
      · trivial
      next secret decrypted =>
        split
        · trivial
        · exact ⟨trivial, trivial⟩
        · refine ⟨trivial, takeCodes_safe fun log' _ taken shown => ?_⟩
          intro later v w grown _ _ pending written
          obtain ⟨flushed, done, rfl⟩ := Option.map_eq_some_iff.mp written
          have seen : .checked secret ∈ later :=
            grown (shown (List.mem_append_right _ (List.mem_singleton_self _)))
          have commit : FactorCommit env userId later v flushed := by
            refine factorCommit_flush own done fun a inside id _ => Or.inr ?_
            -- the secret in the row is the one that was checked
            have same := List.all_eq_true.mp pending a inside
            refine ⟨secretEnc, secret, ?_, decrypted, seen⟩
            simpa [id, User.flush] using same
          intro b member
          rw [(users_insertCodes ..).1] at member
          exact commit b member

private theorem verify_safe (code : String) (now usedAt : Instant) (log : List TotpEvent)
    (s : Accounts) :
    (verifyCode env userId code now usedAt).Safe (factorContract env userId) log s := by
  refine withUser_safe (fun log db user _ found => ?_) log s
  have own : user.id = userId := by simpa using List.find?_some found
  split
  · exact ⟨trivial, trivial⟩
  · split
    · exact ⟨trivial, trivial⟩
    · split
      · unfold verifyStep
        split
        · trivial
        · split
          · trivial
          · exact ⟨trivial, trivial⟩
          · intro _ v w _ _ _ _ written
            refine factorCommit_flush own written fun a _ _ on => Or.inl ⟨?_, ?_⟩
            · simpa [User.totpEnabled, User.flush] using on
            · simp only [User.flush, flushColumn_same]
      · intro _ db _ _ _
        simp only
        split
        · trivial
        · exact ⟨trivial, trivial⟩
        · intro _ v w _ _ _ _ written
          simp only [Accounts.spendCode] at written
          split at written
          · cases written
            exact fun b member id on => Or.inl ⟨b, member, id, on, rfl⟩
          · cases written

private theorem disable_safe (log : List TotpEvent) (s : Accounts) :
    (disable userId).Safe (factorContract env userId) log s := by
  refine withUser_safe (fun log db user _ found => ?_) log s
  have own : user.id = userId := by simpa using List.find?_some found
  split
  · exact ⟨trivial, trivial⟩
  next enabled =>
    intro _ _ _ _ _
    refine Txn.Safe.takeAll fun _ _ keys _ _ _ _ => takeCodes_safe fun _ _ codes _ => ?_
    intro later v w _ _ _ _ written
    obtain ⟨flushed, done, rfl⟩ := Option.map_eq_some_iff.mp written
    -- the loaded object had 2FA on, so switching it off is among the columns
    have loaded : (none : Option Instant) ≠ user.totpEnabledAt := by
      intro same
      simp [User.totpEnabled, ← same] at enabled
    have commit : FactorCommit env userId later v flushed := by
      refine factorCommit_flush own done fun a _ _ on => ?_
      simp [User.totpEnabled, User.flush, flushColumn, loaded] at on
    exact commit

theorem factorRequest_safe (p : TotpTxn) (request : FactorRequest env userId p)
    (log : List TotpEvent) (s : Accounts) : p.Safe (factorContract env userId) log s := by
  cases request with
  | start raw salt => exact start_safe raw salt log s
  | confirm code now enabledAt codeHashes => exact confirm_safe code now enabledAt codeHashes log s
  | verify code now usedAt => exact verify_safe code now usedAt log s
  | disable => exact disable_safe log s

end Factor

/-- In every run in which a pending secret is stored only while 2FA is off, and 2FA is switched
on only over the secret that was checked, a secret that protects the account is proven. -/
theorem protecting_secret_proven {env : TotpEnv} {userId : Id} {db : Accounts}
    (off : ∀ user ∈ db.users, user.id = userId → user.totpEnabled = false)
    {w : World Accounts AccountRow TotpEvent Nat}
    (run : Reaches (Guarded (World.Meets fun s event => stillPending userId s event = true)
      (World.Step (FactorRequest env userId))) (World.idle db) w) :
    ∀ user ∈ w.store.users, user.id = userId → user.totpEnabled = true →
      Proven env w.log user := by
  have kept : ∀ {log log' : List TotpEvent} {user : User}, log ⊆ log' → Proven env log user →
      Proven env log' user := by
    rintro log log' user grown ⟨secretEnc, secret, stored, decrypted, seen⟩
    exact ⟨secretEnc, secret, stored, decrypted, grown seen⟩
  refine (World.run_invariant (c := factorContract env userId)
    (P := fun s log => ∀ user ∈ s.users, user.id = userId → user.totpEnabled = true →
      Proven env log user) factorRequest_safe ?_ ?_ (World.keeps_idle trivial) ?_ run).2
  · intro s log event t _ before _ does user member id on
    rcases does user member id on with ⟨old, inside, own, enabled, same⟩ | proven
    · obtain ⟨secretEnc, secret, stored, rest⟩ := before old inside own enabled
      exact kept (List.subset_append_left ..) ⟨secretEnc, secret, same.trans stored, rest⟩
    · exact kept (List.subset_append_left ..) proven
  · intro s log event before _ user member id on
    exact kept (List.subset_append_left ..) (before user member id on)
  · intro user member id on
    exact absurd on (by rw [off user member id]; exact Bool.false_ne_true)

/-- A user who has started to enrol. -/
def pendingAccounts : Accounts where
  users := [{
    id := 1, email := "ada@example.org", hashedPassword := "$argon2id$1"
    totpSecretEnc := some "gAAAAABn1" }]
  userSeq := 1

/-- The app is proven and 2FA switched on; a second set-up is refused. -/
def enrolRun : List (Label Accounts AccountRow TotpEvent Nat) :=
  [.start 0 (confirmEnrolment sampleEnv 1 "287082" 59000000 59000000 ["$argon2id$A"]),
   .act 0, .act 0, .act 0, .act 0,
   .start 1 (startEnrolment sampleEnv 1 laterSecret 0), .act 1, .act 1]

theorem protecting_secret_proven_enrolled :
    ∃ w, (World.idle pendingAccounts).playWithin (stillPending 1) enrolRun = some w ∧
      w.store.users.any (·.totpEnabled) = true ∧
      ∀ user ∈ w.store.users, user.id = 1 → user.totpEnabled = true →
        Proven sampleEnv w.log user := by
  have allowed : ∀ l ∈ enrolRun, l.Allowed (FactorRequest sampleEnv 1) := by
    simp [enrolRun, Label.Allowed, FactorRequest.start, FactorRequest.confirm]
  have off : ∀ user ∈ pendingAccounts.users, user.id = 1 → user.totpEnabled = false := by decide
  refine ⟨_, rfl, rfl, ?_⟩
  exact protecting_secret_proven off (World.reaches_playWithin allowed rfl)

/-- Set-up is started again while a confirmation is under way: the confirmation checks the old
secret and switches 2FA on over the new one. -/
def crossedRun : List (Label Accounts AccountRow TotpEvent Nat) :=
  [.start 0 (confirmEnrolment sampleEnv 1 "287082" 59000000 59000000 ["$argon2id$A"]),
   .start 1 (startEnrolment sampleEnv 1 laterSecret 0),
   .act 0, .act 0, .act 1, .act 1, .act 0, .act 0]

theorem unproven_secret_protects :
    (∀ user ∈ pendingAccounts.users, user.id = 1 → user.totpEnabled = false) ∧
    ∃ w : World Accounts AccountRow TotpEvent Nat,
      Reaches (World.Step (FactorRequest sampleEnv 1)) (World.idle pendingAccounts) w ∧
      ∃ user ∈ w.store.users, user.id = 1 ∧ user.totpEnabled = true ∧
        ¬Proven sampleEnv w.log user := by
  have allowed : ∀ l ∈ crossedRun, l.Allowed (FactorRequest sampleEnv 1) := by
    simp [crossedRun, Label.Allowed, FactorRequest.start, FactorRequest.confirm]
  refine ⟨by decide, _, World.reaches_play allowed rfl, _, List.mem_singleton_self _, rfl, rfl, ?_⟩
  rintro ⟨secretEnc, secret, stored, decrypted, seen⟩
  cases stored
  have later : some laterSecret = some secret := decrypted
  cases later
  revert seen
  decide

end MegooPM
