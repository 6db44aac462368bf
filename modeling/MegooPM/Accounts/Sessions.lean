import MegooPM.Accounts.Totp
import MegooPM.Accounts.Invitations
import Std.Data.String.ToInt
import Mathlib.Logic.Equiv.List
import Mathlib.Tactic.DeriveEncodable

/-!
# Sessions

The sign-in routes of `routes/auth.py` and the second-factor routes of `routes/users.py`, one
request after the other. A refresh token carries the `token_version` its user had when it was
minted; every request that changes a password or the second factor raises that version, and
`refresh` compares the two.
-/
namespace MegooPM

open Lib

/-! ### Tokens -/

inductive TokenType where
  | access | refresh | mfa | live
  deriving DecidableEq, Repr

/-- The payload of a token; times in seconds. -/
structure Claims where
  sub : Option String
  type : Option TokenType
  iat : Nat
  exp : Nat
  role : Option UserRole := none
  tv : Option Int := none
  deriving DecidableEq, Repr

/-- What the routes take from libraries and from the settings. -/
structure SessionEnv where
  account : AccountEnv
  totp : TotpEnv
  /-- `needs_rehash` -/
  needsRehash : String → Bool
  /-- `jwt.encode` with the secret key -/
  encode : Claims → String
  /-- `jwt.decode`, at some time; `none` where it raises -/
  decode : Instant → String → Option Claims
  accessTokenExpireMinutes : Nat
  refreshTokenExpireMinutes : Nat

/-- A token that decodes has the payload it was made of. -/
def SessionEnv.Faithful (env : SessionEnv) : Prop :=
  ∀ now claims payload, env.decode now (env.encode claims) = some payload → payload = claims

structure TokenPair where
  accessToken : String
  refreshToken : String
  deriving DecidableEq, Repr

def createToken (env : SessionEnv) (now : Instant) (subject : Id) (type : TokenType)
    (minutes : Nat) (role : Option UserRole) (tokenVersion : Int) : String :=
  let seconds := now / 1000000
  env.encode { sub := some subject.repr, type := some type, iat := seconds,
               exp := seconds + 60 * minutes, role := role, tv := some tokenVersion }

def createAccessToken (env : SessionEnv) (now : Instant) (subject : Id) (role : UserRole)
    (tokenVersion : Int) : String :=
  createToken env now subject .access env.accessTokenExpireMinutes (some role) tokenVersion

def createRefreshToken (env : SessionEnv) (now : Instant) (subject : Id) (tokenVersion : Int) :
    String :=
  createToken env now subject .refresh env.refreshTokenExpireMinutes none tokenVersion

def mfaTokenMinutes : Nat := 5

def createMfaToken (env : SessionEnv) (now : Instant) (subject : Id) (tokenVersion : Int) :
    String :=
  createToken env now subject .mfa mfaTokenMinutes none tokenVersion

/-- Decode and validate; `none` where it raises. -/
def decodeToken (env : SessionEnv) (now : Instant) (token : String) (expectedType : TokenType) :
    Option Claims :=
  match env.decode now token with
  | none => none
  | some payload =>
    if payload.type ≠ some expectedType then none
    else if payload.sub.getD "" = "" then none
    else some payload

/-- `int(payload["sub"])`. -/
def Claims.userId? (claims : Claims) : Option Id :=
  claims.sub.bind String.toInt?

def issueTokens (env : SessionEnv) (now : Instant) (user : User) : TokenPair where
  accessToken := createAccessToken env now user.id user.role user.tokenVersion
  refreshToken := createRefreshToken env now user.id user.tokenVersion

/-! ### Requests -/

/-- What `check_mfa_verify` does. -/
inductive LimiterAnswer where
  | passed | limited | unavailable
  deriving DecidableEq, Repr

/-- The assertion of a passkey. -/
structure PasskeyAnswer where
  /-- the app URL names a relying party -/
  relyingParty : Bool
  /-- what the challenge store hands out: nothing if it is down -/
  challenge : Option (Option Id)
  /-- the credential is this passkey's and `verify_authentication` returns -/
  accepts : Passkey → Bool

inductive SessionRequest where
  /-- a request of `AccountRequest` -/
  | account (request : AccountRequest)
  /-- `rehashed` is the new hash if the stored one is outdated -/
  | login (email password rehashed : String) (now : Instant)
  | mfaVerify (mfaToken code : String) (limiter : LimiterAnswer) (now usedAt : Instant)
  | mfaPasskeyVerify (mfaToken : String) (limiter : LimiterAnswer) (answer : PasskeyAnswer)
    (now : Instant)
  | refresh (refreshToken : String) (now : Instant)
  | totpSetup (userId : Id) (secret : String) (salt : Nat)
  | totpEnable (userId : Id) (code : String) (now enabledAt : Instant) (codeHashes : List String)
  | totpDisable (userId : Id) (code : String) (now usedAt : Instant)
  | totpRegenerate (userId : Id) (code : String) (now usedAt : Instant) (codeHashes : List String)
  | adminTotpDisable (userId : Id)

/-- A reply with what it hands out. -/
structure SessionReply where
  reply : Reply
  /-- the challenge after a password, and how it can be answered -/
  mfaToken : Option String := none
  methods : List String := []
  /-- a token pair, and whose it is -/
  session : Option (Id × TokenPair) := none
  recoveryCodesRemaining : Option Nat := none
  deriving DecidableEq, Repr

def incorrectPassword : Reply := { status := 401, detail := "Incorrect email or password" }

def invalidRefreshToken : Reply := { status := 401, detail := "Invalid or expired refresh token" }

def invalidCodeMessage : String := "That code is not valid."

def passkeyRefused : Reply := { status := 401, detail := "That passkey was not accepted." }

def tooManyRequests : Reply := { status := 429, detail := "Too many requests. Try again later." }

def limiterUnavailable : Reply where
  status := 503
  detail := "Password reset is temporarily unavailable."

def invalidCode : Reply := { status := 400, detail := invalidCodeMessage }

def totpOff : Reply := { status := 409, detail := "Two-factor authentication is not on." }

def credentialsRefused : Reply := { status := 401, detail := "Could not validate credentials" }

namespace Accounts

/-- `authenticate`: the user, and what a rehash leaves; or what the route answers instead. -/
def authenticate (db : Accounts) (env : SessionEnv) (email password rehashed : String) :
    Except Reply (Accounts × User) :=
  match db.users.find? (·.email = env.account.lower email) with
  | none => .error incorrectPassword
  | some user =>
    if user.isActive = false then .error incorrectPassword
    else match env.totp.verifyPassword password user.hashedPassword with
      | none => .error serverError
      | some false => .error incorrectPassword
      | some true =>
        if env.needsRehash user.hashedPassword then
          match db.flushUser user { user with hashedPassword := rehashed } with
          | none => .error serverError
          | some db => .ok (db, user)
        else .ok (db, user)

/-- The unused recovery codes of a user. -/
def recoveryCodesRemaining (db : Accounts) (userId : Id) : Nat :=
  (db.recoveryCodes.filter fun c => c.userId = userId ∧ c.usedAt = none).length

/-- `mint_recovery_codes`: the old codes go, the new ones come. -/
def mintRecoveryCodes (db : Accounts) (user : User) (codeHashes : List String) : Option Accounts :=
  if user.totpEnabled = false then none
  else (db.flushUser user { user with tokenVersion := user.tokenVersion + 1 }).map fun db =>
    { db with recoveryCodes := db.recoveryCodes.filter (·.userId ≠ user.id) }.insertCodes
      user.id codeHashes

end Accounts

/-- The user a challenge token is for, or the refusal. -/
def mfaSubject (env : SessionEnv) (db : Accounts) (mfaToken : String) (limiter : LimiterAnswer)
    (now : Instant) (refused : Reply) : Except Reply User :=
  match decodeToken env now mfaToken .mfa with
  | none => .error refused
  | some payload =>
    match payload.userId? with
    | none => .error refused
    | some userId =>
      match limiter with
      | .limited => .error tooManyRequests
      | .unavailable => .error limiterUnavailable
      | .passed =>
        match db.user? userId with
        | none => .error refused
        | some user =>
          if user.isActive = false ∨ payload.tv ≠ some user.tokenVersion then .error refused
          else .ok user

/-- `verify_code` returns `True`. -/
def codeAccepted (seen : List TotpEvent) : Bool :=
  seen.any fun
    | .accepted _ | .recovered _ => true
    | _ => false

/-- `confirm_enrolment` returns the codes. -/
def enrolmentConfirmed (seen : List TotpEvent) : Bool :=
  seen.any fun
    | .enabled _ => true
    | _ => false

/-- The code is checked first; `next` runs on what the check left. -/
def withCode (env : SessionEnv) (db : Accounts) (userId : Id) (code : String)
    (now usedAt : Instant) (next : Accounts → User → Accounts × SessionReply) :
    Accounts × SessionReply :=
  match db.user? userId with
  | none => (db, { reply := credentialsRefused })
  | some user =>
    if user.totpEnabled = false then (db, { reply := totpOff })
    else
      let (after, seen) := (verifyCode env.totp userId code now usedAt).alone db
      if codeAccepted seen then
        match after.user? userId with
        | none => (after, { reply := serverError })
        | some user => next after user
      else if .rejected ∈ seen then (after, { reply := invalidCode })
      else (after, { reply := serverError })

/-- `disable`, and what the route answers. -/
def disableTotp (db : Accounts) (userId : Id) (off : Reply) : Accounts × SessionReply :=
  let (after, seen) := (disable userId).alone db
  if .disabled ∈ seen then (after, { reply := { status := 204 } })
  else if .refused ∈ seen then (after, { reply := off })
  else (after, { reply := serverError })

/-- What a request leaves and answers. -/
def SessionRequest.handle (env : SessionEnv) (db : Accounts) :
    SessionRequest → Accounts × SessionReply
  | .account request =>
    let (after, reply) := request.handle env.account db
    (after, { reply := reply })
  | .login email password rehashed now =>
    match db.authenticate env email password rehashed with
    | .error refusal => (db, { reply := refusal })
    | .ok (after, user) =>
      if user.totpEnabled then
        (after, { reply := { status := 200 },
                  mfaToken := some (createMfaToken env now user.id user.tokenVersion),
                  methods := "totp" ::
                    (if after.passkeys.any (·.userId = user.id) then ["passkey"] else []) })
      else (after, { reply := { status := 200 }, session := some (user.id, issueTokens env now user) })
  | .mfaVerify mfaToken code limiter now usedAt =>
    match mfaSubject env db mfaToken limiter now { status := 401, detail := invalidCodeMessage } with
    | .error refusal => (db, { reply := refusal })
    | .ok user =>
      let (after, seen) := (verifyCode env.totp user.id code now usedAt).alone db
      if codeAccepted seen then
        (after, { reply := { status := 200 }, session := some (user.id, issueTokens env now user),
                  recoveryCodesRemaining :=
                    if isTotpShaped env.totp code then none
                    else some (after.recoveryCodesRemaining user.id) })
      else if .rejected ∈ seen then
        (after, { reply := { status := 401, detail := invalidCodeMessage } })
      else (after, { reply := serverError })
  | .mfaPasskeyVerify mfaToken limiter answer now =>
    match mfaSubject env db mfaToken limiter now passkeyRefused with
    | .error refusal => (db, { reply := refusal })
    | .ok user =>
      if answer.relyingParty = false then (db, { reply := passkeyRefused })
      else match answer.challenge with
        | none => (db, { reply := { status := 503, detail := "Try again in a moment." } })
        | some stored =>
          if stored ≠ some user.id then (db, { reply := passkeyRefused })
          else if db.passkeys.any (fun k => k.userId = user.id ∧ answer.accepts k) then
            (db, { reply := { status := 200 }, session := some (user.id, issueTokens env now user) })
          else (db, { reply := passkeyRefused })
  | .refresh refreshToken now =>
    match decodeToken env now refreshToken .refresh with
    | none => (db, { reply := invalidRefreshToken })
    | some payload =>
      match payload.userId? with
      | none => (db, { reply := invalidRefreshToken })
      | some userId =>
        match db.user? userId with
        | none => (db, { reply := invalidRefreshToken })
        | some user =>
          if user.isActive = false then (db, { reply := invalidRefreshToken })
          else if payload.tv ≠ some user.tokenVersion then (db, { reply := invalidRefreshToken })
          else
            (db, { reply := { status := 200 }, session := some (user.id, issueTokens env now user) })
  | .totpSetup userId secret salt =>
    let (after, seen) := (startEnrolment env.totp userId secret salt).alone db
    if .refused ∈ seen then
      (after, { reply := {
        status := 409, detail := "Two-factor authentication is already on. Turn it off first." } })
    else if seen = [] then (after, { reply := credentialsRefused })
    else (after, { reply := { status := 200 } })
  | .totpEnable userId code now enabledAt codeHashes =>
    let (after, seen) := (confirmEnrolment env.totp userId code now enabledAt codeHashes).alone db
    if enrolmentConfirmed seen then (after, { reply := { status := 200 } })
    else if .rejected ∈ seen then (after, { reply := invalidCode })
    else if .refused ∈ seen then
      (after, { reply := { status := 409, detail := "Start setup before confirming it." } })
    else (after, { reply := serverError })
  | .totpDisable userId code now usedAt =>
    withCode env db userId code now usedAt fun db _ => disableTotp db userId serverError
  | .totpRegenerate userId code now usedAt codeHashes =>
    withCode env db userId code now usedAt fun db user =>
      match db.mintRecoveryCodes user codeHashes with
      | none => (db, { reply := serverError })
      | some after => (after, { reply := { status := 200 } })
  | .adminTotpDisable userId =>
    match db.user? userId with
    | none => (db, { reply := userNotFound })
    | some _ => disableTotp db userId
      { status := 409, detail := "Two-factor authentication is not on for that user." }

/-! ### Versions only grow -/

/-- A user that is there was there before with no later version, or is new. -/
structure VersionStep (s t : Accounts) : Prop where
  keyed : s.Keyed → t.Keyed
  seq : s.userSeq ≤ t.userSeq
  grows : ∀ i u', t.user? i = some u' →
    (s.userSeq < i ∧ i ≤ t.userSeq) ∨ ∃ u, s.user? i = some u ∧ u.tokenVersion ≤ u'.tokenVersion

/-- The version of one user has been raised. -/
def Bumps (i : Id) (s t : Accounts) : Prop :=
  ∀ u', t.user? i = some u' → ∃ u, s.user? i = some u ∧ u.tokenVersion < u'.tokenVersion

theorem VersionStep.of_users {s t : Accounts} (users : t.users = s.users)
    (seq : t.userSeq = s.userSeq) : VersionStep s t where
  keyed := (UsersEffect.none users seq : UsersEffect (fun _ _ => False) s t).keyed
  seq := seq ▸ le_refl _
  grows := by
    intro i u' found
    rw [Accounts.user?, users] at found
    exact Or.inr ⟨u', found, le_refl _⟩

theorem VersionStep.refl (s : Accounts) : VersionStep s s :=
  .of_users rfl rfl

theorem VersionStep.trans {s t v : Accounts} (first : VersionStep s t) (second : VersionStep t v) :
    VersionStep s v where
  keyed := second.keyed ∘ first.keyed
  seq := le_trans first.seq second.seq
  grows := by
    intro i u'' found
    rcases second.grows i u'' found with ⟨new, bound⟩ | ⟨u', found', later⟩
    · exact Or.inl ⟨lt_of_le_of_lt first.seq new, bound⟩
    · rcases first.grows i u' found' with ⟨new, bound⟩ | ⟨u, there, before⟩
      · exact Or.inl ⟨new, le_trans bound second.seq⟩
      · exact Or.inr ⟨u, there, le_trans before later⟩

theorem Bumps.before {i : Id} {s t v : Accounts} (first : VersionStep s t)
    (known : i ≤ s.userSeq) (second : Bumps i t v) : Bumps i s v := by
  intro u'' found
  obtain ⟨u', found', later⟩ := second u'' found
  rcases first.grows i u' found' with ⟨new, _⟩ | ⟨u, there, before⟩
  · exact absurd known (Int.not_le.mpr new)
  · exact ⟨u, there, lt_of_le_of_lt before later⟩

theorem Bumps.after {i : Id} {s t v : Accounts} (first : Bumps i s t) (known : i ≤ t.userSeq)
    (second : VersionStep t v) : Bumps i s v := by
  intro u'' found
  rcases second.grows i u'' found with ⟨new, _⟩ | ⟨u', found', later⟩
  · exact absurd known (Int.not_le.mpr new)
  · obtain ⟨u, there, before⟩ := first u' found'
    exact ⟨u, there, lt_of_lt_of_le before later⟩

section Edits

variable {db db' : Accounts} {how : User → User → Prop}

/-- A lookup after the UPDATE of a row that was loaded from the current rows. -/
theorem user?_edited {row edit : User} (found : db.user? row.id = some row)
    (id : edit.id = row.id)
    (users : db'.users = updateAt User.id row.id (row.flush edit) db.users) (i : Id) :
    db'.user? i = if i = row.id then some edit else db.user? i := by
  have keeps : ∀ u, (row.flush edit u).id = u.id := fun _ => rfl
  rw [Accounts.user?, users, find?_updateAt keeps i]
  split
  next own =>
    subst own
    rw [show db.users.find? _ = some row from found, Option.map_some, if_pos rfl,
      User.flush_loaded row edit id]
  next other =>
    cases there : db.users.find? fun u => u.id = i with
    | none => exact there.symm
    | some u =>
      have own : u.id = i := by simpa using List.find?_some there
      rw [Option.map_some, if_neg (own ▸ other)]
      exact there.symm

/-- Edits that do not lower the version. -/
theorem UsersEffect.versionStep (effect : UsersEffect how db db')
    (keeps : ∀ row edit, how row edit → row.tokenVersion ≤ edit.tokenVersion) :
    VersionStep db db' := by
  have keyed := effect.keyed
  cases effect with
  | none users seq => exact .of_users users seq
  | @added row users seq id fresh =>
    refine ⟨keyed, seq ▸ Int.le_of_lt (Int.lt_succ _), fun i u' found => ?_⟩
    rw [Accounts.user?, users, List.find?_append] at found
    cases there : db.users.find? fun u => u.id = i with
    | some u =>
      rw [there, Option.some_or] at found
      cases found
      exact Or.inr ⟨u', there, le_refl _⟩
    | none =>
      rw [there, Option.none_or] at found
      have new : u' = row := List.mem_singleton.mp (List.mem_of_find?_eq_some found)
      have own : u'.id = i := by simpa using List.find?_some found
      rw [← own, new, id, seq]
      exact Or.inl ⟨Int.lt_succ _, le_refl _⟩
  | @edited row edit found id users seq edits =>
    refine ⟨keyed, le_of_eq seq.symm, fun i u' there => ?_⟩
    rw [user?_edited found id users] at there
    split at there
    next own =>
      cases there
      exact Or.inr ⟨row, own ▸ found, keeps row edit edits⟩
    next => exact Or.inr ⟨u', there, le_refl _⟩
  | removed j users seq =>
    refine ⟨keyed, le_of_eq seq.symm, fun i u' there => ?_⟩
    rw [Accounts.user?, users] at there
    have inside := List.mem_of_find?_eq_some there
    have own : u'.id = i := by simpa using List.find?_some there
    rw [find?_removeAt (own ▸ (mem_removeAt.mp inside).2)] at there
    exact Or.inr ⟨u', there, le_refl _⟩

/-- An edit that raises the version of the row it is made for. -/
theorem bumps_flush {user edit : User} (found : db.user? user.id = some user)
    (id : edit.id = user.id) (raised : user.tokenVersion < edit.tokenVersion)
    (flushed : db.flushUser user edit = some db') : Bumps user.id db db' := by
  have differs : edit ≠ user := by
    rintro rfl
    exact lt_irrefl _ raised
  obtain ⟨_, rfl⟩ := flushUser_eq differs flushed
  intro u' there
  rw [user?_edited found id rfl, if_pos rfl] at there
  cases there
  exact ⟨user, found, raised⟩

end Edits

/-! ### What each call does to the versions -/

section Calls

variable {db after : Accounts} {i : Id} {user edit : User}

/-- An UPDATE that does not lower the version. -/
theorem versionStep_flush (found : db.user? i = some user)
    (flushed : db.flushUser user edit = some after) (id : edit.id = user.id)
    (keeps : user.tokenVersion ≤ edit.tokenVersion) : VersionStep db after := by
  have effect : UsersEffect (fun row edit => row.tokenVersion ≤ edit.tokenVersion) db after :=
    effect_flushed rfl rfl found id keeps flushed
  exact effect.versionStep fun _ _ kept => kept

/-- An UPDATE that raises the version, with writes that leave the users alone. -/
theorem bumps_flush_map {f : Accounts → Accounts}
    (keeps : ∀ s, (f s).users = s.users ∧ (f s).userSeq = s.userSeq)
    (found : db.user? i = some user) (flushed : db.flushUser user edit = some after)
    (id : edit.id = user.id) (raised : user.tokenVersion < edit.tokenVersion) :
    VersionStep db (f after) ∧ Bumps i db (f after) := by
  obtain ⟨own, found'⟩ := user?_own found
  have step := versionStep_flush found flushed id (Int.le_of_lt raised)
  refine ⟨step.trans (.of_users (keeps after).1 (keeps after).2), fun u' there => ?_⟩
  rw [Accounts.user?, (keeps after).1] at there
  rw [← own]
  exact bumps_flush found' id raised flushed u' (own.symm ▸ there)

/-- A commit of such an UPDATE, alone. -/
theorem bumps_commit {f : Accounts → Accounts}
    (keeps : ∀ s, (f s).users = s.users ∧ (f s).userSeq = s.userSeq)
    (found : db.user? i = some user) (edit : User) (id : edit.id = user.id)
    (raised : user.tokenVersion < edit.tokenVersion) (rows : List AccountRow) (event : TotpEvent) :
    let done := (Txn.commit rows (fun db => (db.flushUser user edit).map f) event).alone db
    VersionStep db done.1 ∧ (done.2 ≠ [] → Bumps i db done.1) := by
  simp only [Txn.alone]
  cases flushed : db.flushUser user edit with
  | none => exact ⟨.refl db, fun seen => absurd rfl seen⟩
  | some t =>
    obtain ⟨step, bumps⟩ := bumps_flush_map keeps found flushed id raised
    exact ⟨step, fun _ => bumps⟩

theorem versionStep_verifyCode (env : TotpEnv) (db : Accounts) (userId : Id) (code : String)
    (now usedAt : Instant) :
    VersionStep db ((verifyCode env userId code now usedAt).alone db).1 := by
  simp only [verifyCode, withUser, Txn.alone]
  split
  · exact .refl db
  next user found =>
    split
    · exact .refl db
    · split
      · exact .refl db
      · split
        · unfold verifyStep
          split
          · exact .refl db
          · split
            · exact .refl db
            · exact .refl db
            next step _ =>
              simp only [Txn.alone]
              cases flushed : db.flushUser user { user with totpLastStep := some step } with
              | none => exact .refl db
              | some t => exact versionStep_flush found flushed rfl (le_refl _)
        · simp only [verifyRecovery, Txn.alone]
          split
          · exact .refl db
          · exact .refl db
          · simp only [Txn.alone, Accounts.spendCode]
            split
            next written =>
              split at written <;> cases written
              exact .of_users rfl rfl
            next => exact .refl db

theorem versionStep_startEnrolment (env : TotpEnv) (db : Accounts) (userId : Id) (raw : String)
    (salt : Nat) : VersionStep db ((startEnrolment env userId raw salt).alone db).1 := by
  simp only [startEnrolment, withUser, Txn.alone]
  split
  · exact .refl db
  next user found =>
    split
    · exact .refl db
    · simp only [Txn.alone]
      split
      next flushed => exact versionStep_flush found flushed rfl (le_refl _)
      next => exact .refl db

private theorem users_replaceCodes (userId : Id) (taken : List AccountRow)
    (codeHashes : List String) (s : Accounts) :
    ((s.deleteRows taken).insertCodes userId codeHashes).users = s.users ∧
    ((s.deleteRows taken).insertCodes userId codeHashes).userSeq = s.userSeq :=
  users_insertCodes (s.deleteRows taken) userId codeHashes

/-- A DELETE takes some rows, whatever comes after it. -/
theorem alone_takeCodes (userId : Id) (db : Accounts) :
    ∃ taken, ∀ next, (takeCodes userId next).alone db = (next taken).alone db :=
  ⟨_, fun next => by simp only [takeCodes, Txn.alone, Txn.alone_takeAll]; rfl⟩

theorem alone_takePasskeys (userId : Id) (db : Accounts) :
    ∃ taken, ∀ next, (takePasskeys userId next).alone db = (next taken).alone db :=
  ⟨_, fun next => by simp only [takePasskeys, Txn.alone, Txn.alone_takeAll]; rfl⟩

theorem bumps_confirmEnrolment (env : TotpEnv) (db : Accounts) (userId : Id) (code : String)
    (now enabledAt : Instant) (codeHashes : List String) :
    let done := (confirmEnrolment env userId code now enabledAt codeHashes).alone db
    VersionStep db done.1 ∧ (enrolmentConfirmed done.2 = true → Bumps userId db done.1) := by
  obtain ⟨taken, alone⟩ := alone_takeCodes userId db
  simp only [confirmEnrolment, withUser, Txn.alone]
  split
  · exact ⟨.refl db, fun seen => by cases seen⟩
  next user found =>
    split
    · exact ⟨.refl db, fun seen => by cases seen⟩
    · split
      · exact ⟨.refl db, fun seen => by cases seen⟩
      · split
        · exact ⟨.refl db, fun seen => by cases seen⟩
        · split
          · exact ⟨.refl db, fun seen => by cases seen⟩
          · exact ⟨.refl db, fun seen => by cases seen⟩
          next secretEnc _ _ secret _ _ step _ =>
            rw [Txn.alone, alone]
            obtain ⟨kept, bumps⟩ := bumps_commit (users_replaceCodes userId taken codeHashes) found
              { user with
                totpEnabledAt := some enabledAt
                totpLastStep := some step
                tokenVersion := user.tokenVersion + 1 }
              rfl (Int.lt_succ _) (.user userId :: taken) (.enabled secretEnc)
            refine ⟨kept, fun seen => bumps fun silent => ?_⟩
            -- nothing was shown but the check
            rw [silent] at seen
            cases seen

theorem bumps_disable (db : Accounts) (userId : Id) :
    let done := (disable userId).alone db
    VersionStep db done.1 ∧ (.disabled ∈ done.2 → Bumps userId db done.1) := by
  obtain ⟨keys, alone⟩ := alone_takePasskeys userId db
  obtain ⟨codes, alone'⟩ := alone_takeCodes userId db
  simp only [disable, withUser, Txn.alone]
  split
  · exact ⟨.refl db, fun seen => by cases seen⟩
  next user found =>
    split
    · refine ⟨.refl db, fun seen => ?_⟩
      simp [Txn.alone] at seen
    · rw [alone, alone']
      obtain ⟨kept, bumps⟩ := bumps_commit
        (f := (·.deleteRows (keys ++ codes))) (fun _ => ⟨rfl, rfl⟩) found
        { user with
          totpSecretEnc := none
          totpEnabledAt := none
          totpLastStep := none
          tokenVersion := user.tokenVersion + 1 }
        rfl (Int.lt_succ _) (.user userId :: (keys ++ codes)) .disabled
      exact ⟨kept, fun seen => bumps (List.ne_nil_of_mem seen)⟩

theorem bumps_mintRecoveryCodes {codeHashes : List String} (found : db.user? i = some user)
    (minted : db.mintRecoveryCodes user codeHashes = some after) :
    VersionStep db after ∧ Bumps i db after := by
  unfold Accounts.mintRecoveryCodes at minted
  split at minted
  · cases minted
  · obtain ⟨t, flushed, rfl⟩ := Option.map_eq_some_iff.mp minted
    exact bumps_flush_map (f := fun s =>
        { s with recoveryCodes := s.recoveryCodes.filter (·.userId ≠ user.id) }.insertCodes
          user.id codeHashes)
      (fun s => users_insertCodes _ _ _) found flushed rfl (Int.lt_succ _)

end Calls

/-! ### What each request does to the versions -/

section Requests

variable {env : SessionEnv} {db : Accounts} {i : Id}

theorem AccountRequest.Edits.version {r : AccountRequest} {row edit : User}
    (edits : r.Edits row edit) : row.tokenVersion ≤ edit.tokenVersion := by
  cases r with
  | acceptInvite | resetPassword | setPassword =>
    cases edits
    exact Int.le_of_lt (Int.lt_succ _)
  | updateUser actorId targetId change =>
    obtain ⟨_, rfl⟩ := edits
    exact le_refl _
  | createUser | inviteUser | resendInvitation | forgotPassword | deleteUser => exact edits.elim

theorem versionStep_account (env : AccountEnv) (db : Accounts) (r : AccountRequest) :
    VersionStep db (r.handle env db).1 :=
  (handle_edits env db r).versionStep fun _ _ edits => edits.version

theorem versionStep_authenticate {email password rehashed : String} {after : Accounts} {user : User}
    (keyed : db.Keyed) (signed : db.authenticate env email password rehashed = .ok (after, user)) :
    db.user? user.id = some user ∧ VersionStep db after := by
  unfold Accounts.authenticate at signed
  split at signed
  · cases signed
  next loaded there =>
    have found : db.user? loaded.id = some loaded :=
      find?_key keyed.userIds (List.mem_of_find?_eq_some there)
    split at signed
    · cases signed
    · split at signed
      · cases signed
      · cases signed
      · split at signed
        · split at signed
          · cases signed
          next flushed =>
            cases signed
            exact ⟨found, versionStep_flush found flushed rfl (le_refl _)⟩
        · cases signed
          exact ⟨found, .refl db⟩

/-- A request behind a code. -/
theorem versionStep_withCode {userId : Id} {code : String} {now usedAt : Instant}
    {next : Accounts → User → Accounts × SessionReply}
    (steps : ∀ s user, s.user? userId = some user → VersionStep s (next s user).1) :
    VersionStep db (withCode env db userId code now usedAt next).1 := by
  have checked := versionStep_verifyCode env.totp db userId code now usedAt
  unfold withCode
  split
  · exact .refl db
  · split
    · exact .refl db
    · simp only
      split
      · split
        · exact checked
        next user found => exact checked.trans (steps _ user found)
      · split <;> exact checked

theorem versionStep_disableTotp (db : Accounts) (userId : Id) (off : Reply) :
    VersionStep db (disableTotp db userId off).1 := by
  have kept := (bumps_disable db userId).1
  simp only [disableTotp]
  split
  · exact kept
  · split <;> exact kept

theorem handle_versionStep (env : SessionEnv) {db : Accounts} (keyed : db.Keyed)
    (r : SessionRequest) : VersionStep db (r.handle env db).1 := by
  cases r with
  | account request => exact versionStep_account env.account db request
  | login email password rehashed now =>
    simp only [SessionRequest.handle]
    split
    · exact .refl db
    next after user signed =>
      have kept := (versionStep_authenticate keyed signed).2
      split <;> exact kept
  | mfaVerify mfaToken code limiter now usedAt =>
    simp only [SessionRequest.handle]
    split
    · exact .refl db
    next user _ =>
      have checked := versionStep_verifyCode env.totp db user.id code now usedAt
      split
      · exact checked
      · split <;> exact checked
  | mfaPasskeyVerify mfaToken limiter answer now =>
    simp only [SessionRequest.handle]
    repeat' split
    all_goals exact .refl db
  | refresh refreshToken now =>
    simp only [SessionRequest.handle]
    repeat' split
    all_goals exact .refl db
  | totpSetup userId secret salt =>
    have kept := versionStep_startEnrolment env.totp db userId secret salt
    simp only [SessionRequest.handle]
    split
    · exact kept
    · split <;> exact kept
  | totpEnable userId code now enabledAt codeHashes =>
    have kept := (bumps_confirmEnrolment env.totp db userId code now enabledAt codeHashes).1
    simp only [SessionRequest.handle]
    repeat' split
    all_goals exact kept
  | totpDisable userId code now usedAt =>
    exact versionStep_withCode fun s _ _ => versionStep_disableTotp s userId _
  | totpRegenerate userId code now usedAt codeHashes =>
    refine versionStep_withCode fun s user found => ?_
    split
    · exact .refl s
    next minted => exact (bumps_mintRecoveryCodes found minted).1
  | adminTotpDisable userId =>
    simp only [SessionRequest.handle]
    split
    · exact .refl db
    · exact versionStep_disableTotp db userId _

/-- Whose password or second factor a request is about to change. -/
def SessionRequest.subject? (env : SessionEnv) (db : Accounts) : SessionRequest → Option Id
  | .account (.acceptInvite raw ..) | .account (.resetPassword raw ..) =>
    (db.authTokens.find? fun t => hashToken env.account.sha256 raw = some t.tokenHash).map (·.userId)
  | .account (.setPassword userId _) => some userId
  | .totpEnable userId .. | .totpDisable userId .. | .totpRegenerate userId ..
  | .adminTotpDisable userId => some userId
  | _ => none

/-- The request changes the password or the second factor of this user: it is one of those that
do, and it is not refused. -/
def SessionRequest.Protects (env : SessionEnv) (db : Accounts) (r : SessionRequest) (i : Id) :
    Prop :=
  r.subject? env db = some i ∧ (r.handle env db).2.reply.status < 400

/-- An UPDATE of a loaded row is not refused. -/
private theorem flushUser_isSome {s : Accounts} {user : User} (found : s.user? i = some user)
    (edit : User) : ∃ t, s.flushUser user edit = some t := by
  unfold Accounts.flushUser
  split
  · exact ⟨s, rfl⟩
  · have there : s.users.any (·.id = user.id) = true :=
      List.any_eq_true.mpr ⟨user, List.mem_of_find?_eq_some found, by simp⟩
    rw [if_pos there]
    exact ⟨_, rfl⟩

/-- A row that was loaded, and whose version the UPDATE raises. -/
private theorem bumps_getD {s : Accounts} {user : User} (found : s.user? i = some user)
    (edit : User) (id : edit.id = user.id) (raised : user.tokenVersion < edit.tokenVersion) :
    Bumps i s ((s.flushUser user edit).getD s) := by
  obtain ⟨t, flushed⟩ := flushUser_isSome found edit
  rw [flushed]
  exact (bumps_flush_map (f := fun s => s) (fun _ => ⟨rfl, rfl⟩) found flushed id raised).2

private theorem bumps_changePassword {s : Accounts} {user : User} (found : s.user? i = some user)
    (hashedPassword : String) : Bumps i s ((s.changePassword user hashedPassword).getD s) :=
  bumps_getD found
    { user with hashedPassword := hashedPassword, tokenVersion := user.tokenVersion + 1 }
    rfl (Int.lt_succ _)

private theorem bumps_acceptInvitation {s : Accounts} {user : User} (found : s.user? i = some user)
    (fullName hashedPassword : String) :
    Bumps i s ((s.acceptInvitation user fullName hashedPassword).getD s) :=
  bumps_getD found
    { user with
      fullName := fullName
      hashedPassword := hashedPassword
      invitedAt := none
      isActive := true
      tokenVersion := user.tokenVersion + 1 }
    rfl (Int.lt_succ _)

private theorem Bumps.congr {s s' t : Accounts} (users : s'.users = s.users) (bumps : Bumps i s' t) :
    Bumps i s t := by
  intro u' found
  obtain ⟨u, there, before⟩ := bumps u' found
  rw [Accounts.user?, users] at there
  exact ⟨u, there, before⟩

theorem bumps_account (env : SessionEnv) {r : AccountRequest}
    (protects : (SessionRequest.account r).Protects env db i) :
    Bumps i db (r.handle env.account db).1 := by
  obtain ⟨subject, accepted⟩ := protects
  revert accepted
  cases r with
  | acceptInvite raw fullName hashedPassword checkedAt usedAt =>
    -- whichever way it is refused, nothing was accepted
    obtain ⟨users, _⟩ := users_redeem db env.account.sha256 raw .invitation checkedAt usedAt
    obtain ⟨token, there, rfl⟩ := Option.map_eq_some_iff.mp subject
    simp only [SessionRequest.handle, AccountRequest.handle, there]
    split
    · exact fun accepted => absurd accepted (by simp [serverError])
    · split
      · exact fun accepted => absurd accepted (by simp [tokenInvalid])
      · split
        · exact fun accepted => absurd accepted (by simp [tokenInvalid])
        next user found =>
          split
          · exact fun accepted => absurd accepted (by simp [tokenInvalid])
          · exact fun _ => (bumps_acceptInvitation found _ _).congr users
  | resetPassword raw hashedPassword checkedAt usedAt =>
    obtain ⟨users, _⟩ := users_redeem db env.account.sha256 raw .passwordReset checkedAt usedAt
    obtain ⟨token, there, rfl⟩ := Option.map_eq_some_iff.mp subject
    simp only [SessionRequest.handle, AccountRequest.handle, there]
    split
    · exact fun accepted => absurd accepted (by simp [serverError])
    · split
      · exact fun accepted => absurd accepted (by simp [tokenInvalid])
      · split
        · exact fun accepted => absurd accepted (by simp [tokenInvalid])
        next user found =>
          split
          · exact fun accepted => absurd accepted (by simp [tokenInvalid])
          · exact fun _ => (bumps_changePassword found _).congr users
  | setPassword userId hashedPassword =>
    cases subject
    simp only [SessionRequest.handle, AccountRequest.handle]
    split
    · exact fun accepted => absurd accepted (by simp [userNotFound])
    next user found => exact fun _ => bumps_changePassword found _
  -- these protect nobody
  | createUser | inviteUser | resendInvitation | forgotPassword | updateUser | deleteUser =>
    cases subject

theorem bumps_disableTotp {userId : Id} {off : Reply} (refused : 400 ≤ off.status)
    (accepted : (disableTotp db userId off).2.reply.status < 400) :
    Bumps userId db (disableTotp db userId off).1 := by
  have bumps := (bumps_disable db userId).2
  revert accepted
  simp only [disableTotp]
  split
  next seen => exact fun _ => bumps seen
  · split
    · exact fun accepted => absurd accepted (Nat.not_lt.mpr refused)
    · exact fun accepted => absurd accepted (by simp [serverError])

theorem bumps_withCode {userId : Id} {code : String} {now usedAt : Instant}
    {next : Accounts → User → Accounts × SessionReply} (keyed : db.Keyed)
    (bumps : ∀ s user, s.user? userId = some user → (next s user).2.reply.status < 400 →
      Bumps userId s (next s user).1)
    (accepted : (withCode env db userId code now usedAt next).2.reply.status < 400) :
    Bumps userId db (withCode env db userId code now usedAt next).1 := by
  have checked := versionStep_verifyCode env.totp db userId code now usedAt
  revert accepted
  unfold withCode
  split
  · exact fun accepted => absurd accepted (by simp [credentialsRefused])
  next user there =>
    have known : userId ≤ db.userSeq := by
      rw [← (user?_own there).1]
      exact keyed.userSeq user (List.mem_of_find?_eq_some there)
    split
    · exact fun accepted => absurd accepted (by simp [totpOff])
    · simp only
      split
      · split
        · exact fun accepted => absurd accepted (by simp [serverError])
        next user found => exact fun accepted => .before checked known (bumps _ user found accepted)
      · split
        · exact fun accepted => absurd accepted (by simp [invalidCode])
        · exact fun accepted => absurd accepted (by simp [serverError])

/-- The version of the user is raised. -/
theorem handle_bumps {r : SessionRequest} (keyed : db.Keyed) (protects : r.Protects env db i) :
    Bumps i db (r.handle env db).1 := by
  cases r with
  | account request => exact bumps_account env protects
  | totpEnable userId code now enabledAt codeHashes =>
    obtain ⟨subject, accepted⟩ := protects
    obtain rfl : userId = i := Option.some.inj subject
    have bumps := (bumps_confirmEnrolment env.totp db userId code now enabledAt codeHashes).2
    revert accepted
    simp only [SessionRequest.handle]
    split
    next seen => exact fun _ => bumps seen
    · split
      · exact fun accepted => absurd accepted (by simp [invalidCode])
      · split
        · exact fun accepted => absurd accepted (by simp)
        · exact fun accepted => absurd accepted (by simp [serverError])
  | totpDisable userId code now usedAt =>
    obtain ⟨subject, accepted⟩ := protects
    obtain rfl : userId = i := Option.some.inj subject
    exact bumps_withCode keyed (fun _ _ _ => bumps_disableTotp (by decide)) accepted
  | totpRegenerate userId code now usedAt codeHashes =>
    obtain ⟨subject, accepted⟩ := protects
    obtain rfl : userId = i := Option.some.inj subject
    refine bumps_withCode keyed (fun s user found => ?_) accepted
    split
    · exact fun accepted => absurd accepted (by simp [serverError])
    next minted => exact fun _ => (bumps_mintRecoveryCodes found minted).2
  | adminTotpDisable userId =>
    obtain ⟨subject, accepted⟩ := protects
    obtain rfl : userId = i := Option.some.inj subject
    revert accepted
    simp only [SessionRequest.handle]
    split
    · exact fun accepted => absurd accepted (by simp [userNotFound])
    · exact bumps_disableTotp (by decide)
  | login | mfaVerify | mfaPasskeyVerify | refresh | totpSetup => cases protects.1

end Requests

/-! ### Runs -/

/-- The tables, and the refresh tokens that were handed out with whose they are. -/
structure Sessions where
  db : Accounts
  minted : List (Id × String) := []

/-- One request after the other. -/
def SessionStep (env : SessionEnv) (s : Sessions) (r : SessionRequest) (s' : Sessions) : Prop :=
  s' = { db := (r.handle env s.db).1
         minted := s.minted ++ ((r.handle env s.db).2.session.map fun (i, pair) =>
           (i, pair.refreshToken)).toList }

section Runs

variable {env : SessionEnv} {db db' : Accounts} {i : Id}

theorem mfaSubject_found {mfaToken : String} {limiter : LimiterAnswer} {now : Instant}
    {refused : Reply} {user : User}
    (subject : mfaSubject env db mfaToken limiter now refused = .ok user) :
    db.user? user.id = some user := by
  unfold mfaSubject at subject
  split at subject
  · cases subject
  · split at subject
    · cases subject
    · split at subject
      · cases subject
      · cases subject
      · split at subject
        · cases subject
        next loaded found =>
          split at subject
          · cases subject
          · cases subject
            exact (user?_own found).2

/-- Who gets a pair is a user that was there, and the pair is made of that row. -/
theorem handle_session {r : SessionRequest} {pair : TokenPair} (keyed : db.Keyed)
    (handed : (r.handle env db).2.session = some (i, pair)) :
    ∃ now user, db.user? i = some user ∧
      pair.refreshToken = createRefreshToken env now i user.tokenVersion := by
  revert handed
  -- a pair is handed out at four places, each for a user that the request has just read
  cases r with
  | account request => exact fun handed => by cases handed
  | login email password rehashed now =>
    simp only [SessionRequest.handle]
    split
    · exact fun handed => by cases handed
    next after user signed =>
      split
      · exact fun handed => by cases handed
      · intro handed
        cases handed
        exact ⟨now, user, (versionStep_authenticate keyed signed).1, rfl⟩
  | mfaVerify mfaToken code limiter now usedAt =>
    simp only [SessionRequest.handle]
    split
    · exact fun handed => by cases handed
    next user subject =>
      split
      · intro handed
        cases handed
        exact ⟨now, user, mfaSubject_found subject, rfl⟩
      · split <;> exact fun handed => by cases handed
  | mfaPasskeyVerify mfaToken limiter answer now =>
    simp only [SessionRequest.handle]
    split
    · exact fun handed => by cases handed
    next user subject =>
      split
      · exact fun handed => by cases handed
      · split
        · exact fun handed => by cases handed
        · split
          · exact fun handed => by cases handed
          · split
            · intro handed
              cases handed
              exact ⟨now, user, mfaSubject_found subject, rfl⟩
            · exact fun handed => by cases handed
  | refresh refreshToken now =>
    simp only [SessionRequest.handle]
    split
    · exact fun handed => by cases handed
    · split
      · exact fun handed => by cases handed
      · split
        · exact fun handed => by cases handed
        next user found =>
          split
          · exact fun handed => by cases handed
          · split
            · exact fun handed => by cases handed
            · intro handed
              cases handed
              exact ⟨now, user, (user?_own found).2, rfl⟩
  | totpSetup | totpEnable =>
    simp only [SessionRequest.handle]
    repeat' split
    all_goals exact fun handed => by cases handed
  | totpDisable | totpRegenerate =>
    simp only [SessionRequest.handle, withCode, disableTotp]
    repeat' split
    all_goals exact fun handed => by cases handed
  | adminTotpDisable =>
    simp only [SessionRequest.handle, disableTotp]
    repeat' split
    all_goals exact fun handed => by cases handed

/-- A refresh token whose version is at most (`≤`) or below (`<`) that of its user. -/
def MintedUnder (rel : Int → Int → Prop) (env : SessionEnv) (db : Accounts) (i : Id)
    (token : String) : Prop :=
  ∃ now version, token = createRefreshToken env now i version ∧ i ≤ db.userSeq ∧
    ∀ u, db.user? i = some u → rel version u.tokenVersion

/-- Later versions are no lower. -/
theorem MintedUnder.later {rel : Int → Int → Prop} {token : String}
    (grows : ∀ {a b c : Int}, rel a b → b ≤ c → rel a c) (minted : MintedUnder rel env db i token)
    (step : VersionStep db db') : MintedUnder rel env db' i token := by
  obtain ⟨now, version, rfl, known, under⟩ := minted
  refine ⟨now, version, rfl, le_trans known step.seq, fun u' found => ?_⟩
  rcases step.grows i u' found with ⟨new, _⟩ | ⟨u, there, kept⟩
  · exact absurd known (Int.not_le.mpr new)
  · exact grows (under u there) kept

/-- What holds in every reachable state. -/
structure Sessions.Sound (env : SessionEnv) (s : Sessions) : Prop where
  keyed : s.db.Keyed
  minted : ∀ i token, (i, token) ∈ s.minted → MintedUnder (· ≤ ·) env s.db i token

theorem Sessions.Sound.step {s s' : Sessions} {r : SessionRequest} (sound : s.Sound env)
    (step : SessionStep env s r s') : s'.Sound env := by
  cases step
  have kept := handle_versionStep env sound.keyed r
  refine ⟨kept.keyed sound.keyed, fun i token member => ?_⟩
  rcases List.mem_append.mp member with old | new
  · exact (sound.minted i token old).later le_trans kept
  · -- a token of this request carries the version its user was loaded with
    obtain ⟨⟨j, pair⟩, handed, same⟩ := Option.map_eq_some_iff.mp (Option.mem_toList.mp new)
    cases same
    obtain ⟨now, user, found, minted⟩ := handle_session sound.keyed handed
    have known : i ≤ s.db.userSeq := by
      rw [← (user?_own found).1]
      exact sound.keyed.userSeq user (List.mem_of_find?_eq_some found)
    have before : MintedUnder (· ≤ ·) env s.db i pair.refreshToken := by
      refine ⟨now, user.tokenVersion, minted, known, fun u there => ?_⟩
      cases found.symm.trans there
      exact le_refl _
    exact before.later le_trans kept

theorem versionStep_run {s s' : Sessions} (sound : s.Sound env)
    (run : Reaches (SessionStep env) s s') : VersionStep s.db s'.db := by
  refine (run.invariant (P := fun t => t.Sound env ∧ VersionStep s.db t.db) ?_
    ⟨sound, .refl s.db⟩).2
  rintro t r t' ⟨sound', kept⟩ step
  refine ⟨sound'.step step, ?_⟩
  cases step
  exact kept.trans (handle_versionStep env sound'.keyed r)

/-- A token below the version of its user is refused. -/
theorem refresh_refused {token : String} (faithful : env.Faithful)
    (stale : MintedUnder (· < ·) env db i token) (now : Instant) :
    (SessionRequest.refresh token now).handle env db = (db, { reply := invalidRefreshToken }) := by
  obtain ⟨mintedAt, version, rfl, _, below⟩ := stale
  simp only [SessionRequest.handle]
  split
  · rfl
  next payload decoded =>
    split
    · rfl
    next userId subject =>
      split
      · rfl
      next user found =>
        split
        · rfl
        · -- the payload is the one that was signed
          have claims : payload = { sub := some i.repr, type := some .refresh
                                    iat := mintedAt / 1000000
                                    exp := mintedAt / 1000000 + 60 * env.refreshTokenExpireMinutes
                                    tv := some version } := by
            unfold decodeToken at decoded
            split at decoded
            · cases decoded
            next payload' raw =>
              split at decoded
              · cases decoded
              · split at decoded
                · cases decoded
                · cases decoded
                  exact faithful now _ _ raw
          have own : userId = i := by
            rw [claims, Claims.userId?, Option.bind_some, Int.toInt?_repr] at subject
            exact (Option.some.inj subject).symm
          -- its version is below that of the row by now
          have differs : payload.tv ≠ some user.tokenVersion := by
            rw [claims]
            intro same
            have lower := below user (own ▸ found)
            rw [Option.some.inj same] at lower
            exact lt_irrefl _ lower
          rw [if_pos differs]

end Runs

/-- In every run, once a request has changed the password or the second factor of a user, their
version is above every earlier one and stays so, and every refresh token they were handed before
is refused. -/
theorem sessions_revoked {env : SessionEnv} (faithful : env.Faithful) {db : Accounts}
    (constraints : db.Constraints) {s t w : Sessions}
    (run : Reaches (SessionStep env) { db := db } s) {r : SessionRequest} {i : Id}
    (protects : r.Protects env s.db i) (step : SessionStep env s r t)
    (later : Reaches (SessionStep env) t w) :
    (∀ token, (i, token) ∈ s.minted → ∀ now,
      (SessionRequest.refresh token now).handle env w.db =
        (w.db, { reply := invalidRefreshToken })) ∧
    ∀ p, Reaches (SessionStep env) { db := db } p → Reaches (SessionStep env) p s →
      ∀ u u', p.db.user? i = some u → w.db.user? i = some u' →
        u.tokenVersion < u'.tokenVersion := by
  have start : Sessions.Sound env { db := db } :=
    ⟨⟨constraints.userIds, constraints.userSeq⟩, fun _ _ none => by cases none⟩
  have keeps : ∀ s r s', Sessions.Sound env s → SessionStep env s r s' → Sessions.Sound env s' :=
    fun _ _ _ sound step => sound.step step
  have sound : s.Sound env := run.invariant keeps start
  have sound' := sound.step step
  have after := versionStep_run sound' later
  -- the request itself raises the version, and nothing after it lowers it
  have raised : Bumps i s.db t.db := by
    cases step
    exact handle_bumps sound.keyed protects
  have kept : VersionStep s.db t.db := by
    cases step
    exact handle_versionStep env sound.keyed r
  constructor
  · intro token member now
    refine refresh_refused (i := i) faithful ?_ now
    obtain ⟨mintedAt, version, minted, known, under⟩ := sound.minted i token member
    have stale : MintedUnder (· < ·) env t.db i token := by
      refine ⟨mintedAt, version, minted, le_trans known kept.seq, fun u' found => ?_⟩
      obtain ⟨u, there, before⟩ := raised u' found
      exact lt_of_le_of_lt (under u there) before
    exact stale.later lt_of_lt_of_le after
  · intro p before onward u u' there found
    have early : p.Sound env := before.invariant keeps start
    -- an id that was given is not given again
    have known : i ≤ p.db.userSeq := by
      rw [← (user?_own there).1]
      exact early.keyed.userSeq u (List.mem_of_find?_eq_some there)
    have known' := le_trans known (le_trans (versionStep_run early onward).seq kept.seq)
    obtain ⟨u₀, there₀, lower⟩ :=
      Bumps.before (versionStep_run early onward) known (raised.after known' after) u' found
    cases there.symm.trans there₀
    exact lower

deriving instance Encodable for TokenType, UserRole

/-- Claims as a number; a subject is a list of code points. -/
def sampleEncode (claims : Claims) : String :=
  (Encodable.encode (claims.sub.map (·.toList.map Char.toNat), claims.type, claims.iat, claims.exp,
    claims.role, claims.tv)).repr

/-- A token is refused once it has expired. -/
def sampleDecode (now : Instant) (token : String) : Option Claims :=
  token.toNat?.bind fun n =>
    (Encodable.decode n : Option (Option (List Nat) × Option TokenType × Nat × Nat ×
      Option UserRole × Option Int)).bind fun (sub, type, iat, exp, role, tv) =>
        if exp ≤ now / 1000000 then none
        else some { sub := sub.map fun codes => String.ofList (codes.map Char.ofNat)
                    type := type, iat := iat, exp := exp, role := role, tv := tv }

theorem sampleDecode_encode (now : Instant) (claims : Claims) :
    sampleDecode now (sampleEncode claims) =
      if claims.exp ≤ now / 1000000 then none else some claims := by
  have subject : (claims.sub.map (·.toList.map Char.toNat)).map
      (fun codes => String.ofList (codes.map Char.ofNat)) = claims.sub := by
    cases claims.sub with
    | none => rfl
    | some text => simp [Function.comp_def]
  simp only [sampleDecode, sampleEncode, Nat.toNat?_repr, Option.bind_some, Encodable.encodek,
    subject]

/-- A hash shows its password here; the second factor is not used. -/
def sampleSessionEnv : SessionEnv where
  account := sampleAccountEnv
  totp := {
    totpAt := fun _ _ => some "000000"
    encryptSecret := fun secret _ => secret
    decryptSecret := some
    verifyPassword := fun password hashed => some (hashed = "$argon2id$" ++ password)
    isDigit := Char.isDigit
    upper := fun text => String.ofList (text.toList.map Char.toUpper) }
  needsRehash := fun _ => false
  encode := sampleEncode
  decode := sampleDecode
  accessTokenExpireMinutes := 15
  refreshTokenExpireMinutes := 60

theorem faithful_sampleSessionEnv : sampleSessionEnv.Faithful := by
  intro now claims payload decoded
  have decoded' : (if claims.exp ≤ now / 1000000 then none else some claims) = some payload :=
    (sampleDecode_encode now claims).symm.trans decoded
  split at decoded'
  · cases decoded'
  · exact (Option.some.inj decoded').symm

/-- The admin signs in. -/
def sampleLogin : SessionRequest := .login "ada@example.org" "1" "" 0

def signedIn : Sessions where
  db := oneAdmin
  minted := [(1, createRefreshToken sampleSessionEnv 0 1 0)]

/-- The token works until the password is changed. -/
theorem sessions_revoked_password :
    let token := createRefreshToken sampleSessionEnv 0 1 0
    let change := SessionRequest.account (.setPassword 1 "$argon2id$2")
    let changed := (change.handle sampleSessionEnv oneAdmin).1
    ((SessionRequest.refresh token 1000000).handle sampleSessionEnv oneAdmin).2.reply.status = 200 ∧
    (SessionRequest.refresh token 1000000).handle sampleSessionEnv changed =
      (changed, { reply := invalidRefreshToken }) := by
  constructor
  · have decoded : decodeToken sampleSessionEnv 1000000
        (createRefreshToken sampleSessionEnv 0 1 0) .refresh =
        some { sub := some "1", type := some .refresh, iat := 0, exp := 3600, tv := some 0 } := by
      rw [decodeToken, createRefreshToken, createToken,
        show sampleSessionEnv.decode _ (sampleSessionEnv.encode _) = _ from sampleDecode_encode ..]
      rfl
    have subject : "1".toInt? = some 1 := Int.toInt?_repr 1
    simp only [SessionRequest.handle, decoded, Claims.userId?, Option.bind_some, subject]
    rfl
  · have login : SessionStep sampleSessionEnv { db := oneAdmin } sampleLogin signedIn := rfl
    have run : Reaches (SessionStep sampleSessionEnv) { db := oneAdmin } signedIn :=
      (Reaches.refl _ _).tail login
    have protects : (SessionRequest.account (.setPassword 1 "$argon2id$2")).Protects
        sampleSessionEnv signedIn.db 1 := ⟨rfl, by decide⟩
    exact (sessions_revoked faithful_sampleSessionEnv constraints_oneAdmin run protects rfl
      (Reaches.refl _ _)).1 _ (List.mem_singleton_self _) 1000000

end MegooPM
