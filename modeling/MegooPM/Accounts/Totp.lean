import MegooPM.Accounts.Tables
import MegooPM.Lib.ReadCommitted
import MegooPM.Lib.Searching
import MegooPM.Lib.Text

/-!
# One-time passwords

`services/totp.py`: the check of a code, and the calls that enrol, verify and disable, as the
statements they send. Each call works on the `User` object its session loaded and writes the
columns it changed, with the commit.
-/
namespace MegooPM

open Lib

/-! ### Codes -/

/-- What the service takes from libraries and from the interpreter's tables. -/
structure TotpEnv where
  /-- `pyotp.TOTP(secret).at(for_time)`; `none` where it raises, as for a secret that is not
  base32 -/
  totpAt : String → Int → Option String
  /-- `encrypt_secret`; every token has a random part -/
  encryptSecret : String → Nat → String
  /-- `decrypt_secret`; `none` where it raises -/
  decryptSecret : String → Option String
  /-- `verify_password`; `none` where the `VerificationError` of a damaged hash escapes it -/
  verifyPassword : String → String → Option Bool
  /-- `str.isdigit` of one character -/
  isDigit : Char → Bool
  /-- `str.upper` -/
  upper : String → String

def stepSeconds : Int := 30

/-- One step either side. -/
def driftWindow : Int := 1

def stepOf (now : Instant) : Int :=
  (now / 1000000 : Nat) / stepSeconds

/-- The six digits if `code` is shaped like a TOTP. -/
def looksLikeTotp (env : TotpEnv) (code : String) : Option String :=
  let digits := (strip code.toList).filter (· ≠ ' ')
  if digits.length = 6 ∧ digits.all env.isDigit then some (String.ofList digits) else none

def isTotpShaped (env : TotpEnv) (code : String) : Bool :=
  (looksLikeTotp env code).isSome

/-- `secrets.compare_digest` of two strings; it raises unless both are ASCII. -/
def compareDigest (a b : String) : Option Bool :=
  if (a.toList ++ b.toList).all (·.toNat < 128) then some (a = b) else none

/-- The steps within the drift window that are later than the last accepted one. -/
def unspentSteps (lastStep : Option Int) (now : Instant) : List Int :=
  let current := stepOf now
  [current - driftWindow, current, current + driftWindow].filter fun step =>
    -- the replay guard
    !lastStep.any (step ≤ ·)

/-- The digits are the code of the step. -/
def matchStep (env : TotpEnv) (secret digits : String) (step : Int) : Option Bool :=
  (env.totpAt secret (step * stepSeconds)).bind fun code => compareDigest code digits

/-- The time-step `code` matched; the outer `none` is an exception. -/
def verifyTotp (env : TotpEnv) (secret code : String) (lastStep : Option Int) (now : Instant) :
    Option (Option Int) :=
  match looksLikeTotp env code with
  | none => some none
  | some digits => (unspentSteps lastStep now).findM? (matchStep env secret digits)

def normaliseRecovery (env : TotpEnv) (code : String) : String :=
  String.ofList ((env.upper (String.ofList (strip code.toList))).toList.filter
    fun c => c ≠ '-' ∧ c ≠ ' ')

theorem mem_unspentSteps {lastStep : Option Int} {now : Instant} {step : Int} :
    step ∈ unspentSteps lastStep now ↔
      (stepOf now - 1 ≤ step ∧ step ≤ stepOf now + 1) ∧ ∀ last ∈ lastStep, last < step := by
  simp only [unspentSteps, driftWindow, List.mem_filter, List.mem_cons, List.not_mem_nil, or_false]
  refine and_congr ?_ ?_
  · omega
  · cases lastStep with
    | none => simp
    | some last => simp

/-- A step that is accepted is later than the last one. -/
theorem verifyTotp_gt {env : TotpEnv} {secret code : String} {lastStep : Option Int}
    {now : Instant} {step : Int}
    (matched : verifyTotp env secret code lastStep now = some (some step)) :
    ∀ last ∈ lastStep, last < step := by
  unfold verifyTotp at matched
  split at matched
  · cases matched
  · exact (mem_unspentSteps.mp (of_findM?_eq_some matched).1).2

/-! ### The calls -/

inductive TotpEvent where
  /-- `start_enrolment` has stored this secret -/
  | started (secretEnc : String)
  /-- `confirm_enrolment` has checked a valid code against this secret -/
  | checked (secret : String)
  /-- `confirm_enrolment` returns the codes; this is the secret it loaded -/
  | enabled (secretEnc : String)
  | disabled
  /-- `verify_code` returns `True` for a time-step -/
  | accepted (step : Int)
  /-- `verify_code` returns `True` for a recovery code -/
  | recovered (codeId : Id)
  /-- a wrong code -/
  | rejected
  /-- 2FA is not in the state the call needs -/
  | refused
  deriving DecidableEq, Repr

abbrev TotpTxn := Txn Accounts AccountRow TotpEvent

/-- The stored secret; an empty one counts as none. -/
def User.secret? (user : User) : Option String :=
  user.totpSecretEnc.filter (· ≠ "")

namespace Accounts

/-- The UPDATE by primary key of a recovery code. -/
def spendCode (db : Accounts) (i : Id) (now : Instant) : Option Accounts :=
  if db.recoveryCodes.any (·.id = i) then
    some { db with
      recoveryCodes :=
        updateAt RecoveryCode.id i (fun c => { c with usedAt := some now }) db.recoveryCodes }
  else none

/-- What a DELETE took is gone. -/
def deleteRows (db : Accounts) (rows : List AccountRow) : Accounts :=
  { db with
    recoveryCodes := db.recoveryCodes.filter fun c => .recoveryCode c.id ∉ rows
    passkeys := db.passkeys.filter fun k => .passkey k.id ∉ rows }

def insertCodes (db : Accounts) (userId : Id) : List String → Accounts
  | [] => db
  | codeHash :: rest =>
    insertCodes { db with
      recoveryCodes := db.recoveryCodes ++
        [{ id := db.recoveryCodeSeq + 1, userId := userId, codeHash := codeHash }]
      recoveryCodeSeq := db.recoveryCodeSeq + 1 } userId rest

end Accounts

/-- New codes leave the users alone. -/
theorem users_insertCodes (db : Accounts) (userId : Id) (codeHashes : List String) :
    (db.insertCodes userId codeHashes).users = db.users ∧
    (db.insertCodes userId codeHashes).userSeq = db.userSeq := by
  induction codeHashes generalizing db with
  | nil => exact ⟨rfl, rfl⟩
  | cons codeHash rest ih => exact ih _

/-- `DELETE FROM recovery_code WHERE user_id = …`. -/
def takeCodes (userId : Id) (next : List AccountRow → TotpTxn) : TotpTxn :=
  .read fun db => .takeAll
    (fun row db => db.recoveryCodes.any fun c => c.userId = userId && AccountRow.recoveryCode c.id = row)
    ((db.recoveryCodes.filter (·.userId = userId)).map fun c => .recoveryCode c.id) next

/-- `passkeys.delete_all`. -/
def takePasskeys (userId : Id) (next : List AccountRow → TotpTxn) : TotpTxn :=
  .read fun db => .takeAll
    (fun row db => db.passkeys.any fun k => k.userId = userId && AccountRow.passkey k.id = row)
    ((db.passkeys.filter (·.userId = userId)).map fun k => .passkey k.id) next

/-- The session loads the user; what follows works on that object. -/
def withUser (userId : Id) (call : User → TotpTxn) : TotpTxn :=
  .read fun db =>
    match db.user? userId with
    | none => .done
    | some user => call user

/-- Generate and store a pending secret. -/
def startEnrolment (env : TotpEnv) (userId : Id) (raw : String) (salt : Nat) : TotpTxn :=
  withUser userId fun user =>
    if user.totpEnabled then .emit .refused .done
    else
      let secretEnc := env.encryptSecret raw salt
      .commit [.user userId]
        (fun db => db.flushUser user { user with totpSecretEnc := some secretEnc, totpLastStep := none })
        (.started secretEnc)

/-- Prove the app works, then enable; `codeHashes` are the hashes of the ten new codes. -/
def confirmEnrolment (env : TotpEnv) (userId : Id) (code : String) (now enabledAt : Instant)
    (codeHashes : List String) : TotpTxn :=
  withUser userId fun user =>
    if user.totpEnabled then .emit .refused .done
    else match user.secret? with
      | none => .emit .refused .done
      | some secretEnc =>
        match env.decryptSecret secretEnc with
        | none => .done
        | some secret =>
          match verifyTotp env secret code none now with
          | none => .done
          | some none => .emit .rejected .done
          | some (some step) =>
            .emit (.checked secret) <| takeCodes userId fun taken =>
              .commit (.user userId :: taken)
                (fun db => (db.flushUser user { user with
                    totpEnabledAt := some enabledAt
                    totpLastStep := some step
                    tokenVersion := user.tokenVersion + 1 }).map
                  fun db => (db.deleteRows taken).insertCodes userId codeHashes)
                (.enabled secretEnc)

/-- The path of `verify_code` for a time-step. -/
def verifyStep (env : TotpEnv) (user : User) (secretEnc code : String) (now : Instant) : TotpTxn :=
  match env.decryptSecret secretEnc with
  | none => .done
  | some secret =>
    match verifyTotp env secret code user.totpLastStep now with
    | none => .done
    | some none => .emit .rejected .done
    | some (some step) =>
      .commit [.user user.id] (fun db => db.flushUser user { user with totpLastStep := some step })
        (.accepted step)

/-- `_unused_codes` -/
def Accounts.unusedCodes (db : Accounts) (user : User) : List RecoveryCode :=
  db.recoveryCodes.filter fun c => c.userId = user.id ∧ c.usedAt = none

/-- The unused code that `code` is; the outer `none` is an exception. -/
def Accounts.matchRecovery (env : TotpEnv) (db : Accounts) (user : User) (code : String) :
    Option (Option RecoveryCode) :=
  (db.unusedCodes user).findM? fun row =>
    env.verifyPassword (normaliseRecovery env code) row.codeHash

/-- The path of `verify_code` for a recovery code. -/
def verifyRecovery (env : TotpEnv) (user : User) (code : String) (usedAt : Instant) : TotpTxn :=
  .read fun db =>
    match db.matchRecovery env user code with
    | none => .done
    | some none => .emit .rejected .done
    | some (some row) =>
      .commit [.recoveryCode row.id] (fun db => db.spendCode row.id usedAt) (.recovered row.id)

/-- Accept a TOTP or a recovery code, by shape. -/
def verifyCode (env : TotpEnv) (userId : Id) (code : String) (now usedAt : Instant) : TotpTxn :=
  withUser userId fun user =>
    if !user.totpEnabled then .emit .rejected .done
    else match user.secret? with
      | none => .emit .rejected .done
      | some secretEnc =>
        if isTotpShaped env code then verifyStep env user secretEnc code now
        else verifyRecovery env user code usedAt

/-- Clear the secret, delete the codes, end sessions. -/
def disable (userId : Id) : TotpTxn :=
  withUser userId fun user =>
    if !user.totpEnabled then .emit .refused .done
    else takePasskeys userId fun keys => takeCodes userId fun codes =>
      .commit (.user userId :: (keys ++ codes))
        (fun db => (db.flushUser user { user with
            totpSecretEnc := none
            totpEnabledAt := none
            totpLastStep := none
            tokenVersion := user.tokenVersion + 1 }).map (·.deleteRows (keys ++ codes)))
        .disabled

theorem withUser_safe {c : Contract Accounts TotpEvent} {userId : Id} {call : User → TotpTxn}
    (safe : ∀ log s user, c.valid s → s.user? userId = some user → (call user).Safe c log s)
    (log : List TotpEvent) (s : Accounts) : (withUser userId call).Safe c log s := by
  intro log' db _ valid _
  beta_reduce
  split
  next => trivial
  next user found => exact safe log' db user valid found

end MegooPM
