import MegooPM.Accounts.Totp

/-!
# Entering a code

How a call of `verify_code` ends, exceptions included. The shape of a time-step code is checked
with Unicode's notion of a digit, and the comparison that follows takes ASCII only. A stored
secret and a stored hash may be damaged, and only what the call looks at makes it raise.
-/
namespace MegooPM

open Lib

/-- The field `code` of `MfaVerifyRequest`. -/
def acceptsCode (code : String) : Bool :=
  1 ≤ code.length ∧ code.length ≤ 32

/-- What the libraries document of the codes and of the hashes they make. -/
structure TotpEnv.Documented (env : TotpEnv) (hashPassword : String → Nat → String) : Prop where
  /-- a code is decimal digits -/
  ascii : ∀ secret forTime code, env.totpAt secret forTime = some code →
    ∀ c ∈ code.toList, c.toNat < 128
  /-- only the password that was hashed verifies -/
  verified : ∀ password original salt,
    env.verifyPassword password (hashPassword original salt) = some true → password = original

inductive CodeEnd where
  /-- `True`, for a time-step -/
  | accepted (step : Int)
  /-- `True`, for a recovery code -/
  | recovered (codeId : Id)
  /-- `False` -/
  | rejected
  /-- an exception -/
  | raised
  deriving DecidableEq, Repr

/-- The path of `verify_code` for a time-step. -/
def stepEnd (env : TotpEnv) (user : User) (secretEnc code : String) (now : Instant) : CodeEnd :=
  match env.decryptSecret secretEnc with
  | none => .raised
  | some secret =>
    match verifyTotp env secret code user.totpLastStep now with
    | none => .raised
    | some none => .rejected
    | some (some step) => .accepted step

/-- The path of `verify_code` for a recovery code. -/
def recoveryEnd (env : TotpEnv) (db : Accounts) (user : User) (code : String) : CodeEnd :=
  match db.matchRecovery env user code with
  | none => .raised
  | some none => .rejected
  | some (some row) => .recovered row.id

/-- `verify_code` -/
def codeEnd (env : TotpEnv) (db : Accounts) (user : User) (code : String) (now : Instant) :
    CodeEnd :=
  if !user.totpEnabled then .rejected
  else match user.secret? with
    | none => .rejected
    | some secretEnc =>
      if isTotpShaped env code then stepEnd env user secretEnc code now
      else recoveryEnd env db user code

/-- What a session sees of the end; after an exception nothing. -/
def CodeEnd.events : CodeEnd → List TotpEvent
  | .accepted step => [.accepted step]
  | .recovered codeId => [.recovered codeId]
  | .rejected => [.rejected]
  | .raised => []

/-- The row is there, so the UPDATE is not stale. -/
private theorem flushUser_there {db : Accounts} {user : User} (member : user ∈ db.users)
    (edited : User) : ∃ t, db.flushUser user edited = some t := by
  have there : db.users.any (·.id = user.id) = true :=
    List.any_eq_true.mpr ⟨user, member, decide_eq_true rfl⟩
  unfold Accounts.flushUser
  rw [if_pos there]
  split
  · exact ⟨_, rfl⟩
  · exact ⟨_, rfl⟩

/-- Alone on the database, the statements of the transaction end as the call does. -/
theorem verifyCode_alone {env : TotpEnv} {db : Accounts} {user : User} {userId : Id}
    {code : String} {now usedAt : Instant} (found : db.user? userId = some user) :
    ((verifyCode env userId code now usedAt).alone db).2 =
      (codeEnd env db user code now).events := by
  simp only [verifyCode, withUser, Txn.alone, found, codeEnd]
  by_cases disabled : (!user.totpEnabled) = true
  · simp only [if_pos disabled]
    rfl
  · simp only [if_neg disabled]
    cases user.secret? with
    | none => rfl
    | some secretEnc =>
      by_cases shaped : isTotpShaped env code = true
      · simp only [if_pos shaped, verifyStep, stepEnd]
        cases env.decryptSecret secretEnc with
        | none => rfl
        | some secret =>
          simp only
          cases verifyTotp env secret code user.totpLastStep now with
          | none => rfl
          | some matched =>
            cases matched with
            | none => rfl
            | some step =>
              -- nobody deletes the row in between, so the flush finds it
              obtain ⟨t, flushed⟩ := flushUser_there (List.mem_of_find?_eq_some found)
                { user with totpLastStep := some step }
              simp only [Txn.alone, flushed]
              rfl
      · simp only [if_neg shaped, verifyRecovery, Txn.alone, recoveryEnd]
        cases chosen : db.matchRecovery env user code with
        | none => rfl
        | some matched =>
          cases matched with
          | none => rfl
          | some row =>
            -- nor the code that matched
            have member := (List.mem_filter.mp (of_findM?_eq_some chosen).1).1
            have held : db.recoveryCodes.any (·.id = row.id) = true :=
              List.any_eq_true.mpr ⟨row, member, decide_eq_true rfl⟩
            simp only [Txn.alone, Accounts.spendCode, held, if_true]
            rfl

/-- The call returns, and `True` only for a code that the user may use now. -/
structure EntersSoundly (env : TotpEnv) (hashPassword : String → Nat → String) (db : Accounts)
    (user : User) (code : String) (now : Instant) : Prop where
  returns : codeEnd env db user code now ≠ .raised
  step : ∀ step, codeEnd env db user code now = .accepted step →
    stepOf now - 1 ≤ step ∧ step ≤ stepOf now + 1 ∧ (∀ last ∈ user.totpLastStep, last < step) ∧
    ∃ secretEnc secret digits, user.secret? = some secretEnc ∧
      env.decryptSecret secretEnc = some secret ∧ looksLikeTotp env code = some digits ∧
      env.totpAt secret (step * stepSeconds) = some digits
  recovery : ∀ codeId, codeEnd env db user code now = .recovered codeId →
    ∃ row ∈ db.recoveryCodes, row.id = codeId ∧ row.userId = user.id ∧ row.usedAt = none ∧
      ∀ original salt, row.codeHash = hashPassword (normaliseRecovery env original) salt →
        normaliseRecovery env code = normaliseRecovery env original

/-- What the call looks at can be compared. For a code with the shape of a time-step's: the
secret can be decrypted, and at each unspent step, as long as none before it has that code, the
code of the step can be computed and the digits are ASCII. For any other: each unused hash, as
long as none before it verifies, can be checked. -/
def Comparable (env : TotpEnv) (db : Accounts) (user : User) (code : String) (now : Instant) :
    Prop :=
  user.totpEnabled = true → ∀ secretEnc, user.secret? = some secretEnc →
    (∀ digits, looksLikeTotp env code = some digits →
      ∃ secret, env.decryptSecret secretEnc = some secret ∧
        ∀ before step after, unspentSteps user.totpLastStep now = before ++ step :: after →
          (∀ earlier ∈ before, env.totpAt secret (earlier * stepSeconds) ≠ some digits) →
          env.totpAt secret (step * stepSeconds) ≠ none ∧ ∀ c ∈ digits.toList, c.toNat < 128) ∧
    (looksLikeTotp env code = none →
      AnswersUntil (fun row : RecoveryCode =>
        env.verifyPassword (normaliseRecovery env code) row.codeHash) (db.unusedCodes user))

section Steps

theorem compareDigest_ascii {a b : String} (left : ∀ c ∈ a.toList, c.toNat < 128)
    (right : ∀ c ∈ b.toList, c.toNat < 128) : compareDigest a b = some (decide (a = b)) := by
  rw [compareDigest, if_pos]
  refine List.all_eq_true.mpr fun c member => decide_eq_true ?_
  rcases List.mem_append.mp member with first | second
  · exact left c first
  · exact right c second

theorem compareDigest_foreign {a b : String} {c : Char} (member : c ∈ b.toList)
    (foreign : ¬c.toNat < 128) : compareDigest a b = none := by
  rw [compareDigest, if_neg]
  intro all
  exact foreign (of_decide_eq_true
    (List.all_eq_true.mp all c (List.mem_append_right _ member)))

variable {env : TotpEnv} {hashPassword : String → Nat → String}
  (documented : env.Documented hashPassword) {secret digits : String} {step : Int}

include documented

/-- The digits are compared with the code, if there is one and they are ASCII. -/
theorem matchStep_ne_none_iff : matchStep env secret digits step ≠ none ↔
    env.totpAt secret (step * stepSeconds) ≠ none ∧ ∀ c ∈ digits.toList, c.toNat < 128 := by
  unfold matchStep
  cases computed : env.totpAt secret (step * stepSeconds) with
  | none => simp
  | some code =>
    rw [Option.bind_some, and_iff_right (Option.some_ne_none code)]
    by_cases ascii : ∀ c ∈ digits.toList, c.toNat < 128
    · rw [compareDigest_ascii (documented.ascii _ _ _ computed) ascii]
      exact iff_of_true (Option.some_ne_none _) ascii
    · obtain ⟨c, foreign⟩ := not_forall.mp ascii
      obtain ⟨member, beyond⟩ := Classical.not_imp.mp foreign
      rw [compareDigest_foreign member beyond]
      exact iff_of_false (fun same => same rfl) ascii

/-- Among the codes of ASCII digits, the one that matches is the code of the step. -/
theorem matchStep_accepts_iff (ascii : ∀ c ∈ digits.toList, c.toNat < 128) :
    matchStep env secret digits step = some true ↔
      env.totpAt secret (step * stepSeconds) = some digits := by
  unfold matchStep
  cases computed : env.totpAt secret (step * stepSeconds) with
  | none => simp
  | some code =>
    rw [Option.bind_some, compareDigest_ascii (documented.ascii _ _ _ computed) ascii]
    simp

/-- The search for the step returns exactly if the digits can be compared as far as it goes. -/
theorem matchSteps_ne_none_iff (steps : List Int) :
    steps.findM? (matchStep env secret digits) ≠ none ↔
      ∀ before step after, steps = before ++ step :: after →
        (∀ earlier ∈ before, env.totpAt secret (earlier * stepSeconds) ≠ some digits) →
        env.totpAt secret (step * stepSeconds) ≠ none ∧ ∀ c ∈ digits.toList, c.toNat < 128 := by
  rw [findM?_ne_none_iff, AnswersUntil]
  refine forall_congr' fun before => forall_congr' fun step => forall_congr' fun after =>
    imp_congr_right fun split => ?_
  rw [matchStep_ne_none_iff documented]
  by_cases ascii : ∀ c ∈ digits.toList, c.toNat < 128
  · simp only [ne_eq, matchStep_accepts_iff documented ascii]
  · -- neither a code nor a comparison holds a digit beyond ASCII
    have codeless (earlier : Int) : env.totpAt secret (earlier * stepSeconds) ≠ some digits :=
      fun computed => ascii (documented.ascii _ _ _ computed)
    have unmatched (earlier : Int) : matchStep env secret digits earlier ≠ some true := by
      intro accepted
      have answers : matchStep env secret digits earlier ≠ none := by
        rw [accepted]
        exact Option.some_ne_none _
      exact ascii ((matchStep_ne_none_iff documented).mp answers).2
    simp only [ne_eq, codeless, unmatched, not_false_eq_true, implies_true]

end Steps

section Entry

variable {env : TotpEnv} {hashPassword : String → Nat → String} {db : Accounts} {user : User}
  {code : String} {now : Instant}

/-- A match is one of the steps tried, and the digits are its code. -/
theorem matchStep_code {secret digits : String} {step : Int}
    (matched : matchStep env secret digits step = some true) :
    env.totpAt secret (step * stepSeconds) = some digits := by
  obtain ⟨code, computed, equal⟩ := Option.bind_eq_some_iff.mp matched
  unfold compareDigest at equal
  split at equal
  · rw [computed, of_decide_eq_true (Option.some.inj equal)]
  · cases equal

theorem stepEnd_returns_iff (documented : env.Documented hashPassword)
    {secretEnc digits : String} (shape : looksLikeTotp env code = some digits) :
    stepEnd env user secretEnc code now ≠ .raised ↔
      ∃ secret, env.decryptSecret secretEnc = some secret ∧
        ∀ before step after, unspentSteps user.totpLastStep now = before ++ step :: after →
          (∀ earlier ∈ before, env.totpAt secret (earlier * stepSeconds) ≠ some digits) →
          env.totpAt secret (step * stepSeconds) ≠ none ∧ ∀ c ∈ digits.toList, c.toNat < 128 := by
  unfold stepEnd
  cases opened : env.decryptSecret secretEnc with
  | none => simp
  | some secret =>
    simp only [Option.some.injEq, exists_eq_left', ← matchSteps_ne_none_iff documented, verifyTotp,
      shape]
    cases (unspentSteps user.totpLastStep now).findM? (matchStep env secret digits) with
    | none => simp
    | some matched =>
      cases matched with
      | none => simp
      | some step => simp

theorem recoveryEnd_returns_iff : recoveryEnd env db user code ≠ .raised ↔
    AnswersUntil (fun row : RecoveryCode =>
      env.verifyPassword (normaliseRecovery env code) row.codeHash) (db.unusedCodes user) := by
  rw [← findM?_ne_none_iff, recoveryEnd, Accounts.matchRecovery]
  cases (db.unusedCodes user).findM? fun row =>
      env.verifyPassword (normaliseRecovery env code) row.codeHash with
  | none => simp
  | some matched =>
    cases matched with
    | none => simp
    | some row => simp

theorem codeEnd_returns_iff (documented : env.Documented hashPassword) :
    codeEnd env db user code now ≠ .raised ↔ Comparable env db user code now := by
  unfold codeEnd Comparable
  cases user.totpEnabled with
  | false => simp
  | true =>
    cases user.secret? with
    | none => simp
    | some secretEnc =>
      cases shape : looksLikeTotp env code with
      | none => simp [isTotpShaped, shape, recoveryEnd_returns_iff]
      | some digits =>
        simp [isTotpShaped, shape, stepEnd_returns_iff documented shape]

theorem accepted_sound {step : Int} (accepted : codeEnd env db user code now = .accepted step) :
    stepOf now - 1 ≤ step ∧ step ≤ stepOf now + 1 ∧ (∀ last ∈ user.totpLastStep, last < step) ∧
    ∃ secretEnc secret digits, user.secret? = some secretEnc ∧
      env.decryptSecret secretEnc = some secret ∧ looksLikeTotp env code = some digits ∧
      env.totpAt secret (step * stepSeconds) = some digits := by
  unfold codeEnd at accepted
  split at accepted
  · cases accepted
  · split at accepted
    · cases accepted
    next secretEnc present =>
      split at accepted
      · unfold stepEnd at accepted
        split at accepted
        · cases accepted
        next secret opened =>
          split at accepted
          · cases accepted
          · cases accepted
          next matched =>
            cases accepted
            unfold verifyTotp at matched
            split at matched
            · cases matched
            next digits shape =>
              obtain ⟨tried, same⟩ := of_findM?_eq_some matched
              obtain ⟨window, later⟩ := mem_unspentSteps.mp tried
              exact ⟨window.1, window.2, later, secretEnc, secret, digits, present, opened, shape,
                matchStep_code same⟩
      · unfold recoveryEnd at accepted
        split at accepted <;> cases accepted

theorem recovered_sound (documented : env.Documented hashPassword) {codeId : Id}
    (recovered : codeEnd env db user code now = .recovered codeId) :
    ∃ row ∈ db.recoveryCodes, row.id = codeId ∧ row.userId = user.id ∧ row.usedAt = none ∧
      ∀ original salt, row.codeHash = hashPassword (normaliseRecovery env original) salt →
        normaliseRecovery env code = normaliseRecovery env original := by
  unfold codeEnd at recovered
  split at recovered
  · cases recovered
  · split at recovered
    · cases recovered
    · split at recovered
      · unfold stepEnd at recovered
        split at recovered
        · cases recovered
        · split at recovered <;> cases recovered
      · unfold recoveryEnd at recovered
        split at recovered
        · cases recovered
        · cases recovered
        next row chosen =>
          cases recovered
          obtain ⟨listed, verifies⟩ := of_findM?_eq_some chosen
          obtain ⟨member, own⟩ := List.mem_filter.mp listed
          obtain ⟨same, unused⟩ := of_decide_eq_true own
          refine ⟨row, member, rfl, same, unused, fun original salt hashed => ?_⟩
          rw [hashed] at verifies
          exact documented.verified _ _ _ verifies

end Entry

/-- Whoever the user is and whatever is typed: the call returns, with a sound answer, exactly if
what it compares can be compared. -/
theorem entersSoundly_iff {env : TotpEnv} {hashPassword : String → Nat → String}
    (documented : env.Documented hashPassword) (db : Accounts) (user : User) (code : String)
    (now : Instant) :
    EntersSoundly env hashPassword db user code now ↔ Comparable env db user code now :=
  ⟨fun sound => (codeEnd_returns_iff documented).mp sound.returns, fun comparable =>
    ⟨(codeEnd_returns_iff documented).mpr comparable, fun _ => accepted_sound,
      fun _ => recovered_sound documented⟩⟩

def isBase32 (c : Char) : Bool :=
  c.isUpper || ('2' ≤ c && c ≤ '7')

/-- Codes that count the steps, and tokens that hold the secret in the clear. -/
def sampleTotp : TotpEnv where
  totpAt secret forTime :=
    if secret.toList.all isBase32 then
      some (String.ofList (Nat.toDigits 10 (forTime.toNat / 30 % 1000000)))
    else none
  encryptSecret secret _ := secret
  decryptSecret secretEnc := some secretEnc
  verifyPassword password codeHash :=
    if codeHash = "$argon2id$garbage" then none else some (codeHash = password)
  isDigit c := c.isDigit || (0x660 ≤ c.toNat && c.toNat ≤ 0x669)
  upper text := text.map Char.toUpper

def plainHash (password : String) (_salt : Nat) : String :=
  password

theorem sampleTotp_documented : sampleTotp.Documented plainHash where
  ascii secret forTime code computed c member := by
    obtain ⟨_, text⟩ := Option.ite_none_right_eq_some.mp computed
    rw [← Option.some.inj text, String.toList_ofList] at member
    have digit := Nat.isDigit_of_mem_toDigits (by decide) (by decide) member
    rw [Char.isDigit, Bool.and_eq_true, decide_eq_true_eq, decide_eq_true_eq] at digit
    have bound : c.toNat ≤ 57 := digit.2
    omega
  verified password original _ verifies := by
    obtain ⟨_, same⟩ := Option.ite_none_left_eq_some.mp verifies
    exact (of_decide_eq_true (Option.some.inj same)).symm

/-- A user with 2FA at the step 123456. -/
def enrolled : User where
  id := 1
  email := "a@example.com"
  hashedPassword := ""
  totpSecretEnc := some "JBSWY3DP"
  totpEnabledAt := some 1

theorem entersSoundly_enrolled :
    EntersSoundly sampleTotp plainHash {} enrolled " 123 456" 3703680000000 ∧
    codeEnd sampleTotp {} enrolled " 123 456" 3703680000000 = .accepted 123456 := by
  refine ⟨(entersSoundly_iff sampleTotp_documented {} enrolled _ _).mpr ?_, by decide⟩
  intro _ secretEnc present
  have held : secretEnc = "JBSWY3DP" := (Option.some.inj present).symm
  have read : looksLikeTotp sampleTotp " 123 456" = some "123456" := by decide
  rw [read]
  refine ⟨fun digits shape => ⟨secretEnc, rfl, fun _ step _ _ _ => ?_⟩, nofun⟩
  cases shape
  constructor
  · rw [held]
    exact Option.some_ne_none _
  · have ascii : "123456".toList.all (·.toNat < 128) = true := by decide
    exact fun c member => of_decide_eq_true (List.all_eq_true.mp ascii c member)

/-- Six Arabic digits; and a stored secret that is not base32, and a stored hash that is damaged. -/
theorem foreign_digits_raise :
    acceptsCode "٣٣٣٣٣٣" = true ∧
    codeEnd sampleTotp {} enrolled "٣٣٣٣٣٣" 3703680000000 = .raised ∧
    ¬EntersSoundly sampleTotp plainHash {} enrolled "٣٣٣٣٣٣" 3703680000000 ∧
    codeEnd sampleTotp {} { enrolled with totpSecretEnc := some "jbsw 1" } "123456"
      3703680000000 = .raised ∧
    codeEnd sampleTotp { recoveryCodes := [⟨1, 1, "$argon2id$garbage", none⟩] } enrolled
      "ABCDE-FGHJK" 3703680000000 = .raised := by
  have raised : codeEnd sampleTotp {} enrolled "٣٣٣٣٣٣" 3703680000000 = .raised := by decide
  exact ⟨by decide, raised, fun sound => sound.returns raised, by decide, by decide⟩

end MegooPM
