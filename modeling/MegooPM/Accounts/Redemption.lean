import MegooPM.Accounts.Tokens

/-!
# How a redemption ends

`redeem` by itself, with every way a call can end: it returns the row, raises `TokenInvalid`, or
lets another exception out. A hash is at most one row's, so the only other exception is that of
the encoding, which comes before anything is looked up.
-/
namespace MegooPM

open Lib

/-- The field `token` of `ResetPasswordRequest` and of `AcceptInviteRequest`. -/
def acceptsToken (raw : String) : Bool :=
  1 ≤ raw.length ∧ raw.length ≤ 256

inductive RedeemEnd where
  /-- the row is returned -/
  | row (token : AuthToken)
  | tokenInvalid
  /-- `raw.encode("ascii")` raises -/
  | unicodeEncodeError
  /-- `scalar_one_or_none()` raises -/
  | multipleResultsFound
  deriving DecidableEq, Repr

/-- The checks of `redeem` on the row, and the commit. -/
def AuthToken.spend (db : Accounts) (kind : AuthTokenKind) (checkedAt usedAt : Instant)
    (row : AuthToken) : RedeemEnd × Accounts :=
  if row.kind ≠ kind ∨ row.usedAt ≠ none then (.tokenInvalid, db)
  else if row.expiresAt ≤ checkedAt then (.tokenInvalid, db)
  else (.row { row with usedAt := some usedAt }, db.markUsed [.authToken row.id] usedAt)

/-- What `redeem` makes of the rows its query selects, `scalar_one_or_none()` first. -/
def spendOnly (db : Accounts) (kind : AuthTokenKind) (checkedAt usedAt : Instant) :
    List AuthToken → RedeemEnd × Accounts
  | [] => (.tokenInvalid, db)
  | [row] => row.spend db kind checkedAt usedAt
  | _ :: _ :: _ => (.multipleResultsFound, db)

/-- `redeem` on a database that nobody else uses. -/
def redeemCall (sha256 : String → String) (db : Accounts) (raw : String) (kind : AuthTokenKind)
    (checkedAt usedAt : Instant) : RedeemEnd × Accounts :=
  match hashToken sha256 raw with
  | none => (.unicodeEncodeError, db)
  | some tokenHash =>
    spendOnly db kind checkedAt usedAt (db.authTokens.filter (·.tokenHash = tokenHash))

/-- What a session sees of the end; after an exception other than `TokenInvalid` nothing. -/
def RedeemEnd.events (raw : String) : RedeemEnd → List TokenEvent
  | .row _ => [.accepted raw]
  | .tokenInvalid => [.refused raw]
  | .unicodeEncodeError => []
  | .multipleResultsFound => []

/-- The token can be spent: the four conditions of the refusal, the other way around. -/
structure AuthToken.Redeemable (sha256 : String → String) (raw : String) (kind : AuthTokenKind)
    (now : Instant) (t : AuthToken) : Prop where
  hash : t.tokenHash = sha256 raw
  kind : t.kind = kind
  unspent : t.usedAt = none
  live : now < t.expiresAt

/-- The row that can be spent is returned and is marked, and no other; or `TokenInvalid`
leaves everything as it was. -/
def RefusesOneWay (sha256 : String → String) (db : Accounts) (raw : String)
    (kind : AuthTokenKind) (checkedAt usedAt : Instant) : Prop :=
  (∃ row ∈ db.authTokens, row.Redeemable sha256 raw kind checkedAt ∧
    redeemCall sha256 db raw kind checkedAt usedAt =
      (.row { row with usedAt := some usedAt }, db.markUsed [.authToken row.id] usedAt)) ∨
  (∀ row ∈ db.authTokens, ¬row.Redeemable sha256 raw kind checkedAt) ∧
    redeemCall sha256 db raw kind checkedAt usedAt = (.tokenInvalid, db)

section Redeem

variable {sha256 : String → String} {db : Accounts} {raw : String} {kind : AuthTokenKind}
  {checkedAt usedAt : Instant}

theorem hashToken_ascii (ascii : ∀ c ∈ raw.toList, c.toNat < 128) :
    hashToken sha256 raw = some (sha256 raw) := by
  rw [hashToken, if_pos]
  exact List.all_eq_true.mpr fun c member => decide_eq_true (ascii c member)

theorem hashToken_foreign {c : Char} (member : c ∈ raw.toList) (foreign : ¬c.toNat < 128) :
    hashToken sha256 raw = none := by
  rw [hashToken, if_neg]
  intro all
  exact foreign (of_decide_eq_true (List.all_eq_true.mp all c member))

/-- A hash is one row's at most. -/
theorem hashed_rows (constraints : db.Constraints) (tokenHash : String) :
    db.authTokens.filter (·.tokenHash = tokenHash) = [] ∨
    ∃ row ∈ db.authTokens, row.tokenHash = tokenHash ∧
      db.authTokens.filter (·.tokenHash = tokenHash) = [row] := by
  have inside : ∀ row ∈ db.authTokens.filter (·.tokenHash = tokenHash),
      row ∈ db.authTokens ∧ row.tokenHash = tokenHash := by
    intro row member
    obtain ⟨there, hashed⟩ := List.mem_filter.mp member
    exact ⟨there, of_decide_eq_true hashed⟩
  have distinct := (List.Nodup.of_map _ constraints.tokenHashes).filter (·.tokenHash = tokenHash)
  cases found : db.authTokens.filter (·.tokenHash = tokenHash) with
  | nil => exact Or.inl rfl
  | cons row rest =>
    rw [found] at inside distinct
    obtain ⟨there, hashed⟩ := inside row (List.mem_cons_self ..)
    refine Or.inr ⟨row, there, hashed, ?_⟩
    cases rest with
    | nil => rfl
    | cons other more =>
      -- the column is unique
      obtain ⟨there', hashed'⟩ := inside other (List.mem_cons_of_mem _ (List.mem_cons_self ..))
      have same := eq_of_tokenHash constraints there there' (hashed.trans hashed'.symm)
      exact absurd (same ▸ List.mem_cons_self ..) (List.nodup_cons.mp distinct).1

/-- A row of the hash is spent exactly when it can be. -/
theorem spend_cases {row : AuthToken} (hashed : row.tokenHash = sha256 raw) :
    (row.Redeemable sha256 raw kind checkedAt ∧ row.spend db kind checkedAt usedAt =
      (.row { row with usedAt := some usedAt }, db.markUsed [.authToken row.id] usedAt)) ∨
    (¬row.Redeemable sha256 raw kind checkedAt ∧
      row.spend db kind checkedAt usedAt = (.tokenInvalid, db)) := by
  unfold AuthToken.spend
  split
  next wrong =>
    refine Or.inr ⟨fun can => ?_, rfl⟩
    rcases wrong with other | spent
    · exact other can.kind
    · exact spent can.unspent
  next right =>
    rw [not_or, not_not, not_not] at right
    split
    next expired => exact Or.inr ⟨fun can => absurd can.live (Nat.not_lt.mpr expired), rfl⟩
    next live => exact Or.inl ⟨⟨hashed, right.1, right.2, Nat.lt_of_not_le live⟩, rfl⟩

theorem refusesOneWay_of_ascii (constraints : db.Constraints)
    (ascii : ∀ c ∈ raw.toList, c.toNat < 128) :
    RefusesOneWay sha256 db raw kind checkedAt usedAt := by
  unfold RefusesOneWay
  rw [redeemCall, hashToken_ascii ascii]
  rcases hashed_rows constraints (sha256 raw) with absent | ⟨row, member, hashed, one⟩
  · simp only [absent, spendOnly]
    refine Or.inr ⟨fun row member can => ?_, trivial⟩
    exact absurd can.hash (by simpa using List.filter_eq_nil_iff.mp absent row member)
  · simp only [one, spendOnly]
    rcases spend_cases hashed with ⟨can, spent⟩ | ⟨cannot, refused⟩
    · exact Or.inl ⟨row, member, can, spent⟩
    · refine Or.inr ⟨fun other member' can => cannot ?_, refused⟩
      rwa [eq_of_tokenHash constraints member member' (hashed.trans can.hash.symm)]

/-- Alone on the database, the statements of the transaction do what the call does. -/
theorem redeem_alone (constraints : db.Constraints) :
    (redeem sha256 raw kind checkedAt usedAt).alone db =
      ((redeemCall sha256 db raw kind checkedAt usedAt).2,
        (redeemCall sha256 db raw kind checkedAt usedAt).1.events raw) := by
  unfold redeem redeemCall
  cases hashed : hashToken sha256 raw with
  | none => rfl
  | some tokenHash =>
    simp only [Txn.alone, ← List.head?_filter]
    rcases hashed_rows constraints tokenHash with absent | ⟨row, member, _, one⟩
    · simp only [absent, List.head?_nil]
      rfl
    · simp only [one, List.head?_cons, spendOnly, AuthToken.spend]
      by_cases wrong : row.kind ≠ kind ∨ row.usedAt ≠ none
      · simp only [if_pos wrong]
        rfl
      · simp only [if_neg wrong]
        by_cases expired : row.expiresAt ≤ checkedAt
        · simp only [if_pos expired]
          rfl
        · simp only [if_neg expired]
          have there : db.authTokens.any (·.id = row.id) = true :=
            List.any_eq_true.mpr ⟨row, member, decide_eq_true rfl⟩
          simp only [Txn.alone, Accounts.spendToken, there, if_true]
          rfl

end Redeem

/-- Whatever the database holds: the call ends in one of the two ways exactly for the tokens
that are ASCII. -/
theorem refusesOneWay_iff (sha256 : String → String) {db : Accounts} (constraints : db.Constraints)
    (raw : String) (kind : AuthTokenKind) (checkedAt usedAt : Instant) :
    RefusesOneWay sha256 db raw kind checkedAt usedAt ↔ ∀ c ∈ raw.toList, c.toNat < 128 := by
  constructor
  · intro refuses c member
    by_contra foreign
    have raised : redeemCall sha256 db raw kind checkedAt usedAt = (.unicodeEncodeError, db) := by
      rw [redeemCall, hashToken_foreign member foreign]
    rcases refuses with ⟨row, _, _, returned⟩ | ⟨_, refused⟩
    · cases raised.symm.trans returned
    · cases raised.symm.trans refused
  · exact refusesOneWay_of_ascii constraints

/-- One user with an outstanding reset. -/
def resetPending : Accounts where
  users := [{ id := 1, email := "a@example.com", hashedPassword := "" }]
  authTokens := [{ id := 1, kind := .passwordReset, tokenHash := "#abc", userId := 1, expiresAt := 9 }]
  userSeq := 1
  authTokenSeq := 1

theorem resetPending_constraints : resetPending.Constraints := by
  constructor <;> decide

theorem refusesOneWay_pending :
    RefusesOneWay (fun raw => "#" ++ raw) resetPending "abc" .passwordReset 5 6 ∧
    (redeemCall (fun raw => "#" ++ raw) resetPending "abc" .passwordReset 5 6).2.authTokens.map
      (·.usedAt) = [some 6] := by
  refine ⟨(refusesOneWay_iff _ resetPending_constraints "abc" _ 5 6).mpr ?_, by decide⟩
  have ascii : "abc".toList.all (·.toNat < 128) = true := by decide
  exact fun c member => of_decide_eq_true (List.all_eq_true.mp ascii c member)

/-- A letter beyond ASCII. -/
theorem foreign_token_raises :
    acceptsToken "é" = true ∧
    redeemCall (fun raw => "#" ++ raw) resetPending "é" .passwordReset 5 6 =
      (.unicodeEncodeError, resetPending) ∧
    ¬RefusesOneWay (fun raw => "#" ++ raw) resetPending "é" .passwordReset 5 6 := by
  have raised : redeemCall (fun raw => "#" ++ raw) resetPending "é" .passwordReset 5 6 =
      (.unicodeEncodeError, resetPending) := by decide
  refine ⟨by decide, raised, ?_⟩
  rintro (⟨row, _, _, returned⟩ | ⟨_, refused⟩)
  · cases raised.symm.trans returned
  · cases raised.symm.trans refused

end MegooPM
