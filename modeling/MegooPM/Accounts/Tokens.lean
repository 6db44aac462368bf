import MegooPM.Accounts.Tables
import MegooPM.Lib.ReadCommitted

/-!
# Emailed tokens

`issue` and `redeem` of `services/auth_tokens.py`, as the statements they send. `issue` marks
the outstanding tokens with one UPDATE and inserts the new row with the commit; `redeem` reads
the row, checks it in the application and writes `used_at` with the commit.
-/
namespace MegooPM

open Lib

inductive TokenEvent where
  /-- `seen` are the tokens of this user and kind that the UPDATE could see -/
  | issued (userId : Id) (kind : AuthTokenKind) (raw : String) (seen : List Id)
  /-- `redeem` returns -/
  | accepted (raw : String)
  /-- `redeem` raises `TokenInvalid` -/
  | refused (raw : String)
  deriving DecidableEq, Repr

abbrev TokenTxn := Txn Accounts AccountRow TokenEvent

/-- SHA-256 hex of the raw token; a token that is not ASCII cannot be encoded. -/
def hashToken (sha256 : String → String) (raw : String) : Option String :=
  if raw.toList.all (·.toNat < 128) then some (sha256 raw) else none

/-- An unspent token of this user and kind. -/
def AuthToken.outstanding (userId : Id) (kind : AuthTokenKind) (t : AuthToken) : Bool :=
  t.userId = userId ∧ t.kind = kind ∧ t.usedAt = none

/-- `used_at` is set on the rows a statement took. -/
def AuthToken.markUsed (rows : List AccountRow) (now : Instant) (t : AuthToken) : AuthToken :=
  if .authToken t.id ∈ rows then { t with usedAt := some now } else t

namespace Accounts

def markUsed (db : Accounts) (rows : List AccountRow) (now : Instant) : Accounts :=
  { db with authTokens := db.authTokens.map (·.markUsed rows now) }

/-- The INSERT: the user is there and no token has this hash. -/
def insertToken (db : Accounts) (kind : AuthTokenKind) (tokenHash : String) (userId : Id)
    (expiresAt : Instant) : Option Accounts :=
  if db.user? userId = none then none
  else if db.authTokens.any (·.tokenHash = tokenHash) then none
  else some { db with
    authTokens := db.authTokens ++
      [{ id := db.authTokenSeq + 1, kind := kind, tokenHash := tokenHash, userId := userId,
         expiresAt := expiresAt }]
    authTokenSeq := db.authTokenSeq + 1 }

/-- The UPDATE by primary key of a redeemed row. -/
def spendToken (db : Accounts) (i : Id) (now : Instant) : Option Accounts :=
  if db.authTokens.any (·.id = i) then some (db.markUsed [.authToken i] now) else none

end Accounts

/-- Mint a token for `userId`, superseding any outstanding one of `kind`. -/
def issue (sha256 : String → String) (userId : Id) (kind : AuthTokenKind) (ttl now : Nat)
    (raw : String) : TokenTxn :=
  .read fun db =>
    -- the UPDATE visits the rows of its snapshot that match
    let seen := db.authTokens.filter fun t => t.userId = userId ∧ t.kind = kind
    let matching := (db.authTokens.filter (·.outstanding userId kind)).map fun t =>
      AccountRow.authToken t.id
    let wanted := fun row (db : Accounts) =>
      db.authTokens.any fun t => t.outstanding userId kind && AccountRow.authToken t.id = row
    .takeAll wanted matching fun taken =>
      match hashToken sha256 raw with
      | none => .done
      | some tokenHash =>
        .commit taken (fun db => (db.markUsed taken now).insertToken kind tokenHash userId (now + ttl))
          (.issued userId kind raw (seen.map (·.id)))

/-- Spend a token, or raise `TokenInvalid`. The clock is read for the check and for the write. -/
def redeem (sha256 : String → String) (raw : String) (kind : AuthTokenKind)
    (checkedAt usedAt : Instant) : TokenTxn :=
  match hashToken sha256 raw with
  | none => .done
  | some tokenHash =>
    .read fun db =>
      match db.authTokens.find? (·.tokenHash = tokenHash) with
      | none => .emit (.refused raw) .done
      | some row =>
        if row.kind ≠ kind ∨ row.usedAt ≠ none then .emit (.refused raw) .done
        else if row.expiresAt ≤ checkedAt then .emit (.refused raw) .done
        else .commit [.authToken row.id] (fun db => db.spendToken row.id usedAt) (.accepted raw)

/-- The calls of `auth_tokens.py`. -/
inductive TokenRequest (sha256 : String → String) : TokenTxn → Prop
  | issue (userId : Id) (kind : AuthTokenKind) (ttl now : Nat) (raw : String) :
    TokenRequest sha256 (issue sha256 userId kind ttl now raw)
  | redeem (raw : String) (kind : AuthTokenKind) (checkedAt usedAt : Instant) :
    TokenRequest sha256 (redeem sha256 raw kind checkedAt usedAt)

/-! ### What becomes of a row -/

/-- A row later on: only `used_at` may be set. -/
structure AuthToken.Ages (a b : AuthToken) : Prop where
  id : b.id = a.id
  tokenHash : b.tokenHash = a.tokenHash
  userId : b.userId = a.userId
  kind : b.kind = a.kind
  spent : a.usedAt ≠ none → b.usedAt ≠ none

/-- No token is lost or comes back to life. -/
def TokensAge (s t : Accounts) : Prop :=
  ∀ a ∈ s.authTokens, ∃ b ∈ t.authTokens, a.Ages b

theorem TokensAge.refl (s : Accounts) : TokensAge s s :=
  fun a member => ⟨a, member, rfl, rfl, rfl, rfl, fun spent => spent⟩

theorem TokensAge.trans {s t u : Accounts} (first : TokensAge s t) (second : TokensAge t u) :
    TokensAge s u := by
  intro a member
  obtain ⟨b, inside, ages⟩ := first a member
  obtain ⟨c, inside', ages'⟩ := second b inside
  exact ⟨c, inside', ages'.id.trans ages.id, ages'.tokenHash.trans ages.tokenHash,
    ages'.userId.trans ages.userId, ages'.kind.trans ages.kind, ages'.spent ∘ ages.spent⟩

theorem AuthToken.ages_markUsed (rows : List AccountRow) (now : Instant) (t : AuthToken) :
    t.Ages (t.markUsed rows now) := by
  unfold AuthToken.markUsed
  split
  · exact ⟨rfl, rfl, rfl, rfl, fun _ => Option.some_ne_none _⟩
  · exact ⟨rfl, rfl, rfl, rfl, fun spent => spent⟩

theorem eq_of_id {db : Accounts} (constraints : db.Constraints) {a b : AuthToken}
    (left : a ∈ db.authTokens) (right : b ∈ db.authTokens) (same : a.id = b.id) : a = b :=
  List.inj_on_of_nodup_map constraints.authTokenIds left right same

theorem eq_of_tokenHash {db : Accounts} (constraints : db.Constraints) {a b : AuthToken}
    (left : a ∈ db.authTokens) (right : b ∈ db.authTokens) (same : a.tokenHash = b.tokenHash) :
    a = b :=
  List.inj_on_of_nodup_map constraints.tokenHashes left right same

/-! ### What a commit does -/

/-- Rows are marked, and an issue appends one. -/
def TokenCommit (sha256 : String → String) (s : Accounts) : TokenEvent → Accounts → Prop
  | .issued userId kind raw seen, t => ∃ taken now row,
    t = { s with
      authTokens := s.authTokens.map (·.markUsed taken now) ++ [row]
      authTokenSeq := s.authTokenSeq + 1 } ∧
    row.id = s.authTokenSeq + 1 ∧ row.userId = userId ∧ row.kind = kind ∧
    hashToken sha256 raw = some row.tokenHash ∧
    (∀ a ∈ s.authTokens, a.tokenHash ≠ row.tokenHash) ∧
    ∀ a ∈ s.authTokens, a.outstanding userId kind → a.id ∈ seen → .authToken a.id ∈ taken
  | .accepted raw, t => ∃ row ∈ s.authTokens, ∃ now,
    hashToken sha256 raw = some row.tokenHash ∧ t = s.markUsed [.authToken row.id] now
  | .refused _, _ => False

variable {sha256 : String → String}

private theorem ids_markUsed (rows : List AccountRow) (now : Instant) (tokens : List AuthToken) :
    (tokens.map (·.markUsed rows now)).map (·.id) = tokens.map (·.id) := by
  rw [List.map_map]
  exact List.map_congr_left fun t _ => (t.ages_markUsed rows now).id

private theorem hashes_markUsed (rows : List AccountRow) (now : Instant)
    (tokens : List AuthToken) :
    (tokens.map (·.markUsed rows now)).map (·.tokenHash) = tokens.map (·.tokenHash) := by
  rw [List.map_map]
  exact List.map_congr_left fun t _ => (t.ages_markUsed rows now).tokenHash

private theorem constraints_markUsed {s : Accounts} (valid : s.Constraints)
    (rows : List AccountRow) (now : Instant) : (s.markUsed rows now).Constraints where
  userIds := valid.userIds
  emails := valid.emails
  authTokenIds := (ids_markUsed rows now s.authTokens).symm ▸ valid.authTokenIds
  tokenHashes := (hashes_markUsed rows now s.authTokens).symm ▸ valid.tokenHashes
  recoveryCodeIds := valid.recoveryCodeIds
  userSeq := valid.userSeq
  authTokenSeq := by
    intro t member
    obtain ⟨old, inside, rfl⟩ := List.mem_map.mp member
    rw [(old.ages_markUsed rows now).id]
    exact valid.authTokenSeq old inside
  recoveryCodeSeq := valid.recoveryCodeSeq

theorem TokenCommit.constraints {s t : Accounts} {event : TokenEvent} (valid : s.Constraints)
    (does : TokenCommit sha256 s event t) : t.Constraints := by
  cases event with
  | refused raw => exact does.elim
  | accepted raw =>
    obtain ⟨row, _, now, _, rfl⟩ := does
    exact constraints_markUsed valid _ now
  | issued userId kind raw seen =>
    obtain ⟨taken, now, row, rfl, id, _, _, _, unused, _⟩ := does
    have marked := constraints_markUsed valid taken now
    refine ⟨valid.userIds, valid.emails, ?_, ?_, valid.recoveryCodeIds, valid.userSeq, ?_,
      valid.recoveryCodeSeq⟩
    · refine nodup_map_append marked.authTokenIds fun old inside same => ?_
      -- the sequence is past every id
      have bound : old.id ≤ s.authTokenSeq := marked.authTokenSeq old inside
      have equal : old.id = row.id := same
      rw [equal, id] at bound
      exact absurd bound (Int.not_le.mpr (Int.lt_succ _))
    · refine nodup_map_append marked.tokenHashes fun old inside same => ?_
      obtain ⟨before, member, rfl⟩ := List.mem_map.mp inside
      rw [(before.ages_markUsed taken now).tokenHash] at same
      exact unused before member same
    · intro token member
      rcases List.mem_append.mp member with old | new
      · have bound := marked.authTokenSeq token old
        exact le_trans bound (Int.le_add_of_nonneg_right (by decide))
      · rw [List.mem_singleton.mp new, id]

theorem TokenCommit.age {s t : Accounts} {event : TokenEvent}
    (does : TokenCommit sha256 s event t) : TokensAge s t := by
  cases event with
  | refused raw => exact does.elim
  | accepted raw =>
    obtain ⟨row, _, now, _, rfl⟩ := does
    exact fun a member => ⟨_, List.mem_map_of_mem member, a.ages_markUsed _ now⟩
  | issued userId kind raw seen =>
    obtain ⟨taken, now, row, rfl, _⟩ := does
    exact fun a member =>
      ⟨_, List.mem_append_left _ (List.mem_map_of_mem member), a.ages_markUsed _ now⟩

/-- The contract of the token calls, for the commits that `guard` lets through. -/
def tokenContract (sha256 : String → String) (guard : Accounts → TokenEvent → Prop) :
    Contract Accounts TokenEvent where
  valid := Accounts.Constraints
  rely := TokensAge
  guard := guard
  commits := fun _ => TokenCommit sha256
  emits := fun event => ∃ raw, event = .refused raw
  refl := TokensAge.refl
  trans := fun _ _ _ => TokensAge.trans
  commits_valid := fun _ _ _ _ => TokenCommit.constraints
  commits_rely := fun _ _ _ _ _ => TokenCommit.age

/-! ### The calls keep it -/

section Calls

variable {guard : Accounts → TokenEvent → Prop}

private theorem insertToken_eq {s t : Accounts} {kind : AuthTokenKind} {tokenHash : String}
    {userId : Id} {expiresAt : Instant}
    (inserted : s.insertToken kind tokenHash userId expiresAt = some t) :
    (∀ a ∈ s.authTokens, a.tokenHash ≠ tokenHash) ∧
    t = { s with
      authTokens := s.authTokens ++
        [{ id := s.authTokenSeq + 1, kind := kind, tokenHash := tokenHash, userId := userId,
           expiresAt := expiresAt }]
      authTokenSeq := s.authTokenSeq + 1 } := by
  unfold Accounts.insertToken at inserted
  split at inserted
  · cases inserted
  · split at inserted
    · cases inserted
    next unused =>
      cases inserted
      refine ⟨fun a member same => unused (List.any_eq_true.mpr ⟨a, member, ?_⟩), rfl⟩
      simpa using same

/-- What the UPDATE of an issue could see and did not take is spent. -/
private theorem taken_of_outstanding {s v w : Accounts} {userId : Id} {kind : AuthTokenKind}
    {taken : List AccountRow} (valid : w.Constraints) (first : TokensAge s v)
    (later : TokensAge v w)
    (missed : ∀ row ∈ (s.authTokens.filter (·.outstanding userId kind)).map
        (fun t => AccountRow.authToken t.id), row ∉ taken → ∃ u, TokensAge s u ∧ TokensAge u v ∧
      (u.authTokens.any fun t => t.outstanding userId kind && AccountRow.authToken t.id = row) =
        false) {a : AuthToken} (member : a ∈ w.authTokens) (live : a.outstanding userId kind)
    (seen : a.id ∈ (s.authTokens.filter fun t => t.userId = userId ∧ t.kind = kind).map (·.id)) :
    .authToken a.id ∈ taken := by
  obtain ⟨old, inside, same⟩ := List.mem_map.mp seen
  obtain ⟨inside, _⟩ := List.mem_filter.mp inside
  -- the row as it was and as it is now are one row
  have row_of : ∀ {x : Accounts} {b : AuthToken}, b ∈ x.authTokens → TokensAge x w →
      b.id = a.id → b.Ages a := by
    intro x b own ages id
    obtain ⟨c, there, became⟩ := ages b own
    rwa [eq_of_id valid there member (became.id.trans id)] at became
  have unspent : ∀ {b : AuthToken}, b.Ages a → b.outstanding userId kind = true := by
    intro b ages
    simp only [AuthToken.outstanding, decide_eq_true_eq] at live ⊢
    refine ⟨ages.userId ▸ live.1, ages.kind ▸ live.2.1, ?_⟩
    by_contra spent
    exact ages.spent spent live.2.2
  have then_live := unspent (row_of inside (first.trans later) same)
  by_contra absent
  have visited : AccountRow.authToken a.id ∈ (s.authTokens.filter
      (·.outstanding userId kind)).map fun t => AccountRow.authToken t.id :=
    List.mem_map.mpr ⟨old, List.mem_filter.mpr ⟨inside, then_live⟩, congrArg _ same⟩
  obtain ⟨u, before, after, unwanted⟩ := missed _ visited absent
  obtain ⟨b, there, ages⟩ := before old inside
  have still := unspent (row_of there (after.trans later) (ages.id.trans same))
  have gone := List.any_eq_false.mp unwanted b there
  rw [still, ages.id, same] at gone
  simp at gone

theorem issue_safe (userId : Id) (kind : AuthTokenKind) (ttl now : Nat) (raw : String)
    (log : List TokenEvent) (s : Accounts) :
    (issue sha256 userId kind ttl now raw).Safe (tokenContract sha256 guard) log s := by
  intro _ db _ _ _
  refine Txn.Safe.takeAll fun _ v taken _ first _ missed => ?_
  split
  next => trivial
  next tokenHash hashed =>
    intro _ w t _ valid later _ written
    obtain ⟨unused, rfl⟩ := insertToken_eq written
    refine ⟨taken, now, _, rfl, rfl, rfl, rfl, hashed, ?_, ?_⟩
    · intro a member same
      refine unused _ (List.mem_map_of_mem member) ?_
      rw [(a.ages_markUsed taken now).tokenHash, same]
    · intro a member live seen
      exact taken_of_outstanding valid first later missed member live seen

theorem redeem_safe (raw : String) (kind : AuthTokenKind) (checkedAt usedAt : Instant)
    (log : List TokenEvent) (s : Accounts) :
    (redeem sha256 raw kind checkedAt usedAt).Safe (tokenContract sha256 guard) log s := by
  unfold redeem
  split
  next => trivial
  next tokenHash hashed =>
    intro _ db _ _ _
    beta_reduce
    split
    next => exact ⟨⟨raw, rfl⟩, trivial⟩
    next row found =>
      split
      · exact ⟨⟨raw, rfl⟩, trivial⟩
      · split
        · exact ⟨⟨raw, rfl⟩, trivial⟩
        · intro _ w t _ valid later _ written
          simp only [Accounts.spendToken] at written
          split at written
          · cases written
            -- the row is still there, under the same id and hash
            obtain ⟨now, member, ages⟩ := later row (List.mem_of_find?_eq_some found)
            have same : row.tokenHash = tokenHash := by simpa using List.find?_some found
            refine ⟨now, member, usedAt, ?_, ?_⟩
            · rw [hashed, ages.tokenHash, same]
            · rw [ages.id]
          · cases written

theorem tokenRequest_safe (p : TokenTxn) (request : TokenRequest sha256 p) (log : List TokenEvent)
    (s : Accounts) : p.Safe (tokenContract sha256 guard) log s := by
  cases request with
  | issue userId kind ttl now raw => exact issue_safe userId kind ttl now raw log s
  | redeem raw kind checkedAt usedAt => exact redeem_safe raw kind checkedAt usedAt log s

end Calls

/-! ### Single use -/

/-- A redeem commits while the row of its token is still unspent. -/
def stillUnspent (sha256 : String → String) (db : Accounts) : TokenEvent → Bool
  | .accepted raw => db.authTokens.any fun t =>
    hashToken sha256 raw = some t.tokenHash && t.usedAt = none
  | _ => true

/-- The row of a raw token is spent. -/
def Spent (sha256 : String → String) (raw : String) (db : Accounts) : Prop :=
  ∃ t ∈ db.authTokens, hashToken sha256 raw = some t.tokenHash ∧ t.usedAt ≠ none

theorem Spent.age {raw : String} {s t : Accounts} (age : TokensAge s t)
    (spent : Spent sha256 raw s) : Spent sha256 raw t := by
  obtain ⟨row, inside, hashed, used⟩ := spent
  obtain ⟨later, inside', ages⟩ := age row inside
  exact ⟨later, inside', by rw [hashed, ages.tokenHash], ages.spent used⟩

theorem not_spent {raw : String} {s : Accounts} (valid : s.Constraints)
    (unspent : stillUnspent sha256 s (.accepted raw) = true) : ¬Spent sha256 raw s := by
  rintro ⟨row, inside, hashed, used⟩
  obtain ⟨live, there, free⟩ := List.any_eq_true.mp unspent
  simp only [Bool.and_eq_true, decide_eq_true_eq] at free
  -- the hash is unique, so both are one row
  have same : row.tokenHash = live.tokenHash := Option.some.inj (hashed.symm.trans free.1)
  rw [eq_of_tokenHash valid inside there same] at used
  exact used free.2

theorem TokenCommit.spent {raw : String} {s t : Accounts}
    (does : TokenCommit sha256 s (.accepted raw) t) : Spent sha256 raw t := by
  obtain ⟨row, member, now, hashed, rfl⟩ := does
  refine ⟨_, List.mem_map_of_mem member, ?_, ?_⟩
  · rw [hashed, (row.ages_markUsed _ now).tokenHash]
  · simp [AuthToken.markUsed]

/-- Whatever the sessions do, no raw token is accepted twice, as long as every redeem that
commits finds its row as unspent as it read it. -/
theorem token_accepted_once {db : Accounts} (constraints : db.Constraints)
    {w : World Accounts AccountRow TokenEvent Nat}
    (run : Reaches (Guarded (World.Meets fun s event => stillUnspent sha256 s event = true)
      (World.Step (TokenRequest sha256))) (World.idle db) w) (raw : String) :
    w.log.count (.accepted raw) ≤ 1 := by
  refine World.run_once
    (c := tokenContract sha256 fun s event => stillUnspent sha256 s event = true)
    tokenRequest_safe (fun _ _ => Spent.age) (fun _ => not_spent) (fun _ _ _ => TokenCommit.spent)
    ?_ (World.keeps_idle constraints) List.not_mem_nil run
  rintro ⟨other, same⟩
  cases same

/-- A token as `secrets.token_urlsafe(32)` mints it. -/
def sampleRaw : String := "q3Vn6t0Wc2yqk8x1v5d7s9f0h2j4l6n8p0r2t4v6x8y"

/-- Another one. -/
def secondRaw : String := "Zr7Lw1mQ9eXkT4uB2sVh8cN6yGd0pJfA3oRiKxEqMbU"

/-- The digests of the two. -/
def sampleSha256 (raw : String) : String :=
  if raw = sampleRaw then "519bc5ee722cbf0e368379c2ec38cdd4024ec8f8693d02d2665507c43758d585"
  else "1f05309b684c418c796d847cbc1e71702d19874f437685aa49a0826dca71ece0"

/-- One active user. -/
def sampleAccounts : Accounts where
  users := [{ id := 1, email := "ada@example.org", hashedPassword := "$argon2id$1" }]
  userSeq := 1

theorem constraints_sampleAccounts : sampleAccounts.Constraints := by
  constructor <;> decide

/-- A reset link is issued and used, and a second request comes with it before the first is
through. -/
def redeemedRun : List (Label Accounts AccountRow TokenEvent Nat) :=
  [.start 0 (issue sampleSha256 1 .passwordReset 3600000000 1000 sampleRaw), .act 0, .act 0,
   .start 1 (redeem sampleSha256 sampleRaw .passwordReset 2000 2001), .act 1,
   .start 2 (redeem sampleSha256 sampleRaw .passwordReset 2000 2002), .act 1, .act 2, .act 2]

theorem allowed_redeemedRun : ∀ l ∈ redeemedRun, l.Allowed (TokenRequest sampleSha256) := by
  simp [redeemedRun, Label.Allowed, TokenRequest.issue, TokenRequest.redeem]

theorem token_accepted_once_redeemed :
    ∃ w, (World.idle sampleAccounts).playWithin (stillUnspent sampleSha256) redeemedRun = some w ∧
      TokenEvent.accepted sampleRaw ∈ w.log ∧ TokenEvent.refused sampleRaw ∈ w.log ∧
      w.log.count (.accepted sampleRaw) ≤ 1 := by
  refine ⟨_, rfl, by decide, by decide, ?_⟩
  exact token_accepted_once constraints_sampleAccounts
    (World.reaches_playWithin allowed_redeemedRun rfl) sampleRaw

/-- Two requests carry the same link: both read the row before either has written it. -/
def racedRun : List (Label Accounts AccountRow TokenEvent Nat) :=
  [.start 0 (issue sampleSha256 1 .passwordReset 3600000000 1000 sampleRaw), .act 0, .act 0,
   .start 1 (redeem sampleSha256 sampleRaw .passwordReset 2000 2001),
   .start 2 (redeem sampleSha256 sampleRaw .passwordReset 2000 2002),
   .act 1, .act 2, .act 1, .act 2]

theorem token_accepted_twice :
    sampleAccounts.Constraints ∧ ∃ w : World Accounts AccountRow TokenEvent Nat,
      Reaches (World.Step (TokenRequest sampleSha256)) (World.idle sampleAccounts) w ∧
      w.log.count (.accepted sampleRaw) = 2 := by
  have allowed : ∀ l ∈ racedRun, l.Allowed (TokenRequest sampleSha256) := by
    simp [racedRun, Label.Allowed, TokenRequest.issue, TokenRequest.redeem]
  exact ⟨constraints_sampleAccounts, _, World.reaches_play allowed rfl, by decide⟩

/-! ### One live link -/

/-- An issue for this user and kind commits while every token of theirs is one its UPDATE
could see. -/
def sawAll (userId : Id) (kind : AuthTokenKind) (db : Accounts) : TokenEvent → Bool
  | .issued u k _ seen =>
    if u = userId ∧ k = kind then
      db.authTokens.all fun t => !(t.userId = userId && t.kind = kind) || t.id ∈ seen
    else true
  | _ => true

/-- Marking rows as spent makes none outstanding. -/
private theorem length_outstanding_markUsed (userId : Id) (kind : AuthTokenKind)
    (rows : List AccountRow) (now : Instant) (tokens : List AuthToken) :
    ((tokens.map (·.markUsed rows now)).filter (·.outstanding userId kind)).length ≤
      (tokens.filter (·.outstanding userId kind)).length := by
  induction tokens with
  | nil => exact Nat.le_refl _
  | cons t rest ih =>
    rw [List.map_cons, List.filter_cons, List.filter_cons]
    by_cases marked : .authToken t.id ∈ rows
    · have spent : (t.markUsed rows now).outstanding userId kind = false := by
        simp [AuthToken.markUsed, AuthToken.outstanding, marked]
      rw [spent, if_neg Bool.false_ne_true]
      split
      · exact Nat.le_succ_of_le ih
      · exact ih
    · have same : t.markUsed rows now = t := if_neg marked
      rw [same]
      split
      · exact Nat.succ_le_succ ih
      · exact ih

/-- In every run in which no token of the user and kind is inserted between the UPDATE of an
issue and its commit, at most one link is live. -/
theorem one_live_token {db : Accounts} (constraints : db.Constraints) {userId : Id}
    {kind : AuthTokenKind}
    (start : (db.authTokens.filter (·.outstanding userId kind)).length ≤ 1)
    {w : World Accounts AccountRow TokenEvent Nat}
    (run : Reaches (Guarded (World.Meets fun s event => sawAll userId kind s event = true)
      (World.Step (TokenRequest sha256))) (World.idle db) w) :
    (w.store.authTokens.filter (·.outstanding userId kind)).length ≤ 1 := by
  refine (World.run_invariant
    (c := tokenContract sha256 fun s event => sawAll userId kind s event = true)
    (P := fun s _ => (s.authTokens.filter (·.outstanding userId kind)).length ≤ 1)
    tokenRequest_safe ?_ (fun _ _ _ before _ => before)
    (World.keeps_idle constraints) start run).2
  intro s log event t _ before saw does
  have does : TokenCommit sha256 s event t := does
  have saw : sawAll userId kind s event = true := saw
  cases event with
  | refused raw => exact does.elim
  | accepted raw =>
    obtain ⟨row, _, now, _, rfl⟩ := does
    exact (length_outstanding_markUsed ..).trans before
  | issued u k raw seen =>
    obtain ⟨taken, now, row, rfl, _, owner, rowKind, _, _, took⟩ := does
    rw [List.filter_append, List.length_append]
    by_cases own : u = userId ∧ k = kind
    · obtain ⟨rfl, rfl⟩ := own
      -- everything that was live is superseded
      have none_left : (s.authTokens.map (·.markUsed taken now)).filter (·.outstanding u k) = [] := by
        rw [List.filter_eq_nil_iff]
        intro b member live
        obtain ⟨a, inside, rfl⟩ := List.mem_map.mp member
        have all : ∀ a ∈ s.authTokens, a.userId = u → a.kind = k → a.id ∈ seen := by
          intro a inside owner kind
          simp only [sawAll, and_self, if_true, List.all_eq_true] at saw
          simpa [owner, kind] using saw a inside
        by_cases marked : .authToken a.id ∈ taken
        · simp [AuthToken.markUsed, AuthToken.outstanding, marked] at live
        · rw [AuthToken.markUsed, if_neg marked] at live
          have fields := live
          simp only [AuthToken.outstanding, decide_eq_true_eq] at fields
          exact marked (took a inside live (all a inside fields.1 fields.2.1))
      rw [none_left, List.length_nil, Nat.zero_add]
      exact List.length_filter_le _ [row]
    · have other : row.outstanding userId kind = false := by
        simp only [AuthToken.outstanding, decide_eq_false_iff_not]
        exact fun fields => own ⟨owner ▸ fields.1, rowKind ▸ fields.2.1⟩
      rw [List.filter_singleton, other]
      exact (length_outstanding_markUsed ..).trans before

/-- Two resets are requested, one after the other. -/
def reissuedRun : List (Label Accounts AccountRow TokenEvent Nat) :=
  [.start 0 (issue sampleSha256 1 .passwordReset 3600000000 1000 sampleRaw), .act 0, .act 0,
   .start 1 (issue sampleSha256 1 .passwordReset 3600000000 2000 secondRaw), .act 1, .act 1,
   .act 1]

theorem one_live_token_redeemed :
    ∃ w, (World.idle sampleAccounts).playWithin (sawAll 1 .passwordReset) reissuedRun = some w ∧
      w.store.authTokens.length = 2 ∧
      (w.store.authTokens.filter (·.outstanding 1 .passwordReset)).length ≤ 1 := by
  have allowed : ∀ l ∈ reissuedRun, l.Allowed (TokenRequest sampleSha256) := by
    simp [reissuedRun, Label.Allowed, TokenRequest.issue]
  refine ⟨_, rfl, rfl, ?_⟩
  exact one_live_token constraints_sampleAccounts (by decide)
    (World.reaches_playWithin allowed rfl)

/-- Two resets are requested at once: the UPDATE of each runs before either has inserted. -/
def issuedTwiceRun : List (Label Accounts AccountRow TokenEvent Nat) :=
  [.start 0 (issue sampleSha256 1 .passwordReset 3600000000 1000 sampleRaw),
   .start 1 (issue sampleSha256 1 .passwordReset 3600000000 1000 secondRaw),
   .act 0, .act 1, .act 0, .act 1]

theorem two_live_tokens :
    sampleAccounts.Constraints ∧
    (sampleAccounts.authTokens.filter (·.outstanding 1 .passwordReset)).length ≤ 1 ∧
    ∃ w : World Accounts AccountRow TokenEvent Nat,
      Reaches (World.Step (TokenRequest sampleSha256)) (World.idle sampleAccounts) w ∧
      (w.store.authTokens.filter (·.outstanding 1 .passwordReset)).length = 2 := by
  have allowed : ∀ l ∈ issuedTwiceRun, l.Allowed (TokenRequest sampleSha256) := by
    simp [issuedTwiceRun, Label.Allowed, TokenRequest.issue]
  exact ⟨constraints_sampleAccounts, by decide, _, World.reaches_play allowed rfl, by decide⟩

end MegooPM
