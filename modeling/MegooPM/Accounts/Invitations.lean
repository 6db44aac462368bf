import MegooPM.Accounts.Tokens
import MegooPM.Accounts.Users
import MegooPM.Lib.Transition

/-!
# Invitations

The requests of `routes/users.py` and `routes/auth.py` that create, invite, activate and change
accounts, one after the other. An invited account is a row that is inactive and has `invited_at`
set; accepting the invitation activates it and clears the column in one write.
-/
namespace MegooPM

open Lib

/-- What the services take from libraries. -/
structure AccountEnv where
  sha256 : String → String
  /-- `str.lower` -/
  lower : String → String

/-- Microseconds. -/
def resetTtl : Nat := 3600000000

def inviteTtl : Nat := 604800000000

inductive AccountRequest where
  | createUser (email fullName hashedPassword : String) (role : UserRole) (isActive : Bool)
  /-- `mail` when SMTP and the app URL are set -/
  | inviteUser (mail : Bool) (email fullName hashedPassword : String) (role : UserRole)
    (now : Instant) (raw : String)
  | resendInvitation (mail : Bool) (userId : Id) (now : Instant) (raw : String)
  | acceptInvite (raw fullName hashedPassword : String) (checkedAt usedAt : Instant)
  | forgotPassword (mail : Bool) (email : String) (now : Instant) (raw : String)
  /-- with a reset link -/
  | resetPassword (raw hashedPassword : String) (checkedAt usedAt : Instant)
  /-- by an admin, or by the user themselves -/
  | setPassword (userId : Id) (hashedPassword : String)
  | updateUser (actorId targetId : Id) (change : UserChange)
  | deleteUser (actorId targetId : Id)

structure Reply where
  status : Nat
  detail : String := ""
  deriving DecidableEq, Repr

def tokenInvalid : Reply := { status := 400, detail := "This link is invalid or has expired." }

/-- An exception leaves the handler. -/
def serverError : Reply := { status := 500, detail := "Internal Server Error" }

def emailTaken : Reply := { status := 409, detail := "A user with that email already exists" }

def mailNotConfigured : Reply where
  status := 409
  detail := "Email is not configured, so an invitation cannot be sent. " ++
    "Set up SMTP and the app URL in Settings first."

def userNotFound : Reply := { status := 404, detail := "User not found" }

namespace Accounts

/-- `create_user` and `invite_user`: the address is normalised and must be free. -/
def addUser (db : Accounts) (env : AccountEnv) (email fullName hashedPassword : String)
    (role : UserRole) (isActive : Bool) (invitedAt : Option Instant) : Option Accounts :=
  if db.users.any (·.email = env.lower email) then none
  else some { db with
    users := db.users ++
      [{ id := db.userSeq + 1, email := env.lower email, hashedPassword := hashedPassword,
         fullName := fullName, role := role, isActive := isActive, invitedAt := invitedAt }]
    userSeq := db.userSeq + 1 }

/-- `accept_invitation`. -/
def acceptInvitation (db : Accounts) (user : User) (fullName hashedPassword : String) :
    Option Accounts :=
  db.flushUser user { user with
    fullName := fullName
    hashedPassword := hashedPassword
    invitedAt := none
    isActive := true
    tokenVersion := user.tokenVersion + 1 }

/-- `set_password` and `change_own_password`. -/
def changePassword (db : Accounts) (user : User) (hashedPassword : String) : Option Accounts :=
  db.flushUser user { user with
    hashedPassword := hashedPassword
    tokenVersion := user.tokenVersion + 1 }

end Accounts

/-- What a request leaves and answers. -/
def AccountRequest.handle (env : AccountEnv) (db : Accounts) : AccountRequest → Accounts × Reply
  | .createUser email fullName hashedPassword role isActive =>
    match db.addUser env email fullName hashedPassword role isActive none with
    | none => (db, emailTaken)
    | some db => (db, { status := 201 })
  | .inviteUser mail email fullName hashedPassword role now raw =>
    if mail = false then (db, mailNotConfigured)
    else
      match db.addUser env email fullName hashedPassword role false (some now) with
      | none => (db, emailTaken)
      | some db => (((issue env.sha256 db.userSeq .invitation inviteTtl now raw).alone db).1,
        { status := 201 })
  | .resendInvitation mail userId now raw =>
    match db.user? userId with
    | none => (db, userNotFound)
    | some user =>
      if user.invitedAt = none then
        (db, { status := 409, detail := "That user has already accepted their invitation." })
      else if mail = false then (db, mailNotConfigured)
      else (((issue env.sha256 userId .invitation inviteTtl now raw).alone db).1, { status := 204 })
  | .acceptInvite raw fullName hashedPassword checkedAt usedAt =>
    -- `raw.encode("ascii")` raises
    if hashToken env.sha256 raw = none then (db, serverError)
    else
      let (spent, seen) := (redeem env.sha256 raw .invitation checkedAt usedAt).alone db
      -- the row `redeem` returns
      match db.authTokens.find? (fun t => hashToken env.sha256 raw = some t.tokenHash) with
      | none => (spent, tokenInvalid)
      | some token =>
        if TokenEvent.accepted raw ∉ seen then (spent, tokenInvalid)
        else match spent.user? token.userId with
          | none => (spent, tokenInvalid)
          | some user =>
            if user.invitedAt = none then (spent, tokenInvalid)
            else
              ((spent.acceptInvitation user fullName hashedPassword).getD spent, { status := 204 })
  | .forgotPassword mail email now raw =>
    match db.users.find? (·.email = env.lower email) with
    | none => (db, { status := 202 })
    | some user =>
      if mail = false ∨ user.isActive = false then (db, { status := 202 })
      else (((issue env.sha256 user.id .passwordReset resetTtl now raw).alone db).1,
        { status := 202 })
  | .resetPassword raw hashedPassword checkedAt usedAt =>
    -- `raw.encode("ascii")` raises
    if hashToken env.sha256 raw = none then (db, serverError)
    else
      let (spent, seen) := (redeem env.sha256 raw .passwordReset checkedAt usedAt).alone db
      match db.authTokens.find? (fun t => hashToken env.sha256 raw = some t.tokenHash) with
      | none => (spent, tokenInvalid)
      | some token =>
        if TokenEvent.accepted raw ∉ seen then (spent, tokenInvalid)
        else match spent.user? token.userId with
          | none => (spent, tokenInvalid)
          | some user =>
            if user.isActive = false then (spent, tokenInvalid)
            else ((spent.changePassword user hashedPassword).getD spent, { status := 204 })
  | .setPassword userId hashedPassword =>
    match db.user? userId with
    | none => (db, userNotFound)
    | some user => ((db.changePassword user hashedPassword).getD db, { status := 204 })
  | .updateUser actorId targetId change =>
    let (after, seen) := (withActor actorId targetId fun target actor =>
      MegooPM.updateUser target actor change).alone db
    match seen with
    | [.refused message] => (after, { status := 409, detail := message })
    | [] => (after, userNotFound)
    | _ => (after, { status := 200 })
  | .deleteUser actorId targetId =>
    let (after, seen) := (withActor actorId targetId fun target actor =>
      MegooPM.deleteUser target actor).alone db
    match seen with
    | [.refused message] => (after, { status := 409, detail := message })
    | [] => (after, userNotFound)
    | _ => (after, { status := 204 })

/-! ### What a request does to the users -/

/-- The edits of a row, by the request that makes them. -/
inductive RowEdit (row edit : User) : AccountRequest → Prop
  | other {r} (active : edit.isActive = row.isActive) (invited : edit.invitedAt = row.invitedAt) :
    RowEdit row edit r
  | accepted {raw fullName hashedPassword checkedAt usedAt} (active : edit.isActive = true)
    (invited : edit.invitedAt = none) (password : edit.hashedPassword = hashedPassword) :
    RowEdit row edit (.acceptInvite raw fullName hashedPassword checkedAt usedAt)
  | patched {actorId targetId change} (own : row.id = targetId)
    (active : change.isActive = some edit.isActive) (invited : edit.invitedAt = row.invitedAt) :
    RowEdit row edit (.updateUser actorId targetId change)

/-- One row is added, edited or removed, or none. -/
inductive AccountEffect (db : Accounts) (r : AccountRequest) (db' : Accounts) : Prop
  | none (users : db'.users = db.users) (seq : db'.userSeq = db.userSeq)
  | added {row : User} (users : db'.users = db.users ++ [row]) (seq : db'.userSeq = db.userSeq + 1)
    (id : row.id = db.userSeq + 1) (fresh : row.isActive = true → row.invitedAt = Option.none)
  | edited {row edit : User} (member : row ∈ db.users) (id : edit.id = row.id)
    (users : db'.users = updateAt User.id row.id (row.flush edit) db.users)
    (seq : db'.userSeq = db.userSeq) (how : RowEdit row edit r)
  | removed (i : Id) (users : db'.users = removeAt User.id i db.users)
    (seq : db'.userSeq = db.userSeq)

/-- What a request writes into the row it edits. -/
def AccountRequest.Edits : AccountRequest → User → User → Prop
  | .acceptInvite _ fullName hashedPassword _ _, row, edit =>
    edit = { row with
      fullName := fullName
      hashedPassword := hashedPassword
      invitedAt := none
      isActive := true
      tokenVersion := row.tokenVersion + 1 }
  | .resetPassword _ hashedPassword _ _, row, edit
  | .setPassword _ hashedPassword, row, edit =>
    edit = { row with hashedPassword := hashedPassword, tokenVersion := row.tokenVersion + 1 }
  | .updateUser _ targetId change, row, edit => row.id = targetId ∧ edit = change.apply row
  | _, _, _ => False

/-- One row is added, edited in a way `how` allows or removed, or none. -/
inductive UsersEffect (how : User → User → Prop) (db db' : Accounts) : Prop
  | none (users : db'.users = db.users) (seq : db'.userSeq = db.userSeq)
  | added {row : User} (users : db'.users = db.users ++ [row]) (seq : db'.userSeq = db.userSeq + 1)
    (id : row.id = db.userSeq + 1) (fresh : row.isActive = true → row.invitedAt = Option.none)
  | edited {row edit : User} (found : db.user? row.id = some row) (id : edit.id = row.id)
    (users : db'.users = updateAt User.id row.id (row.flush edit) db.users)
    (seq : db'.userSeq = db.userSeq) (edits : how row edit)
  | removed (i : Id) (users : db'.users = removeAt User.id i db.users)
    (seq : db'.userSeq = db.userSeq)

section Effects

variable {env : AccountEnv} {db db' : Accounts} {r : AccountRequest} {how : User → User → Prop}

/-- The token calls leave the users alone. -/
theorem users_issue (db : Accounts) (sha256 : String → String) (userId : Id)
    (kind : AuthTokenKind) (ttl now : Nat) (raw : String) :
    ((issue sha256 userId kind ttl now raw).alone db).1.users = db.users ∧
    ((issue sha256 userId kind ttl now raw).alone db).1.userSeq = db.userSeq := by
  simp only [issue, Txn.alone, Txn.alone_takeAll]
  split
  · exact ⟨rfl, rfl⟩
  · simp only [Txn.alone]
    split
    next inserted =>
      simp only [Accounts.insertToken] at inserted
      split at inserted
      · cases inserted
      · split at inserted <;> cases inserted
        exact ⟨rfl, rfl⟩
    next => exact ⟨rfl, rfl⟩

theorem users_redeem (db : Accounts) (sha256 : String → String) (raw : String)
    (kind : AuthTokenKind) (checkedAt usedAt : Instant) :
    ((redeem sha256 raw kind checkedAt usedAt).alone db).1.users = db.users ∧
    ((redeem sha256 raw kind checkedAt usedAt).alone db).1.userSeq = db.userSeq := by
  unfold redeem
  split
  · exact ⟨rfl, rfl⟩
  · simp only [Txn.alone]
    split
    · exact ⟨rfl, rfl⟩
    · split
      · exact ⟨rfl, rfl⟩
      · split
        · exact ⟨rfl, rfl⟩
        · simp only [Txn.alone, Accounts.spendToken]
          split
          next written =>
            split at written <;> cases written
            exact ⟨rfl, rfl⟩
          next => exact ⟨rfl, rfl⟩

/-- Only the users count. -/
theorem UsersEffect.congr {a b : Accounts} (effect : UsersEffect how db a)
    (same : b.users = a.users ∧ b.userSeq = a.userSeq) : UsersEffect how db b := by
  obtain ⟨users', seq'⟩ := same
  cases effect with
  | none users seq => exact .none (users'.trans users) (seq'.trans seq)
  | added users seq id fresh => exact .added (users'.trans users) (seq'.trans seq) id fresh
  | edited found id users seq edits =>
    exact .edited found id (users'.trans users) (seq'.trans seq) edits
  | removed i users seq => exact .removed i (users'.trans users) (seq'.trans seq)

theorem effect_addUser {email fullName hashedPassword : String} {role : UserRole} {isActive : Bool}
    {invitedAt : Option Instant}
    (fresh : isActive = true → invitedAt = none)
    (added : db.addUser env email fullName hashedPassword role isActive invitedAt = some db') :
    UsersEffect how db db' := by
  unfold Accounts.addUser at added
  split at added
  · cases added
  · cases added
    exact .added rfl rfl rfl fresh

/-- A row is found under its own id. -/
theorem user?_own {i : Id} {user : User} (found : db.user? i = some user) :
    user.id = i ∧ db.user? user.id = some user := by
  have own : user.id = i := by simpa using List.find?_some found
  exact ⟨own, own ▸ found⟩

/-- An UPDATE for an object that was loaded from the current rows. -/
theorem effect_flushed {s t : Accounts} (users : s.users = db.users) (seq : s.userSeq = db.userSeq)
    {i : Id} {user edit : User} (found : s.user? i = some user) (id : edit.id = user.id)
    (edits : how user edit) (flushed : s.flushUser user edit = some t) :
    UsersEffect how db t := by
  by_cases same : edit = user
  · rw [Accounts.flushUser, if_pos same] at flushed
    cases flushed
    exact .none users seq
  · obtain ⟨_, rfl⟩ := flushUser_eq same flushed
    have there : db.user? user.id = some user := by
      rw [Accounts.user?, ← users]
      exact (user?_own found).2
    exact .edited there id (by rw [← users]) seq edits

theorem effect_flush {s : Accounts} (users : s.users = db.users) (seq : s.userSeq = db.userSeq)
    {i : Id} {user edit : User} (found : s.user? i = some user) (id : edit.id = user.id)
    (edits : how user edit) : UsersEffect how db ((s.flushUser user edit).getD s) := by
  cases flushed : s.flushUser user edit with
  | none => exact .none users seq
  | some t => exact effect_flushed users seq found id edits flushed

/-- Distinct ids, none past the sequence. -/
structure Accounts.Keyed (db : Accounts) : Prop where
  userIds : (db.users.map (·.id)).Nodup
  userSeq : ∀ u ∈ db.users, u.id ≤ db.userSeq

theorem UsersEffect.keyed (effect : UsersEffect how db db') (keyed : db.Keyed) : db'.Keyed := by
  cases effect with
  | none users seq =>
    refine ⟨users ▸ keyed.userIds, ?_⟩
    rw [users, seq]
    exact keyed.userSeq
  | @added row users seq id fresh =>
    constructor
    · rw [users]
      refine nodup_map_append keyed.userIds fun old member same => ?_
      -- the new id is past every id given so far
      have bound := keyed.userSeq old member
      have equal : old.id = row.id := same
      rw [equal, id] at bound
      exact absurd bound (Int.not_le.mpr (Int.lt_succ _))
    · intro u member
      rw [users] at member
      rw [seq]
      rcases List.mem_append.mp member with old | new
      · exact le_trans (keyed.userSeq u old) (Int.le_add_of_nonneg_right (by decide))
      · rw [List.mem_singleton.mp new, id]
  | @edited row edit found id users seq edits =>
    -- an edit keeps the ids
    have ids : db'.users.map User.id = db.users.map User.id := by
      rw [users]
      exact map_updateAt fun _ => rfl
    refine ⟨ids ▸ keyed.userIds, fun u member => ?_⟩
    obtain ⟨old, inside, same⟩ := List.mem_map.mp (ids ▸ List.mem_map_of_mem member)
    rw [seq, ← same]
    exact keyed.userSeq old inside
  | removed i users seq =>
    constructor
    · rw [users]
      exact List.Nodup.sublist (List.Sublist.map _ (List.filter_sublist ..)) keyed.userIds
    · intro u member
      rw [users] at member
      rw [seq]
      exact keyed.userSeq u (mem_removeAt.mp member).1

/-- The lookups of a request all see the same rows. -/
theorem alone_withActor (db : Accounts) (actorId targetId : Id) (call : User → User → UserTxn) :
    ((withActor actorId targetId call).alone db).1 = db ∨
    ∃ target actor, db.user? targetId = some target ∧
      (withActor actorId targetId call).alone db = (call target actor).alone db := by
  simp only [withActor, Txn.alone]
  split
  · exact Or.inl rfl
  next actor found =>
    split
    next same =>
      subst same
      exact Or.inr ⟨actor, actor, found, rfl⟩
    next =>
      simp only [Txn.alone]
      split
      · exact Or.inl rfl
      next target found' => exact Or.inr ⟨target, actor, found', rfl⟩

/-- A request the rules refuse changes nothing. -/
theorem alone_assertNoLockout (db : Accounts) (target actor : User) (change : UserChange)
    (deleting : Bool) (next : Option (List Id) → UserTxn) :
    ((assertNoLockout target actor change deleting next).alone db).1 = db ∨
    ∃ counted, (assertNoLockout target actor change deleting next).alone db =
      (next counted).alone db := by
  unfold assertNoLockout
  split
  · exact Or.inl rfl
  · split
    · simp only [Txn.alone]
      split
      · exact Or.inl rfl
      · exact Or.inr ⟨_, rfl⟩
    · exact Or.inr ⟨_, rfl⟩

theorem effect_updateUser (db : Accounts) (actorId targetId : Id) (change : UserChange) :
    UsersEffect (AccountRequest.updateUser actorId targetId change).Edits db
      ((withActor actorId targetId fun target actor =>
        MegooPM.updateUser target actor change).alone db).1 := by
  rcases alone_withActor db actorId targetId fun target actor =>
      MegooPM.updateUser target actor change with same | ⟨target, actor, found, loaded⟩
  · rw [same]
    exact .none rfl rfl
  · rw [loaded]
    rcases alone_assertNoLockout db target actor change false _ with same | ⟨counted, passed⟩
    · rw [MegooPM.updateUser, same]
      exact .none rfl rfl
    · rw [MegooPM.updateUser, passed]
      split
      · exact .none rfl rfl
      · simp only [Txn.alone]
        cases flushed : db.flushUser target (change.apply target) with
        | none => exact .none rfl rfl
        | some t =>
          have id : (change.apply target).id = target.id := rfl
          exact effect_flushed rfl rfl found id ⟨(user?_own found).1, rfl⟩ flushed

theorem effect_deleteUser (db : Accounts) (actorId targetId : Id) :
    UsersEffect how db ((withActor actorId targetId fun target actor =>
      MegooPM.deleteUser target actor).alone db).1 := by
  rcases alone_withActor db actorId targetId fun target actor =>
      MegooPM.deleteUser target actor with same | ⟨target, actor, found, loaded⟩
  · rw [same]
    exact .none rfl rfl
  · rw [loaded]
    rcases alone_assertNoLockout db target actor {} true _ with same | ⟨counted, passed⟩
    · rw [MegooPM.deleteUser, same]
      exact .none rfl rfl
    · rw [MegooPM.deleteUser, passed]
      exact .removed target.id rfl rfl

/-- What a request does to the users. -/
theorem handle_edits (env : AccountEnv) (db : Accounts) (r : AccountRequest) :
    UsersEffect r.Edits db (r.handle env db).1 := by
  cases r with
  | createUser email fullName hashedPassword role isActive =>
    simp only [AccountRequest.handle]
    split
    · exact .none rfl rfl
    next added => exact effect_addUser (fun _ => rfl) added
  | inviteUser mail email fullName hashedPassword role now raw =>
    simp only [AccountRequest.handle]
    split
    · exact .none rfl rfl
    · split
      · exact .none rfl rfl
      next added =>
        refine UsersEffect.congr ?_ (users_issue ..)
        exact effect_addUser (fun off => absurd off (by decide)) added
  | resendInvitation mail userId now raw =>
    simp only [AccountRequest.handle]
    split
    · exact .none rfl rfl
    · split
      · exact .none rfl rfl
      · split
        · exact .none rfl rfl
        · exact (UsersEffect.none rfl rfl).congr (users_issue ..)
  | acceptInvite raw fullName hashedPassword checkedAt usedAt =>
    -- a redeem spends a token, and leaves the users as they are
    obtain ⟨users, seq⟩ := users_redeem db env.sha256 raw .invitation checkedAt usedAt
    simp only [AccountRequest.handle]
    split
    · exact .none rfl rfl
    · split
      · exact .none users seq
      · split
        · exact .none users seq
        · split
          · exact .none users seq
          next user found =>
            split
            · exact .none users seq
            · exact effect_flush users seq found rfl rfl
  | forgotPassword mail email now raw =>
    simp only [AccountRequest.handle]
    split
    · exact .none rfl rfl
    · split
      · exact .none rfl rfl
      · exact (UsersEffect.none rfl rfl).congr (users_issue ..)
  | resetPassword raw hashedPassword checkedAt usedAt =>
    obtain ⟨users, seq⟩ := users_redeem db env.sha256 raw .passwordReset checkedAt usedAt
    simp only [AccountRequest.handle]
    split
    · exact .none rfl rfl
    · split
      · exact .none users seq
      · split
        · exact .none users seq
        · split
          · exact .none users seq
          next user found =>
            split
            · exact .none users seq
            · exact effect_flush users seq found rfl rfl
  | setPassword userId hashedPassword =>
    simp only [AccountRequest.handle]
    split
    · exact .none rfl rfl
    next user found => exact effect_flush rfl rfl found rfl rfl
  | updateUser actorId targetId change =>
    have effect := effect_updateUser db actorId targetId change
    simp only [AccountRequest.handle]
    split <;> exact effect
  | deleteUser actorId targetId =>
    simp only [AccountRequest.handle]
    split <;> exact effect_deleteUser db actorId targetId

/-- What an edit means for activity and invitation. -/
theorem AccountRequest.Edits.rowEdit {row edit : User} (edits : r.Edits row edit) :
    RowEdit row edit r := by
  cases r with
  | acceptInvite raw fullName hashedPassword checkedAt usedAt =>
    cases edits
    exact .accepted rfl rfl rfl
  | resetPassword raw hashedPassword checkedAt usedAt =>
    cases edits
    exact .other rfl rfl
  | setPassword userId hashedPassword =>
    cases edits
    exact .other rfl rfl
  | updateUser actorId targetId change =>
    obtain ⟨own, rfl⟩ := edits
    cases given : change.isActive with
    | none => exact .other (by simp [UserChange.apply, given]) rfl
    | some active => exact .patched own (by simp [UserChange.apply, given]) rfl
  | createUser | inviteUser | resendInvitation | forgotPassword | deleteUser => exact edits.elim

theorem UsersEffect.account (effect : UsersEffect r.Edits db db') : AccountEffect db r db' := by
  cases effect with
  | none users seq => exact .none users seq
  | added users seq id fresh => exact .added users seq id fresh
  | edited found id users seq edits =>
    exact .edited (List.mem_of_find?_eq_some found) id users seq edits.rowEdit
  | removed i users seq => exact .removed i users seq

end Effects

/-! ### Active or invited -/

/-- No account is active and still invited. -/
def Accounts.NoActiveInvited (db : Accounts) : Prop :=
  ∀ u ∈ db.users, u.isActive = true → u.invitedAt = none

/-- One request after the other. -/
def AccountStep (env : AccountEnv) (db : Accounts) (r : AccountRequest) (db' : Accounts) : Prop :=
  (r.handle env db).1 = db'

/-- No PATCH switches on an account that is still invited. -/
def AccountRequest.Proper (db : Accounts) : AccountRequest → Prop
  | .updateUser _ targetId change => change.isActive = some true →
    ∀ u ∈ db.users, u.id = targetId → u.invitedAt = none
  | _ => True

/-- The keys of the users, and the rule. -/
structure Accounts.Settled (db : Accounts) : Prop where
  userIds : (db.users.map (·.id)).Nodup
  userSeq : ∀ u ∈ db.users, u.id ≤ db.userSeq
  noActiveInvited : db.NoActiveInvited

section Invited

variable {db db' : Accounts} {r : AccountRequest}

/-- In place of the edited row stands the edit. -/
theorem mem_edited {row edit u : User} (distinct : (db.users.map (·.id)).Nodup)
    (member : row ∈ db.users) (id : edit.id = row.id)
    (inside : u ∈ updateAt User.id row.id (row.flush edit) db.users) :
    (u ∈ db.users ∧ u.id ≠ row.id) ∨ u = edit := by
  rcases (mem_updateAt_of_mem distinct member).mp inside with old | rfl
  · exact Or.inl (mem_removeAt.mp old)
  · exact Or.inr (User.flush_loaded row edit id)

theorem effect_settled (settled : db.Settled) (proper : r.Proper db)
    (effect : UsersEffect r.Edits db db') : db'.Settled := by
  have keyed := effect.keyed ⟨settled.userIds, settled.userSeq⟩
  refine ⟨keyed.userIds, keyed.userSeq, fun u inside on => ?_⟩
  cases effect.account with
  | none users seq => exact settled.noActiveInvited u (users ▸ inside) on
  | @added row users seq id fresh =>
    rw [users] at inside
    rcases List.mem_append.mp inside with old | new
    · exact settled.noActiveInvited u old on
    · cases List.mem_singleton.mp new
      exact fresh on
  | @edited row edit member id users seq how =>
    rw [users] at inside
    rcases mem_edited settled.userIds member id inside with old | rfl
    · exact settled.noActiveInvited u old.1 on
    · cases how with
      | other active invited => exact invited.trans (settled.noActiveInvited row member (active ▸ on))
      | accepted active invited password => exact invited
      | patched own active invited =>
        exact invited.trans (proper (active.trans (congrArg some on)) row member own)
  | removed i users seq =>
    rw [users] at inside
    exact settled.noActiveInvited u (mem_removeAt.mp inside).1 on

/-- An invited account that a request leaves active has been accepted. -/
theorem effect_activates (settled : db.Settled) (proper : r.Proper db)
    (effect : AccountEffect db r db') {u u' : User} (member : u ∈ db.users)
    (invited : u.invitedAt ≠ none) (member' : u' ∈ db'.users) (same : u'.id = u.id)
    (active : u'.isActive = true) :
    ∃ raw fullName checkedAt usedAt,
      r = .acceptInvite raw fullName u'.hashedPassword checkedAt usedAt ∧ u'.invitedAt = none := by
  have off : ∀ v ∈ db.users, v.id = u.id → v.isActive ≠ true := by
    intro v inside id on
    have row : v = u := List.inj_on_of_nodup_map settled.userIds inside member id
    exact invited (row ▸ settled.noActiveInvited v inside on)
  -- the row is off before, and only an edit of this very row turns it on
  cases effect with
  | none users seq => exact absurd active (off u' (users ▸ member') same)
  | added users seq id fresh =>
    rw [users] at member'
    rcases List.mem_append.mp member' with old | new
    · exact absurd active (off u' old same)
    · have bound := settled.userSeq u member
      rw [← same, List.mem_singleton.mp new, id] at bound
      exact absurd bound (Int.not_le.mpr (Int.lt_succ _))
  | removed i users seq =>
    rw [users] at member'
    exact absurd active (off u' (mem_removeAt.mp member').1 same)
  | @edited row edit inside id users seq how =>
    rw [users] at member'
    rcases mem_edited settled.userIds inside id member' with old | rfl
    · exact absurd active (off u' old.1 same)
    · have own : row.id = u.id := id.symm.trans same
      have row_eq : row = u := List.inj_on_of_nodup_map settled.userIds inside member own
      cases how with
      | other before _ => exact absurd (before ▸ active) (off row inside own)
      | accepted _ cleared password => exact ⟨_, _, _, _, by rw [password], cleared⟩
      | patched target patch _ =>
        -- a patch that activates is proper only where nobody is invited
        have clear := proper (patch.trans (congrArg some active)) row inside target
        exact absurd (row_eq ▸ clear) invited

end Invited

/-- In every run in which no PATCH switches on an account that is still invited, no row is
active and invited, and what activates an invited account is its acceptance. -/
theorem active_xor_invited {env : AccountEnv} {db db' : Accounts} (constraints : db.Constraints)
    (start : db.NoActiveInvited)
    (run : Reaches (Guarded (fun s r => r.Proper s) (AccountStep env)) db db') :
    db'.NoActiveInvited ∧
    ∀ r after, r.Proper db' → AccountStep env db' r after →
      ∀ u ∈ db'.users, u.invitedAt ≠ none → ∀ u' ∈ after.users, u'.id = u.id →
        u'.isActive = true → ∃ raw fullName checkedAt usedAt,
          r = .acceptInvite raw fullName u'.hashedPassword checkedAt usedAt ∧
          u'.invitedAt = none := by
  have settled : db'.Settled := by
    refine run.invariant (P := Accounts.Settled) ?_ ⟨constraints.userIds, constraints.userSeq, start⟩
    rintro s r _ before ⟨proper, rfl⟩
    exact effect_settled before proper (handle_edits env s r)
  refine ⟨settled.noActiveInvited, ?_⟩
  rintro r _ proper rfl u member invited u' member' same active
  exact effect_activates settled proper (handle_edits env db' r).account member invited member'
    same active

/-- Addresses are ASCII here. -/
def sampleAccountEnv : AccountEnv where
  sha256 := sampleSha256
  lower := fun text => String.ofList (text.toList.map Char.toLower)

/-- An admin, and nobody else. -/
def oneAdmin : Accounts where
  users := [{ id := 1, email := "ada@example.org", hashedPassword := "$argon2id$1", role := .admin }]
  userSeq := 1

theorem constraints_oneAdmin : oneAdmin.Constraints := by
  constructor <;> decide

/-- The invitation of a second user. -/
def sampleInvitation : AccountRequest :=
  .inviteUser true "Bob@example.org" "Bob" "$argon2id$random" .member 1000 sampleRaw

theorem active_xor_invited_accepted :
    let invited := (sampleInvitation.handle sampleAccountEnv oneAdmin).1
    let joined := ((AccountRequest.acceptInvite sampleRaw "Bob" "$argon2id$2" 2000 2001).handle
      sampleAccountEnv invited).1
    invited.users.any (·.invitedAt = some 1000) = true ∧
    joined.users.map (·.isActive) = [true, true] ∧ joined.NoActiveInvited := by
  refine ⟨by decide, by decide, ?_⟩
  have start : oneAdmin.NoActiveInvited := by
    unfold Accounts.NoActiveInvited
    decide
  have run : Reaches (Guarded (fun s r => AccountRequest.Proper s r)
      (AccountStep sampleAccountEnv)) oneAdmin _ :=
    ((Reaches.refl _ _).tail (e := sampleInvitation) ⟨trivial, rfl⟩).tail
      (e := .acceptInvite sampleRaw "Bob" "$argon2id$2" 2000 2001) ⟨trivial, rfl⟩
  exact (active_xor_invited constraints_oneAdmin start run).1

/-- An admin switches the account on before the invitation is accepted. -/
theorem active_and_invited :
    oneAdmin.Constraints ∧ oneAdmin.NoActiveInvited ∧
    ∃ db, Reaches (AccountStep sampleAccountEnv) oneAdmin db ∧ ¬db.NoActiveInvited := by
  have start : oneAdmin.NoActiveInvited := by
    unfold Accounts.NoActiveInvited
    decide
  refine ⟨constraints_oneAdmin, start, _,
    ((Reaches.refl _ _).tail (e := sampleInvitation) rfl).tail
      (e := .updateUser 1 2 { isActive := some true }) rfl, ?_⟩
  unfold Accounts.NoActiveInvited
  decide

end MegooPM
