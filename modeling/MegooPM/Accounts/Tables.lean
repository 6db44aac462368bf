import MegooPM.Data.Tables
import MegooPM.Lib.Rows

/-!
# Account tables

The tables of `models/user.py`, `auth_token.py`, `recovery_code.py` and `passkey.py`, with the
columns the account services read or write, and what the unit of work sends to the database
for an object that was loaded and edited.
-/
namespace MegooPM

open Lib

/-- Microseconds since the epoch. -/
abbrev Instant := Nat

/-- Access-control role for a user. -/
inductive UserRole where
  | admin | member
  deriving DecidableEq, Repr

/-- What a single-use `auth_token` row is for. -/
inductive AuthTokenKind where
  | passwordReset | invitation
  deriving DecidableEq, Repr

/-- An authenticatable user account. -/
structure User where
  id : Id
  email : String
  hashedPassword : String
  fullName : String := ""
  role : UserRole := .member
  isActive : Bool := true
  tokenVersion : Int := 0
  /-- set while an invitation is outstanding -/
  invitedAt : Option Instant := none
  /-- a secret with no `totpEnabledAt` is pending -/
  totpSecretEnc : Option String := none
  totpEnabledAt : Option Instant := none
  totpLastStep : Option Int := none
  deriving DecidableEq, Repr

def User.totpEnabled (u : User) : Bool :=
  u.totpEnabledAt.isSome

/-- One issued token; `usedAt` set means spent. -/
structure AuthToken where
  id : Id
  kind : AuthTokenKind
  tokenHash : String
  userId : Id
  expiresAt : Instant
  usedAt : Option Instant := none
  deriving DecidableEq, Repr

/-- One recovery code; `usedAt` set means spent. -/
structure RecoveryCode where
  id : Id
  userId : Id
  codeHash : String
  usedAt : Option Instant := none
  deriving DecidableEq, Repr

structure Passkey where
  id : Id
  userId : Id
  deriving DecidableEq, Repr

/-- The rows, and the last id each sequence gave out. -/
structure Accounts where
  users : List User := []
  authTokens : List AuthToken := []
  recoveryCodes : List RecoveryCode := []
  passkeys : List Passkey := []
  userSeq : Id := 0
  authTokenSeq : Id := 0
  recoveryCodeSeq : Id := 0
  deriving DecidableEq, Repr

/-- What a statement can lock. -/
inductive AccountRow where
  | user (i : Id)
  | authToken (i : Id)
  | recoveryCode (i : Id)
  | passkey (i : Id)
  deriving DecidableEq, Repr

namespace Accounts

/-- `db.get(User, id)`. -/
def user? (db : Accounts) (i : Id) : Option User :=
  db.users.find? (·.id = i)

/-- Keys, unique columns and sequences. -/
structure Constraints (db : Accounts) : Prop where
  userIds : (db.users.map (·.id)).Nodup
  emails : (db.users.map (·.email)).Nodup
  authTokenIds : (db.authTokens.map (·.id)).Nodup
  tokenHashes : (db.authTokens.map (·.tokenHash)).Nodup
  recoveryCodeIds : (db.recoveryCodes.map (·.id)).Nodup
  userSeq : ∀ u ∈ db.users, u.id ≤ db.userSeq
  authTokenSeq : ∀ t ∈ db.authTokens, t.id ≤ db.authTokenSeq
  recoveryCodeSeq : ∀ c ∈ db.recoveryCodes, c.id ≤ db.recoveryCodeSeq

end Accounts

/-! ### The unit of work -/

/-- A column goes into the UPDATE only if the object's value is not the loaded one. -/
def flushColumn {α : Type} [DecidableEq α] (loaded edited current : α) : α :=
  if edited = loaded then current else edited

/-- The row after the UPDATE for an object that was loaded and edited. -/
def User.flush (loaded edited row : User) : User where
  id := row.id
  email := flushColumn loaded.email edited.email row.email
  hashedPassword := flushColumn loaded.hashedPassword edited.hashedPassword row.hashedPassword
  fullName := flushColumn loaded.fullName edited.fullName row.fullName
  role := flushColumn loaded.role edited.role row.role
  isActive := flushColumn loaded.isActive edited.isActive row.isActive
  tokenVersion := flushColumn loaded.tokenVersion edited.tokenVersion row.tokenVersion
  invitedAt := flushColumn loaded.invitedAt edited.invitedAt row.invitedAt
  totpSecretEnc := flushColumn loaded.totpSecretEnc edited.totpSecretEnc row.totpSecretEnc
  totpEnabledAt := flushColumn loaded.totpEnabledAt edited.totpEnabledAt row.totpEnabledAt
  totpLastStep := flushColumn loaded.totpLastStep edited.totpLastStep row.totpLastStep

/-- The UPDATE by primary key. It is refused as stale if the row is gone, and not sent if
nothing changed. -/
def Accounts.flushUser (db : Accounts) (loaded edited : User) : Option Accounts :=
  if edited = loaded then some db
  else if db.users.any (·.id = loaded.id) then
    some { db with users := updateAt User.id loaded.id (loaded.flush edited) db.users }
  else none

/-- What an UPDATE that is sent does. -/
theorem flushUser_eq {s t : Accounts} {loaded edited : User} (edits : edited ≠ loaded)
    (flushed : s.flushUser loaded edited = some t) :
    (∃ u ∈ s.users, u.id = loaded.id) ∧
    t = { s with users := updateAt User.id loaded.id (loaded.flush edited) s.users } := by
  rw [Accounts.flushUser, if_neg edits] at flushed
  split at flushed
  next there =>
    cases flushed
    obtain ⟨u, member, same⟩ := List.any_eq_true.mp there
    exact ⟨⟨u, member, by simpa using same⟩, rfl⟩
  next => cases flushed

@[simp] theorem flushColumn_same {α : Type} [DecidableEq α] (loaded current : α) :
    flushColumn loaded loaded current = current :=
  if_pos rfl

@[simp] theorem flushColumn_loaded {α : Type} [DecidableEq α] (loaded edited : α) :
    flushColumn loaded edited loaded = edited := by
  unfold flushColumn
  split
  next same => exact same.symm
  next => rfl

/-- A column holds its old value or a new one. -/
theorem flushColumn_cases {α : Type} [DecidableEq α] {P : α → Prop} {loaded edited current : α}
    (kept : P current) (changed : edited ≠ loaded → P edited) :
    P (flushColumn loaded edited current) := by
  unfold flushColumn
  split
  next => exact kept
  next differs => exact changed differs

/-- On the row that was loaded the edits arrive as they are. -/
theorem User.flush_loaded (loaded edited : User) (same : edited.id = loaded.id) :
    loaded.flush edited loaded = edited := by
  simp only [User.flush, flushColumn_loaded, ← same]

end MegooPM
