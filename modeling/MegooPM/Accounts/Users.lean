import MegooPM.Accounts.Tables
import MegooPM.Lib.ReadCommitted
import Mathlib.Data.List.Perm.Subperm

/-!
# Lock-out rules

`assert_no_lockout`, `update_user` and `delete_user` of `services/user.py`, as the statements
they send. The rules look at the rows the session has loaded and at a count of the active
admins; the change is written with the commit.
-/
namespace MegooPM

open Lib

inductive UserEvent where
  /-- a change that takes no admin away -/
  | updated (target : User)
  /-- a change of role or activity that may; `counted` are the active admins the count saw -/
  | demoted (target : User) (counted : Option (List Id))
  | deleted (target : User) (counted : Option (List Id))
  | unchanged
  /-- `UserProtectionError` -/
  | refused (message : String)
  deriving DecidableEq, Repr

abbrev UserTxn := Txn Accounts AccountRow UserEvent

def User.isActiveAdmin (u : User) : Bool :=
  u.role = .admin && u.isActive

/-- The rows `count_active_admins` counts. -/
def Accounts.activeAdmins (db : Accounts) : List User :=
  db.users.filter (·.isActiveAdmin)

/-- What an admin's PATCH may set. -/
structure UserChange where
  fullName : Option String := none
  role : Option UserRole := none
  isActive : Option Bool := none
  deriving DecidableEq, Repr

/-- Rule 1: nobody strands their own session. -/
def ownLockout (target actor : User) (change : UserChange) (deleting : Bool) : Option String :=
  if target.id ≠ actor.id then none
  else if deleting then some "You cannot delete your own account."
  else if change.role.any (· ≠ target.role) then some "You cannot change your own role."
  else if change.isActive = some false then some "You cannot deactivate your own account."
  else none

def losesAdmin (change : UserChange) (deleting : Bool) : Bool :=
  deleting || change.role.any (· ≠ .admin) || change.isActive = some false

/-- Both rules, in order; `next` gets the active admins the count saw, if it was made. -/
def assertNoLockout (target actor : User) (change : UserChange) (deleting : Bool)
    (next : Option (List Id) → UserTxn) : UserTxn :=
  match ownLockout target actor change deleting with
  | some message => .emit (.refused message) .done
  | none =>
    if target.isActiveAdmin && losesAdmin change deleting then
      .read fun db =>
        if db.activeAdmins.length ≤ 1 then
          .emit (.refused "Cannot remove the last active admin. Promote another user first.") .done
        else next (some (db.activeAdmins.map (·.id)))
    else next none

/-- The object after the assignments of `update_user`. -/
def UserChange.apply (change : UserChange) (user : User) : User :=
  { user with
    fullName := change.fullName.getD user.fullName
    role := change.role.getD user.role
    isActive := change.isActive.getD user.isActive }

/-- Apply an admin partial update. -/
def updateUser (target actor : User) (change : UserChange) : UserTxn :=
  assertNoLockout target actor change false fun counted =>
    if change.apply target = target then .emit .unchanged .done
    else .commit [.user target.id] (fun db => db.flushUser target (change.apply target))
      (if losesAdmin change false then .demoted target counted else .updated target)

/-- The DELETE, with what cascades. -/
def Accounts.dropUser (db : Accounts) (i : Id) : Accounts :=
  { db with
    users := removeAt User.id i db.users
    authTokens := db.authTokens.filter (·.userId ≠ i)
    recoveryCodes := db.recoveryCodes.filter (·.userId ≠ i)
    passkeys := db.passkeys.filter (·.userId ≠ i) }

/-- Hard-delete `target`. -/
def deleteUser (target actor : User) : UserTxn :=
  assertNoLockout target actor {} true fun counted =>
    .commit [.user target.id] (fun db => some (db.dropUser target.id)) (.deleted target counted)

/-- The session loads the actor and then the target; the actor's own row is loaded once. -/
def withActor (actorId targetId : Id) (call : User → User → UserTxn) : UserTxn :=
  .read fun db =>
    match db.user? actorId with
    | none => .done
    | some actor =>
      if targetId = actorId then call actor actor
      else .read fun db =>
        match db.user? targetId with
        | none => .done
        | some target => call target actor

/-- The calls that change or delete users. -/
inductive UserRequest : UserTxn → Prop
  | update (actorId targetId : Id) (change : UserChange) :
    UserRequest (withActor actorId targetId fun target actor => updateUser target actor change)
  | delete (actorId targetId : Id) :
    UserRequest (withActor actorId targetId fun target actor => deleteUser target actor)

/-! ### The last admin -/

/-- Someone can manage users. -/
def HasAdmin (db : Accounts) : Prop :=
  ∃ u ∈ db.users, u.isActiveAdmin = true

/-- Who may lose the admin rights is as they were loaded, and whoever the count saw is still an
active admin, when the change is written. -/
def stillCounted (db : Accounts) : UserEvent → Bool
  | .demoted target counted | .deleted target counted =>
    (db.users.all fun u => u.id ≠ target.id || u.isActiveAdmin = target.isActiveAdmin) &&
    (counted.getD []).all fun i => db.users.any fun u => u.id = i && u.isActiveAdmin
  | _ => true

def userContract : Contract Accounts UserEvent where
  valid := fun db => (db.users.map (·.id)).Nodup
  rely := fun _ _ => True
  guard := fun s event => stillCounted s event = true
  commits := fun _ s _ t => (t.users.map (·.id)).Nodup ∧ (HasAdmin s → HasAdmin t)
  emits := fun _ => True
  refl := fun _ => trivial
  trans := fun _ _ _ _ _ => trivial
  commits_valid := fun _ _ _ _ _ does => does.1
  commits_rely := fun _ _ _ _ _ _ => trivial

section Lockout

variable {s t : Accounts} {log : List UserEvent}

private theorem ids_updateUsers (i : Id) (loaded edited : User) :
    (updateAt User.id i (loaded.flush edited) s.users).map (·.id) = s.users.map (·.id) :=
  map_updateAt fun _ => rfl

/-- Of two active admins that were counted, one is not the target. -/
private theorem other_counted {ids : List Id} (distinct : ids.Nodup) (two : 1 < ids.length)
    (i : Id) : ∃ j ∈ ids, j ≠ i := by
  by_contra all
  push Not at all
  have bound : ids ⊆ [i] := fun j member => List.mem_singleton.mpr (all j member)
  have small := (List.subperm_of_subset distinct bound).length_le
  rw [List.length_singleton] at small
  omega

/-- What the rules leave of a change that may take an admin away. -/
def Counted (target : User) : Option (List Id) → Prop
  | some ids => ids.Nodup ∧ 1 < ids.length
  | none => target.isActiveAdmin = false

/-- If the guard is met, an active admin other than the target is left. -/
theorem admin_left {target : User} {counted : Option (List Id)} (sound : Counted target counted)
    (still : stillCounted s (.demoted target counted) = true) (admin : HasAdmin s) :
    ∃ u ∈ s.users, u.isActiveAdmin = true ∧ u.id ≠ target.id := by
  simp only [stillCounted, Bool.and_eq_true, List.all_eq_true] at still
  obtain ⟨loaded, present⟩ := still
  cases counted with
  | none =>
    obtain ⟨u, member, active⟩ := admin
    refine ⟨u, member, active, fun own => ?_⟩
    -- the target was loaded as no active admin, and still is none
    have same := loaded u member
    have off : target.isActiveAdmin = false := sound
    simp [own, off, active] at same
  | some ids =>
    obtain ⟨i, counted, other⟩ := other_counted sound.1 sound.2 target.id
    obtain ⟨u, member, fields⟩ := List.any_eq_true.mp (present i counted)
    simp only [Bool.and_eq_true, decide_eq_true_eq] at fields
    exact ⟨u, member, fields.2, fields.1 ▸ other⟩

/-- A change that takes no admin away leaves an active admin one. -/
theorem isActiveAdmin_flush {change : UserChange} (keeps : losesAdmin change false = false)
    {target u : User} (active : u.isActiveAdmin = true) :
    (target.flush (change.apply target) u).isActiveAdmin = true := by
  simp only [losesAdmin, Bool.false_or, Bool.or_eq_false_iff, decide_eq_false_iff_not] at keeps
  simp only [User.isActiveAdmin, Bool.and_eq_true, decide_eq_true_eq] at active
  obtain ⟨role, activity⟩ := keeps
  simp only [User.isActiveAdmin, Bool.and_eq_true, decide_eq_true_eq]
  constructor
  · refine flushColumn_cases (P := (· = UserRole.admin)) active.1 fun changed => ?_
    cases given : change.role with
    | none => simp [UserChange.apply, given] at changed
    | some r => simpa [UserChange.apply, given] using role
  · refine flushColumn_cases (P := (· = true)) active.2 fun changed => ?_
    cases given : change.isActive with
    | none => simp [UserChange.apply, given] at changed
    | some a => simpa [UserChange.apply, given] using activity

/-- The rules let a change through only with what the commit needs. -/
private theorem assertNoLockout_safe {target actor : User} {change : UserChange} {deleting : Bool}
    {next : Option (List Id) → UserTxn}
    (safe : ∀ counted log s, (losesAdmin change deleting = true → Counted target counted) →
      (next counted).Safe userContract log s) (log : List UserEvent) (s : Accounts) :
    (assertNoLockout target actor change deleting next).Safe userContract log s := by
  unfold assertNoLockout
  split
  · exact ⟨trivial, trivial⟩
  · split
    · intro log' db _ valid _
      beta_reduce
      split
      · exact ⟨trivial, trivial⟩
      next many =>
        refine safe _ log' db fun _ => ⟨?_, ?_⟩
        · exact List.Nodup.sublist (List.Sublist.map _ (List.filter_sublist ..)) valid
        · rw [List.length_map]
          exact not_le.mp many
    next apart =>
      refine safe none log s fun loses => ?_
      have off : target.isActiveAdmin = false := by simpa [loses] using apart
      exact off

private theorem updateUser_safe (target actor : User) (change : UserChange) (log : List UserEvent)
    (s : Accounts) : (updateUser target actor change).Safe userContract log s := by
  refine assertNoLockout_safe (fun counted log s sound => ?_) log s
  split
  · exact ⟨trivial, trivial⟩
  next edits =>
    intro _ v w _ valid _ still written
    obtain ⟨_, rfl⟩ := flushUser_eq edits written
    refine ⟨by rw [ids_updateUsers]; exact valid, fun admin => ?_⟩
    have kept : ∀ {u : User}, u ∈ v.users → u.id ≠ target.id → u ∈ updateAt User.id target.id
        (target.flush (change.apply target)) v.users :=
      fun member other => mem_updateAt.mpr ⟨_, member, (if_neg other).symm⟩
    cases loses : losesAdmin change false with
    | true =>
      rw [loses, if_pos rfl] at still
      obtain ⟨u, member, active, other⟩ := admin_left (sound loses) still admin
      exact ⟨u, kept member other, active⟩
    | false =>
      obtain ⟨u, member, active⟩ := admin
      by_cases own : u.id = target.id
      · exact ⟨_, mem_updateAt.mpr ⟨u, member, (if_pos own).symm⟩,
          isActiveAdmin_flush loses active⟩
      · exact ⟨u, kept member own, active⟩

private theorem deleteUser_safe (target actor : User) (log : List UserEvent) (s : Accounts) :
    (deleteUser target actor).Safe userContract log s := by
  refine assertNoLockout_safe (fun counted log s sound => ?_) log s
  intro _ v w _ valid _ still written
  cases written
  refine ⟨List.Nodup.sublist (List.Sublist.map _ (List.filter_sublist ..)) valid, fun admin => ?_⟩
  obtain ⟨u, member, active, other⟩ := admin_left (sound rfl) still admin
  exact ⟨u, mem_removeAt.mpr ⟨member, other⟩, active⟩

private theorem withActor_safe {call : User → User → UserTxn}
    (safe : ∀ target actor log s, (call target actor).Safe userContract log s)
    (actorId targetId : Id) (log : List UserEvent) (s : Accounts) :
    (withActor actorId targetId call).Safe userContract log s := by
  intro log' db _ _ _
  beta_reduce
  split
  · trivial
  · split
    · exact safe _ _ log' db
    · intro log'' db' _ _ _
      beta_reduce
      split
      · trivial
      · exact safe _ _ log'' db'

theorem userRequest_safe (p : UserTxn) (request : UserRequest p) (log : List UserEvent)
    (s : Accounts) : p.Safe userContract log s := by
  cases request with
  | update actorId targetId change =>
    exact withActor_safe (fun target actor => updateUser_safe target actor change) _ _ log s
  | delete actorId targetId =>
    exact withActor_safe (fun target actor => deleteUser_safe target actor) _ _ log s

end Lockout

/-- In every run in which the rules still look at the committed rows when a demotion or a
deletion is written, an active admin is left. -/
theorem admin_never_lost {db : Accounts} (constraints : db.Constraints) (admin : HasAdmin db)
    {w : World Accounts AccountRow UserEvent Nat}
    (run : Reaches (Guarded (World.Meets fun s event => stillCounted s event = true)
      (World.Step UserRequest)) (World.idle db) w) : HasAdmin w.store := by
  refine (World.run_invariant (c := userContract) (P := fun s _ => HasAdmin s) userRequest_safe
    (fun _ _ _ _ _ before _ does => does.2 before) (fun _ _ _ before _ => before)
    (World.keeps_idle constraints.userIds) admin run).2

/-- Two admins. -/
def twoAdmins : Accounts where
  users := [
    { id := 1, email := "ada@example.org", hashedPassword := "$argon2id$1", role := .admin },
    { id := 2, email := "bob@example.org", hashedPassword := "$argon2id$2", role := .admin }]
  userSeq := 2

theorem constraints_twoAdmins : twoAdmins.Constraints := by
  constructor <;> decide

/-- One demotes the other, who can then not demote the first. -/
def demotionRun : List (Label Accounts AccountRow UserEvent Nat) :=
  [.start 0 (withActor 1 2 fun target actor => updateUser target actor { role := some .member }),
   .act 0, .act 0, .act 0, .act 0,
   .start 1 (withActor 2 1 fun target actor => updateUser target actor { role := some .member }),
   .act 1, .act 1, .act 1, .act 1]

theorem admin_never_lost_demotion :
    ∃ w, (World.idle twoAdmins).playWithin stillCounted demotionRun = some w ∧
      w.store.activeAdmins.length = 1 ∧ HasAdmin w.store := by
  have allowed : ∀ l ∈ demotionRun, l.Allowed UserRequest := by
    simp [demotionRun, Label.Allowed, UserRequest.update]
  have admin : HasAdmin twoAdmins := ⟨_, List.mem_cons_self .., rfl⟩
  refine ⟨_, rfl, rfl, ?_⟩
  exact admin_never_lost constraints_twoAdmins admin (World.reaches_playWithin allowed rfl)

/-- Each demotes the other at once: both counts see two admins. -/
def mutualRun : List (Label Accounts AccountRow UserEvent Nat) :=
  [.start 0 (withActor 1 2 fun target actor => updateUser target actor { role := some .member }),
   .start 1 (withActor 2 1 fun target actor => updateUser target actor { role := some .member }),
   .act 0, .act 0, .act 0, .act 1, .act 1, .act 1, .act 0, .act 1]

theorem admins_lost :
    twoAdmins.Constraints ∧ HasAdmin twoAdmins ∧
    ∃ w : World Accounts AccountRow UserEvent Nat,
      Reaches (World.Step UserRequest) (World.idle twoAdmins) w ∧ ¬HasAdmin w.store := by
  have allowed : ∀ l ∈ mutualRun, l.Allowed UserRequest := by
    simp [mutualRun, Label.Allowed, UserRequest.update]
  refine ⟨constraints_twoAdmins, ⟨_, List.mem_cons_self .., rfl⟩, _,
    World.reaches_play allowed rfl, ?_⟩
  simp only [HasAdmin]
  decide

end MegooPM
