import MegooPM.Api.Schemas
import MegooPM.Services.AccessLists
import MegooPM.Services.Htpasswd
import Mathlib

/-!
# Replacing the collections of an access list

`update_access_list` changes rows in the session and commits once. Either it raises and the
stored content is what it was, or the list has exactly the users and the rules of the
payload: names sent alone keep their row, names sent with a password get a hash that
verifies it, and the rules are rendered in the payload's order.
-/
namespace MegooPM

open Lib

/-! ### The payload -/

/-- `AccessListAuthReplace` -/
structure AccessListAuthReplace where
  username : String
  password : Option String := none
  deriving DecidableEq, Repr

/-- `AccessListClientCreate` -/
structure AccessListClientCreate where
  address : String
  directive : AccessListDirective
  deriving DecidableEq, Repr

/-- `AccessListUpdate` -/
structure AccessListUpdate where
  name : Change String := .unset
  satisfyAny : Change Bool := .unset
  passAuth : Change Bool := .unset
  authUsers : Change (List AccessListAuthReplace) := .unset
  clients : Change (List AccessListClientCreate) := .unset
  deriving DecidableEq, Repr

def AccessListAuthReplace.validated (u : AccessListAuthReplace) :
    Except SchemaError AccessListAuthReplace := do
  let given ← shortText u.username
  let username ← validateUsername given
  if u.password = some "" then .error ⟨"String should have at least 1 character", none⟩
  else .ok { u with username }

def AccessListClientCreate.validated (library : SchemaLibrary) (rule : AccessListClientCreate) :
    Except SchemaError AccessListClientCreate := do
  let given ← shortText rule.address
  let address ← validateAddress library given
  .ok { rule with address }

/-- `_unique_usernames` -/
def uniqueUsernames (users : List AccessListAuthReplace) :
    Except SchemaError (List AccessListAuthReplace) :=
  if (users.map (·.username)).Nodup then .ok users
  else .error ⟨"duplicate usernames within the access list", none⟩

/-- A field that may be left out or null, checked where it has a value. -/
def Change.validated {α β : Type} (check : α → Except SchemaError β) :
    Change α → Except SchemaError (Change β)
  | .unset => .ok .unset
  | .null => .ok .null
  | .set a => (check a).map .set

def AccessListUpdate.validated (library : SchemaLibrary) (body : AccessListUpdate) :
    Except SchemaError AccessListUpdate := do
  let name ← body.name.validated shortText
  let authUsers ← body.authUsers.validated fun users => do
    uniqueUsernames (← users.mapM (·.validated))
  let clients ← body.clients.validated (·.mapM (·.validated library))
  .ok { body with name, authUsers, clients }

/-! ### The call -/

/-- The ids a sequence gives to one transaction, each above those before it. -/
structure Sequence where
  nextval : Nat → Id
  increases : StrictMono nextval

/-- Rows to insert, with their ids in the order of insertion. -/
def Sequence.number {α β : Type} (ids : Sequence) (row : Id → α → β) (rows : List α) : List β :=
  rows.mapIdx fun i given => row (ids.nextval i) given

/-- `model_dump(exclude_unset=True)`, with the ids that new rows will have. -/
def AccessListUpdate.changes (userIds ruleIds : Sequence) (body : AccessListUpdate) :
    AccessListChanges where
  name := body.name
  satisfyAny := body.satisfyAny
  passAuth := body.passAuth
  authUsers := body.authUsers.value?.map <| userIds.number fun id u =>
    { id, username := u.username, password := u.password }
  clients := body.clients.value?.map <| ruleIds.number fun id c =>
    { id, address := c.address, directive := c.directive }

/-- What is stored, and what the session holds of it. -/
structure Transaction where
  stored : Database
  session : Database

namespace Transaction

/-- A session that has changed nothing yet. -/
def opened (db : Database) : Transaction := { stored := db, session := db }

/-- Rows changed in the session. -/
def mutate (t : Transaction) (accessListId : Id) (f : AccessList → AccessList) : Transaction :=
  { t with session := t.session.changeAccessList accessListId f }

/-- `db.commit()`, and `db.rollback()` where the database refuses. -/
def commit (t : Transaction) (notNull : Bool) : Except ServiceError Unit × Transaction :=
  match commitOr t.session notNull .duplicateUsername with
  | .ok db => (.ok (), opened db)
  | .error e => (.error e, opened t.stored)

/-- `update_access_list` -/
def updateAccessList (hashApr1 : AuthUserIn → String) (t : Transaction) (accessListId : Id)
    (changes : AccessListChanges) : Except ServiceError Unit × Transaction :=
  match t.session.accessList? accessListId with
  | none => (.error (.notFound .accessList accessListId), t)
  | some list =>
    match updatedAuthUsers hashApr1 list changes with
    -- refused before anything is changed
    | .error e => (.error e, t)
    | .ok kept =>
      let t := t.mutate accessListId fun a => { a with authUsers := kept }
      let t := t.mutate accessListId fun a =>
        { a with clientRules := changes.clients.getD a.clientRules }
      let t := t.mutate accessListId fun a =>
        { a with
          name := changes.name.overValue a.name
          satisfyAny := changes.satisfyAny.overValue a.satisfyAny
          passAuth := changes.passAuth.overValue a.passAuth }
      t.commit changes.notNull

/-- The transaction behind a call that left `db`, or raised. -/
def closed (db : Database) (outcome : Except ServiceError Database) :
    Except ServiceError Unit × Transaction :=
  (outcome.map fun _ => (), opened (outcome.toOption.getD db))

theorem mutate_mutate (t : Transaction) {i : Id} {f g : AccessList → AccessList}
    (keeps : ∀ a, (f a).id = a.id) : (t.mutate i f).mutate i g = t.mutate i (g ∘ f) := by
  simp only [mutate, Database.changeAccessList, updateAt, List.map_map]
  congr 2
  apply List.map_congr_left
  intro a _
  by_cases here : a.id = i
  · simp [here, keeps]
  · simp [here]

/-- The session and the one change that the other calls are modelled by. -/
theorem updateAccessList_opened (hashApr1 : AuthUserIn → String) (db : Database) (i : Id)
    (changes : AccessListChanges) : (opened db).updateAccessList hashApr1 i changes =
      closed db (MegooPM.updateAccessList hashApr1 db i changes) := by
  unfold updateAccessList MegooPM.updateAccessList
  simp only [opened]
  cases found : db.accessList? i with
  | none => rfl
  | some list =>
    cases users : updatedAuthUsers hashApr1 list changes with
    | error e =>
      simp only [users, orRaise, bind, Except.bind]
      rfl
    | ok kept =>
      simp only [users, mutate_mutate, Function.comp_def, implies_true, orRaise, bind, Except.bind]
      simp only [mutate, commit]
      have same : (fun a : AccessList => { a with
          name := changes.name.overValue a.name
          satisfyAny := changes.satisfyAny.overValue a.satisfyAny
          passAuth := changes.passAuth.overValue a.passAuth
          authUsers := kept
          clientRules := changes.clients.getD a.clientRules }) = changes.apply kept := rfl
      rw [same]
      cases outcome : commitOr (db.changeAccessList i (changes.apply kept)) changes.notNull
          .duplicateUsername with
      | error e => rfl
      | ok after => rfl

end Transaction

/-! ### What a replacement leaves -/

/-- The list after the call, against the list before it and the payload. A collection that
is left out or null is not touched. -/
structure AccessListUpdate.Replaces (md5 : Md5) (body : AccessListUpdate)
    (before after : AccessList) : Prop where
  usernames : ∀ users, body.authUsers = .set users →
    after.authUsers.map (·.username) = users.map (·.username)
  kept : ∀ users, body.authUsers = .set users → ∀ u ∈ users, u.password = none →
    ∀ row ∈ after.authUsers, row.username = u.username → row ∈ before.authUsers
  hashed : ∀ users, body.authUsers = .set users → ∀ u ∈ users, ∀ password,
    u.password = some password → ∀ row ∈ after.authUsers, row.username = u.username →
      verifyApr1 md5 password row.passwordHash = some true
  rules : ∀ rules, body.clients = .set rules → (accessListSpec after).clientRules =
    rules.map fun c => { directive := c.directive, address := c.address }
  otherUsers : body.authUsers.value? = none → after.authUsers = before.authUsers
  otherRules : body.clients.value? = none → after.clientRules = before.clientRules

/-- What the schema lets through. -/
theorem users_of_validated {library : SchemaLibrary} {raw body : AccessListUpdate}
    (accepted : raw.validated library = .ok body) {users : List AccessListAuthReplace}
    (sent : body.authUsers = .set users) :
    (users.map (·.username)).Nodup ∧ ∀ u ∈ users, u.password ≠ some "" := by
  obtain ⟨_, _, accepted⟩ := bind_eq_ok accepted
  obtain ⟨checked, ran, accepted⟩ := bind_eq_ok accepted
  obtain ⟨_, _, accepted⟩ := bind_eq_ok accepted
  cases accepted
  subst sent
  -- only a list that was sent is validated
  cases given : raw.authUsers with
  | unset =>
    rw [given] at ran
    cases ran
  | null =>
    rw [given] at ran
    cases ran
  | set rows =>
    rw [given] at ran
    obtain ⟨checked, ran, same⟩ := map_eq_ok ran
    cases same
    -- first every row, then the names together
    obtain ⟨each, looped, unique⟩ := bind_eq_ok ran
    simp only [uniqueUsernames] at unique
    split at unique
    next distinct =>
      cases unique
      refine ⟨distinct, forall_of_mapM_ok (fun given u done => ?_) looped⟩
      obtain ⟨_, _, done⟩ := bind_eq_ok done
      obtain ⟨_, _, done⟩ := bind_eq_ok done
      split at done
      · cases done
      next some_ =>
        cases done
        exact some_
    · cases unique

section Users

variable {hashApr1 : AuthUserIn → String} {existing rows : List AccessListAuth}
  {desired : List AuthUserIn}

/-- The rows are those of the payload, one an entry: the stored row where no password was
sent, and otherwise one with the new hash. -/
theorem replaceAuthUsers_ok (done : replaceAuthUsers hashApr1 existing desired = .ok rows) :
    ∃ f, rows = desired.map f ∧ ∀ u ∈ desired, (f u).username = u.username ∧
      if u.password.getD "" = "" then f u ∈ existing else (f u).passwordHash = hashApr1 u := by
  simp only [replaceAuthUsers] at done
  split at done
  · cases done
  next complete =>
    cases done
    refine ⟨_, rfl, fun u member => ?_⟩
    rw [not_not, List.filter_eq_nil_iff] at complete
    have named := complete u member
    simp only [decide_eq_true_eq, not_and, not_not] at named
    cases found : existing.find? (·.username = u.username) with
    | none =>
      -- a new name has a password, or the payload was refused
      have given : u.password.getD "" ≠ "" := by
        intro silent
        obtain ⟨old, inside, same⟩ := List.mem_map.mp (named silent)
        have fails := List.find?_eq_none.mp found old inside
        simp [same] at fails
      rw [if_neg given]
      exact ⟨rfl, rfl⟩
    | some user =>
      have same : user.username = u.username := by simpa using List.find?_some found
      by_cases silent : u.password.getD "" = ""
      · simp [silent, same, List.mem_of_find?_eq_some found]
      · simp [silent, same]

end Users

theorem Sequence.mem_number {α β : Type} {ids : Sequence} {row : Id → α → β} {given : List α}
    {b : β} (member : b ∈ ids.number row given) : ∃ id, ∃ a ∈ given, b = row id a := by
  obtain ⟨i, within, rfl⟩ := List.mem_mapIdx.mp member
  exact ⟨_, _, List.getElem_mem within, rfl⟩

theorem Sequence.map_number {α β γ : Type} {ids : Sequence} {row : Id → α → β} {given : List α}
    {g : β → γ} {g' : α → γ} (keeps : ∀ id a, g (row id a) = g' a) :
    (ids.number row given).map g = given.map g' := by
  apply List.ext_getElem
  · simp [Sequence.number]
  · intro i _ _
    simp [Sequence.number, keeps]

/-- Rows numbered in order are already sorted by id. -/
theorem sortedBy_number {α : Type} (ids : Sequence) (row : Id → α → AccessListClient)
    (keyed : ∀ id a, (row id a).id = id) (given : List α) :
    sortedBy (·.id) (ids.number row given) = ids.number row given := by
  have sorted : (ids.number row given).Pairwise fun a b => a.id ≤ b.id := by
    rw [List.pairwise_iff_getElem]
    intro i j below within order
    simp only [Sequence.number, List.getElem_mapIdx, keyed]
    exact (ids.increases order).le
  have : IsTrans AccessListClient fun a b => a.id ≤ b.id := ⟨fun _ _ _ => le_trans⟩
  have : Std.Total fun a b : AccessListClient => a.id ≤ b.id := ⟨fun a b => le_total a.id b.id⟩
  exact sorted.insertionSort_eq

section Replacement

variable {md5 : Md5} {salts : AuthUserIn → List.Vector (Fin 64) 8} {userIds ruleIds : Sequence}
  {body : AccessListUpdate}

/-- `hash_apr1` with the salt drawn for each user. -/
def saltedHash (md5 : Md5) (salts : AuthUserIn → List.Vector (Fin 64) 8) (u : AuthUserIn) :
    String :=
  hashApr1 md5 (salts u) (u.password.getD "")

/-- The users of a payload, and what became of each. -/
theorem users_replaced {list : AccessList} {kept : List AccessListAuth}
    {users : List AccessListAuthReplace} (sent : body.authUsers = .set users)
    (distinct : (users.map (·.username)).Nodup)
    (done : updatedAuthUsers (saltedHash md5 salts) list (body.changes userIds ruleIds) =
      .ok kept) :
    kept.map (·.username) = users.map (·.username) ∧
    ∀ u ∈ users, ∀ row ∈ kept, row.username = u.username →
      if u.password.getD "" = "" then row ∈ list.authUsers
      else verifyApr1 md5 (u.password.getD "") row.passwordHash = some true := by
  simp only [updatedAuthUsers, AccessListUpdate.changes, sent, Change.value?, Option.map_some]
    at done
  obtain ⟨f, rfl, each⟩ := replaceAuthUsers_ok done
  constructor
  · rw [List.map_map]
    have same := List.map_congr_left fun u member => (each u member).1
    exact same.trans (Sequence.map_number fun _ _ => rfl)
  · intro u member row inside named
    obtain ⟨v, position, rfl⟩ := List.mem_map.mp inside
    obtain ⟨id, other, belongs, rfl⟩ := Sequence.mem_number position
    obtain ⟨same, becomes⟩ := each _ position
    -- the row is the one that this entry became
    have own : other = u := List.inj_on_of_nodup_map distinct belongs member (same.symm.trans named)
    subst own
    split at becomes
    next silent =>
      rw [if_pos silent]
      exact becomes
    next given =>
      rw [if_neg given, becomes]
      exact verifyApr1_own ..

/-- The rows of the list, once the users could be replaced. -/
theorem replaces_apply {list : AccessList} {kept : List AccessListAuth}
    (valid : ∀ users, body.authUsers = .set users →
      (users.map (·.username)).Nodup ∧ ∀ u ∈ users, u.password ≠ some "")
    (done : updatedAuthUsers (saltedHash md5 salts) list (body.changes userIds ruleIds) =
      .ok kept) :
    body.Replaces md5 list ((body.changes userIds ruleIds).apply kept list) where
  usernames users sent := (users_replaced sent (valid users sent).1 done).1
  kept users sent u member silent row inside named := by
    have becomes := (users_replaced sent (valid users sent).1 done).2 u member row inside named
    rw [silent] at becomes
    exact becomes
  hashed users sent u member password given row inside named := by
    have becomes := (users_replaced sent (valid users sent).1 done).2 u member row inside named
    have some_ := (valid users sent).2 u member
    rw [given] at becomes some_
    exact (if_neg fun empty => some_ (congrArg some empty)).mp becomes
  rules rules sent := by
    simp only [accessListSpec, AccessListChanges.apply, AccessListUpdate.changes, sent,
      Change.value?, Option.map_some, Option.getD_some]
    rw [sortedBy_number _ _ fun _ _ => rfl]
    exact Sequence.map_number fun _ _ => rfl
  otherUsers absent := by
    simp only [updatedAuthUsers, AccessListUpdate.changes, absent, Option.map_none] at done
    cases done
    rfl
  otherRules absent := by
    simp only [AccessListChanges.apply, AccessListUpdate.changes, absent, Option.map_none,
      Option.getD_none]

/-- The call for a payload, from a session that has changed nothing. -/
def AccessListUpdate.outcome (md5 : Md5) (salts : AuthUserIn → List.Vector (Fin 64) 8)
    (userIds ruleIds : Sequence) (body : AccessListUpdate) (db : Database) (accessListId : Id) :
    Except ServiceError Unit × Transaction :=
  (Transaction.opened db).updateAccessList (saltedHash md5 salts) accessListId
    (body.changes userIds ruleIds)

/-- The call raises and leaves the stored content and the session as they were, or the
stored list is what the payload asks for. -/
theorem accessList_replaced (md5 : Md5) (salts : AuthUserIn → List.Vector (Fin 64) 8)
    (userIds ruleIds : Sequence) {library : SchemaLibrary} {raw body : AccessListUpdate}
    (accepted : raw.validated library = .ok body) (db : Database) (accessListId : Id) :
    (∃ error, body.outcome md5 salts userIds ruleIds db accessListId =
      (.error error, Transaction.opened db)) ∨
    ∃ before after db', body.outcome md5 salts userIds ruleIds db accessListId =
        (.ok (), Transaction.opened db') ∧
      db.accessList? accessListId = some before ∧ db'.accessList? accessListId = some after ∧
      body.Replaces md5 before after := by
  unfold AccessListUpdate.outcome
  rw [Transaction.updateAccessList_opened]
  cases outcome : updateAccessList (saltedHash md5 salts) db accessListId
      (body.changes userIds ruleIds) with
  | error e => exact Or.inl ⟨e, rfl⟩
  | ok db' =>
    obtain ⟨before, found, done⟩ := bind_eq_ok outcome
    obtain ⟨kept, users, done⟩ := bind_eq_ok done
    obtain ⟨rfl, _⟩ := commitOr_eq_ok done
    have there := orRaise_eq_ok found
    have after : (db.changeAccessList accessListId
        ((body.changes userIds ruleIds).apply kept)).accessList? accessListId =
        some ((body.changes userIds ruleIds).apply kept before) := by
      refine Eq.trans (b := Option.map _ (db.accessList? accessListId)) ?_ (congrArg _ there)
      exact find?_updateAt_self fun _ => rfl
    exact Or.inr ⟨before, _, _, rfl, there, after,
      replaces_apply (fun _ => users_of_validated accepted) users⟩

end Replacement

/-! ### One payload -/

/-- A user kept by name, a new one, and two rules. -/
def samplePayload : AccessListUpdate where
  authUsers := .set [{ username := "alice" }, { username := "bob", password := some "secret" }]
  clients := .set [{ address := "all", directive := .deny }]

def plainLibrary : SchemaLibrary where
  lower := id
  ipAddress _ := none
  ipNetwork _ := none
  urlsplit _ := none

def guardedStore : Database where
  accessLists := [{
    id := 1, name := "staff",
    authUsers := [{ id := 1, username := "alice", passwordHash := "$apr1$salt$hash" }] }]

def countingFrom (first : Id) : Sequence where
  nextval i := first + i
  increases _ _ below := Int.add_lt_add_left (Int.ofNat_lt.mpr below) first

theorem accessList_replaced_sample :
    samplePayload.validated plainLibrary = .ok samplePayload ∧
    (samplePayload.outcome zeroMd5 (fun _ => zeroDraws) (countingFrom 2) (countingFrom 1)
      guardedStore 1).1 = .ok () ∧
    ((∃ error, samplePayload.outcome zeroMd5 (fun _ => zeroDraws) (countingFrom 2)
        (countingFrom 1) guardedStore 1 = (.error error, Transaction.opened guardedStore)) ∨
      ∃ before after db', samplePayload.outcome zeroMd5 (fun _ => zeroDraws) (countingFrom 2)
          (countingFrom 1) guardedStore 1 = (.ok (), Transaction.opened db') ∧
        guardedStore.accessList? 1 = some before ∧ db'.accessList? 1 = some after ∧
        samplePayload.Replaces zeroMd5 before after) := by
  have valid : samplePayload.validated plainLibrary = .ok samplePayload := by decide +kernel
  exact ⟨valid, by decide +kernel, accessList_replaced zeroMd5 _ _ _ valid guardedStore 1⟩

end MegooPM
