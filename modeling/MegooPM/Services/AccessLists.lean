import MegooPM.Services.Session

/-!
# Access lists

`services/access_list.py`: lists, their basic-auth users and their client rules.
Passwords arrive in the clear and are stored as `hash_apr1` returns them.
-/
namespace MegooPM

open Lib

variable {db db' : Database}

def Database.addAccessList (db : Database) (list : AccessList) : Database :=
  { db with accessLists := db.accessLists ++ [list] }

def Database.changeAccessList (db : Database) (accessListId : Id) (f : AccessList → AccessList) :
    Database :=
  { db with accessLists := updateAt AccessList.id accessListId f db.accessLists }

/-- The delete, with the `ON DELETE SET NULL` of the proxy hosts. -/
def Database.dropAccessList (db : Database) (accessListId : Id) : Database :=
  { db with
    accessLists := removeAt AccessList.id accessListId db.accessLists
    proxyHosts := db.proxyHosts.map fun h =>
      if h.accessListId = some accessListId then { h with accessListId := none } else h }

/-- A basic-auth user of a payload. -/
structure AuthUserIn where
  id : Id
  username : String
  password : Option String
  deriving DecidableEq, Repr

/-- The hash of the password, whoever sets it. -/
def AuthUserIn.hashed (hashApr1 : String → String) (user : AuthUserIn) : String :=
  hashApr1 (user.password.getD "")

section Hashing

-- `hash_apr1` of the password of a user, with the salt it draws
variable (hashApr1 : AuthUserIn → String)

def hashedUser (user : AuthUserIn) : AccessListAuth where
  id := user.id
  username := user.username
  passwordHash := hashApr1 user

/-- Create a list, optionally seeding users and rules inline. -/
def createAccessList (db : Database) (list : AccessList) (authUsers : List AuthUserIn) :
    Except ServiceError Database :=
  commitOr (db.addAccessList { list with authUsers := authUsers.map (hashedUser hashApr1) }) true
    .duplicateUsername

theorem createAccessList_ok {list : AccessList} {users : List AuthUserIn}
    (done : createAccessList hashApr1 db list users = .ok db') :
    ∃ row, db' = db.addAccessList row ∧ db'.Constraints :=
  ⟨_, commitOr_eq_ok done⟩

/-- The users of a list made exactly the payload: matched by username, an entry without a
password keeps the stored hash. -/
def replaceAuthUsers (existing : List AccessListAuth) (desired : List AuthUserIn) :
    Except ServiceError (List AccessListAuth) :=
  let missing := desired.filter fun spec =>
    spec.password.getD "" = "" ∧ spec.username ∉ existing.map (·.username)
  if missing ≠ [] then
    .error (.missingPassword (", ".intercalate (missing.map (·.username))))
  else
    .ok (desired.map fun spec =>
      match existing.find? (·.username = spec.username) with
      | none => hashedUser hashApr1 spec
      | some user =>
        if spec.password.getD "" = "" then user
        else { user with passwordHash := hashApr1 spec })

/-- Fields of an `AccessListUpdate`; the collections are full replacements. -/
structure AccessListChanges where
  name : Change String := .unset
  satisfyAny : Change Bool := .unset
  passAuth : Change Bool := .unset
  authUsers : Option (List AuthUserIn) := none
  clients : Option (List AccessListClient) := none
  deriving DecidableEq, Repr

namespace AccessListChanges

def apply (c : AccessListChanges) (authUsers : List AccessListAuth) (a : AccessList) : AccessList :=
  { a with
    name := c.name.overValue a.name
    satisfyAny := c.satisfyAny.overValue a.satisfyAny
    passAuth := c.passAuth.overValue a.passAuth
    authUsers := authUsers
    clientRules := c.clients.getD a.clientRules }

def notNull (c : AccessListChanges) : Bool :=
  c.name.notNull && c.satisfyAny.notNull && c.passAuth.notNull

end AccessListChanges

/-- The users a list has after an update. -/
def updatedAuthUsers (list : AccessList) (changes : AccessListChanges) :
    Except ServiceError (List AccessListAuth) :=
  match changes.authUsers with
  | none => .ok list.authUsers
  | some desired => replaceAuthUsers hashApr1 list.authUsers desired

def updateAccessList (db : Database) (accessListId : Id) (changes : AccessListChanges) :
    Except ServiceError Database := do
  let list ← orRaise (db.accessList? accessListId) (ServiceError.notFound .accessList accessListId)
  let authUsers ← updatedAuthUsers hashApr1 list changes
  commitOr (db.changeAccessList accessListId (changes.apply authUsers)) changes.notNull
    .duplicateUsername

theorem updateAccessList_ok {i : Id} {c : AccessListChanges}
    (done : updateAccessList hashApr1 db i c = .ok db') :
    ∃ f, db' = db.changeAccessList i f ∧ db'.Constraints := by
  obtain ⟨_, _, done⟩ := bind_eq_ok done
  obtain ⟨_, _, done⟩ := bind_eq_ok done
  exact ⟨_, commitOr_eq_ok done⟩

def deleteAccessList (db : Database) (accessListId : Id) : Except ServiceError Database := do
  let _ ← orRaise (db.accessList? accessListId) (ServiceError.notFound .accessList accessListId)
  commit (db.dropAccessList accessListId) true

omit hashApr1 in
theorem deleteAccessList_ok {i : Id} (done : deleteAccessList db i = .ok db') :
    db' = db.dropAccessList i ∧ db'.Constraints := by
  obtain ⟨_, _, done⟩ := bind_eq_ok done
  exact commit_eq_ok done

/-! ### Basic-auth users -/

def addAuthUser (db : Database) (accessListId : Id) (user : AuthUserIn) :
    Except ServiceError Database := do
  let _ ← orRaise (db.accessList? accessListId) (ServiceError.notFound .accessList accessListId)
  commitOr (db.changeAccessList accessListId fun a =>
      { a with authUsers := a.authUsers ++ [hashedUser hashApr1 user] }) true .duplicateUsername

theorem addAuthUser_ok {i : Id} {user : AuthUserIn}
    (done : addAuthUser hashApr1 db i user = .ok db') :
    ∃ f, db' = db.changeAccessList i f ∧ db'.Constraints := by
  obtain ⟨_, _, done⟩ := bind_eq_ok done
  exact ⟨_, commitOr_eq_ok done⟩

end Hashing

def getAuthUser (db : Database) (accessListId userId : Id) : Option AccessListAuth :=
  (db.accessList? accessListId).bind fun a => a.authUsers.find? (·.id = userId)

def setAuthPassword (hashApr1 : String → String) (db : Database) (accessListId userId : Id)
    (password : String) : Except ServiceError Database := do
  let _ ← orRaise (getAuthUser db accessListId userId) (ServiceError.notFound .authUser userId)
  commit (db.changeAccessList accessListId fun a =>
    { a with
      authUsers := updateAt AccessListAuth.id userId
        (fun u => { u with passwordHash := hashApr1 password }) a.authUsers }) true

theorem setAuthPassword_ok {hashApr1 : String → String} {i u : Id} {password : String}
    (done : setAuthPassword hashApr1 db i u password = .ok db') :
    ∃ f, db' = db.changeAccessList i f ∧ db'.Constraints := by
  obtain ⟨_, _, done⟩ := bind_eq_ok done
  exact ⟨_, commit_eq_ok done⟩

def removeAuthUser (db : Database) (accessListId userId : Id) : Except ServiceError Database := do
  let _ ← orRaise (getAuthUser db accessListId userId) (ServiceError.notFound .authUser userId)
  commit (db.changeAccessList accessListId fun a =>
    { a with authUsers := removeAt AccessListAuth.id userId a.authUsers }) true

theorem removeAuthUser_ok {i u : Id} (done : removeAuthUser db i u = .ok db') :
    ∃ f, db' = db.changeAccessList i f ∧ db'.Constraints := by
  obtain ⟨_, _, done⟩ := bind_eq_ok done
  exact ⟨_, commit_eq_ok done⟩

/-! ### Client rules -/

def addClientRule (db : Database) (accessListId : Id) (rule : AccessListClient) :
    Except ServiceError Database := do
  let _ ← orRaise (db.accessList? accessListId) (ServiceError.notFound .accessList accessListId)
  commit (db.changeAccessList accessListId fun a =>
    { a with clientRules := a.clientRules ++ [rule] }) true

theorem addClientRule_ok {i : Id} {rule : AccessListClient}
    (done : addClientRule db i rule = .ok db') :
    ∃ f, db' = db.changeAccessList i f ∧ db'.Constraints := by
  obtain ⟨_, _, done⟩ := bind_eq_ok done
  exact ⟨_, commit_eq_ok done⟩

def getClientRule (db : Database) (accessListId ruleId : Id) : Option AccessListClient :=
  (db.accessList? accessListId).bind fun a => a.clientRules.find? (·.id = ruleId)

/-- Fields of an `AccessListClientUpdate`. -/
structure ClientRuleChanges where
  address : Change String := .unset
  directive : Change AccessListDirective := .unset
  deriving DecidableEq, Repr

def ClientRuleChanges.apply (c : ClientRuleChanges) (rule : AccessListClient) : AccessListClient :=
  { rule with
    address := c.address.overValue rule.address
    directive := c.directive.overValue rule.directive }

def updateClientRule (db : Database) (accessListId ruleId : Id) (changes : ClientRuleChanges) :
    Except ServiceError Database := do
  let _ ← orRaise (getClientRule db accessListId ruleId) (ServiceError.notFound .clientRule ruleId)
  commit (db.changeAccessList accessListId fun a =>
      { a with clientRules := updateAt AccessListClient.id ruleId changes.apply a.clientRules })
    (changes.address.notNull && changes.directive.notNull)

theorem updateClientRule_ok {i r : Id} {c : ClientRuleChanges}
    (done : updateClientRule db i r c = .ok db') :
    ∃ f, db' = db.changeAccessList i f ∧ db'.Constraints := by
  obtain ⟨_, _, done⟩ := bind_eq_ok done
  exact ⟨_, commit_eq_ok done⟩

def removeClientRule (db : Database) (accessListId ruleId : Id) : Except ServiceError Database := do
  let _ ← orRaise (getClientRule db accessListId ruleId) (ServiceError.notFound .clientRule ruleId)
  commit (db.changeAccessList accessListId fun a =>
    { a with clientRules := removeAt AccessListClient.id ruleId a.clientRules }) true

theorem removeClientRule_ok {i r : Id} (done : removeClientRule db i r = .ok db') :
    ∃ f, db' = db.changeAccessList i f ∧ db'.Constraints := by
  obtain ⟨_, _, done⟩ := bind_eq_ok done
  exact ⟨_, commit_eq_ok done⟩

end MegooPM
