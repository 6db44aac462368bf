import MegooPM.Api.AccessListUpdate
import MegooPM.Api.Addresses
import MegooPM.Lib.AddressRoundTrip
import MegooPM.Lib.Trimming
import Mathlib

/-!
# The access-list form

`components/access-lists`: the dialog edits one flat state and saves it in one request. The
form knows a stored user by the id of its row, and lets the password of such a row be blank;
the API knows a user by name. The two agree while a blank password stays with the name of a
stored user, and while what ECMAScript trims and what Python strips come to the same.
-/
namespace MegooPM

open Lib

/-! ### The state -/

inductive AccessListTab where
  | details | authorization | access
  deriving DecidableEq, Repr

/-- A basic-auth row; `id` marks a user that is stored. -/
structure AuthUserRow where
  id : Option Id := none
  username : String
  password : String
  deriving DecidableEq, Repr

structure ClientRow where
  id : Option Id := none
  address : String
  directive : AccessListDirective
  deriving DecidableEq, Repr

structure AccessListFormState where
  name : String
  satisfyAny : Bool
  passAuth : Bool
  users : List AuthUserRow
  clients : List ClientRow
  deriving DecidableEq, Repr

def blankUserRow : AuthUserRow where
  username := ""
  password := ""

def blankClientRow : ClientRow where
  address := ""
  directive := .allow

def emptyFormState : AccessListFormState where
  name := ""
  satisfyAny := false
  passAuth := false
  users := [blankUserRow]
  clients := [blankClientRow]

/-! ### What the API returns -/

structure AccessListAuthRead where
  id : Id
  username : String
  deriving DecidableEq, Repr

structure AccessListClientRead where
  id : Id
  address : String
  directive : AccessListDirective
  deriving DecidableEq, Repr

/-- The client's type lets the collections be left out. -/
structure AccessListRead where
  id : Id
  name : String
  satisfyAny : Option Bool
  passAuth : Option Bool
  authUsers : Option (List AccessListAuthRead)
  clientRules : Option (List AccessListClientRead)
  deriving DecidableEq, Repr

/-- A stored list, read with its rows in the order in which the session has them. -/
def AccessList.read (a : AccessList) : AccessListRead where
  id := a.id
  name := a.name
  satisfyAny := some a.satisfyAny
  passAuth := some a.passAuth
  authUsers := some (a.authUsers.map fun u => { id := u.id, username := u.username })
  clientRules := some (a.clientRules.map fun c =>
    { id := c.id, address := c.address, directive := c.directive })

def stateFromList : Option AccessListRead → AccessListFormState
  | none => emptyFormState
  | some list => {
      name := list.name
      satisfyAny := list.satisfyAny.getD false
      passAuth := list.passAuth.getD false
      -- credentials are never returned, so no password is filled in
      users := (list.authUsers.getD []).map fun u =>
        { id := some u.id, username := u.username, password := "" }
      clients := (list.clientRules.getD []).map fun c =>
        { id := some c.id, address := c.address, directive := c.directive } }

/-! ### Editing -/

/-- What the controls of the dialog do. -/
inductive FormEdit where
  | name (text : String)
  | satisfyAny (checked : Bool)
  | passAuth (checked : Bool)
  | username (index : Nat) (text : String)
  | password (index : Nat) (text : String)
  | removeUser (index : Nat)
  | addUser
  | address (index : Nat) (text : String)
  | directive (index : Nat) (chosen : AccessListDirective)
  | removeRule (index : Nat)
  | addRule
  deriving DecidableEq, Repr

/-- `rows.map((row, i) => i === index ? { ...row, ...changes } : row)` -/
def updateRow {α : Type} (index : Nat) (changes : α → α) (rows : List α) : List α :=
  rows.mapIdx fun i row => if i = index then changes row else row

def FormEdit.apply (form : AccessListFormState) : FormEdit → AccessListFormState
  | .name text => { form with name := text }
  | .satisfyAny checked => { form with satisfyAny := checked }
  | .passAuth checked => { form with passAuth := checked }
  | .username index text =>
    { form with users := updateRow index (fun row => { row with username := text }) form.users }
  | .password index text =>
    { form with users := updateRow index (fun row => { row with password := text }) form.users }
  | .removeUser index => { form with users := form.users.eraseIdx index }
  | .addUser => { form with users := form.users ++ [blankUserRow] }
  | .address index text =>
    { form with clients := updateRow index (fun row => { row with address := text }) form.clients }
  | .directive index chosen =>
    { form with
      clients := updateRow index (fun row => { row with directive := chosen }) form.clients }
  | .removeRule index => { form with clients := form.clients.eraseIdx index }
  | .addRule => { form with clients := form.clients ++ [blankClientRow] }

/-- The form of a stored list before any edit. -/
def openedForm (list : AccessList) : AccessListFormState :=
  stateFromList (some list.read)

/-- The form after some edits. -/
def edited (list : AccessList) (edits : List FormEdit) : AccessListFormState :=
  edits.foldl FormEdit.apply (openedForm list)

/-! ### Checking and submitting -/

/-- Only a row without an id can be one that was started and abandoned. -/
def isBlankUser (row : AuthUserRow) : Bool :=
  row.id = none && trim row.username = "" && row.password = ""

def isBlankClient (row : ClientRow) : Bool :=
  row.id = none && trim row.address = "" && row.directive = .allow

def submittableUsers (form : AccessListFormState) : List AuthUserRow :=
  form.users.filter (!isBlankUser ·)

def submittableClients (form : AccessListFormState) : List ClientRow :=
  form.clients.filter (!isBlankClient ·)

/-- Only `A` and `L` have the lower case of `all`, so that the case of other characters does
not matter. -/
def normalizeAddress (input : String) : String :=
  let trimmed := trim input
  if trimmed.toLower = "all" then "all" else trimmed

structure FormProblem where
  tab : AccessListTab
  message : String
  deriving DecidableEq, Repr

/-- The loop over the users; `seen` holds the names so far. -/
def usersProblem (seen : List String) : List AuthUserRow → Option FormProblem
  | [] => none
  | user :: rest =>
    let username := trim user.username
    if username = "" then some ⟨.authorization, "Enter a username for every user."⟩
    else if user.id = none ∧ user.password = "" then
      some ⟨.authorization, "Enter a password for “" ++ username ++ "”."⟩
    else if username ∈ seen then
      some ⟨.authorization, "“" ++ username ++ "” is listed twice — usernames must be unique."⟩
    else usersProblem (username :: seen) rest

def rulesProblem : List ClientRow → Option FormProblem
  | [] => none
  | rule :: rest =>
    if normalizeAddress rule.address = "" then
      some ⟨.access, "Enter an IP, CIDR, or “all” for every rule."⟩
    else rulesProblem rest

def validateAccessListForm (form : AccessListFormState) : Option FormProblem :=
  if trim form.name = "" then some ⟨.details, "Enter a name for the access list."⟩
  else
    match usersProblem [] (submittableUsers form) with
    | some problem => some problem
    | none => rulesProblem (submittableClients form)

/-- One user of the payload: a blank password is left out. -/
def userPayload (row : AuthUserRow) : AccessListAuthReplace where
  username := trim row.username
  password := if row.password = "" then none else some row.password

def clientPayload (form : AccessListFormState) : List AccessListClientCreate :=
  (submittableClients form).map fun c =>
    { address := normalizeAddress c.address, directive := c.directive }

def buildUpdatePayload (form : AccessListFormState) : AccessListUpdate where
  name := .set (trim form.name)
  satisfyAny := .set form.satisfyAny
  passAuth := .set form.passAuth
  authUsers := .set ((submittableUsers form).map userPayload)
  clients := .set (clientPayload form)

/-! ### The API's side -/

/-- The validators' library, as far as an access list needs it: a text is lowered only to be
compared with `all`, and no URL is split. -/
def addressLibrary : SchemaLibrary :=
  pythonLibrary String.toLower fun _ => none

inductive SaveError where
  | schema (error : SchemaError)
  | service (error : ServiceError)
  deriving DecidableEq, Repr

/-- The users of a payload, each of which passed its own checks: `_unique_usernames`, then
`_replace_auth_users`. -/
def replaceUsers (hashApr1 : AuthUserIn → String) (userIds : Sequence)
    (existing : List AccessListAuth) (users : List AccessListAuthReplace) :
    Except SaveError (List AccessListAuth) := do
  let users ← (uniqueUsernames users).mapError SaveError.schema
  (replaceAuthUsers hashApr1 existing (userIds.number (fun id u =>
    { id, username := u.username, password := u.password }) users)).mapError SaveError.service

/-- The list that a request leaves to be committed. -/
def AccessListUpdate.applied (hashApr1 : AuthUserIn → String) (userIds ruleIds : Sequence)
    (body : AccessListUpdate) (list : AccessList) : Except SaveError AccessList := do
  let body ← (body.validated addressLibrary).mapError SaveError.schema
  let changes := body.changes userIds ruleIds
  let kept ← (updatedAuthUsers hashApr1 list changes).mapError SaveError.service
  return changes.apply kept list

/-- `handleSubmit`: a form with a problem sends nothing. -/
def handleSubmit (hashApr1 : AuthUserIn → String) (userIds ruleIds : Sequence)
    (list : AccessList) (form : AccessListFormState) : Option (Except SaveError AccessList) :=
  match validateAccessListForm form with
  | some _ => none
  | none => some ((buildUpdatePayload form).applied hashApr1 userIds ruleIds list)

/-! ### What the form checks -/

theorem usersProblem_eq_none_iff {seen : List String} {rows : List AuthUserRow} :
    usersProblem seen rows = none ↔
      (∀ row ∈ rows, trim row.username ≠ "" ∧ ¬(row.id = none ∧ row.password = "")) ∧
      (rows.map (trim ·.username)).Nodup ∧ ∀ row ∈ rows, trim row.username ∉ seen := by
  induction rows generalizing seen with
  | nil => simp [usersProblem]
  | cons row rest ih =>
    simp only [usersProblem, List.map_cons, List.nodup_cons, List.forall_mem_cons]
    by_cases unnamed : trim row.username = ""
    · rw [if_pos unnamed]
      exact iff_of_false (Option.some_ne_none _) fun good => good.1.1.1 unnamed
    rw [if_neg unnamed]
    by_cases silent : row.id = none ∧ row.password = ""
    · rw [if_pos silent]
      exact iff_of_false (Option.some_ne_none _) fun good => good.1.1.2 silent
    rw [if_neg silent]
    by_cases twice : trim row.username ∈ seen
    · rw [if_pos twice]
      exact iff_of_false (Option.some_ne_none _) fun good => good.2.2.1 twice
    rw [if_neg twice, ih]
    -- a later row has the name exactly if it is seen again
    have later : (∀ other ∈ rest, trim other.username ∉ trim row.username :: seen) ↔
        trim row.username ∉ rest.map (trim ·.username) ∧
          ∀ other ∈ rest, trim other.username ∉ seen := by
      simp only [List.mem_cons, not_or, List.mem_map, not_exists, not_and]
      exact forall₂_and
    rw [later]
    constructor
    · rintro ⟨rows, distinct, fresh, others⟩
      exact ⟨⟨⟨unnamed, silent⟩, rows⟩, ⟨fresh, distinct⟩, twice, others⟩
    · rintro ⟨⟨_, rows⟩, ⟨fresh, distinct⟩, _, others⟩
      exact ⟨rows, distinct, fresh, others⟩

theorem rulesProblem_eq_none_iff {rules : List ClientRow} :
    rulesProblem rules = none ↔ ∀ rule ∈ rules, normalizeAddress rule.address ≠ "" := by
  induction rules with
  | nil => simp [rulesProblem]
  | cons rule rest ih =>
    rw [rulesProblem, List.forall_mem_cons]
    by_cases empty : normalizeAddress rule.address = ""
    · rw [if_pos empty]
      exact iff_of_false (Option.some_ne_none _) fun good => good.1 empty
    · rw [if_neg empty, ih]
      exact (and_iff_right empty).symm

/-- A form without a problem. -/
theorem validateAccessListForm_eq_none_iff {form : AccessListFormState} :
    validateAccessListForm form = none ↔ trim form.name ≠ "" ∧
      usersProblem [] (submittableUsers form) = none ∧
      rulesProblem (submittableClients form) = none := by
  unfold validateAccessListForm
  by_cases unnamed : trim form.name = ""
  · rw [if_pos unnamed]
    exact iff_of_false (Option.some_ne_none _) fun good => good.1 unnamed
  · rw [if_neg unnamed]
    cases usersProblem [] (submittableUsers form) with
    | some problem => exact iff_of_false (Option.some_ne_none _) fun good => by cases good.2.1
    | none => exact ⟨fun good => ⟨unnamed, rfl, good⟩, fun good => good.2.2⟩

/-! ### What the API makes of the users -/

/-- The name the API has for a row: what the form trims and Python then strips. -/
def apiName (row : AuthUserRow) : String :=
  stripped (trim row.username)

theorem user_of_validated {given user : AccessListAuthReplace}
    (accepted : given.validated = .ok user) :
    user = { given with username := stripped given.username } := by
  obtain ⟨same, short, accepted⟩ := bind_eq_ok accepted
  obtain ⟨name, checked, accepted⟩ := bind_eq_ok accepted
  have kept : same = given.username := by
    simp only [shortText] at short
    split at short
    · cases short
    · split at short
      · cases short
      · cases short
        rfl
  have named : name = stripped same := by
    simp only [validateUsername] at checked
    split at checked
    · cases checked
    · split at checked
      · cases checked
      · cases checked
        rfl
  split at accepted
  · cases accepted
  · cases accepted
    rw [named, kept]

theorem Sequence.number_mem {α β : Type} (ids : Sequence) (row : Id → α → β) {given : List α}
    {a : α} (member : a ∈ given) : ∃ id, row id a ∈ ids.number row given := by
  obtain ⟨i, within, rfl⟩ := List.mem_iff_getElem.mp member
  exact ⟨ids.nextval i, List.mem_mapIdx.mpr ⟨i, within, rfl⟩⟩

/-- No name twice, and none sent alone that is not stored. -/
theorem replaceUsers_ok_iff {hashApr1 : AuthUserIn → String} {userIds : Sequence}
    {existing : List AccessListAuth} {users : List AccessListAuthReplace} :
    (∃ rows, replaceUsers hashApr1 userIds existing users = .ok rows) ↔
      (users.map (·.username)).Nodup ∧
        ∀ u ∈ users, u.password.getD "" = "" → u.username ∈ existing.map (·.username) := by
  have known : (∃ rows, replaceAuthUsers hashApr1 existing (userIds.number (fun id u =>
        { id, username := u.username, password := u.password }) users) = .ok rows) ↔
      ∀ u ∈ users, u.password.getD "" = "" → u.username ∈ existing.map (·.username) := by
    unfold replaceAuthUsers
    dsimp only
    split
    next some_ =>
      refine iff_of_false (fun done => by cases done.choose_spec) fun named => some_ ?_
      rw [List.filter_eq_nil_iff]
      intro spec member missing
      obtain ⟨id, u, listed, rfl⟩ := Sequence.mem_number member
      have absent := of_decide_eq_true missing
      exact absent.2 (named u listed absent.1)
    next none_ =>
      refine iff_of_true ⟨_, rfl⟩ fun u member silent => ?_
      rw [not_not, List.filter_eq_nil_iff] at none_
      obtain ⟨id, numbered⟩ := Sequence.number_mem userIds (fun id u =>
        (⟨id, u.username, u.password⟩ : AuthUserIn)) member
      have named := none_ _ numbered
      rw [decide_eq_true_eq, not_and, not_not] at named
      exact named silent
  by_cases distinct : (users.map (·.username)).Nodup
  · rw [and_iff_right distinct, ← known]
    unfold replaceUsers uniqueUsernames
    rw [if_pos distinct]
    exact exists_congr fun rows => mapError_eq_ok_iff
  · refine iff_of_false (fun done => ?_) fun both => distinct both.1
    obtain ⟨rows, done⟩ := done
    obtain ⟨same, unique, _⟩ := bind_eq_ok done
    unfold uniqueUsernames at unique
    rw [if_neg distinct] at unique
    cases unique

/-- The names of the submitted rows as the API has them: each once, and one that comes without
a password is the name of a stored user. -/
structure NamesKnown (list : AccessList) (form : AccessListFormState) : Prop where
  distinct : ((submittableUsers form).map apiName).Nodup
  stored : ∀ row ∈ submittableUsers form, row.password = "" →
    apiName row ∈ list.authUsers.map (·.username)

/-- A form without a problem has its users accepted: the users that passed their own checks
replace the stored ones. -/
def UsersAccepted (hashApr1 : AuthUserIn → String) (userIds : Sequence) (list : AccessList)
    (form : AccessListFormState) : Prop :=
  validateAccessListForm form = none →
    ∀ users, ((submittableUsers form).map userPayload).mapM (·.validated) = .ok users →
      ∃ rows, replaceUsers hashApr1 userIds list.authUsers users = .ok rows

/-- Every name passes the API's check of it. -/
def UsersPass (form : AccessListFormState) : Prop :=
  ∀ row ∈ submittableUsers form, ∃ user, (userPayload row).validated = .ok user

/-- The users of a form once each has passed its own checks. -/
def apiUsers (form : AccessListFormState) : List AccessListAuthReplace :=
  (submittableUsers form).map fun row => { userPayload row with username := apiName row }

theorem apiUsers_of_checked {form : AccessListFormState} {users : List AccessListAuthReplace}
    (ran : ((submittableUsers form).map userPayload).mapM (·.validated) = .ok users) :
    users = apiUsers form := by
  rw [eq_map_of_mapM_ok (fun _ _ => user_of_validated) ran, List.map_map]
  rfl

theorem checked_of_usersPass {form : AccessListFormState} (pass : UsersPass form) :
    ((submittableUsers form).map userPayload).mapM (·.validated) = .ok (apiUsers form) := by
  rw [List.mapM_map]
  refine mapM_eq_ok fun row listed => ?_
  obtain ⟨user, done⟩ := pass row listed
  rw [Function.comp, done, user_of_validated done]
  rfl

theorem userPayload_silent (row : AuthUserRow) :
    (userPayload row).password.getD "" = "" ↔ row.password = "" := by
  unfold userPayload
  by_cases none_ : row.password = ""
  · simp [none_]
  · simp [none_]

theorem replaceUsers_apiUsers_iff {hashApr1 : AuthUserIn → String} {userIds : Sequence}
    {list : AccessList} {form : AccessListFormState} :
    (∃ rows, replaceUsers hashApr1 userIds list.authUsers (apiUsers form) = .ok rows) ↔
      NamesKnown list form := by
  rw [replaceUsers_ok_iff, apiUsers, List.map_map, List.forall_mem_map]
  constructor
  · rintro ⟨distinct, stored⟩
    exact ⟨distinct, fun row member silent =>
      stored row member ((userPayload_silent row).mpr silent)⟩
  · rintro ⟨distinct, stored⟩
    exact ⟨distinct, fun row member silent =>
      stored row member ((userPayload_silent row).mp silent)⟩

theorem usersAccepted_iff {hashApr1 : AuthUserIn → String} {userIds : Sequence}
    {list : AccessList} {form : AccessListFormState} :
    UsersAccepted hashApr1 userIds list form ↔
      (validateAccessListForm form = none → UsersPass form → NamesKnown list form) := by
  refine forall_congr' fun _ => ?_
  constructor
  · intro accepted pass
    exact replaceUsers_apiUsers_iff.mp (accepted _ (checked_of_usersPass pass))
  · intro agrees users ran
    rw [apiUsers_of_checked ran]
    refine replaceUsers_apiUsers_iff.mpr (agrees fun row member => ?_)
    exact ok_of_mapM_ok ran _ (List.mem_map_of_mem member)

/-! ### Edits -/

/-- The edit types into the name of a stored user. -/
def FormEdit.Renames (form : AccessListFormState) : FormEdit → Prop
  | .username index _ => ∃ row, form.users[index]? = some row ∧ row.id ≠ none
  | _ => False

/-- A form reached by edits none of which renames a stored user. -/
inductive Unrenamed (list : AccessList) : AccessListFormState → Prop where
  | opened : Unrenamed list (openedForm list)
  | step {form : AccessListFormState} {edit : FormEdit} (reached : Unrenamed list form)
      (apart : ¬ edit.Renames form) : Unrenamed list (edit.apply form)

/-- Every row with an id has the name of a stored user. -/
def KeepsNames (list : AccessList) (form : AccessListFormState) : Prop :=
  ∀ row ∈ form.users, row.id ≠ none → row.username ∈ list.authUsers.map (·.username)

theorem mem_updateRow {α : Type} {index : Nat} {changes : α → α} {rows : List α} {row : α}
    (member : row ∈ updateRow index changes rows) :
    row ∈ rows ∨ ∃ old, rows[index]? = some old ∧ row = changes old := by
  obtain ⟨i, within, rfl⟩ := List.mem_mapIdx.mp member
  by_cases here : i = index
  · rw [if_pos here]
    exact Or.inr ⟨rows[i], by rw [← here, List.getElem?_eq_getElem within], rfl⟩
  · rw [if_neg here]
    exact Or.inl (List.getElem_mem within)

theorem keepsNames_step {list : AccessList} {form : AccessListFormState} {edit : FormEdit}
    (keeps : KeepsNames list form) (apart : ¬ edit.Renames form) :
    KeepsNames list (edit.apply form) := by
  intro row member stored
  cases edit with
  | username index text =>
    rcases mem_updateRow member with same | ⟨old, there, rfl⟩
    · exact keeps row same stored
    · exact absurd ⟨old, there, stored⟩ apart
  | password index text =>
    rcases mem_updateRow member with same | ⟨old, there, rfl⟩
    · exact keeps row same stored
    · exact keeps old (List.mem_of_getElem? there) stored
  | removeUser index => exact keeps row (List.mem_of_mem_eraseIdx member) stored
  | addUser =>
    rcases List.mem_append.mp member with same | new
    · exact keeps row same stored
    · rw [List.mem_singleton.mp new] at stored
      exact absurd rfl stored
  | name | satisfyAny | passAuth | address | directive | removeRule | addRule =>
    exact keeps row member stored

/-- While no stored user is renamed, the rows with a blank password keep stored names. -/
theorem keepsNames_of_unrenamed {list : AccessList} {form : AccessListFormState}
    (reached : Unrenamed list form) : KeepsNames list form := by
  induction reached with
  | opened =>
    intro row member _
    obtain ⟨u, listed, rfl⟩ := List.mem_map.mp member
    obtain ⟨user, inside, rfl⟩ := List.mem_map.mp listed
    exact List.mem_map_of_mem inside
  | step _ apart ih => exact keepsNames_step ih apart

end MegooPM
