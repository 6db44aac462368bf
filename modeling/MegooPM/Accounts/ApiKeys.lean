import MegooPM.Accounts.Tables
import MegooPM.Lib.Text
import MegooPM.Lib.Transition

/-!
# API keys

`services/api_keys.py` with the dependencies of `api/deps.py` that read a bearer credential, and
the key routes of `routes/users.py`. Any number of requests run at once, one statement at a time;
between two statements of one, the others commit.
-/
namespace MegooPM

open Lib

/-! ### Rows -/

/-- `TOKEN_PREFIX` -/
def keyTokenPrefix : String := "mgm_"

/-- `PREFIX_LEN` -/
def keyPrefixLen : Nat := 12

/-- `MAX_KEYS` -/
def maxKeys : Nat := 20

/-- `TOUCH_INTERVAL`, in microseconds. -/
def touchInterval : Nat := 5 * 60 * 1000000

/-- A row of `api_key`; the token itself is in none. -/
structure ApiKey where
  id : Id
  userId : Id
  name : String
  tokenPrefix : String
  tokenHash : String
  enabled : Bool := true
  expiresAt : Option Instant := none
  lastUsedAt : Option Instant := none
  deriving DecidableEq, Repr

/-- `token[:PREFIX_LEN]` -/
def keyPrefix (token : String) : String :=
  String.ofList (token.toList.take keyPrefixLen)

/-- What the checks take from libraries. -/
structure KeyEnv where
  /-- SHA-256 hex of the bytes of a token -/
  sha256 : String → String
  /-- `decode_token` of an access token at some time, and `int` of its subject -/
  accessUser : Instant → String → Option Id

inductive KeyRejected where
  | unknownKey | keyDisabled | keyExpired
  deriving DecidableEq, Repr

/-- `authenticate` -/
def authenticateKey (env : KeyEnv) (keys : List ApiKey) (token : String) (now : Instant) :
    Except KeyRejected ApiKey :=
  match keys.find? (·.tokenPrefix = keyPrefix token) with
  | none => .error .unknownKey
  | some row =>
    if row.tokenHash ≠ env.sha256 token then .error .unknownKey
    else if row.enabled = false then .error .keyDisabled
    else if row.expiresAt.any (· ≤ now) then .error .keyExpired
    else .ok row

/-- Whether `touch` writes. -/
def ApiKey.touches (key : ApiKey) (now : Instant) : Bool :=
  key.lastUsedAt.all fun last => touchInterval ≤ now - last

def setKey (id : Id) (change : ApiKey → ApiKey) (keys : List ApiKey) : List ApiKey :=
  keys.map fun key => if key.id = id then change key else key

/-! ### Requests -/

/-- What a route does behind its dependencies. -/
inductive KeyAction where
  /-- any route that takes a key as well -/
  | other
  | createKey (name : String) (expiresAt : Option Instant)
  | updateKey (keyId : Id) (enabled : Bool)
  | deleteKey (keyId : Id)
  deriving DecidableEq, Repr

/-- How far a request is. -/
inductive KeyPhase where
  | arrived
  /-- `authenticate` has returned this row -/
  | keyRead (key : ApiKey)
  /-- its owner is active -/
  | touching (key : ApiKey)
  /-- the access token is valid -/
  | tokenRead (userId : Id)
  /-- `get_current_user` has returned; `viaKey` is what `current_api_key` tells -/
  | admitted (userId : Id) (viaKey : Bool)
  /-- `create` is below the limit; `retried` is its second attempt -/
  | minting (userId : Id) (retried : Bool)
  /-- `get_owned` has returned this row -/
  | owned (key : ApiKey)
  | ended
  deriving DecidableEq, Repr

structure KeyRequest where
  token : String
  action : KeyAction
  phase : KeyPhase := .arrived
  deriving DecidableEq, Repr

inductive KeyEvent where
  /-- a key is in the table; `bearer` is the credential of the request -/
  | minted (keyId userId : Id) (token : String) (expiresAt : Option Instant) (bearer : String)
  | toggled (keyId : Id) (enabled : Bool) (bearer : String)
  | deleted (keyId : Id) (bearer : String)
  /-- `authenticate` returns this key to the request with this number, at this time -/
  | checked (request : Nat) (keyId : Id) (now : Instant) (bearer : String)
  /-- `_user_from_key` returns, in the request with this number -/
  | letIn (request : Nat) (keyId userId : Id) (bearer : String)
  deriving DecidableEq, Repr

/-- The users, the keys, the last id of their sequence, the requests and what was done. -/
structure KeyWorld where
  users : List User
  keys : List ApiKey := []
  keySeq : Id := 0
  requests : List KeyRequest := []
  log : List KeyEvent := []
  deriving DecidableEq, Repr

inductive KeyLabel where
  | arrive (token : String) (action : KeyAction)
  /-- the next statement of a request, at a time and with what `token_urlsafe` would return -/
  | act (request : Nat) (now : Instant) (fresh : String)
  /-- a user is added or changed -/
  | saveUser (user : User)
  /-- a user is deleted, and the keys with it -/
  | removeUser (userId : Id)

namespace KeyWorld

variable (env : KeyEnv) (w : KeyWorld)

/-- `user_service.get_by_id`, and the row is active. -/
def activeUser (userId : Id) : Bool :=
  (w.users.find? (·.id = userId)).any (·.isActive)

/-- `get_owned` -/
def getOwned (userId keyId : Id) : Option ApiKey :=
  w.keys.find? fun key => key.id = keyId ∧ key.userId = userId

/-- The INSERT: the owner is there and no key has this prefix. -/
def insertKey (userId : Id) (name : String) (expiresAt : Option Instant) (token : String) :
    Option ApiKey :=
  if w.users.any (·.id = userId) ∧ ¬w.keys.any (·.tokenPrefix = keyPrefix token) then
    some { id := w.keySeq + 1, userId := userId, name := name, tokenPrefix := keyPrefix token
           tokenHash := env.sha256 token, expiresAt := expiresAt }
  else none

/-- A request that goes on with no write. -/
def goTo (i : Nat) (r : KeyRequest) (phase : KeyPhase) : KeyWorld :=
  { w with requests := w.requests.set i { r with phase := phase } }

/-- A request that commits. -/
def write (i : Nat) (r : KeyRequest) (phase : KeyPhase) (keys : List ApiKey) (event : KeyEvent) :
    KeyWorld :=
  { w.goTo i r phase with keys := keys, log := w.log ++ [event] }

/-- What the route does with its user. -/
def dispatch (i : Nat) (r : KeyRequest) (userId : Id) : KeyWorld :=
  match r.action with
  | .other => w.goTo i r .ended
  | .createKey _ _ =>
    if maxKeys ≤ w.keys.countP (·.userId = userId) then w.goTo i r .ended
    else w.goTo i r (.minting userId false)
  | .updateKey keyId _ | .deleteKey keyId =>
    match w.getOwned userId keyId with
    | none => w.goTo i r .ended
    | some key => w.goTo i r (.owned key)

/-- One attempt of `create`. A failed INSERT has used up its id. -/
def mint (i : Nat) (r : KeyRequest) (userId : Id) (retried : Bool) (token : String) : KeyWorld :=
  match r.action with
  | .createKey name expiresAt =>
    match w.insertKey env userId name expiresAt token with
    | some key =>
      { w.write i r .ended (w.keys ++ [key]) (.minted key.id userId token expiresAt r.token) with
        keySeq := w.keySeq + 1 }
    | none =>
      { w.goTo i r (if retried then .ended else .minting userId true) with keySeq := w.keySeq + 1 }
  | _ => w.goTo i r .ended

/-- `set_enabled` or `delete` of an owned key. -/
def manage (i : Nat) (r : KeyRequest) (key : ApiKey) : KeyWorld :=
  match r.action with
  | .updateKey _ enabled =>
    -- nothing is sent for a value that is there already, nor for a row that is gone
    if key.enabled = enabled ∨ ¬w.keys.any (·.id = key.id) then w.goTo i r .ended
    else
      w.write i r .ended (setKey key.id (fun key => { key with enabled := enabled }) w.keys)
        (.toggled key.id enabled r.token)
  | .deleteKey _ => w.write i r .ended (w.keys.filter (·.id ≠ key.id)) (.deleted key.id r.token)
  | _ => w.goTo i r .ended

/-- The next statement of a request. -/
def act (i : Nat) (r : KeyRequest) (now : Instant) (fresh : String) : Option KeyWorld :=
  match r.phase with
  | .arrived =>
    if startsWith r.token keyTokenPrefix then
      match authenticateKey env w.keys r.token now with
      | .error _ => some (w.goTo i r .ended)
      | .ok key =>
        some { w.goTo i r (.keyRead key) with
          log := w.log ++ [.checked i key.id now r.token] }
    else
      match env.accessUser now r.token with
      | none => some (w.goTo i r .ended)
      | some userId => some (w.goTo i r (.tokenRead userId))
  | .keyRead key => some (w.goTo i r (if w.activeUser key.userId then .touching key else .ended))
  | .touching key =>
    let keys := if key.touches now then
      setKey key.id (fun key => { key with lastUsedAt := some now }) w.keys else w.keys
    some (w.write i r (.admitted key.userId true) keys (.letIn i key.id key.userId r.token))
  | .tokenRead userId =>
    some (w.goTo i r (if w.activeUser userId then .admitted userId false else .ended))
  | .admitted userId viaKey =>
    -- keys manage infrastructure, not people
    if viaKey ∧ r.action ≠ .other then some (w.goTo i r .ended)
    else some (w.dispatch i r userId)
  | .minting userId retried => some (w.mint env i r userId retried (keyTokenPrefix ++ fresh))
  | .owned key => some (w.manage i r key)
  | .ended => none

def next : KeyLabel → Option KeyWorld
  | .arrive token action => some { w with requests := w.requests ++ [{ token, action }] }
  | .act i now fresh => w.requests[i]?.bind fun r => w.act env i r now fresh
  | .saveUser user => some { w with users := user :: w.users.filter (·.id ≠ user.id) }
  | .removeUser userId =>
    some { w with
      users := w.users.filter (·.id ≠ userId), keys := w.keys.filter (·.userId ≠ userId) }

def Step (env : KeyEnv) (w : KeyWorld) (l : KeyLabel) (w' : KeyWorld) : Prop :=
  w.next env l = some w'

/-! ### What one step does -/

/-- Where a statement takes its request, what becomes of the keys and of their sequence, and what
is done. -/
inductive Move (i : Nat) (r : KeyRequest) : KeyPhase → List ApiKey → Id → List KeyEvent → Prop where
  | ended {seq : Id} (later : w.keySeq ≤ seq) : Move i r .ended w.keys seq []
  | keyRead {key : ApiKey} {now : Instant} (byKey : startsWith r.token keyTokenPrefix = true)
      (member : key ∈ w.keys) (begins : key.tokenPrefix = keyPrefix r.token)
      (digest : key.tokenHash = env.sha256 r.token) (enabled : key.enabled = true)
      (unexpired : ∀ expiry ∈ key.expiresAt, now < expiry) :
    Move i r (.keyRead key) w.keys w.keySeq [.checked i key.id now r.token]
  | touching {key : ApiKey} (before : r.phase = .keyRead key) :
    Move i r (.touching key) w.keys w.keySeq []
  | letIn {key : ApiKey} {keys : List ApiKey} (before : r.phase = .touching key)
      (kept : ∀ new ∈ keys, ∃ old ∈ w.keys, new = { old with lastUsedAt := new.lastUsedAt })
      (length : keys.map (·.userId) = w.keys.map (·.userId)) :
    Move i r (.admitted key.userId true) keys w.keySeq [.letIn i key.id key.userId r.token]
  | tokenRead {userId : Id} {now : Instant} (signedIn : startsWith r.token keyTokenPrefix = false)
    (valid : env.accessUser now r.token = some userId) :
    Move i r (.tokenRead userId) w.keys w.keySeq []
  | admitted {userId : Id} (before : r.phase = .tokenRead userId) :
    Move i r (.admitted userId false) w.keys w.keySeq []
  | minting {userId : Id} (before : r.phase = .admitted userId false)
    (few : w.keys.countP (·.userId = userId) < maxKeys) :
    Move i r (.minting userId false) w.keys w.keySeq []
  | again {userId : Id} (before : r.phase = .minting userId false) :
    Move i r (.minting userId true) w.keys (w.keySeq + 1) []
  | minted {userId : Id} {retried : Bool} {key : ApiKey} {token : String}
      (before : r.phase = .minting userId retried) (id : key.id = w.keySeq + 1)
      (owner : key.userId = userId) (begins : key.tokenPrefix = keyPrefix token)
      (digest : key.tokenHash = env.sha256 token) (enabled : key.enabled = true) :
    Move i r .ended (w.keys ++ [key]) (w.keySeq + 1)
      [.minted key.id userId token key.expiresAt r.token]
  | owned {userId : Id} {key : ApiKey} (before : r.phase = .admitted userId false)
    (member : key ∈ w.keys) (owner : key.userId = userId) :
    Move i r (.owned key) w.keys w.keySeq []
  | toggled {key : ApiKey} {enabled : Bool} (before : r.phase = .owned key)
    (present : ∃ row ∈ w.keys, row.id = key.id) :
    Move i r .ended (setKey key.id (fun key => { key with enabled := enabled }) w.keys) w.keySeq
      [.toggled key.id enabled r.token]
  | deleted {key : ApiKey} (before : r.phase = .owned key) :
    Move i r .ended (w.keys.filter (·.id ≠ key.id)) w.keySeq [.deleted key.id r.token]

/-- The world after a move. -/
def Moves (i : Nat) (r : KeyRequest) (w' : KeyWorld) : Prop :=
  ∃ phase events, w.Move env i r phase w'.keys w'.keySeq events ∧
    w'.requests = w.requests.set i { r with phase := phase } ∧ w'.log = w.log ++ events

section Moves

variable {env} {w} {i : Nat} {r : KeyRequest}

theorem authenticateKey_ok {keys : List ApiKey} {token : String} {now : Instant} {key : ApiKey}
    (ok : authenticateKey env keys token now = .ok key) :
    key ∈ keys ∧ key.tokenPrefix = keyPrefix token ∧ key.tokenHash = env.sha256 token ∧
      key.enabled = true ∧ ∀ expiry ∈ key.expiresAt, now < expiry := by
  unfold authenticateKey at ok
  split at ok
  next => cases ok
  next row found =>
    split_ifs at ok with digest disabled expired
    cases ok
    have begins := List.find?_some found
    refine ⟨List.mem_of_find?_eq_some found, of_decide_eq_true begins, not_not.mp digest,
      Bool.not_eq_false _ |>.mp disabled, fun expiry set => ?_⟩
    rw [Option.mem_def.mp set, Option.any_some, decide_eq_true_eq] at expired
    exact Nat.lt_of_not_le expired

private theorem moves_goTo {phase : KeyPhase} (move : w.Move env i r phase w.keys w.keySeq []) :
    w.Moves env i r (w.goTo i r phase) :=
  ⟨phase, [], move, rfl, (List.append_nil _).symm⟩

private theorem moves_end : w.Moves env i r (w.goTo i r .ended) :=
  moves_goTo (.ended (Int.le_refl _))

private theorem moves_dispatch {userId : Id} (before : r.phase = .admitted userId false) :
    w.Moves env i r (w.dispatch i r userId) := by
  have owned : ∀ keyId, w.Moves env i r (match w.getOwned userId keyId with
      | none => w.goTo i r .ended
      | some key => w.goTo i r (.owned key)) := by
    intro keyId
    cases found : w.getOwned userId keyId with
    | none => exact moves_end
    | some key =>
      unfold getOwned at found
      have own : key.id = keyId ∧ key.userId = userId := by simpa using List.find?_some found
      exact moves_goTo (.owned before (List.mem_of_find?_eq_some found) own.2)
  unfold dispatch
  split
  next => exact moves_end
  next =>
    split
    next => exact moves_end
    next few => exact moves_goTo (.minting before (Nat.lt_of_not_le few))
  next keyId _ _ => exact owned keyId
  next keyId _ => exact owned keyId

private theorem moves_mint {userId : Id} {retried : Bool} {token : String}
    (before : r.phase = .minting userId retried) :
    w.Moves env i r (w.mint env i r userId retried token) := by
  unfold mint
  split
  next name expiresAt _ =>
    cases inserted : w.insertKey env userId name expiresAt token with
    | some key =>
      unfold insertKey at inserted
      split at inserted
      · cases inserted
        exact ⟨_, _, .minted before rfl rfl rfl rfl rfl, rfl, rfl⟩
      · cases inserted
    | none =>
      cases retried with
      | true =>
        exact ⟨_, [], .ended (Int.le_add_one (Int.le_refl _)), rfl, (List.append_nil _).symm⟩
      | false => exact ⟨_, [], .again before, rfl, (List.append_nil _).symm⟩
  next => exact moves_end

private theorem moves_manage {key : ApiKey} (before : r.phase = .owned key) :
    w.Moves env i r (w.manage i r key) := by
  unfold manage
  split
  next keyId enabled _ =>
    split
    next => exact moves_end
    next sent =>
      -- an UPDATE that finds no row ends the request
      have present : w.keys.any (·.id = key.id) = true := by
        by_contra gone
        exact sent (Or.inr gone)
      obtain ⟨row, member, same⟩ := List.any_eq_true.mp present
      exact ⟨_, _, .toggled before ⟨row, member, of_decide_eq_true same⟩, rfl, rfl⟩
  next => exact ⟨_, _, .deleted before, rfl, rfl⟩
  next => exact moves_end

/-- A touched key differs in its last use only. -/
private theorem touched_kept (key : ApiKey) (now : Instant) (keys : List ApiKey) :
    (∀ new ∈ (if key.touches now then
        setKey key.id (fun key => { key with lastUsedAt := some now }) keys else keys),
      ∃ old ∈ keys, new = { old with lastUsedAt := new.lastUsedAt }) ∧
    (if key.touches now then
        setKey key.id (fun key => { key with lastUsedAt := some now }) keys
      else keys).map (·.userId) = keys.map (·.userId) := by
  split
  · constructor
    · intro new member
      obtain ⟨old, inside, rfl⟩ := List.mem_map.mp member
      refine ⟨old, inside, ?_⟩
      split <;> rfl
    · rw [setKey, List.map_map]
      refine List.map_congr_left fun key _ => ?_
      simp only [Function.comp_apply]
      split <;> rfl
  · exact ⟨fun new member => ⟨new, member, rfl⟩, rfl⟩

theorem moves_act {now : Instant} {fresh : String} {w' : KeyWorld}
    (acted : w.act env i r now fresh = some w') : w.Moves env i r w' := by
  unfold act at acted
  split at acted
  next =>
    split at acted
    next byKey =>
      split at acted
      next => cases acted; exact moves_end
      next key ok =>
        cases acted
        obtain ⟨member, begins, digest, enabled, unexpired⟩ := authenticateKey_ok ok
        exact ⟨_, _, .keyRead byKey member begins digest enabled unexpired, rfl, rfl⟩
    next signedIn =>
      split at acted
      next => cases acted; exact moves_end
      next userId valid =>
        cases acted
        exact moves_goTo (.tokenRead (Bool.not_eq_true _ |>.mp signedIn) valid)
  next key before =>
    cases acted
    split
    · exact moves_goTo (.touching before)
    · exact moves_end
  next key before =>
    cases acted
    obtain ⟨kept, length⟩ := touched_kept key now w.keys
    exact ⟨_, _, .letIn before kept length, rfl, rfl⟩
  next userId before =>
    cases acted
    split
    · exact moves_goTo (.admitted before)
    · exact moves_end
  next userId viaKey before =>
    split at acted
    next => cases acted; exact moves_end
    next free =>
      cases acted
      cases viaKey with
      | false => exact moves_dispatch before
      | true =>
        -- a key is let through to the routes that take keys, and nothing more
        have other : r.action = .other := by
          by_contra own
          exact free ⟨rfl, own⟩
        rw [dispatch, other]
        exact moves_end
  next userId retried before => cases acted; exact moves_mint before
  next key before => cases acted; exact moves_manage before
  next => cases acted

/-- A step moves a request, or brings one in, or changes the users and takes keys away. -/
theorem step_cases {l : KeyLabel} {w' : KeyWorld} (moved : w.Step env l w') :
    (∃ i r, w.requests[i]? = some r ∧ w.Moves env i r w') ∨
    (∃ token action, w' = { w with requests := w.requests ++ [{ token, action }] }) ∨
    (w'.keys.Sublist w.keys ∧ w'.keySeq = w.keySeq ∧ w'.requests = w.requests ∧
      w'.log = w.log) := by
  cases l with
  | arrive token action =>
    cases moved
    exact Or.inr (Or.inl ⟨token, action, rfl⟩)
  | act i now fresh =>
    obtain ⟨r, here, acted⟩ := Option.bind_eq_some_iff.mp moved
    exact Or.inl ⟨i, r, here, moves_act acted⟩
  | saveUser user =>
    cases moved
    exact Or.inr (Or.inr ⟨List.Sublist.refl _, rfl, rfl, rfl⟩)
  | removeUser userId =>
    cases moved
    exact Or.inr (Or.inr ⟨List.filter_sublist, rfl, rfl, rfl⟩)

end Moves

end KeyWorld

end MegooPM
