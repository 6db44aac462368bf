import MegooPM.Accounts.Tables
import MegooPM.Lib.Bytes
import MegooPM.Lib.OneTime
import MegooPM.Lib.Text
import Std.Data.String.ToInt

/-!
# WebAuthn challenges

`services/webauthn_challenge.py` and the four routes around it. The options request of a ceremony
puts a challenge into Redis under a fresh nonce; the finish request takes it out by kind and nonce
and only then compares the user it was issued for. Requests of any number of users interleave, the
nonce of a finish request is whatever its body says, and entries expire at any time.
-/
namespace MegooPM

open Lib

inductive ChallengeKind where
  | register | authenticate
  deriving DecidableEq, Repr

def ChallengeKind.value : ChallengeKind → String
  | .register => "register"
  | .authenticate => "authenticate"

/-- `_key` -/
def challengeKey (kind : ChallengeKind) (nonce : String) : String :=
  "megoopm:webauthn:" ++ kind.value ++ ":" ++ nonce

/-- The value `put` stores. -/
def storedChallenge (userId : Id) (challenge : Bytes) : String :=
  toString userId ++ ":" ++ String.ofList (hex challenge)

/-- What `take` reads out of a value; `none` where `int` or `bytes.fromhex` raises. -/
def readChallenge (raw : String) : Option (Id × Bytes) := do
  let userId ← (String.ofList (raw.toList.takeWhile (· ≠ ':'))).toInt?
  let challenge ← fromHex ((raw.toList.dropWhile (· ≠ ':')).drop 1)
  return (userId, challenge)

/-! ### Requests -/

/-- What a request does next. -/
inductive Ceremony where
  | idle
  /-- an options request that passed its checks: `put` is next -/
  | issuing (kind : ChallengeKind) (userId : Id)
  /-- a finish request that passed the checks before `take` -/
  | answering (kind : ChallengeKind) (userId : Id) (nonce : String)
  /-- `GETDEL` has answered; the user is compared next -/
  | taken (kind : ChallengeKind) (userId : Id) (nonce : String) (raw : Option String)
  /-- `verify_registration` or `verify_authentication` is next -/
  | verifying (kind : ChallengeKind) (userId : Id) (nonce : String) (challenge : Bytes)
  /-- answered or refused; the entry the request had taken -/
  | ended (took : Option (ChallengeKind × String))
  deriving DecidableEq, Repr

/-- The entry a request has taken out so far. -/
def Ceremony.took : Ceremony → Option (ChallengeKind × String)
  | .taken kind _ nonce (some _) => some (kind, nonce)
  | .verifying kind _ nonce _ => some (kind, nonce)
  | .ended took => took
  | _ => none

/-- Whether the request is still under way with that entry. -/
def Ceremony.Holds (kind : ChallengeKind) (nonce : String) : Ceremony → Prop
  | .ended _ => False
  | c => c.took = some (kind, nonce)

/-- A challenge that was put into the store. -/
structure ChallengeIssue where
  kind : ChallengeKind
  nonce : String
  userId : Id
  challenge : Bytes
  deriving DecidableEq, Repr

/-- A call of `verify_registration` or `verify_authentication`, with the user the request is
authenticated as. -/
structure ChallengeUse where
  request : Nat
  kind : ChallengeKind
  nonce : String
  userId : Id
  challenge : Bytes
  deriving DecidableEq, Repr

def ChallengeIssue.entry (i : ChallengeIssue) : String × String :=
  (challengeKey i.kind i.nonce, storedChallenge i.userId i.challenge)

def ChallengeUse.entry (u : ChallengeUse) : Nat × String × String :=
  (u.request, challengeKey u.kind u.nonce, storedChallenge u.userId u.challenge)

inductive ChallengeEvent where
  /-- `passkey_options` or `mfa_passkey_options`, up to `put` -/
  | options (request : Nat) (kind : ChallengeKind) (userId : Id)
  /-- `passkey_register` or `mfa_passkey_verify`, up to `take` -/
  | finish (request : Nat) (kind : ChallengeKind) (userId : Id) (nonce : String)
  /-- Redis may fail before or after the `SET` -/
  | put (request : Nat) (nonce : String) (challenge : Bytes) (stored : Bool)
  /-- Redis may fail before or after the `GETDEL` -/
  | take (request : Nat)
  | takeFails (request : Nat) (deleted : Bool)
  /-- `stored is None or stored[0] != user.id` -/
  | compare (request : Nat)
  | verify (request : Nat)
  /-- the request is refused, or breaks off, for any other reason -/
  | refuse (request : Nat)
  | expire (key : String)

/-- Redis with its history, the requests, the challenges issued and the verifications. -/
structure ChallengeWorld where
  ledger : Ledger String String Nat := {}
  requests : Nat → Ceremony := fun _ => .idle
  issues : List ChallengeIssue := []
  uses : List ChallengeUse := []

namespace ChallengeWorld

def goTo (s : ChallengeWorld) (request : Nat) (next : Ceremony) : ChallengeWorld :=
  { s with requests := Function.update s.requests request next }

/-- The request is over, and what it had taken is lost with it. -/
def finish (s : ChallengeWorld) (request : Nat) : ChallengeWorld :=
  { s.goTo request (.ended (s.requests request).took) with
    ledger := s.ledger.apply (.drop request) }

/-- `put` of an options request. -/
def put (s : ChallengeWorld) (request : Nat) (issue : ChallengeIssue) (stored : Bool) :
    ChallengeWorld :=
  if stored then
    { s.goTo request (.ended none) with
      ledger := s.ledger.apply (.put issue.entry.1 issue.entry.2), issues := issue :: s.issues }
  else s.goTo request (.ended none)

/-- The comparison of a finish request whose `take` has answered. -/
def compare (s : ChallengeWorld) (request : Nat) (kind : ChallengeKind) (userId : Id)
    (nonce : String) (raw : Option String) : ChallengeWorld :=
  match raw.bind readChallenge with
  | none => s.finish request
  | some (owner, challenge) =>
    if owner = userId then s.goTo request (.verifying kind userId nonce challenge)
    else s.finish request

/-- What one event does; `none` where the request is not at that point. No nonce is drawn twice. -/
def next (s : ChallengeWorld) : ChallengeEvent → Option ChallengeWorld
  | .options request kind userId =>
    if s.requests request = .idle then some (s.goTo request (.issuing kind userId)) else none
  | .finish request kind userId nonce =>
    if s.requests request = .idle then some (s.goTo request (.answering kind userId nonce))
    else none
  | .put request nonce challenge stored =>
    match s.requests request with
    | .issuing kind userId =>
      if s.issues.any fun i => i.kind = kind ∧ i.nonce = nonce then none
      else some (s.put request ⟨kind, nonce, userId, challenge⟩ stored)
    | _ => none
  | .take request =>
    match s.requests request with
    | .answering kind userId nonce =>
      some { s.goTo request (.taken kind userId nonce (s.ledger.entries (challengeKey kind nonce)))
        with ledger := s.ledger.apply (.take request (challengeKey kind nonce)) }
    | _ => none
  | .takeFails request deleted =>
    match s.requests request with
    | .answering kind _ nonce =>
      some { s.goTo request (.ended none) with
        ledger := if deleted then s.ledger.apply (.lose (challengeKey kind nonce)) else s.ledger }
    | _ => none
  | .compare request =>
    match s.requests request with
    | .taken kind userId nonce raw => some (s.compare request kind userId nonce raw)
    | _ => none
  | .verify request =>
    match s.requests request with
    | .verifying kind userId nonce challenge =>
      some { s.goTo request (.ended (some (kind, nonce))) with
        ledger := s.ledger.apply (.use request)
        uses := ⟨request, kind, nonce, userId, challenge⟩ :: s.uses }
    | _ => none
  | .refuse request => some (s.finish request)
  | .expire key => some { s with ledger := s.ledger.apply (.lose key) }

def Step (s : ChallengeWorld) (e : ChallengeEvent) (t : ChallengeWorld) : Prop :=
  s.next e = some t

/-- A request can still get at the challenge: it is in the store, or a request that took it is
under way. -/
def Usable (s : ChallengeWorld) (i : ChallengeIssue) : Prop :=
  s.ledger.entries (challengeKey i.kind i.nonce) ≠ none ∨
    ∃ request, (s.requests request).Holds i.kind i.nonce

/-- Every verification is of a challenge that was issued for its ceremony to its user, no challenge
has two, and what a request has taken nobody else can get at once it is over. -/
structure Spent (s : ChallengeWorld) : Prop where
  distinct : s.issues.Pairwise fun a b => ¬(a.kind = b.kind ∧ a.nonce = b.nonce)
  owned : ∀ u ∈ s.uses, ⟨u.kind, u.nonce, u.userId, u.challenge⟩ ∈ s.issues
  once : s.uses.Pairwise fun a b => ¬(a.kind = b.kind ∧ a.nonce = b.nonce)
  spent : ∀ request kind nonce, s.requests request = .ended (some (kind, nonce)) →
    ∀ i ∈ s.issues, i.kind = kind → i.nonce = nonce → ¬s.Usable i

end ChallengeWorld

/-! ### Keys and values -/

theorem challengeKey_eq (kind : ChallengeKind) (nonce : String) :
    challengeKey kind nonce = "megoopm:webauthn:" ++ kind.value ++ ":" ++ nonce := rfl

/-- The key tells the ceremony and the nonce. -/
theorem challengeKey_injective {kind kind' : ChallengeKind} {nonce nonce' : String}
    (same : challengeKey kind nonce = challengeKey kind' nonce') : kind = kind' ∧ nonce = nonce' := by
  have texts := congrArg String.toList same
  simp only [challengeKey_eq, String.toList_append, List.append_assoc] at texts
  have tails := List.append_cancel_left texts
  cases kind with
  | register =>
    cases kind' with
    | register =>
      have nonces := List.append_cancel_left (List.append_cancel_left tails)
      exact ⟨rfl, String.toList_inj.mp nonces⟩
    | authenticate =>
      have letters := congrArg List.head? tails
      simp [ChallengeKind.value] at letters
  | authenticate =>
    cases kind' with
    | register =>
      have letters := congrArg List.head? tails
      simp [ChallengeKind.value] at letters
    | authenticate =>
      have nonces := List.append_cancel_left (List.append_cancel_left tails)
      exact ⟨rfl, String.toList_inj.mp nonces⟩

private theorem partition_colon {left : List Char} (plain : ':' ∉ left) (rest : List Char) :
    (left ++ ':' :: rest).takeWhile (· ≠ ':') = left ∧
      (left ++ ':' :: rest).dropWhile (· ≠ ':') = ':' :: rest := by
  induction left with
  | nil => simp
  | cons c left ih =>
    have other : c ≠ ':' := fun same => plain (same ▸ List.mem_cons_self ..)
    have tail := ih fun member => plain (List.mem_cons_of_mem _ member)
    simp only [List.cons_append, List.takeWhile_cons, List.dropWhile_cons, other, ne_eq,
      not_false_eq_true, decide_true, if_true]
    exact ⟨by rw [tail.1], tail.2⟩

/-- `take` reads what `put` has stored. -/
theorem readChallenge_storedChallenge (userId : Id) (challenge : Bytes) :
    readChallenge (storedChallenge userId challenge) = some (userId, challenge) := by
  have text : (storedChallenge userId challenge).toList =
      (toString userId).toList ++ ':' :: hex challenge := by
    simp [storedChallenge]
  obtain ⟨before, after⟩ := partition_colon (colon_notMem_int userId) (hex challenge)
  have number : (toString userId).toInt? = some userId := Int.toInt?_repr userId
  rw [readChallenge, text, before, after, String.ofList_toList, number]
  simp [fromHex_hex]

/-- Equal values are of the same user and challenge. -/
theorem storedChallenge_injective {userId userId' : Id} {challenge challenge' : Bytes}
    (same : storedChallenge userId challenge = storedChallenge userId' challenge') :
    userId = userId' ∧ challenge = challenge' := by
  have reads := congrArg readChallenge same
  rw [readChallenge_storedChallenge, readChallenge_storedChallenge, Option.some.injEq,
    Prod.mk.injEq] at reads
  exact reads

theorem ChallengeUse.entry_injective {u w : ChallengeUse} (same : u.entry = w.entry) : u = w := by
  obtain ⟨request, kind, nonce, userId, challenge⟩ := u
  obtain ⟨request', kind', nonce', userId', challenge'⟩ := w
  simp only [ChallengeUse.entry, Prod.mk.injEq] at same
  obtain ⟨rfl, key, value⟩ := same
  obtain ⟨rfl, rfl⟩ := challengeKey_injective key
  obtain ⟨rfl, rfl⟩ := storedChallenge_injective value
  rfl

/-! ### What the steps keep -/

/-- What Redis has seen of a request by where it is. -/
def Ceremony.Sound (l : Ledger String String Nat) (request : Nat) : Ceremony → Prop
  | .taken kind _ nonce (some raw) => l.held request = some (challengeKey kind nonce, raw)
  | .verifying kind userId nonce challenge =>
    l.held request = some (challengeKey kind nonce, storedChallenge userId challenge)
  | .ended (some (kind, nonce)) => l.held request = none ∧ l.Gone (challengeKey kind nonce) ∧
      challengeKey kind nonce ∈ l.issued.map Prod.fst
  | _ => l.held request = none

section Requests

variable {l l' : Ledger String String Nat} {request : Nat}

/-- A request is not disturbed by what the others do in Redis. -/
theorem Ceremony.Sound.frame {c : Ceremony} (sound : c.Sound l request)
    (later : Reaches Ledger.Step l l') (held : l'.held request = l.held request) :
    c.Sound l' request := by
  cases c with
  | taken kind userId nonce raw =>
    cases raw with
    | none => exact held.trans sound
    | some raw => exact held.trans sound
  | ended took =>
    cases took with
    | none => exact held.trans sound
    | some entry =>
      obtain ⟨none_, gone, old⟩ := sound
      obtain ⟨still, old', _⟩ := gone.reaches old later
      exact ⟨held.trans none_, still, old'⟩
  | _ => exact held.trans sound

/-- The entry a request has taken is the one it holds, until it is over. -/
theorem Ceremony.Sound.took {c : Ceremony} (sound : c.Sound l request) :
    (c.took = none ∧ l.held request = none) ∨
    (∃ kind nonce v, c.took = some (kind, nonce) ∧
      l.held request = some (challengeKey kind nonce, v)) ∨
    ∃ kind nonce, c.took = some (kind, nonce) ∧ l.held request = none ∧
      l.Gone (challengeKey kind nonce) ∧ challengeKey kind nonce ∈ l.issued.map Prod.fst := by
  cases c with
  | taken kind userId nonce raw =>
    cases raw with
    | none => exact Or.inl ⟨rfl, sound⟩
    | some raw => exact Or.inr (Or.inl ⟨kind, nonce, raw, rfl, sound⟩)
  | verifying kind userId nonce challenge => exact Or.inr (Or.inl ⟨kind, nonce, _, rfl, sound⟩)
  | ended took =>
    cases took with
    | none => exact Or.inl ⟨rfl, sound⟩
    | some entry => exact Or.inr (Or.inr ⟨entry.1, entry.2, rfl, sound⟩)
  | _ => exact Or.inl ⟨rfl, sound⟩

/-- A request under way holds the entry it has taken. -/
theorem Ceremony.Sound.holds_iff {c : Ceremony} (sound : c.Sound l request) {kind : ChallengeKind}
    {nonce : String} :
    c.Holds kind nonce ↔ ∃ v, l.held request = some (challengeKey kind nonce, v) := by
  have other : l.held request = none → ¬∃ v, l.held request = some (challengeKey kind nonce, v) := by
    rintro none_ ⟨v, holds⟩
    rw [none_] at holds
    cases holds
  have same : ∀ {kind' nonce' v}, l.held request = some (challengeKey kind' nonce', v) →
      (some (kind', nonce') = some (kind, nonce) ↔
        ∃ v, l.held request = some (challengeKey kind nonce, v)) := by
    intro kind' nonce' v holds
    constructor
    · rintro ⟨⟩
      exact ⟨v, holds⟩
    · rintro ⟨w, holds'⟩
      rw [holds, Option.some.injEq, Prod.mk.injEq] at holds'
      obtain ⟨rfl, rfl⟩ := challengeKey_injective holds'.1
      rfl
  have nothing : ∀ {P : Prop}, ¬P → l.held request = none →
      (P ↔ ∃ v, l.held request = some (challengeKey kind nonce, v)) := fun no none_ =>
    ⟨fun yes => absurd yes no, fun held => absurd held (other none_)⟩
  cases c with
  | taken kind' userId nonce' raw =>
    cases raw with
    | none => exact nothing nofun sound
    | some raw => exact same sound
  | verifying kind' userId nonce' challenge => exact same sound
  | ended took =>
    cases took with
    | none => exact nothing id sound
    | some entry => exact nothing id sound.1
  | _ => exact nothing nofun sound

end Requests

namespace ChallengeWorld

/-- The history of Redis is that of the requests. -/
structure Sound (s : ChallengeWorld) : Prop where
  ledger : s.ledger.Sound
  issued : s.ledger.issued = s.issues.map ChallengeIssue.entry
  used : s.ledger.used = s.uses.map ChallengeUse.entry
  requests : ∀ request, (s.requests request).Sound s.ledger request

/-- What a step comes to: the histories agree again, and Redis has seen at most one command. -/
structure Advance (s t : ChallengeWorld) : Prop where
  sound : t.Sound
  later : Reaches Ledger.Step s.ledger t.ledger

section Steps

variable {s t : ChallengeWorld} {request : Nat}

/-- One request goes on, and Redis with it. -/
theorem Sound.move (sound : s.Sound) {l : Ledger String String Nat} {next : Ceremony}
    {issues : List ChallengeIssue} {uses : List ChallengeUse}
    (later : Reaches Ledger.Step s.ledger l)
    (others : ∀ other ≠ request, l.held other = s.ledger.held other)
    (own : next.Sound l request) (issued : l.issued = issues.map ChallengeIssue.entry)
    (used : l.used = uses.map ChallengeUse.entry) :
    s.Advance { s.goTo request next with ledger := l, issues := issues, uses := uses } := by
  refine ⟨⟨sound.ledger.reaches later, issued, used, fun other => ?_⟩, later⟩
  by_cases same : other = request
  · subst same
    simpa only [goTo, Function.update_self] using own
  · simp only [goTo, Function.update_of_ne same]
    exact (sound.requests other).frame later (others other same)

/-- A request goes on without Redis. -/
theorem Sound.goOn (sound : s.Sound) {next : Ceremony} (own : next.Sound s.ledger request) :
    s.Advance (s.goTo request next) :=
  sound.move (l := s.ledger) (Reaches.refl _ _) (fun _ _ => rfl) own sound.issued sound.used

theorem Sound.finish (sound : s.Sound) : s.Advance (s.finish request) := by
  have step : Ledger.Step s.ledger (.drop request) (s.ledger.apply (.drop request)) :=
    ⟨trivial, rfl⟩
  have free : (s.ledger.apply (.drop request)).held request = none := Function.update_self ..
  refine sound.move ((Reaches.refl _ _).tail step) (fun other apart => Function.update_of_ne apart ..)
    ?_ sound.issued sound.used
  rcases (sound.requests request).took with ⟨took, -⟩ | ⟨kind, nonce, v, took, holds⟩ |
    ⟨kind, nonce, took, -, gone, old⟩ <;> rw [took]
  · exact free
  · -- it was the only one that held the entry
    obtain ⟨issued, absent⟩ := sound.ledger.taken request _ v holds
    refine ⟨free, ⟨absent, fun other w still => ?_⟩, List.mem_map.mpr ⟨_, issued, rfl⟩⟩
    by_cases same : other = request
    · rw [same, free] at still
      cases still
    · have before : s.ledger.held other = some (challengeKey kind nonce, w) := by
        simpa only [Ledger.apply, Function.update_of_ne same] using still
      exact same (sound.ledger.single other request _ w v before holds)
  · obtain ⟨still, old', _⟩ := gone.step old step
    exact ⟨free, still, old'⟩

/-- What `take` read was put there by an options request. -/
theorem Sound.issue (sound : s.Sound) {kind : ChallengeKind} {nonce raw : String}
    (holds : s.ledger.held request = some (challengeKey kind nonce, raw)) :
    ∃ userId challenge, ⟨kind, nonce, userId, challenge⟩ ∈ s.issues ∧
      raw = storedChallenge userId challenge := by
  have issued := (sound.ledger.taken request _ raw holds).1
  rw [sound.issued] at issued
  obtain ⟨⟨kind', nonce', userId, challenge⟩, member, same⟩ := List.mem_map.mp issued
  simp only [ChallengeIssue.entry, Prod.mk.injEq] at same
  obtain ⟨rfl, rfl⟩ := challengeKey_injective same.1
  exact ⟨userId, challenge, member, same.2.symm⟩

theorem Sound.compare (sound : s.Sound) {kind : ChallengeKind} {userId : Id} {nonce : String}
    {raw : Option String} (here : s.requests request = .taken kind userId nonce raw) :
    s.Advance (s.compare request kind userId nonce raw) := by
  have own := sound.requests request
  rw [here] at own
  unfold ChallengeWorld.compare
  split
  next => exact sound.finish
  next owner challenge reads =>
    obtain ⟨text, rfl, decoded⟩ := Option.bind_eq_some_iff.mp reads
    split
    next same =>
      refine sound.goOn ?_
      obtain ⟨owner', challenge', -, rfl⟩ := sound.issue own
      rw [readChallenge_storedChallenge] at decoded
      cases decoded
      subst same
      exact own
    next => exact sound.finish

/-- `GETDEL`: the request holds what was there. -/
theorem Sound.take (sound : s.Sound) {kind : ChallengeKind} {userId : Id} {nonce : String}
    (free : s.ledger.held request = none) :
    s.Advance { s.goTo request
        (.taken kind userId nonce (s.ledger.entries (challengeKey kind nonce))) with
      ledger := s.ledger.apply (.take request (challengeKey kind nonce)) } := by
  have step : Ledger.Step s.ledger (.take request (challengeKey kind nonce))
    (s.ledger.apply (.take request (challengeKey kind nonce))) := ⟨trivial, rfl⟩
  have later := (Reaches.refl Ledger.Step s.ledger).tail step
  cases present : s.ledger.entries (challengeKey kind nonce) with
  | none =>
    have same : s.ledger.apply (.take request (challengeKey kind nonce)) = s.ledger := by
      simp only [Ledger.apply, Ledger.take, present]
    rw [same]
    exact sound.goOn free
  | some raw =>
    have same : s.ledger.apply (.take request (challengeKey kind nonce)) = { s.ledger with
        entries := Function.update s.ledger.entries (challengeKey kind nonce) none
        held := Function.update s.ledger.held request (some (challengeKey kind nonce, raw)) } := by
      simp only [Ledger.apply, Ledger.take, present]
    rw [same] at later ⊢
    exact sound.move later (fun other apart => Function.update_of_ne apart ..)
      (Function.update_self ..) sound.issued sound.used

/-- The challenge is handed to the verification. -/
theorem Sound.verify (sound : s.Sound) {kind : ChallengeKind} {userId : Id} {nonce : String}
    {challenge : Bytes} (here : s.requests request = .verifying kind userId nonce challenge) :
    s.Advance { s.goTo request (.ended (some (kind, nonce))) with
      ledger := s.ledger.apply (.use request)
      uses := ⟨request, kind, nonce, userId, challenge⟩ :: s.uses } := by
  have own := sound.requests request
  rw [here] at own
  have step : Ledger.Step s.ledger (.use request) (s.ledger.apply (.use request)) :=
    ⟨trivial, rfl⟩
  have after := sound.ledger.step step
  have later := (Reaches.refl Ledger.Step s.ledger).tail step
  have same : s.ledger.apply (.use request) = { s.ledger with
      held := Function.update s.ledger.held request none
      used := (request, challengeKey kind nonce, storedChallenge userId challenge) ::
        s.ledger.used } := by
    simp only [Ledger.apply, Ledger.use]
    rw [own]
  rw [same] at later after ⊢
  obtain ⟨issued, absent, unheld⟩ := after.spent _ _ _ (List.mem_cons_self ..)
  refine sound.move later (fun other apart => Function.update_of_ne apart ..)
    ⟨Function.update_self .., ⟨absent, unheld⟩, List.mem_map.mpr ⟨_, issued, rfl⟩⟩ sound.issued ?_
  exact congrArg (_ :: ·) sound.used

theorem Sound.step (sound : s.Sound) {e : ChallengeEvent} (moved : s.Step e t) : s.Advance t := by
  have ledgerStep : ∀ m : Move String String Nat, s.ledger.Fresh m →
      Reaches Ledger.Step s.ledger (s.ledger.apply m) := fun m fresh =>
    (Reaches.refl _ _).tail ⟨fresh, rfl⟩
  unfold Step at moved
  -- `put`, `take` and the losses change what Redis holds; the others move one request
  cases e with
  | options request kind userId =>
    have own := sound.requests request
    simp only [next, Option.ite_none_right_eq_some] at moved
    obtain ⟨here, ⟨⟩⟩ := moved
    rw [here] at own
    exact sound.goOn own
  | finish request kind userId nonce =>
    have own := sound.requests request
    simp only [next, Option.ite_none_right_eq_some] at moved
    obtain ⟨here, ⟨⟩⟩ := moved
    rw [here] at own
    exact sound.goOn own
  | put request nonce challenge stored =>
    have own := sound.requests request
    simp only [next] at moved
    split at moved
    next kind userId here =>
      rw [here] at own
      obtain ⟨unused, moved⟩ := Option.ite_none_left_eq_some.mp moved
      cases moved
      cases stored with
      | false => exact sound.goOn own
      | true =>
        refine sound.move (ledgerStep (.put _ _) ?_) (fun _ _ => rfl) own ?_ sound.used
        · -- the key was not used before, since the nonce was not
          intro member
          rw [sound.issued, List.map_map] at member
          obtain ⟨i, issued, same⟩ := List.mem_map.mp member
          exact unused (List.any_eq_true.mpr
            ⟨i, issued, decide_eq_true (challengeKey_injective same)⟩)
        · exact congrArg (_ :: ·) sound.issued
    next => cases moved
  | take request =>
    have own := sound.requests request
    simp only [next] at moved
    split at moved
    next kind userId nonce here =>
      cases moved
      rw [here] at own
      exact sound.take own
    next => cases moved
  | takeFails request deleted =>
    have own := sound.requests request
    simp only [next] at moved
    split at moved
    next kind userId nonce here =>
      cases moved
      rw [here] at own
      cases deleted with
      | false => exact sound.goOn own
      | true =>
        -- the key is gone, though the request never saw its value
        exact sound.move (ledgerStep (.lose (challengeKey kind nonce)) trivial) (fun _ _ => rfl) own
          sound.issued sound.used
    next => cases moved
  | compare request =>
    simp only [next] at moved
    split at moved
    next kind userId nonce raw here =>
      cases moved
      exact sound.compare here
    next => cases moved
  | verify request =>
    simp only [next] at moved
    split at moved
    next kind userId nonce challenge here =>
      cases moved
      exact sound.verify here
    next => cases moved
  | refuse request =>
    cases moved
    exact sound.finish
  | expire key =>
    cases moved
    have later := ledgerStep (.lose key) trivial
    exact ⟨⟨sound.ledger.reaches later, sound.issued, sound.used,
      fun request => (sound.requests request).frame later rfl⟩, later⟩

/-- Nobody can get at a challenge that is not in Redis and held by no request. -/
theorem Sound.not_usable_iff (sound : s.Sound) {i : ChallengeIssue} :
    ¬s.Usable i ↔ s.ledger.Gone (challengeKey i.kind i.nonce) := by
  constructor
  · intro unusable
    refine ⟨not_not.mp fun there => unusable (Or.inl there), fun request v holds => ?_⟩
    exact unusable (Or.inr ⟨request, (sound.requests request).holds_iff.mpr ⟨v, holds⟩⟩)
  · rintro ⟨absent, unheld⟩ (there | ⟨request, holds⟩)
    · exact there absent
    · obtain ⟨v, held⟩ := (sound.requests request).holds_iff.mp holds
      exact unheld request v held

theorem Sound.spent (sound : s.Sound) : s.Spent := by
  have distinct := sound.ledger.fresh
  have once := sound.ledger.once
  rw [sound.issued, List.map_map, List.Nodup, List.pairwise_map] at distinct
  rw [sound.used, List.map_map, List.Nodup, List.pairwise_map] at once
  refine ⟨distinct.imp fun {a b} other same => ?_, fun u member => ?_,
    once.imp fun {a b} other same => ?_, fun request kind nonce here i _ sameKind sameNonce => ?_⟩
  · exact other (congrArg₂ challengeKey same.1 same.2)
  · have used : u.entry ∈ s.ledger.used := sound.used ▸ List.mem_map_of_mem member
    have issued := (sound.ledger.spent _ _ _ used).1
    rw [sound.issued] at issued
    obtain ⟨⟨kind, nonce, userId, challenge⟩, there, same⟩ := List.mem_map.mp issued
    simp only [ChallengeIssue.entry, Prod.mk.injEq] at same
    obtain ⟨rfl, rfl⟩ := challengeKey_injective same.1
    obtain ⟨rfl, rfl⟩ := storedChallenge_injective same.2
    exact there
  · exact other (congrArg₂ challengeKey same.1 same.2)
  · have own := sound.requests request
    rw [here] at own
    refine sound.not_usable_iff.mpr ?_
    rw [sameKind, sameNonce]
    exact own.2.1

end Steps

theorem sound_start : Sound {} where
  ledger := Ledger.sound_empty
  issued := rfl
  used := rfl
  requests _ := rfl

theorem Sound.reaches {s t : ChallengeWorld} (sound : s.Sound) (run : Reaches Step s t) :
    s.Advance t := by
  induction run with
  | refl => exact ⟨sound, Reaches.refl _ _⟩
  | tail _ last ih =>
    obtain ⟨e, moved⟩ := last
    have next := ih.sound.step moved
    exact ⟨next.sound, ih.later.trans next.later⟩

end ChallengeWorld

/-- However the requests of both ceremonies interleave, a challenge is handed to one verification
at most, of its own ceremony and in a request of the user it was issued for; once nobody can get at
it any more, a request that was refused included, that stays so and it is not verified again. -/
theorem challenges_spent {s t : ChallengeWorld} (before : Reaches ChallengeWorld.Step {} s)
    (run : Reaches ChallengeWorld.Step s t) :
    t.Spent ∧ ∀ i ∈ s.issues, ¬s.Usable i → ¬t.Usable i ∧
      ∀ u ∈ t.uses, u.kind = i.kind → u.nonce = i.nonce → u ∈ s.uses := by
  have start := (ChallengeWorld.sound_start.reaches before).sound
  obtain ⟨sound, later⟩ := start.reaches run
  refine ⟨sound.spent, fun i issued unusable => ?_⟩
  have gone := start.not_usable_iff.mp unusable
  have old : challengeKey i.kind i.nonce ∈ s.ledger.issued.map Prod.fst := by
    rw [start.issued, List.map_map]
    exact List.mem_map.mpr ⟨i, issued, rfl⟩
  obtain ⟨still, -, uses⟩ := gone.reaches old later
  refine ⟨sound.not_usable_iff.mpr still, fun u member kind nonce => ?_⟩
  have used : u.entry ∈ t.ledger.used := sound.used ▸ List.mem_map_of_mem member
  have known := uses _ used (congrArg₂ challengeKey kind nonce)
  rw [start.used] at known
  obtain ⟨w, there, same⟩ := List.mem_map.mp known
  exact ChallengeUse.entry_injective same ▸ there

/-- A comparison with what `put` has stored. -/
private theorem compare_stored (s : ChallengeWorld) (request : Nat) (kind : ChallengeKind)
    (userId owner : Id) (nonce : String) (challenge : Bytes) :
    s.compare request kind userId nonce (some (storedChallenge owner challenge)) =
      if owner = userId then s.goTo request (.verifying kind userId nonce challenge)
      else s.finish request := by
  simp only [ChallengeWorld.compare, Option.bind_some, readChallenge_storedChallenge]

/-- User 2 answers the challenge that was issued for them, and the request is sent again. -/
def replayedChallenge : List ChallengeEvent :=
  [.options 0 .authenticate 2, .put 0 "nonce" [7] true, .finish 1 .authenticate 2 "nonce", .take 1,
   .compare 1, .verify 1, .finish 2 .authenticate 2 "nonce", .take 2, .compare 2]

theorem challenges_spent_replayed : ∃ t, play ChallengeWorld.next replayedChallenge {} = some t ∧
    t.uses = [⟨1, .authenticate, "nonce", 2, [7]⟩] ∧ t.Spent := by
  obtain ⟨t, played, uses⟩ : ∃ t, play ChallengeWorld.next replayedChallenge {} = some t ∧
      t.uses = [⟨1, .authenticate, "nonce", 2, [7]⟩] := by
    have refused : ∀ s : ChallengeWorld,
        (s.compare 2 .authenticate 2 "nonce" none).uses = s.uses := fun _ => rfl
    simp [play, replayedChallenge, ChallengeWorld.next, ChallengeWorld.goTo, ChallengeWorld.put,
      compare_stored, Ledger.apply, Ledger.take, Ledger.use, ChallengeIssue.entry, refused]
  have run : Reaches (Guarded (fun _ _ => True) ChallengeWorld.Step) {} t :=
    Reaches.of_play (fun _ _ _ => trivial) played
  exact ⟨t, played, uses, (challenges_spent (Reaches.refl _ _) run.of_guarded).1⟩

end MegooPM
