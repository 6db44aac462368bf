import MegooPM.Data.Tables
import MegooPM.Lib.Transition
import Mathlib.Logic.Function.Basic
import Std.Data.String.ToInt

/-!
# Rate limits

`services/rate_limit.py`: fixed-window counters in Redis. A hit counts and, if it was the
first of its window, sets the expiry with a second command. Between the two commands the
client may die, and the second may fail; no later hit sets the expiry again.
-/
namespace MegooPM

open Lib

/-! ### Redis -/

/-- A counter key; `expiresAt` is in milliseconds, `none` for a key that stays. -/
structure Counter where
  count : Nat
  expiresAt : Option Nat := none
  deriving DecidableEq, Repr

/-- What the limiter counts. -/
inductive RateKey where
  | resetEmail (hash : String)
  | resetIp (ip : String)
  | redeemIp (ip : String)
  | mfaUser (userId : Id)
  | mfaIp (ip : String)
  deriving DecidableEq, Repr

def ratePrefix : String := "megoopm:ratelimit"

def RateKey.text : RateKey → String
  | .resetEmail hash => ratePrefix ++ ":reset:email:" ++ hash
  | .resetIp ip => ratePrefix ++ ":reset:ip:" ++ ip
  | .redeemIp ip => ratePrefix ++ ":reset-redeem:ip:" ++ ip
  | .mfaUser userId => ratePrefix ++ ":mfa:user:" ++ toString userId
  | .mfaIp ip => ratePrefix ++ ":mfa:ip:" ++ ip

/-- `RESET_EMAIL_LIMIT`, `MFA_ATTEMPT_LIMIT`, and `RESET_IP_LIMIT` for the rest. -/
def RateKey.limit : RateKey → Nat
  | .resetEmail _ => 3
  | .mfaUser _ => 10
  | _ => 10

/-- Seconds: `MFA_WINDOW_S` for a user's codes, `RESET_WINDOW_S` for the rest. -/
def RateKey.window : RateKey → Nat
  | .mfaUser _ => 300
  | _ => 3600

theorem RateKey.limit_pos (k : RateKey) : 1 ≤ k.limit := by
  cases k <;> simp [RateKey.limit]

/-- The letters that tell the kinds of keys apart. -/
private def rateTag (text : String) : List Char :=
  text.toList.take 25

private theorem rateTag_text {head : String} (long : 25 ≤ head.toList.length) (rest : String) :
    rateTag (head ++ rest) = head.toList.take 25 := by
  rw [rateTag, String.toList_append, List.take_append_of_le_length long]

private theorem append_cancel {head a b : String} (same : head ++ a = head ++ b) : a = b := by
  have texts := congrArg String.toList same
  rw [String.toList_append, String.toList_append] at texts
  exact String.toList_inj.mp (List.append_cancel_left texts)

/-- No two keys share a text, so a key stands for its text. -/
theorem RateKey.text_injective : Function.Injective RateKey.text := by
  intro a b same
  have tags := congrArg rateTag same
  cases a <;> cases b <;> simp only [RateKey.text] at tags same
  case resetEmail.resetEmail | resetIp.resetIp | redeemIp.redeemIp | mfaIp.mfaIp =>
    exact congrArg _ (append_cancel same)
  case mfaUser.mfaUser => exact congrArg _ (Int.repr_injective (append_cancel same))
  all_goals
    rw [rateTag_text (by decide), rateTag_text (by decide)] at tags
    exact absurd tags (by decide)

/-- The server: its clock in milliseconds, and the keys. -/
structure Redis where
  now : Nat := 0
  keys : RateKey → Option Counter := fun _ => none

namespace Redis

def set (r : Redis) (k : RateKey) (c : Option Counter) : Redis :=
  { r with keys := Function.update r.keys k c }

/-- `INCR`: a missing key counts from zero; an expiry stays. -/
def incr (r : Redis) (k : RateKey) : Redis × Nat :=
  let count := ((r.keys k).map (·.count)).getD 0 + 1
  (r.set k (some { count, expiresAt := (r.keys k).bind (·.expiresAt) }), count)

/-- `EXPIRE`: nothing happens to a missing key. -/
def expire (r : Redis) (k : RateKey) (seconds : Nat) : Redis :=
  match r.keys k with
  | none => r
  | some c => r.set k (some { c with expiresAt := some (r.now + 1000 * seconds) })

/-- `TTL`: -2 without the key, -1 without an expiry, else seconds, rounded. -/
def ttl (r : Redis) (k : RateKey) : Int :=
  match r.keys k with
  | none => -2
  | some c =>
    match c.expiresAt with
    | none => -1
    | some e => ((e - r.now + 500) / 1000 : Nat)

/-- Time passes, and keys expire. -/
def tick (r : Redis) (ms : Nat) : Redis where
  now := r.now + ms
  keys k := (r.keys k).filter fun c => c.expiresAt.all (r.now + ms < ·)

end Redis

/-! ### A hit -/

inductive HitOutcome where
  | accepted
  | rateLimited (retryAfter : Int)
  /-- `RateLimitUnavailable`: a command failed -/
  | unavailable
  deriving DecidableEq, Repr

/-- `RateLimited(retry_after=ttl if ttl > 0 else window_s)`. -/
def rateLimited (k : RateKey) (ttl : Int) : HitOutcome :=
  .rateLimited (max 1 (if ttl > 0 then ttl else k.window))

/-- `hit`, with nobody else around and every command answered. -/
def hit (r : Redis) (k : RateKey) : Redis × HitOutcome :=
  let (counted, count) := r.incr k
  let armed := if count = 1 then counted.expire k k.window else counted
  (armed, if count > k.limit then rateLimited k (armed.ttl k) else .accepted)

/-- The command a call sends next. -/
inductive HitPhase where
  | incr
  | expire (count : Nat)
  | ttl (count : Nat)
  deriving DecidableEq, Repr

/-- A call under way. -/
structure Hit where
  key : RateKey
  phase : HitPhase := .incr
  deriving DecidableEq, Repr

/-- Past the expiry: the count is compared with the limit. -/
def Hit.compare (h : Hit) (count : Nat) : Hit ⊕ HitOutcome :=
  if count > h.key.limit then .inl { h with phase := .ttl count } else .inr .accepted

/-- The next command, executed: what it leaves, and where the call stands when the answer
arrives. -/
def Hit.command (h : Hit) (r : Redis) : Redis × (Hit ⊕ HitOutcome) :=
  match h.phase with
  | .incr =>
    let (counted, count) := r.incr h.key
    (counted, if count = 1 then .inl { h with phase := .expire count } else h.compare count)
  | .expire count => (r.expire h.key h.key.window, h.compare count)
  | .ttl _ => (r, .inr (rateLimited h.key (r.ttl h.key)))

/-- Three answered commands at most are the whole call. -/
def Hit.finish (h : Hit) (r : Redis) : Nat → Redis × Option HitOutcome
  | 0 => (r, none)
  | n + 1 =>
    match h.command r with
    | (r, .inl next) => next.finish r n
    | (r, .inr outcome) => (r, some outcome)

/-- Command by command, an undisturbed call does what `hit` does. -/
theorem finish_eq_hit (r : Redis) (k : RateKey) :
    ({ key := k } : Hit).finish r 3 = ((hit r k).1, some (hit r k).2) := by
  have first : ¬1 > k.limit := not_lt.mpr k.limit_pos
  by_cases once : (r.incr k).2 = 1
  · simp only [Hit.finish, Hit.command, Hit.compare, hit, once, if_true, first, if_false]
  · by_cases above : (r.incr k).2 > k.limit
    · simp only [Hit.finish, Hit.command, Hit.compare, hit, once, above, if_true, if_false]
    · simp only [Hit.finish, Hit.command, Hit.compare, hit, once, above, if_false]

/-! ### Runs -/

/-- Redis, and the calls the clients are in. -/
structure Limiter where
  redis : Redis := {}
  clients : Nat → Option Hit := fun _ => none

/-- What becomes of a command: its answer arrives, it is not executed, or it is executed and
the answer is lost. -/
inductive Fate where
  | answered | failed | lost
  deriving DecidableEq, Repr

inductive LimiterEvent where
  | start (client : Nat) (key : RateKey)
  | command (client : Nat) (fate : Fate)
  /-- the client dies between two commands -/
  | die (client : Nat)
  | tick (ms : Nat)

def Limiter.setClient (s : Limiter) (client : Nat) (h : Option Hit) : Limiter :=
  { s with clients := Function.update s.clients client h }

inductive LimiterStep : Limiter → LimiterEvent → Limiter → Prop where
  | start {s : Limiter} {client : Nat} {key : RateKey} (idle : s.clients client = none) :
      LimiterStep s (.start client key) (s.setClient client (some { key }))
  | answered {s : Limiter} {client : Nat} {h : Hit} (here : s.clients client = some h) :
      LimiterStep s (.command client .answered)
        ({ s with redis := (h.command s.redis).1 }.setClient client (h.command s.redis).2.getLeft?)
  | failed {s : Limiter} {client : Nat} {h : Hit} (here : s.clients client = some h) :
      LimiterStep s (.command client .failed) (s.setClient client none)
  | lost {s : Limiter} {client : Nat} {h : Hit} (here : s.clients client = some h) :
      LimiterStep s (.command client .lost)
        ({ s with redis := (h.command s.redis).1 }.setClient client none)
  | die {s : Limiter} {client : Nat} : LimiterStep s (.die client) (s.setClient client none)
  | tick {s : Limiter} {ms : Nat} :
      LimiterStep s (.tick ms) { s with redis := s.redis.tick ms }

/-- The call is about to set the expiry. -/
def Hit.arms (h : Hit) : Prop :=
  ∃ count, h.phase = .expire count

/-- The expiry of a new key is set: the call that counted first neither dies nor fails in
between, and the answer to its count is not lost. -/
def ArmsFirst (s : Limiter) : LimiterEvent → Prop
  | .command client .failed => ∀ h, s.clients client = some h → ¬h.arms
  | .die client => ∀ h, s.clients client = some h → ¬h.arms
  | .command client .lost => ∀ h, s.clients client = some h → h.phase = .incr →
      s.redis.keys h.key ≠ none
  | _ => True

/-- A key expires within its window, or a call is about to see to it. -/
def Limiter.Armed (s : Limiter) : Prop :=
  ∀ k c, s.redis.keys k = some c →
    (∃ e, c.expiresAt = some e ∧ e ≤ s.redis.now + 1000 * k.window) ∨
    ∃ i h, s.clients i = some h ∧ h.key = k ∧ h.arms

/-! ### One step -/

section Steps

variable {s : Limiter}

/-- Whoever is about to set an expiry still is, unless they are the one who moved. -/
private theorem arms_setClient {i client : Nat} {h : Hit} {next : Option Hit} (redis : Redis)
    (arming : s.clients i = some h) (other : i ≠ client) :
    ({ s with redis }.setClient client next).clients i = some h := by
  simp only [Limiter.setClient, Function.update_of_ne other, arming]

theorem armed_start {client : Nat} {key : RateKey} (armed : s.Armed)
    (idle : s.clients client = none) : (s.setClient client (some { key })).Armed := by
  intro k c found
  refine (armed k c found).imp_right ?_
  rintro ⟨i, h, arming, own, arms⟩
  refine ⟨i, h, arms_setClient s.redis arming ?_, own, arms⟩
  rintro rfl
  rw [idle] at arming
  cases arming

/-- A call that goes away without having to set an expiry. -/
theorem armed_leave {client : Nat} (armed : s.Armed)
    (free : ∀ h, s.clients client = some h → ¬h.arms) : (s.setClient client none).Armed := by
  intro k c found
  refine (armed k c found).imp_right ?_
  rintro ⟨i, h, arming, own, arms⟩
  refine ⟨i, h, arms_setClient s.redis arming ?_, own, arms⟩
  rintro rfl
  exact free h arming arms

theorem armed_tick (armed : s.Armed) (ms : Nat) :
    ({ s with redis := s.redis.tick ms } : Limiter).Armed := by
  intro k c found
  have before : s.redis.keys k = some c := (Option.filter_eq_some_iff.mp found).1
  rcases armed k c before with ⟨e, expiry, bound⟩ | arming
  · refine Or.inl ⟨e, expiry, ?_⟩
    show e ≤ s.redis.now + ms + 1000 * k.window
    omega
  · exact Or.inr arming

/-- After an executed command: every key but the call's own is as it was, and so is the
clock. -/
theorem command_other (h : Hit) (r : Redis) :
    (h.command r).1.now = r.now ∧ ∀ k, k ≠ h.key → (h.command r).1.keys k = r.keys k := by
  cases phase : h.phase with
  | incr =>
    simp only [Hit.command, phase]
    exact ⟨rfl, fun k other => Function.update_of_ne other _ _⟩
  | expire count =>
    simp only [Hit.command, phase, Redis.expire]
    split
    · exact ⟨rfl, fun _ _ => rfl⟩
    · exact ⟨rfl, fun k other => Function.update_of_ne other _ _⟩
  | ttl count =>
    simp only [Hit.command, phase]
    exact ⟨trivial, fun _ _ => trivial⟩

/-- The expiry a command leaves on its own key: a count keeps it, `EXPIRE` sets it. -/
theorem command_own (h : Hit) (r : Redis) {c : Counter}
    (after : (h.command r).1.keys h.key = some c) :
    (h.arms → c.expiresAt = some (r.now + 1000 * h.key.window)) ∧
    (¬h.arms → (∃ old, r.keys h.key = some old ∧ c.expiresAt = old.expiresAt) ∨
      (r.keys h.key = none ∧ h.phase = .incr ∧
        (h.command r).2 = .inl { h with phase := .expire 1 })) := by
  cases phase : h.phase with
  | incr =>
    have free : ¬h.arms := fun ⟨_, other⟩ => by rw [phase] at other; cases other
    refine ⟨fun arms => absurd arms free, fun _ => ?_⟩
    simp only [Hit.command, phase, Redis.incr, Redis.set, Function.update_self] at after
    cases after
    cases found : r.keys h.key with
    | none =>
      right
      simp [Hit.command, phase, Redis.incr, found]
    | some old => exact Or.inl ⟨old, rfl, by simp⟩
  | expire count =>
    refine ⟨fun _ => ?_, fun free => absurd ⟨count, phase⟩ free⟩
    simp only [Hit.command, phase, Redis.expire] at after
    split at after
    next missing =>
      rw [missing] at after
      cases after
    next old found =>
      simp only [Redis.set, Function.update_self, Option.some_inj] at after
      rw [← after]
  | ttl count =>
    have free : ¬h.arms := fun ⟨_, other⟩ => by rw [phase] at other; cases other
    refine ⟨fun arms => absurd arms free, fun _ => ?_⟩
    simp only [Hit.command, phase] at after
    exact Or.inl ⟨c, after, rfl⟩

/-- An executed command keeps every key on its way to an expiry, as long as the one who has
just made a key goes on. -/
theorem armed_command {client : Nat} {h : Hit} {next : Option Hit} (armed : s.Armed)
    (here : s.clients client = some h)
    (goesOn : s.redis.keys h.key = none → h.phase = .incr →
      (h.command s.redis).2 = .inl { h with phase := .expire 1 } →
      next = some { h with phase := .expire 1 }) :
    ({ s with redis := (h.command s.redis).1 }.setClient client next).Armed := by
  intro k c found
  obtain ⟨clock, others⟩ := command_other h s.redis
  show (∃ e, c.expiresAt = some e ∧ e ≤ (h.command s.redis).1.now + 1000 * k.window) ∨ _
  rw [clock]
  -- a counter of another key is left as it was
  by_cases own : k = h.key
  · subst own
    obtain ⟨sets, keeps⟩ := command_own h s.redis found
    by_cases arms : h.arms
    · exact Or.inl ⟨_, sets arms, le_refl _⟩
    -- the hit sets no expiry: it was there, or the counter is new and this hit owes it
    · rcases keeps arms with ⟨old, before, same⟩ | ⟨missing, phase, answer⟩
      · rcases armed _ old before with ⟨e, expiry, bound⟩ | ⟨i, g, arming, key, arms'⟩
        · exact Or.inl ⟨e, same.trans expiry, bound⟩
        · refine Or.inr ⟨i, g, arms_setClient _ arming ?_, key, arms'⟩
          rintro rfl
          rw [here] at arming
          cases arming
          exact arms arms'
      · refine Or.inr ⟨client, { h with phase := .expire 1 }, ?_, rfl, 1, rfl⟩
        simp only [Limiter.setClient, Function.update_self]
        exact goesOn missing phase answer
  · have before : s.redis.keys k = some c := (others k own).symm.trans found
    refine (armed k c before).imp_right ?_
    rintro ⟨i, g, arming, key, arms⟩
    refine ⟨i, g, arms_setClient _ arming ?_, key, arms⟩
    rintro rfl
    rw [here] at arming
    cases arming
    exact own key.symm

theorem step_armed {e : LimiterEvent} {s' : Limiter} (armed : s.Armed)
    (moved : Guarded ArmsFirst LimiterStep s e s') : s'.Armed := by
  obtain ⟨first, moved⟩ := moved
  cases moved with
  | start idle => exact armed_start armed idle
  | answered here => exact armed_command armed here fun _ _ answer => by rw [answer]; rfl
  | failed here => exact armed_leave armed first
  | lost here =>
    exact armed_command armed here fun missing phase _ => absurd missing (first _ here phase)
  | die => exact armed_leave armed first
  | tick => exact armed_tick armed _

end Steps

/-! ### No permanent ban -/

/-- In every run in which the call that makes a key also gets to set its expiry: a key that no
call is working on has an expiry, and once its window has passed without a hit the next one
is accepted. -/
theorem counter_expires {s : Limiter} (run : Reaches (Guarded ArmsFirst LimiterStep) {} s)
    {k : RateKey} (idle : ∀ client h, s.clients client = some h → h.key ≠ k) :
    (∀ c, s.redis.keys k = some c → c.expiresAt.isSome = true) ∧
    ∀ ms, 1000 * k.window ≤ ms → (hit (s.redis.tick ms) k).2 = .accepted := by
  have armed : s.Armed :=
    run.invariant (P := Limiter.Armed) (fun _ _ _ => step_armed) fun _ _ found => by cases found
  have bounded : ∀ c, s.redis.keys k = some c →
      ∃ e, c.expiresAt = some e ∧ e ≤ s.redis.now + 1000 * k.window := by
    intro c found
    rcases armed k c found with expiry | ⟨client, h, working, own, _⟩
    · exact expiry
    · exact absurd own (idle client h working)
  refine ⟨fun c found => ?_, fun ms passed => ?_⟩
  · obtain ⟨e, expiry, _⟩ := bounded c found
    rw [expiry]
    rfl
  · have gone : (s.redis.tick ms).keys k = none := by
      refine Option.filter_eq_none_iff.mpr fun c found => ?_
      obtain ⟨e, expiry, bound⟩ := bounded c found
      rw [expiry]
      simp only [Option.all_some, decide_eq_true_eq, not_lt]
      omega
    have first : ((s.redis.tick ms).incr k).2 = 1 := by simp [Redis.incr, gone]
    have below : ¬1 > k.limit := not_lt.mpr k.limit_pos
    simp only [hit, first, below, if_false]

/-- The call that made the key has set its expiry. -/
theorem counter_expires_hit : ∃ s : Limiter,
    Reaches (Guarded ArmsFirst LimiterStep) {} s ∧
    s.redis.keys (.resetEmail "9c87") = some { count := 1, expiresAt := some 3600000 } ∧
    ((∀ c, s.redis.keys (.resetEmail "9c87") = some c → c.expiresAt.isSome = true) ∧
      ∀ ms, 1000 * (RateKey.resetEmail "9c87").window ≤ ms →
        (hit (s.redis.tick ms) (.resetEmail "9c87")).2 = .accepted) := by
  have started := (Reaches.refl (Guarded ArmsFirst LimiterStep) {}).tail
    (e := .start 0 (.resetEmail "9c87")) ⟨trivial, .start rfl⟩
  have counted := started.tail (e := .command 0 .answered) ⟨trivial, .answered rfl⟩
  have armed := counted.tail (e := .command 0 .answered) ⟨trivial, .answered rfl⟩
  refine ⟨_, armed, by decide, counter_expires armed fun client h working => ?_⟩
  by_cases same : client = 0
  · subst same
    cases working
  · simp only [Limiter.setClient, Function.update_of_ne same] at working
    cases working

/-- The first `EXPIRE` fails. No hit is in progress afterwards, the key has no expiry, and from
the third hit on the address is refused however long it waits. -/
theorem reset_banned_forever : ∃ s : Limiter,
    Reaches LimiterStep {} s ∧ (∀ client, s.clients client = none) ∧
    s.redis.keys (.resetEmail "9c87") = some { count := 3, expiresAt := none } ∧
    ∀ ms, (hit (s.redis.tick ms) (.resetEmail "9c87")).2 ≠ .accepted := by
  have started := (Reaches.refl LimiterStep {}).tail
    (e := .start 0 (.resetEmail "9c87")) (.start rfl)
  have counted := started.tail (e := .command 0 .answered) (.answered rfl)
  have unarmed := counted.tail (e := .command 0 .failed) (.failed rfl)
  have again := unarmed.tail (e := .start 0 (.resetEmail "9c87")) (.start rfl)
  have second := again.tail (e := .command 0 .answered) (.answered rfl)
  have oncemore := second.tail (e := .start 0 (.resetEmail "9c87")) (.start rfl)
  have third := oncemore.tail (e := .command 0 .answered) (.answered rfl)
  refine ⟨_, third, fun client => ?_, by decide, fun ms => ?_⟩
  · by_cases same : client = 0
    · subst same
      rfl
    · simp only [Limiter.setClient, Function.update_of_ne same]
  · exact fun accepted => HitOutcome.noConfusion accepted

end MegooPM
