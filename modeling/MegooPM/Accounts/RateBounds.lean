import MegooPM.Accounts.RateLimit

/-!
# How much a rate limit lets through

The calls of `services/rate_limit.py` that are accepted along a run: any number of clients at once,
each of which may die between two commands or lose an answer of Redis.
-/
namespace MegooPM

open Lib

/-- The event ends a call for this key, and the call is accepted. -/
def Limiter.accepts (s : Limiter) (k : RateKey) : LimiterEvent → Bool
  | .command client .answered =>
    match s.clients client with
    | some h => h.key = k ∧ (h.command s.redis).2 = .inr .accepted
    | none => false
  | _ => false

/-- A limiter, and the calls for one key that were accepted. -/
structure CountedLimiter where
  limiter : Limiter
  accepted : Nat := 0

def CountedStep (k : RateKey) (s : CountedLimiter) (e : LimiterEvent) (s' : CountedLimiter) :
    Prop :=
  LimiterStep s.limiter e s'.limiter ∧
    s'.accepted = s.accepted + if s.limiter.accepts k e then 1 else 0

namespace Limiter

/-- Some call is about to set the expiry of the key. -/
def Arming (s : Limiter) (k : RateKey) : Prop :=
  ∃ i h, s.clients i = some h ∧ h.key = k ∧ h.arms

/-- Whoever is about to set an expiry is alone in that, and the key is there without one. -/
structure Lone (s : Limiter) (k : RateKey) : Prop where
  counted : ∀ c, s.redis.keys k = some c → 1 ≤ c.count
  unset : s.Arming k → ∃ c, s.redis.keys k = some c ∧ c.expiresAt = none
  alone : ∀ i j g h, s.clients i = some g → s.clients j = some h → g.key = k → h.key = k →
    g.arms → h.arms → i = j

/-- The calls that may have been accepted since a time, the key having been made anew so many
times: all of each earlier window, and of this one those that are counted. -/
def budget (s : Limiter) (k : RateKey) (windows : Nat) : Nat :=
  k.limit * windows + (s.redis.keys k).elim k.limit fun c => min c.count k.limit

variable {s : Limiter} {k : RateKey}

/-- Calls that arm nothing come and go. -/
private theorem arming_setClient {r : Redis} {client : Nat} {next : Option Hit}
    (idle : ∀ h, next = some h → h.key = k → ¬h.arms)
    (arming : ({ s with redis := r }.setClient client next).Arming k) :
    ∃ i h, i ≠ client ∧ s.clients i = some h ∧ h.key = k ∧ h.arms := by
  obtain ⟨i, h, here, own, arms⟩ := arming
  by_cases same : i = client
  · subst same
    simp only [setClient, Function.update_self] at here
    exact absurd arms (idle h here own)
  · simp only [setClient, Function.update_of_ne same] at here
    exact ⟨i, h, same, here, own, arms⟩

private theorem Lone.setClient (lone : s.Lone k) {r : Redis} {client : Nat} {next : Option Hit}
    (idle : ∀ h, next = some h → h.key = k → ¬h.arms)
    (counted : ∀ c, r.keys k = some c → 1 ≤ c.count)
    (unset : (∃ i h, i ≠ client ∧ s.clients i = some h ∧ h.key = k ∧ h.arms) →
      ∃ c, r.keys k = some c ∧ c.expiresAt = none) :
    ({ s with redis := r }.setClient client next).Lone k where
  counted := counted
  unset arming := unset (arming_setClient idle arming)
  alone i j g h here there own own' arms arms' := by
    have away : ∀ i g, ({ s with redis := r }.setClient client next).clients i = some g →
        g.key = k → g.arms → s.clients i = some g := by
      intro i g here own arms
      by_cases same : i = client
      · subst same
        simp only [Limiter.setClient, Function.update_self] at here
        exact absurd arms (idle g here own)
      · simpa only [Limiter.setClient, Function.update_of_ne same] using here
    have first := away i g here own arms
    have second := away j h there own' arms'
    exact lone.alone i j g h first second own own' arms arms'

end Limiter

/-- What every step keeps, from a time on; `windows` counts how often the key was made since. -/
structure CountedLimiter.InBudget (start : Nat) (k : RateKey) (windows : Nat)
    (s : CountedLimiter) : Prop where
  lone : s.limiter.Lone k
  clock : start ≤ s.limiter.redis.now
  accepted : s.accepted ≤ s.limiter.budget k windows
  /-- a call that sets the expiry is accepted next -/
  pending : s.limiter.Arming k → s.accepted + 1 ≤ s.limiter.budget k windows
  missing : s.limiter.redis.keys k = none →
    windows * (1000 * k.window) ≤ s.limiter.redis.now - start
  held : ∀ c, s.limiter.redis.keys k = some c →
    windows * (1000 * k.window) ≤ s.limiter.redis.now - start + 1000 * k.window ∧
    ∀ e, c.expiresAt = some e → windows * (1000 * k.window) ≤ e - start

namespace CountedLimiter

variable {start windows : Nat} {k : RateKey} {s : Limiter} {accepted : Nat}

/-- A step that leaves the key alone. -/
private theorem InBudget.frame (within : InBudget start k windows ⟨s, accepted⟩) {r : Redis}
    (key : r.keys k = s.redis.keys k) (clock : r.now = s.redis.now) {client : Nat}
    {next : Option Hit} (idle : ∀ h, next = some h → h.key = k → ¬h.arms) :
    InBudget start k windows ⟨{ s with redis := r }.setClient client next, accepted⟩ := by
  have same : ({ s with redis := r }.setClient client next).budget k windows =
      s.budget k windows := by
    simp only [Limiter.budget, Limiter.setClient, key]
  have before : ({ s with redis := r }.setClient client next).Arming k → s.Arming k := by
    intro arming
    obtain ⟨i, h, _, here⟩ := Limiter.arming_setClient idle arming
    exact ⟨i, h, here⟩
  refine ⟨?_, ?_, ?_, ?_, ?_, ?_⟩
  · refine within.lone.setClient idle ?_ ?_
    · rw [key]
      exact within.lone.counted
    · rintro ⟨i, h, _, here⟩
      rw [key]
      exact within.lone.unset ⟨i, h, here⟩
  · simp only [Limiter.setClient, clock]
    exact within.clock
  · rw [same]
    exact within.accepted
  · rw [same]
    exact fun arming => within.pending (before arming)
  · simp only [Limiter.setClient, key, clock]
    exact within.missing
  · simp only [Limiter.setClient, key, clock]
    exact within.held

/-- Time passes. A key that goes away was held for its window at least. -/
private theorem InBudget.tick (within : InBudget start k windows ⟨s, accepted⟩) (ms : Nat) :
    InBudget start k windows ⟨{ s with redis := s.redis.tick ms }, accepted⟩ := by
  have clock : start ≤ s.redis.now := within.clock
  have lone : s.Lone k := within.lone
  have unset : s.Arming k → ∃ c, s.redis.keys k = some c ∧ c.expiresAt = none := lone.unset
  have bounded : accepted ≤ s.budget k windows := within.accepted
  have pending : s.Arming k → accepted + 1 ≤ s.budget k windows := within.pending
  have now : (s.redis.tick ms).now = s.redis.now + ms := rfl
  cases kept : (s.redis.tick ms).keys k with
  | none =>
    -- no call can be about to set the expiry of what is gone
    have free : ¬s.Arming k := by
      intro arming
      obtain ⟨c, found, none_⟩ := unset arming
      simp [Redis.tick, found, none_] at kept
    refine ⟨⟨?_, fun arming => absurd arming free, lone.alone⟩, ?_, ?_,
      fun arming => absurd arming free, fun _ => ?_, ?_⟩
    · intro c found
      cases kept.symm.trans found
    · simp only [now]
      omega
    · refine bounded.trans ?_
      simp only [Limiter.budget, kept, Option.elim_none]
      cases s.redis.keys k with
      | none => exact Nat.le_refl _
      | some c => exact Nat.add_le_add_left (Nat.min_le_right _ _) _
    · simp only [now]
      cases found : s.redis.keys k with
      | none =>
        have passed := within.missing found
        simp only at passed
        omega
      | some c =>
        have gone : ¬(c.expiresAt.all fun e => s.redis.now + ms < e) = true := by
          intro alive
          simp only [Redis.tick, found, Option.filter_some, alive, if_true] at kept
          cases kept
        cases expiry : c.expiresAt with
        | none =>
          rw [expiry] at gone
          exact absurd rfl gone
        | some e =>
          -- the expiry was set a window after the key was made
          have ended := (within.held c found).2 e expiry
          rw [expiry, Option.all_some, decide_eq_true_eq] at gone
          omega
    · intro c found
      cases kept.symm.trans found
  | some c =>
    have found : s.redis.keys k = some c := (Option.filter_eq_some_iff.mp kept).1
    have same : ({ s with redis := s.redis.tick ms } : Limiter).budget k windows =
        s.budget k windows := by
      simp only [Limiter.budget, kept, found]
    refine ⟨⟨?_, ?_, lone.alone⟩, ?_, ?_, ?_, ?_, ?_⟩
    · intro c' found'
      cases kept.symm.trans found'
      exact lone.counted c found
    · intro arming
      obtain ⟨c', found', none_⟩ := unset arming
      cases found.symm.trans found'
      exact ⟨c, kept, none_⟩
    · simp only [now]
      omega
    · rw [same]
      exact bounded
    · rw [same]
      exact pending
    · intro missing
      cases kept.symm.trans missing
    · intro c' found'
      cases kept.symm.trans found'
      obtain ⟨long, expiry⟩ := within.held c found
      simp only at long
      refine ⟨?_, expiry⟩
      simp only [now]
      omega

/-- A command that leaves this counter, by a call that goes on without arming. -/
private theorem InBudget.set (within : InBudget start k windows ⟨s, accepted⟩) {client : Nat}
    {next : Option Hit} {c : Counter} {total : Nat}
    (idle : ∀ h, next = some h → h.key = k → ¬h.arms) (counted : 1 ≤ c.count)
    (unset : (∃ i h, i ≠ client ∧ s.clients i = some h ∧ h.key = k ∧ h.arms) → c.expiresAt = none)
    (few : total ≤ k.limit * windows + min c.count k.limit)
    (pending : (∃ i h, i ≠ client ∧ s.clients i = some h ∧ h.key = k ∧ h.arms) →
      total + 1 ≤ k.limit * windows + min c.count k.limit)
    (long : windows * (1000 * k.window) ≤ s.redis.now - start + 1000 * k.window)
    (expiry : ∀ e, c.expiresAt = some e → windows * (1000 * k.window) ≤ e - start) :
    InBudget start k windows
      ⟨{ s with redis := s.redis.set k (some c) }.setClient client next, total⟩ := by
  have key : (s.redis.set k (some c)).keys k = some c := Function.update_self ..
  have budget : ({ s with redis := s.redis.set k (some c) }.setClient client next).budget k
      windows = k.limit * windows + min c.count k.limit := by
    simp only [Limiter.budget, Limiter.setClient, key, Option.elim_some]
  refine ⟨?_, within.clock, ?_, ?_, ?_, ?_⟩
  · refine within.lone.setClient idle ?_ ?_
    · intro c' found
      cases key.symm.trans found
      exact counted
    · exact fun arming => ⟨c, key, unset arming⟩
  · rw [budget]
    exact few
  · rw [budget]
    exact fun arming => pending (Limiter.arming_setClient idle arming)
  · intro missing
    cases key.symm.trans missing
  · intro c' found
    cases key.symm.trans found
    exact ⟨long, expiry⟩

/-- The count that makes the key begins a window. -/
private theorem InBudget.make (within : InBudget start k windows ⟨s, accepted⟩)
    (missing : s.redis.keys k = none) {client : Nat} {next : Option Hit} :
    InBudget start k (windows + 1)
      ⟨{ s with redis := s.redis.set k (some { count := 1 }) }.setClient client next,
        accepted⟩ := by
  have key : (s.redis.set k (some { count := 1 })).keys k = some { count := 1 } :=
    Function.update_self ..
  -- whoever arms the new key is the call that made it
  have maker : ∀ i h, ({ s with redis := s.redis.set k (some { count := 1 }) }.setClient client
      next).clients i = some h → h.key = k → h.arms → i = client := by
    intro i h here own arms
    by_contra other
    simp only [Limiter.setClient, Function.update_of_ne other] at here
    obtain ⟨c, found, _⟩ := within.lone.unset ⟨i, h, here, own, arms⟩
    cases missing.symm.trans found
  have span : (windows + 1) * (1000 * k.window) =
      windows * (1000 * k.window) + 1000 * k.window := Nat.succ_mul _ _
  have bounded := within.accepted
  have passed := within.missing missing
  have one : min 1 k.limit = 1 := Nat.min_eq_left k.limit_pos
  have budget : ({ s with redis := s.redis.set k (some { count := 1 }) }.setClient client
      next).budget k (windows + 1) = k.limit * windows + k.limit + 1 := by
    simp only [Limiter.budget, Limiter.setClient, key, Option.elim_some, one]
    rw [Nat.mul_add, Nat.mul_one]
  simp only [Limiter.budget, missing, Option.elim_none] at bounded
  refine ⟨⟨?_, fun _ => ⟨_, key, rfl⟩, ?_⟩, within.clock, ?_, fun _ => ?_, ?_, ?_⟩
  · intro c found
    cases key.symm.trans found
    exact Nat.le_refl _
  · intro i j g h here there own own' arms arms'
    rw [maker i g here own arms, maker j h there own' arms']
  · rw [budget]
    simp only
    omega
  · rw [budget]
    simp only
    omega
  · intro gone
    cases key.symm.trans gone
  · intro c found
    cases key.symm.trans found
    refine ⟨?_, fun e expiry => by cases expiry⟩
    rw [span]
    exact Nat.add_le_add_right passed _

private theorem compare_cases (h : Hit) (count : Nat) :
    h.compare count = .inl { h with phase := .ttl count } ∧ h.key.limit < count ∨
      h.compare count = .inr .accepted ∧ count ≤ h.key.limit := by
  unfold Hit.compare
  split
  next above => exact Or.inl ⟨rfl, above⟩
  next below => exact Or.inr ⟨rfl, Nat.le_of_not_lt below⟩

private theorem command_key {h g : Hit} {r : Redis} (goesOn : (h.command r).2.getLeft? = some g) :
    g.key = h.key := by
  have compared : ∀ count, (h.compare count).getLeft? = some g → g.key = h.key := by
    intro count goesOn
    rcases compare_cases h count with ⟨same, _⟩ | ⟨same, _⟩
    · rw [same] at goesOn
      cases goesOn
      rfl
    · rw [same] at goesOn
      cases goesOn
  unfold Hit.command at goesOn
  split at goesOn
  next =>
    dsimp only at goesOn
    split at goesOn
    · cases goesOn
      rfl
    · exact compared _ goesOn
  next count _ => exact compared count goesOn
  next => cases goesOn

private theorem idle_compare {h g : Hit} {count : Nat}
    (goesOn : (h.compare count).getLeft? = some g) : ¬g.arms := by
  rintro ⟨_, arms⟩
  rcases compare_cases h count with ⟨same, _⟩ | ⟨same, _⟩
  · rw [same] at goesOn
    cases goesOn
    cases arms
  · rw [same] at goesOn
    cases goesOn

/-- A command that is executed, whether its answer arrives or not. -/
private theorem InBudget.command (within : InBudget start k windows ⟨s, accepted⟩) {client : Nat}
    {h : Hit} (here : s.clients client = some h) {next : Option Hit} {total : Nat}
    (outcome : next = (h.command s.redis).2.getLeft? ∧ total = accepted +
        (if h.key = k ∧ (h.command s.redis).2 = .inr .accepted then 1 else 0) ∨
      next = none ∧ total = accepted) :
    ∃ windows, InBudget start k windows
      ⟨{ s with redis := (h.command s.redis).1 }.setClient client next, total⟩ := by
  by_cases own : h.key = k
  · subst own
    have bounded : accepted ≤ s.budget h.key windows := within.accepted
    cases phase : h.phase with
    | incr =>
      cases found : s.redis.keys h.key with
      | none =>
        have ran : h.command s.redis = (s.redis.set h.key (some { count := 1 }),
            .inl { h with phase := .expire 1 }) := by
          simp [Hit.command, phase, Redis.incr, found]
        rw [ran] at outcome ⊢
        -- the call goes on to set the expiry, so it is not accepted yet
        have total : total = accepted := by
          rcases outcome with ⟨_, total⟩ | ⟨_, total⟩
          · simpa using total
          · exact total
        rw [total]
        exact ⟨windows + 1, within.make found⟩
      | some c =>
        have one : 1 ≤ c.count := within.lone.counted c found
        have ran : h.command s.redis =
            (s.redis.set h.key (some { count := c.count + 1, expiresAt := c.expiresAt }),
              h.compare (c.count + 1)) := by
          simp [Hit.command, phase, Redis.incr, found, Nat.ne_of_gt one]
        rw [ran] at outcome ⊢
        -- a call is accepted only where the budget grows by one
        have gained : total ≤ accepted + (if c.count + 1 ≤ h.key.limit then 1 else 0) := by
          rcases outcome with ⟨_, total⟩ | ⟨_, total⟩
          · rcases compare_cases h (c.count + 1) with ⟨same, above⟩ | ⟨same, below⟩
            · simp [total, same]
            · simp [total, same, below]
          · omega
        have idle : ∀ g, next = some g → g.key = h.key → ¬g.arms := by
          intro g goesOn _
          rcases outcome with ⟨same, _⟩ | ⟨same, _⟩
          · exact idle_compare (same.symm.trans goesOn)
          · cases same.symm.trans goesOn
        have spent : s.budget h.key windows = h.key.limit * windows + min c.count h.key.limit := by
          simp only [Limiter.budget, found, Option.elim_some]
        rw [spent] at bounded
        obtain ⟨long, expiry⟩ := within.held c found
        refine ⟨windows, within.set idle (Nat.le_add_left 1 _) ?_ ?_ ?_ long expiry⟩
        · rintro ⟨i, g, _, arming⟩
          obtain ⟨c', found', none_⟩ := within.lone.unset ⟨i, g, arming⟩
          cases found.symm.trans found'
          exact none_
        · simp only
          split at gained <;> omega
        · rintro ⟨i, g, _, arming⟩
          have pending := within.pending ⟨i, g, arming⟩
          simp only [spent] at pending ⊢
          split at gained <;> omega
    | expire count =>
      have arming : s.Arming h.key := ⟨client, h, here, rfl, count, phase⟩
      have there : ∃ c, s.redis.keys h.key = some c ∧ c.expiresAt = none :=
        within.lone.unset arming
      obtain ⟨c, found, _⟩ := there
      have ran : h.command s.redis = (s.redis.set h.key
          (some { c with expiresAt := some (s.redis.now + 1000 * h.key.window) }),
          h.compare count) := by
        simp [Hit.command, phase, Redis.expire, found]
      rw [ran] at outcome ⊢
      have pending := within.pending arming
      have spent : s.budget h.key windows = h.key.limit * windows + min c.count h.key.limit := by
        simp only [Limiter.budget, found, Option.elim_some]
      simp only [spent] at pending
      have gained : total ≤ accepted + 1 := by
        rcases outcome with ⟨_, total⟩ | ⟨_, total⟩
        · split at total <;> omega
        · omega
      have idle : ∀ g, next = some g → g.key = h.key → ¬g.arms := by
        intro g goesOn _
        rcases outcome with ⟨same, _⟩ | ⟨same, _⟩
        · exact idle_compare (same.symm.trans goesOn)
        · cases same.symm.trans goesOn
      -- nobody else is about to set the expiry
      have free : ¬∃ i g, i ≠ client ∧ s.clients i = some g ∧ g.key = h.key ∧ g.arms := by
        rintro ⟨i, g, other, there, own, arms⟩
        exact other (within.lone.alone i client g h there here own rfl arms ⟨count, phase⟩)
      obtain ⟨long, _⟩ := within.held c found
      simp only at long
      have clock : start ≤ s.redis.now := within.clock
      refine ⟨windows, within.set idle (within.lone.counted c found)
        (fun arming => absurd arming free) ?_ (fun arming => absurd arming free) long ?_⟩
      · simp only
        omega
      · intro e set
        cases set
        omega
    | ttl count =>
      have ran : h.command s.redis =
          (s.redis, .inr (rateLimited h.key (s.redis.ttl h.key))) := by
        simp [Hit.command, phase]
      rw [ran] at outcome ⊢
      have total : total = accepted := by
        rcases outcome with ⟨_, total⟩ | ⟨_, total⟩
        · simpa [rateLimited] using total
        · exact total
      have ends : next = none := by
        rcases outcome with ⟨same, _⟩ | ⟨same, _⟩
        · exact same
        · exact same
      rw [total, ends]
      exact ⟨windows, within.frame rfl rfl fun _ gone => by cases gone⟩
  · -- a call for another key
    obtain ⟨clock, others⟩ := command_other h s.redis
    have total : total = accepted := by
      rcases outcome with ⟨_, total⟩ | ⟨_, total⟩
      · simpa [own] using total
      · exact total
    rw [total]
    refine ⟨windows, within.frame (others k (Ne.symm own)) clock fun g goesOn key => ?_⟩
    rcases outcome with ⟨same, _⟩ | ⟨same, _⟩
    · exact absurd ((command_key (same.symm.trans goesOn)).symm.trans key) own
    · cases same.symm.trans goesOn

/-- Before the first call nothing is counted. -/
private theorem inBudget_start (k : RateKey) : InBudget 0 k 0 { limiter := {} } where
  lone :=
    { counted := fun _ found => by cases found
      unset := by
        rintro ⟨_, _, here, _⟩
        cases here
      alone := fun _ _ _ _ here => by cases here }
  clock := Nat.le_refl _
  accepted := Nat.zero_le _
  pending := by
    rintro ⟨_, _, here, _⟩
    cases here
  missing _ := by
    rw [Nat.zero_mul]
    exact Nat.zero_le _
  held _ found := by cases found

theorem InBudget.step {s s' : CountedLimiter} {e : LimiterEvent}
    (within : InBudget start k windows s) (moved : CountedStep k s e s') :
    ∃ windows, InBudget start k windows s' := by
  obtain ⟨s, accepted⟩ := s
  obtain ⟨s', total⟩ := s'
  obtain ⟨moved, gained⟩ := moved
  simp only at moved gained
  cases moved with
  | start idle =>
    cases gained
    refine ⟨windows, within.frame rfl rfl fun g started _ => ?_⟩
    cases started
    rintro ⟨_, arms⟩
    cases arms
  | @answered client h here =>
    refine within.command here (Or.inl ⟨rfl, ?_⟩)
    rw [gained]
    simp only [Limiter.accepts, here, decide_eq_true_eq]
  | failed here =>
    cases gained
    exact ⟨windows, within.frame rfl rfl fun _ gone => by cases gone⟩
  | lost here =>
    cases gained
    exact within.command here (Or.inr ⟨rfl, rfl⟩)
  | die =>
    cases gained
    exact ⟨windows, within.frame rfl rfl fun _ gone => by cases gone⟩
  | tick =>
    cases gained
    exact ⟨windows, within.tick _⟩

end CountedLimiter

/-- However the calls of any number of clients are interleaved, and whichever of them die, fail or
lose an answer: in any stretch of time at most so many calls for a key are accepted as fit in its
windows, and in two windows more. -/
theorem rate_limit_bounds (k : RateKey) {s : Limiter} (before : Reaches LimiterStep {} s)
    {s' : CountedLimiter} (run : Reaches (CountedStep k) { limiter := s } s') :
    s'.accepted ≤
      k.limit * ((s'.limiter.redis.now - s.redis.now) / (1000 * k.window) + 2) := by
  have lone : s.Lone k := by
    -- the calls before are counted as well, from the start of Redis
    have counted : ∃ windows accepted, CountedLimiter.InBudget 0 k windows ⟨s, accepted⟩ := by
      refine before.invariant
        (P := fun s => ∃ windows accepted, CountedLimiter.InBudget 0 k windows ⟨s, accepted⟩) ?_ ?_
      · rintro s e s' ⟨windows, accepted, within⟩ moved
        have counted : CountedStep k ⟨s, accepted⟩ e
            ⟨s', accepted + if s.accepts k e then 1 else 0⟩ := ⟨moved, rfl⟩
        obtain ⟨windows, within⟩ := within.step counted
        exact ⟨windows, _, within⟩
      · exact ⟨0, 0, CountedLimiter.inBudget_start k⟩
    obtain ⟨_, _, within⟩ := counted
    exact within.lone
  have start : CountedLimiter.InBudget s.redis.now k 0 { limiter := s } := by
    refine ⟨lone, Nat.le_refl _, Nat.zero_le _, ?_, ?_, ?_⟩
    · intro arming
      obtain ⟨c, found, _⟩ := lone.unset arming
      have one := lone.counted c found
      have first := k.limit_pos
      simp only [Limiter.budget, found, Option.elim_some]
      omega
    · intro _
      rw [Nat.zero_mul]
      exact Nat.zero_le _
    · intro c _
      rw [Nat.zero_mul]
      exact ⟨Nat.zero_le _, fun _ _ => Nat.zero_le _⟩
  -- from then on, each step of the run
  have within : ∃ windows, CountedLimiter.InBudget s.redis.now k windows s' :=
    run.invariant (P := fun s' => ∃ windows, CountedLimiter.InBudget s.redis.now k windows s')
      (fun _ _ _ ⟨_, within⟩ moved => within.step moved) ⟨0, start⟩
  obtain ⟨windows, within⟩ := within
  have span : 0 < 1000 * k.window := by cases k <;> simp [RateKey.window]
  have long : windows * (1000 * k.window) ≤
      s'.limiter.redis.now - s.redis.now + 1000 * k.window := by
    cases found : s'.limiter.redis.keys k with
    | none => exact Nat.le_add_right_of_le (within.missing found)
    | some c => exact (within.held c found).1
  have few : windows ≤ (s'.limiter.redis.now - s.redis.now) / (1000 * k.window) + 1 := by
    rw [← Nat.add_div_right _ span]
    exact (Nat.le_div_iff_mul_le span).mpr long
  have spent : s'.limiter.budget k windows ≤ k.limit * (windows + 1) := by
    rw [Nat.mul_add, Nat.mul_one]
    refine Nat.add_le_add_left ?_ _
    cases s'.limiter.redis.keys k with
    | none => exact Nat.le_refl _
    | some c => exact Nat.min_le_right _ _
  calc s'.accepted ≤ s'.limiter.budget k windows := within.accepted
    _ ≤ k.limit * (windows + 1) := spent
    _ ≤ _ := Nat.mul_le_mul_left _ (Nat.succ_le_succ few)

/-- Two calls at once: the second counts before the first has set the expiry, and both are
accepted. -/
theorem rate_limit_bounds_two : ∃ s' : CountedLimiter,
    Reaches (CountedStep (.redeemIp "203.0.113.7")) { limiter := {} } s' ∧
    s'.accepted = 2 ∧ s'.limiter.redis.now = 3600000 ∧
    s'.accepted ≤ (RateKey.redeemIp "203.0.113.7").limit *
      ((s'.limiter.redis.now - 0) / (1000 * (RateKey.redeemIp "203.0.113.7").window) + 2) := by
  have first := (Reaches.refl (CountedStep (.redeemIp "203.0.113.7")) { limiter := {} }).tail
    (e := .start 0 (.redeemIp "203.0.113.7")) (u := ⟨_, 0⟩) ⟨.start rfl, rfl⟩
  have counted := first.tail (e := .command 0 .answered) (u := ⟨_, 0⟩) ⟨.answered rfl, rfl⟩
  have second := counted.tail (e := .start 1 (.redeemIp "203.0.113.7")) (u := ⟨_, 0⟩)
    ⟨.start rfl, rfl⟩
  have passed := second.tail (e := .command 1 .answered) (u := ⟨_, 1⟩) ⟨.answered rfl, rfl⟩
  have armed := passed.tail (e := .command 0 .answered) (u := ⟨_, 2⟩) ⟨.answered rfl, rfl⟩
  have later := armed.tail (e := .tick 3600000) (u := ⟨_, 2⟩) ⟨.tick, rfl⟩
  exact ⟨_, later, by decide, by decide, rate_limit_bounds _ (.refl _ _) later⟩

end MegooPM
