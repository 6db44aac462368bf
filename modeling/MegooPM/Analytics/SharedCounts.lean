import MegooPM.Analytics.Flush
import MegooPM.Lib.Items
import MegooPM.Lib.LuaPattern
import MegooPM.Lib.Transition

/-!
# Counting in shared memory

`lua/megoopm_analytics.lua`: the log phase of every worker adds to a shared dict, and a timer of
one worker drains the dict into Redis pipelines. Each call of the dict is atomic. Between the
call that reads a counter and the one that subtracts what was read, other workers may add; while
a drain waits for Redis, the same worker may start another one.
-/
namespace MegooPM.Analytics

open Lib

/-- What the module reads of `megoopm_analytics_conf`. -/
structure CountingConf where
  enabled : Bool
  hashPrefix : LuaText
  ttl : Int
  statusPort : Option LuaText

/-- What `os.date("!%Y-%m-%d")` gives. -/
abbrev UtcDay := {day : LuaText // day ≠ [] ∧ ∀ c ∈ day, c.isDigit = true ∨ c = '-'}

/-! ### The request path -/

/-- The variables of a request that the log phase reads; `bytesSent` is past `tonumber`. -/
structure LoggedRequest where
  serverPort : LuaText
  uri : LuaText
  remoteAddr : Option LuaText
  bytesSent : Option Nat

def Kind.letter : Kind → Char
  | .count => 'c'
  | .bytes => 'b'

theorem Kind.letter_inj {kind other : Kind} (same : kind.letter = other.letter) : kind = other := by
  cases kind <;> cases other <;> simp_all [Kind.letter]

def counterKey (kind : Kind) (day ip : LuaText) : LuaText :=
  kind.letter :: '|' :: (day ++ '|' :: ip)

/-- `M.log`: the increments it makes, one after the other. -/
def log (conf : CountingConf) (request : LoggedRequest) (day : UtcDay) : List (LuaText × Int) :=
  if !conf.enabled then []
  else if conf.statusPort = some request.serverPort then []
  else if request.uri = "/healthz".toList then []
  else
    match request.remoteAddr with
    | none => []
    | some ip =>
      if ip = [] then []
      else [(counterKey .count day.1 ip, 1),
        (counterKey .bytes day.1 ip, (request.bytesSent.getD 0 : Nat))]

/-! ### The dict -/

abbrev SharedDict := Items LuaText Int

/-- `shm:incr(key, n, init)` -/
def SharedDict.incr (shm : SharedDict) (key : LuaText) (n : Int) (init : Option Int) : SharedDict :=
  match itemAt shm key with
  | some value => setItem shm key (value + n)
  | none =>
    match init with
    | some value => setItem shm key (value + n)
    | none => shm

/-- What is left under a key. -/
def SharedDict.remaining (shm : SharedDict) (key : LuaText) : Int :=
  (itemAt shm key).getD 0

/-! ### The drain -/

/-- What goes into a pipeline. -/
inductive Command where
  | hincrby (hash field : LuaText) (value : Int)
  | expire (hash : LuaText) (ttl : Int)
deriving DecidableEq

/-- The pattern a key is taken apart with. -/
def counterPattern : String := "^(%a)|([%d-]+)|(.+)$"

def hashName (conf : CountingConf) (kind day : LuaText) : LuaText :=
  conf.hashPrefix ++ (if kind = ['c'] then ":count:".toList else ":bytes:".toList) ++ day

/-- The commands for a value that was read under a key. -/
def push (conf : CountingConf) (key : LuaText) (value : Int) : List Command :=
  match luaMatch counterPattern key with
  | some ([kind, day, ip], _) =>
    [.hincrby (hashName conf kind day) ip value, .expire (hashName conf kind day) conf.ttl]
  | _ => []

/-- Where one run of `M.drain` stands. -/
inductive Drain where
  | idle
  /-- it has its keys and waits for the connection -/
  | connecting (keys : List LuaText)
  /-- it is in the loop, before a key -/
  | draining (keys : List LuaText) (pipeline : List Command)
  /-- it has read a positive value -/
  | taking (key : LuaText) (value : Int) (keys : List LuaText) (pipeline : List Command)
  | committing (pipeline : List Command)
deriving DecidableEq

/-- The dict, what each worker's log phase has still to add, the drains of the one worker and the
one that holds its thread; and what was added and handed to pipelines so far. -/
structure SharedCounting where
  shm : SharedDict
  pending : Nat → List (LuaText × Int)
  drains : Nat → Drain
  running : Option Nat
  added : List (LuaText × Int)
  handed : List Command

inductive CountingEvent where
  /-- a request is logged -/
  | log (worker : Nat) (request : LoggedRequest) (day : UtcDay)
  /-- the next increment of a worker -/
  | add (worker : Nat)
  /-- the timer starts a drain -/
  | drain (d : Nat)
  | connected (d : Nat)
  | refused (d : Nat)
  /-- `shm:get` of the next key -/
  | read (d : Nat)
  /-- the subtraction, and the commands -/
  | take (d : Nat)
  | commit (d : Nat)
  /-- the pipeline is over, with or without an error -/
  | settled (d : Nat)

namespace SharedCounting

def empty : SharedCounting where
  shm := []
  pending := fun _ => []
  drains := fun _ => .idle
  running := none
  added := []
  handed := []

/-- A drain moves, and the thread is held as given. -/
def move (w : SharedCounting) (d : Nat) (s : Drain) (running : Option Nat) : SharedCounting :=
  { w with drains := Function.update w.drains d s, running := running }

def next (conf : CountingConf) (w : SharedCounting) : CountingEvent → Option SharedCounting
  | .log worker request day =>
    if w.pending worker = [] then
      some { w with pending := Function.update w.pending worker (log conf request day) }
    else none
  | .add worker =>
    match w.pending worker with
    | [] => none
    | (key, n) :: rest =>
      some { w with
        shm := w.shm.incr key n (some 0)
        pending := Function.update w.pending worker rest
        added := w.added ++ [(key, n)] }
  | .drain d =>
    if w.drains d = .idle ∧ w.running = none then
      if !conf.enabled then some w
      else if w.shm = [] then some w
      else some (w.move d (.connecting (w.shm.map (·.1))) none)
    else none
  | .connected d =>
    match w.drains d with
    | .connecting keys =>
      if w.running = none then some (w.move d (.draining keys []) (some d)) else none
    | _ => none
  | .refused d =>
    match w.drains d with
    | .connecting _ => if w.running = none then some (w.move d .idle none) else none
    | _ => none
  | .read d =>
    match w.drains d with
    | .draining (key :: keys) pipeline =>
      match itemAt w.shm key with
      | some value =>
        if 0 < value then some (w.move d (.taking key value keys pipeline) w.running)
        else some (w.move d (.draining keys pipeline) w.running)
      | none => some (w.move d (.draining keys pipeline) w.running)
    | _ => none
  | .take d =>
    match w.drains d with
    | .taking key value keys pipeline =>
      some { w.move d (.draining keys (pipeline ++ push conf key value)) w.running with
        shm := w.shm.incr key (-value) none
        handed := w.handed ++ push conf key value }
    | _ => none
  | .commit d =>
    match w.drains d with
    | .draining [] pipeline =>
      -- an empty pipeline is cancelled
      some (w.move d (if pipeline = [] then .idle else .committing pipeline) none)
    | _ => none
  | .settled d =>
    match w.drains d with
    | .committing _ => some (w.move d .idle w.running)
    | _ => none

def Step (conf : CountingConf) (w : SharedCounting) (e : CountingEvent) (w' : SharedCounting) :
    Prop :=
  w.next conf e = some w'

end SharedCounting

/-! ### Keys -/

/-- A counter of the dict. -/
@[ext] structure SharedCounter where
  kind : Kind
  day : UtcDay
  ip : LuaText
  some_ : ip ≠ []

namespace SharedCounter

def key (c : SharedCounter) : LuaText :=
  counterKey c.kind c.day.1 c.ip

/-- The hash of its kind and day. -/
def hash (conf : CountingConf) (c : SharedCounter) : LuaText :=
  conf.hashPrefix ++
    (match c.kind with | .count => ":count:".toList | .bytes => ":bytes:".toList) ++ c.day.1

end SharedCounter

/-- The part of the pattern before the address. -/
def counterItems : List LuaItem :=
  [.opening, .piece (.named 'a') .once, .closing, .piece (.only '|') .once,
    .opening, .piece (.set false ['-'] ['d']) .plus, .closing, .piece (.only '|') .once]

theorem luaMatch_key (c : SharedCounter) :
    luaMatch counterPattern c.key = some ([[c.kind.letter], c.day.1, c.ip], []) := by
  have read : readLuaPattern counterPattern = some (counterItems ++ lastCapture .plus) := by
    decide +kernel
  have letter : (LuaClass.named 'a').holds c.kind.letter = true := by
    cases c.kind <;> rfl
  have day : ∀ d ∈ c.day.1, (LuaClass.set false ['-'] ['d']).holds d = true := by
    intro d member
    rcases c.day.2.2 d member with digit | rfl
    · simp [LuaClass.holds, namedHolds, digit]
    · rfl
  have bar : (LuaClass.only '|').holds '|' = true := rfl
  have spelled : Spelled counterItems [] [[c.kind.letter], c.day.1]
      (c.kind.letter :: '|' :: (c.day.1 ++ ['|'])) :=
    .opening (.once letter (.closing (.once bar (.opening (.plus c.day.2.1 day
      (.closing (.once bar .nil)))))))
  have split : c.key = c.kind.letter :: '|' :: (c.day.1 ++ ['|']) ++ c.ip := by
    simp [SharedCounter.key, counterKey]
  exact (luaMatch_lastCapture_iff (by decide) read rfl [[c.kind.letter], c.day.1] c.ip).mpr
    ⟨⟨_, split, spelled⟩, fun ⟨_, empty⟩ => c.some_ empty⟩

theorem push_key (conf : CountingConf) (c : SharedCounter) (value : Int) :
    push conf c.key value =
      [.hincrby (c.hash conf) c.ip value, .expire (c.hash conf) conf.ttl] := by
  have hash : hashName conf [c.kind.letter] c.day.1 = c.hash conf := by
    rw [hashName, SharedCounter.hash]
    cases c.kind <;> rfl
  simp only [push, luaMatch_key, hash]

/-- Counters with a key in common, or with a field of a hash, are one. -/
theorem SharedCounter.eq_of_key {c d : SharedCounter} (same : c.key = d.key) : c = d := by
  have parts := (luaMatch_key c).symm.trans ((congrArg _ same).trans (luaMatch_key d))
  simp only [Option.some.injEq, Prod.mk.injEq, List.cons.injEq, and_true] at parts
  exact SharedCounter.ext (Kind.letter_inj parts.1) (Subtype.ext parts.2.1) parts.2.2

private theorem countHash_ne_bytesHash (count bytes : LuaText) :
    ":count:".toList ++ count ≠ ":bytes:".toList ++ bytes := by
  intro same
  have second := congrArg (fun text : LuaText => text[1]?) same
  simp only [List.getElem?_append_left (show 1 < ":count:".toList.length by decide),
    List.getElem?_append_left (show 1 < ":bytes:".toList.length by decide)] at second
  revert second
  decide

theorem SharedCounter.eq_of_hash {conf : CountingConf} {c d : SharedCounter}
    (hash : c.hash conf = d.hash conf) (ip : c.ip = d.ip) : c = d := by
  simp only [SharedCounter.hash, List.append_assoc, List.append_cancel_left_eq] at hash
  cases ofC : c.kind with
  | count =>
    cases ofD : d.kind with
    | count =>
      rw [ofC, ofD] at hash
      exact SharedCounter.ext (ofC.trans ofD.symm) (Subtype.ext (List.append_cancel_left hash)) ip
    | bytes =>
      rw [ofC, ofD] at hash
      exact absurd hash (countHash_ne_bytesHash _ _)
  | bytes =>
    cases ofD : d.kind with
    | count =>
      rw [ofC, ofD] at hash
      exact absurd hash.symm (countHash_ne_bytesHash _ _)
    | bytes =>
      rw [ofC, ofD] at hash
      exact SharedCounter.ext (ofC.trans ofD.symm) (Subtype.ext (List.append_cancel_left hash)) ip

/-! ### What a step keeps -/

def Command.amount (hash field : LuaText) : Command → Int
  | .hincrby h f value => if h = hash ∧ f = field then value else 0
  | .expire _ _ => 0

/-- What the commands add to a field of a hash. -/
def handedTo (hash field : LuaText) (commands : List Command) : Int :=
  (commands.map (Command.amount hash field)).sum

theorem handedTo_append (hash field : LuaText) (first later : List Command) :
    handedTo hash field (first ++ later) =
      handedTo hash field first + handedTo hash field later := by
  rw [handedTo, List.map_append, List.sum_append, handedTo, handedTo]

theorem handedTo_push (conf : CountingConf) (c d : SharedCounter) (value : Int) :
    handedTo (d.hash conf) d.ip (push conf c.key value) = if c.key = d.key then value else 0 := by
  rw [push_key]
  by_cases same : c.key = d.key
  · cases SharedCounter.eq_of_key same
    simp [handedTo, Command.amount]
  · have other : ¬(c.hash conf = d.hash conf ∧ c.ip = d.ip) := by
      rintro ⟨hash, ip⟩
      exact same (congrArg _ (SharedCounter.eq_of_hash hash ip))
    simp [handedTo, Command.amount, other, same]

/-- An increment that finds its key, or brings its first value. -/
theorem SharedDict.itemAt_incr {shm : SharedDict} {key : LuaText} {n : Int} {init : Option Int}
    (known : init = some 0 ∨ (itemAt shm key).isSome = true) (k : LuaText) :
    itemAt (shm.incr key n init) k =
      if key = k then some (shm.remaining key + n) else itemAt shm k := by
  unfold SharedDict.incr SharedDict.remaining
  cases held : itemAt shm key with
  | some value => exact itemAt_setItem shm key k (value + n)
  | none =>
    rcases known with rfl | present
    · exact itemAt_setItem shm key k (0 + n)
    · rw [held] at present
      cases present

theorem SharedDict.remaining_incr {shm : SharedDict} {key : LuaText} {n : Int} {init : Option Int}
    (known : init = some 0 ∨ (itemAt shm key).isSome = true) (k : LuaText) :
    (shm.incr key n init).remaining k = shm.remaining k + if key = k then n else 0 := by
  rw [SharedDict.remaining, itemAt_incr known]
  by_cases same : key = k
  · rw [if_pos same, if_pos same, ← same]
    rfl
  · rw [if_neg same, if_neg same, Int.add_zero]
    rfl

/-- A key of the log phase. -/
def IsCounter (key : LuaText) : Prop :=
  ∃ c : SharedCounter, c.key = key

theorem isCounter_of_mem_log {conf : CountingConf} {request : LoggedRequest} {day : UtcDay}
    {entry : LuaText × Int} (member : entry ∈ log conf request day) :
    IsCounter entry.1 ∧ 0 ≤ entry.2 := by
  unfold log at member
  split at member
  · cases member
  split at member
  · cases member
  split at member
  · cases member
  split at member
  · cases member
  next ip _ =>
    split at member
    · cases member
    next some_ =>
      rcases List.mem_pair.mp member with rfl | rfl
      · exact ⟨⟨⟨.count, day, ip, some_⟩, rfl⟩, Int.one_nonneg⟩
      · exact ⟨⟨⟨.bytes, day, ip, some_⟩, rfl⟩, Int.natCast_nonneg _⟩

namespace Drain

/-- The keys of a drain are counters, and under the key it has read there is still as much. -/
def Sound (shm : SharedDict) : Drain → Prop
  | idle => True
  | connecting keys => ∀ key ∈ keys, IsCounter key
  | draining keys _ => ∀ key ∈ keys, IsCounter key
  | taking key value keys _ =>
    (∀ k ∈ key :: keys, IsCounter k) ∧ ∃ held, itemAt shm key = some held ∧ value ≤ held
  | committing _ => True

/-- It holds the thread of its worker. -/
def Inside : Drain → Prop
  | draining _ _ => True
  | taking _ _ _ _ => True
  | _ => False

theorem Sound.mono {shm shm' : SharedDict} {s : Drain} (sound : s.Sound shm)
    (grows : ∀ key value, itemAt shm key = some value →
      ∃ value', itemAt shm' key = some value' ∧ value ≤ value') : s.Sound shm' := by
  cases s with
  | taking key value keys pipeline =>
    obtain ⟨counters, held, found, enough⟩ := sound
    obtain ⟨held', found', more⟩ := grows key held found
    exact ⟨counters, held', found', Int.le_trans enough more⟩
  | idle => trivial
  | connecting keys => exact sound
  | draining keys pipeline => exact sound
  | committing pipeline => trivial

/-- What a drain that does not hold the thread relies on is not in the dict. -/
theorem Sound.outside {shm shm' : SharedDict} {s : Drain} (sound : s.Sound shm)
    (outside : ¬s.Inside) : s.Sound shm' := by
  cases s with
  | taking key value keys pipeline => exact absurd trivial outside
  | idle => trivial
  | connecting keys => exact sound
  | draining keys pipeline => exact sound
  | committing pipeline => trivial

end Drain

/-- Every counter is in balance. -/
structure KeysBalanced (conf : CountingConf) (w : SharedCounting) : Prop where
  counters : ∀ key value, itemAt w.shm key = some value → IsCounter key ∧ 0 ≤ value
  pending : ∀ worker, ∀ entry ∈ w.pending worker, IsCounter entry.1 ∧ 0 ≤ entry.2
  sound : ∀ d, (w.drains d).Sound w.shm
  alone : ∀ d, (w.drains d).Inside → w.running = some d
  commands : ∀ command ∈ w.handed, ∃ c : SharedCounter,
    (∃ value, command = .hincrby (c.hash conf) c.ip value) ∨
      command = .expire (c.hash conf) conf.ttl
  balance : ∀ c : SharedCounter, handedTo (c.hash conf) c.ip w.handed + w.shm.remaining c.key =
    valueOf Prod.fst Prod.snd w.added c.key

section Steps

variable {conf : CountingConf} {w w' : SharedCounting} {d : Nat}

/-- A drain moves, and touches nothing else. -/
private theorem KeysBalanced.move {s : Drain} {running : Option Nat} (balanced : KeysBalanced conf w)
    (sound : s.Sound w.shm) (inside : s.Inside → running = some d)
    (others : ∀ e, e ≠ d → (w.drains e).Inside → running = some e) :
    KeysBalanced conf (w.move d s running) := by
  refine ⟨balanced.counters, balanced.pending, fun e => ?_, fun e within => ?_, balanced.commands,
    balanced.balance⟩
  · by_cases same : e = d
    · subst same
      simpa [SharedCounting.move] using sound
    · simpa [SharedCounting.move, same] using balanced.sound e
  · by_cases same : e = d
    · subst same
      exact inside (by simpa [SharedCounting.move] using within)
    · exact others e same (by simpa [SharedCounting.move, same] using within)

/-- A drain that holds the thread moves on. -/
private theorem KeysBalanced.within {s : Drain} (balanced : KeysBalanced conf w)
    (here : (w.drains d).Inside) (sound : s.Sound w.shm) :
    KeysBalanced conf (w.move d s w.running) :=
  balanced.move sound (fun _ => balanced.alone d here) fun e _ => balanced.alone e

/-- No other drain holds the thread when one does, or none. -/
private theorem KeysBalanced.others (balanced : KeysBalanced conf w)
    (free : w.running = none ∨ (w.drains d).Inside) (running : Option Nat) (e : Nat) (other : e ≠ d)
    (within : (w.drains e).Inside) : running = some e := by
  have holds := balanced.alone e within
  rcases free with free | here
  · rw [free] at holds
    cases holds
  · rw [balanced.alone d here] at holds
    exact absurd (Option.some.inj holds).symm other

private theorem KeysBalanced.add {worker : Nat} {key : LuaText} {n : Int}
    {rest : List (LuaText × Int)} (balanced : KeysBalanced conf w)
    (pending : w.pending worker = (key, n) :: rest) :
    KeysBalanced conf { w with
      shm := w.shm.incr key n (some 0)
      pending := Function.update w.pending worker rest
      added := w.added ++ [(key, n)] } := by
  -- with an initial value `incr` never fails
  have known : some (0 : Int) = some 0 ∨ (itemAt w.shm key).isSome = true := Or.inl rfl
  have entry := balanced.pending worker (key, n) (by rw [pending]; exact List.mem_cons_self)
  refine ⟨fun k value found => ?_, fun other => ?_, fun e => ?_, balanced.alone,
    balanced.commands, fun c => ?_⟩
  · dsimp only at found
    rw [SharedDict.itemAt_incr known] at found
    split at found
    next same =>
      cases found
      refine ⟨same ▸ entry.1, ?_⟩
      have before : 0 ≤ w.shm.remaining key := by
        unfold SharedDict.remaining
        cases held : itemAt w.shm key with
        | none => exact Int.le_refl 0
        | some value => exact (balanced.counters key value held).2
      have more : 0 ≤ n := entry.2
      omega
    · exact balanced.counters k value found
  · by_cases same : other = worker
    · subst same
      simp only [Function.update_self]
      intro later member
      exact balanced.pending other later (by rw [pending]; exact List.mem_cons_of_mem _ member)
    · simp only [Function.update_of_ne same]
      exact balanced.pending other
  · refine (balanced.sound e).mono fun k value found => ?_
    rw [SharedDict.itemAt_incr known]
    split
    next same =>
      refine ⟨_, rfl, ?_⟩
      have more : 0 ≤ n := entry.2
      rw [SharedDict.remaining, same, found]
      simp only [Option.getD_some]
      omega
    · exact ⟨value, found, Int.le_refl _⟩
  -- what was pending now stands in the dictionary
  · have before := balanced.balance c
    simp only [SharedDict.remaining_incr known, valueOf, total_append, total_cons, total_nil,
      decide_eq_true_eq] at before ⊢
    omega

/-- The drain has read a value and takes it: the other workers have only added since. -/
private theorem KeysBalanced.take {key : LuaText} {value : Int} {keys : List LuaText}
    {pipeline : List Command} (balanced : KeysBalanced conf w)
    (here : w.drains d = .taking key value keys pipeline) :
    KeysBalanced conf { w.move d (.draining keys (pipeline ++ push conf key value)) w.running with
      shm := w.shm.incr key (-value) none
      handed := w.handed ++ push conf key value } := by
  have sound := balanced.sound d
  rw [here] at sound
  obtain ⟨counters, held, found, enough⟩ := sound
  obtain ⟨⟨c, rfl⟩, rest⟩ := List.forall_mem_cons.mp counters
  -- the key is there, so `incr` needs no initial value
  have known : (none : Option Int) = some 0 ∨ (itemAt w.shm c.key).isSome = true := by
    rw [found]
    exact Or.inr rfl
  have within : (w.drains d).Inside := by rw [here]; trivial
  have moved : KeysBalanced conf (w.move d (.draining keys (pipeline ++ push conf c.key value))
      w.running) := balanced.within within rest
  refine ⟨fun k other stored => ?_, balanced.pending, fun e => ?_, moved.alone, ?_, fun k => ?_⟩
  · dsimp only at stored
    rw [SharedDict.itemAt_incr known] at stored
    split at stored
    next same =>
      cases stored
      refine ⟨⟨c, same⟩, ?_⟩
      rw [SharedDict.remaining, found]
      simp only [Option.getD_some]
      omega
    · exact balanced.counters k other stored
  · by_cases same : e = d
    · subst same
      have settled := moved.sound e
      simp only [SharedCounting.move, Function.update_self] at settled ⊢
      exact settled
    · -- the other drains wait for Redis, or for the timer
      have outside : ¬(w.drains e).Inside := by
        intro inside
        cases balanced.others (Or.inr within) none e same inside
      simp only [SharedCounting.move, Function.update_of_ne same]
      exact (balanced.sound e).outside outside
  · refine List.forall_mem_append.mpr ⟨balanced.commands, ?_⟩
    rw [push_key]
    intro command member
    rcases List.mem_pair.mp member with rfl | rfl
    · exact ⟨c, Or.inl ⟨value, rfl⟩⟩
    · exact ⟨c, Or.inr rfl⟩
  -- what the dictionary loses is in the pipeline
  · have before := balanced.balance k
    dsimp only [SharedCounting.move]
    rw [handedTo_append, handedTo_push, SharedDict.remaining_incr known]
    split
    · omega
    · omega

theorem balanced_next {e : CountingEvent} (balanced : KeysBalanced conf w)
    (moved : w.next conf e = some w') : KeysBalanced conf w' := by
  cases e with
  | log worker request day =>
    obtain ⟨-, moved⟩ := Option.ite_none_right_eq_some.mp moved
    cases moved
    -- the request is counted in the log phase of one worker
    refine ⟨balanced.counters, fun other => ?_, balanced.sound, balanced.alone, balanced.commands,
      balanced.balance⟩
    by_cases same : other = worker
    · subst same
      simp only [Function.update_self]
      exact fun entry => isCounter_of_mem_log
    · simp only [Function.update_of_ne same]
      exact balanced.pending other
  | add worker =>
    simp only [SharedCounting.next] at moved
    split at moved
    · cases moved
    next key n rest pending =>
      cases moved
      exact balanced.add pending
  | drain d =>
    obtain ⟨⟨-, free⟩, moved⟩ := Option.ite_none_right_eq_some.mp moved
    split at moved
    · cases moved
      exact balanced
    split at moved
    · cases moved
      exact balanced
    · cases moved
      -- every key of the dictionary is that of a counter
      refine balanced.move (fun key member => ?_) (fun inside => inside.elim)
        (balanced.others (Or.inl free) none)
      have stored : itemAt w.shm key ≠ none := fun absent => itemAt_eq_none_iff.mp absent member
      obtain ⟨value, found⟩ := Option.ne_none_iff_exists'.mp stored
      exact (balanced.counters key value found).1
  | connected d =>
    simp only [SharedCounting.next] at moved
    split at moved
    next keys here =>
      obtain ⟨free, moved⟩ := Option.ite_none_right_eq_some.mp moved
      cases moved
      have sound := balanced.sound d
      rw [here] at sound
      -- the timer runs in one worker at a time
      exact balanced.move sound (fun _ => rfl) (balanced.others (Or.inl free) _)
    · cases moved
  | refused d =>
    simp only [SharedCounting.next] at moved
    split at moved
    · obtain ⟨free, moved⟩ := Option.ite_none_right_eq_some.mp moved
      cases moved
      exact balanced.move trivial (fun inside => inside.elim) (balanced.others (Or.inl free) none)
    · cases moved
  | read d =>
    simp only [SharedCounting.next] at moved
    split at moved
    next key keys pipeline here =>
      have sound := balanced.sound d
      have within : (w.drains d).Inside := by rw [here]; trivial
      rw [here] at sound
      have rest := (List.forall_mem_cons.mp sound).2
      split at moved
      next value found =>
        -- a counter that stands at nothing is passed over
        split at moved <;> cases moved
        · exact balanced.within within ⟨sound, value, found, Int.le_refl _⟩
        · exact balanced.within within rest
      · cases moved
        exact balanced.within within rest
    · cases moved
  | take d =>
    simp only [SharedCounting.next] at moved
    split at moved
    next key value keys pipeline here =>
      cases moved
      exact balanced.take here
    · cases moved
  | commit d =>
    simp only [SharedCounting.next] at moved
    split at moved
    next pipeline here =>
      have within : (w.drains d).Inside := by rw [here]; trivial
      cases moved
      -- whether the pipeline is empty or not, the drain leaves the dictionary
      refine balanced.move ?_ ?_ (balanced.others (Or.inr within) none)
      · split <;> trivial
      · split <;> exact fun inside => inside.elim
    · cases moved
  | settled d =>
    simp only [SharedCounting.next] at moved
    split at moved
    · cases moved
      exact balanced.move trivial (fun inside => inside.elim) fun e _ => balanced.alone e
    · cases moved

end Steps

private theorem balanced_empty (conf : CountingConf) : KeysBalanced conf .empty where
  counters := fun _ _ found => nomatch found
  pending := fun _ _ member => nomatch member
  sound := fun _ => trivial
  alone := fun _ within => within.elim
  commands := fun _ member => nomatch member
  balance := fun _ => rfl

/-- At every point of every run, whatever becomes of connections and pipelines: what was handed
to pipelines for the field of a counter and what is left under its key are what was added to it;
every key is one of a counter and every command one for a counter; and a drain that cannot connect
has touched nothing. -/
theorem drain_conserves {conf : CountingConf} {w : SharedCounting}
    (run : Reaches (SharedCounting.Step conf) .empty w) :
    (∀ c : SharedCounter, handedTo (c.hash conf) c.ip w.handed + w.shm.remaining c.key =
      valueOf Prod.fst Prod.snd w.added c.key) ∧
    (∀ key value, itemAt w.shm key = some value → IsCounter key ∧ 0 ≤ value) ∧
    (∀ command ∈ w.handed, ∃ c : SharedCounter,
      (∃ value, command = .hincrby (c.hash conf) c.ip value) ∨
        command = .expire (c.hash conf) conf.ttl) ∧
    ∀ d w', w.next conf (.drain d) = some w' ∨ w.next conf (.refused d) = some w' →
      w'.shm = w.shm ∧ w'.handed = w.handed ∧ w'.added = w.added := by
  have balanced := run.invariant (P := KeysBalanced conf)
    (fun _ _ _ before moved => balanced_next before moved) (balanced_empty conf)
  refine ⟨balanced.balance, balanced.counters, balanced.commands, fun d w' moved => ?_⟩
  rcases moved with moved | moved
  · obtain ⟨-, moved⟩ := Option.ite_none_right_eq_some.mp moved
    split at moved
    · cases moved
      exact ⟨rfl, rfl, rfl⟩
    split at moved <;> cases moved <;> exact ⟨rfl, rfl, rfl⟩
  · simp only [SharedCounting.next] at moved
    split at moved
    · obtain ⟨-, moved⟩ := Option.ite_none_right_eq_some.mp moved
      cases moved
      exact ⟨rfl, rfl, rfl⟩
    · cases moved

/-! ### A drain between two requests -/

def countingConf : CountingConf where
  enabled := true
  hashPrefix := "megoopm:visits".toList
  ttl := 172800
  statusPort := some "8081".toList

def loopback (bytes : Nat) : LoggedRequest where
  serverPort := "443".toList
  uri := "/".toList
  remoteAddr := some "::1".toList
  bytesSent := some bytes

def newYear : UtcDay :=
  ⟨"2026-01-01".toList, by simp, by simp [Char.isDigit]⟩

/-- A second worker counts a request after the drain has read the first one. -/
def drainBetween : List CountingEvent :=
  [.log 1 (loopback 512) newYear, .add 1, .drain 0, .connected 0, .read 0,
    .log 2 (loopback 100) newYear, .add 2, .add 1, .take 0]

theorem drain_conserves_between :
    ∃ w, play (SharedCounting.next countingConf) drainBetween .empty = some w ∧
      w.handed.length = 2 ∧
      handedTo "megoopm:visits:count:2026-01-01".toList "::1".toList w.handed +
        w.shm.remaining "c|2026-01-01|::1".toList = 2 := by
  have observed : (play (SharedCounting.next countingConf) drainBetween .empty).map
      (fun w => (w.handed.length, valueOf Prod.fst Prod.snd w.added "c|2026-01-01|::1".toList)) =
        some (2, 2) := by
    decide +kernel
  obtain ⟨w, played, seen⟩ := Option.map_eq_some_iff.mp observed
  obtain ⟨length, added⟩ := Prod.mk.inj seen
  have run : Reaches (Guarded (fun _ _ => True) fun s e t =>
      SharedCounting.next countingConf s e = some t) .empty w :=
    Reaches.of_play (fun _ _ _ => trivial) played
  refine ⟨w, played, length, ?_⟩
  rw [← added]
  exact (drain_conserves run.of_guarded).1 ⟨.count, newYear, "::1".toList, by simp⟩

end MegooPM.Analytics
