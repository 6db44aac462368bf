import Mathlib
import MegooPM.Lib.Rows
import MegooPM.Lib.Traces
import MegooPM.Lib.Transition

/-!
# The live logs page

`components/live-logs/use-live-logs.ts` with `appendCapped` of `lib.ts`: the socket that the page
keeps open, and the lines that it keeps and shows. One callback of the browser runs at a time, in
any order that the network, the timers and the user make of them.
-/
namespace MegooPM.Live

open Lib

/-! ### Frames and lines -/

inductive LogKind where
  | request | error | security | stream | decision
  deriving DecidableEq, Repr

inductive Tab where
  | requests | errors | security | streams
  deriving DecidableEq, Repr

/-- `TAB_OF` -/
def LogKind.tab : LogKind → Tab
  | .request => .requests
  | .error => .errors
  | .security => .security
  | .decision => .security
  | .stream => .streams

/-- The `f` of a frame: the members, each `null` or what `String` makes of it. -/
abbrev WireFields := List (String × Option String)

/-- A line frame; `none` is a member that is missing or `null`. -/
structure WireLine where
  node : Option String := none
  host : Option String := none
  /-- `none` is a kind that the page does not know -/
  log : Option LogKind
  sev : Option Int := none
  f : Option WireFields := none
  raw : Option String := none
  truncated : Bool := false
  cc : Option String := none
  deriving DecidableEq, Repr

structure WireDecision where
  value : Option String := none
  scope : Option String := none
  type : Option String := none
  scenario : Option String := none
  duration : Option String := none
  origin : Option String := none
  cc : Option String := none
  deriving DecidableEq, Repr

/-- What `JSON.parse` returns. -/
inductive LiveFrame where
  | line (line : WireLine)
  | decision (decision : WireDecision)
  | skipped (count : Int)
  | ping
  /-- a frame of another type -/
  | unknown
  /-- `null`, whose type cannot be read -/
  | null
  deriving DecidableEq, Repr

/-- One entry in a tab's buffer. -/
structure LiveLine where
  id : Nat
  /-- when the page received it, in ms -/
  received : Nat
  node : String
  host : String
  log : LogKind
  sev : Int
  f : Option (List (String × String))
  raw : Option String
  truncated : Bool
  cc : Option String
  deriving DecidableEq, Repr

def LiveLine.tab (line : LiveLine) : Tab :=
  line.log.tab

def stringFields (source : WireFields) : List (String × String) :=
  source.filterMap fun (key, value) => value.map fun value => (key, value)

/-- `toLine`, and its tab is known. -/
def toLine (frame : LiveFrame) (id received : Nat) : Option LiveLine :=
  match frame with
  | .line line =>
    line.log.map fun log =>
      { id := id, received := received, node := line.node.getD "local", host := line.host.getD ""
        log := log, sev := line.sev.getD 6, f := line.f.map stringFields, raw := line.raw
        truncated := line.truncated, cc := line.cc }
  | .decision decision =>
    some
      { id := id, received := received, node := "local", host := "", log := .decision, sev := 6
        f := some (stringFields
          [("value", decision.value), ("scope", decision.scope), ("type", decision.type),
            ("scenario", decision.scenario), ("duration", decision.duration),
            ("origin", decision.origin)])
        raw := none, truncated := false, cc := decision.cc }
  | _ => none

/-- `LINE_CAP` -/
def lineCap : Nat := 1000

def appendCapped (lines next : List LiveLine) (cap : Nat) : List LiveLine :=
  let all := lines ++ next
  if cap < all.length then all.drop (all.length - cap) else all

/-! ### What is shown -/

abbrev Buffers := Tab → List LiveLine

def emptyBuffers : Buffers := fun _ => []

/-- The states and refs of the hook that the connection does not read. -/
structure LiveView where
  lines : Buffers := emptyBuffers
  skipped : Int := 0
  pending : Nat := 0
  rate : Nat := 0
  paused : Bool := false
  buffers : Buffers := emptyBuffers
  pendingRef : Nat := 0
  requestsThisSecond : Nat := 0
  nextId : Nat := 1
  /-- `flushTimer` runs -/
  flushTimer : Bool := false

namespace LiveView

variable (view : LiveView)

def handleFrame (received : Nat) : LiveFrame → LiveView
  | .ping => view
  | .null => view
  | .skipped count => { view with skipped := view.skipped + count }
  | frame =>
    match toLine frame view.nextId received with
    | none => { view with nextId := view.nextId + 1 }
    | some line =>
      { view with
        nextId := view.nextId + 1
        buffers := Function.update view.buffers line.tab
          (appendCapped (view.buffers line.tab) [line] lineCap)
        requestsThisSecond :=
          if line.log = .request then view.requestsThisSecond + 1 else view.requestsThisSecond
        pendingRef := if view.paused then view.pendingRef + 1 else view.pendingRef
        flushTimer := true }

def flush : LiveView :=
  if view.paused then { view with flushTimer := false, pending := view.pendingRef }
  else { view with flushTimer := false, pendingRef := 0, lines := view.buffers, pending := 0 }

def setPaused (next : Bool) : LiveView :=
  { view with paused := next, flushTimer := view.flushTimer || !next }

def clear : LiveView :=
  { view with
    buffers := emptyBuffers, pendingRef := 0, lines := emptyBuffers, pending := 0, skipped := 0 }

def second : LiveView :=
  { view with rate := view.requestsThisSecond, requestsThisSecond := 0 }

end LiveView

/-! ### The connection -/

inductive LiveStatus where
  | connecting | live | reconnecting | revoked | error
  deriving DecidableEq, Repr

structure Watch where
  hosts : List String
  decisions : Bool
  deriving DecidableEq, Repr

/-- `BACKOFF_START_MS` -/
def backoffStartMs : Nat := 1000

/-- `BACKOFF_MAX_MS` -/
def backoffMaxMs : Nat := 30000

/-- `CLOSE_BAD_FRAME` -/
def closeBadFrame : Nat := 4400

/-- `CLOSE_UNAUTHORIZED` -/
def closeUnauthorized : Nat := 4401

/-- `CLOSE_FORBIDDEN` -/
def closeForbidden : Nat := 4403

/-- `WebSocket.readyState` -/
inductive ReadyState where
  | connecting | open_ | closing | closed
  deriving DecidableEq, Repr

/-- A socket, with the watch frame it was sent last. -/
structure LiveSocket where
  readyState : ReadyState := .connecting
  told : Option Watch := none
  deriving DecidableEq, Repr

/-- What the connection does, for the record. -/
inductive LinkEvent where
  /-- a ticket is asked for -/
  | asked
  /-- a frame that could be parsed -/
  | frame
  | scheduled (ms : Nat)
  /-- no retry, for good -/
  | gaveUp
  | unmounted
  deriving DecidableEq, Repr

/-- The variables of the connection effect, the calls of `connect` that wait for their ticket,
every socket and timer there was, and whether the timer still runs. -/
structure LiveLink where
  status : LiveStatus := .connecting
  stopped : Bool := false
  attempt : Nat := 0
  lastWas401 : Bool := false
  watch : Watch
  tickets : Nat := 1
  sockets : List LiveSocket := []
  /-- `socket.current` -/
  current : Option Nat := none
  /-- `retryTimer` is the last one -/
  timers : List Bool := []
  trace : List LinkEvent := [.asked]
  deriving DecidableEq, Repr

namespace LiveLink

variable (link : LiveLink)

def note (event : LinkEvent) : LiveLink :=
  { link with trace := link.trace ++ [event] }

def retryIn (ms : Nat) : LiveLink :=
  { link.note (.scheduled ms) with status := .reconnecting, timers := link.timers ++ [true] }

def backoff : LiveLink :=
  { link.retryIn (min (backoffStartMs * 2 ^ link.attempt) backoffMaxMs) with
    attempt := link.attempt + 1 }

/-- `connect` up to its request. -/
def connect : LiveLink :=
  if link.stopped then link else { link.note .asked with tickets := link.tickets + 1 }

/-- A ticket comes. -/
def granted : LiveLink :=
  let link := { link with tickets := link.tickets - 1 }
  if link.stopped then link
  else
    { link with
      sockets := link.sockets ++ [⟨.connecting, none⟩], current := some link.sockets.length }

/-- The request for a ticket fails, with a status where there was an answer. -/
def refused (status : Option Nat) : LiveLink :=
  let link := { link with tickets := link.tickets - 1 }
  if link.stopped then link
  else if status = some 401 ∨ status = some 403 then
    { link.note .gaveUp with status := .revoked }
  else link.backoff

def setSocket (i : Nat) (socket : LiveSocket) : LiveLink :=
  { link with sockets := link.sockets.set i socket }

/-- `onopen` -/
def onopen (i : Nat) : LiveLink :=
  { link.setSocket i { readyState := .open_, told := some link.watch } with status := .live }

/-- `onmessage`, up to `handleFrame`. -/
def heard : LiveLink :=
  { link.note .frame with attempt := 0, lastWas401 := false }

/-- `onclose` -/
def onclose (i : Nat) (socket : LiveSocket) (code : Nat) : LiveLink :=
  let link := { link.setSocket i { socket with readyState := .closed } with
    current := if link.current = some i then none else link.current }
  if link.stopped then link
  else if code = closeForbidden then { link.note .gaveUp with status := .revoked }
  else if code = closeBadFrame then { link.note .gaveUp with status := .error }
  else if code = closeUnauthorized ∧ link.lastWas401 = false then
    { link.retryIn 0 with lastWas401 := true }
  else link.backoff

/-- The sockets after a change of the current one. -/
def onCurrent (change : LiveSocket → LiveSocket) : List LiveSocket :=
  match link.current with
  | none => link.sockets
  | some i =>
    match link.sockets[i]? with
    | none => link.sockets
    | some socket => link.sockets.set i (change socket)

/-- The effect that follows the selection. -/
def setWatch (watch : Watch) : LiveLink :=
  { link with
    watch := watch
    sockets := link.onCurrent fun socket =>
      if socket.readyState = .open_ then { socket with told := some watch } else socket }

/-- The cleanup. -/
def unmount : LiveLink :=
  { link.note .unmounted with
    stopped := true
    timers := link.timers.set (link.timers.length - 1) false
    current := none
    -- `close()` of a closed socket does nothing
    sockets := link.onCurrent fun socket =>
      if socket.readyState = .closed then socket else { socket with readyState := .closing } }

end LiveLink

/-! ### Callbacks -/

structure LivePage where
  view : LiveView := {}
  link : LiveLink

/-- Why the browser runs a callback. -/
inductive LiveEvent where
  | granted
  | refused (status : Option Nat)
  | opened (socket : Nat)
  /-- `none` is a text that `JSON.parse` refuses -/
  | message (socket received : Nat) (frame : Option LiveFrame)
  | closed (socket code : Nat)
  /-- a retry timer is over -/
  | retry (timer : Nat)
  | setWatch (watch : Watch)
  | flush
  | setPaused (next : Bool)
  | clear
  | second
  | unmount
  deriving DecidableEq, Repr

namespace LivePage

def mounted (watch : Watch) : LivePage where
  link := { watch }

def next (page : LivePage) : LiveEvent → Option LivePage
  | .granted =>
    if page.link.tickets = 0 then none else some { page with link := page.link.granted }
  | .refused status =>
    if page.link.tickets = 0 then none else some { page with link := page.link.refused status }
  | .opened i =>
    match page.link.sockets[i]? with
    | some ⟨.connecting, _⟩ => some { page with link := page.link.onopen i }
    | _ => none
  | .message i received frame =>
    match page.link.sockets[i]? with
    | some ⟨.open_, _⟩ =>
      match frame with
      | none => some page
      | some frame => some ⟨page.view.handleFrame received frame, page.link.heard⟩
    | _ => none
  | .closed i code =>
    match page.link.sockets[i]? with
    | some ⟨.closed, _⟩ | none => none
    | some socket => some { page with link := page.link.onclose i socket code }
  | .retry k =>
    if page.link.timers[k]? = some true then
      some { page with
        link := { page.link with timers := page.link.timers.set k false }.connect }
    else none
  | .setWatch watch => some { page with link := page.link.setWatch watch }
  | .flush => if page.view.flushTimer then some { page with view := page.view.flush } else none
  | .setPaused next => some { page with view := page.view.setPaused next }
  | .clear => some { page with view := page.view.clear }
  | .second => some { page with view := page.view.second }
  | .unmount => if page.link.stopped then none else some { page with link := page.link.unmount }

end LivePage

/-! ### One connection at a time -/

def LinkEvent.isBackoff : LinkEvent → Bool
  | .scheduled ms => ms ≠ 0
  | _ => false

/-- What was done since the last frame. -/
def sinceFrame (trace : List LinkEvent) : List LinkEvent :=
  trace.rtakeWhile (· ≠ .frame)

/-- What lets the connection do this after the rest. -/
def LinkEvent.Allowed (before : List LinkEvent) (event : LinkEvent) : Prop :=
  .unmounted ∉ before ∧
    match event with
    | .unmounted => True
    | .asked => .gaveUp ∉ before ∧ (before = [] ∨ ∃ ms, before.getLast? = some (.scheduled ms))
    | .scheduled ms => .gaveUp ∉ before ∧
      if ms = 0 then .scheduled 0 ∉ sinceFrame before
      else ms = min (backoffStartMs * 2 ^ (sinceFrame before).countP isBackoff) backoffMaxMs
    | .frame | .gaveUp => .gaveUp ∉ before

/-- The socket may open or hear something. -/
def LiveSocket.active (socket : LiveSocket) : Bool :=
  socket.readyState = .connecting || socket.readyState = .open_

namespace LiveLink

/-- Requests for a ticket, sockets and timers that are under way. -/
def busy (link : LiveLink) : Nat :=
  link.tickets + link.sockets.countP LiveSocket.active + link.timers.countP id

/-- What every callback keeps. -/
structure Sound (link : LiveLink) : Prop where
  justified : Justified LinkEvent.Allowed link.trace
  single : link.busy ≤ 1
  ended : .gaveUp ∈ link.trace → link.busy = 0
  mounted : link.stopped = false → .unmounted ∉ link.trace
  idle : link.stopped = true →
    link.sockets.countP LiveSocket.active = 0 ∧ link.timers.countP id = 0
  attempts : link.attempt = (sinceFrame link.trace).countP LinkEvent.isBackoff
  once : link.lastWas401 = true ↔ .scheduled 0 ∈ sinceFrame link.trace
  current : ∀ (i : Nat) (socket : LiveSocket), link.sockets[i]? = some socket →
    socket.active = true → link.current = some i
  told : ∀ socket ∈ link.sockets, socket.readyState = .open_ → socket.told = some link.watch
  /-- only the cleanup closes a socket -/
  closing : ∀ socket ∈ link.sockets, socket.readyState = .closing → link.stopped = true
  waiting : 0 < link.timers.countP id → ∃ ms, link.trace.getLast? = some (.scheduled ms)
  last : ∀ k, link.timers[k]? = some true → k = link.timers.length - 1

theorem sinceFrame_concat {trace : List LinkEvent} {event : LinkEvent} (other : event ≠ .frame) :
    sinceFrame (trace ++ [event]) = sinceFrame trace ++ [event] :=
  List.rtakeWhile_concat_pos _ _ _ (decide_eq_true other)

/-- What the connection does but frames and retries does not count. -/
theorem sinceFrame_silent {trace : List LinkEvent} {event : LinkEvent}
    (silent : event = .asked ∨ event = .gaveUp ∨ event = .unmounted) :
    (sinceFrame (trace ++ [event])).countP LinkEvent.isBackoff =
        (sinceFrame trace).countP LinkEvent.isBackoff ∧
      (.scheduled 0 ∈ sinceFrame (trace ++ [event]) ↔ .scheduled 0 ∈ sinceFrame trace) := by
  rcases silent with rfl | rfl | rfl <;>
    rw [sinceFrame_concat (by simp), List.countP_append] <;>
    exact ⟨rfl, by simp⟩

theorem sinceFrame_frame (trace : List LinkEvent) : sinceFrame (trace ++ [.frame]) = [] :=
  List.rtakeWhile_concat_neg _ _ _ (by decide)

/-- Of an event that is added, only its own kind is new. -/
private theorem mem_of_mem_concat {trace : List LinkEvent} {event added : LinkEvent}
    (member : event ∈ trace ++ [added]) (other : event ≠ added) : event ∈ trace := by
  rcases List.mem_append.mp member with old | new
  · exact old
  · exact absurd (List.mem_singleton.mp new) other

variable {link : LiveLink}

/-- While something is under way, it has not given up. -/
theorem Sound.trying (sound : link.Sound) (busy : 0 < link.busy) : .gaveUp ∉ link.trace := by
  intro ended
  have none_ := sound.ended ended
  omega

private theorem active_count {sockets : List LiveSocket} {i : Nat} {socket : LiveSocket}
    (here : sockets[i]? = some socket) (active : socket.active = true) :
    0 < sockets.countP LiveSocket.active :=
  List.countP_pos_iff.mpr ⟨socket, List.mem_of_getElem? here, active⟩

private theorem running_count {timers : List Bool} {k : Nat} (here : timers[k]? = some true) :
    0 < timers.countP id :=
  List.countP_pos_iff.mpr ⟨true, List.mem_of_getElem? here, rfl⟩

/-- Where nothing is under way, a retry can be scheduled. -/
private theorem Sound.schedule (sound : link.Sound) (quiet : link.busy = 0)
    (trying : .gaveUp ∉ link.trace) (mounted : link.stopped = false) {ms attempt : Nat}
    {lastWas401 : Bool}
    (allowed : if ms = 0 then .scheduled 0 ∉ sinceFrame link.trace
      else ms = min (backoffStartMs * 2 ^ (sinceFrame link.trace).countP LinkEvent.isBackoff)
        backoffMaxMs)
    (attempts : attempt = (sinceFrame link.trace).countP LinkEvent.isBackoff +
      if ms = 0 then 0 else 1)
    (once : lastWas401 = true ↔ .scheduled 0 ∈ sinceFrame link.trace ++ [.scheduled ms]) :
    Sound { link.retryIn ms with attempt := attempt, lastWas401 := lastWas401 } where
  justified := sound.justified.concat ⟨sound.mounted mounted, trying, allowed⟩
  single := by
    unfold busy at quiet ⊢
    simp only [LiveLink.retryIn, note, List.countP_append, List.countP_singleton, id, if_true]
    omega
  ended ended := by
    exact absurd (mem_of_mem_concat ended (by simp)) trying
  mounted _ ended := by
    exact sound.mounted mounted (mem_of_mem_concat ended (by simp))
  idle stopped := by
    have stopped : link.stopped = true := stopped
    rw [mounted] at stopped
    cases stopped
  attempts := by
    simp only [LiveLink.retryIn, note]
    rw [sinceFrame_concat (by simp), List.countP_append, List.countP_singleton, attempts]
    simp only [LinkEvent.isBackoff, ne_eq, decide_not, Bool.not_eq_true', decide_eq_false_iff_not,
      ite_not]
  once := by
    simp only [LiveLink.retryIn, note]
    rw [sinceFrame_concat (by simp)]
    exact once
  current := sound.current
  told := sound.told
  closing := sound.closing
  waiting _ := ⟨ms, List.getLast?_concat⟩
  last k running := by
    -- no other timer runs
    simp only [LiveLink.retryIn, note] at running ⊢
    rw [List.getElem?_append] at running
    split at running
    next =>
      have one := running_count running
      unfold busy at quiet
      omega
    next beyond =>
      obtain ⟨inside, _⟩ := List.getElem?_eq_some_iff.mp running
      simp only [List.length_append, List.length_singleton] at inside ⊢
      omega

private theorem Sound.backoff (sound : link.Sound) (quiet : link.busy = 0)
    (trying : .gaveUp ∉ link.trace) (mounted : link.stopped = false) : link.backoff.Sound := by
  have some_ : min (backoffStartMs * 2 ^ link.attempt) backoffMaxMs ≠ 0 := by
    have grows : 0 < 2 ^ link.attempt := Nat.two_pow_pos _
    unfold backoffStartMs backoffMaxMs
    omega
  refine sound.schedule quiet trying mounted ?_ ?_ ?_
  · rw [if_neg some_, sound.attempts]
  · rw [if_neg some_, sound.attempts]
  · rw [List.mem_append, List.mem_singleton]
    refine sound.once.trans (or_iff_left fun same => ?_).symm
    exact some_ (LinkEvent.scheduled.inj same).symm

/-- Where nothing is under way, it can give up. -/
private theorem Sound.giveUp (sound : link.Sound) (quiet : link.busy = 0)
    (trying : .gaveUp ∉ link.trace) (mounted : link.stopped = false) (status : LiveStatus) :
    Sound { link.note .gaveUp with status := status } where
  justified := sound.justified.concat ⟨sound.mounted mounted, trying⟩
  single := Nat.le_trans (Nat.le_of_eq quiet) (Nat.zero_le 1)
  ended _ := quiet
  mounted _ ended := by
    exact sound.mounted mounted (mem_of_mem_concat ended (by simp))
  idle := sound.idle
  attempts := sound.attempts.trans (sinceFrame_silent (.inr (.inl rfl))).1.symm
  once := sound.once.trans (sinceFrame_silent (.inr (.inl rfl))).2.symm
  current := sound.current
  told := sound.told
  closing := sound.closing
  waiting running := by
    unfold busy at quiet
    have running : 0 < link.timers.countP id := running
    omega
  last := sound.last

/-- The answer to the request for a ticket is there; nothing else is under way. -/
private theorem Sound.answered (sound : link.Sound) (asked : 0 < link.tickets) :
    Sound { link with tickets := link.tickets - 1 } ∧
      busy { link with tickets := link.tickets - 1 } = 0 ∧ .gaveUp ∉ link.trace := by
  have single := sound.single
  -- the request was the one thing under way
  have quiet : busy { link with tickets := link.tickets - 1 } = 0 := by
    unfold busy at single ⊢
    simp only
    omega
  refine ⟨{ sound with single := ?_, ended := fun _ => quiet }, quiet, sound.trying ?_⟩
  · rw [quiet]
    exact Nat.zero_le 1
  · unfold busy
    omega

theorem Sound.refused (sound : link.Sound) (asked : 0 < link.tickets) (status : Option Nat) :
    (link.refused status).Sound := by
  obtain ⟨answered, quiet, trying⟩ := sound.answered asked
  unfold LiveLink.refused
  dsimp only
  split
  next => exact answered
  next mounted =>
    rw [Bool.not_eq_true] at mounted
    split
    · exact answered.giveUp quiet trying mounted .revoked
    · exact answered.backoff quiet trying mounted

theorem Sound.granted (sound : link.Sound) (asked : 0 < link.tickets) : link.granted.Sound := by
  obtain ⟨answered, quiet, trying⟩ := sound.answered asked
  unfold LiveLink.granted
  dsimp only
  split
  next => exact answered
  next mounted =>
    have none_ : link.sockets.countP LiveSocket.active = 0 := by
      unfold busy at quiet
      simp only at quiet
      omega
    exact
      { answered with
        single := by
          unfold busy at quiet ⊢
          simp only [List.countP_append, List.countP_singleton] at quiet ⊢
          split <;> omega
        ended := fun ended => absurd ended trying
        idle := fun stopped => absurd stopped mounted
        current := fun i socket here active => by
          simp only at here ⊢
          rw [List.getElem?_append] at here
          split at here
          next =>
            have one := active_count here active
            omega
          next beyond =>
            obtain ⟨inside, _⟩ := List.getElem?_eq_some_iff.mp here
            rw [List.length_singleton] at inside
            congr 1
            omega
        told := List.forall_mem_append.mpr
          ⟨sound.told, List.forall_mem_singleton.mpr fun open_ => by cases open_⟩
        closing := List.forall_mem_append.mpr
          ⟨sound.closing, List.forall_mem_singleton.mpr fun closing => by cases closing⟩ }

theorem Sound.onopen (sound : link.Sound) {i : Nat} {told : Option Watch}
    (here : link.sockets[i]? = some ⟨.connecting, told⟩) : (link.onopen i).Sound := by
  have counted := countP_set_add LiveSocket.active here ⟨.open_, some link.watch⟩
  have same : (link.sockets.set i ⟨.open_, some link.watch⟩).countP LiveSocket.active =
      link.sockets.countP LiveSocket.active := by
    simpa [LiveSocket.active] using counted
  have busy_ : busy (link.onopen i) = busy link := by
    unfold busy
    simp only [LiveLink.onopen, setSocket]
    rw [same]
  exact
    { sound with
      single := by
        rw [busy_]
        exact sound.single
      ended := fun ended => by
        rw [busy_]
        exact sound.ended ended
      idle := fun stopped => by
        simp only [LiveLink.onopen, setSocket]
        rw [same]
        exact sound.idle stopped
      current := fun j socket there active => by
        simp only [LiveLink.onopen, setSocket] at there ⊢
        rw [List.getElem?_set] at there
        split at there
        next at_ =>
          subst at_
          exact sound.current i _ here rfl
        next => exact sound.current j socket there active
      told := fun socket member open_ => by
        rcases List.mem_or_eq_of_mem_set member with old | rfl
        · exact sound.told socket old open_
        · rfl
      closing := fun socket member closing => by
        rcases List.mem_or_eq_of_mem_set member with old | rfl
        · exact sound.closing socket old closing
        · cases closing }

/-- Where a socket may hear something, the page is there and has not given up. -/
private theorem Sound.open_ (sound : link.Sound) {i : Nat} {socket : LiveSocket}
    (here : link.sockets[i]? = some socket) (active : socket.active = true) :
    link.stopped = false ∧ .gaveUp ∉ link.trace ∧ link.tickets = 0 ∧ link.timers.countP id = 0 ∧
      link.sockets.countP LiveSocket.active = 1 := by
  have one := active_count here active
  have single := sound.single
  refine ⟨?_, sound.trying ?_, ?_⟩
  · cases stopped : link.stopped with
    | true =>
      have idle := (sound.idle stopped).1
      omega
    | false => rfl
  · unfold busy
    omega
  · unfold busy at single
    omega

theorem Sound.heard (sound : link.Sound) {i : Nat} {told : Option Watch}
    (here : link.sockets[i]? = some ⟨.open_, told⟩) : link.heard.Sound := by
  obtain ⟨mounted, trying, _, quiet, _⟩ := sound.open_ here rfl
  exact
    { sound with
      justified := sound.justified.concat ⟨sound.mounted mounted, trying⟩
      ended := fun ended => by
        exact absurd (mem_of_mem_concat ended (by simp)) trying
      mounted := fun _ ended => by
        exact sound.mounted mounted (mem_of_mem_concat ended (by simp))
      attempts := by
        have none_ : sinceFrame link.heard.trace = [] := sinceFrame_frame _
        rw [none_]
        rfl
      once := by
        have none_ : sinceFrame link.heard.trace = [] := sinceFrame_frame _
        rw [none_]
        exact iff_of_false Bool.false_ne_true List.not_mem_nil
      waiting := fun running => by
        have running : 0 < link.timers.countP id := running
        omega }

/-- A closed socket: nothing else was under way, if it was open. -/
private theorem Sound.close (sound : link.Sound) {i : Nat} {socket : LiveSocket}
    (here : link.sockets[i]? = some socket) (open_ : socket.readyState ≠ .closed) :
    Sound { link.setSocket i { socket with readyState := .closed } with
      current := if link.current = some i then none else link.current } ∧
    (link.stopped = false → busy { link.setSocket i { socket with readyState := .closed } with
      current := if link.current = some i then none else link.current } = 0 ∧
      .gaveUp ∉ link.trace) := by
  have counted := countP_set_add LiveSocket.active here { socket with readyState := .closed }
  have closed : LiveSocket.active { socket with readyState := .closed } = false := rfl
  rw [closed, if_neg Bool.false_ne_true] at counted
  have single := sound.single
  -- what may still hear something is another socket
  have shut : ∀ (j : Nat) (other : LiveSocket),
      (link.sockets.set i { socket with readyState := .closed })[j]? = some other →
      other.active = true → j ≠ i ∧ link.sockets[j]? = some other := by
    intro j other there active
    rw [List.getElem?_set] at there
    split at there
    next at_ =>
      split at there
      next =>
        cases there
        cases active
      next => cases there
    next away => exact ⟨fun same => away same.symm, there⟩
  constructor
  · exact
      { sound with
        single := by
          unfold busy at single ⊢
          simp only [setSocket]
          omega
        ended := fun ended => by
          have quiet := sound.ended ended
          unfold busy at quiet ⊢
          simp only [setSocket]
          omega
        idle := fun stopped => by
          obtain ⟨none_, still⟩ := sound.idle stopped
          refine ⟨?_, still⟩
          simp only [setSocket]
          omega
        current := fun j other there active => by
          obtain ⟨away, before⟩ := shut j other there active
          have current := sound.current j other before active
          simp only [current]
          exact if_neg fun same => away (Option.some.inj same)
        told := fun other member opened => by
          rcases List.mem_or_eq_of_mem_set member with old | rfl
          · exact sound.told other old opened
          · cases opened
        closing := fun other member closing => by
          rcases List.mem_or_eq_of_mem_set member with old | rfl
          · exact sound.closing other old closing
          · cases closing }
  · intro mounted
    -- a socket that the page did not close itself was the one thing under way
    have active : socket.active = true := by
      cases state : socket.readyState with
      | connecting => simp [LiveSocket.active, state]
      | open_ => simp [LiveSocket.active, state]
      | closing =>
        rw [sound.closing socket (List.mem_of_getElem? here) state] at mounted
        cases mounted
      | closed => exact absurd state open_
    obtain ⟨_, trying, tickets, timers, one⟩ := sound.open_ here active
    rw [active, if_pos rfl] at counted
    refine ⟨?_, trying⟩
    unfold busy
    simp only [setSocket]
    omega

theorem Sound.onclose (sound : link.Sound) {i : Nat} {socket : LiveSocket}
    (here : link.sockets[i]? = some socket) (open_ : socket.readyState ≠ .closed) (code : Nat) :
    (link.onclose i socket code).Sound := by
  obtain ⟨closed, quiet⟩ := sound.close here open_
  unfold LiveLink.onclose
  dsimp only
  split
  next => exact closed
  next mounted =>
    have mounted : link.stopped = false := Bool.eq_false_iff.mpr mounted
    obtain ⟨quiet, trying⟩ := quiet mounted
    split
    · exact closed.giveUp quiet trying mounted .revoked
    · split
      · exact closed.giveUp quiet trying mounted .error
      · split
        next unauthorized =>
          -- a new ticket at once, the first time
          have first : .scheduled 0 ∉ sinceFrame link.trace := fun again => by
            have before : link.lastWas401 = false := unauthorized.2
            rw [sound.once.mpr again] at before
            cases before
          refine closed.schedule quiet trying mounted ?_ ?_ ?_
          · rw [if_pos rfl]
            exact first
          · rw [if_pos rfl]
            exact sound.attempts
          · exact iff_of_true rfl (List.mem_append_right _ (List.mem_singleton_self _))
        next => exact closed.backoff quiet trying mounted

theorem Sound.retry (sound : link.Sound) {k : Nat} (here : link.timers[k]? = some true) :
    Sound ({ link with timers := link.timers.set k false }.connect) := by
  have one := running_count here
  have single := sound.single
  have counted := countP_set_add id here false
  simp only [id, if_true, Bool.false_eq_true, if_false] at counted
  have trying : .gaveUp ∉ link.trace := sound.trying (by unfold busy; omega)
  -- the cleanup clears the timer, so one that fires finds the page there
  have mounted : link.stopped = false := by
    cases stopped : link.stopped with
    | true =>
      have idle := (sound.idle stopped).2
      omega
    | false => rfl
  have connects : ({ link with timers := link.timers.set k false } : LiveLink).connect =
      { link.note .asked with timers := link.timers.set k false, tickets := link.tickets + 1 } := by
    unfold connect
    rw [if_neg (by simp [mounted])]
    rfl
  rw [connects]
  exact
    { justified := sound.justified.concat
        ⟨sound.mounted mounted, trying, Or.inr (sound.waiting one)⟩
      single := by
        unfold busy at single ⊢
        simp only [note]
        omega
      ended := fun ended => by
        exact absurd (mem_of_mem_concat ended (by simp)) trying
      mounted := fun _ ended => by
        exact sound.mounted mounted (mem_of_mem_concat ended (by simp))
      idle := fun stopped => by cases mounted.symm.trans stopped
      attempts := sound.attempts.trans (sinceFrame_silent (.inl rfl)).1.symm
      once := sound.once.trans (sinceFrame_silent (.inl rfl)).2.symm
      current := sound.current
      told := sound.told
      closing := sound.closing
      waiting := fun running => by
        have running : 0 < (link.timers.set k false).countP id := running
        unfold busy at single
        omega
      last := fun j running => by
        simp only [List.length_set] at running ⊢
        rw [List.getElem?_set] at running
        split at running
        next =>
          split at running
          next => cases running
          next => cases running
        next => exact sound.last j running }

theorem getElem?_onCurrent (link : LiveLink) (change : LiveSocket → LiveSocket) (j : Nat) :
    (link.onCurrent change)[j]? =
      if link.current = some j then link.sockets[j]?.map change else link.sockets[j]? := by
  unfold onCurrent
  split
  next none_ => rw [none_, if_neg nofun]
  next i current =>
    rw [current]
    split
    next none_ =>
      by_cases same : i = j
      · subst same
        rw [if_pos rfl, none_]
        rfl
      · rw [if_neg fun equal => same (Option.some.inj equal)]
    next socket here =>
      rw [List.getElem?_set]
      by_cases same : i = j
      · subst same
        obtain ⟨inside, _⟩ := List.getElem?_eq_some_iff.mp here
        rw [if_pos rfl, if_pos inside, if_pos rfl, here]
        rfl
      · rw [if_neg same, if_neg fun equal => same (Option.some.inj equal)]

/-- Every socket that may hear something is the current one. -/
private theorem Sound.mem_onCurrent (sound : link.Sound) {change : LiveSocket → LiveSocket}
    {j : Nat} {socket : LiveSocket} (here : (link.onCurrent change)[j]? = some socket) :
    (link.current = some j ∧ ∃ old, link.sockets[j]? = some old ∧ socket = change old) ∨
      (link.sockets[j]? = some socket ∧ socket.active = false) := by
  rw [getElem?_onCurrent] at here
  split at here
  next current =>
    obtain ⟨old, there, rfl⟩ := Option.map_eq_some_iff.mp here
    exact Or.inl ⟨current, old, there, rfl⟩
  next away =>
    refine Or.inr ⟨here, ?_⟩
    by_contra active
    rw [Bool.not_eq_false] at active
    exact away (sound.current j socket here active)

theorem Sound.setWatch (sound : link.Sound) (watch : Watch) : (link.setWatch watch).Sound := by
  -- only what the open socket is told changes, not how many sockets there are
  have same : (link.setWatch watch).sockets.countP LiveSocket.active =
      link.sockets.countP LiveSocket.active := by
    simp only [LiveLink.setWatch, onCurrent]
    split
    next => rfl
    next i _ =>
      split
      next => rfl
      next socket here =>
        refine Nat.add_right_cancel (countP_set_add LiveSocket.active here _ |>.trans ?_)
        split <;> rfl
  have busy_ : busy (link.setWatch watch) = busy link := by
    unfold busy
    rw [same]
    rfl
  exact
    { sound with
      single := by
        rw [busy_]
        exact sound.single
      ended := fun ended => by
        rw [busy_]
        exact sound.ended ended
      idle := fun stopped => by
        rw [same]
        exact sound.idle stopped
      current := fun j socket here active => by
        rcases sound.mem_onCurrent here with ⟨current, _⟩ | ⟨_, idle⟩
        · exact current
        · rw [idle] at active
          cases active
      told := fun socket member opened => by
        obtain ⟨j, here⟩ := List.getElem?_of_mem member
        rcases sound.mem_onCurrent here with ⟨_, old, _, rfl⟩ | ⟨_, idle⟩
        · split at opened
          next open_ =>
            rw [if_pos open_]
            rfl
          next closed => exact absurd opened closed
        · simp [LiveSocket.active, opened] at idle
      closing := fun socket member closing => by
        obtain ⟨j, here⟩ := List.getElem?_of_mem member
        rcases sound.mem_onCurrent here with ⟨_, old, there, rfl⟩ | ⟨there, _⟩
        · split at closing
          next open_ =>
            have closing : old.readyState = .closing := closing
            rw [open_] at closing
            cases closing
          next => exact sound.closing old (List.mem_of_getElem? there) closing
        · exact sound.closing socket (List.mem_of_getElem? there) closing }

theorem Sound.unmount (sound : link.Sound) (mounted : link.stopped = false) :
    link.unmount.Sound := by
  have sockets : link.unmount.sockets.countP LiveSocket.active = 0 := by
    rw [List.countP_eq_zero]
    intro socket member active
    obtain ⟨j, here⟩ := List.getElem?_of_mem member
    rcases sound.mem_onCurrent here with ⟨_, old, _, rfl⟩ | ⟨_, idle⟩
    · split at active
      next closed => simp [LiveSocket.active, closed] at active
      next => simp [LiveSocket.active] at active
    · rw [idle] at active
      cases active
  have timers : link.unmount.timers.countP id = 0 := by
    rw [List.countP_eq_zero]
    intro running member here
    obtain ⟨k, at_⟩ := List.getElem?_of_mem member
    simp only [LiveLink.unmount, List.getElem?_set] at at_
    cases running with
    | false => cases here
    | true =>
      -- only the timer made last can run, and that is the one cleared
      split at at_
      next =>
        split at at_
        next => cases at_
        next => cases at_
      next other => exact other (sound.last k at_).symm
  have fewer : busy link.unmount ≤ busy link := by
    unfold busy
    rw [sockets, timers]
    simp only [LiveLink.unmount, note]
    omega
  exact
    { justified := sound.justified.concat ⟨sound.mounted mounted, trivial⟩
      single := fewer.trans sound.single
      ended := fun ended => by
        have quiet := sound.ended (mem_of_mem_concat ended (by simp))
        omega
      mounted := fun still => by cases still
      idle := fun _ => ⟨sockets, timers⟩
      attempts := sound.attempts.trans (sinceFrame_silent (.inr (.inr rfl))).1.symm
      once := sound.once.trans (sinceFrame_silent (.inr (.inr rfl))).2.symm
      current := fun j socket here active => by
        have one := active_count here active
        omega
      told := fun socket member opened => by
        have active : socket.active = true := by simp [LiveSocket.active, opened]
        have none_ := List.countP_eq_zero.mp sockets socket member
        exact absurd active none_
      closing := fun _ _ _ => rfl
      waiting := fun running => by omega
      last := fun k running => by
        have one := running_count running
        omega }

theorem sound_mounted (watch : Watch) : Sound { watch } where
  justified := Justified.nil.concat ⟨List.not_mem_nil, List.not_mem_nil, Or.inl rfl⟩
  single := Nat.le_refl 1
  ended ended := by cases List.mem_singleton.mp ended
  mounted _ ended := by cases List.mem_singleton.mp ended
  idle stopped := by cases stopped
  attempts := rfl
  once := by
    have fresh : .scheduled 0 ∉ sinceFrame [.asked] := by decide
    exact iff_of_false Bool.false_ne_true fresh
  current _ _ here := by cases here
  told := List.forall_mem_nil _
  closing := List.forall_mem_nil _
  waiting running := by cases running
  last _ running := by cases running

end LiveLink

namespace LivePage

/-- Every callback keeps the connection sound. -/
theorem sound_next {page page' : LivePage} {event : LiveEvent} (sound : page.link.Sound)
    (ran : page.next event = some page') : page'.link.Sound := by
  cases event with
  | granted =>
    rw [next] at ran
    split at ran
    next => cases ran
    next asked =>
      cases ran
      exact sound.granted (Nat.pos_of_ne_zero asked)
  | refused status =>
    rw [next] at ran
    split at ran
    next => cases ran
    next asked =>
      cases ran
      exact sound.refused (Nat.pos_of_ne_zero asked) status
  | opened i =>
    rw [next] at ran
    split at ran
    next told here =>
      cases ran
      exact sound.onopen here
    next => cases ran
  | message i received frame =>
    cases frame with
    | none =>
      rw [next] at ran
      split at ran
      next =>
        cases ran
        exact sound
      next => cases ran
    | some frame =>
      rw [next] at ran
      split at ran
      next told here =>
        cases ran
        exact sound.heard here
      next => cases ran
  | closed i code =>
    rw [next] at ran
    split at ran
    next => cases ran
    next => cases ran
    next socket open_ here =>
      cases ran
      refine sound.onclose here (fun closed => ?_) code
      exact open_ socket.told (by rw [← closed])
  | retry k =>
    rw [next] at ran
    split at ran
    next running =>
      cases ran
      exact sound.retry running
    next => cases ran
  | setWatch watch =>
    cases ran
    exact sound.setWatch watch
  -- these are about what is shown; of the rest only `unmount` touches the link
  | flush =>
    rw [next] at ran
    split at ran
    next =>
      cases ran
      exact sound
    next => cases ran
  | setPaused next =>
    cases ran
    exact sound
  | clear =>
    cases ran
    exact sound
  | second =>
    cases ran
    exact sound
  | unmount =>
    rw [next] at ran
    split at ran
    next => cases ran
    next mounted =>
      cases ran
      exact sound.unmount (Bool.eq_false_iff.mpr mounted)

/-- Whatever the server, the network and the user do: at most one request for a ticket, socket or
timer is under way; it connects again after the delay it announced and never once it gave up or
the page is gone; between two frames it connects at once no more than one time, and waits twice as
long each other time, half a minute at most; and an open socket was told the selection. -/
theorem live_page_connects (watch : Watch) {page : LivePage}
    (run : Reaches (fun page event page' => next page event = some page') (mounted watch) page) :
    Justified LinkEvent.Allowed page.link.trace ∧ page.link.busy ≤ 1 ∧
      ∀ socket ∈ page.link.sockets, socket.readyState = .open_ →
        socket.told = some page.link.watch := by
  have sound : page.link.Sound := run.invariant (P := fun page => page.link.Sound)
    (fun _ _ _ sound ran => sound_next sound ran) (LiveLink.sound_mounted watch)
  exact ⟨sound.justified, sound.single, sound.told⟩

/-- A socket hears a frame and breaks; the next one is closed for its ticket. -/
def reconnects : List LiveEvent :=
  [.granted, .opened 0, .message 0 1760000000000 (some .ping), .closed 0 1006, .retry 0, .granted,
    .closed 1 4401, .retry 1]

theorem live_page_connects_again : ∃ page,
    play next reconnects (mounted ⟨["p1"], false⟩) = some page ∧
    page.link.trace = [.asked, .frame, .scheduled 1000, .asked, .scheduled 0, .asked] ∧
    Justified LinkEvent.Allowed page.link.trace := by
  have ends : ∃ page, play next reconnects (mounted ⟨["p1"], false⟩) = some page ∧
      page.link.trace = [.asked, .frame, .scheduled 1000, .asked, .scheduled 0, .asked] :=
    ⟨_, rfl, rfl⟩
  obtain ⟨page, played, trace⟩ := ends
  exact ⟨page, played, trace, (live_page_connects ⟨["p1"], false⟩
    (Reaches.of_guarded (Reaches.of_play (fun _ _ _ => trivial) played))).1⟩

end LivePage

/-! ### The last lines of each tab -/

theorem appendCapped_eq (lines next : List LiveLine) (cap : Nat) :
    appendCapped lines next cap = (lines ++ next).rtake cap := by
  unfold appendCapped List.rtake
  dsimp only
  split
  next => rfl
  next few => rw [Nat.sub_eq_zero_of_le (Nat.le_of_not_lt few), List.drop_zero]

theorem rtake_append_rtake {α : Type} (cap : Nat) (lines next : List α) :
    (lines.rtake cap ++ next).rtake cap = (lines ++ next).rtake cap := by
  simp only [List.rtake_eq_reverse_take_reverse, List.reverse_append, List.reverse_reverse,
    List.take_append, List.take_take]
  rw [Nat.min_eq_left (Nat.sub_le _ _)]

/-- What the page was told, with no limit and at once. -/
structure Heard where
  /-- since it was cleared last -/
  lines : List LiveLine := []
  /-- those that were there when the page was drawn last -/
  drawn : List LiveLine := []
  skipped : Int := 0
  nextId : Nat := 1
  paused : Bool := false

namespace Heard

def frame (heard : Heard) (received : Nat) : LiveFrame → Heard
  | .ping => heard
  | .null => heard
  | .skipped count => { heard with skipped := heard.skipped + count }
  | frame =>
    { heard with
      lines := heard.lines ++ (toLine frame heard.nextId received).toList
      nextId := heard.nextId + 1 }

def next (heard : Heard) : LiveEvent → Heard
  | .message _ received (some frame) => heard.frame received frame
  | .flush => if heard.paused then heard else { heard with drawn := heard.lines }
  | .setPaused next => { heard with paused := next }
  | .clear => { heard with lines := [], drawn := [], skipped := 0 }
  | _ => heard

end Heard

/-- The page shows the lines that were drawn, as far as it keeps them. -/
structure Shows (heard : Heard) (view : LiveView) : Prop where
  buffers : ∀ tab, view.buffers tab = (heard.lines.filter (·.tab = tab)).rtake lineCap
  lines : ∀ tab, view.lines tab = (heard.drawn.filter (·.tab = tab)).rtake lineCap
  earlier : heard.drawn <+: heard.lines
  ordered : heard.lines.Pairwise (·.id < ·.id)
  skipped : view.skipped = heard.skipped
  nextId : view.nextId = heard.nextId
  paused : view.paused = heard.paused
  below : ∀ line ∈ heard.lines, line.id < heard.nextId
  pending : view.pending ≤ view.pendingRef
  waiting : view.pendingRef + heard.drawn.length ≤ heard.lines.length
  /-- with no pause and no timer, nothing is left to show -/
  fresh : view.paused = false → view.flushTimer = false →
    heard.drawn = heard.lines ∧ view.pendingRef = 0

section

variable {heard : Heard} {view : LiveView}

/-- A line that a tab takes in. -/
private theorem Shows.line (shows_ : Shows heard view) {line : LiveLine}
    (id : line.id = view.nextId) :
    Shows { heard with lines := heard.lines ++ [line], nextId := heard.nextId + 1 }
      { view with
        nextId := view.nextId + 1
        buffers := Function.update view.buffers line.tab
          (appendCapped (view.buffers line.tab) [line] lineCap)
        requestsThisSecond :=
          if line.log = .request then view.requestsThisSecond + 1 else view.requestsThisSecond
        pendingRef := if view.paused then view.pendingRef + 1 else view.pendingRef
        flushTimer := true } where
  buffers tab := by
    simp only [List.filter_append]
    by_cases own : tab = line.tab
    -- its own buffer takes the line at the end, and drops the first one when full
    · subst own
      have kept : [line].filter (·.tab = line.tab) = [line] :=
        List.filter_cons_of_pos (decide_eq_true rfl)
      rw [Function.update_self, appendCapped_eq, shows_.buffers, rtake_append_rtake, kept]
    · have away : [line].filter (·.tab = tab) = [] :=
        List.filter_cons_of_neg (by simpa using Ne.symm own)
      rw [Function.update_of_ne own, away, List.append_nil]
      exact shows_.buffers tab
  lines := shows_.lines
  earlier := shows_.earlier.trans (List.prefix_append _ _)
  ordered := by
    refine List.pairwise_append.mpr ⟨shows_.ordered, List.pairwise_singleton _ _, ?_⟩
    intro old member last same
    cases List.mem_singleton.mp same
    rw [id, shows_.nextId]
    exact shows_.below old member
  skipped := shows_.skipped
  nextId := congrArg (· + 1) shows_.nextId
  paused := shows_.paused
  below := by
    refine List.forall_mem_append.mpr ⟨fun old member => ?_, List.forall_mem_singleton.mpr ?_⟩
    · exact Nat.lt_succ_of_lt (shows_.below old member)
    · rw [id, shows_.nextId]
      exact Nat.lt_succ_self _
  pending := by
    have few := shows_.pending
    simp only
    split <;> omega
  waiting := by
    have few := shows_.waiting
    simp only [List.length_append, List.length_singleton]
    split <;> omega
  fresh _ timer := by cases timer

private theorem Shows.frame (shows_ : Shows heard view) (received : Nat) (frame : LiveFrame) :
    Shows (heard.frame received frame) (view.handleFrame received frame) := by
  -- a frame that counts uses up an id, whether it makes a line or not
  have taken : ∀ frame : LiveFrame, Shows
      { heard with
        lines := heard.lines ++ (toLine frame heard.nextId received).toList
        nextId := heard.nextId + 1 }
      (match toLine frame view.nextId received with
      | none => { view with nextId := view.nextId + 1 }
      | some line =>
        { view with
          nextId := view.nextId + 1
          buffers := Function.update view.buffers line.tab
            (appendCapped (view.buffers line.tab) [line] lineCap)
          requestsThisSecond :=
            if line.log = .request then view.requestsThisSecond + 1 else view.requestsThisSecond
          pendingRef := if view.paused then view.pendingRef + 1 else view.pendingRef
          flushTimer := true }) := by
    intro frame
    have same : toLine frame heard.nextId received = toLine frame view.nextId received := by
      rw [shows_.nextId]
    rw [same]
    cases made : toLine frame view.nextId received with
    | none =>
      exact
        { shows_ with
          buffers := by
            simp only [Option.toList_none, List.append_nil]
            exact shows_.buffers
          earlier := shows_.earlier.trans (List.prefix_append _ _)
          ordered := by
            simp only [Option.toList_none, List.append_nil]
            exact shows_.ordered
          nextId := congrArg (· + 1) shows_.nextId
          below := fun line member => by
            simp only [Option.toList_none, List.append_nil] at member
            exact Nat.lt_succ_of_lt (shows_.below line member)
          waiting := by
            simp only [Option.toList_none, List.append_nil]
            exact shows_.waiting
          fresh := by
            simp only [Option.toList_none, List.append_nil]
            exact shows_.fresh }
    | some line =>
      have id : line.id = view.nextId := by
        cases frame with
        | line wire =>
          obtain ⟨log, _, rfl⟩ := Option.map_eq_some_iff.mp made
          rfl
        | decision =>
          cases made
          rfl
        | _ => cases made
      exact shows_.line id
  cases frame with
  | ping => exact shows_
  | null => exact shows_
  | skipped count => exact { shows_ with skipped := congrArg (· + count) shows_.skipped }
  | line wire => exact taken (.line wire)
  | decision decision => exact taken (.decision decision)
  | unknown => exact taken .unknown

private theorem Shows.flush (shows_ : Shows heard view) :
    Shows (heard.next .flush) view.flush := by
  unfold LiveView.flush Heard.next
  by_cases pause : view.paused = true
  · rw [if_pos pause, if_pos (shows_.paused.symm.trans pause)]
    exact
      { shows_ with
        pending := Nat.le_refl _
        fresh := fun active => by cases pause.symm.trans active }
  · rw [if_neg pause, if_neg (shows_.paused ▸ pause)]
    exact
      { shows_ with
        lines := shows_.buffers
        earlier := List.prefix_refl _
        pending := Nat.le_refl _
        waiting := Nat.le_of_eq (Nat.zero_add _)
        fresh := fun _ _ => ⟨rfl, rfl⟩ }

end

/-- Every callback keeps the page up to date. -/
theorem shows_next {heard : Heard} {page page' : LivePage} {event : LiveEvent}
    (shows_ : Shows heard page.view) (ran : page.next event = some page') :
    Shows (heard.next event) page'.view := by
  cases event with
  | granted =>
    rw [LivePage.next] at ran
    split at ran
    next => cases ran
    next =>
      cases ran
      exact shows_
  | refused status =>
    rw [LivePage.next] at ran
    split at ran
    next => cases ran
    next =>
      cases ran
      exact shows_
  | opened i =>
    rw [LivePage.next] at ran
    split at ran
    next =>
      cases ran
      exact shows_
    next => cases ran
  | message i received frame =>
    cases frame with
    | none =>
      rw [LivePage.next] at ran
      split at ran
      next =>
        cases ran
        exact shows_
      next => cases ran
    | some frame =>
      rw [LivePage.next] at ran
      split at ran
      next =>
        cases ran
        exact shows_.frame received frame
      next => cases ran
  | closed i code =>
    rw [LivePage.next] at ran
    split at ran
    next => cases ran
    next => cases ran
    next =>
      cases ran
      exact shows_
  | retry k =>
    rw [LivePage.next] at ran
    split at ran
    next =>
      cases ran
      exact shows_
    next => cases ran
  | setWatch watch =>
    cases ran
    exact shows_
  | flush =>
    rw [LivePage.next] at ran
    split at ran
    next =>
      cases ran
      exact shows_.flush
    next => cases ran
  | setPaused next =>
    cases ran
    refine { shows_ with paused := rfl, fresh := fun active timer => ?_ }
    -- a timer runs whenever a pause ends
    have active : next = false := active
    subst active
    have timer : (page.view.flushTimer || true) = false := timer
    rw [Bool.or_true] at timer
    cases timer
  | clear =>
    cases ran
    exact
      { buffers := fun _ => (List.rtake_nil lineCap).symm
        lines := fun _ => (List.rtake_nil lineCap).symm
        earlier := List.prefix_refl _
        ordered := List.Pairwise.nil
        skipped := rfl
        nextId := shows_.nextId
        paused := shows_.paused
        below := List.forall_mem_nil _
        pending := Nat.le_refl _
        waiting := Nat.le_refl _
        fresh := fun _ _ => ⟨rfl, rfl⟩ }
  | second =>
    cases ran
    exact { shows_ with }
  | unmount =>
    rw [LivePage.next] at ran
    split at ran
    next => cases ran
    next =>
      cases ran
      exact shows_

/-- Whatever arrives and whatever the user does: each tab keeps the last thousand of its lines
since the page was cleared, in the order in which they came; it shows the last thousand of those
that were there when it was drawn last, and lacks as many as it says are pending, or more; with no
pause and no timer, it shows all that it keeps. -/
theorem live_page_shows (watch : Watch) (events : List LiveEvent) {page : LivePage}
    (played : play LivePage.next events (LivePage.mounted watch) = some page) :
    Shows (events.foldl Heard.next {}) page.view := by
  have start : Shows {} (LivePage.mounted watch).view :=
    { buffers := fun _ => (List.rtake_nil lineCap).symm
      lines := fun _ => (List.rtake_nil lineCap).symm
      earlier := List.prefix_refl _
      ordered := List.Pairwise.nil
      skipped := rfl
      nextId := rfl
      paused := rfl
      below := List.forall_mem_nil _
      pending := Nat.le_refl _
      waiting := Nat.le_refl _
      fresh := fun _ _ => ⟨rfl, rfl⟩ }
  generalize LivePage.mounted watch = first at played start
  generalize ({} : Heard) = heard at start ⊢
  induction events generalizing first heard with
  | nil =>
    cases played
    exact start
  | cons event events ih =>
    obtain ⟨middle, ran, later⟩ := Option.bind_eq_some_iff.mp played
    exact ih middle later _ (shows_next start ran)

/-- A request line comes, the page is drawn and paused, and another one comes. -/
def pausedBetween : List LiveEvent :=
  [.granted, .opened 0, .message 0 1760000000000 (some (.line { log := some .request })), .flush,
    .setPaused true, .message 0 1760000000100 (some (.line { log := some .request })), .flush]

theorem live_page_shows_paused : ∃ page,
    play LivePage.next pausedBetween (LivePage.mounted ⟨["p1"], false⟩) = some page ∧
    (page.view.lines .requests).map (·.id) = [1] ∧ page.view.pending = 1 ∧
    Shows (pausedBetween.foldl Heard.next {}) page.view := by
  have ends : ∃ page,
      play LivePage.next pausedBetween (LivePage.mounted ⟨["p1"], false⟩) = some page ∧
      (page.view.lines .requests).map (·.id) = [1] ∧ page.view.pending = 1 := ⟨_, rfl, rfl, rfl⟩
  obtain ⟨page, played, ids, pending⟩ := ends
  exact ⟨page, played, ids, pending, live_page_shows ⟨["p1"], false⟩ pausedBetween played⟩

end MegooPM.Live
