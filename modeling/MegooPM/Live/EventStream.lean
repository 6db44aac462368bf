import MegooPM.Lib.Framing
import MegooPM.Lib.JsonReading
import MegooPM.Lib.Transition
import MegooPM.Lib.Utf8Stream

/-!
# The event stream

One connection of the dashboard: `subscribe`, `format_sse` and `_stream` of the API, and the
client of `lib/events.ts` that reads the frames off the response. The bytes reach the client in
chunks that may end anywhere.
-/
namespace MegooPM

open Lib

variable {δ : Type}

/-- `Event`: one thing that happened. The payload is its moment and its detail, which nobody on
the way reads. -/
structure PushedEvent (δ : Type) where
  type : String
  payload : δ

/-- What both sides have from their JSON libraries. -/
structure EventTexts (δ : Type) where
  /-- `model_dump_json` -/
  dump : PushedEvent δ → List Char
  /-- `model_validate_json`, `none` where it raises -/
  validate : List Char → Option (PushedEvent δ)
  /-- the `type` of what `JSON.parse` makes of a text; `none` where it throws or that is falsy -/
  typeOf : List Char → Option String

def eventPrefix : List Char := ['d', 'a', 't', 'a', ':', ' ']

def frameEnd : List Char := ['\n', '\n']

def formatSse (texts : EventTexts δ) (event : PushedEvent δ) : List Char :=
  eventPrefix ++ texts.dump event ++ frameEnd

def keepalive : List Char := [':', ' ', 'k', 'e', 'e', 'p', 'a', 'l', 'i', 'v', 'e']

/-- A comment frame. -/
def keepaliveFrame : List Char :=
  keepalive ++ frameEnd

/-! ### The client -/

/-- The types in the lines of one frame. -/
def frameTypes (typeOf : List Char → Option String) (frame : List Char) : List String :=
  (frame.splitOn '\n').filterMap fun line =>
    if eventPrefix.isPrefixOf line then typeOf (line.drop eventPrefix.length) else none

def parseFrames (typeOf : List Char → Option String) (buffer : List Char) :
    List String × List Char :=
  let (frames, rest) := takeFrames frameEnd buffer
  (frames.flatMap (frameTypes typeOf), rest)

/-- The decoder and the buffer of one connection, and the calls of `onEvent`. -/
structure EventClient where
  sequence : Option OpenSequence := none
  /-- a character was decoded -/
  begun : Bool := false
  buffer : List Char := []
  reported : List String := []

/-- A decoder drops a byte order mark at the front of its stream. -/
def withoutMark (begun : Bool) (text : List Char) : List Char :=
  if begun then text
  else match text with
    | '\uFEFF' :: rest => rest
    | _ => text

/-- One round of the read loop. -/
def EventClient.read (typeOf : List Char → Option String) (client : EventClient) (value : Bytes) :
    EventClient :=
  let (text, sequence) := decodeChunk client.sequence value
  let (types, rest) := parseFrames typeOf (client.buffer ++ withoutMark client.begun text)
  { sequence := sequence
    begun := client.begun || !text.isEmpty
    buffer := rest
    reported := client.reported ++ types }

/-! ### The connection -/

structure EventConnection (δ : Type) where
  /-- on the channel and not read by the pump yet -/
  inbox : List (List Char) := []
  queue : List (PushedEvent δ) := []
  /-- sent and not received yet -/
  wire : Bytes
  client : EventClient := {}
  /-- the events on the channel since the subscription -/
  announced : List (PushedEvent δ) := []

inductive EventLabel (δ : Type) where
  /-- `publish` -/
  | publish (event : PushedEvent δ)
  /-- something else is put on the channel -/
  | foreign (text : List Char)
  /-- `_pump` takes the next message; one that is no event is passed over -/
  | pump
  | send
  /-- nothing came for `HEARTBEAT_SECONDS` -/
  | heartbeat
  /-- the client reads as many bytes -/
  | receive (n : Nat)

namespace EventConnection

variable (texts : EventTexts δ)

/-- The subscription is there and the first frame sent. -/
def opened (payload : δ) : EventConnection δ where
  wire := textBytes (formatSse texts ⟨"stream.open", payload⟩)

def next (c : EventConnection δ) : EventLabel δ → Option (EventConnection δ)
  | .publish event =>
    some { c with inbox := c.inbox ++ [texts.dump event], announced := c.announced ++ [event] }
  | .foreign text =>
    some { c with
      inbox := c.inbox ++ [text], announced := c.announced ++ (texts.validate text).toList }
  | .pump =>
    match c.inbox with
    | [] => none
    | text :: rest =>
      some { c with inbox := rest, queue := c.queue ++ (texts.validate text).toList }
  | .send =>
    match c.queue with
    | [] => none
    | event :: rest =>
      some { c with queue := rest, wire := c.wire ++ textBytes (formatSse texts event) }
  | .heartbeat => some { c with wire := c.wire ++ textBytes keepaliveFrame }
  | .receive n =>
    some { c with wire := c.wire.drop n, client := c.client.read texts.typeOf (c.wire.take n) }

def Step (c : EventConnection δ) (l : EventLabel δ) (c' : EventConnection δ) : Prop :=
  c.next texts l = some c'

end EventConnection

/-- The types a client is told of: it passes over an event without one. -/
def shownTypes (events : List (PushedEvent δ)) : List String :=
  (events.map (·.type)).filter (· ≠ "")

/-- What the client is to hear: that the stream is open, then every event. -/
def EventConnection.expected (c : EventConnection δ) : List String :=
  "stream.open" :: shownTypes c.announced

/-- The two JSON libraries agree on events, and a dumped event is one line. -/
structure EventTexts.Agree (texts : EventTexts δ) : Prop where
  oneLine : ∀ event, '\n' ∉ texts.dump event
  validates : ∀ event, texts.validate (texts.dump event) = some event
  reads : ∀ event,
    texts.typeOf (texts.dump event) = if event.type = "" then none else some event.type

/-! ### Frames on the wire -/

@[simp] theorem shownTypes_append (left right : List (PushedEvent δ)) :
    shownTypes (left ++ right) = shownTypes left ++ shownTypes right := by
  simp [shownTypes]

section Frames

variable {typeOf : List Char → Option String}

theorem head_formatSse (texts : EventTexts δ) (event : PushedEvent δ) :
    (formatSse texts event).head? = some 'd' := by
  simp [formatSse, eventPrefix]

private theorem frameEnd_proper : frameEnd ≠ [] :=
  List.cons_ne_nil '\n' ['\n']

theorem parseFrames_append (buffer more : List Char) :
    parseFrames typeOf (buffer ++ more) =
      ((parseFrames typeOf buffer).1 ++
          (parseFrames typeOf ((parseFrames typeOf buffer).2 ++ more)).1,
        (parseFrames typeOf ((parseFrames typeOf buffer).2 ++ more)).2) := by
  simp only [parseFrames, takeFrames_append frameEnd_proper buffer more, List.flatMap_append]

/-- What is left of a buffer holds no complete frame. -/
theorem parseFrames_left (buffer : List Char) :
    (parseFrames typeOf (parseFrames typeOf buffer).2).1 = [] := by
  have left := cutAt_left frameEnd_proper buffer
  simp only [parseFrames]
  rw [takeFrames_of_none left]
  rfl

/-- A frame of one line. -/
theorem parseFrames_line {line : List Char} (oneLine : '\n' ∉ line) :
    parseFrames typeOf (line ++ frameEnd) =
      ((if eventPrefix.isPrefixOf line then typeOf (line.drop eventPrefix.length) else none).toList,
        []) := by
  have framable : Framable frameEnd line := framable_of_notMem oneLine
  simp only [parseFrames, takeFrames_frame frameEnd_proper framable, List.flatMap_cons,
    List.flatMap_nil, List.append_nil, frameTypes, List.splitOn_eq_singleton oneLine,
    List.filterMap_cons, List.filterMap_nil]
  split
  next absent => rw [absent]; rfl
  next found => rw [found]; rfl

theorem parseFrames_event {texts : EventTexts δ} (agree : texts.Agree) (event : PushedEvent δ) :
    parseFrames texts.typeOf (formatSse texts event) = (shownTypes [event], []) := by
  have oneLine : '\n' ∉ eventPrefix ++ texts.dump event := by
    rw [List.mem_append, not_or]
    exact ⟨by decide, agree.oneLine event⟩
  have starts : eventPrefix.isPrefixOf (eventPrefix ++ texts.dump event) = true :=
    List.isPrefixOf_iff_prefix.mpr (List.prefix_append ..)
  rw [formatSse, parseFrames_line oneLine, if_pos starts, List.drop_left, agree.reads]
  by_cases unnamed : event.type = ""
  · simp [shownTypes, unnamed]
  · simp [shownTypes, unnamed]

theorem parseFrames_keepalive : parseFrames typeOf keepaliveFrame = ([], []) := by
  have oneLine : '\n' ∉ keepalive := by decide
  have comment : ¬eventPrefix.isPrefixOf keepalive = true := by decide
  rw [keepaliveFrame, parseFrames_line oneLine, if_neg comment]
  rfl

end Frames

/-! ### Nothing is lost on the way -/

namespace EventConnection

/-- What the client makes of everything that is sent. -/
def decoded (c : EventConnection δ) : List Char :=
  (decodeChunk c.client.sequence c.wire).1

/-- What was reported, what is on the way and what the server still holds make up everything
that was announced. -/
structure Conserves (texts : EventTexts δ) (c : EventConnection δ) : Prop where
  ends : (decodeChunk c.client.sequence c.wire).2 = none
  /-- the stream does not begin with a mark -/
  front : c.client.begun = false → c.decoded.head? ≠ some '\uFEFF'
  /-- no complete frame waits in the buffer -/
  waiting : (parseFrames texts.typeOf c.client.buffer).1 = []
  left : (parseFrames texts.typeOf (c.client.buffer ++ c.decoded)).2 = []
  total : c.client.reported ++ (parseFrames texts.typeOf (c.client.buffer ++ c.decoded)).1 ++
    shownTypes c.queue ++ shownTypes (c.inbox.filterMap texts.validate) = c.expected

variable {texts : EventTexts δ} {c : EventConnection δ}

/-- A whole frame behind everything sent so far. -/
private theorem decodeChunk_frame (ends : (decodeChunk c.client.sequence c.wire).2 = none)
    (frame : List Char) :
    decodeChunk c.client.sequence (c.wire ++ textBytes frame) = (c.decoded ++ frame, none) := by
  rw [decodeChunk_append, ends, decodeChunk_textBytes]
  rfl

/-- The server sends a frame, and its queue shrinks by what the frame shows. -/
private theorem Conserves.sent (conserves : c.Conserves texts) {frame : List Char}
    {types : List String} {queue : List (PushedEvent δ)}
    (parsed : parseFrames texts.typeOf frame = (types, []))
    (first : frame.head? ≠ some '\uFEFF') (shown : shownTypes c.queue = types ++ shownTypes queue) :
    ({ c with queue := queue, wire := c.wire ++ textBytes frame } :
      EventConnection δ).Conserves texts := by
  have sent := decodeChunk_frame conserves.ends frame
  have decoded : ({ c with queue := queue, wire := c.wire ++ textBytes frame } :
      EventConnection δ).decoded = c.decoded ++ frame := congrArg Prod.fst sent
  have frames : parseFrames texts.typeOf (c.client.buffer ++ (c.decoded ++ frame)) =
      ((parseFrames texts.typeOf (c.client.buffer ++ c.decoded)).1 ++ types, []) := by
    rw [← List.append_assoc, parseFrames_append, conserves.left, List.nil_append, parsed]
  refine ⟨congrArg Prod.snd sent, fun begun => ?_, conserves.waiting, ?_, ?_⟩
  · rw [decoded]
    cases before : c.decoded with
    | nil => exact first
    | cons d rest =>
      have other := conserves.front begun
      rw [before] at other
      exact other
  · rw [decoded, frames]
  · rw [decoded, frames]
    have total := conserves.total
    rw [shown] at total
    simp only [List.append_assoc] at total ⊢
    exact total

/-- However many bytes the client reads. -/
private theorem Conserves.received (conserves : c.Conserves texts) (n : Nat) :
    ({ c with
      wire := c.wire.drop n
      client := c.client.read texts.typeOf (c.wire.take n) } :
        EventConnection δ).Conserves texts := by
  obtain ⟨ends, front, waiting, left, total⟩ := conserves
  have cut := decodeChunk_append c.client.sequence (c.wire.take n) (c.wire.drop n)
  rw [List.take_append_drop] at cut
  cases chunk : decodeChunk c.client.sequence (c.wire.take n) with
  | mk text sequence =>
    rw [chunk] at cut
    have decoded : c.decoded = text ++ (decodeChunk sequence (c.wire.drop n)).1 :=
      congrArg Prod.fst cut
    -- a mark at the front of the chunk would be one at the front of the stream
    have unmarked : withoutMark c.client.begun text = text := by
      unfold withoutMark
      split
      next => rfl
      next fresh =>
        split
        next rest =>
          refine absurd ?_ (front (Bool.not_eq_true _ |>.mp fresh))
          rw [decoded]
          rfl
        next => rfl
    have split := @parseFrames_append texts.typeOf (c.client.buffer ++ text)
      (decodeChunk sequence (c.wire.drop n)).1
    rw [List.append_assoc, ← decoded] at split
    have read : c.client.read texts.typeOf (c.wire.take n) =
        { sequence := sequence
          begun := c.client.begun || !text.isEmpty
          buffer := (parseFrames texts.typeOf (c.client.buffer ++ text)).2
          reported := c.client.reported ++
            (parseFrames texts.typeOf (c.client.buffer ++ text)).1 } := by
      simp only [EventClient.read, chunk, unmarked]
    rw [read]
    refine ⟨(congrArg Prod.snd cut).symm.trans ends, fun begun => ?_, parseFrames_left _, ?_, ?_⟩
    · obtain ⟨fresh, nothing⟩ := Bool.or_eq_false_iff.mp begun
      have other := front fresh
      have empty : text = [] := List.isEmpty_iff.mp (by simpa using nothing)
      rw [decoded, empty] at other
      exact other
    · exact (congrArg Prod.snd split).symm.trans left
    · rw [split] at total
      simp only [List.append_assoc] at total ⊢
      exact total

/-- Every step keeps everything that was announced. -/
theorem Conserves.step (agree : texts.Agree) (conserves : c.Conserves texts) {l : EventLabel δ}
    {c' : EventConnection δ} (moved : Step texts c l c') : c'.Conserves texts := by
  cases l with
  | publish event =>
    cases moved
    refine { conserves with total := ?_ }
    have found : (c.inbox ++ [texts.dump event]).filterMap texts.validate =
        c.inbox.filterMap texts.validate ++ [event] := by
      simp only [List.filterMap_append, List.filterMap_cons, agree.validates, List.filterMap_nil]
    simp only [expected, found, shownTypes_append, ← List.append_assoc]
    rw [← List.cons_append]
    exact congrArg (· ++ shownTypes [event]) conserves.total
  | foreign text =>
    cases moved
    refine { conserves with total := ?_ }
    have found : (c.inbox ++ [text]).filterMap texts.validate =
        c.inbox.filterMap texts.validate ++ (texts.validate text).toList := by
      rw [List.filterMap_append, List.filterMap_cons, List.filterMap_nil]
      cases texts.validate text <;> rfl
    simp only [expected, found, shownTypes_append, ← List.append_assoc]
    rw [← List.cons_append]
    exact congrArg (· ++ shownTypes (texts.validate text).toList) conserves.total
  | pump =>
    simp only [Step, next] at moved
    split at moved
    next => cases moved
    next text rest waiting =>
      cases moved
      refine { conserves with total := ?_ }
      -- a text that is no event is dropped on the way to the queue
      have taken : c.inbox.filterMap texts.validate =
          (texts.validate text).toList ++ rest.filterMap texts.validate := by
        rw [waiting, List.filterMap_cons]
        cases texts.validate text <;> rfl
      have total := conserves.total
      rw [taken] at total
      simp only [shownTypes_append, List.append_assoc] at total ⊢
      exact total
  | send =>
    simp only [Step, next] at moved
    split at moved
    next => cases moved
    next event rest waiting =>
      cases moved
      -- the decoder drops a byte order mark only, and no frame begins with one
      have first : (formatSse texts event).head? ≠ some '\uFEFF' := by
        rw [head_formatSse]
        decide
      refine conserves.sent (parseFrames_event agree event) first ?_
      rw [waiting, ← List.singleton_append, shownTypes_append]
  | heartbeat =>
    cases moved
    have nothing : shownTypes c.queue = [] ++ shownTypes c.queue := rfl
    exact conserves.sent parseFrames_keepalive (by decide) nothing
  | receive n =>
    cases moved
    exact conserves.received n

theorem conserves_opened (agree : texts.Agree) (payload : δ) :
    (opened texts payload).Conserves texts := by
  have sent := decodeChunk_textBytes (formatSse texts ⟨"stream.open", payload⟩)
  have decoded : (opened texts payload).decoded =
      formatSse texts ⟨"stream.open", payload⟩ := congrArg Prod.fst sent
  have parsed := parseFrames_event agree ⟨"stream.open", payload⟩
  refine ⟨congrArg Prod.snd sent, fun _ => ?_, rfl, ?_, ?_⟩
  · rw [decoded, head_formatSse]
    decide
  · rw [decoded]
    exact congrArg Prod.snd parsed
  · rw [decoded]
    refine Eq.trans ?_ (congrArg Prod.fst parsed)
    exact (List.append_nil _).trans (List.append_nil _)

end EventConnection

/-- Whatever is published, wherever the chunks end and whenever the server sends a keepalive: at
every moment the client has heard of a first part of the events, in their order and each once, and
when nothing is on the way it has heard of all. -/
theorem events_arrive_in_order {texts : EventTexts δ} (agree : texts.Agree) (payload : δ)
    {c : EventConnection δ}
    (run : Reaches (EventConnection.Step texts) (EventConnection.opened texts payload) c) :
    c.client.reported <+: c.expected ∧
    (c.inbox = [] → c.queue = [] → c.wire = [] → c.client.reported = c.expected) := by
  have conserves : c.Conserves texts :=
    run.invariant (fun _ _ _ keeps moved => keeps.step agree moved)
      (EventConnection.conserves_opened agree payload)
  have total := conserves.total
  constructor
  · rw [← total, List.append_assoc, List.append_assoc]
    exact List.prefix_append ..
  · intro read sent received
    have nothing : c.decoded = [] := by
      rw [EventConnection.decoded, received]
      rfl
    rw [nothing, read, sent, List.append_nil, conserves.waiting] at total
    simpa [shownTypes] using total

/-! ### One event -/

/-- The members `type` and `at` of a text, with JSON as it is. -/
def readEvent (text : List Char) : Option (PushedEvent String) :=
  match readJson text with
  | some (.object members) =>
    match memberAt members "type", memberAt members "at" with
    | some (.text type), some (.text moment) =>
      some ⟨String.ofList (type.map Char.ofNat), String.ofList (moment.map Char.ofNat)⟩
    | _, _ => none
  | _ => none

/-- Events with no detail, their moment a text. -/
def plainEvents : EventTexts String where
  dump event := objectText .wide [("type", event.type), ("at", event.payload)]
  validate := readEvent
  typeOf text := ((readEvent text).map (·.type)).filter (· ≠ "")

private theorem ofList_codePoints (text : String) :
    String.ofList ((codePoints text).map Char.ofNat) = text := by
  rw [codePoints, List.map_map]
  calc
    _ = String.ofList (text.toList.map id) :=
      congrArg String.ofList (List.map_congr_left fun c _ => Char.ofNat_toNat c)
    _ = text := by rw [List.map_id, String.ofList_toList]

/-- No line ends inside a quoted text. -/
private theorem newline_wideQuoted (text : String) : '\n' ∉ wideQuoted text := by
  have chars : ∀ c : Char, '\n' ∉ wideChar c := by
    intro c member
    unfold wideChar at member
    split at member
    · exact absurd (isPrintable_jsonChar c _ member) (by decide)
    next high =>
      rw [List.mem_singleton] at member
      subst member
      exact high (by decide)
  simp [wideQuoted, chars]

theorem readEvent_dump (event : PushedEvent String) :
    readEvent (plainEvents.dump event) = some event := by
  have distinct : ([("type", event.type), ("at", event.payload)].map (·.1)).Nodup := by simp
  have read : readJson (plainEvents.dump event) =
      some (textObject [("type", event.type), ("at", event.payload)]) :=
    readJson_objectText TextStyle.reads_wide _ distinct
  have type : memberAt [(codePoints "type", Json.text (codePoints event.type)),
      (codePoints "at", .text (codePoints event.payload))] "type" =
        some (.text (codePoints event.type)) := by rfl
  have moment : memberAt [(codePoints "type", Json.text (codePoints event.type)),
      (codePoints "at", .text (codePoints event.payload))] "at" =
        some (.text (codePoints event.payload)) := by rfl
  simp only [readEvent, read, textObject, List.map_cons, List.map_nil, type, moment,
    ofList_codePoints]

theorem agree_plainEvents : plainEvents.Agree where
  oneLine event := notMem_objectText newline_wideQuoted (by decide) (by decide) _
  validates event := by
    have read := readEvent_dump event
    simp only [plainEvents] at read ⊢
    exact read
  reads event := by
    have read := readEvent_dump event
    simp only [plainEvents] at read ⊢
    rw [read]
    by_cases unnamed : event.type = ""
    · simp [unnamed]
    · simp [unnamed]

/-- Two changes are announced, with a keepalive between them, and the client has read the first
frames and the first byte of the `ö`. -/
def cutRun : List (EventLabel String) :=
  [.publish ⟨"config.changed", "2026-07-22T12:00:05Z"⟩, .pump, .receive 40, .send, .heartbeat,
    .publish ⟨"größe", "2026-07-22T12:00:09Z"⟩, .pump, .send, .receive 110]

theorem events_arrive_in_order_cut :
    let start := EventConnection.opened plainEvents "2026-07-22T12:00:00Z"
    ∃ c c', play (EventConnection.next plainEvents) cutRun start = some c ∧
      c.client.sequence ≠ none ∧
      c.client.reported = ["stream.open", "config.changed"] ∧
      c.next plainEvents (.receive c.wire.length) = some c' ∧
      c'.client.reported = ["stream.open", "config.changed", "größe"] := by
  intro start
  have observed : (play (EventConnection.next plainEvents) cutRun start).map (fun c =>
      (c.client.sequence.isSome, c.client.reported, c.inbox.isEmpty, c.queue.isEmpty,
        shownTypes c.announced)) =
      some (true, ["stream.open", "config.changed"], true, true, ["config.changed", "größe"]) := by
    decide +kernel
  obtain ⟨c, played, seen⟩ := Option.map_eq_some_iff.mp observed
  simp only [Prod.mk.injEq, List.isEmpty_iff] at seen
  obtain ⟨cut, reported, read, sent, shown⟩ := seen
  refine ⟨c, _, played, Option.isSome_iff_ne_none.mp cut, reported, rfl, ?_⟩
  have run : Reaches (Guarded (fun _ _ => True) (EventConnection.Step plainEvents)) start c :=
    Reaches.of_play (fun _ _ _ => trivial) played
  have last : c.Step plainEvents (.receive c.wire.length) _ := rfl
  refine ((events_arrive_in_order agree_plainEvents _ (run.of_guarded.tail last)).2 read sent
    (List.drop_length ..)).trans ?_
  rw [EventConnection.expected, shown]

end MegooPM
