import MegooPM.Lib.JsonReading
import MegooPM.Lib.Utf8
import MegooPM.Live.RateLimiter

/-!
# What a live-log session does with a published message

`services/live_logs.py` and `_Session._forward`: a message is the relay's count of the lines it
skipped, or a line; a line that is a JSON object is sent on with its country. What `_forward`
raises ends the session.
-/
namespace MegooPM.Live

open Lib

/-! ### Countries -/

/-- The country database, and what Python's texts get from the Unicode tables. -/
structure Countries where
  /-- `reader.get`, unless the database is missing; `none` where it raises for what is no address -/
  get : Option (CodePoints → Option Json)
  upper : CodePoints → CodePoints
  isAlpha : CodePoints → Bool

def stripPoints (text : CodePoints) : CodePoints :=
  let blank := fun n => isSpace (Char.ofNat n)
  ((text.dropWhile blank).reverse.dropWhile blank).reverse

section

variable (countries : Countries)

/-- `lookup_country` -/
def lookupCountry (ip : CodePoints) : Option CodePoints :=
  if ip = [] then none
  else
    match countries.get.bind fun get => get ip with
    | some (.object record) =>
      match ((memberAt record "country").filter truthy).or
          ((memberAt record "registered_country").filter truthy) with
      | some (.object country) =>
        match memberAt country "iso_code" with
        | some (.text code) => some code
        | _ => none
      | _ => none
    | _ => none

/-- `_normalise` -/
def normaliseCode (code : Option CodePoints) : Option CodePoints :=
  match code with
  | none => none
  | some code =>
    if code = [] then none
    else
      let code := countries.upper (stripPoints code)
      if code.length = 2 && countries.isAlpha code then some code else none

/-- `country_for("Ip", value)` -/
def countryForIp (value : CodePoints) : Option CodePoints :=
  if value = [] then none else normaliseCode countries (lookupCountry countries (stripPoints value))

end

/-! ### Messages -/

/-- How many containers inside each other Python's stack has room for, where it reads and where
it writes. -/
structure Rooms where
  read : Nat
  write : Nat

def relaySkippedPrefix : List Char := "\x7b\"log\":\"skipped\",".toList

def maxRelaySkipped : Int := 1000000

/-- The count of a skipped message, unless it is no sane whole number. -/
def saneCount : Json → Int
  | .object message =>
    match memberAt message "count" with
    | some (.int count) => if 0 < count ∧ count ≤ maxRelaySkipped then count else 0
    | _ => 0
  | _ => 0

def isRelaySkipped (data : Bytes) : Bool :=
  (asciiBytes relaySkippedPrefix).isPrefixOf data

/-- `relay_skipped` -/
def relaySkipped (room : Nat) (data : Bytes) : Except JsonError (Option Int) :=
  if !isRelaySkipped data then .ok none
  else
    match decodePassing data with
    | none => .ok (some 0)
    | some text =>
      match loads room text with
      | .ok message => .ok (some (saneCount message))
      | .error .valueError => .ok (some 0)
      | .error .recursionError => .error .recursionError

section

variable (countries : Countries) (rooms : Rooms)

/-- The country of the address in a message. -/
def countryOf (message : List (CodePoints × Json)) : Json :=
  match memberAt message "f" with
  | some (.object fields) =>
    match memberAt fields "ip" with
    | some (.text ip) => if ip = [] then .null else (countryForIp countries ip).elim .null .text
    | _ => .null
  | _ => .null

/-- `{**message, "type": "line", "cc": cc}` -/
def frameOf (message : List (CodePoints × Json)) : List (CodePoints × Json) :=
  setItem (setItem message (codePoints "type") (.text (codePoints "line"))) (codePoints "cc")
    (countryOf countries message)

/-- `line_frame` -/
def lineFrame (data : Bytes) : Except JsonError (Option (List (CodePoints × Json))) :=
  match loads rooms.read (decodeReplacing data) with
  | .ok (.object message) => .ok (some (frameOf countries message))
  | .ok _ => .ok none
  | .error .valueError => .ok none
  | .error .recursionError => .error .recursionError

/-- `dump_frame` -/
def dumpFrame (frame : List (CodePoints × Json)) : Except JsonError (List Char) :=
  writeJson .compact rooms.write (.object frame)

/-- What becomes of a message. -/
inductive Forwarding where
  /-- its count is added to the session's -/
  | counted (count : Int)
  /-- it is over the session's limit, and counted there -/
  | capped
  | dropped
  | sent (text : List Char)
deriving DecidableEq

/-- The limiter after a message, and what `_forward` did or raised. -/
structure Forwarded where
  limiter : RateLimiter
  answer : Except JsonError Forwarding

def forwardLine (data : Bytes) : Except JsonError Forwarding := do
  match ← lineFrame countries rooms data with
  | none => return .dropped
  | some frame => return .sent (← dumpFrame rooms frame)

/-- `_forward` -/
def forward (limiter : RateLimiter) (now : ℚ) (data : Bytes) : Forwarded :=
  match relaySkipped rooms.read data with
  | .error raised => ⟨limiter, .error raised⟩
  | .ok (some count) => ⟨limiter.addSkipped count now, .ok (.counted count)⟩
  | .ok none =>
    let allowed := limiter.allow now
    if allowed.1 then ⟨allowed.2, forwardLine countries rooms data⟩
    else ⟨allowed.2, .ok .capped⟩

end

/-! ### What may be sent -/

/-- A line frame that a browser can read. -/
def IsLineFrame (text : List Char) : Prop :=
  IsJson text ∧ ∃ frame room, memberAt frame "type" = some (.text (codePoints "line")) ∧
    writeJson .compact room (.object frame) = .ok text

/-- The session goes on, and all it sends is a line frame. -/
def Forwarded.Harmless (forwarded : Forwarded) : Prop :=
  match forwarded.answer with
  | .ok (.sent text) => IsLineFrame text
  | .ok _ => True
  | .error _ => False

/-- A number that JSON can spell. -/
def HasSpelling : Json → Prop
  | .float x => x.isFinite = true
  | _ => True

/-- A value that the frame takes over. -/
def Sendable (room : Nat) (value : Json) : Prop :=
  value.Scalars HasSpelling ∧ value.depth + 1 ≤ room

/-- What a line must be so that it does no harm: its nesting fits, and if it is an object so do
the members that the frame keeps. -/
def HarmlessLine (rooms : Rooms) (text : List Char) : Prop :=
  nesting text ≤ rooms.read ∧ ∀ message, readJson text = some (.object message) →
    0 < rooms.write ∧ ∀ member ∈ message,
      member.1 ≠ codePoints "type" → member.1 ≠ codePoints "cc" → Sendable rooms.write member.2

/-- What `_forward` copes with. -/
def Forwardable (rooms : Rooms) (limiter : RateLimiter) (now : ℚ) (data : Bytes) : Prop :=
  (isRelaySkipped data = true → ∀ text, decodePassing data = some text →
    nesting text ≤ rooms.read) ∧
  (isRelaySkipped data = false → (limiter.allow now).1 = true →
    HarmlessLine rooms (decodeReplacing data))

/-! ### Reading -/

theorem relaySkipped_other {room : Nat} {data : Bytes} (other : isRelaySkipped data = false) :
    relaySkipped room data = .ok none := by
  rw [relaySkipped, other]
  rfl

theorem relaySkipped_counts {room : Nat} {data : Bytes} (skipped : isRelaySkipped data = true)
    (fits : ∀ text, decodePassing data = some text → nesting text ≤ room) :
    ∃ count, relaySkipped room data = .ok (some count) := by
  simp only [relaySkipped, skipped, Bool.not_true, Bool.false_eq_true, if_false]
  cases decoded : decodePassing data with
  | none => exact ⟨0, rfl⟩
  | some text =>
    simp only [loads_eq, if_pos (fits text decoded)]
    cases readJson text with
    | none => exact ⟨0, rfl⟩
    | some message => exact ⟨saneCount message, rfl⟩

theorem relaySkipped_raises {room : Nat} {data : Bytes} {text : List Char}
    (skipped : isRelaySkipped data = true) (decoded : decodePassing data = some text)
    (deep : ¬ nesting text ≤ room) : relaySkipped room data = .error .recursionError := by
  simp only [relaySkipped, skipped, Bool.not_true, Bool.false_eq_true, if_false, decoded, loads_eq,
    if_neg deep]

section

variable {countries : Countries} {rooms : Rooms}

theorem lineFrame_raises {data : Bytes} (deep : ¬ nesting (decodeReplacing data) ≤ rooms.read) :
    lineFrame countries rooms data = .error .recursionError := by
  rw [lineFrame, loads_eq, if_neg deep]

theorem lineFrame_object {data : Bytes} {message : List (CodePoints × Json)}
    (fits : nesting (decodeReplacing data) ≤ rooms.read)
    (read : readJson (decodeReplacing data) = some (.object message)) :
    lineFrame countries rooms data = .ok (some (frameOf countries message)) := by
  rw [lineFrame, loads_eq, if_pos fits, read]
  rfl

theorem lineFrame_drops {data : Bytes} (fits : nesting (decodeReplacing data) ≤ rooms.read)
    (other : ∀ message, readJson (decodeReplacing data) ≠ some (.object message)) :
    lineFrame countries rooms data = .ok none := by
  rw [lineFrame, loads_eq, if_pos fits]
  cases read : readJson (decodeReplacing data) with
  | none => rfl
  | some value =>
    cases value with
    | object message => exact absurd read (other message)
    | _ => rfl

/-! ### Writing -/

theorem memberAt_frameOf (message : List (CodePoints × Json)) :
    memberAt (frameOf countries message) "type" = some (.text (codePoints "line")) := by
  rw [memberAt, frameOf, itemAt_setItem, if_neg (by decide), itemAt_setItem, if_pos rfl]

theorem countryOf_cases (countries : Countries) (message : List (CodePoints × Json)) :
    countryOf countries message = .null ∨ ∃ code, countryOf countries message = .text code := by
  have plain : ∀ code : Option CodePoints,
      code.elim Json.null .text = .null ∨ ∃ text, code.elim Json.null .text = .text text := by
    intro code
    cases code with
    | none => exact .inl rfl
    | some text => exact .inr ⟨text, rfl⟩
  unfold countryOf
  split
  · split
    · split
      · exact .inl rfl
      · exact plain _
    · exact .inl rfl
  · exact .inl rfl

theorem writable_of_short {v : Json} (short : v.Scalars Json.Short) (spelled : v.Scalars HasSpelling) :
    v.Scalars Json.Writable := by
  refine short.imp₂ ?_ spelled
  intro v short spelled
  cases v with
  | int n => exact short
  | float x => exact spelled
  | _ => trivial

theorem hasSpelling_of_writable {v : Json} (writable : v.Scalars Json.Writable) :
    v.Scalars HasSpelling := by
  refine writable.imp₂ ?_ writable
  intro v writable _
  cases v with
  | float x => exact writable
  | _ => trivial

/-- A number that was read can be written, unless it is none that JSON can spell. -/
theorem sendable_iff {room : Nat} {v : Json} (short : v.Scalars Json.Short) :
    Sendable room v ↔ v.Scalars Json.Writable ∧ v.depth + 1 ≤ room :=
  ⟨fun h => ⟨writable_of_short short h.1, h.2⟩, fun h => ⟨hasSpelling_of_writable h.1, h.2⟩⟩

theorem dumpFrame_writes_iff {frame : List (CodePoints × Json)} :
    (∃ text, dumpFrame rooms frame = .ok text) ↔ 0 < rooms.write ∧
      ∀ member ∈ frame, member.2.Scalars Json.Writable ∧ member.2.depth + 1 ≤ rooms.write := by
  rw [dumpFrame, writeJson_ok_iff rfl, Json.Scalars, Json.depth, memberScalars_iff]
  constructor
  · rintro ⟨written, deep⟩
    have depths := memberDepth_le_iff.mp (Nat.le_sub_one_of_lt deep)
    refine ⟨by omega, fun member inside => ⟨written member inside, ?_⟩⟩
    have depth := depths member inside
    omega
  · rintro ⟨positive, each⟩
    refine ⟨fun member inside => (each member inside).1, ?_⟩
    have deepest : memberDepth frame ≤ rooms.write - 1 := by
      refine memberDepth_le_iff.mpr fun member inside => ?_
      have depth := (each member inside).2
      omega
    omega

/-- A frame is written exactly when every member it keeps is one that may be sent. -/
theorem dumpFrame_ok_iff {message : List (CodePoints × Json)}
    (short : (Json.object message).Scalars Json.Short) :
    (∃ text, dumpFrame rooms (frameOf countries message) = .ok text) ↔
      0 < rooms.write ∧ ∀ member ∈ message, member.1 ≠ codePoints "type" →
        member.1 ≠ codePoints "cc" → Sendable rooms.write member.2 := by
  rw [Json.Scalars, memberScalars_iff] at short
  rw [dumpFrame_writes_iff]
  refine and_congr_right fun positive => ?_
  have line : (Json.text (codePoints "line")).Scalars Json.Writable ∧ 0 + 1 ≤ rooms.write :=
    ⟨trivial, positive⟩
  have country : (countryOf countries message).Scalars Json.Writable ∧
      (countryOf countries message).depth + 1 ≤ rooms.write := by
    rcases countryOf_cases countries message with none | ⟨code, some_⟩
    · rw [none]
      exact ⟨trivial, positive⟩
    · rw [some_]
      exact ⟨trivial, positive⟩
  rw [frameOf, forall_mem_setItem country]
  refine (forall_mem_setItem (P := fun member : CodePoints × Json => member.1 ≠ codePoints "cc" →
    member.2.Scalars Json.Writable ∧ member.2.depth + 1 ≤ rooms.write) (fun _ => line)
    message).trans ?_
  exact forall₂_congr fun member inside => imp_congr_right fun _ => imp_congr_right fun _ =>
    (sendable_iff (short member inside)).symm

theorem forwardLine_sends {data : Bytes} {frame : List (CodePoints × Json)}
    (read : lineFrame countries rooms data = .ok (some frame)) :
    forwardLine countries rooms data = (dumpFrame rooms frame).map .sent := by
  rw [forwardLine, read]
  change (do return Forwarding.sent (← dumpFrame rooms frame)) = _
  cases dumpFrame rooms frame <;> rfl

theorem forwardLine_harmless_iff (limiter : RateLimiter) (data : Bytes) :
    Forwarded.Harmless ⟨limiter, forwardLine countries rooms data⟩ ↔
      HarmlessLine rooms (decodeReplacing data) := by
  unfold HarmlessLine
  by_cases fits : nesting (decodeReplacing data) ≤ rooms.read
  · simp only [fits, true_and]
    by_cases object : ∃ message, readJson (decodeReplacing data) = some (.object message)
    · obtain ⟨message, read⟩ := object
      simp only [read, Option.some.injEq, Json.object.injEq, forall_eq']
      rw [forwardLine_sends (lineFrame_object fits read),
        ← @dumpFrame_ok_iff countries rooms message (readJson_short read)]
      cases written : dumpFrame rooms (frameOf countries message) with
      | error raised => simp [Forwarded.Harmless, Except.map]
      | ok text =>
        have sent : IsLineFrame text :=
          ⟨isJson_writeJson _ written, _, _, memberAt_frameOf message, written⟩
        simpa [Forwarded.Harmless, Except.map] using sent
    · rw [not_exists] at object
      have dropped : forwardLine countries rooms data = .ok .dropped := by
        rw [forwardLine, lineFrame_drops fits object]
        rfl
      simp [dropped, Forwarded.Harmless, object]
  · have raised : forwardLine countries rooms data = .error .recursionError := by
      rw [forwardLine, lineFrame_raises fits]
      rfl
    simp [raised, Forwarded.Harmless, fits]

/-- A message does no harm to its session exactly when `_forward` copes with it. -/
theorem forward_harmless_iff (countries : Countries) (rooms : Rooms) (limiter : RateLimiter)
    (now : ℚ) (data : Bytes) :
    (forward countries rooms limiter now data).Harmless ↔ Forwardable rooms limiter now data := by
  unfold Forwardable
  cases skipped : isRelaySkipped data with
  | true =>
    simp only [Bool.true_eq_false, false_implies, and_true, true_implies]
    by_cases fits : ∀ text, decodePassing data = some text → nesting text ≤ rooms.read
    · obtain ⟨count, counted⟩ := relaySkipped_counts skipped fits
      simp only [forward, counted, Forwarded.Harmless]
      exact iff_of_true trivial fits
    · simp only [fits, iff_false]
      simp only [not_forall] at fits
      obtain ⟨text, decoded, deep⟩ := fits
      simp [forward, relaySkipped_raises skipped decoded deep, Forwarded.Harmless]
  | false =>
    simp only [Bool.false_eq_true, false_implies, true_and, true_implies]
    simp only [forward, relaySkipped_other skipped]
    cases allowed : (limiter.allow now).1 with
    | true => simpa using forwardLine_harmless_iff (limiter.allow now).2 data
    | false => simp [Forwarded.Harmless]

theorem not_harmless {f : Forwarded} {raised : JsonError} (answer : f.answer = .error raised) :
    ¬ f.Harmless := by
  intro harmless
  rw [Forwarded.Harmless, answer] at harmless
  exact harmless

/-- `1e999` is a number to the reader and none to the writer. -/
theorem forward_harmful : ¬ (forward ⟨none, id, fun _ => true⟩ ⟨1000, 1000⟩ (.new 200) 0
    (asciiBytes "\x7b\"x\":1e999\x7d".toList)).Harmless :=
  @not_harmless _ .valueError (by decide +kernel)

/-! ### Deep messages -/

theorem deepest_openers (n : Nat) (expected : Expected) (stack : List Frame)
    (value : expected = .value ∨ expected = .valueOrEnd) :
    deepest rejectConstant (List.replicate n (.enter .square)) (.within expected stack) =
      stack.length + n := by
  induction n generalizing expected stack with
  | zero => rfl
  | succ n ih =>
    have opened : readToken rejectConstant (.within expected stack) (.enter .square) =
        some (.within .valueOrEnd (.array [] :: stack)) := by
      rcases value with rfl | rfl <;> rfl
    rw [List.replicate_succ, deepest, opened, Option.elim_some, ih _ _ (.inr rfl)]
    simp only [Reading.height, List.length_cons]
    omega

theorem nesting_openers (n : Nat) : nesting (List.replicate n '[') = n := by
  have tokens : jsonTokens (List.replicate n '[') = List.replicate n (.enter .square) := by
    induction n with
    | zero => rfl
    | succ n ih =>
      rw [List.replicate_succ, jsonTokens_of_punctuation _ rfl rfl, ih, List.replicate_succ]
  rw [nesting, nestingWith, tokens, deepest_openers n .value [] (.inl rfl), List.length_nil,
    Nat.zero_add]

/-- Whatever room there is, a message of so many brackets raises. -/
theorem forward_openers {limiter : RateLimiter} {now : ℚ} {n : Nat}
    (allowed : (limiter.allow now).1 = true) (beyond : rooms.read < n) :
    (forward countries rooms limiter now (asciiBytes (List.replicate n '['))).answer =
      .error .recursionError := by
  have line : isRelaySkipped (asciiBytes (List.replicate n '[')) = false := by
    cases n with
    | zero => rfl
    | succ n => rfl
  have text : decodeReplacing (asciiBytes (List.replicate n '[')) = List.replicate n '[' :=
    decodeReplacing_ascii fun c member => by
      rw [List.eq_of_mem_replicate member]
      decide
  have raised := @lineFrame_raises countries rooms (asciiBytes (List.replicate n '['))
    (by rw [text, nesting_openers]; omega)
  simp only [forward, relaySkipped_other line, allowed, if_true, forwardLine, raised]
  rfl

end

end MegooPM.Live
