import MegooPM.Lib.JsonWriting
import MegooPM.Lib.LuaPattern

/-!
# Which host and log a relayed line is for

`lua/megoopm_live_relay.lua`: `M.split`, `nginx_message`, `M.classify` and `M.parse`. A datagram
is a syslog line; clients control what follows the first key of an access line, and the request
context of an error line.
-/
namespace MegooPM.Live

open Lib

/-! ### The parts of a datagram -/

def allKey : LuaText := "all".toList

def nginxKey : LuaText := "n".toList

def accessTag : LuaText := "x".toList

/-- `HEADER` -/
def headerPattern : String := "^<(%d+)>%a+ +%d+ [%d:]+ mgm_([%w]+): (.*)$"

/-- `ACCESS_KEY` -/
def accessKeyPattern : String := "^\x7b\"k\":\"(%w*)\","

/-- The priority, the tag and the body. -/
def readHeader (datagram : LuaText) : Option (LuaText × LuaText × LuaText) :=
  match luaMatch headerPattern datagram with
  | some ([pri, tag, body], _) => some (pri, tag, body)
  | _ => none

/-- `tonumber(pri) % 8`, `none` for what is no number: digits that overflow a double. -/
def severity (pri : LuaText) : Option Nat :=
  match floatOf false (digitsValue pri) 0 with
  | .finite _ mantissa exponent =>
    let fraction := scaled 2 (mantissa, 1) exponent
    some (fraction.1 / fraction.2 % 8)
  | .infinite _ | .nan => none

/-- What `M.split` returns. -/
structure SplitLine where
  host : LuaText
  sev : Option Nat
  body : LuaText
  access : Bool
deriving DecidableEq

/-- `body:match(ACCESS_KEY)` -/
def firstKey (body : LuaText) : Option LuaText :=
  match luaMatch accessKeyPattern body with
  | some ([key], _) => some key
  | _ => none

def isAccess (body : LuaText) : Bool :=
  body.head? = some '\x7b'

/-- The host a tag or a body names. -/
def hostNamed (tag body : LuaText) : Option LuaText :=
  if tag = accessTag then if isAccess body then firstKey body else some nginxKey
  else some tag

/-- `M.split` -/
def split (datagram : LuaText) : Option SplitLine :=
  match readHeader datagram with
  | none => none
  | some (pri, tag, body) =>
    match hostNamed tag body with
    | none => none
    | some host =>
      if host = [] || host = allKey then none
      else some ⟨host, severity pri, body, isAccess body⟩

/-! ### nginx's own message -/

/-- `PREFIX` -/
def linePattern : String := "^%d+/%d+/%d+ [%d:]+ %[%a+%] %d+#%d+: "

/-- `CONN` -/
def connPattern : String := "^%*%d+ "

/-- The text up to the first occurrence of the marker. -/
def cutBefore (marker : LuaText) : LuaText → LuaText
  | [] => []
  | c :: rest => if marker.isPrefixOf (c :: rest) then [] else c :: cutBefore marker rest

def contextMarker : LuaText := ", client: ".toList

/-- What follows a match at the beginning, or the whole text. -/
def skipMatch (pattern : String) (s : LuaText) : LuaText :=
  (luaMatch pattern s).elim s (·.2)

/-- `nginx_message` -/
def nginxMessage (body : LuaText) : LuaText :=
  cutBefore contextMarker
    ((luaMatch linePattern body).elim body fun matched => skipMatch connPattern matched.2)

/-! ### The log -/

/-- `KEEP_AT_INFO` -/
def keepAtInfo : List String :=
  ["SSL_do_handshake() failed", "peer closed connection in SSL handshake"]

/-- `DENIED` -/
def deniedPattern : String := "^%[lua%] %S+:%d+: [^%[]*%[Crowdsec%] denied"

/-- `FED_BACK` -/
def fedBack : List String :=
  ["^stream lua: %d+ lua_max_running_timers are not enough",
    "^%d+ lua_max_running_timers are not enough"]

def warn : Nat := 4

def notice : Nat := 5

inductive LineLog where
  | stream
  | request
  | error
  | security
deriving DecidableEq

/-- What `M.classify` returns; `f` is the decoded table without its key. -/
structure ShownLine (τ : Type) where
  host : LuaText
  log : LineLog
  sev : Option Nat
  body : LuaText
  truncated : Bool
  f : Option τ

/-- The log of a message under a host's own tag. -/
def messageLog (sev : Option Nat) (message : LuaText) : Option LineLog :=
  if (luaMatch deniedPattern message).isSome then some .security
  else if sev.any (· ≤ warn) then some .error
  else if keepAtInfo.any fun needle => needle.toList.isPrefixOf message then some .error
  else none

/-- The log of one of nginx's own messages. -/
def ownLog (sev : Option Nat) (message : LuaText) : Option LineLog :=
  if sev.any (notice < ·) then none
  else if fedBack.any fun needle => (luaMatch needle message).isSome then none
  else some .error

section

variable {τ : Type} (decode : LuaText → Option τ)

/-- `M.classify`; `decode` is what `cjson.decode` makes of a body, if it is a table. -/
def classify (s : SplitLine) : Option (ShownLine τ) :=
  if s.access then
    let log : LineLog := if s.host.head? = some 's' then .stream else .request
    match decode s.body with
    | some f => some ⟨s.host, log, s.sev, s.body, false, some f⟩
    | none => some ⟨s.host, log, s.sev, s.body, true, none⟩
  else
    let log := if s.host = nginxKey then ownLog s.sev (nginxMessage s.body)
      else messageLog s.sev (nginxMessage s.body)
    log.map fun log => ⟨s.host, log, s.sev, s.body, false, none⟩

/-- `M.parse` -/
def parse (datagram : LuaText) : Option (ShownLine τ) :=
  (split datagram).bind (classify decode)

end

/-! ### Headers -/

def headerItems : List LuaItem :=
  [.piece (.only '<') .once, .opening, .piece (.named 'd') .plus, .closing,
    .piece (.only '>') .once, .piece (.named 'a') .plus, .piece (.only ' ') .plus,
    .piece (.named 'd') .plus, .piece (.only ' ') .once, .piece (.set false [':'] ['d']) .plus,
    .piece (.only ' ') .once, .piece (.only 'm') .once, .piece (.only 'g') .once,
    .piece (.only 'm') .once, .piece (.only '_') .once, .opening,
    .piece (.set false [] ['w']) .plus, .closing, .piece (.only ':') .once,
    .piece (.only ' ') .once]

/-- A syslog header with this priority and tag. -/
def IsHeader (pri tag header : LuaText) : Prop :=
  Spelled headerItems [] [pri, tag] header

theorem readLuaPattern_header :
    readLuaPattern headerPattern = some (headerItems ++ lastCapture .star) :=
  rfl

theorem readHeader_iff {datagram pri tag body : LuaText} :
    readHeader datagram = some (pri, tag, body) ↔
      ∃ header, datagram = header ++ body ∧ IsHeader pri tag header := by
  have spelled := @luaMatch_lastCapture_iff headerItems headerPattern .star (by decide)
    readLuaPattern_header rfl datagram [pri, tag] body
  simp only [reduceCtorEq, false_and, not_false_eq_true, and_true] at spelled
  unfold IsHeader
  rw [← spelled, readHeader]
  cases matched : luaMatch headerPattern datagram with
  | none => simp
  | some result =>
    obtain ⟨captures, rest, rfl⟩ :=
      luaMatch_lastCapture_ends (by decide) readLuaPattern_header rfl matched
    constructor
    · intro read
      split at read
      next same =>
        cases read
        injection same with same
        injection same with parts ends
        rw [parts]
        rfl
      · cases read
    · intro same
      rw [same]
      rfl

theorem IsHeader.read {pri tag header : LuaText} (spelled : IsHeader pri tag header)
    (body : LuaText) : readHeader (header ++ body) = some (pri, tag, body) :=
  readHeader_iff.mpr ⟨header, rfl, spelled⟩

theorem IsHeader.noComma {pri tag header : LuaText} (spelled : IsHeader pri tag header) :
    ',' ∉ header :=
  Spelled.notMem (by decide) spelled

/-- A header ends before the first comma. -/
theorem readHeader_append {s : LuaText} (member : ',' ∈ s) (x : LuaText) :
    readHeader (s ++ x) = (readHeader s).map fun parts => (parts.1, parts.2.1, parts.2.2 ++ x) := by
  apply Option.ext
  rintro ⟨pri, tag, body⟩
  rw [readHeader_iff, Option.map_eq_some_iff]
  constructor
  · rintro ⟨header, split, spelled⟩
    obtain ⟨left, whole, tail⟩ := append_of_notMem spelled.noComma member split
    exact ⟨(pri, tag, left), readHeader_iff.mpr ⟨header, whole, spelled⟩, by rw [tail]⟩
  · rintro ⟨⟨_, _, left⟩, read, same⟩
    cases same
    obtain ⟨header, rfl, spelled⟩ := readHeader_iff.mp read
    exact ⟨header, List.append_assoc .., spelled⟩

/-! ### Messages -/

def lineItems : List LuaItem :=
  [.piece (.named 'd') .plus, .piece (.only '/') .once, .piece (.named 'd') .plus,
    .piece (.only '/') .once, .piece (.named 'd') .plus, .piece (.only ' ') .once,
    .piece (.set false [':'] ['d']) .plus, .piece (.only ' ') .once, .piece (.only '[') .once,
    .piece (.named 'a') .plus, .piece (.only ']') .once, .piece (.only ' ') .once,
    .piece (.named 'd') .plus, .piece (.only '#') .once, .piece (.named 'd') .plus,
    .piece (.only ':') .once, .piece (.only ' ') .once]

def connItems : List LuaItem :=
  [.piece (.only '*') .once, .piece (.named 'd') .plus, .piece (.only ' ') .once]

theorem readLuaPattern_line : readLuaPattern linePattern = some lineItems :=
  rfl

theorem readLuaPattern_conn : readLuaPattern connPattern = some connItems :=
  rfl

theorem comma_of_context {s : LuaText} (context : contextMarker <:+: s) : ',' ∈ s :=
  context.subset (by decide)

/-- The context is behind what nginx puts in front of its message. -/
theorem context_of_append {taken rest : LuaText} (free : ',' ∉ taken)
    (context : contextMarker <:+: taken ++ rest) : contextMarker <:+: rest := by
  induction taken with
  | nil => exact context
  | cons c taken ih =>
    rw [List.mem_cons, not_or] at free
    rw [List.cons_append, List.infix_cons_iff] at context
    rcases context with here | later
    · have marker : contextMarker = ',' :: " client: ".toList := by decide
      rw [marker, List.cons_prefix_cons] at here
      exact absurd here.1 free.1
    · exact ih free.2 later

/-- Behind an occurrence of the marker nothing is looked at. -/
theorem cutBefore_append {marker s : LuaText} (context : marker <:+: s) (x : LuaText) :
    cutBefore marker (s ++ x) = cutBefore marker s := by
  induction s with
  | nil =>
    cases List.infix_nil.mp context
    cases x <;> rfl
  | cons c s ih =>
    have same : marker.isPrefixOf (c :: (s ++ x)) = marker.isPrefixOf (c :: s) := by
      rw [Bool.eq_iff_iff, List.isPrefixOf_iff_prefix, List.isPrefixOf_iff_prefix]
      constructor
      · -- the marker is no longer than the text it occurs in
        intro longer
        exact List.prefix_of_prefix_length_le longer
          (List.cons_prefix_cons.mpr ⟨rfl, List.prefix_append s x⟩) context.length_le
      · exact fun here => here.trans (List.cons_prefix_cons.mpr ⟨rfl, List.prefix_append s x⟩)
    rw [List.cons_append, cutBefore, cutBefore, same]
    split
    · rfl
    next absent =>
      rw [List.isPrefixOf_iff_prefix] at absent
      rw [ih ((List.infix_cons_iff.mp context).resolve_left absent)]

theorem skipMatch_append {s : LuaText} (context : contextMarker <:+: s) (x : LuaText) :
    skipMatch connPattern (s ++ x) = skipMatch connPattern s ++ x ∧
      contextMarker <:+: skipMatch connPattern s := by
  have appended := luaMatch_append readLuaPattern_conn rfl (by decide) (comma_of_context context) x
  rw [skipMatch, skipMatch, appended]
  cases matched : luaMatch connPattern s with
  | none => exact ⟨rfl, context⟩
  | some result =>
    obtain ⟨taken, rfl, spelled⟩ := (luaMatch_iff readLuaPattern_conn rfl).mp matched
    exact ⟨rfl, context_of_append (spelled.notMem (by decide)) context⟩

/-- What is in nginx's message does not depend on what is behind the context's marker. -/
theorem nginxMessage_append {body : LuaText} (context : contextMarker <:+: body) (x : LuaText) :
    nginxMessage (body ++ x) = nginxMessage body := by
  have appended := luaMatch_append readLuaPattern_line rfl (by decide) (comma_of_context context) x
  rw [nginxMessage, nginxMessage, appended]
  cases matched : luaMatch linePattern body with
  | none => exact cutBefore_append context x
  | some result =>
    obtain ⟨taken, rfl, spelled⟩ := (luaMatch_iff readLuaPattern_line rfl).mp matched
    have behind := context_of_append (spelled.notMem (by decide)) context
    obtain ⟨skipped, inside⟩ := skipMatch_append behind x
    simp only [Option.map_some, Option.elim_some]
    rw [skipped, cutBefore_append inside]

/-! ### What a client cannot change -/

section

variable {τ : Type} (decode : LuaText → Option τ)

/-- The host and the log of a line, if it is shown. -/
def shownAs (datagram : LuaText) : Option (LuaText × LineLog) :=
  (parse decode datagram).map fun line => (line.host, line.log)

/-- An access line: its body is an object. -/
def IsAccessLine (datagram : LuaText) : Prop :=
  ∃ pri tag body, readHeader datagram = some (pri, tag, body) ∧ isAccess body = true

theorem classify_append (s : SplitLine) (access : s.access = false)
    (context : contextMarker <:+: s.body) (x : LuaText) :
    (classify decode { s with body := s.body ++ x }).map (fun line => (line.host, line.log)) =
      (classify decode s).map fun line => (line.host, line.log) := by
  simp only [classify, access, Bool.false_eq_true, if_false, nginxMessage_append context,
    Option.map_map]
  rfl

theorem split_eq {datagram pri tag body : LuaText}
    (read : readHeader datagram = some (pri, tag, body)) :
    split datagram = (hostNamed tag body).bind fun host =>
      if host = [] || host = allKey then none
      else some ⟨host, severity pri, body, isAccess body⟩ := by
  rw [split, read]
  cases named : hostNamed tag body <;> simp [named]

/-- Whatever a client puts behind the context's marker, the line is shown as the same. -/
theorem shownAs_append {s : LuaText} (context : contextMarker <:+: s) (error : ¬IsAccessLine s)
    (x : LuaText) : shownAs decode (s ++ x) = shownAs decode s := by
  have appended := readHeader_append (comma_of_context context) x
  cases read : readHeader s with
  | none =>
    rw [read] at appended
    simp only [shownAs, parse, split, read, appended, Option.map_none]
  | some parts =>
    obtain ⟨pri, tag, body⟩ := parts
    rw [read] at appended
    obtain ⟨header, rfl, spelled⟩ := readHeader_iff.mp read
    have inside := context_of_append spelled.noComma context
    have plain : isAccess body = false := by
      by_contra access
      exact error ⟨pri, tag, body, read, by simpa using access⟩
    have same : isAccess (body ++ x) = isAccess body := by
      cases body with
      | nil => cases List.infix_nil.mp inside
      | cons c rest => rfl
    have named : hostNamed tag (body ++ x) = hostNamed tag body := by
      simp only [hostNamed, same, plain, Bool.false_eq_true, if_false]
    rw [shownAs, shownAs, parse, parse, split_eq read, split_eq appended, named, same]
    cases hostNamed tag body with
    | none => rfl
    | some host =>
      simp only [Option.bind_some]
      split
      · rfl
      · exact classify_append decode ⟨host, severity pri, body, isAccess body⟩ plain inside x

/-! ### The host of an access line -/

def keyItems : List LuaItem :=
  [.piece (.only '\x7b') .once, .piece (.only '\"') .once, .piece (.only 'k') .once,
    .piece (.only '\"') .once, .piece (.only ':') .once, .piece (.only '\"') .once, .opening,
    .piece (.named 'w') .star, .closing, .piece (.only '\"') .once, .piece (.only ',') .once]

theorem readLuaPattern_key : readLuaPattern accessKeyPattern = some keyItems :=
  rfl

/-- The body of an access line: its first key, and what the client and the rest of nginx put
behind it. -/
def accessBody (key rest : LuaText) : LuaText :=
  '\x7b' :: '\"' :: 'k' :: '\"' :: ':' :: '\"' :: (key ++ '\"' :: ',' :: rest)

theorem spelled_key_iff {captures : List LuaText} {taken : LuaText} :
    Spelled keyItems [] captures taken ↔ ∃ key, (∀ c ∈ key, c.isAlphanum = true) ∧
      captures = [key] ∧
        taken = '\x7b' :: '\"' :: 'k' :: '\"' :: ':' :: '\"' :: (key ++ ['\"', ',']) := by
  simp only [keyItems, spelled_only_iff, spelled_opening_iff, spelled_star_iff, spelled_closing_iff,
    spelled_nil_iff, List.nil_append]
  constructor
  · rintro ⟨_, rfl, _, rfl, _, rfl, _, rfl, _, rfl, _, rfl, key, _, rfl, alphanumeric, _, rfl, _,
      rfl, _, rfl, rfl, rfl⟩
    exact ⟨key, alphanumeric, rfl, rfl⟩
  · rintro ⟨key, alphanumeric, rfl, rfl⟩
    exact ⟨_, rfl, _, rfl, _, rfl, _, rfl, _, rfl, _, rfl, key, _, rfl, alphanumeric, _, rfl, _,
      rfl, _, rfl, rfl, rfl⟩

/-- No quote stands by itself in a text. -/
theorem key_of_append {key run left right : LuaText} (text : IsTextBody key)
    (alphanumeric : ∀ c ∈ run, c.isAlphanum = true)
    (same : key ++ '\"' :: left = run ++ '\"' :: right) : key = run := by
  induction text generalizing run with
  | nil =>
    cases run with
    | nil => rfl
    | cons d run =>
      cases same
      exact absurd (alphanumeric _ List.mem_cons_self) (by decide)
  | plain _ quote _ _ ih =>
    cases run with
    | nil =>
      cases same
      exact absurd rfl quote
    | cons d run =>
      rw [List.cons_append, List.cons_append, List.cons.injEq] at same
      rw [List.forall_mem_cons] at alphanumeric
      rw [same.1, ih alphanumeric.2 same.2]
  | _ =>
    -- an escape begins with a backslash
    cases run with
    | nil => cases same
    | cons d run =>
      have head : '\\' = d := (List.cons.inj same).1
      rw [List.forall_mem_cons, ← head] at alphanumeric
      exact absurd alphanumeric.1 (by decide)

/-- The key is read, and nothing else, if it is letters and digits. -/
theorem firstKey_accessBody {key : LuaText} (text : IsTextBody key) (rest : LuaText) :
    firstKey (accessBody key rest) = if key.all Char.isAlphanum then some key else none := by
  have matched_iff (captures : List LuaText) (left : LuaText) :
      luaMatch accessKeyPattern (accessBody key rest) = some (captures, left) ↔
        key.all Char.isAlphanum = true ∧ captures = [key] ∧ left = rest := by
    rw [luaMatch_iff readLuaPattern_key rfl]
    simp only [spelled_key_iff, List.all_eq_true]
    constructor
    · rintro ⟨_, whole, run, alphanumeric, rfl, rfl⟩
      simp only [accessBody, List.cons_append, List.append_assoc, List.cons.injEq, true_and,
        List.nil_append] at whole
      have same := key_of_append text alphanumeric whole
      subst same
      simp only [List.append_cancel_left_eq, List.cons.injEq, true_and] at whole
      subst whole
      exact ⟨alphanumeric, rfl, rfl⟩
    · rintro ⟨alphanumeric, rfl, rfl⟩
      exact ⟨_, by simp [accessBody], key, alphanumeric, rfl, rfl⟩
  rw [firstKey]
  split
  next key' left matched =>
    obtain ⟨alphanumeric, same, -⟩ := (matched_iff _ _).mp matched
    cases same
    rw [if_pos alphanumeric]
  next other =>
    split
    next alphanumeric =>
      exact absurd ((matched_iff [key] rest).mpr ⟨alphanumeric, rfl, rfl⟩) (other key rest)
    · rfl

/-- The log of an access line of a host. -/
def accessLog (host : LuaText) : LineLog :=
  if host.head? = some 's' then .stream else .request

theorem shownAs_access_of_split {datagram : LuaText} {line : SplitLine}
    (kept : split datagram = some line) (access : line.access = true) :
    shownAs decode datagram = some (line.host, accessLog line.host) := by
  rw [shownAs, parse, kept, Option.bind_some, classify, if_pos access]
  cases decode line.body <;> rfl

/-- Under the shared tag an access line is for its first key, whatever is behind it. -/
theorem shownAs_access {pri header key : LuaText} (spelled : IsHeader pri accessTag header)
    (text : IsTextBody key) (rest : LuaText) :
    shownAs decode (header ++ accessBody key rest) =
      if key.all Char.isAlphanum && key ≠ [] && key ≠ allKey then some (key, accessLog key)
      else none := by
  have access : isAccess (accessBody key rest) = true := rfl
  have kept := split_eq (spelled.read (accessBody key rest))
  rw [hostNamed, if_pos rfl, if_pos access, firstKey_accessBody text] at kept
  by_cases alphanumeric : key.all Char.isAlphanum = true
  · rw [if_pos alphanumeric, Option.bind_some] at kept
    by_cases dropped : (key = [] || key = allKey) = true
    · rw [if_pos dropped] at kept
      have hidden : shownAs decode (header ++ accessBody key rest) = none := by
        rw [shownAs, parse, kept]
        rfl
      rw [hidden, if_neg]
      simp only [Bool.or_eq_true, decide_eq_true_eq] at dropped
      rcases dropped with rfl | rfl <;> decide
    · rw [if_neg dropped] at kept
      rw [shownAs_access_of_split decode kept access, if_pos]
      simp only [Bool.or_eq_true, decide_eq_true_eq, not_or] at dropped
      simp [alphanumeric, dropped]
  · rw [if_neg alphanumeric, Option.bind_none] at kept
    rw [shownAs, parse, kept, if_neg (by simp [alphanumeric])]
    rfl

theorem classify_host {line : SplitLine} {shown : ShownLine τ}
    (classified : classify decode line = some shown) : shown.host = line.host := by
  unfold classify at classified
  split at classified
  · simp only at classified
    split at classified
    · cases classified
      rfl
    · cases classified
      rfl
  · obtain ⟨_, _, rfl⟩ := Option.map_eq_some_iff.mp classified
    rfl

/-- Under a tag of its own a line is for that tag, if it is shown. -/
theorem shownAs_ownTag {pri tag header : LuaText} (spelled : IsHeader pri tag header)
    (own : tag ≠ accessTag) (body : LuaText) :
    ∀ shown ∈ shownAs decode (header ++ body), shown.1 = tag := by
  intro shown member
  have kept := split_eq (spelled.read body)
  rw [hostNamed, if_neg own, Option.bind_some] at kept
  obtain ⟨line, parsed, rfl⟩ := Option.map_eq_some_iff.mp member
  rw [parse, kept] at parsed
  split at parsed
  · cases parsed
  · exact classify_host decode parsed

/-- No client decides what a line is shown as. -/
theorem shownAs_not_forged :
    (∀ s, contextMarker <:+: s → ¬IsAccessLine s → ∀ x y : LuaText,
      shownAs decode (s ++ x) = shownAs decode (s ++ y)) ∧
    (∀ pri header key, IsHeader pri accessTag header → IsTextBody key → ∀ rest : LuaText,
      shownAs decode (header ++ accessBody key rest) =
        if key.all Char.isAlphanum && key ≠ [] && key ≠ allKey then some (key, accessLog key)
        else none) ∧
    ∀ pri tag header, IsHeader pri tag header → tag ≠ accessTag → ∀ body : LuaText,
      ∀ shown ∈ shownAs decode (header ++ body), shown.1 = tag := by
  refine ⟨?_, ?_, ?_⟩
  · intro s context error x y
    rw [shownAs_append decode context error x, shownAs_append decode context error y]
  · intro pri header key spelled text rest
    exact shownAs_access decode spelled text rest
  · intro pri tag header spelled own body
    exact shownAs_ownTag decode spelled own body

end

private theorem isHeader_of_read {pri tag header : LuaText}
    (read : readHeader header = some (pri, tag, [])) : IsHeader pri tag header := by
  obtain ⟨taken, whole, spelled⟩ := readHeader_iff.mp read
  rw [List.append_nil] at whole
  rw [whole]
  exact spelled

private theorem not_access {datagram : LuaText}
    (plain : (readHeader datagram).all (fun parts => !isAccess parts.2.2) = true) :
    ¬IsAccessLine datagram := by
  rintro ⟨pri, tag, body, read, access⟩
  rw [read, Option.all_some, access] at plain
  cases plain

/-- A referrer that imitates a denial, fields that imitate a key, and a block of its own. -/
theorem shownAs_not_forged_imitated :
    shownAs (fun _ => some ())
        ("<187>Oct 25 10:00:00 mgm_p1: open() failed, client: ".toList ++ "1.2.3.4".toList) =
      shownAs (fun _ => some ())
        ("<187>Oct 25 10:00:00 mgm_p1: open() failed, client: ".toList ++
          "1.2.3.4, referrer: \"[Crowdsec] denied\"".toList) ∧
    shownAs (fun _ => some ()) ("<190>Oct 25 10:00:00 mgm_x: ".toList ++
      accessBody ['p', '1'] "\"u\":\"/\",\"k\":\"p2\"\x7d".toList) =
        some (['p', '1'], .request) ∧
    ∃ shown ∈ shownAs (fun _ => some ()) ("<190>Oct 25 10:00:00 mgm_s7: ".toList ++
      accessBody ['u'] "\"k\":\"p2\"\x7d".toList), shown.1 = ['s', '7'] := by
  obtain ⟨errors, accesses, tags⟩ := shownAs_not_forged fun _ : LuaText => some ()
  refine ⟨errors _ ?_ ?_ _ _, ?_, ?_⟩
  · exact ⟨"<187>Oct 25 10:00:00 mgm_p1: open() failed".toList, [], by decide +kernel⟩
  · exact not_access (by decide +kernel)
  · have text : IsTextBody ['p', '1'] :=
      .plain (by decide) (by decide) (by decide) (.plain (by decide) (by decide) (by decide) .nil)
    exact (accesses ['1', '9', '0'] _ _ (isHeader_of_read (by decide +kernel)) text _).trans
      (by decide)
  · have shown : shownAs (fun _ => some ()) ("<190>Oct 25 10:00:00 mgm_s7: ".toList ++
        accessBody ['u'] "\"k\":\"p2\"\x7d".toList) = some (['s', '7'], .stream) := by
      decide +kernel
    exact ⟨_, shown, tags ['1', '9', '0'] _ _ (isHeader_of_read (by decide +kernel)) (by decide) _
      _ shown⟩

/-- A block of the earlier shape is its tag's, not its key's. -/
theorem shownAs_earlier_shape : ¬ ∀ header key rest : LuaText,
    IsAccessLine (header ++ accessBody key rest) → IsTextBody key →
      ∀ shown ∈ shownAs (fun _ => some ()) (header ++ accessBody key rest), shown.1 = key := by
  intro keyed
  have shown : shownAs (fun _ => some ()) ("<190>Oct 25 10:00:00 mgm_p7: ".toList ++
      accessBody ['u'] "\"st\":\"200\"\x7d".toList) = some (['p', '7'], .request) := by
    decide +kernel
  have access : IsAccessLine ("<190>Oct 25 10:00:00 mgm_p7: ".toList ++
      accessBody ['u'] "\"st\":\"200\"\x7d".toList) :=
    ⟨['1', '9', '0'], ['p', '7'], accessBody ['u'] "\"st\":\"200\"\x7d".toList,
      by decide +kernel, rfl⟩
  have text : IsTextBody ['u'] := .plain (by decide) (by decide) (by decide) .nil
  exact absurd (keyed _ _ _ access text _ shown) (by decide)

end MegooPM.Live
