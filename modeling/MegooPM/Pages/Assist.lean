import MegooPM.Pages.Fences
import MegooPM.Pages.ToolCalls

/-!
# Asking a model for a page

`_edit_with_tools` and `assist_page` of `services/page_assist.py`, with `complete_with_tools`
and `complete` of `services/llm.py`. What the provider answers is arbitrary: it may depend on
everything that was sent, and on how often.
-/
namespace MegooPM

open Lib

/-- `MAX_TOOL_TURNS` -/
def maxToolTurns : Nat := 8

/-- A message, in the shape the chat API takes. -/
inductive ChatMessage where
  | system (content : String)
  | user (content : String)
  | assistant (content : Option String) (calls : List LlmToolCall)
  | tool (callId content : String)

/-- `LlmTurn`: one assistant turn, and the message that replays it. -/
structure LlmTurn where
  content : String
  toolCalls : List LlmToolCall
  message : ChatMessage

inductive AssistError where
  /-- `LlmError`, its text scrubbed already -/
  | llm (text : String)
  /-- `LlmNotConfiguredError` -/
  | notConfigured
  /-- what a tool call raises -/
  | python (e : PythonError)
  deriving DecidableEq

/-- What an assist works with: Python, the HTML parser, the configured model, the prompts that
only the model reads, and the provider. -/
structure Assistant where
  python : PythonCalls
  unicode : Unicode
  parse : String → Option (List TagReport)
  model : String
  systemPrompt : String
  toolSystemPrompt : String
  /-- the content and the calls of a reply, or the error -/
  chat : List (List ChatMessage) → Except String (Option String × List LlmToolCall)
  /-- the reply to a single prompt, or the error -/
  completion : List ChatMessage → Except String (Option String)

inductive AssistMode where
  | tools | generate | rewrite
  deriving DecidableEq

/-- `AssistResult` -/
structure AssistResult where
  html : String
  mode : AssistMode
  truncated : Bool := false
  changes : List StagedEdit := []

/-- `build_user_message` -/
def buildUserMessage (instruction html : String) : String :=
  if strip html.toList = [] then
    "Instruction:\n" ++ instruction ++
      "\n\nThere is no current document. Write a complete one from scratch."
  else "Instruction:\n" ++ instruction ++ "\n\nCurrent document:\n" ++ html

def nudgeText (report : String) : String :=
  "The document is not structurally sound yet.\n" ++ report ++
    "\nFix this and nothing else. Restaging the same line range revises that edit."

/-- `report.startswith("No structural")` -/
def soundReport (report : String) : Bool :=
  startsWith report "No structural"

/-- The variables of `_edit_with_tools`, and every list of messages that was sent. -/
structure EditTalk where
  doc : EditDocument
  messages : List ChatMessage
  nudged : Bool := false
  requests : List (List ChatMessage) := []

inductive TalkEnd where
  | finished
  /-- the turns are used up -/
  | truncated
  | failed (e : AssistError)
  deriving DecidableEq

namespace Assistant

variable (assistant : Assistant)

/-- `complete_with_tools`; `requests` ends with the one that is sent now. -/
def completeWithTools (requests : List (List ChatMessage)) : Except AssistError LlmTurn :=
  if assistant.model = "" then .error .notConfigured
  else
    match assistant.chat requests with
    | .error text => .error (.llm text)
    | .ok (content, calls) =>
      .ok ⟨String.ofList (strip (content.getD "").toList), calls, .assistant content calls⟩

/-- The messages that answer the calls of a turn. -/
def toolMessages (answers : List (String × String)) : List ChatMessage :=
  answers.map fun (callId, content) => .tool callId content

/-- The loop, with as many turns left. -/
def editTurns : Nat → EditTalk → EditTalk × TalkEnd
  | 0, talk => (talk, .truncated)
  | turns + 1, talk =>
    let requests := talk.requests ++ [talk.messages]
    match assistant.completeWithTools requests with
    | .error e => ({ talk with requests }, .failed e)
    | .ok turn =>
      let messages := talk.messages ++ [turn.message]
      if turn.toolCalls = [] then
        -- the model thinks it is finished
        let report := talk.doc.structureReport assistant.parse
        if !talk.nudged && !soundReport report then
          editTurns turns
            { talk with
              nudged := true, messages := messages ++ [.user (nudgeText report)], requests }
        else ({ talk with messages, requests }, .finished)
      else
        match runTurn assistant.python assistant.parse talk.doc turn.toolCalls with
        | .error e => ({ talk with messages, requests }, .failed (.python e))
        | .ok (doc, answers) =>
          editTurns turns { talk with doc, messages := messages ++ toolMessages answers, requests }

def startTalk (instruction html : String) : EditTalk where
  doc := .ofHtml html
  messages := [.system assistant.toolSystemPrompt,
    .user ("Instruction:\n" ++ instruction ++ "\n\nDocument:\n" ++
      (EditDocument.ofHtml html).numbered)]

/-- `_edit_with_tools` up to `doc.apply()`. -/
def editWithTools (instruction html : String) : EditTalk × TalkEnd :=
  assistant.editTurns maxToolTurns (assistant.startTalk instruction html)

/-- `complete` with a system prompt. -/
def complete (prompt : String) : Except AssistError String :=
  if assistant.model = "" then .error .notConfigured
  else
    match assistant.completion [.system assistant.systemPrompt, .user prompt] with
    | .error text => .error (.llm text)
    | .ok content => .ok (String.ofList (strip (content.getD "").toList))

/-- `_rewrite` -/
def rewritePage (instruction html : String) (mode : AssistMode) :
    Except AssistError AssistResult := do
  let raw ← assistant.complete (buildUserMessage instruction html)
  return { html := String.ofList (stripDocumentFences assistant.unicode raw.toList), mode }

def assistPage (instruction html : String) : Except AssistError AssistResult :=
  if strip html.toList = [] then assistant.rewritePage instruction html .generate
  else
    match assistant.editWithTools instruction html with
    | (_, .failed (.llm _)) => assistant.rewritePage instruction html .rewrite
    | (_, .failed e) => .error e
    | (talk, ended) =>
      -- a model that never touched a tool has changed nothing
      if talk.doc.apply.2 = [] then assistant.rewritePage instruction html .rewrite
      else
        .ok { html := talk.doc.apply.1, mode := .tools, truncated := ended = .truncated
              changes := talk.doc.apply.2 }

end Assistant

/-! ### Conversations the chat API takes -/

/-- A conversation that is the model's turn, after so many nudges: every call of every turn has
its answer, with its id, right behind the turn and in the order of the calls. -/
inductive IsChat : Nat → List ChatMessage → Prop where
  | opening (system user : String) : IsChat 0 [.system system, .user user]
  | answered {nudges : Nat} {messages : List ChatMessage} (before : IsChat nudges messages)
    (content : Option String) {calls : List LlmToolCall} (some_ : calls ≠ [])
    {answers : List (String × String)} (ids : answers.map (·.1) = calls.map (·.id)) :
    IsChat nudges (messages ++ [.assistant content calls] ++ Assistant.toolMessages answers)
  | nudged {nudges : Nat} {messages : List ChatMessage} (before : IsChat nudges messages)
    (content : Option String) (text : String) :
    IsChat (nudges + 1) (messages ++ [.assistant content []] ++ [.user text])

/-- The calls a model asked for along a conversation. -/
def askedCalls (messages : List ChatMessage) : List LlmToolCall :=
  messages.flatMap fun message =>
    match message with
    | .assistant _ calls => calls
    | _ => []

section Turns

variable {python : PythonCalls} {parse : String → Option (List TagReport)}

theorem runTurn_ids {doc doc' : EditDocument} {calls : List LlmToolCall}
    {answers : List (String × String)}
    (ran : runTurn python parse doc calls = .ok (doc', answers)) :
    answers.map (·.1) = calls.map (·.id) := by
  induction calls generalizing doc answers with
  | nil =>
    cases ran
    rfl
  | cons call calls ih =>
    obtain ⟨message, _, ran⟩ := bind_eq_ok ran
    obtain ⟨⟨last, rest⟩, others, result⟩ := bind_eq_ok ran
    obtain ⟨rfl, rfl⟩ := Prod.mk.inj (Except.ok.inj result)
    rw [List.map_cons, List.map_cons, ih others]

/-- A turn fails exactly when one of its calls is not accepted. -/
theorem runTurn_error_iff (doc : EditDocument) (calls : List LlmToolCall) :
    (∃ e, runTurn python parse doc calls = .error e) ↔ ∃ call ∈ calls, ¬call.Accepted python := by
  have answered := @runTurn_ok_iff python parse doc calls
  cases ran : runTurn python parse doc calls with
  | error e =>
    refine iff_of_true ⟨e, rfl⟩ ?_
    by_contra none_
    push Not at none_
    obtain ⟨doc', messages, same, _⟩ := answered.mpr none_
    rw [ran] at same
    cases same
  | ok result =>
    refine iff_of_false (fun ⟨e, same⟩ => by cases same) ?_
    rintro ⟨call, member, refused⟩
    exact refused (answered.mp ⟨result.1, result.2, ran, runTurn_ids ran⟩ call member)

open EditDocument in
/-- One call of a model is at most one of the document. -/
theorem runTool_tracks {html : String} {doc : EditDocument} {log : List ((Nat × Nat) × String)}
    (tracks : Tracks html log doc) (call : LlmToolCall) :
    ∃ log, Tracks html log (runTool python parse doc call).1 := by
  have answered : ∀ decoded, ∃ log, Tracks html log (doc.answer python.toPythonText decoded).1 := by
    intro decoded
    cases decoded with
    | ok c => exact ⟨_, tracks.call python.toPythonText c⟩
    | error e => exact ⟨log, tracks⟩
  unfold runTool
  split
  next => exact ⟨log, tracks⟩
  next => exact ⟨log, tracks⟩
  next =>
    split_ifs
    · exact answered _
    · exact answered _
    · exact answered _
    · exact ⟨log, tracks⟩
    · exact ⟨log, tracks⟩

open EditDocument in
theorem runTurn_tracks {html : String} {doc doc' : EditDocument} {calls : List LlmToolCall}
    {answers : List (String × String)} (tracks : ∃ log, Tracks html log doc)
    (ran : runTurn python parse doc calls = .ok (doc', answers)) :
    ∃ log, Tracks html log doc' := by
  induction calls generalizing doc answers with
  | nil =>
    cases ran
    exact tracks
  | cons call calls ih =>
    obtain ⟨log, tracks⟩ := tracks
    obtain ⟨message, _, ran⟩ := bind_eq_ok ran
    obtain ⟨⟨last, rest⟩, others, result⟩ := bind_eq_ok ran
    obtain ⟨rfl, rfl⟩ := Prod.mk.inj (Except.ok.inj result)
    exact ih (runTool_tracks tracks call) others

end Turns

/-! ### The loop -/

/-- The nudges of a talk so far. -/
def EditTalk.nudges (talk : EditTalk) : Nat :=
  if talk.nudged then 1 else 0

/-- What every turn of the loop keeps. -/
structure EditTalk.Sound (python : PythonCalls) (html : String) (talk : EditTalk) : Prop where
  /-- it is the model's turn -/
  chat : IsChat talk.nudges talk.messages
  sent : ∀ request ∈ talk.requests, ∃ nudges ≤ 1, IsChat nudges request
  doc : ∃ log, EditDocument.Tracks html log talk.doc
  accepted : ∀ call ∈ askedCalls talk.messages, call.Accepted python
  told : talk.nudged = true → ∃ report, soundReport report = false ∧
    .user (nudgeText report) ∈ talk.messages

/-- What holds where the loop ends. -/
structure EditTalk.Ended (assistant : Assistant) (html : String) (talk : EditTalk)
    (ended : TalkEnd) : Prop where
  sent : ∀ request ∈ talk.requests, ∃ nudges ≤ 1, IsChat nudges request
  doc : ∃ log, EditDocument.Tracks html log talk.doc
  /-- a model that says it is finished has a sound document, or was told of its faults -/
  finished : ended = .finished → soundReport (talk.doc.structureReport assistant.parse) = true ∨
    ∃ report, soundReport report = false ∧ .user (nudgeText report) ∈ talk.messages
  python : (∃ e, ended = .failed (.python e)) ↔
    ∃ call ∈ askedCalls talk.messages, ¬call.Accepted assistant.python

theorem askedCalls_append (left right : List ChatMessage) :
    askedCalls (left ++ right) = askedCalls left ++ askedCalls right :=
  List.flatMap_append

theorem askedCalls_toolMessages (answers : List (String × String)) :
    askedCalls (Assistant.toolMessages answers) = [] := by
  induction answers with
  | nil => rfl
  | cons answer rest ih => exact ih

section Loop

variable {assistant : Assistant} {html : String}

/-- What is sent next is a conversation too. -/
private theorem EditTalk.Sound.send {talk : EditTalk} (sound : talk.Sound assistant.python html) :
    ∀ request ∈ talk.requests ++ [talk.messages], ∃ nudges ≤ 1, IsChat nudges request := by
  have few : talk.nudges ≤ 1 := by
    unfold EditTalk.nudges
    split <;> omega
  rw [List.forall_mem_append]
  exact ⟨sound.sent, List.forall_mem_singleton.mpr ⟨_, few, sound.chat⟩⟩

/-- The model thought that it was finished, and is told of faults for the first time. -/
private theorem EditTalk.Sound.nudge {talk : EditTalk} (sound : talk.Sound assistant.python html)
    (calm : talk.nudged = false) {message : ChatMessage} {content : Option String}
    (silent : message = .assistant content []) {report : String}
    (fault : soundReport report = false) :
    EditTalk.Sound assistant.python html
      { talk with
        nudged := true
        messages := talk.messages ++ [message] ++ [.user (nudgeText report)]
        requests := talk.requests ++ [talk.messages] } := by
  -- the first time only, so the count of the conversation stays at one
  have first : talk.nudges = 0 := by
    simp only [EditTalk.nudges, calm, Bool.false_eq_true, if_false]
  have heard : askedCalls (talk.messages ++ [message]) = askedCalls talk.messages := by
    rw [askedCalls_append, silent]
    exact List.append_nil _
  refine ⟨?_, sound.send, sound.doc, ?_, fun _ => ⟨_, fault, ?_⟩⟩
  · have chat := sound.chat
    rw [first] at chat
    rw [silent]
    exact chat.nudged content _
  · rw [askedCalls_append, heard]
    simpa [askedCalls] using sound.accepted
  · exact List.mem_append_right _ (List.mem_singleton_self _)

/-- The calls of a turn are answered, each by its id. -/
private theorem EditTalk.Sound.answered {talk : EditTalk}
    (sound : talk.Sound assistant.python html) {turn : LlmTurn} {content : Option String}
    (message : turn.message = .assistant content turn.toolCalls) (calls : turn.toolCalls ≠ [])
    {doc : EditDocument} {answers : List (String × String)}
    (ran : runTurn assistant.python assistant.parse talk.doc turn.toolCalls = .ok (doc, answers))
    (accepted : ∀ call ∈ turn.toolCalls, call.Accepted assistant.python) :
    EditTalk.Sound assistant.python html
      { talk with
        doc := doc
        messages := talk.messages ++ [turn.message] ++ Assistant.toolMessages answers
        requests := talk.requests ++ [talk.messages] } := by
  refine ⟨?_, sound.send, runTurn_tracks sound.doc ran, ?_, fun told => ?_⟩
  · rw [message]
    exact sound.chat.answered content calls (runTurn_ids ran)
  · -- the answers ask for nothing
    rw [askedCalls_append, askedCalls_toolMessages, List.append_nil, askedCalls_append, message,
      List.forall_mem_append]
    refine ⟨sound.accepted, fun call member => accepted call ?_⟩
    simpa [askedCalls] using member
  · obtain ⟨report, fault, member⟩ := sound.told told
    exact ⟨report, fault, List.mem_append_left _ (List.mem_append_left _ member)⟩

/-- No call that was asked for so far is refused. -/
private theorem EditTalk.Sound.none_refused {talk : EditTalk}
    (sound : talk.Sound assistant.python html) :
    ¬∃ call ∈ askedCalls talk.messages, ¬call.Accepted assistant.python := by
  rintro ⟨call, member, refused⟩
  exact refused (sound.accepted call member)

theorem completeWithTools_ok {requests : List (List ChatMessage)} {turn : LlmTurn}
    (ok : assistant.completeWithTools requests = .ok turn) :
    ∃ content, turn.message = .assistant content turn.toolCalls := by
  unfold Assistant.completeWithTools at ok
  split at ok
  · cases ok
  · split at ok
    · cases ok
    next content calls _ =>
      cases ok
      exact ⟨content, rfl⟩

/-- What it raises comes from the provider, never from a tool. -/
theorem completeWithTools_error {requests : List (List ChatMessage)} {e : AssistError}
    (failed : assistant.completeWithTools requests = .error e) : ∀ raised, e ≠ .python raised := by
  unfold Assistant.completeWithTools at failed
  intro raised same
  subst same
  split at failed
  · cases failed
  · split at failed
    · cases failed
    · cases failed

/-- The loop, whatever the provider answers: what was sent stays in order, and there is one
request a turn at most. -/
theorem editTurns_ended (turns : Nat) {talk : EditTalk} (sound : talk.Sound assistant.python html) :
    (assistant.editTurns turns talk).1.Ended assistant html (assistant.editTurns turns talk).2 ∧
      (assistant.editTurns turns talk).1.requests.length ≤ talk.requests.length + turns := by
  -- a turn keeps the talk sound, or ends it
  induction turns generalizing talk with
  | zero =>
    refine ⟨⟨sound.sent, sound.doc, nofun, ?_⟩, Nat.le_refl _⟩
    exact iff_of_false (fun ⟨e, same⟩ => by cases same) sound.none_refused
  | succ turns ih =>
    have sent := sound.send
    rw [Assistant.editTurns]
    cases reply : assistant.completeWithTools (talk.requests ++ [talk.messages]) with
    | error e =>
      have foreign := completeWithTools_error reply
      refine ⟨⟨sent, sound.doc, nofun, ?_⟩, by simp⟩
      refine iff_of_false (fun ⟨raised, same⟩ => ?_) sound.none_refused
      cases same
      exact foreign raised rfl
    | ok turn =>
      obtain ⟨content, message⟩ := completeWithTools_ok reply
      have asked : askedCalls (talk.messages ++ [turn.message]) =
          askedCalls talk.messages ++ turn.toolCalls := by
        rw [askedCalls_append, message]
        exact congrArg _ (List.append_nil _)
      simp only
      split
      next silent =>
        -- the model asks for no tool
        have heard : askedCalls (talk.messages ++ [turn.message]) = askedCalls talk.messages := by
          rw [asked, silent, List.append_nil]
        split
        next nudge =>
          obtain ⟨fresh, unsound⟩ := Bool.and_eq_true_iff.mp nudge
          have calm : talk.nudged = false := by simpa using fresh
          have fault : soundReport (talk.doc.structureReport assistant.parse) = false := by
            simpa using unsound
          have next := sound.nudge calm (message.trans (by rw [silent])) fault
          obtain ⟨ended, few⟩ := ih next
          refine ⟨ended, few.trans ?_⟩
          simp only [List.length_append, List.length_singleton]
          omega
        next calm =>
          refine ⟨⟨sent, sound.doc, fun _ => ?_, ?_⟩, by simp⟩
          · by_cases fresh : talk.nudged = true
            · obtain ⟨report, fault, told⟩ := sound.told fresh
              exact Or.inr ⟨report, fault, List.mem_append_left _ told⟩
            · rw [Bool.not_eq_true] at fresh
              simp only [fresh, Bool.not_false, Bool.true_and, Bool.not_eq_true,
                Bool.not_eq_false'] at calm
              exact Or.inl calm
          · refine iff_of_false (fun ⟨e, same⟩ => by cases same) ?_
            simp only [heard]
            exact sound.none_refused
      next calls =>
        -- it asks for tools, and one of the calls may raise
        have outcome := @runTurn_error_iff assistant.python assistant.parse talk.doc turn.toolCalls
        cases ran : runTurn assistant.python assistant.parse talk.doc turn.toolCalls with
        | error e =>
          obtain ⟨call, member, refused⟩ := outcome.mp ⟨e, ran⟩
          refine ⟨⟨sent, sound.doc, nofun, ?_⟩, by simp⟩
          refine iff_of_true ⟨e, rfl⟩ ⟨call, ?_, refused⟩
          simp only [asked]
          exact List.mem_append_right _ member
        | ok result =>
          obtain ⟨doc, answers⟩ := result
          have accepted : ∀ call ∈ turn.toolCalls, call.Accepted assistant.python := by
            by_contra refused
            push Not at refused
            obtain ⟨e, same⟩ := outcome.mpr refused
            rw [ran] at same
            cases same
          have next := sound.answered message calls ran accepted
          obtain ⟨ended, few⟩ := ih next
          refine ⟨ended, few.trans ?_⟩
          simp only [List.length_append, List.length_singleton]
          omega

theorem sound_startTalk (assistant : Assistant) (instruction html : String) :
    (assistant.startTalk instruction html).Sound assistant.python html where
  chat := .opening _ _
  sent := nofun
  doc := ⟨_, EditDocument.tracks_run assistant.python.toPythonText html []⟩
  accepted := nofun
  told := nofun

end Loop

/-! ### Reports -/

theorem begins_joinLines {c : Char} {first : String} (begins : Begins c first)
    (rest : List String) : Begins c (joinLines (first :: rest)) := by
  cases rest with
  | nil =>
    rw [joinLines, String.intercalate_singleton]
    exact begins
  | cons second rest =>
    rw [joinLines, String.intercalate_cons_cons]
    exact (begins.append _).append _

/-- A report is sound where the check finds nothing. -/
theorem soundReport_iff (parse : String → Option (List TagReport)) (doc : EditDocument) :
    soundReport (doc.structureReport parse) = true ↔ checkHtml parse doc.apply.1 = [] := by
  unfold EditDocument.structureReport
  by_cases clean : checkHtml parse doc.apply.1 = []
  · simp only [clean, if_true, iff_true]
    decide +kernel
  · simp only [clean, if_false, iff_false]
    have word : Begins 'F' "Found " := by decide +kernel
    have first : Begins 'F' (describeProblems (checkHtml parse doc.apply.1)
        (some doc.apply.1)) := by
      rw [describeProblems, if_neg clean]
      exact begins_joinLines ((word.append _).append _) _
    intro sound
    obtain ⟨behind, whole⟩ := List.isPrefixOf_iff_prefix.mp sound
    have report := (first.append
      "\n\nLine numbers above are the edited document; the editing tools ").append
      "still use the original numbering, so find these with grep."
    rw [Begins, ← whole] at report
    cases report

/-! ### What an assist does -/

/-- Whatever the provider answers: it gets eight requests at most, and every one is a conversation
in which each tool call of each of its turns is answered once, by id and in the order of the
calls, and in which it was told of faults in the document once at most. -/
theorem assist_requests_answered (assistant : Assistant) (instruction html : String) :
    (assistant.editWithTools instruction html).1.requests.length ≤ maxToolTurns ∧
    ∀ request ∈ (assistant.editWithTools instruction html).1.requests,
      ∃ nudges ≤ 1, IsChat nudges request := by
  obtain ⟨ended, few⟩ := editTurns_ended maxToolTurns (sound_startTalk assistant instruction html)
  refine ⟨few.trans ?_, ended.sent⟩
  simp [Assistant.startTalk]

/-- A rewrite raises what the provider raises. -/
private theorem rewritePage_cases (assistant : Assistant) (instruction html : String)
    (mode : AssistMode) :
    (∃ page, assistant.rewritePage instruction html mode = .ok { html := page, mode }) ∨
      ∃ e, assistant.rewritePage instruction html mode = .error e ∧
        ∀ raised, e ≠ .python raised := by
  unfold Assistant.rewritePage Assistant.complete
  split
  next => exact Or.inr ⟨_, rfl, nofun⟩
  next =>
    split
    next => exact Or.inr ⟨_, rfl, nofun⟩
    next => exact Or.inl ⟨_, rfl⟩

/-- The page of an assist that edits is the original with the changes it shows, all at once: each
replaces lines of the original, which are the ones it quotes, and they stand in the order of the
page. If it was not cut off, the page is sound or the model was told of its faults. -/
theorem assist_shows_its_changes (assistant : Assistant) {instruction html : String}
    {result : AssistResult} (ok : assistant.assistPage instruction html = .ok result)
    (edited : result.mode = .tools) :
    result.changes ≠ [] ∧
    (∀ e ∈ result.changes, EditDocument.Fits (splitAtNewlines html) e) ∧
    result.changes.Pairwise (fun e f => e.stop < f.start) ∧
    result.html = joinLines
      (rewrite (result.changes.map StagedEdit.patch) (splitAtNewlines html)) ∧
    (result.truncated = false → checkHtml assistant.parse result.html = [] ∨
      ∃ report, soundReport report = false ∧
        .user (nudgeText report) ∈ (assistant.editWithTools instruction html).1.messages) := by
  have rewritten : ∀ mode, assistant.rewritePage instruction html mode = .ok result →
      result.mode = mode := by
    intro mode ok
    rcases rewritePage_cases assistant instruction html mode with ⟨page, done⟩ | ⟨e, done, _⟩
    · rw [done] at ok
      cases ok
      rfl
    · rw [done] at ok
      cases ok
  obtain ⟨ended, _⟩ := editTurns_ended maxToolTurns (sound_startTalk assistant instruction html)
  unfold Assistant.assistPage at ok
  split at ok
  next =>
    rw [rewritten _ ok] at edited
    cases edited
  next =>
    split at ok
    next =>
      rw [rewritten _ ok] at edited
      cases edited
    next => cases ok
    next talk last _ unfailed loop =>
      split at ok
      next =>
        rw [rewritten _ ok] at edited
        cases edited
      next some_ =>
        cases ok
        have here : assistant.editTurns maxToolTurns (assistant.startTalk instruction html) =
            (talk, last) := loop
        rw [here] at ended
        obtain ⟨log, tracks⟩ := ended.doc
        have fine := tracks.applicable
        -- the changes are the staged edits in the order of the page
        have same : ∀ e, e ∈ talk.doc.staged ↔ e ∈ talk.doc.apply.2 :=
          fun e => (mem_sortedBy _ _ _).symm
        have shown : ({ talk.doc with staged := talk.doc.apply.2 } : EditDocument).Applicable :=
          ⟨fun e member => fine.fits e ((same e).mpr member), fine.ordered.imp Or.inl⟩
        refine ⟨some_, fun e member => ?_, fine.ordered, ?_, fun whole => ?_⟩
        · rw [← tracks.lines]
          exact fine.fits e ((same e).mpr member)
        · rw [← tracks.lines]
          exact (congrArg Prod.fst (fine.apply_congr shown rfl same)).trans shown.apply_eq
        · have finished : last = .finished := by
            cases last with
            | finished => rfl
            | truncated => simp at whole
            | failed e => exact (unfailed _ rfl).elim
          rw [← soundReport_iff]
          simp only [Assistant.editWithTools, here]
          exact ended.finished finished

/-- Lower case, as far as a page of ASCII shows it. -/
def asciiLowered (c : Char) : List Char :=
  if c = dottedI then ['i', '\u0307'] else if c = '\u212a' then ['k'] else [c.toLower]

private theorem asciiLowered_low {c : Char} (low : c.toNat < 128) :
    asciiLowered c = [c.toLower] := by
  have apart : c ≠ dottedI ∧ c ≠ '\u212a' :=
    ⟨fun same => absurd (same ▸ low) (by decide), fun same => absurd (same ▸ low) (by decide)⟩
  rw [asciiLowered, if_neg apart.1, if_neg apart.2]

private theorem asciiLowered_beyond {c x : Char} (high : 128 ≤ c.toNat)
    (member : x ∈ asciiLowered c) (low : x.toNat < 128) : x = 'i' ∨ x = 'k' := by
  unfold asciiLowered at member
  split_ifs at member
  · rcases List.mem_cons.mp member with rfl | member
    · exact Or.inl rfl
    · -- the dot above is no character of ASCII
      cases List.mem_singleton.mp member
      exact absurd low (by decide)
  · exact Or.inr (List.mem_singleton.mp member)
  · cases List.mem_singleton.mp member
    rcases Lib.toLower_cases c with same | ⟨_, few, _⟩
    · rw [same] at low
      omega
    · omega

private theorem length_asciiLowered (c : Char) :
    (asciiLowered c).length = if c = dottedI then 2 else 1 := by
  unfold asciiLowered
  split_ifs <;> rfl

private theorem isAlphanum_ascii (c : Char) (_ : c.toNat < 128) : c.isAlphanum = c.isAlphanum :=
  rfl

/-- Unicode, as far as a page of ASCII shows it. -/
def asciiUnicode : Unicode where
  lowered _ c _ := asciiLowered c
  isAlnum := Char.isAlphanum
  ascii _ _ _ := asciiLowered_low
  beyond _ _ _ high _ := asciiLowered_beyond high
  length _ c _ := length_asciiLowered c
  alnum := isAlphanum_ascii

/-- A provider that replaces the only line and then says it is finished. -/
def oneEdit : Assistant where
  python := asciiCalls
  unicode := asciiUnicode
  parse _ := some [.startTag "p" 1, .endTag "p" 1]
  model := "gpt-4o"
  systemPrompt := "You write pages."
  toolSystemPrompt := "You edit pages."
  chat requests :=
    if requests.length = 1 then
      .ok (none, [⟨"call_1", "replace_lines",
        "\x7b\"start\": 1, \"end\": 1, \"text\": \"<p>two</p>\"\x7d"⟩])
    else .ok (some "Done.", [])
  completion _ := .error "no answer"

theorem assist_shows_its_changes_edit : ∃ result,
    oneEdit.assistPage "Say two." "<p>one</p>" = .ok result ∧ result.html = "<p>two</p>" ∧
    result.changes ≠ [] ∧
    result.html = joinLines
      (rewrite (result.changes.map StagedEdit.patch) (splitAtNewlines "<p>one</p>")) := by
  have ends : ∃ result, oneEdit.assistPage "Say two." "<p>one</p>" = .ok result ∧
      result.html = "<p>two</p>" ∧ result.mode = .tools := ⟨_, rfl, rfl, rfl⟩
  obtain ⟨result, ok, html, mode⟩ := ends
  obtain ⟨some_, _, _, page, _⟩ := assist_shows_its_changes oneEdit ok mode
  exact ⟨result, ok, html, some_, page⟩

/-- An assist raises what a tool call raises exactly when the model asks for a call that is not
accepted, on a page that is not blank; every other assist ends with a page or with an error of the
provider. -/
theorem assist_raises_iff (assistant : Assistant) (instruction html : String) :
    (∃ e, assistant.assistPage instruction html = .error (.python e)) ↔
      strip html.toList ≠ [] ∧
        ∃ call ∈ askedCalls (assistant.editWithTools instruction html).1.messages,
          ¬call.Accepted assistant.python := by
  -- the rewrite of the whole page calls no tools
  have rewritten : ∀ mode, ¬∃ e, assistant.rewritePage instruction html mode =
      .error (.python e) := by
    rintro mode ⟨e, failed⟩
    rcases rewritePage_cases assistant instruction html mode with ⟨page, done⟩ | ⟨e', done, foreign⟩
    · rw [done] at failed
      cases failed
    · rw [done] at failed
      exact foreign e (Except.error.inj failed)
  obtain ⟨ended, _⟩ := editTurns_ended maxToolTurns (sound_startTalk assistant instruction html)
  have loop : assistant.editTurns maxToolTurns (assistant.startTalk instruction html) =
      assistant.editWithTools instruction html := rfl
  rw [loop] at ended
  rw [← ended.python]
  unfold Assistant.assistPage
  by_cases blank : strip html.toList = []
  · rw [if_pos blank]
    exact iff_of_false (rewritten _) fun both => both.1 blank
  · rw [if_neg blank, and_iff_right blank]
    rcases assistant.editWithTools instruction html with ⟨talk, last⟩
    cases last with
    | finished =>
      refine iff_of_false ?_ (fun ⟨e, same⟩ => by cases same)
      simp only
      split
      · exact rewritten _
      · exact fun ⟨e, same⟩ => by cases same
    | truncated =>
      refine iff_of_false ?_ (fun ⟨e, same⟩ => by cases same)
      simp only
      split
      · exact rewritten _
      · exact fun ⟨e, same⟩ => by cases same
    | failed e =>
      cases e with
      | llm text => exact iff_of_false (rewritten _) (fun ⟨e, same⟩ => by cases same)
      | notConfigured =>
        exact iff_of_false (fun ⟨e, same⟩ => by cases same) (fun ⟨e, same⟩ => by cases same)
      | python e => exact iff_of_true ⟨e, rfl⟩ ⟨e, rfl⟩

end MegooPM
