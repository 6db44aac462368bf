import MegooPM.Lib.Conversions
import MegooPM.Pages.HtmlCheck

/-!
# The tool calls of a model

`_run_tool` of `services/page_assist.py`: the arguments a model sends are read as JSON and
converted, and the document answers. Only a text that is no JSON is turned into a message;
what else the reading or a conversion raises is raised by the call.
-/
namespace MegooPM

open Lib

/-- `ToolCall` of `services/llm.py`; the arguments are not read yet. -/
structure LlmToolCall where
  id : String
  name : String
  arguments : String
  deriving DecidableEq, Repr

/-- What the calls take from Python besides: the decimal digits of all scripts, and how many
values may be inside each other where a text is read and where one is built. -/
structure PythonCalls extends PythonText where
  decimal : Nat → Option Nat
  /-- The character of a document that a code point is, or that stands for a lone surrogate. -/
  character : Nat → Char
  loadRoom : Nat
  reprRoom : Nat

namespace PythonCalls

variable (python : PythonCalls)

def textOf (s : CodePoints) : String :=
  String.ofList (s.map python.character)

def reprText (s : CodePoints) : List Char :=
  (python.repr (python.textOf s)).toList

end PythonCalls

/-! ### Arguments -/

/-- `args.get(key, default)` -/
def memberOr (members : List (CodePoints × Json)) (key : String) (default : Json) : Json :=
  (memberAt members key).getD default

/-- Only a dictionary has a `get`. -/
def membersOf : Json → Except PythonError (List (CodePoints × Json))
  | .object members => .ok members
  | _ => .error .attributeError

namespace PythonCalls

variable (python : PythonCalls)

def grepCall (args : Json) : Except PythonError EditDocument.ToolCall := do
  let members ← membersOf args
  let pattern ← (memberOr members "pattern" (.text [])).toStr python.reprText python.reprRoom
  return .grep (python.textOf pattern) (truthy (memberOr members "ignore_case" .null))

def readLinesCall (args : Json) : Except PythonError EditDocument.ToolCall := do
  let members ← membersOf args
  let start ← (memberOr members "start" (.int 0)).toInt python.decimal
  let stop ← (memberOr members "end" (.int 0)).toInt python.decimal
  return .readLines start stop

def replaceLinesCall (args : Json) : Except PythonError EditDocument.ToolCall := do
  let members ← membersOf args
  let start ← (memberOr members "start" (.int 0)).toInt python.decimal
  let stop ← (memberOr members "end" (.int 0)).toInt python.decimal
  let text ← (memberOr members "text" (.text [])).toStr python.reprText python.reprRoom
  return .replaceLines start stop (python.textOf text)

end PythonCalls

/-- `call.arguments or "{}"` -/
def LlmToolCall.argumentsText (call : LlmToolCall) : List Char :=
  if call.arguments = "" then ['\x7b', '\x7d'] else call.arguments.toList

/-! ### Dispatch -/

/-- `_structure_report`: how the document reads with every staged edit applied. -/
def EditDocument.structureReport (parse : String → Option (List TagReport)) (doc : EditDocument) :
    String :=
  let previewed := doc.apply.1
  let problems := checkHtml parse previewed
  if problems = [] then "No structural problems found."
  else describeProblems problems (some previewed) ++
    "\n\nLine numbers above are the edited document; the editing tools " ++
    "still use the original numbering, so find these with grep."

def noJsonMessage : String :=
  "Error: arguments were not valid JSON. Send a JSON object."

def unknownToolMessage (python : PythonText) (name : String) : String :=
  "Error: unknown tool " ++ python.repr name ++
    ". Available: grep, read_lines, replace_lines, check_html."

/-- The document's answer, unless the arguments could not be converted. -/
def EditDocument.answer (python : PythonText) (doc : EditDocument)
    (decoded : Except PythonError EditDocument.ToolCall) :
    EditDocument × Except PythonError String :=
  match decoded with
  | .ok c => ((doc.call python c).1, .ok (doc.call python c).2)
  | .error e => (doc, .error e)

/-- `_run_tool`: the document after the call, and the message or what is raised. -/
def runTool (python : PythonCalls) (parse : String → Option (List TagReport)) (doc : EditDocument)
    (call : LlmToolCall) : EditDocument × Except PythonError String :=
  match loadsWith floatConstant python.loadRoom call.argumentsText with
  | .error .valueError => (doc, .ok noJsonMessage)
  | .error .recursionError => (doc, .error .recursionError)
  | .ok args =>
    if call.name = "grep" then doc.answer python.toPythonText (python.grepCall args)
    else if call.name = "read_lines" then
      doc.answer python.toPythonText (python.readLinesCall args)
    else if call.name = "replace_lines" then
      doc.answer python.toPythonText (python.replaceLinesCall args)
    else if call.name = "check_html" then (doc, .ok (doc.structureReport parse))
    else (doc, .ok (unknownToolMessage python.toPythonText call.name))

/-- The answers to the calls of one turn, with the ids they go to; the first that raises ends
the request. -/
def runTurn (python : PythonCalls) (parse : String → Option (List TagReport)) :
    EditDocument → List LlmToolCall → Except PythonError (EditDocument × List (String × String))
  | doc, [] => .ok (doc, [])
  | doc, call :: calls => do
    let message ← (runTool python parse doc call).2
    let (doc, messages) ← runTurn python parse (runTool python parse doc call).1 calls
    return (doc, (call.id, message) :: messages)

/-! ### Arguments that can be converted -/

/-- The message begins as those of the tools that refuse. -/
def ReportsError (message : String) : Prop :=
  "Error".toList <+: message.toList

instance (message : String) : Decidable (ReportsError message) :=
  inferInstanceAs (Decidable (_ <+: _))

/-- What each tool needs of its arguments. -/
def PythonCalls.Converts (python : PythonCalls) (name : String) (args : Json) : Prop :=
  (name = "grep" → ∃ members, args = .object members ∧
    (memberOr members "pattern" (.text [])).IsShown python.reprRoom) ∧
  (name = "read_lines" → ∃ members, args = .object members ∧
    (memberOr members "start" (.int 0)).IsWhole python.decimal ∧
    (memberOr members "end" (.int 0)).IsWhole python.decimal) ∧
  (name = "replace_lines" → ∃ members, args = .object members ∧
    (memberOr members "start" (.int 0)).IsWhole python.decimal ∧
    (memberOr members "end" (.int 0)).IsWhole python.decimal ∧
    (memberOr members "text" (.text [])).IsShown python.reprRoom)

/-- The arguments are not nested too deep, and if they are JSON at all the tool can convert
them. -/
def LlmToolCall.Accepted (python : PythonCalls) (call : LlmToolCall) : Prop :=
  nestingWith floatConstant call.argumentsText ≤ python.loadRoom ∧
    ∀ args, readJsonWith floatConstant call.argumentsText = some args →
      python.Converts call.name args

section

variable {python : PythonCalls}

theorem membersOf_ok {args : Json} {members : List (CodePoints × Json)}
    (some_ : membersOf args = .ok members) : args = .object members := by
  cases args with
  | object found =>
    cases some_
    rfl
  | _ => cases some_

/-- What holds of every value in the arguments holds of the one that is read, or of its
default. -/
theorem memberOr_scalars {p : Json → Prop} {members : List (CodePoints × Json)} {key : String}
    {default : Json} (all : (Json.object members).Scalars p) (own : default.Scalars p) :
    (memberOr members key default).Scalars p := by
  rw [Json.Scalars, memberScalars_iff] at all
  unfold memberOr memberAt itemAt
  cases found : members.find? (·.1 = codePoints key) with
  | none => exact own
  | some member => exact all member (List.mem_of_find?_eq_some found)

variable {args : Json} (short : args.Scalars Json.Short)

include short

private theorem toStr_memberOr_iff {members : List (CodePoints × Json)} (is : args = .object members)
    (key : String) :
    (∃ s, (memberOr members key (.text [])).toStr python.reprText python.reprRoom = .ok s) ↔
      (memberOr members key (.text [])).IsShown python.reprRoom :=
  Json.toStr_ok_iff (memberOr_scalars (is ▸ short) trivial)

theorem grepCall_ok_iff : (∃ c, python.grepCall args = .ok c) ↔
    ∃ members, args = .object members ∧
      (memberOr members "pattern" (.text [])).IsShown python.reprRoom := by
  constructor
  · rintro ⟨c, decoded⟩
    obtain ⟨members, found, decoded⟩ := bind_eq_ok decoded
    obtain ⟨pattern, shown, -⟩ := bind_eq_ok decoded
    have is := membersOf_ok found
    exact ⟨members, is, (toStr_memberOr_iff short is _).mp ⟨pattern, shown⟩⟩
  · rintro ⟨members, is, shown⟩
    obtain ⟨pattern, shown⟩ := (toStr_memberOr_iff short is _).mpr shown
    subst is
    exact ⟨_, bind_eq_ok_iff.mpr ⟨members, rfl, bind_eq_ok_iff.mpr ⟨pattern, shown, rfl⟩⟩⟩

omit short in
theorem readLinesCall_ok_iff : (∃ c, python.readLinesCall args = .ok c) ↔
    ∃ members, args = .object members ∧
      (memberOr members "start" (.int 0)).IsWhole python.decimal ∧
      (memberOr members "end" (.int 0)).IsWhole python.decimal := by
  constructor
  · rintro ⟨c, decoded⟩
    obtain ⟨members, found, decoded⟩ := bind_eq_ok decoded
    obtain ⟨start, first, decoded⟩ := bind_eq_ok decoded
    obtain ⟨stop, last, -⟩ := bind_eq_ok decoded
    exact ⟨members, membersOf_ok found, Json.toInt_ok_iff.mp ⟨start, first⟩,
      Json.toInt_ok_iff.mp ⟨stop, last⟩⟩
  · rintro ⟨members, rfl, first, last⟩
    obtain ⟨start, first⟩ := Json.toInt_ok_iff.mpr first
    obtain ⟨stop, last⟩ := Json.toInt_ok_iff.mpr last
    exact ⟨_, bind_eq_ok_iff.mpr ⟨members, rfl, bind_eq_ok_iff.mpr ⟨start, first,
      bind_eq_ok_iff.mpr ⟨stop, last, rfl⟩⟩⟩⟩

theorem replaceLinesCall_ok_iff : (∃ c, python.replaceLinesCall args = .ok c) ↔
    ∃ members, args = .object members ∧
      (memberOr members "start" (.int 0)).IsWhole python.decimal ∧
      (memberOr members "end" (.int 0)).IsWhole python.decimal ∧
      (memberOr members "text" (.text [])).IsShown python.reprRoom := by
  constructor
  · rintro ⟨c, decoded⟩
    obtain ⟨members, found, decoded⟩ := bind_eq_ok decoded
    obtain ⟨start, first, decoded⟩ := bind_eq_ok decoded
    obtain ⟨stop, last, decoded⟩ := bind_eq_ok decoded
    obtain ⟨text, shown, -⟩ := bind_eq_ok decoded
    have is := membersOf_ok found
    exact ⟨members, is, Json.toInt_ok_iff.mp ⟨start, first⟩, Json.toInt_ok_iff.mp ⟨stop, last⟩,
      (toStr_memberOr_iff short is _).mp ⟨text, shown⟩⟩
  · rintro ⟨members, is, first, last, shown⟩
    obtain ⟨start, first⟩ := Json.toInt_ok_iff.mpr first
    obtain ⟨stop, last⟩ := Json.toInt_ok_iff.mpr last
    obtain ⟨text, shown⟩ := (toStr_memberOr_iff short is _).mpr shown
    subst is
    exact ⟨_, bind_eq_ok_iff.mpr ⟨members, rfl, bind_eq_ok_iff.mpr ⟨start, first,
      bind_eq_ok_iff.mpr ⟨stop, last, bind_eq_ok_iff.mpr ⟨text, shown, rfl⟩⟩⟩⟩⟩

end

/-! ### Errors and the document -/

/-- The first character of a message. -/
def Begins (c : Char) (message : String) : Prop :=
  message.toList.head? = some c

instance (c : Char) (message : String) : Decidable (Begins c message) :=
  inferInstanceAs (Decidable (_ = _))

theorem Begins.append {c : Char} {first : String} (begins : Begins c first) (rest : String) :
    Begins c (first ++ rest) := by
  rw [Begins] at *
  rw [String.toList_append, List.head?_append, begins]
  rfl

theorem Begins.no_error {c : Char} {message : String} (begins : Begins c message)
    (other : c ≠ 'E') : ¬ReportsError message := by
  rintro ⟨behind, whole⟩
  rw [Begins, ← whole] at begins
  exact other (Option.some.inj begins).symm

namespace EditDocument

variable {python : PythonText} {doc : EditDocument}

/-- What is accepted is answered with another word. -/
private theorem not_error_of_accepted {c : ToolCall} {entry : (Nat × Nat) × String}
    (taken : doc.accepts c = some entry) : ¬ReportsError (doc.call python c).2 := by
  cases c with
  | grep pattern ignoreCase => cases taken
  | readLines start stop => cases taken
  | replaceLines start stop text =>
    rw [accepts] at taken
    rw [call]
    cases reply : (doc.replaceLines start stop text).2 with
    | refused refusal =>
      rw [reply] at taken
      cases taken
    | revised first last before =>
      have word : Begins 'R' "Revised the staged edit for lines " := by decide +kernel
      have whole : Begins 'R' (Reply.revised first last before).text :=
        ((((word.append _).append _).append _).append _).append _
      exact whole.no_error (by decide)
    | staged first last before count =>
      have word : Begins 'S' "Staged: lines " := by decide +kernel
      have whole : Begins 'S' (Reply.staged first last before count).text :=
        (((((((((word.append _).append _).append _).append _).append _).append _).append
          _).append _).append _).append _
      exact whole.no_error (by decide)

/-- A call that answers with an error stages nothing. -/
theorem call_of_error {c : ToolCall} (error : ReportsError (doc.call python c).2) :
    (doc.call python c).1 = doc := by
  cases taken : doc.accepts c with
  | none => exact call_of_refused python taken
  | some entry => exact absurd error (not_error_of_accepted taken)

theorem answer_ok_iff {decoded : Except PythonError ToolCall} :
    (∃ message, (doc.answer python decoded).2 = .ok message) ↔ ∃ c, decoded = .ok c := by
  cases decoded with
  | ok c => exact iff_of_true ⟨_, rfl⟩ ⟨_, rfl⟩
  | error e => simp [answer]

theorem answer_of_error {decoded : Except PythonError ToolCall} {message : String}
    (answered : (doc.answer python decoded).2 = .ok message) (error : ReportsError message) :
    (doc.answer python decoded).1 = doc := by
  cases decoded with
  | ok c =>
    cases answered
    exact call_of_error error
  | error e => rfl

end EditDocument

/-! ### Calls that raise nothing -/

section

variable {python : PythonCalls}

/-- The numbers in what is read have few enough digits to be printed. -/
theorem short_arguments {text : List Char} {args : Json}
    (read : readJsonWith floatConstant text = some args) : args.Scalars Json.Short := by
  refine readJson_all (short_atomValue fun cs v constant => ?_) (fun _ => trivial) read
  unfold floatConstant at constant
  split at constant <;> cases constant <;> trivial

variable (parse : String → Option (List TagReport)) (doc : EditDocument) {call : LlmToolCall}

theorem runTool_of_deep (deep : ¬nestingWith floatConstant call.argumentsText ≤ python.loadRoom) :
    runTool python parse doc call = (doc, .error .recursionError) := by
  rw [runTool, loadsWith_eq, if_neg deep]

theorem runTool_of_noJson
    (fits : nestingWith floatConstant call.argumentsText ≤ python.loadRoom)
    (unread : readJsonWith floatConstant call.argumentsText = none) :
    runTool python parse doc call = (doc, .ok noJsonMessage) := by
  rw [runTool, loadsWith_eq, if_pos fits, unread]
  rfl

/-- Arguments that are JSON are answered by the tool exactly when it can convert them. -/
theorem runTool_of_json {args : Json}
    (fits : nestingWith floatConstant call.argumentsText ≤ python.loadRoom)
    (read : readJsonWith floatConstant call.argumentsText = some args) :
    (∃ message, (runTool python parse doc call).2 = .ok message) ↔
      python.Converts call.name args := by
  have short := short_arguments read
  rw [runTool, loadsWith_eq, if_pos fits, read]
  simp only [orRaise, PythonCalls.Converts]
  by_cases grep : call.name = "grep"
  · rw [if_pos grep, EditDocument.answer_ok_iff, grepCall_ok_iff short, grep]
    simp
  by_cases readLines : call.name = "read_lines"
  · rw [if_neg grep, if_pos readLines, EditDocument.answer_ok_iff, readLinesCall_ok_iff, readLines]
    simp
  by_cases replaceLines : call.name = "replace_lines"
  · rw [if_neg grep, if_neg readLines, if_pos replaceLines, EditDocument.answer_ok_iff,
      replaceLinesCall_ok_iff short, replaceLines]
    simp
  -- the other tools ask for no arguments
  · rw [if_neg grep, if_neg readLines, if_neg replaceLines]
    simp only [grep, readLines, replaceLines, false_imp_iff, and_self, iff_true]
    split <;> exact ⟨_, rfl⟩

/-- A call is answered exactly when its arguments are accepted, whatever the document is. -/
theorem runTool_ok_iff :
    (∃ message, (runTool python parse doc call).2 = .ok message) ↔ call.Accepted python := by
  unfold LlmToolCall.Accepted
  by_cases fits : nestingWith floatConstant call.argumentsText ≤ python.loadRoom
  · rw [and_iff_right fits]
    cases read : readJsonWith floatConstant call.argumentsText with
    | none =>
      rw [runTool_of_noJson parse doc fits read]
      simp
    | some args =>
      rw [runTool_of_json parse doc fits read]
      simp
  · rw [runTool_of_deep parse doc fits]
    simp [fits]

/-- A call that answers with an error leaves the document as it was. -/
theorem runTool_of_error {message : String}
    (answered : (runTool python parse doc call).2 = .ok message) (error : ReportsError message) :
    (runTool python parse doc call).1 = doc := by
  unfold runTool at *
  split
  next => rfl
  next => rfl
  next args loaded =>
    simp only [loaded] at answered
    split_ifs at answered ⊢ with grep readLines replaceLines check
    · exact EditDocument.answer_of_error answered error
    · exact EditDocument.answer_of_error answered error
    · exact EditDocument.answer_of_error answered error
    · rfl
    · rfl

/-- A turn is answered exactly when every one of its calls is, in the order of the calls. -/
theorem runTurn_ok_iff (calls : List LlmToolCall) :
    (∃ doc' messages, runTurn python parse doc calls = .ok (doc', messages) ∧
      messages.map (·.1) = calls.map (·.id)) ↔ ∀ call ∈ calls, call.Accepted python := by
  induction calls generalizing doc with
  | nil => exact iff_of_true ⟨doc, [], rfl, rfl⟩ (by simp)
  | cons call calls ih =>
    rw [List.forall_mem_cons, ← runTool_ok_iff parse doc, ← ih (runTool python parse doc call).1,
      runTurn]
    constructor
    · rintro ⟨doc', messages, ran, ids⟩
      obtain ⟨message, answered, ran⟩ := bind_eq_ok ran
      obtain ⟨⟨last, rest⟩, others, result⟩ := bind_eq_ok ran
      obtain ⟨rfl, rfl⟩ := Prod.mk.inj (Except.ok.inj result)
      exact ⟨⟨message, answered⟩, _, rest, others, (List.cons.inj ids).2⟩
    · rintro ⟨⟨message, answered⟩, last, rest, ran, ids⟩
      refine ⟨last, (call.id, message) :: rest, ?_, by rw [List.map_cons, ids]; rfl⟩
      exact bind_eq_ok_iff.mpr ⟨message, answered, bind_eq_ok_iff.mpr ⟨(last, rest), ran, rfl⟩⟩

/-- A call is answered, and stages nothing if the answer is an error, exactly when its arguments
are nested within Python's limits and, if they are JSON, are an object (for the three tools that
ask it for members) whose line numbers are whole numbers and whose texts can be built. -/
theorem runTool_iff (python : PythonCalls) (parse : String → Option (List TagReport))
    (doc : EditDocument) (call : LlmToolCall) :
    (∃ message, (runTool python parse doc call).2 = .ok message ∧
      (ReportsError message → (runTool python parse doc call).1 = doc)) ↔
        call.Accepted python := by
  rw [← runTool_ok_iff parse doc]
  constructor
  · rintro ⟨message, answered, -⟩
    exact ⟨message, answered⟩
  · rintro ⟨message, answered⟩
    exact ⟨message, answered, runTool_of_error parse doc answered⟩

end

/-! ### A call without a line number -/

/-- Texts of ASCII, and a stack of the usual size. -/
def asciiCalls : PythonCalls where
  lower text := String.ofList (text.toList.map Char.toLower)
  repr text := "'" ++ text ++ "'"
  decimal _ := none
  character := Char.ofNat
  loadRoom := 1000
  reprRoom := 1000

/-- `int(None)` is raised. -/
theorem runTool_null_start :
    ¬∀ (python : PythonCalls) (parse : String → Option (List TagReport)) (doc : EditDocument)
      (call : LlmToolCall), ∃ message, (runTool python parse doc call).2 = .ok message ∧
        (ReportsError message → (runTool python parse doc call).1 = doc) := by
  intro answered
  obtain ⟨message, same, -⟩ := answered asciiCalls (fun _ => some []) (.ofHtml "<p>one</p>")
    { id := "call_1", name := "read_lines", arguments := "\x7b\"start\": null, \"end\": 1\x7d" }
  have raised : (runTool asciiCalls (fun _ => some []) (.ofHtml "<p>one</p>")
      { id := "call_1", name := "read_lines"
        arguments := "\x7b\"start\": null, \"end\": 1\x7d" }).2 = .error .typeError := by
    decide +kernel
  rw [raised] at same
  cases same

end MegooPM
