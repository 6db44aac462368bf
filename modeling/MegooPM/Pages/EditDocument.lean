import MegooPM.Lib.Splice
import MegooPM.Lib.Text
import Mathlib

/-!
# The document a model edits

`services/page_tools.py`: a page under edit and the tools a model drives it with. Line
numbers refer to the original document for the whole conversation; edits are staged, and
spliced in from the bottom up at the end.
-/
namespace MegooPM

open Lib

/-- `str.lower` and `repr` of a string. -/
structure PythonText where
  lower : String → String
  repr : String → String

/-- Lines shown either side of a grep hit (`GREP_CONTEXT_LINES`). -/
def grepContextLines : Nat := 2

/-- `MAX_GREP_MATCHES`. -/
def maxGrepMatches : Nat := 50

def originalNote := "Line numbers still refer to the original document."

/-- One pending replacement; the lines count from 1, and both ends belong to it. -/
structure StagedEdit where
  start : Nat
  stop : Nat
  before : String
  after : String
  deriving DecidableEq, Repr

structure EditDocument where
  lines : List String
  staged : List StagedEdit := []
  deriving DecidableEq, Repr

/-- `text.split("\n")`. -/
def splitAtNewlines (text : String) : List String :=
  (text.toList.splitOn '\n').map String.ofList

/-- `"\n".join(lines)`. -/
def joinLines (lines : List String) : String :=
  "\n".intercalate lines

/-- `edit.after.split("\n") if edit.after else []`. -/
def StagedEdit.replacement (edit : StagedEdit) : List String :=
  if edit.after = "" then [] else splitAtNewlines edit.after

/-- The lines of an edit, counted from 0 and up to the first that is left out. -/
def StagedEdit.patch (edit : StagedEdit) : Patch String where
  start := edit.start - 1
  stop := edit.stop
  replacement := edit.replacement

/-- The lines an edit covers. -/
def StagedEdit.range (edit : StagedEdit) : Nat × Nat :=
  (edit.start, edit.stop)

/-- `f"{index:>5} | {line}"`. -/
def number (index : Nat) (line : String) : String :=
  let digits := toString index
  String.ofList (List.replicate (5 - digits.length) ' ') ++ digits ++ " | " ++ line

/-- The lines from `start` to `stop`, both counted from 1. -/
def slice (lines : List String) (start stop : Nat) : List String :=
  (lines.drop (start - 1)).take (stop + 1 - start)

namespace EditDocument

def ofHtml (html : String) : EditDocument where
  lines := splitAtNewlines html

variable (doc : EditDocument)

/-- A range of lines with their numbers. -/
def numberedLines (start stop : Nat) : String :=
  joinLines ((slice doc.lines start stop).mapIdx fun i line => number (start + i) line)

/-- The whole document, numbered, for the opening message. -/
def numbered : String :=
  doc.numberedLines 1 doc.lines.length

/-! ### Replies -/

/-- What a tool answers instead of doing its work. -/
inductive Refusal where
  | belowOne (total : Nat)
  | inverted (start stop : Int)
  | pastEnd (stop : Int) (total : Nat)
  | overlap (start stop : Int) (edit : StagedEdit)
  deriving DecidableEq, Repr

def Refusal.text : Refusal → String
  | .belowOne total => "Error: line numbers start at 1. The document has " ++ toString total ++
      " lines."
  | .inverted start stop => "Error: start (" ++ toString start ++ ") is after end (" ++
      toString stop ++ ")."
  | .pastEnd stop total => "Error: line " ++ toString stop ++ " is past the end. The document has " ++
      toString total ++ " lines."
  | .overlap start stop edit =>
    let covered := toString edit.start ++ "-" ++ toString edit.stop
    "Error: lines " ++ toString start ++ "-" ++ toString stop ++
      " overlap a staged edit covering " ++ covered ++ ". Restage the whole of " ++ covered ++
      " instead of staging both."

/-- What `replace_lines` answers. -/
inductive Reply where
  | refused (refusal : Refusal)
  | revised (start stop : Int) (before : String)
  | staged (start stop : Int) (before : String) (count : Nat)
  deriving DecidableEq, Repr

def Reply.text : Reply → String
  | .refused refusal => refusal.text
  | .revised start stop before => "Revised the staged edit for lines " ++ toString start ++ "-" ++
      toString stop ++ ", which replace:\n" ++ before
  | .staged start stop before count => "Staged: lines " ++ toString start ++ "-" ++ toString stop ++
      " will be replaced. They currently read:\n" ++ before ++ "\n" ++ originalNote ++ " " ++
      toString count ++ " edit(s) staged so far."

/-! ### Tools -/

/-- The context of the hits, windows that touch merged into one. -/
def mergeWindows (total : Nat) (hits : List Nat) : List (Nat × Nat) :=
  (hits.foldl (fun windows hit =>
    let start := max 1 (hit - grepContextLines)
    let stop := min total (hit + grepContextLines)
    match windows with
    | (first, last) :: rest =>
      if start ≤ last + 1 then (first, max last stop) :: rest else (start, stop) :: windows
    | [] => [(start, stop)]) []).reverse

/-- The numbers of the lines a pattern occurs in. -/
def grepHits (python : PythonText) (pattern : String) (ignoreCase : Bool) : List Nat :=
  let fold := fun text => if ignoreCase then python.lower text else text
  (doc.lines.zipIdx 1).filterMap fun (line, i) =>
    if (fold pattern).toList <:+: (fold line).toList then some i else none

/-- Literal substring search, with context. -/
def grep (python : PythonText) (pattern : String) (ignoreCase : Bool) : String :=
  if pattern = "" then "Error: pattern must not be empty."
  else
    let hits := doc.grepHits python pattern ignoreCase
    if hits = [] then "No matches for " ++ python.repr pattern ++ "."
    else
      let shown := hits.take maxGrepMatches
      let header := toString hits.length ++ " match" ++ (if hits.length ≠ 1 then "es" else "") ++
        " for " ++ python.repr pattern ++ "." ++
        (if shown.length < hits.length then " Showing the first " ++ toString shown.length ++
          "; narrow the pattern to see the rest." else "")
      header ++ "\n\n" ++ "\n--\n".intercalate
        ((mergeWindows doc.lines.length shown).map fun (start, stop) => doc.numberedLines start stop)

/-- `_check_range`; what passes is a range of the document. -/
def checkRange (start stop : Int) : Option Refusal :=
  if start < 1 ∨ stop < 1 then some (.belowOne doc.lines.length)
  else if stop < start then some (.inverted start stop)
  else if doc.lines.length < stop then some (.pastEnd stop doc.lines.length)
  else none

/-- An inclusive numbered range, or an error the model can act on. -/
def readLines (start stop : Int) : String :=
  match doc.checkRange start stop with
  | some refusal => refusal.text
  | none => doc.numberedLines start.toNat stop.toNat

/-- How an edit fits in with those already staged. -/
inductive Place where
  | free
  | revises (staged : List StagedEdit)
  | overlaps (edit : StagedEdit)
  deriving DecidableEq, Repr

/-- The loop of `replace_lines` over the staged edits. -/
def place (edit : StagedEdit) : List StagedEdit → Place
  | [] => .free
  | other :: rest =>
    -- the same range again is a correction, not a collision
    if other.start = edit.start ∧ other.stop = edit.stop then .revises (edit :: rest)
    else if edit.start ≤ other.stop ∧ other.start ≤ edit.stop then .overlaps other
    else
      match place edit rest with
      | .revises staged => .revises (other :: staged)
      | decided => decided

/-- The edit of a range that passed the check. -/
def newEdit (start stop : Int) (text : String) : StagedEdit where
  start := start.toNat
  stop := stop.toNat
  before := joinLines (slice doc.lines start.toNat stop.toNat)
  after := text

/-- Stage a replacement. -/
def replaceLines (start stop : Int) (text : String) : EditDocument × Reply :=
  match doc.checkRange start stop with
  | some refusal => (doc, .refused refusal)
  | none =>
    let edit := doc.newEdit start stop text
    match place edit doc.staged with
    | .revises staged => ({ doc with staged }, .revised start stop edit.before)
    | .overlaps other => (doc, .refused (.overlap start stop other))
    | .free => ({ doc with staged := doc.staged ++ [edit] },
        .staged start stop edit.before (doc.staged.length + 1))

/-! ### Apply -/

/-- The new document, and what changed in document order. -/
def apply : String × List StagedEdit :=
  let lines := (sortedBy (fun edit => OrderDual.toDual edit.start) doc.staged).foldl
    (fun lines edit => edit.patch.splice lines) doc.lines
  (joinLines lines, sortedBy (·.start) doc.staged)

/-! ### Conversations -/

inductive ToolCall where
  | grep (pattern : String) (ignoreCase : Bool)
  | readLines (start stop : Int)
  | replaceLines (start stop : Int) (text : String)
  deriving DecidableEq, Repr

/-- One call: what it leaves of the document, and what it answers. -/
def call (python : PythonText) : ToolCall → EditDocument × String
  | .grep pattern ignoreCase => (doc, doc.grep python pattern ignoreCase)
  | .readLines start stop => (doc, doc.readLines start stop)
  | .replaceLines start stop text =>
    ((doc.replaceLines start stop text).1, (doc.replaceLines start stop text).2.text)

/-- The document after a list of calls. -/
def run (python : PythonText) (calls : List ToolCall) : EditDocument :=
  calls.foldl (fun doc c => (doc.call python c).1) doc

/-- The range and the text of a replacement that is accepted. -/
def accepts : ToolCall → Option ((Nat × Nat) × String)
  | .replaceLines start stop text =>
    match (doc.replaceLines start stop text).2 with
    | .refused _ => none
    | _ => some ((start.toNat, stop.toNat), text)
  | _ => none

/-- Every replacement accepted along a list of calls. -/
def accepted (python : PythonText) (doc : EditDocument) :
    List ToolCall → List ((Nat × Nat) × String)
  | [] => []
  | c :: rest => (doc.accepts c).toList ++ accepted python (doc.call python c).1 rest


/-! ### The staged edits -/

/-- No line belongs to both edits. -/
def Apart (e f : StagedEdit) : Prop :=
  e.stop < f.start ∨ f.stop < e.start

instance : Std.Symm Apart :=
  ⟨fun _ _ => Or.symm⟩

/-- An edit of lines there are, with what they read. -/
structure Fits (lines : List String) (e : StagedEdit) : Prop where
  start : 1 ≤ e.start
  ordered : e.start ≤ e.stop
  stop : e.stop ≤ lines.length
  before : e.before = joinLines (slice lines e.start e.stop)

/-- The edits lie in the document and no two share a line. -/
structure Applicable : Prop where
  fits : ∀ e ∈ doc.staged, Fits doc.lines e
  apart : doc.staged.Pairwise Apart

variable {doc}

/-- A range that passes the check is one of the document. -/
theorem fits_newEdit {start stop : Int} (checked : doc.checkRange start stop = none)
    (text : String) : Fits doc.lines (doc.newEdit start stop text) := by
  unfold checkRange at checked
  split at checked
  next => cases checked
  next above =>
    split at checked
    next => cases checked
    next ordered =>
      split at checked
      next => cases checked
      next inside =>
        have first : 1 ≤ start.toNat := by omega
        have last : start.toNat ≤ stop.toNat := by omega
        exact ⟨first, last, show stop.toNat ≤ _ by omega, rfl⟩

private theorem place_free {edit : StagedEdit} {staged : List StagedEdit}
    (free : place edit staged = .free) : ∀ other ∈ staged, Apart other edit := by
  induction staged with
  | nil => simp
  | cons other rest ih =>
    unfold place at free
    split at free
    next => cases free
    next =>
      split at free
      next => cases free
      next clear =>
        intro e member
        cases later : place edit rest with
        | free =>
          rcases List.mem_cons.mp member with rfl | inside
          · unfold Apart
            omega
          · exact ih later e inside
        | revises staged => rw [later] at free; cases free
        | overlaps blocking => rw [later] at free; cases free

private theorem place_revises {edit : StagedEdit} {staged revised : List StagedEdit}
    (found : place edit staged = .revises revised) :
    ∃ above old below, staged = above ++ old :: below ∧ revised = above ++ edit :: below ∧
      old.start = edit.start ∧ old.stop = edit.stop := by
  induction staged generalizing revised with
  | nil => cases found
  | cons other rest ih =>
    unfold place at found
    split at found
    next same =>
      cases found
      exact ⟨[], other, rest, rfl, rfl, same⟩
    next =>
      split at found
      next => cases found
      next =>
        cases later : place edit rest with
        | free => rw [later] at found; cases found
        | overlaps blocking => rw [later] at found; cases found
        | revises further =>
          rw [later] at found
          cases found
          obtain ⟨above, old, below, rfl, rfl, same⟩ := ih later
          exact ⟨other :: above, old, below, rfl, rfl, same⟩

/-- What `replace_lines` does: it refuses, or it stages an edit that is apart from the others,
or it takes the place of the edit of the same range. -/
theorem replaceLines_cases (doc : EditDocument) (start stop : Int) (text : String) :
    (∃ refusal, doc.replaceLines start stop text = (doc, .refused refusal)) ∨
    Fits doc.lines (doc.newEdit start stop text) ∧
      doc.accepts (.replaceLines start stop text) = some ((start.toNat, stop.toNat), text) ∧
      ((∀ other ∈ doc.staged, Apart other (doc.newEdit start stop text)) ∧
        (doc.replaceLines start stop text).1 =
          { doc with staged := doc.staged ++ [doc.newEdit start stop text] } ∨
      ∃ above old below, doc.staged = above ++ old :: below ∧
        old.start = start.toNat ∧ old.stop = stop.toNat ∧
        (doc.replaceLines start stop text).1 =
          { doc with staged := above ++ doc.newEdit start stop text :: below }) := by
  cases checked : doc.checkRange start stop with
  | some refusal => exact Or.inl ⟨refusal, by simp only [replaceLines, checked]⟩
  | none =>
    have fits := fits_newEdit checked text
    cases placed : place (doc.newEdit start stop text) doc.staged with
    | overlaps other =>
      exact Or.inl ⟨.overlap start stop other, by simp only [replaceLines, checked, placed]⟩
    | free =>
      refine Or.inr ⟨fits, ?_, Or.inl ⟨place_free placed, ?_⟩⟩
      · simp only [accepts, replaceLines, checked, placed]
      · simp only [replaceLines, checked, placed]
    | revises revised =>
      obtain ⟨above, old, below, before, rfl, starts, stops⟩ := place_revises placed
      refine Or.inr ⟨fits, ?_, Or.inr ⟨above, old, below, before, starts, stops, ?_⟩⟩
      · simp only [accepts, replaceLines, checked, placed]
      · simp only [replaceLines, checked, placed]

theorem Applicable.replaceLines (fine : doc.Applicable) (start stop : Int) (text : String) :
    (doc.replaceLines start stop text).1.Applicable := by
  rcases replaceLines_cases doc start stop text with ⟨refusal, done⟩ | ⟨fits, _, added | revised⟩
  · rw [done]
    exact fine
  · obtain ⟨clear, done⟩ := added
    rw [done]
    constructor
    · intro e member
      rcases List.mem_append.mp member with old | new
      · exact fine.fits e old
      · rw [List.mem_singleton.mp new]
        exact fits
    · rw [List.pairwise_append]
      refine ⟨fine.apart, List.pairwise_singleton .., fun e inside f new => ?_⟩
      rw [List.mem_singleton.mp new]
      exact clear e inside
  · obtain ⟨above, old, below, staged, starts, stops, done⟩ := revised
    rw [done]
    obtain ⟨others, apart⟩ := fine
    rw [staged] at others apart
    constructor
    · intro e member
      rcases List.mem_append.mp member with left | right
      · exact others e (List.mem_append_left _ left)
      · rcases List.mem_cons.mp right with rfl | later
        · exact fits
        · exact others e (List.mem_append_right _ (List.mem_cons_of_mem _ later))
    -- the new edit keeps apart from the others as the one of its range did
    · simpa only [List.pairwise_append, List.pairwise_cons, List.forall_mem_cons, Apart, starts,
        stops, newEdit] using apart

/-- Two staged edits of one range are the same edit. -/
theorem Applicable.eq_of_range (fine : doc.Applicable) {e f : StagedEdit} (first : e ∈ doc.staged)
    (second : f ∈ doc.staged) (same : e.range = f.range) : e = f := by
  have starts : e.start = f.start := congrArg Prod.fst same
  have stops : e.stop = f.stop := congrArg Prod.snd same
  by_contra other
  have ordered := (fine.fits e first).ordered
  rcases fine.apart.forall first second other with before | after
  · omega
  · omega

/-! ### Whole conversations -/

variable (python : PythonText)

/-- The last text accepted for a range. -/
def lastText (range : Nat × Nat) (log : List ((Nat × Nat) × String)) : Option String :=
  (log.reverse.find? (·.1 = range)).map (·.2)

theorem lastText_append (range : Nat × Nat) (log : List ((Nat × Nat) × String))
    (entry : (Nat × Nat) × String) :
    lastText range (log ++ [entry]) =
      if entry.1 = range then some entry.2 else lastText range log := by
  rw [lastText, List.reverse_append, List.reverse_singleton, List.singleton_append, List.find?_cons]
  by_cases same : entry.1 = range
  · simp [same]
  · simp [same, lastText]

theorem run_append (doc : EditDocument) (calls : List ToolCall) (c : ToolCall) :
    doc.run python (calls ++ [c]) = ((doc.run python calls).call python c).1 := by
  rw [run, List.foldl_append]
  rfl

theorem accepted_append (doc : EditDocument) (calls : List ToolCall) (c : ToolCall) :
    accepted python doc (calls ++ [c]) =
      accepted python doc calls ++ ((doc.run python calls).accepts c).toList := by
  induction calls generalizing doc with
  | nil => simp [accepted, run]
  | cons first rest ih =>
    rw [List.cons_append, accepted, accepted, ih, List.append_assoc]
    rfl

/-- A call that accepts no replacement leaves the document as it was. -/
theorem call_of_refused {c : ToolCall} (refused : doc.accepts c = none) :
    (doc.call python c).1 = doc := by
  cases c with
  | grep pattern ignoreCase => rfl
  | readLines start stop => rfl
  | replaceLines start stop text =>
    rcases replaceLines_cases doc start stop text with ⟨refusal, done⟩ | ⟨_, accepts, _⟩
    · exact congrArg Prod.fst done
    · rw [refused] at accepts
      cases accepts

/-- What holds after any list of calls: the original lines, edits that can be applied, and for
each range the last text accepted for it. -/
structure Tracks (html : String) (log : List ((Nat × Nat) × String)) (doc : EditDocument) :
    Prop where
  lines : doc.lines = splitAtNewlines html
  applicable : doc.Applicable
  latest : ∀ range text, (∃ e ∈ doc.staged, e.range = range ∧ e.after = text) ↔
    lastText range log = some text

/-- What an accepted replacement changes: the new edit is staged, and the edits of other
ranges are those there were. -/
theorem replaceLines_staged {start stop : Int} {text : String} {entry : (Nat × Nat) × String}
    (taken : doc.accepts (.replaceLines start stop text) = some entry) :
    entry = ((start.toNat, stop.toNat), text) ∧
      (doc.replaceLines start stop text).1.lines = doc.lines ∧
      doc.newEdit start stop text ∈ (doc.replaceLines start stop text).1.staged ∧
      ∀ e : StagedEdit, e.range ≠ (start.toNat, stop.toNat) →
        (e ∈ (doc.replaceLines start stop text).1.staged ↔ e ∈ doc.staged) := by
  rcases replaceLines_cases doc start stop text with ⟨refusal, done⟩ | ⟨_, accepts, changed⟩
  · rw [EditDocument.accepts, done] at taken
    cases taken
  · rw [accepts] at taken
    cases taken
    rcases changed with ⟨_, done⟩ | ⟨above, old, below, staged, starts, stops, done⟩
    · rw [done]
      refine ⟨rfl, rfl, List.mem_append_right _ (List.mem_singleton_self _), fun e other => ?_⟩
      have foreign : e ≠ doc.newEdit start stop text := fun same => other (same ▸ rfl)
      simp [foreign]
    · rw [done, staged]
      refine ⟨rfl, rfl, by simp, fun e other => ?_⟩
      have foreign : e ≠ doc.newEdit start stop text := fun same => other (same ▸ rfl)
      have foreign' : e ≠ old := fun same => other (same ▸ Prod.ext starts stops)
      simp [foreign, foreign']

/-- The step: an accepted call is the last one for its range, and only for that range. -/
theorem Tracks.call {html : String} {log : List ((Nat × Nat) × String)}
    (tracks : Tracks html log doc) (c : ToolCall) :
    Tracks html (log ++ (doc.accepts c).toList) (doc.call python c).1 := by
  cases taken : doc.accepts c with
  | none =>
    rw [call_of_refused python taken, Option.toList_none, List.append_nil]
    exact tracks
  | some entry =>
    cases c with
    | grep pattern ignoreCase => cases taken
    | readLines start stop => cases taken
    | replaceLines start stop text =>
      have after := tracks.applicable.replaceLines start stop text
      obtain ⟨rfl, lines, staged, others⟩ := replaceLines_staged taken
      refine ⟨lines.trans tracks.lines, after, fun range latest => ?_⟩
      rw [Option.toList_some, lastText_append]
      by_cases same : (start.toNat, stop.toNat) = range
      · rw [if_pos same, Option.some.injEq]
        constructor
        · rintro ⟨e, inside, own, rfl⟩
          rw [after.eq_of_range inside staged (own.trans same.symm)]
          rfl
        · rintro rfl
          exact ⟨_, staged, same, rfl⟩
      · rw [if_neg same, ← tracks.latest]
        constructor
        · rintro ⟨e, inside, own, told⟩
          exact ⟨e, (others e (own ▸ Ne.symm same)).mp inside, own, told⟩
        · rintro ⟨e, inside, own, told⟩
          exact ⟨e, (others e (own ▸ Ne.symm same)).mpr inside, own, told⟩

/-- The run. -/
theorem tracks_run (html : String) (calls : List ToolCall) :
    Tracks html (accepted python (ofHtml html) calls) ((ofHtml html).run python calls) := by
  induction calls using List.reverseRecOn with
  | nil =>
    refine ⟨rfl, ⟨fun e member => absurd member (List.not_mem_nil), .nil⟩, fun range text => ?_⟩
    constructor
    · rintro ⟨e, member, _⟩
      cases member
    · exact fun found => by cases found
  | append_singleton calls c ih =>
    rw [run_append, accepted_append]
    exact ih.call python c

/-! ### The document at the end -/

theorem Fits.patch_within {lines : List String} {e : StagedEdit} (fits : Fits lines e) :
    e.patch.Within lines.length := by
  have first := fits.start
  have ordered := fits.ordered
  exact ⟨show e.start - 1 < e.stop by omega, fits.stop⟩

/-- In document order, every edit ends before the next one begins. -/
theorem Applicable.ordered (fine : doc.Applicable) :
    (sortedBy (·.start) doc.staged).Pairwise fun e f => e.stop < f.start := by
  have apart : (sortedBy (·.start) doc.staged).Pairwise Apart :=
    fine.apart.perm (sortedBy_perm _ _).symm fun {_ _} => Or.symm
  refine ((pairwise_sortedBy (·.start) doc.staged).and apart).imp_of_mem ?_
  intro e f first second ⟨below, apart⟩
  have fits := fine.fits f ((mem_sortedBy _ _ _).mp second)
  have ordered := fits.ordered
  rcases apart with before | after
  · exact before
  · omega

theorem Applicable.increasing (fine : doc.Applicable) :
    (sortedBy (·.start) doc.staged).Pairwise fun e f => e.start < f.start := by
  refine fine.ordered.imp_of_mem fun {e f} first _ before => ?_
  have ordered := (fine.fits e ((mem_sortedBy _ _ _).mp first)).ordered
  omega

/-- From the last edit to the first is document order read backwards. -/
theorem Applicable.descending (fine : doc.Applicable) :
    sortedBy (fun edit => OrderDual.toDual edit.start) doc.staged =
      (sortedBy (·.start) doc.staged).reverse := by
  have strict := fine.increasing
  have distinct : doc.staged.Pairwise fun e f => e.start ≠ f.start :=
    (strict.imp fun below => below.ne).perm (sortedBy_perm _ _) fun {_ _} => Ne.symm
  have backwards : (sortedBy (fun edit => OrderDual.toDual edit.start) doc.staged).Pairwise
      fun e f => OrderDual.toDual e.start < OrderDual.toDual f.start := by
    have apart := distinct.perm (sortedBy_perm (fun edit => OrderDual.toDual edit.start) _).symm
      fun {_ _} => Ne.symm
    exact ((pairwise_sortedBy _ _).and apart).imp fun ⟨below, other⟩ =>
      lt_of_le_of_ne below fun same => other (OrderDual.toDual_inj.mp same)
  have reversed : (sortedBy (·.start) doc.staged).reverse.Pairwise
      fun e f => OrderDual.toDual e.start < OrderDual.toDual f.start :=
    List.pairwise_reverse.mpr (strict.imp OrderDual.toDual_lt_toDual.mpr)
  refine eq_of_increasing backwards reversed fun e => ?_
  rw [mem_sortedBy, List.mem_reverse, mem_sortedBy]

theorem Applicable.patches_apart (fine : doc.Applicable) :
    (doc.staged.map StagedEdit.patch).Pairwise Patch.Apart := by
  rw [List.pairwise_map]
  refine fine.apart.imp fun {e f} apart => ?_
  rcases apart with before | after
  · exact Or.inl (show e.stop ≤ f.start - 1 by omega)
  · exact Or.inr (show f.stop ≤ e.start - 1 by omega)

theorem Applicable.patches_within (fine : doc.Applicable) :
    ∀ p ∈ doc.staged.map StagedEdit.patch, p.Within doc.lines.length := by
  intro p member
  obtain ⟨e, inside, rfl⟩ := List.mem_map.mp member
  exact (fine.fits e inside).patch_within

/-- Applying the edits from the bottom up replaces every range of the original at once. -/
theorem Applicable.apply_eq (fine : doc.Applicable) :
    doc.apply.1 = joinLines (rewrite (doc.staged.map StagedEdit.patch) doc.lines) := by
  have ordered : ((sortedBy (·.start) doc.staged).map StagedEdit.patch).Pairwise
      fun p q => p.stop ≤ q.start := by
    rw [List.pairwise_map]
    exact fine.ordered.imp fun {e f} before => show e.stop ≤ f.start - 1 by omega
  have same : ∀ p, p ∈ (sortedBy (·.start) doc.staged).map StagedEdit.patch ↔
      p ∈ doc.staged.map StagedEdit.patch := by
    intro p
    rw [List.mem_map, List.mem_map]
    exact exists_congr fun e => and_congr_left fun _ => mem_sortedBy _ _ _
  have within : ∀ p ∈ (sortedBy (·.start) doc.staged).map StagedEdit.patch,
      p.Within doc.lines.length :=
    fun p member => fine.patches_within p ((same p).mp member)
  calc doc.apply.1
      = joinLines (((sortedBy (·.start) doc.staged).map StagedEdit.patch).foldr Patch.splice
          doc.lines) := by
        rw [apply, fine.descending, List.foldl_reverse, List.foldr_map]
    _ = joinLines (rewrite ((sortedBy (·.start) doc.staged).map StagedEdit.patch) doc.lines) := by
        rw [foldr_splice ordered within]
    _ = joinLines (rewrite (doc.staged.map StagedEdit.patch) doc.lines) := by
        rw [rewrite_congr (ordered.imp Or.inl) fine.patches_apart within same]

/-- Two documents with the same lines and the same staged edits become the same page, with the
same changes reported, whatever the order the edits were staged in. -/
theorem Applicable.apply_congr {other : EditDocument} (fine : doc.Applicable)
    (fine' : other.Applicable) (lines : doc.lines = other.lines)
    (same : ∀ e, e ∈ doc.staged ↔ e ∈ other.staged) : doc.apply = other.apply := by
  have patches : ∀ p, p ∈ doc.staged.map StagedEdit.patch ↔ p ∈ other.staged.map StagedEdit.patch := by
    intro p
    rw [List.mem_map, List.mem_map]
    exact exists_congr fun e => and_congr_left fun _ => same e
  have page : doc.apply.1 = other.apply.1 := by
    rw [fine.apply_eq, fine'.apply_eq, ← lines,
      rewrite_congr fine.patches_apart fine'.patches_apart fine.patches_within patches]
  have changes : doc.apply.2 = other.apply.2 := by
    refine eq_of_increasing fine.increasing fine'.increasing fun e => ?_
    exact (mem_sortedBy _ _ _).trans ((same e).trans (mem_sortedBy _ _ _).symm)
  exact Prod.ext page changes

/-- What a conversation about a page amounts to. -/
structure RewritesAtOnce (html : String) (calls : List ToolCall) : Prop where
  tracks : Tracks html (accepted python (ofHtml html) calls) ((ofHtml html).run python calls)
  refused : ∀ c : ToolCall, ((ofHtml html).run python calls).accepts c = none →
    (((ofHtml html).run python calls).call python c).1 = (ofHtml html).run python calls
  applied : ((ofHtml html).run python calls).apply.1 = joinLines
    (rewrite (((ofHtml html).run python calls).staged.map StagedEdit.patch) (splitAtNewlines html))
  kept : (untouched (((ofHtml html).run python calls).staged.map StagedEdit.patch)
    (splitAtNewlines html)).Sublist
      (rewrite (((ofHtml html).run python calls).staged.map StagedEdit.patch) (splitAtNewlines html))
  orderFree : ∀ calls' : List ToolCall,
    (∀ e, e ∈ ((ofHtml html).run python calls).staged ↔
      e ∈ ((ofHtml html).run python calls').staged) →
    ((ofHtml html).run python calls).apply = ((ofHtml html).run python calls').apply

/-- Whatever a model calls, the page it ends with is the original with every staged range
replaced at once by the last text accepted for it. -/
theorem rewritesAtOnce (html : String) (calls : List ToolCall) :
    RewritesAtOnce python html calls := by
  have here := tracks_run python html calls
  refine ⟨here, fun c => call_of_refused python, ?_, untouched_sublist _ _, fun calls' same => ?_⟩
  · rw [here.applicable.apply_eq, here.lines]
  · have there := tracks_run python html calls'
    exact here.applicable.apply_congr there.applicable (here.lines.trans there.lines.symm) same

end EditDocument

end MegooPM
