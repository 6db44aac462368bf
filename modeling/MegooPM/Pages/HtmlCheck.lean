import MegooPM.Lib.Nesting
import MegooPM.Lib.Text
import MegooPM.Pages.EditDocument
import Mathlib

/-!
# The structural check of a page

`services/html_check.py`: the tags that the HTML parser reports are followed with a stack of
open elements, and only what is unambiguously wrong is noted. The check is silent exactly when
the tags whose end is required nest and no optional end tag closes one of them.
-/
namespace MegooPM

open Lib

/-- Elements that never have an end tag. -/
def voidElements : List String :=
  ["area", "base", "br", "col", "embed", "hr", "img", "input", "link", "meta", "param", "source",
    "track", "wbr"]

/-- Elements whose end tag may be left out. -/
def optionalEnd : List String :=
  ["body", "colgroup", "dd", "dt", "head", "html", "li", "optgroup", "option", "p", "rp", "rt",
    "tbody", "td", "tfoot", "th", "thead", "tr"]

/-- One structural fault, with the line to look at. -/
structure Problem where
  line : Nat
  message : String
  deriving DecidableEq, Repr

/-- What the parser reports of a tag, with the line that `getpos` answers there. -/
inductive TagReport where
  | startTag (tag : String) (line : Nat)
  | startEndTag (tag : String) (line : Nat)
  | endTag (tag : String) (line : Nat)
  deriving DecidableEq, Repr

/-- `_StructureParser`; the element opened last comes first. -/
structure StructureParser where
  problems : List Problem := []
  stack : List (String × Nat) := []
  deriving DecidableEq, Repr

def stillOpen (tag : String) (line : Nat) (opened : String × Nat) : Problem where
  line := opened.2
  message := "<" ++ opened.1 ++ "> opened on line " ++ toString opened.2 ++
    " is still open where </" ++ tag ++ "> closes on line " ++ toString line ++ "."

def closesNothing (tag : String) (line : Nat) : Problem where
  line := line
  message := "</" ++ tag ++ "> on line " ++ toString line ++ " closes nothing that is open."

def neverClosed (opened : String × Nat) : Problem where
  line := opened.2
  message := "<" ++ opened.1 ++ "> opened on line " ++ toString opened.2 ++ " is never closed."

/-- The innermost open element of a name: what is open inside it and what is around it. -/
def findOpen (tag : String) :
    List (String × Nat) → Option (List (String × Nat) × List (String × Nat))
  | [] => none
  | opened :: rest =>
    if opened.1 = tag then some ([], rest)
    else (findOpen tag rest).map fun (above, below) => (opened :: above, below)

namespace StructureParser

def handleStartTag (parser : StructureParser) (tag : String) (line : Nat) : StructureParser :=
  if tag ∈ voidElements then parser
  else { parser with stack := (tag, line) :: parser.stack }

def handleEndTag (parser : StructureParser) (tag : String) (line : Nat) : StructureParser :=
  if tag ∈ voidElements then parser
  else
    match findOpen tag parser.stack with
    | some (above, below) =>
      -- all above the match is closed implicitly
      { problems := parser.problems ++
          ((above.reverse.filter (·.1 ∉ optionalEnd)).map (stillOpen tag line))
        stack := below }
    | none =>
      if tag ∈ optionalEnd then parser
      else { parser with problems := parser.problems ++ [closesNothing tag line] }

def handle (parser : StructureParser) : TagReport → StructureParser
  | .startTag tag line => parser.handleStartTag tag line
  | .startEndTag _ _ => parser
  | .endTag tag line => parser.handleEndTag tag line

def feed (parser : StructureParser) (reports : List TagReport) : StructureParser :=
  reports.foldl handle parser

def finish (parser : StructureParser) : List Problem :=
  sortedBy (fun p => toLex (p.line, p.message)) (parser.problems ++
    (parser.stack.reverse.filter (·.1 ∉ optionalEnd)).map neverClosed)

end StructureParser

/-- `check_html`, for a parser that reports the tags of a text or fails on it. -/
def checkHtml (parse : String → Option (List TagReport)) (html : String) : List Problem :=
  match parse html with
  | some reports => (StructureParser.feed {} reports).finish
  | none => []

/-- The faults as instructions for whoever has to fix them. -/
def describeProblems (problems : List Problem) (html : Option String) : String :=
  if problems = [] then "No structural problems found."
  else
    let source := (html.map splitAtNewlines).getD []
    let quoted := fun (p : Problem) =>
      match p.line with
      | 0 => []
      | n + 1 =>
        (source[n]?).toList.map fun text =>
          "    that line reads: " ++ String.ofList (strip text.toList)
    joinLines (("Found " ++ toString problems.length ++ " structural problem(s):") ::
      problems.flatMap fun p => ("- " ++ p.message) :: quoted p)

/-! ### What the check is for -/

/-- The tag of an element that has to be closed. -/
def IsRequired (tag : String) : Prop :=
  tag ∉ voidElements ∧ tag ∉ optionalEnd

instance (tag : String) : Decidable (IsRequired tag) :=
  inferInstanceAs (Decidable (_ ∧ _))

/-- The required tags, as marks. -/
def requiredMark : TagReport → Option (Mark String)
  | .startTag tag _ => if IsRequired tag then some (.opening tag) else none
  | .startEndTag _ _ => none
  | .endTag tag _ => if IsRequired tag then some (.closing tag) else none

/-- An end tag closes the innermost open element of its name and all that is inside it. -/
def closeElement (tag : String) (opened : List String) : List String :=
  if tag ∈ opened then (opened.dropWhile (· ≠ tag)).tail else opened

/-- The elements open after one more tag, the innermost first. -/
def openAfter (opened : List String) : TagReport → List String
  | .startTag tag _ => if tag ∈ voidElements then opened else tag :: opened
  | .startEndTag _ _ => opened
  | .endTag tag _ => if tag ∈ voidElements then opened else closeElement tag opened

/-- The elements open after a sequence of tags, the innermost first. -/
def openElements (reports : List TagReport) : List String :=
  reports.foldl openAfter []

/-- No end tag of an optional element closes a required one that is open inside it. -/
def OptionalEndsFit (reports : List TagReport) : Prop :=
  ∀ before tag line after, reports = before ++ .endTag tag line :: after → tag ∈ optionalEnd →
    ∀ inside outside, openElements before = inside ++ tag :: outside → tag ∉ inside →
      ∀ other ∈ inside, other ∈ optionalEnd

/-- The tags of a document in which every element is closed, except that optional end tags may
be left out. -/
inductive OmitsOptionalEnds : List TagReport → Prop where
  | nil : OmitsOptionalEnds []
  | selfClosing (tag : String) (line : Nat) {rest : List TagReport} : OmitsOptionalEnds rest →
      OmitsOptionalEnds (.startEndTag tag line :: rest)
  | void (tag : String) (line : Nat) {rest : List TagReport} : tag ∈ voidElements →
      OmitsOptionalEnds rest → OmitsOptionalEnds (.startTag tag line :: rest)
  | element (tag : String) (first last : Nat) {inside rest : List TagReport} :
      tag ∉ voidElements → OmitsOptionalEnds inside → OmitsOptionalEnds rest →
      OmitsOptionalEnds (.startTag tag first :: inside ++ .endTag tag last :: rest)
  | unclosed (tag : String) (line : Nat) {rest : List TagReport} : tag ∈ optionalEnd →
      OmitsOptionalEnds rest → OmitsOptionalEnds (.startTag tag line :: rest)

theorem not_void_of_optional : ∀ tag ∈ optionalEnd, tag ∉ voidElements := by
  decide

/-! ### The innermost element of a name -/

section
variable {tag : String} {inside outside : List String}

private theorem takeWhile_inside (outermost : tag ∉ inside) :
    (inside ++ tag :: outside).takeWhile (· ≠ tag) = inside := by
  induction inside with
  | nil => simp
  | cons other rest ih =>
    rw [List.mem_cons, not_or] at outermost
    simpa [Ne.symm outermost.1] using ih outermost.2

private theorem dropWhile_inside (outermost : tag ∉ inside) :
    (inside ++ tag :: outside).dropWhile (· ≠ tag) = tag :: outside := by
  have whole := List.takeWhile_append_dropWhile (p := (· ≠ tag)) (l := inside ++ tag :: outside)
  rw [takeWhile_inside outermost] at whole
  exact List.append_cancel_left whole

theorem closeElement_inside (outermost : tag ∉ inside) :
    closeElement tag (inside ++ tag :: outside) = outside := by
  rw [closeElement, if_pos (by simp), dropWhile_inside outermost, List.tail_cons]

end

theorem findOpen_some {tag : String} {stack above below : List (String × Nat)}
    (found : findOpen tag stack = some (above, below)) :
    ∃ line, stack = above ++ (tag, line) :: below ∧ tag ∉ above.map Prod.fst := by
  induction stack generalizing above with
  | nil => cases found
  | cons opened rest ih =>
    rw [findOpen] at found
    split at found
    next same =>
      cases found
      exact ⟨opened.2, by rw [← same]; rfl, by simp⟩
    next other =>
      obtain ⟨⟨inner, outer⟩, later, same⟩ := Option.map_eq_some_iff.mp found
      cases same
      obtain ⟨line, rfl, absent⟩ := ih later
      exact ⟨line, rfl, by simpa [Ne.symm other] using absent⟩

theorem findOpen_none {tag : String} {stack : List (String × Nat)}
    (missing : findOpen tag stack = none) : tag ∉ stack.map Prod.fst := by
  induction stack with
  | nil => simp
  | cons opened rest ih =>
    rw [findOpen] at missing
    split at missing
    next => cases missing
    next other =>
      have absent := ih (Option.map_eq_none_iff.mp missing)
      simpa [Ne.symm other] using absent

/-! ### One tag -/

/-- The open required elements, the innermost first. -/
def pending (opened : List String) : List String :=
  opened.filter (· ∉ optionalEnd)

/-- A tag that the check has nothing to say about. -/
def Silent (opened : List String) : TagReport → Prop
  | .endTag tag _ => tag ∈ voidElements ∨
      (∃ inside outside, opened = inside ++ tag :: outside ∧ tag ∉ inside ∧
        ∀ other ∈ inside, other ∈ optionalEnd) ∨
      (tag ∉ opened ∧ tag ∈ optionalEnd)
  | _ => True

/-- An optional end tag closes no required element that is open inside. -/
def EndFits (opened : List String) (report : TagReport) : Prop :=
  ∀ tag line, report = .endTag tag line → tag ∈ optionalEnd →
    ∀ inside outside, opened = inside ++ tag :: outside → tag ∉ inside →
      ∀ other ∈ inside, other ∈ optionalEnd

theorem pending_of_optional {inside : List String} (optional : ∀ tag ∈ inside, tag ∈ optionalEnd)
    (outside : List String) : pending (inside ++ outside) = pending outside := by
  have none_ : inside.filter (· ∉ optionalEnd) = [] := by
    simpa [List.filter_eq_nil_iff] using optional
  rw [pending, List.filter_append, none_, List.nil_append, pending]

theorem pending_cons_optional {tag : String} (optional : tag ∈ optionalEnd)
    (opened : List String) : pending (tag :: opened) = pending opened := by
  simp [pending, optional]

theorem pending_cons_required {tag : String} (required : tag ∉ optionalEnd)
    (opened : List String) : pending (tag :: opened) = tag :: pending opened := by
  simp [pending, required]

namespace StructureParser

/-- The names of the open elements. -/
def names (parser : StructureParser) : List String :=
  parser.stack.map Prod.fst

theorem names_handle (parser : StructureParser) (report : TagReport) :
    (parser.handle report).names = openAfter parser.names report := by
  cases report with
  | startTag tag line =>
    simp only [handle, handleStartTag, openAfter]
    split <;> rfl
  | startEndTag tag line => rfl
  | endTag tag line =>
    simp only [handle, handleEndTag, openAfter]
    split
    next => rfl
    next =>
      cases found : findOpen tag parser.stack with
      | some parts =>
        obtain ⟨opened, whole, innermost⟩ := findOpen_some found
        have same : parser.names = parts.1.map Prod.fst ++ tag :: parts.2.map Prod.fst := by
          rw [names, whole, List.map_append, List.map_cons]
        rw [same, closeElement_inside innermost]
        rfl
      | none =>
        have absent : tag ∉ parser.names := findOpen_none found
        rw [closeElement, if_neg absent]
        dsimp only
        split <;> rfl

/-- A tag adds a problem unless the check has nothing to say about it. -/
theorem handle_silent_iff (parser : StructureParser) (report : TagReport) :
    (parser.handle report).problems = [] ↔
      parser.problems = [] ∧ Silent parser.names report := by
  cases report with
  | startTag tag line =>
    simp only [handle, handleStartTag, Silent, and_true]
    split <;> rfl
  | startEndTag tag line => simp [handle, Silent]
  | endTag tag line =>
    simp only [handle, handleEndTag, Silent]
    split
    next void => simp [void]
    next notVoid =>
      cases found : findOpen tag parser.stack with
      | some parts =>
        obtain ⟨above, below⟩ := parts
        -- what is closed on the way must be an element whose end may be left out
        obtain ⟨opened, whole, innermost⟩ := findOpen_some found
        have names_eq : parser.names = above.map Prod.fst ++ tag :: below.map Prod.fst := by
          rw [names, whole, List.map_append, List.map_cons]
        have member : tag ∈ parser.names := by simp [names_eq]
        have unreported : (((above.reverse.filter (·.1 ∉ optionalEnd)).map
            (stillOpen tag line)) = []) ↔ ∀ other ∈ above.map Prod.fst, other ∈ optionalEnd := by
          simp [List.filter_eq_nil_iff]
        simp only [List.append_eq_nil_iff, notVoid, member, not_true_eq_false, false_and,
          or_false, false_or]
        refine and_congr_right fun _ => unreported.trans ?_
        constructor
        · exact fun optional => ⟨_, _, names_eq, innermost, optional⟩
        · rintro ⟨inside, outside, same, absent, optional⟩
          have parts := congrArg (List.takeWhile (· ≠ tag)) (names_eq.symm.trans same)
          rw [takeWhile_inside innermost, takeWhile_inside absent] at parts
          rwa [parts]
      | none =>
        have absent : tag ∉ parser.names := findOpen_none found
        have closed : ¬∃ inside outside, parser.names = inside ++ tag :: outside ∧
            tag ∉ inside ∧ ∀ other ∈ inside, other ∈ optionalEnd := by
          rintro ⟨inside, outside, same, -⟩
          exact absent (by simp [same])
        by_cases optional : tag ∈ optionalEnd
        · simp [optional, absent]
        · simp only [optional, notVoid, closed, if_false, List.append_eq_nil_iff, and_false,
            or_false, List.cons_ne_nil]

end StructureParser

/-- A silent tag does to the required elements what its mark does. -/
theorem unwind_of_silent {opened : List String} {report : TagReport}
    (silent : Silent opened report) (marks : List (Mark String)) :
    unwind (pending opened) ((requiredMark report).toList ++ marks) =
      unwind (pending (openAfter opened report)) marks := by
  cases report with
  | startTag tag line =>
    simp only [requiredMark, openAfter, IsRequired]
    by_cases void : tag ∈ voidElements
    · simp [void]
    · by_cases optional : tag ∈ optionalEnd
      · simp [void, optional, pending_cons_optional]
      · simp [void, optional, pending_cons_required, unwind]
  | startEndTag tag line => rfl
  | endTag tag line =>
    simp only [requiredMark, openAfter, IsRequired]
    rcases silent with void | ⟨inside, outside, rfl, innermost, allOptional⟩ | ⟨absent, optional⟩
    · simp [void]
    · rw [closeElement_inside innermost, pending_of_optional allOptional]
      by_cases void : tag ∈ voidElements
      · simp [void, pending_of_optional allOptional]
      · by_cases optional : tag ∈ optionalEnd
        · simp [void, optional, pending_cons_optional]
        · simp [void, optional, pending_cons_required, unwind]
    · simp [optional, closeElement, absent]

theorem endFits_of_silent {opened : List String} {report : TagReport}
    (silent : Silent opened report) : EndFits opened report := by
  rintro tag line rfl optional inside outside rfl innermost
  rcases silent with void | ⟨inside', outside', same, innermost', allOptional⟩ | ⟨absent, -⟩
  · exact absurd void (not_void_of_optional tag optional)
  · have parts := congrArg (List.takeWhile (· ≠ tag)) same
    rw [takeWhile_inside innermost, takeWhile_inside innermost'] at parts
    rwa [parts]
  · exact absurd (by simp) absent

/-- The innermost required element is not `tag` when an element of this name has another one
open inside, or is not open at all. -/
private theorem unwind_closing {opened : List String} {tag : String}
    (other : ∀ rest, pending opened ≠ tag :: rest) (marks : List (Mark String)) :
    unwind (pending opened) (.closing tag :: marks) = none := by
  cases required : pending opened with
  | nil => rfl
  | cons top rest =>
    have different : top ≠ tag := by
      rintro rfl
      exact other rest required
    rw [unwind, if_neg different]

theorem unwind_of_not_silent {opened : List String} {report : TagReport}
    (noted : ¬Silent opened report) (fits : EndFits opened report) (marks : List (Mark String)) :
    unwind (pending opened) ((requiredMark report).toList ++ marks) = none := by
  cases report with
  | startTag tag line => exact absurd trivial noted
  | startEndTag tag line => exact absurd trivial noted
  | endTag tag line =>
    rw [Silent, not_or, not_or] at noted
    obtain ⟨notVoid, unfit, unmatched⟩ := noted
    have required : tag ∉ optionalEnd := by
      intro optional
      by_cases member : tag ∈ opened
      · obtain ⟨inside, outside, same, innermost⟩ := List.eq_append_cons_of_mem member
        exact unfit ⟨inside, outside, same, innermost,
          fits tag line rfl optional inside outside same innermost⟩
      · exact unmatched ⟨member, optional⟩
    have mark : requiredMark (.endTag tag line) = some (.closing tag) :=
      if_pos ⟨notVoid, required⟩
    rw [mark]
    refine unwind_closing (fun rest same => unfit ?_) marks
    -- the innermost required element is the match: what is open inside it is optional
    obtain ⟨inside, outside, whole, before, -, after⟩ := List.filter_eq_cons_iff.mp same
    refine ⟨inside, outside, whole, ?_, ?_⟩
    · intro member
      exact before tag member (by simpa using required)
    · intro other member
      simpa using before other member

/-! ### A sequence of tags -/

/-- `OptionalEndsFit`, for tags that follow when some elements are open. -/
def FitsFrom (opened : List String) (reports : List TagReport) : Prop :=
  ∀ before tag line after, reports = before ++ .endTag tag line :: after → tag ∈ optionalEnd →
    ∀ inside outside, before.foldl openAfter opened = inside ++ tag :: outside → tag ∉ inside →
      ∀ other ∈ inside, other ∈ optionalEnd

theorem fitsFrom_nil (opened : List String) : FitsFrom opened [] := by
  intro before tag line after whole
  exact absurd whole.symm (by simp)

theorem fitsFrom_cons (opened : List String) (report : TagReport) (rest : List TagReport) :
    FitsFrom opened (report :: rest) ↔
      EndFits opened report ∧ FitsFrom (openAfter opened report) rest := by
  constructor
  · intro fits
    constructor
    · rintro tag line rfl
      exact fits [] tag line rest rfl
    · rintro before tag line after rfl
      exact fits (report :: before) tag line after rfl
  · rintro ⟨first, later⟩ before tag line after whole
    cases before with
    | nil =>
      obtain ⟨rfl, rfl⟩ := List.cons.inj whole
      exact first tag line rfl
    | cons head before =>
      obtain ⟨rfl, rfl⟩ := List.cons.inj whole
      exact later before tag line after rfl

private theorem filterMap_cons_append (report : TagReport) (rest : List TagReport) :
    (report :: rest).filterMap requiredMark =
      (requiredMark report).toList ++ rest.filterMap requiredMark := by
  cases mark : requiredMark report <;> simp [mark]

namespace StructureParser

/-- A run that ends with nothing to report, as the marks of the required tags see it. -/
theorem feed_silent_iff (parser : StructureParser) (reports : List TagReport) :
    ((parser.feed reports).problems = [] ∧ pending (parser.feed reports).names = []) ↔
      parser.problems = [] ∧
        unwind (pending parser.names) (reports.filterMap requiredMark) = some [] ∧
        FitsFrom parser.names reports := by
  induction reports generalizing parser with
  | nil => simp [feed, unwind, fitsFrom_nil]
  | cons report rest ih =>
    rw [feed, List.foldl_cons, ← feed, ih, handle_silent_iff, names_handle,
      filterMap_cons_append, fitsFrom_cons]
    by_cases silent : Silent parser.names report
    · have fits := endFits_of_silent silent
      rw [unwind_of_silent silent]
      simp only [silent, fits, and_true, true_and]
    · -- what the check notes here, the marks or the end tag itself betray
      constructor
      · rintro ⟨⟨-, said⟩, -⟩
        exact absurd said silent
      · rintro ⟨-, read, fits, -⟩
        rw [unwind_of_not_silent silent fits] at read
        cases read

theorem finish_eq_nil_iff (parser : StructureParser) :
    parser.finish = [] ↔ parser.problems = [] ∧ pending parser.names = [] := by
  have sorted := sortedBy_perm (fun p : Problem => toLex (p.line, p.message)) (parser.problems ++
    (parser.stack.reverse.filter (·.1 ∉ optionalEnd)).map neverClosed)
  rw [finish, ← List.perm_nil, sorted.congr_left, List.perm_nil]
  simp [pending, names, List.filter_eq_nil_iff]

/-- The end tag of an element, when what is still open inside it is optional. -/
private theorem endTag_over (tag : String) (line : Nat) (notVoid : tag ∉ voidElements)
    {left : List String} (allOptional : ∀ other ∈ left, other ∈ optionalEnd)
    (outside : List String) :
    Silent (left ++ tag :: outside) (.endTag tag line) ∧
      ∃ left', (∀ other ∈ left', other ∈ optionalEnd) ∧
        openAfter (left ++ tag :: outside) (.endTag tag line) = left' ++ outside := by
  simp only [openAfter, if_neg notVoid]
  by_cases member : tag ∈ left
  · -- an element of this name inside is closed instead, and this one stays open
    obtain ⟨inner, outer, rfl, innermost⟩ := List.eq_append_cons_of_mem member
    rw [List.append_assoc, List.cons_append]
    refine ⟨.inr (.inl ⟨inner, _, rfl, innermost, fun other within =>
      allOptional other (by simp [within])⟩), outer ++ [tag], ?_, ?_⟩
    · intro other within
      rcases List.mem_append.mp within with outside' | itself
      · exact allOptional other (by simp [outside'])
      · exact allOptional other (by simp [List.mem_singleton.mp itself])
    · rw [closeElement_inside innermost, List.append_assoc]
      rfl
  · exact ⟨.inr (.inl ⟨left, outside, rfl, member, allOptional⟩), [], by simp,
      by rw [closeElement_inside member, List.nil_append]⟩

/-- A part whose optional ends may be missing leaves optional elements open, and no more. -/
theorem feed_of_omits {reports : List TagReport} (document : OmitsOptionalEnds reports)
    (parser : StructureParser) (clean : parser.problems = []) :
    (parser.feed reports).problems = [] ∧ ∃ left, (∀ tag ∈ left, tag ∈ optionalEnd) ∧
      (parser.feed reports).names = left ++ parser.names := by
  induction document generalizing parser with
  | nil => exact ⟨clean, [], by simp, rfl⟩
  | selfClosing tag line _ ih => exact ih parser clean
  | void tag line void _ ih =>
    have same : parser.handle (.startTag tag line) = parser := if_pos void
    rw [feed, List.foldl_cons, same]
    exact ih parser clean
  | unclosed tag line optional _ ih =>
    have opened : parser.handle (.startTag tag line) =
        { parser with stack := (tag, line) :: parser.stack } :=
      if_neg (not_void_of_optional tag optional)
    rw [feed, List.foldl_cons, opened]
    obtain ⟨quiet, left, allOptional, names_eq⟩ :=
      ih { parser with stack := (tag, line) :: parser.stack } clean
    refine ⟨quiet, left ++ [tag], ?_, ?_⟩
    · simpa [or_imp, forall_and] using ⟨allOptional, optional⟩
    · rw [List.append_assoc]
      exact names_eq
  | @element tag first last inside rest notVoid _ _ inner outer =>
    have opened : parser.handle (.startTag tag first) =
        { parser with stack := (tag, first) :: parser.stack } := if_neg notVoid
    obtain ⟨quiet, left, allOptional, names_eq⟩ :=
      inner { parser with stack := (tag, first) :: parser.stack } clean
    rw [feed, List.cons_append, List.foldl_cons, opened, List.foldl_append, List.foldl_cons,
      ← feed, ← feed]
    obtain ⟨silent, left', allOptional', closed⟩ :=
      endTag_over tag last notVoid allOptional parser.names
    obtain ⟨quiet', left'', allOptional'', names_eq'⟩ := outer _
      ((handle_silent_iff _ (.endTag tag last)).mpr ⟨quiet, by rw [names_eq]; exact silent⟩)
    refine ⟨quiet', left'' ++ left', ?_, ?_⟩
    · simpa [or_imp, forall_and] using ⟨allOptional'', allOptional'⟩
    · rw [names_eq', names_handle, names_eq, List.append_assoc]
      exact congrArg (left'' ++ ·) closed

end StructureParser

/-- The check is silent exactly when the required tags nest and no optional end tag closes a
required element; documents that leave out optional end tags are never reported. -/
theorem checkHtml_silent_iff (parse : String → Option (List TagReport)) (html : String)
    (reports : List TagReport) (parsed : parse html = some reports) :
    (checkHtml parse html = [] ↔
      Nested (reports.filterMap requiredMark) ∧ OptionalEndsFit reports) ∧
    (OmitsOptionalEnds reports → checkHtml parse html = []) := by
  have checked : checkHtml parse html = (StructureParser.feed {} reports).finish := by
    rw [checkHtml, parsed]
  rw [checked, StructureParser.finish_eq_nil_iff]
  constructor
  · rw [StructureParser.feed_silent_iff, nested_iff_unwind]
    exact ⟨fun ⟨_, read, fits⟩ => ⟨read, fits⟩, fun ⟨read, fits⟩ => ⟨rfl, read, fits⟩⟩
  · intro document
    obtain ⟨quiet, left, allOptional, names_eq⟩ :=
      StructureParser.feed_of_omits document {} rfl
    have closed : pending ((StructureParser.feed {} reports).names) = [] := by
      rw [names_eq, pending_of_optional allOptional]
      rfl
    exact ⟨quiet, closed⟩

/-- A list whose items are not closed passes; a paragraph that closes over a division does not. -/
theorem checkHtml_silent_iff_list :
    (checkHtml (fun _ => some [.startTag "ul" 1, .startTag "li" 1, .startTag "br" 1,
        .startTag "li" 2, .endTag "ul" 3]) "<ul><li><br>\n<li>\n</ul>" = []) ∧
      checkHtml (fun _ => some [.startTag "p" 1, .startTag "div" 1, .endTag "p" 1,
        .endTag "div" 1]) "<p><div></p></div>" ≠ [] := by
  constructor
  · have items : OmitsOptionalEnds [.startTag "li" 1, .startTag "br" 1, .startTag "li" 2] :=
      .unclosed "li" 1 (by decide) (.void "br" 1 (by decide)
        (.unclosed "li" 2 (by decide) .nil))
    exact (checkHtml_silent_iff _ _ _ rfl).2 (.element "ul" 1 3 (by decide) items .nil)
  · intro silent
    have fits := ((checkHtml_silent_iff _ _ _ rfl).1.mp silent).2
    have optional := fits [.startTag "p" 1, .startTag "div" 1] "p" 1 [.endTag "div" 1] rfl
      (by decide) ["div"] [] (by decide) (by decide) "div" (by decide)
    revert optional
    decide

end MegooPM
