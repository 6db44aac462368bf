import MegooPM.Lib.Text

/-!
# Configuration trees

A configuration file as a tree of comments, directives and blocks, each with the
blank text printed in front of it. `print` gives the bytes of the file; the
directives and blocks of a tree can be collected at any depth.
-/
namespace MegooPM.Lib

/-- One item of a configuration file. `lead` is the white space before it. -/
inductive Node where
  /-- `# text` -/
  | comment (lead text : String)
  /-- `word word ... word;` -/
  | directive (lead : String) (words : List String)
  /-- A braced block: the words before the brace, the items inside, and the white
  space before the closing brace. -/
  | block (lead : String) (words : List String) (body : List Node) (close : String)
  /-- Text copied as it is. -/
  | verbatim (lead text : String)

namespace Node

mutual

/-- The bytes of one item. -/
def print : Node → String
  | .comment lead text => lead ++ "# " ++ text
  | .directive lead words => lead ++ " ".intercalate words ++ ";"
  | .block lead words body close =>
    lead ++ " ".intercalate words ++ " \x7b" ++ printAll body ++ close ++ "\x7d"
  | .verbatim lead text => lead ++ text

/-- The bytes of a sequence of items. -/
def printAll : List Node → String
  | [] => ""
  | n :: rest => print n ++ printAll rest

end

@[simp] theorem printAll_append (left right : List Node) :
    printAll (left ++ right) = printAll left ++ printAll right := by
  induction left with
  | nil => simp [printAll]
  | cons n rest ih => simp [printAll, ih, String.append_assoc]

/-! ### Trees with a hole -/

theorem framed_comment (lead text : String) :
    Framed fun x => printAll [.comment lead (text ++ x)] := by
  refine ⟨lead ++ "# " ++ text, "", fun x => ?_⟩
  simp only [printAll, print, String.append_assoc, String.append_empty]

theorem framed_append_left {f : String → List Node} (framed : Framed fun x => printAll (f x))
    (nodes : List Node) : Framed fun x => printAll (nodes ++ f x) := by
  simp only [printAll_append]
  exact framed.prepend _

theorem framed_append_right {f : String → List Node} (framed : Framed fun x => printAll (f x))
    (nodes : List Node) : Framed fun x => printAll (f x ++ nodes) := by
  simp only [printAll_append]
  exact framed.append _

theorem framed_block {f : String → List Node} (framed : Framed fun x => printAll (f x))
    (lead : String) (words : List String) (close : String) :
    Framed fun x => printAll [.block lead words (f x) close] := by
  simp only [printAll, print]
  exact (((framed.prepend _).append _).append _).append _

mutual

/-- Every text an item is printed from. -/
def texts : Node → List String
  | .comment lead text => [lead, text]
  | .directive lead words => lead :: words
  | .block lead words body close => lead :: close :: (words ++ allTexts body)
  | .verbatim lead text => [lead, text]

def allTexts : List Node → List String
  | [] => []
  | n :: rest => texts n ++ allTexts rest

end

mutual

private theorem noCarriageReturn_print (n : Node) (clean : ∀ t ∈ texts n, NoCarriageReturn t) :
    NoCarriageReturn (print n) := by
  cases n with
  | comment lead text =>
    simp only [texts, List.forall_mem_cons] at clean
    simp only [print, noCarriageReturn_append]
    exact ⟨⟨clean.1, by decide⟩, clean.2.1⟩
  | directive lead words =>
    simp only [texts, List.forall_mem_cons] at clean
    simp only [print, noCarriageReturn_append]
    exact ⟨⟨clean.1, noCarriageReturn_intercalate (by decide) clean.2⟩, by decide⟩
  | block lead words body close =>
    simp only [texts, List.forall_mem_cons, List.forall_mem_append] at clean
    simp only [print, noCarriageReturn_append]
    have inner := noCarriageReturn_printAll body clean.2.2.2
    have blank : NoCarriageReturn " " := by decide
    have head := noCarriageReturn_intercalate blank clean.2.2.1
    exact ⟨⟨⟨⟨⟨clean.1, head⟩, by decide⟩, inner⟩, clean.2.1⟩, by decide⟩
  | verbatim lead text =>
    simp only [texts, List.forall_mem_cons] at clean
    simp only [print, noCarriageReturn_append]
    exact ⟨clean.1, clean.2.1⟩

/-- A tree made of texts without carriage returns prints without them. -/
theorem noCarriageReturn_printAll (nodes : List Node)
    (clean : ∀ t ∈ allTexts nodes, NoCarriageReturn t) : NoCarriageReturn (printAll nodes) := by
  cases nodes with
  | nil =>
    simp only [printAll]
    decide
  | cons n rest =>
    simp only [allTexts, List.forall_mem_append] at clean
    simp only [printAll, noCarriageReturn_append]
    exact ⟨noCarriageReturn_print n clean.1, noCarriageReturn_printAll rest clean.2⟩

end

mutual

/-- The argument words of every directive called `name`, at any depth. -/
def directives (name : String) : Node → List (List String)
  | .comment _ _ => []
  | .directive _ words =>
    match words with
    | [] => []
    | w :: args => if w = name then [args] else []
  | .block _ _ body _ => allDirectives name body
  | .verbatim _ _ => []

def allDirectives (name : String) : List Node → List (List String)
  | [] => []
  | n :: rest => directives name n ++ allDirectives name rest

end

section Directives

variable (name lead text : String)

@[simp] theorem directives_comment : directives name (.comment lead text) = [] := by rfl

@[simp] theorem directives_verbatim : directives name (.verbatim lead text) = [] := by rfl

@[simp] theorem directives_directive (word : String) (args : List String) :
    directives name (.directive lead (word :: args)) = if word = name then [args] else [] := by rfl

@[simp] theorem directives_block (words : List String) (body : List Node) (close : String) :
    directives name (.block lead words body close) = allDirectives name body := by rfl

@[simp] theorem allDirectives_nil : allDirectives name [] = [] := by rfl

@[simp] theorem allDirectives_cons (n : Node) (rest : List Node) :
    allDirectives name (n :: rest) = directives name n ++ allDirectives name rest := by rfl

end Directives

@[simp] theorem allDirectives_append (name : String) (left right : List Node) :
    allDirectives name (left ++ right) = allDirectives name left ++ allDirectives name right := by
  induction left with
  | nil => simp
  | cons n rest ih => simp [ih, List.append_assoc]

theorem allDirectives_flatMap {α : Type} (name : String) (items : List α) (f : α → List Node) :
    allDirectives name (items.flatMap f) = items.flatMap fun a => allDirectives name (f a) := by
  induction items with
  | nil => simp
  | cons a rest ih => simp [List.flatMap_cons, ih]

theorem allDirectives_map {α : Type} (name : String) (items : List α) (f : α → Node) :
    allDirectives name (items.map f) = items.flatMap fun a => directives name (f a) := by
  induction items with
  | nil => simp
  | cons a rest ih => simp [List.flatMap_cons, ih]

/-- The top-level blocks called `name`: their argument words and their items. -/
def blocks (name : String) : List Node → List (List String × List Node)
  | [] => []
  | .block _ (w :: args) body _ :: rest =>
    if w = name then (args, body) :: blocks name rest else blocks name rest
  | _ :: rest => blocks name rest

section Blocks

variable (name lead text : String) (rest : List Node)

@[simp] theorem blocks_nil : blocks name [] = [] := rfl

@[simp] theorem blocks_comment : blocks name (.comment lead text :: rest) = blocks name rest := rfl

@[simp] theorem blocks_directive (words : List String) :
    blocks name (.directive lead words :: rest) = blocks name rest := rfl

@[simp] theorem blocks_verbatim : blocks name (.verbatim lead text :: rest) = blocks name rest := rfl

@[simp] theorem blocks_block (word : String) (args : List String) (body : List Node)
    (close : String) : blocks name (.block lead (word :: args) body close :: rest) =
      if word = name then (args, body) :: blocks name rest else blocks name rest := rfl

end Blocks

@[simp] theorem blocks_append (name : String) (left right : List Node) :
    blocks name (left ++ right) = blocks name left ++ blocks name right := by
  induction left with
  | nil => simp [blocks]
  | cons n rest ih =>
    cases n with
    | block lead words body close =>
      cases words with
      | nil => simpa [blocks] using ih
      | cons w args =>
        simp only [List.cons_append, blocks, ih]
        split <;> rfl
    | _ => simpa [blocks] using ih

end Node

end MegooPM.Lib
