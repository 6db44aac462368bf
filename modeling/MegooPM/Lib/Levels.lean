import MegooPM.Lib.ConfTree

/-!
# Levels of a configuration

A configuration is read with its included files in place of their `include` lines, and
with whatever stands in the text it copies as it is. What a level says itself is what
stands outside its blocks. A directive that may be given several times is inherited whole
or not at all: a level with one of its own has none of those around it.
-/
namespace MegooPM.Lib

/-- What a tree is read with: the contents of the files it includes, and the items that
stand in text copied as it is. -/
structure Sources where
  files : String → List Node
  raw : String → List Node

namespace Node

/-! ### Reading the included files -/

mutual

/-- An item with what it includes in its place. -/
def expandNode (src : Sources) : Node → List Node
  | .comment lead text => [.comment lead text]
  | .directive lead words =>
    if words.head? = some "include" then words.tail.flatMap src.files
    else [.directive lead words]
  | .block lead words body close => [.block lead words (expand src body) close]
  | .verbatim _ text => src.raw text

def expand (src : Sources) : List Node → List Node
  | [] => []
  | n :: rest => expandNode src n ++ expand src rest

end

section Expand

variable (src : Sources) (lead text : String)

@[simp] theorem expandNode_comment : expandNode src (.comment lead text) = [.comment lead text] := by
  rfl

@[simp] theorem expandNode_verbatim : expandNode src (.verbatim lead text) = src.raw text := by
  rfl

@[simp] theorem expandNode_block (words : List String) (body : List Node) (close : String) :
    expandNode src (.block lead words body close) =
      [.block lead words (expand src body) close] := by
  rfl

@[simp] theorem expandNode_directive (word : String) (args : List String) :
    expandNode src (.directive lead (word :: args)) =
      if word = "include" then args.flatMap src.files else [.directive lead (word :: args)] := by
  simp only [expandNode, List.head?_cons, List.tail_cons, Option.some.injEq]

@[simp] theorem expand_nil : expand src [] = [] := by rfl

@[simp] theorem expand_cons (n : Node) (rest : List Node) :
    expand src (n :: rest) = expandNode src n ++ expand src rest := by
  rfl

end Expand

@[simp] theorem expand_append (src : Sources) (left right : List Node) :
    expand src (left ++ right) = expand src left ++ expand src right := by
  induction left with
  | nil => rfl
  | cons n rest ih => simp only [List.cons_append, expand_cons, ih, List.append_assoc]

theorem expand_flatMap {α : Type} (src : Sources) (items : List α) (f : α → List Node) :
    expand src (items.flatMap f) = items.flatMap fun a => expand src (f a) := by
  induction items with
  | nil => rfl
  | cons a rest ih => simp only [List.flatMap_cons, expand_append, ih]

/-! ### One level -/

/-- The argument words of the directives called `name` at this level. -/
def own (name : String) : List Node → List (List String)
  | [] => []
  | .directive _ (w :: args) :: rest => if w = name then args :: own name rest else own name rest
  | _ :: rest => own name rest

section Own

variable (name lead text : String) (rest : List Node)

@[simp] theorem own_nil : own name [] = [] := rfl

@[simp] theorem own_comment : own name (.comment lead text :: rest) = own name rest := rfl

@[simp] theorem own_verbatim : own name (.verbatim lead text :: rest) = own name rest := rfl

@[simp] theorem own_block (words : List String) (body : List Node) (close : String) :
    own name (.block lead words body close :: rest) = own name rest := rfl

@[simp] theorem own_directive (word : String) (args : List String) :
    own name (.directive lead (word :: args) :: rest) =
      if word = name then args :: own name rest else own name rest := rfl

end Own

@[simp] theorem own_append (name : String) (left right : List Node) :
    own name (left ++ right) = own name left ++ own name right := by
  induction left with
  | nil => rfl
  | cons n rest ih =>
    cases n with
    | directive lead words =>
      cases words with
      | nil => simpa only [List.cons_append, own] using ih
      | cons w args =>
        simp only [List.cons_append, own_directive, ih]
        split <;> rfl
    | _ => simpa only [List.cons_append, own] using ih

theorem own_flatMap {α : Type} (name : String) (items : List α) (f : α → List Node) :
    own name (items.flatMap f) = items.flatMap fun a => own name (f a) := by
  induction items with
  | nil => rfl
  | cons a rest ih => simp only [List.flatMap_cons, own_append, ih]

theorem own_map {α : Type} (name : String) (items : List α) (f : α → Node) :
    own name (items.map f) = items.flatMap fun a => own name [f a] := by
  rw [← List.flatMap_singleton' (items.map f), List.flatMap_map, own_flatMap]

/-- What is in force at a level inside one where `outer` is. -/
def inForce (name : String) (outer : List (List String)) (nodes : List Node) :
    List (List String) :=
  if own name nodes = [] then outer else own name nodes

theorem inForce_inherited {name : String} {nodes : List Node} (none_ : own name nodes = [])
    (outer : List (List String)) : inForce name outer nodes = outer :=
  if_pos none_

theorem inForce_own {name : String} {nodes : List Node} (some_ : own name nodes ≠ [])
    (outer : List (List String)) : inForce name outer nodes = own name nodes :=
  if_neg some_

/-- The items of a block. -/
def body : Node → List Node
  | .block _ _ body _ => body
  | _ => []

@[simp] theorem body_block (lead : String) (words : List String) (items : List Node)
    (close : String) : body (.block lead words items close) = items := rfl

@[simp] theorem body_comment (lead text : String) : body (.comment lead text) = [] := rfl

@[simp] theorem body_directive (lead : String) (words : List String) :
    body (.directive lead words) = [] := rfl

end Node

end MegooPM.Lib
