import MegooPM.Lib.ConfTree

/-!
# What a configuration refers to

The files a tree of nginx configuration names. `include` and `auth_basic_user_file` give
their path. A document is looked up under the `root` in force: `try_files` names the
candidates, its last argument being the fallback, and an exact location serves the file of
its own URI. `error_page` redirects to a URI. The lines of a `geo` block are no directives,
`include` apart.
-/
namespace MegooPM.Lib

/-- A file by its path, or a URI another location answers. -/
inductive Reference where
  | file (path : String)
  | uri (uri : String)
  deriving DecidableEq

namespace Node

/-- The roots set at one level of a tree. -/
def ownRoots : List Node → List String
  | [] => []
  | n :: rest =>
    match n with
    | .directive _ ["root", path] => path :: ownRoots rest
    | _ => ownRoots rest

/-- The root in force at a level inside `outer`. -/
def rootAt (outer : String) (nodes : List Node) : String :=
  ((ownRoots nodes).head?).getD outer

/-- The URI of an exact location. -/
def exactUri : List String → List String
  | ["location", "=", uri] => [uri]
  | _ => []

/-- What a directive refers to where `root` is in force. -/
def directiveLinks (root word : String) (args : List String) : List Reference :=
  if word = "include" ∨ word = "auth_basic_user_file" then args.map .file
  else if word = "try_files" then args.dropLast.map fun uri => .file (root ++ uri)
  else if word = "error_page" then args.getLast?.toList.map .uri
  else []

mutual

def links (root : String) : Node → List Reference
  | .directive _ (word :: args) => directiveLinks root word args
  | .block _ words body _ =>
    if words.head? = some "geo" then (allDirectives "include" body).flatten.map .file
    else (exactUri words).map (fun uri => .file (rootAt root body ++ uri)) ++
      allLinks (rootAt root body) body
  | _ => []

def allLinks (root : String) : List Node → List Reference
  | [] => []
  | n :: rest => links root n ++ allLinks root rest

end

/-- Everything a file refers to; no root is in force around it. -/
def fileLinks (nodes : List Node) : List Reference :=
  allLinks (rootAt "" nodes) nodes

section Items

variable (root lead text : String)

@[simp] theorem links_comment : links root (.comment lead text) = [] := by rfl

@[simp] theorem links_verbatim : links root (.verbatim lead text) = [] := by rfl

@[simp] theorem links_directive (word : String) (args : List String) :
    links root (.directive lead (word :: args)) = directiveLinks root word args := by rfl

@[simp] theorem links_block (words : List String) (body : List Node) (close : String) :
    links root (.block lead words body close) =
      if words.head? = some "geo" then (allDirectives "include" body).flatten.map .file
      else (exactUri words).map (fun uri => .file (rootAt root body ++ uri)) ++
        allLinks (rootAt root body) body := by rfl

@[simp] theorem allLinks_nil : allLinks root [] = [] := by rfl

@[simp] theorem allLinks_cons (n : Node) (rest : List Node) :
    allLinks root (n :: rest) = links root n ++ allLinks root rest := by rfl

end Items

example : fileLinks [.block "" ["location", "=", "/x"] [.directive "" ["root", "/srv"],
    .directive "" ["include", "/a.conf"]] ""] = [.file "/srv/x", .file "/a.conf"] := by
  simp [fileLinks, rootAt, ownRoots, exactUri, directiveLinks]

@[simp] theorem allLinks_append (root : String) (left right : List Node) :
    allLinks root (left ++ right) = allLinks root left ++ allLinks root right := by
  induction left with
  | nil => simp
  | cons n rest ih => simp [ih, List.append_assoc]

theorem allLinks_flatMap {α : Type} (root : String) (items : List α) (f : α → List Node) :
    allLinks root (items.flatMap f) = items.flatMap fun a => allLinks root (f a) := by
  induction items with
  | nil => simp
  | cons a rest ih => simp [List.flatMap_cons, ih]

theorem allLinks_map {α : Type} (root : String) (items : List α) (f : α → Node) :
    allLinks root (items.map f) = items.flatMap fun a => links root (f a) := by
  induction items with
  | nil => simp
  | cons a rest ih => simp [List.flatMap_cons, ih]

@[simp] theorem ownRoots_append (left right : List Node) :
    ownRoots (left ++ right) = ownRoots left ++ ownRoots right := by
  induction left with
  | nil => simp [ownRoots]
  | cons n rest ih =>
    simp only [List.cons_append, ownRoots]
    split
    · rw [ih, List.cons_append]
    · exact ih

/-- The root of a level that sets one. -/
theorem rootAt_of_ownRoots {nodes : List Node} {path : String} (own : ownRoots nodes = [path])
    (outer : String) : rootAt outer nodes = path := by
  simp only [rootAt, own, List.head?_cons, Option.getD_some]

end Node

end MegooPM.Lib
