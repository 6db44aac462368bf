import MegooPM.Lib.Locations

/-!
# Inheritance between levels

A tree as its reader stores it, every word read. A location, at any depth, inherits of what
is in force around it whatever it says nothing about. An `if` or a `limit_except` inside a
location is no location of its own: it goes on with what its location says, its own words
first.
-/
namespace MegooPM.Lib

namespace Node

/-! ### Stored words -/

mutual

/-- An item with its words as they are stored. -/
def store : Node → Node
  | .comment lead text => .comment lead text
  | .directive lead words => .directive lead (words.map readWord)
  | .block lead words body close => .block lead (words.map readWord) (storeAll body) close
  | .verbatim lead text => .verbatim lead text

def storeAll : List Node → List Node
  | [] => []
  | n :: rest => store n :: storeAll rest

end

section Store

variable (lead text : String)

@[simp] theorem store_comment : store (.comment lead text) = .comment lead text := by rfl

@[simp] theorem store_directive (words : List String) :
    store (.directive lead words) = .directive lead (words.map readWord) := by rfl

@[simp] theorem store_block (words : List String) (body : List Node) (close : String) :
    store (.block lead words body close) =
      .block lead (words.map readWord) (storeAll body) close := by rfl

@[simp] theorem store_verbatim : store (.verbatim lead text) = .verbatim lead text := by rfl

@[simp] theorem storeAll_nil : storeAll [] = [] := by rfl

@[simp] theorem storeAll_cons (n : Node) (rest : List Node) :
    storeAll (n :: rest) = store n :: storeAll rest := by rfl

end Store

@[simp] theorem storeAll_append (left right : List Node) :
    storeAll (left ++ right) = storeAll left ++ storeAll right := by
  induction left with
  | nil => rfl
  | cons n rest ih => simp only [List.cons_append, storeAll_cons, ih]

mutual

/-- The names in an item are plain words, and so is what stands between the name of a
`location` and its last word: reading changes none of them. -/
def Named : Node → Prop
  | .comment _ _ => True
  | .directive _ words => ∀ w ∈ words.head?, PlainWord w
  | .block _ words body _ => (∀ w ∈ words.head?, PlainWord w) ∧
    (words.head? = some "location" → ∀ w ∈ words.tail.dropLast, PlainWord w) ∧ AllNamed body
  | .verbatim _ _ => True

def AllNamed : List Node → Prop
  | [] => True
  | n :: rest => Named n ∧ AllNamed rest

end

section Named

variable (lead text word : String) (args : List String)

@[simp] theorem named_comment : Named (.comment lead text) := by trivial

@[simp] theorem named_verbatim : Named (.verbatim lead text) := by trivial

@[simp] theorem named_directive : Named (.directive lead (word :: args)) ↔ PlainWord word := by
  simp only [Named, List.head?_cons, Option.mem_some_iff, forall_eq']

@[simp] theorem named_block (body : List Node) (close : String) :
    Named (.block lead (word :: args) body close) ↔ PlainWord word ∧
      (word = "location" → ∀ w ∈ args.dropLast, PlainWord w) ∧ AllNamed body := by
  simp only [Named, List.head?_cons, Option.mem_some_iff, forall_eq', Option.some.injEq,
    List.tail_cons]

@[simp] theorem allNamed_nil : AllNamed [] := by trivial

@[simp] theorem allNamed_cons (n : Node) (rest : List Node) :
    AllNamed (n :: rest) ↔ Named n ∧ AllNamed rest := by rfl

end Named

@[simp] theorem allNamed_append (left right : List Node) :
    AllNamed (left ++ right) ↔ AllNamed left ∧ AllNamed right := by
  induction left with
  | nil => simp
  | cons n rest ih => simp only [List.cons_append, allNamed_cons, ih, and_assoc]

theorem allNamed_map {α : Type} (items : List α) (f : α → Node) :
    AllNamed (items.map f) ↔ ∀ a ∈ items, Named (f a) := by
  induction items with
  | nil => simp
  | cons a rest ih => simp [ih]

theorem allNamed_flatMap {α : Type} (items : List α) (f : α → List Node) :
    AllNamed (items.flatMap f) ↔ ∀ a ∈ items, AllNamed (f a) := by
  induction items with
  | nil => simp
  | cons a rest ih => simp [ih]

/-- Reading a level leaves the names of its directives. -/
theorem own_storeAll (name : String) {nodes : List Node} (named : AllNamed nodes) :
    own name (storeAll nodes) = (own name nodes).map (List.map readWord) := by
  induction nodes with
  | nil => rfl
  | cons n rest ih =>
    rw [allNamed_cons] at named
    cases n with
    | directive lead words =>
      cases words with
      | nil => exact ih named.2
      | cons w args =>
        have kept := readWord_plain ((named_directive lead w args).mp named.1)
        simp only [storeAll_cons, store_directive, List.map_cons, kept, own_directive, ih named.2]
        split <;> rfl
    | comment | block | verbatim => exact ih named.2

end Node

/-- A location with its words as they are stored. -/
def Location.stored (l : Location) : Location :=
  ⟨l.kind, readWord l.name, Node.storeAll l.body⟩

private theorem readLocation_stored {args : List String}
    (plain : ∀ w ∈ args.dropLast, PlainWord w) : readLocation (args.map readWord) =
      (readLocation args).map fun read => (read.1, readWord read.2) := by
  match args, plain with
  | [], _ => rfl
  | [name], _ => rfl
  | [modifier, name], plain =>
    have kept := readWord_plain (plain modifier (List.mem_singleton_self _))
    simp only [List.map_cons, List.map_nil, kept, readLocation]
    cases MatchKind.ofWord modifier <;> rfl
  | _ :: _ :: _ :: _, _ => rfl

/-- Reading a level leaves its locations. -/
theorem locations_storeAll {nodes : List Node} (named : Node.AllNamed nodes) :
    locations (Node.storeAll nodes) = (locations nodes).map Location.stored := by
  induction nodes with
  | nil => rfl
  | cons n rest ih =>
    rw [Node.allNamed_cons] at named
    cases n with
    | block lead words body close =>
      cases words with
      | nil => exact ih named.2
      | cons w args =>
        obtain ⟨plain, spaced, _⟩ := (Node.named_block lead w args body close).mp named.1
        simp only [Node.storeAll_cons, Node.store_block, List.map_cons, readWord_plain plain,
          locations_block, ih named.2, List.map_append]
        split
        next location =>
          rw [readLocation_stored (spaced location)]
          cases readLocation args <;> rfl
        next => rfl
    | directive | comment | verbatim => exact ih named.2

theorem allNamed_location {nodes : List Node} (named : Node.AllNamed nodes) {l : Location}
    (member : l ∈ locations nodes) : Node.AllNamed l.body := by
  induction nodes with
  | nil => cases member
  | cons n rest ih =>
    rw [Node.allNamed_cons] at named
    cases n with
    | block lead words body close =>
      cases words with
      | nil => exact ih named.2 member
      | cons w args =>
        obtain ⟨_, _, inner⟩ := (Node.named_block lead w args body close).mp named.1
        rw [locations_block, List.mem_append] at member
        rcases member with here | later
        · split at here
          · obtain ⟨read, _, rfl⟩ := Option.map_eq_some_iff.mp (Option.mem_toList.mp here)
            exact inner
          · cases here
        · exact ih named.2 later
    | directive | comment | verbatim => exact ih named.2 member

/-! ### What is said, and what is in force -/

/-- The argument words of the directives of one name. -/
abbrev Words := String → List (List String)

/-- A location, or a block that goes on with one: what it says, and what is in force around. -/
structure Level where
  said : Words
  around : Words

/-- A level has all of what is in force around it, or nothing. -/
def Level.inForce (l : Level) : Words := fun name =>
  if l.said name = [] then l.around name else l.said name

theorem Level.inForce_inherited {l : Level} {name : String} (silent : l.said name = []) :
    l.inForce name = l.around name :=
  if_pos silent

theorem Level.inForce_said {l : Level} {name : String} (some_ : l.said name ≠ []) :
    l.inForce name = l.said name :=
  if_neg some_

/-- The location of these items inside the level. -/
def Level.location (l : Level) (body : List Node) : Level :=
  ⟨fun name => Node.own name body, l.inForce⟩

/-- The level, with what a block inside it says. -/
def Level.goingOn (l : Level) (body : List Node) : Level :=
  ⟨fun name => if Node.own name body = [] then l.said name else Node.own name body, l.around⟩

theorem Level.said_goingOn {l : Level} {body : List Node} {name : String}
    (silent : Node.own name body = []) : (l.goingOn body).said name = l.said name :=
  if_pos silent

/-! ### Levels inside a level -/

inductive Opens where
  | location
  /-- An `if`, or a `limit_except`. -/
  | goesOn
  deriving DecidableEq

/-- What a block opens inside a location, by its words. -/
def opens? : List String → Option Opens
  | "location" :: args => (readLocation args).map fun _ => .location
  | "if" :: _ => some .goesOn
  | "limit_except" :: _ => some .goesOn
  | _ => none

/-- The level a block opens inside another. -/
def Opens.level (l : Level) (body : List Node) : Opens → Level
  | .location => l.location body
  | .goesOn => l.goingOn body

namespace Node

mutual

/-- The levels an item of a location opens, at any depth. -/
def opened (l : Level) : Node → List Level
  | .block _ words body _ =>
    match opens? words with
    | some opens => opens.level l body :: openedAll (opens.level l body) body
    | none => []
  | _ => []

def openedAll (l : Level) : List Node → List Level
  | [] => []
  | n :: rest => opened l n ++ openedAll l rest

end

section Opened

variable (l : Level) (lead text : String) (rest : List Node)

@[simp] theorem openedAll_nil : openedAll l [] = [] := by rfl

@[simp] theorem openedAll_comment :
    openedAll l (.comment lead text :: rest) = openedAll l rest := by rfl

@[simp] theorem openedAll_verbatim :
    openedAll l (.verbatim lead text :: rest) = openedAll l rest := by rfl

@[simp] theorem openedAll_directive (words : List String) :
    openedAll l (.directive lead words :: rest) = openedAll l rest := by rfl

@[simp] theorem openedAll_if (args : List String) (body : List Node) (close : String) :
    openedAll l (.block lead ("if" :: args) body close :: rest) =
      l.goingOn body :: openedAll (l.goingOn body) body ++ openedAll l rest := by rfl

end Opened

@[simp] theorem openedAll_append (l : Level) (left right : List Node) :
    openedAll l (left ++ right) = openedAll l left ++ openedAll l right := by
  induction left with
  | nil => rfl
  | cons n rest ih => simp only [List.cons_append, openedAll, ih, List.append_assoc]

end Node

/-- A location of a level where `around` is in force. -/
def Location.level (around : Words) (l : Location) : Level :=
  ⟨fun name => Node.own name l.body, around⟩

/-- The location and all that it opens. -/
def Location.levels (around : Words) (l : Location) : List Level :=
  l.level around :: Node.openedAll (l.level around) l.body

/-- The locations of a server block at any depth, and what they open. -/
def levels (around : Words) (server : List Node) : List Level :=
  (locations server).flatMap (Location.levels around)

theorem levels_append (around : Words) (left right : List Node) :
    levels around (left ++ right) = levels around left ++ levels around right := by
  simp only [levels, locations_append, List.flatMap_append]

/-- Text with plain names, and other text behind it. -/
theorem forall_levels_storeAll {P : Level → Prop} (around : Words) {block : List Node}
    (named : Node.AllNamed block) (more : List Node) :
    (∀ l ∈ levels around (Node.storeAll (block ++ more)), P l) ↔
      (∀ l ∈ locations block, ∀ inner ∈ l.stored.levels around, P inner) ∧
      ∀ l ∈ levels around (Node.storeAll more), P l := by
  rw [Node.storeAll_append, levels_append, List.forall_mem_append, levels, locations_storeAll named]
  simp only [List.flatMap_map, List.forall_mem_flatMap]

/-! ### Locations that stay as they are -/

/-- Nothing inside the location says anything about these names. -/
def Location.Steady (names : List String) (l : Location) : Prop :=
  ∀ around, ∀ inner ∈ l.levels around,
    (∀ name ∈ names, inner.said name = Node.own name l.body) ∧ inner.around = around

/-- A location without blocks. -/
theorem Location.steady_of_none {names : List String} {l : Location}
    (none_ : ∀ level, Node.openedAll level l.body = []) : l.Steady names := by
  intro around inner member
  rw [Location.levels, none_, List.mem_singleton] at member
  subst member
  exact ⟨fun _ _ => rfl, rfl⟩

/-- A location with one block that goes on with it and says none of these. -/
theorem Location.steady_of_one {names : List String} {l : Location} {body : List Node}
    (one : ∀ level, Node.openedAll level l.body = [level.goingOn body])
    (silent : ∀ name ∈ names, Node.own name body = []) : l.Steady names := by
  intro around inner member
  rw [Location.levels, one] at member
  simp only [List.mem_cons, List.not_mem_nil, or_false] at member
  rcases member with rfl | rfl
  · exact ⟨fun _ _ => rfl, rfl⟩
  · exact ⟨fun name known => Level.said_goingOn (silent name known), rfl⟩

/-- What is true of a level by what it says under these names is true of all that a steady
location opens when it is true of the location. -/
theorem Location.Steady.forall_levels {names : List String} {l : Location}
    (steady : l.Steady names) {P : Level → Prop}
    (weighs : ∀ a b : Level, (∀ name ∈ names, a.said name = b.said name) →
      a.around = b.around → P a → P b) (around : Words) :
    (∀ inner ∈ l.levels around, P inner) ↔ P (l.level around) := by
  constructor
  · exact fun all => all _ (List.mem_cons_self ..)
  · intro first inner member
    obtain ⟨said, same⟩ := steady around inner member
    exact weighs _ _ (fun name known => (said name known).symm) same.symm first

end MegooPM.Lib
