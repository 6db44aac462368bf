import MegooPM.Lib.Levels
import MegooPM.Lib.Lexer
import Mathlib.Data.List.Nodup

/-!
# Locations

The `location` blocks of one level: how each compares its name with the path of a request,
and the name as the reader stores it, its escapes resolved. The exact names and the
inclusive ones are kept apart, and in either list a name may stand once; regular
expressions are tried in turn and never compared with each other.
-/
namespace MegooPM.Lib

/-! ### Words -/

/-- A backslash in front of a quote or of another backslash goes, and three letters stand
for white space behind one. -/
def unescape : List Char → List Char
  | '\\' :: c :: rest =>
    if c = '"' ∨ c = '\'' ∨ c = '\\' then c :: unescape rest
    else if c = 't' then '\t' :: unescape rest
    else if c = 'r' then '\r' :: unescape rest
    else if c = 'n' then '\n' :: unescape rest
    else '\\' :: c :: unescape rest
  | c :: rest => c :: unescape rest
  | [] => []

/-- What is stored for a word that was read: what its quotes hold, without its escapes. -/
def stored (word : List Char) : List Char :=
  if word.head? = some '"' ∨ word.head? = some '\'' then unescape word.tail.dropLast
  else unescape word

/-- What a printed word is stored as when a blank and a brace follow it. A backslash at its
end takes the blank. -/
def readWord (text : String) : String :=
  match LexState.between.tokens (text.toList ++ [' ', '\x7b']) with
  | .word word :: _ => String.ofList (stored word)
  | _ => text

theorem unescape_cons {c : Char} (plain : c ≠ '\\') (rest : List Char) :
    unescape (c :: rest) = c :: unescape rest := by
  rw [unescape]
  exact fun _ _ same _ => plain same

theorem unescape_plain {text : List Char} (plain : '\\' ∉ text) : unescape text = text := by
  induction text with
  | nil => rfl
  | cons c rest ih =>
    simp only [List.mem_cons, not_or] at plain
    rw [unescape_cons (Ne.symm plain.1), ih plain.2]

/-- Unescaping adds white space and nothing else. -/
theorem mem_unescape {text : List Char} {c : Char} (member : c ∈ unescape text) :
    c ∈ text ∨ c ∈ ['\t', '\r', '\n'] := by
  fun_induction unescape text with
  | case7 => cases member
  | case6 d rest _ ih =>
    rcases List.mem_cons.mp member with rfl | later
    · exact Or.inl (List.mem_cons_self ..)
    · exact (ih later).imp_left (List.mem_cons_of_mem _)
  | case1 d rest _ ih =>
    rcases List.mem_cons.mp member with rfl | later
    · exact Or.inl (by simp)
    · exact (ih later).imp_left fun inside => by simp [inside]
  | case5 d rest _ _ _ _ ih =>
    rcases List.mem_cons.mp member with rfl | later
    · exact Or.inl (by simp)
    · rcases List.mem_cons.mp later with rfl | later
      · exact Or.inl (by simp)
      · exact (ih later).imp_left fun inside => by simp [inside]
  | case2 rest _ ih | case3 rest _ _ ih | case4 rest _ _ _ ih =>
    rcases List.mem_cons.mp member with rfl | later
    · exact Or.inr (by simp)
    · exact (ih later).imp_left fun inside => by simp [inside]

theorem mem_stored {word : List Char} {c : Char} (member : c ∈ stored word) :
    c ∈ word ∨ c ∈ ['\t', '\r', '\n'] := by
  rw [stored] at member
  split at member
  · refine (mem_unescape member).imp_left fun inside => ?_
    exact List.mem_of_mem_tail (List.dropLast_subset _ inside)
  · exact mem_unescape member

/-- An escape stands for at least one character. -/
theorem unescape_ne_nil {text : List Char} (some_ : text ≠ []) : unescape text ≠ [] := by
  cases text with
  | nil => exact absurd rfl some_
  | cons c rest =>
    unfold unescape
    split
    · repeat' split
      all_goals exact List.cons_ne_nil _ _
    next same => exact List.cons_ne_nil _ _
    next same => cases same

private theorem readWord_tokens {text : String} {word : List Char} {more : List Token}
    (read : LexState.between.tokens (text.toList ++ [' ', '\x7b']) = .word word :: more) :
    readWord text = String.ofList (stored word) := by
  rw [readWord, read]

/-- A word of characters that end none is read to its end, and with the blank behind it when
it ends in a backslash. -/
theorem tokens_unended {c : Char} {rest : List Char} (first : plainChar c = true)
    (goes : ∀ d ∈ rest, endsWord d = false) :
    ∃ tail more, LexState.between.tokens (c :: rest ++ [' ', '\x7b']) =
      .word (c :: tail) :: more ∧ (tail = rest ∨ tail = rest ++ [' ']) := by
  -- nothing in the word ends it; at its end a backslash may be pending
  have scanned : ∀ text : List Char, (∀ d ∈ text, endsWord d = false) → ∀ e,
      ∃ e', scan endsWord e text = some e' := by
    intro text free
    induction text with
    | nil => exact fun e => ⟨e, rfl⟩
    | cons d tail ih =>
      intro e
      have tailFree := fun d member => free d (List.mem_cons_of_mem _ member)
      cases e with
      | true => exact ih tailFree false
      | false =>
        simp only [scan, free d (List.mem_cons_self ..), Bool.false_eq_true, if_false]
        exact ih tailFree _
  obtain ⟨e, last⟩ := scanned rest goes false
  simp only [plainChar, Bool.and_eq_true, Bool.not_eq_true', decide_eq_true_eq] at first
  have begins : LexState.between.step c = ([], .inWord [c] false) := by
    have none_ : delimiter? c = none := by
      simpa only [endsWord, Option.isSome_eq_false_iff, Option.isNone_iff_eq_none] using
        first.1.1.1.1
    simp only [LexState.step, none_, first.1.1.1.2, first.1.1.2, first.1.2, first.2, if_false,
      or_self, decide_false]
  have ran := (LexState.run_inWord [c] rest false).1 e last
  rw [List.cons_append, LexState.tokens_cons, begins, List.nil_append, LexState.tokens_append, ran,
    List.nil_append]
  cases e with
  | false => exact ⟨rest, [.opens], rfl, Or.inl rfl⟩
  | true =>
    refine ⟨rest ++ [' '], [.opens], ?_, Or.inr rfl⟩
    simp only [LexState.tokens, LexState.run, LexState.step, delimiter?, List.append_assoc,
      LexState.finish, List.cons_append, List.nil_append, List.append_nil]
    rfl

/-- A word that goes on behind a plain character goes on as it is stored. -/
theorem readWord_continued {text : String} {c : Char} {rest : List Char}
    (whole : text.toList = c :: rest) (first : plainChar c = true)
    (goes : ∀ d ∈ rest, endsWord d = false) (some_ : rest ≠ []) :
    ∃ tail, (readWord text).toList = c :: tail ∧ tail ≠ [] := by
  obtain ⟨tail, more, read, spelled⟩ := tokens_unended first goes
  rw [← whole] at read
  simp only [plainChar, Bool.and_eq_true, Bool.not_eq_true', decide_eq_true_eq] at first
  have bare : stored (c :: tail) = c :: unescape tail := by
    rw [stored, if_neg, unescape_cons first.2]
    simp only [List.head?_cons, Option.some.injEq, first.1.1.2, first.1.2, or_self,
      not_false_eq_true]
  refine ⟨unescape tail, ?_, unescape_ne_nil ?_⟩
  · rw [readWord_tokens read, String.toList_ofList, bare]
  · rcases spelled with rfl | rfl
    · exact some_
    · exact List.append_ne_nil_of_right_ne_nil _ (List.cons_ne_nil _ _)

/-- A plain word is stored as it stands. -/
theorem readWord_plain {word : String} (plain : PlainWord word) : readWord word = word := by
  obtain ⟨c, rest, whole⟩ := List.exists_cons_of_ne_nil plain.some
  have free : ∀ d ∈ word.toList, d ≠ '\\' ∧ d ≠ '"' ∧ d ≠ '\'' := by
    intro d member
    have known := plain.plain d member
    simp only [plainChar, Bool.and_eq_true, Bool.not_eq_true', decide_eq_true_eq] at known
    exact ⟨known.2, known.1.1.2, known.1.2⟩
  have single : argumentTokens word.toList = [.word word.toList] := by
    rw [argumentTokens, if_neg]
    rintro ⟨quote, _⟩
    rw [whole] at quote free
    exact (free c (List.mem_cons_self ..)).2.1 (Option.some.inj quote)
  have read := (tokens_word_iff word (show delimiter? ' ' = some [] by decide) ['\x7b'] _).mpr
    ⟨plain.isArgument, rfl⟩
  rw [single] at read
  rw [readWord_tokens read, stored, if_neg, unescape_plain, String.ofList_toList]
  · exact fun member => (free _ member).1 rfl
  · rw [whole] at free ⊢
    have begins := free c (List.mem_cons_self ..)
    simp only [List.head?_cons, Option.some.injEq, begins.2.1, begins.2.2, or_self,
      not_false_eq_true]

/-! ### Locations of a level -/

inductive MatchKind where
  /-- `= name` -/
  | exact
  /-- `name`, or `^~ name`, which keeps the regular expressions from being tried. -/
  | inclusive (final : Bool)
  /-- `~ name`, or `~* name`, which reads capitals and small letters alike. -/
  | regex (caseless : Bool)
  deriving DecidableEq, Repr

structure Location where
  kind : MatchKind
  name : String
  body : List Node

/-- The modifier in front of a name. -/
def MatchKind.ofWord (word : String) : Option MatchKind :=
  if word = "=" then some .exact
  else if word = "^~" then some (.inclusive true)
  else if word = "~" then some (.regex false)
  else if word = "~*" then some (.regex true)
  else none

/-- The arguments of a `location`. A modifier is a word of its own here. -/
def readLocation : List String → Option (MatchKind × String)
  | [name] => some (.inclusive false, readWord name)
  | [modifier, name] => (MatchKind.ofWord modifier).map fun kind => (kind, readWord name)
  | _ => none

def locations (level : List Node) : List Location :=
  (Node.blocks "location" level).filterMap fun block =>
    (readLocation block.1).map fun read => ⟨read.1, read.2, block.2⟩

@[simp] theorem locations_nil : locations [] = [] := rfl

@[simp] theorem locations_append (left right : List Node) :
    locations (left ++ right) = locations left ++ locations right := by
  simp only [locations, Node.blocks_append, List.filterMap_append]

theorem locations_flatMap {α : Type} (items : List α) (f : α → List Node) :
    locations (items.flatMap f) = items.flatMap fun a => locations (f a) := by
  induction items with
  | nil => rfl
  | cons a rest ih => simp only [List.flatMap_cons, locations_append, ih]

section Reading

variable (lead text name : String) (rest : List Node)

@[simp] theorem readLocation_bare : readLocation [name] = some (.inclusive false, readWord name) :=
  rfl

@[simp] theorem readLocation_exact : readLocation ["=", name] = some (.exact, readWord name) := rfl

@[simp] theorem readLocation_final :
    readLocation ["^~", name] = some (.inclusive true, readWord name) := rfl

@[simp] theorem readLocation_caseless :
    readLocation ["~*", name] = some (.regex true, readWord name) := rfl

@[simp] theorem locations_comment : locations (.comment lead text :: rest) = locations rest := rfl

@[simp] theorem locations_directive (words : List String) :
    locations (.directive lead words :: rest) = locations rest := rfl

/-- The location a block is, and the rest of its level. -/
@[simp] theorem locations_block (word : String) (args : List String) (body : List Node)
    (close : String) : locations (.block lead (word :: args) body close :: rest) =
      (if word = "location" then
        ((readLocation args).map fun read => Location.mk read.1 read.2 body).toList
      else []) ++ locations rest := by
  simp only [locations, Node.blocks_block]
  by_cases named : word = "location"
  · simp only [named, if_true, List.filterMap_cons]
    cases readLocation args with
    | none => rfl
    | some read => rfl
  · simp only [named, if_false, List.nil_append]

end Reading

/-! ### Duplicates -/

/-- The list a location is kept in: exact names, inclusive names, or none. -/
def MatchKind.isExact? : MatchKind → Option Bool
  | .exact => some true
  | .inclusive _ => some false
  | .regex _ => none

/-- What may stand once at a level. -/
def Location.key (l : Location) : Option (Bool × String) :=
  l.kind.isExact?.map fun exact => (exact, l.name)

/-- The reader refuses these two at one level. -/
def Location.Duplicates (a b : Location) : Prop :=
  a.kind.isExact?.isSome = true ∧ a.kind.isExact? = b.kind.isExact? ∧ a.name = b.name

instance (a b : Location) : Decidable (a.Duplicates b) :=
  inferInstanceAs (Decidable (_ ∧ _ ∧ _))

def NoDuplicates (ls : List Location) : Prop :=
  ls.Pairwise fun a b => ¬ a.Duplicates b

instance (ls : List Location) : Decidable (NoDuplicates ls) :=
  inferInstanceAs (Decidable (ls.Pairwise _))

theorem Location.duplicates_iff (a b : Location) :
    a.Duplicates b ↔ ∃ key, a.key = some key ∧ b.key = some key := by
  simp only [Duplicates, key]
  constructor
  · rintro ⟨static, same, named⟩
    obtain ⟨exact, kept⟩ := Option.isSome_iff_exists.mp static
    exact ⟨(exact, a.name), by rw [kept, Option.map_some],
      by rw [← same, kept, Option.map_some, named]⟩
  · rintro ⟨key, left, right⟩
    obtain ⟨exact, kept, rfl⟩ := Option.map_eq_some_iff.mp left
    obtain ⟨exact', kept', same⟩ := Option.map_eq_some_iff.mp right
    obtain ⟨rfl, named⟩ := Prod.mk.inj same
    exact ⟨by rw [kept]; rfl, by rw [kept, kept'], named.symm⟩

/-- No two locations are duplicates exactly when no key stands twice. -/
theorem noDuplicates_iff (ls : List Location) :
    NoDuplicates ls ↔ (ls.filterMap Location.key).Nodup := by
  rw [List.Nodup, List.pairwise_filterMap, NoDuplicates]
  have agree : ∀ a b : Location, ¬ a.Duplicates b ↔
      ∀ x, a.key = some x → ∀ y, b.key = some y → x ≠ y := by
    intro a b
    rw [Location.duplicates_iff]
    constructor
    · rintro apart x left y right rfl
      exact apart ⟨x, left, right⟩
    · rintro apart ⟨key, left, right⟩
      exact apart key left key right rfl
  simp only [agree]

end MegooPM.Lib
