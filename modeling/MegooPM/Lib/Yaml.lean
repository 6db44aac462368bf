import MegooPM.Lib.Json
import Mathlib

/-!
# Block-style YAML

A reader of the part of YAML 1.2 that programs write: a stream of documents behind `---`, block
mappings with plain keys, block sequences of scalars, double-quoted scalars on one line, and
comments. Whatever else a text holds is refused.
-/
namespace MegooPM.Lib

local instance lawfulKeys : LawfulBEq (List Char) := inferInstance

inductive Yaml where
  | null
  /-- a quoted scalar, which no schema takes for anything but a string -/
  | text (s : List Char)
  | mapping (entries : List (List Char × Yaml))
  | sequence (items : List Yaml)

/-! ### Scalars -/

/-- What a backslash and this character stand for. -/
def yamlEscape : Char → Option Char
  | '0' => some '\x00'
  | 'a' => some '\x07'
  | 'b' => some '\x08'
  | 't' => some '\t'
  | '\t' => some '\t'
  | 'n' => some '\n'
  | 'v' => some '\x0b'
  | 'f' => some '\x0c'
  | 'r' => some '\r'
  | 'e' => some '\x1b'
  | ' ' => some ' '
  | '\"' => some '\"'
  | '/' => some '/'
  | '\\' => some '\\'
  | 'N' => some '\x85'
  | '_' => some '\xa0'
  | 'L' => some '\u2028'
  | 'P' => some '\u2029'
  | _ => none

/-- The character with this number. A surrogate is none. -/
def charOf (n : Nat) : Option Char :=
  if n.isValidChar then some (Char.ofNat n) else none

/-- A double-quoted scalar past its opening quote, and what follows the closing one. -/
def readDoubleQuoted : List Char → Option (List Char × List Char)
  | [] => none
  | '\"' :: rest => some ([], rest)
  | '\\' :: 'x' :: a :: b :: rest => do
    let c ← charOf (← fourHex '0' '0' a b)
    let (s, rest) ← readDoubleQuoted rest
    return (c :: s, rest)
  | '\\' :: 'u' :: a :: b :: c :: d :: rest => do
    let c ← charOf (← fourHex a b c d)
    let (s, rest) ← readDoubleQuoted rest
    return (c :: s, rest)
  | '\\' :: 'U' :: a :: b :: c :: d :: e :: f :: g :: h :: rest => do
    let c ← charOf ((← fourHex a b c d) * 0x10000 + (← fourHex e f g h))
    let (s, rest) ← readDoubleQuoted rest
    return (c :: s, rest)
  | '\\' :: e :: rest => do
    let c ← yamlEscape e
    let (s, rest) ← readDoubleQuoted rest
    return (c :: s, rest)
  | c :: rest =>
    if c = '\t' ∨ 0x20 ≤ c.toNat then do
      let (s, rest) ← readDoubleQuoted rest
      return (c :: s, rest)
    else none

def isYamlBlank (c : Char) : Bool :=
  c == ' ' || c == '\t'

/-- Nothing but blanks, and a comment that a blank sets off. -/
def endsLine (text : List Char) : Bool :=
  match text.dropWhile isYamlBlank with
  | [] => true
  | c :: _ => c == '#' && text.head?.any isYamlBlank

/-- A scalar that takes the rest of its line. -/
def readScalar : List Char → Option Yaml
  | '\"' :: rest => do
    let (s, rest) ← readDoubleQuoted rest
    if endsLine rest then some (.text s) else none
  | _ => none

/-! ### Lines -/

structure YamlLine where
  indent : Nat
  body : List Char

def yamlLine (text : List Char) : YamlLine where
  indent := (text.takeWhile (· == ' ')).length
  body := text.dropWhile (· == ' ')

/-- The entry of a sequence. -/
def YamlLine.isItem (line : YamlLine) : Bool :=
  line.body.take 2 == ['-', ' ']

/-- Plain keys that the core schema does not take for a string. -/
def reservedKeys : List (List Char) :=
  ["null", "Null", "NULL", "true", "True", "TRUE", "false", "False", "FALSE"].map String.toList

def isKeyChar (c : Char) : Bool :=
  c.isAlphanum || c == '_' || c == '-'

/-- A plain key and what follows its colon. -/
def splitKey (body : List Char) : Option (List Char × List Char) :=
  let key := body.takeWhile isKeyChar
  let rest := body.dropWhile isKeyChar
  if key.head?.any Char.isAlpha ∧ key ∉ reservedKeys ∧ rest.head? = some ':' ∧
      rest.tail.head?.all (· == ' ') then
    some (key, rest.tail.dropWhile (· == ' '))
  else none

/-! ### Nodes -/

/-- The entries of a sequence with this indentation, and the lines below. -/
def readItems (indent : Nat) : List YamlLine → Option (List Yaml × List YamlLine)
  | [] => some ([], [])
  | line :: rest =>
    if line.indent = indent ∧ line.isItem then do
      let item ← readScalar ((line.body.drop 2).dropWhile (· == ' '))
      let (items, rest) ← readItems indent rest
      return (item :: items, rest)
    else if indent < line.indent then none
    else some ([], line :: rest)

/-- A sequence may stand as far left as the key it belongs to, any other node not. -/
def leastIndent (indent : Nat) (below : List YamlLine) : Nat :=
  match below with
  | line :: _ => if line.indent = indent ∧ line.isItem then indent else indent + 1
  | [] => indent + 1

mutual

/-- The node on the lines from here on that are indented at least so far. -/
def readNode : Nat → Nat → List YamlLine → Option (Yaml × List YamlLine)
  | 0, _, _ => none
  | _ + 1, _, [] => some (.null, [])
  | fuel + 1, least, line :: rest =>
    if line.indent < least then some (.null, line :: rest)
    else if line.isItem then do
      let (items, rest) ← readItems line.indent (line :: rest)
      return (.sequence items, rest)
    else do
      let (entries, rest) ← readEntries fuel line.indent (line :: rest)
      return (.mapping entries, rest)

/-- The entries of a mapping with this indentation, and the lines below. -/
def readEntries : Nat → Nat → List YamlLine → Option (List (List Char × Yaml) × List YamlLine)
  | 0, _, _ => none
  | _ + 1, _, [] => some ([], [])
  | fuel + 1, indent, line :: rest =>
    if line.indent = indent then do
      let (key, inline) ← splitKey line.body
      let (value, rest) ←
        if inline = [] then readNode fuel (leastIndent indent rest) rest
        else (readScalar inline).map fun value => (value, rest)
      let (entries, rest) ← readEntries fuel indent rest
      if key ∈ entries.map (·.1) then none else some ((key, value) :: entries, rest)
    else if indent < line.indent then none
    else some ([], line :: rest)

end

/-! ### Streams -/

/-- Every entry of a mapping takes a line, and one more step for a node below it. -/
def readDocument (lines : List (List Char)) : Option Yaml := do
  let (node, rest) ← readNode (2 * lines.length + 2) 0 (lines.map yamlLine)
  if rest.isEmpty then some node else none

/-- Neither blank nor a comment. -/
def isContent (text : List Char) : Bool :=
  match text.dropWhile isYamlBlank with
  | [] => false
  | c :: _ => c != '#'

/-- The line before a document. -/
def isMarker (text : List Char) : Bool :=
  text.take 3 == ['-', '-', '-'] && endsLine (text.drop 3)

/-- The documents of a stream. Lines before the first marker are a document of their own. -/
def readYaml (text : List Char) : Option (List Yaml) :=
  match ((text.splitOn '\n').filter isContent).splitOnP isMarker with
  | [] => some []
  | bare :: marked => do
    let documents ← marked.mapM readDocument
    if bare = [] then some documents
    else do
      let document ← readDocument bare
      return document :: documents

/-! ### Texts escaped as in JSON -/

/-- Every character has a number of sixteen bits. -/
def BasicPlane (text : List Char) : Prop :=
  ∀ c ∈ text, c.toNat < 0x10000

instance (text : List Char) : Decidable (BasicPlane text) :=
  decidable_of_iff (text.all fun c => decide (c.toNat < 0x10000)) (by simp [BasicPlane])

def AllBasic (texts : List String) : Prop :=
  ∀ text ∈ texts, BasicPlane text.toList

instance (texts : List String) : Decidable (AllBasic texts) :=
  decidable_of_iff (texts.all fun text => decide (BasicPlane text.toList)) (by simp [AllBasic])

@[simp] theorem allBasic_cons (text : String) (texts : List String) :
    AllBasic (text :: texts) ↔ BasicPlane text.toList ∧ AllBasic texts :=
  List.forall_mem_cons

theorem charOf_toNat (c : Char) : charOf c.toNat = some c := by
  have valid : c.toNat.isValidChar := c.valid
  rw [charOf, if_pos valid, Char.ofNat_toNat]

private theorem readDoubleQuoted_unicodeEscape (n : Nat) (rest : List Char) :
    readDoubleQuoted (unicodeEscape n ++ rest) =
      (charOf (n % 0x10000)).bind fun c =>
        (readDoubleQuoted rest).map (Prod.map (c :: ·) id) := by
  obtain ⟨a, b, c, d, escaped, value⟩ := unicodeEscape_eq n
  rw [escaped]
  simp only [List.cons_append, List.nil_append, readDoubleQuoted, value, Option.bind_eq_bind,
    Option.bind_some]
  cases charOf (n % 0x10000) with
  | none => rfl
  | some c => cases readDoubleQuoted rest <;> rfl

private theorem readDoubleQuoted_short {e c : Char} (known : yamlEscape e = some c)
    (rest : List Char) :
    readDoubleQuoted ('\\' :: e :: rest) = (readDoubleQuoted rest).map (Prod.map (c :: ·) id) := by
  have other : e ≠ 'x' ∧ e ≠ 'u' ∧ e ≠ 'U' := by
    refine ⟨?_, ?_, ?_⟩ <;> · rintro rfl; cases known
  rw [readDoubleQuoted]
  · rw [known]
    cases readDoubleQuoted rest <;> rfl
  · exact fun _ _ _ same => absurd same other.1
  · exact fun _ _ _ _ _ same => absurd same other.2.1
  · exact fun _ _ _ _ _ _ _ _ _ same => absurd same other.2.2

private theorem readDoubleQuoted_plain {c : Char} (quote : c ≠ '\"') (backslash : c ≠ '\\')
    (printable : 0x20 ≤ c.toNat) (rest : List Char) :
    readDoubleQuoted (c :: rest) = (readDoubleQuoted rest).map (Prod.map (c :: ·) id) := by
  rw [readDoubleQuoted]
  · rw [if_pos (Or.inr printable)]
    cases readDoubleQuoted rest <;> rfl
  · exact quote
  · exact fun _ _ _ same _ => absurd same backslash
  · exact fun _ _ _ _ _ same _ => absurd same backslash
  · exact fun _ _ _ _ _ _ _ _ _ same _ => absurd same backslash
  · exact fun _ _ same _ => absurd same backslash

/-- An escaped character is read back, unless its escapes are two surrogates. -/
private theorem readDoubleQuoted_jsonChar (c : Char) (rest : List Char) :
    readDoubleQuoted (jsonChar c ++ rest) =
      if c.toNat < 0x10000 then (readDoubleQuoted rest).map (Prod.map (c :: ·) id) else none := by
  unfold jsonChar
  split
  all_goals try exact readDoubleQuoted_short rfl rest
  next quote backslash _ _ _ _ _ =>
    split
    next printable =>
      simp only [isPrintable, Bool.and_eq_true, decide_eq_true_eq] at printable
      have low : c.toNat ≤ 126 := printable.2
      rw [if_pos (by omega)]
      exact readDoubleQuoted_plain quote backslash printable.1 rest
    · split
      next small =>
        rw [readDoubleQuoted_unicodeEscape, Nat.mod_eq_of_lt small, charOf_toNat]
        rfl
      next large =>
        have bound := toNat_lt c
        -- the first of the two is no character
        have surrogate : charOf ((0xd800 + (c.toNat - 0x10000) / 0x400) % 0x10000) = none := by
          refine if_neg ?_
          rintro (low | ⟨high, _⟩)
          · omega
          · omega
        simp only
        rw [List.append_assoc, readDoubleQuoted_unicodeEscape, surrogate]
        rfl

/-- A text escaped as in JSON is read back exactly when it stays in the basic plane. -/
theorem readDoubleQuoted_chars (text rest : List Char) :
    readDoubleQuoted (text.flatMap jsonChar ++ '\"' :: rest) =
      if BasicPlane text then some (text, rest) else none := by
  induction text with
  | nil => simp [BasicPlane, readDoubleQuoted]
  | cons c text ih =>
    rw [List.flatMap_cons, List.append_assoc, readDoubleQuoted_jsonChar, ih]
    have split : BasicPlane (c :: text) ↔ c.toNat < 0x10000 ∧ BasicPlane text := by
      simp [BasicPlane]
    by_cases here : c.toNat < 0x10000
    · by_cases later : BasicPlane text
      · rw [if_pos here, if_pos later, if_pos (split.mpr ⟨here, later⟩)]
        rfl
      · rw [if_pos here, if_neg later, if_neg fun both => later (split.mp both).2]
        rfl
    · rw [if_neg here, if_neg fun both => here (split.mp both).1]

theorem readScalar_jsonText (text : String) :
    readScalar (jsonText text).toList =
      if BasicPlane text.toList then some (.text text.toList) else none := by
  have spelled : (jsonText text).toList =
      '\"' :: (text.toList.flatMap jsonChar ++ '\"' :: []) := by
    simp [jsonText]
  rw [spelled, readScalar, readDoubleQuoted_chars]
  split <;> rfl

/-! ### Reading rules -/

/-- A plain key that is read as a string. -/
structure PlainKey (key : List Char) : Prop where
  chars : ∀ c ∈ key, isKeyChar c = true
  first : key.head?.any Char.isAlpha = true
  free : key ∉ reservedKeys

instance (key : List Char) : Decidable (PlainKey key) :=
  decidable_of_iff (key.all isKeyChar = true ∧ key.head?.any Char.isAlpha = true ∧
    key ∉ reservedKeys)
    ⟨fun ⟨chars, first, free⟩ => ⟨List.all_eq_true.mp chars, first, free⟩,
      fun ⟨chars, first, free⟩ => ⟨List.all_eq_true.mpr chars, first, free⟩⟩

theorem PlainKey.entry_first {key : List Char} (plain : PlainKey key) (rest : List Char) (c : Char)
    (head : (key ++ rest).head? = some c) : (c == ' ') = false := by
  cases key with
  | nil => exact absurd plain.first (by decide)
  | cons d key =>
    cases head
    have alpha : c.isAlpha = true := plain.first
    rw [beq_eq_false_iff_ne]
    rintro rfl
    revert alpha
    decide

def jsonQuoted (text : String) : List Char :=
  (jsonText text).toList

/-- A key with its value on the same line, or on the lines below. -/
def inlineEntry (key : List Char) (text : String) : List Char :=
  key ++ ':' :: ' ' :: jsonQuoted text

def blockEntry (key : List Char) : List Char :=
  key ++ [':']

def itemEntry (text : String) : List Char :=
  '-' :: ' ' :: jsonQuoted text

theorem jsonQuoted_cons (text : String) : ∃ rest, jsonQuoted text = '\"' :: rest :=
  ⟨_, by simp [jsonQuoted, jsonText]; rfl⟩

private theorem splitKey_plain {key rest : List Char} (plain : PlainKey key)
    (gap : rest.head?.all (· == ' ') = true) :
    splitKey (key ++ ':' :: rest) = some (key, rest.dropWhile (· == ' ')) := by
  have taken : (key ++ ':' :: rest).takeWhile isKeyChar = key := by
    rw [List.takeWhile_append_of_pos plain.chars, List.takeWhile_cons_of_neg (by decide),
      List.append_nil]
  have left : (key ++ ':' :: rest).dropWhile isKeyChar = ':' :: rest := by
    rw [List.dropWhile_append_of_pos plain.chars, List.dropWhile_cons_of_neg (by decide)]
  simp only [splitKey, taken, left]
  exact if_pos ⟨plain.first, plain.free, rfl, gap⟩

theorem splitKey_inline {key : List Char} (plain : PlainKey key) (text : String) :
    splitKey (inlineEntry key text) = some (key, jsonQuoted text) := by
  obtain ⟨rest, spelled⟩ := jsonQuoted_cons text
  rw [inlineEntry, splitKey_plain plain rfl, spelled]
  rfl

theorem splitKey_block {key : List Char} (plain : PlainKey key) :
    splitKey (blockEntry key) = some (key, []) :=
  splitKey_plain plain rfl

/-- Puts an entry before the entries that were read behind it. -/
def consEntry (key : List Char) (value : Yaml)
    (later : List (List Char × Yaml) × List YamlLine) :
    Option (List (List Char × Yaml) × List YamlLine) :=
  if key ∈ later.1.map (·.1) then none else some ((key, value) :: later.1, later.2)

section

variable {fuel indent : Nat} {key : List Char} {rest : List YamlLine}

theorem readEntries_inline (plain : PlainKey key) (text : String) :
    readEntries (fuel + 1) indent (⟨indent, inlineEntry key text⟩ :: rest) =
      if BasicPlane text.toList then
        (readEntries fuel indent rest).bind (consEntry key (.text text.toList))
      else none := by
  have some_ : jsonQuoted text ≠ [] := by
    obtain ⟨later, spelled⟩ := jsonQuoted_cons text
    rw [spelled]
    exact List.cons_ne_nil _ _
  rw [readEntries, if_pos rfl, splitKey_inline plain]
  simp only [Option.bind_eq_bind, Option.bind_some, if_neg some_]
  rw [jsonQuoted, readScalar_jsonText]
  split
  · rfl
  · rfl

theorem readEntries_block (plain : PlainKey key) :
    readEntries (fuel + 1) indent (⟨indent, blockEntry key⟩ :: rest) =
      (readNode fuel (leastIndent indent rest) rest).bind fun node =>
        (readEntries fuel indent node.2).bind (consEntry key node.1) := by
  rw [readEntries, if_pos rfl, splitKey_block plain]
  rfl

@[simp] theorem readEntries_nil : readEntries (fuel + 1) indent [] = some ([], []) := by
  rw [readEntries]

theorem readItems_texts (texts : List String) (rest : List YamlLine)
    (below : ∀ line, rest.head? = some line → line.indent < indent) :
    readItems indent (texts.map (fun text => ⟨indent, itemEntry text⟩) ++ rest) =
      if AllBasic texts then
        some (texts.map fun text => .text text.toList, rest)
      else none := by
  induction texts with
  | nil =>
    rw [if_pos (by simp [AllBasic])]
    cases rest with
    | nil => rfl
    | cons line rest =>
      have outside := below line rfl
      rw [List.map_nil, List.nil_append, readItems, if_neg (by omega), if_neg (by omega)]
      rfl
  | cons text texts ih =>
    obtain ⟨later, spelled⟩ := jsonQuoted_cons text
    have item : (YamlLine.mk indent (itemEntry text)).isItem = true := rfl
    have scalar : ((itemEntry text).drop 2).dropWhile (· == ' ') = jsonQuoted text := by
      rw [itemEntry, spelled]
      rfl
    rw [List.map_cons, List.cons_append, readItems, if_pos ⟨rfl, item⟩, ih, scalar, jsonQuoted,
      readScalar_jsonText]
    by_cases here : BasicPlane text.toList
    · by_cases others : AllBasic texts
      · rw [if_pos here, if_pos others, if_pos ((allBasic_cons ..).mpr ⟨here, others⟩)]
        rfl
      · rw [if_pos here, if_neg others, if_neg fun all => others ((allBasic_cons ..).mp all).2]
        rfl
    · rw [if_neg here, if_neg fun all => here ((allBasic_cons ..).mp all).1]
      rfl

/-- A sequence of texts under a key. -/
theorem readNode_texts {least : Nat} (far : least ≤ indent) (text : String) (texts : List String)
    (rest : List YamlLine) (below : ∀ line, rest.head? = some line → line.indent < indent) :
    readNode (fuel + 1) least
      ((text :: texts).map (fun text => ⟨indent, itemEntry text⟩) ++ rest) =
      if AllBasic (text :: texts) then
        some (.sequence ((text :: texts).map fun text => .text text.toList), rest)
      else none := by
  have items := readItems_texts (text :: texts) rest below
  have item : (YamlLine.mk indent (itemEntry text)).isItem = true := rfl
  rw [List.map_cons, List.cons_append] at items ⊢
  rw [readNode, if_neg (by simpa using far), if_pos item, items]
  split
  · rfl
  · rfl

/-- A mapping under a key. -/
theorem readNode_entries {least : Nat} (far : least ≤ indent) {body : List Char}
    (entry : (YamlLine.mk indent body).isItem = false) :
    readNode (fuel + 1) least (⟨indent, body⟩ :: rest) =
      (readEntries fuel indent (⟨indent, body⟩ :: rest)).map (Prod.map .mapping id) := by
  rw [readNode, if_neg (by simpa using far), if_neg (by rw [entry]; decide)]
  cases readEntries fuel indent (⟨indent, body⟩ :: rest) <;> rfl

end

/-! ### Streams of lines -/

def unlines (lines : List (List Char)) : List Char :=
  lines.flatMap (· ++ ['\n'])

theorem splitOn_unlines {lines : List (List Char)} (single : ∀ line ∈ lines, '\n' ∉ line) :
    (unlines lines).splitOn '\n' = lines ++ [[]] := by
  induction lines with
  | nil => rfl
  | cons line rest ih =>
    rw [List.forall_mem_cons] at single
    have clean : ∀ c ∈ line, (c == '\n') = false := by
      intro c member
      rw [beq_eq_false_iff_ne]
      rintro rfl
      exact single.1 member
    rw [unlines, List.flatMap_cons, List.append_assoc, List.singleton_append,
      List.splitOn_eq_splitOnP, List.splitOnP_append_cons_of_forall_mem clean _ (by decide),
      ← List.splitOn_eq_splitOnP]
    exact congrArg _ (ih single.2)

def markerLine : List Char := ['-', '-', '-']

private theorem splitOnP_marked (docs : List (List (List Char))) (lines : List (List Char))
    (plain : ∀ doc ∈ lines :: docs, ∀ line ∈ doc, isMarker line = false) :
    (lines ++ docs.flatMap (markerLine :: ·)).splitOnP isMarker = lines :: docs := by
  induction docs generalizing lines with
  | nil =>
    rw [List.flatMap_nil, List.append_nil]
    exact List.splitOnP_eq_singleton (List.forall_mem_cons.mp plain).1
  | cons doc docs ih =>
    rw [List.forall_mem_cons] at plain
    rw [List.flatMap_cons, List.cons_append,
      List.splitOnP_append_cons_of_forall_mem plain.1 _ (by decide), ih doc plain.2]

/-- A stream of comments and marked documents is read one document at a time. -/
theorem readYaml_unlines {comments : List (List Char)} {docs : List (List (List Char))}
    (single : ∀ line ∈ comments ++ docs.flatten, '\n' ∉ line)
    (silent : ∀ line ∈ comments, isContent line = false)
    (content : ∀ doc ∈ docs, ∀ line ∈ doc, isContent line = true)
    (plain : ∀ doc ∈ docs, ∀ line ∈ doc, isMarker line = false) :
    readYaml (unlines (comments ++ docs.flatMap (markerLine :: ·))) = docs.mapM readDocument := by
  have clean : ∀ line ∈ comments ++ docs.flatMap (markerLine :: ·), '\n' ∉ line := by
    intro line member
    rcases List.mem_append.mp member with comment | inside
    · exact single line (List.mem_append_left _ comment)
    · obtain ⟨doc, listed, inside⟩ := List.mem_flatMap.mp inside
      rcases List.mem_cons.mp inside with rfl | inside
      · decide
      · exact single line (List.mem_append_right _ (List.mem_flatten.mpr ⟨doc, listed, inside⟩))
  have kept : (comments ++ docs.flatMap (markerLine :: ·) ++ [[]]).filter isContent =
      docs.flatMap (markerLine :: ·) := by
    have dropped : comments.filter isContent = [] :=
      List.filter_eq_nil_iff.mpr fun line member => by rw [silent line member]; decide
    have all : (docs.flatMap (markerLine :: ·)).filter isContent =
        docs.flatMap (markerLine :: ·) := by
      refine List.filter_eq_self.mpr fun line member => ?_
      obtain ⟨doc, listed, inside⟩ := List.mem_flatMap.mp member
      rcases List.mem_cons.mp inside with rfl | inside
      · decide
      · exact content doc listed line inside
    rw [List.filter_append, List.filter_append, dropped, all]
    simp [isContent]
  have split := splitOnP_marked docs [] (List.forall_mem_cons.mpr ⟨by simp, plain⟩)
  rw [List.nil_append] at split
  rw [readYaml, splitOn_unlines clean, kept, split]
  simp only [if_true]
  cases docs.mapM readDocument <;> rfl

/-- A line of a document. -/
structure EntryLine (line : List Char) : Prop where
  single : '\n' ∉ line
  content : isContent line = true
  plain : isMarker line = false

def indented (n : Nat) (line : List Char) : List Char :=
  List.replicate n ' ' ++ line

theorem yamlLine_indented (n : Nat) {body : List Char}
    (first : ∀ c, body.head? = some c → (c == ' ') = false) :
    yamlLine (indented n body) = ⟨n, body⟩ := by
  have blanks : ∀ c ∈ List.replicate n ' ', (c == ' ') = true := by
    intro c member
    rw [List.eq_of_mem_replicate member]
    rfl
  have still : body.takeWhile (· == ' ') = [] ∧ body.dropWhile (· == ' ') = body := by
    cases body with
    | nil => exact ⟨rfl, rfl⟩
    | cons c rest => simp [first c rfl]
  rw [yamlLine, indented, List.takeWhile_append_of_pos blanks, List.dropWhile_append_of_pos blanks,
    still.1, still.2, List.append_nil, List.length_replicate]

private theorem entryLine_indented {n : Nat} {c : Char} {body : List Char}
    (printable : ∀ x ∈ c :: body, isPrintable x = true) (first : c ≠ ' ' ∧ c ≠ '#')
    (dash : n = 0 → c ≠ '-') : EntryLine (indented n (c :: body)) := by
  have visible := printable c List.mem_cons_self
  have blanks : ∀ x ∈ List.replicate n ' ', isYamlBlank x = true := by
    intro x member
    rw [List.eq_of_mem_replicate member]
    rfl
  have solid : ¬isYamlBlank c = true := by
    simp only [isYamlBlank, Bool.or_eq_true, beq_iff_eq, not_or]
    refine ⟨first.1, ?_⟩
    rintro rfl
    revert visible
    decide
  refine ⟨?_, ?_, ?_⟩
  · intro member
    rcases List.mem_append.mp member with blank | inside
    · exact absurd (List.eq_of_mem_replicate blank) (by decide)
    · exact absurd (printable _ inside) (by decide)
  · rw [isContent, indented, List.dropWhile_append_of_pos blanks, List.dropWhile_cons_of_neg solid]
    exact bne_iff_ne.mpr first.2
  · cases n with
    | zero => simp [isMarker, indented, dash rfl]
    | succ n => simp [isMarker, indented, List.replicate_succ]

private theorem isPrintable_of_isKeyChar {c : Char} (key : isKeyChar c = true) :
    isPrintable c = true := by
  simp only [isKeyChar, Char.isAlphanum, Char.isAlpha, Char.isUpper, Char.isLower, Char.isDigit,
    Bool.or_eq_true, Bool.and_eq_true, decide_eq_true_eq, beq_iff_eq] at key
  simp only [isPrintable, Bool.and_eq_true, decide_eq_true_eq]
  rcases key with (((⟨low, high⟩ | ⟨low, high⟩) | ⟨low, high⟩) | rfl) | rfl
  · exact ⟨le_trans (by decide) low, le_trans high (by decide)⟩
  · exact ⟨le_trans (by decide) low, le_trans high (by decide)⟩
  · exact ⟨le_trans (by decide) low, le_trans high (by decide)⟩
  · decide
  · decide

/-- A line with a plain key. -/
private theorem entryLine_key {n : Nat} {key rest : List Char} (plain : PlainKey key)
    (printable : ∀ x ∈ rest, isPrintable x = true) : EntryLine (indented n (key ++ rest)) := by
  have chars := fun x member => isPrintable_of_isKeyChar (plain.chars x member)
  cases key with
  | nil => exact absurd plain.first (by decide)
  | cons d key =>
    have alpha : d.isAlpha = true := plain.first
    have other (x : Char) (symbol : x.isAlpha = false) : d ≠ x := by
      rintro rfl
      rw [alpha] at symbol
      cases symbol
    exact entryLine_indented (List.forall_mem_append.mpr ⟨chars, printable⟩)
      ⟨other ' ' rfl, other '#' rfl⟩ fun _ => other '-' rfl

theorem entryLine_inlineEntry {key : List Char} (plain : PlainKey key) (n : Nat) (text : String) :
    EntryLine (indented n (inlineEntry key text)) :=
  entryLine_key plain (List.forall_mem_cons.mpr ⟨rfl, List.forall_mem_cons.mpr
    ⟨rfl, isPrintable_jsonText text⟩⟩)

theorem entryLine_blockEntry {key : List Char} (plain : PlainKey key) (n : Nat) :
    EntryLine (indented n (blockEntry key)) :=
  entryLine_key plain (List.forall_mem_singleton.mpr rfl)

theorem entryLine_itemEntry {n : Nat} (inside : 0 < n) (text : String) :
    EntryLine (indented n (itemEntry text)) :=
  entryLine_indented (List.forall_mem_cons.mpr ⟨rfl, List.forall_mem_cons.mpr
    ⟨rfl, isPrintable_jsonText text⟩⟩) (by decide) fun outside => absurd outside (by omega)

end MegooPM.Lib
