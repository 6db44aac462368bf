import MegooPM.Lib.CaseMapping
import MegooPM.Lib.Text
import Mathlib

/-!
# Fences and prose around a document

`strip_document_fences` of `services/page_assist.py`: a model wraps the document it writes in
a markdown fence and in sentences. The beginning of the document is searched in the text, its
end in a lower-cased copy; the place found there is one of the text unless lowering made the
document longer.
-/
namespace MegooPM

open Lib

/-! ### The patterns -/

def dropLiteral (literal s : List Char) : Option (List Char) :=
  if literal.isPrefixOf s then some (s.drop literal.length) else none

/-- `\r?\n` -/
def dropLineBreak (s : List Char) : Option (List Char) :=
  (dropLiteral ['\r', '\n'] s).or (dropLiteral ['\n'] s)

def fenceMark : List Char := ['`', '`', '`']

/-- `[A-Za-z0-9_+-]` -/
def isLanguageChar (c : Char) : Bool :=
  c.isAlphanum || c = '_' || c = '+' || c = '-'

/-- `[ \t]` -/
def isTab (c : Char) : Bool :=
  c = ' ' || c = '\t'

/-- `_FENCE_OPEN` at the beginning of the text. No repetition in it is followed by a character
of its own class, so none gives a character back. -/
def fenceOpen (s : List Char) : Option (List Char) := do
  let s ← dropLiteral fenceMark (s.dropWhile isSpace)
  dropLineBreak ((s.dropWhile isLanguageChar).dropWhile isTab)

/-- `_FENCE_OPEN.sub("", text)` -/
def subFenceOpen (s : List Char) : List Char :=
  (fenceOpen s).getD s

/-- `_FENCE_CLOSE` where the text begins. -/
def fenceClose (s : List Char) : Bool :=
  match dropLineBreak s with
  | none => false
  | some s =>
    match dropLiteral fenceMark (s.dropWhile isSpace) with
    | none => false
    | some s => s.all isSpace

/-- `_FENCE_CLOSE.sub("", text)` -/
def subFenceClose : List Char → List Char
  | [] => []
  | c :: s => if fenceClose (c :: s) then [] else c :: subFenceClose s

def doctypeTag : List Char := ['<', '!', 'd', 'o', 'c', 't', 'y', 'p', 'e']
def htmlTag : List Char := ['<', 'h', 't', 'm', 'l']
def closingTag : List Char := ['<', '/', 'h', 't', 'm', 'l', '>']

/-- A tag in any letter case, and `\b` behind it. -/
def matchesTag (u : Unicode) (tag s : List Char) : Bool :=
  (s.take tag.length).map Char.toLower = tag && (s.drop tag.length).head?.all fun c => !u.isWord c

/-- `_DOC_START` where the text begins. -/
def startsDocument (u : Unicode) (s : List Char) : Bool :=
  matchesTag u doctypeTag s || matchesTag u htmlTag s

def stripDocumentFences (u : Unicode) (text : List Char) : List Char :=
  let out := strip (subFenceClose (subFenceOpen (strip text)))
  let out := (out.tails.find? (startsDocument u)).getD out
  let out :=
    match rfind closingTag (u.lower out) with
    | some stop => out.take (stop + closingTag.length)
    | none => out
  strip out

/-! ### Replies -/

/-- A markdown fence: the language behind its first mark, and how its lines end. -/
structure Fence where
  language : List Char
  plain : ∀ c ∈ language, isLanguageChar c = true
  lineBreak : List Char
  ends : lineBreak = ['\n'] ∨ lineBreak = ['\r', '\n']

def Fence.opening (fence : Fence) : List Char :=
  fenceMark ++ fence.language ++ fence.lineBreak

def Fence.closing (fence : Fence) : List Char :=
  fence.lineBreak ++ fenceMark

/-- Prose, a document, with a fence around it or without one, and prose. -/
def reply (fence : Option Fence) (before document after : List Char) : List Char :=
  before ++ fence.elim [] Fence.opening ++ document ++ fence.elim [] Fence.closing ++ after

/-- It starts with a doctype or html tag and ends with its last closing html tag. -/
structure IsPage (u : Unicode) (document : List Char) : Prop where
  starts : startsDocument u document = true
  ends : closingTag <:+ document.map Char.toLower

/-- A doctype or html tag stands in the text. -/
def HasTag (u : Unicode) (text : List Char) : Prop :=
  ∃ rest, rest <:+ text ∧ startsDocument u rest = true

/-- A closing html tag stands in the text, in some letter case. -/
def HasClosing (text : List Char) : Prop :=
  closingTag <:+: text.map Char.toLower

def Blank (text : List Char) : Prop :=
  ∀ c ∈ text, isSpace c = true

/-- Nothing but white space, and possibly a closing fence on a line of its own. -/
def OnlyCloses (text : List Char) : Prop :=
  Blank text ∨ ∃ front back, text = front ++ (fenceMark ++ back) ∧ Blank front ∧ Blank back ∧
    '\n' ∈ front

/-! ### Literals and a boundary -/

section
variable {stop : Char} {literal s rest more : List Char}

theorem dropLiteral_iff : dropLiteral literal s = some rest ↔ s = literal ++ rest := by
  unfold dropLiteral
  constructor
  · intro dropped
    split at dropped
    next starts =>
      obtain ⟨others, rfl⟩ := List.isPrefixOf_iff_prefix.mp starts
      rw [List.drop_left] at dropped
      cases dropped
      rfl
    next => cases dropped
  · rintro rfl
    rw [if_pos (List.isPrefixOf_iff_prefix.mpr (List.prefix_append ..)), List.drop_left]

theorem dropLiteral_append (apart : stop ∉ literal) :
    dropLiteral literal (s ++ stop :: more) =
      (dropLiteral literal s).map (· ++ stop :: more) := by
  apply Option.ext
  intro rest
  rw [dropLiteral_iff, Option.map_eq_some_iff]
  constructor
  · intro split
    rcases List.append_eq_append_iff.mp split with ⟨cut, whole, behind⟩ | ⟨left, whole, behind⟩
    · cases cut with
      | nil => exact ⟨[], dropLiteral_iff.mpr (by simpa using whole.symm), by simpa using behind⟩
      | cons c cut =>
        obtain ⟨rfl, -⟩ := List.cons.inj behind
        exact absurd (whole ▸ List.mem_append_right _ (List.mem_cons_self ..)) apart
    · exact ⟨left, dropLiteral_iff.mpr whole, behind.symm⟩
  · rintro ⟨left, dropped, rfl⟩
    rw [dropLiteral_iff.mp dropped, List.append_assoc]

theorem dropLineBreak_append (apart : stop ≠ '\r' ∧ stop ≠ '\n') :
    dropLineBreak (s ++ stop :: more) = (dropLineBreak s).map (· ++ stop :: more) := by
  rw [dropLineBreak, dropLineBreak, dropLiteral_append (by simpa using apart),
    dropLiteral_append (by simpa using apart.2)]
  cases dropLiteral ['\r', '\n'] s <;> rfl

theorem dropWhile_append_stop {p : Char → Bool} (stops : p stop = false) :
    (s ++ stop :: more).dropWhile p = s.dropWhile p ++ stop :: more := by
  rw [List.dropWhile_append]
  split
  next none_ =>
    rw [List.isEmpty_iff.mp none_, List.dropWhile_cons_of_neg (by rw [stops]; decide)]
    rfl
  next => rfl

end

/-- The text of the pattern is in front, and has no `<` in it. -/
theorem fenceOpen_append (s more : List Char) :
    fenceOpen (s ++ '<' :: more) = (fenceOpen s).map (· ++ '<' :: more) := by
  rw [fenceOpen, fenceOpen, dropWhile_append_stop (by decide), dropLiteral_append (by decide)]
  cases dropLiteral fenceMark (s.dropWhile isSpace) with
  | none => rfl
  | some s =>
    change dropLineBreak (((s ++ '<' :: more).dropWhile isLanguageChar).dropWhile isTab) =
      (dropLineBreak ((s.dropWhile isLanguageChar).dropWhile isTab)).map _
    rw [dropWhile_append_stop (by decide), dropWhile_append_stop (by decide),
      dropLineBreak_append (by decide)]

theorem subFenceOpen_append (s more : List Char) :
    subFenceOpen (s ++ '<' :: more) = subFenceOpen s ++ '<' :: more := by
  rw [subFenceOpen, subFenceOpen, fenceOpen_append]
  cases fenceOpen s <;> rfl

private theorem notMem_takeWhile {p : Char → Bool} {c : Char} (stops : p c = false)
    (s : List Char) : c ∉ s.takeWhile p := by
  intro member
  rw [List.mem_takeWhile_imp member] at stops
  cases stops

theorem dropLineBreak_some {s rest : List Char} (dropped : dropLineBreak s = some rest) :
    ∃ lineBreak, s = lineBreak ++ rest ∧ (lineBreak = ['\n'] ∨ lineBreak = ['\r', '\n']) := by
  rcases Option.or_eq_some_iff.mp dropped with long | ⟨-, short⟩
  · exact ⟨_, dropLiteral_iff.mp long, .inr rfl⟩
  · exact ⟨_, dropLiteral_iff.mp short, .inl rfl⟩

/-- What the pattern takes off has no `<`. -/
theorem subFenceOpen_suffix (s : List Char) :
    ∃ removed, s = removed ++ subFenceOpen s ∧ '<' ∉ removed := by
  cases opened : fenceOpen s with
  | none => exact ⟨[], by rw [subFenceOpen, opened]; rfl, List.not_mem_nil⟩
  | some rest =>
    obtain ⟨behind, marked, broken⟩ := Option.bind_eq_some_iff.mp opened
    obtain ⟨lineBreak, split, ends⟩ := dropLineBreak_some broken
    have front := List.takeWhile_append_dropWhile (p := isSpace) (l := s)
    have language := List.takeWhile_append_dropWhile (p := isLanguageChar) (l := behind)
    have tabs := List.takeWhile_append_dropWhile (p := isTab)
      (l := behind.dropWhile isLanguageChar)
    refine ⟨s.takeWhile isSpace ++ fenceMark ++ behind.takeWhile isLanguageChar ++
      (behind.dropWhile isLanguageChar).takeWhile isTab ++ lineBreak, ?_, ?_⟩
    · rw [dropLiteral_iff.mp marked] at front
      rw [split] at tabs
      rw [← tabs] at language
      rw [← language] at front
      rw [subFenceOpen, opened, Option.getD_some]
      simpa using front.symm
    · have free : '<' ∉ lineBreak := by
        rcases ends with rfl | rfl <;> decide
      have mark : '<' ∉ fenceMark := by decide
      simp only [List.mem_append, not_or]
      exact ⟨⟨⟨⟨notMem_takeWhile (by decide) s, mark⟩, notMem_takeWhile (by decide) _⟩,
        notMem_takeWhile (by decide) _⟩, free⟩

/-! ### The closing fence -/

private theorem dropWhile_blank {front : List Char} (blank : Blank front) (back : List Char) :
    (front ++ (fenceMark ++ back)).dropWhile isSpace = fenceMark ++ back := by
  rw [List.dropWhile_append_of_pos blank]
  exact List.dropWhile_cons_of_neg (by decide)

/-- The pattern takes white space with a line break in it, the mark, and white space. -/
theorem closing_of_fenceClose {s : List Char} (closes : fenceClose s = true) :
    ∃ front back, s = front ++ (fenceMark ++ back) ∧ Blank front ∧ Blank back ∧ '\n' ∈ front := by
  unfold fenceClose at closes
  split at closes
  next => cases closes
  next rest broken =>
    split at closes
    next => cases closes
    next back marked =>
      obtain ⟨lineBreak, rfl, ends⟩ := dropLineBreak_some broken
      have front := List.takeWhile_append_dropWhile (p := isSpace) (l := rest)
      rw [dropLiteral_iff.mp marked] at front
      refine ⟨lineBreak ++ rest.takeWhile isSpace, back, by rw [List.append_assoc, front],
        fun c member => ?_, List.all_eq_true.mp closes, ?_⟩
      · rcases List.mem_append.mp member with first | inside
        · have newline : isSpace '\n' = true := by decide
          have return_ : isSpace '\r' = true := by decide
          rcases ends with rfl | rfl
          · rwa [List.mem_singleton.mp first]
          · rcases List.mem_pair.mp first with rfl | rfl
            · exact return_
            · exact newline
        · exact List.mem_takeWhile_imp inside
      · refine List.mem_append_left _ ?_
        rcases ends with rfl | rfl <;> decide

theorem fenceClose_newline {front back : List Char} (blank : Blank front) (backBlank : Blank back) :
    fenceClose ('\n' :: (front ++ (fenceMark ++ back))) = true := by
  have broken : dropLineBreak ('\n' :: (front ++ (fenceMark ++ back))) =
      some (front ++ (fenceMark ++ back)) := by
    have long : dropLiteral ['\r', '\n'] ('\n' :: (front ++ (fenceMark ++ back))) = none := rfl
    rw [dropLineBreak, long, Option.none_or]
    exact dropLiteral_iff.mpr rfl
  have marked : dropLiteral fenceMark (fenceMark ++ back) = some back := dropLiteral_iff.mpr rfl
  rw [fenceClose, broken]
  dsimp only
  rw [dropWhile_blank blank, marked]
  exact List.all_eq_true.mpr backBlank

/-- What is taken off is a closing fence at the end. -/
theorem subFenceClose_split (s : List Char) :
    ∃ removed, s = subFenceClose s ++ removed ∧ (removed = [] ∨ fenceClose removed = true) := by
  induction s with
  | nil => exact ⟨[], rfl, .inl rfl⟩
  | cons c s ih =>
    rw [subFenceClose]
    split
    next closes => exact ⟨c :: s, rfl, .inr closes⟩
    next =>
      obtain ⟨removed, whole, ends⟩ := ih
      exact ⟨removed, by rw [List.cons_append, ← whole], ends⟩

/-- Where a closing fence begins, nothing is left behind it. -/
theorem subFenceClose_of_closes {front rest : List Char} (closes : fenceClose rest = true) :
    subFenceClose (front ++ rest) <+: front := by
  induction front with
  | nil =>
    cases rest with
    | nil => exact List.nil_prefix
    | cons c rest =>
      rw [List.nil_append, subFenceClose, if_pos closes]
  | cons c front ih =>
    rw [List.cons_append, subFenceClose]
    split
    next => exact List.nil_prefix
    next => exact List.cons_prefix_cons.mpr ⟨rfl, ih⟩

/-- A closing fence does not begin before a `>`. -/
theorem subFenceClose_append (front rest : List Char) :
    subFenceClose (front ++ '>' :: rest) = front ++ '>' :: subFenceClose rest := by
  have open_ : ∀ part : List Char, fenceClose (part ++ '>' :: rest) = false := by
    intro part
    refine Bool.eq_false_iff.mpr fun closes => ?_
    obtain ⟨space, back, whole, blank, backBlank, -⟩ := closing_of_fenceClose closes
    have member : '>' ∈ space ++ (fenceMark ++ back) :=
      whole ▸ List.mem_append_right _ (List.mem_cons_self ..)
    simp only [List.mem_append] at member
    rcases member with inside | mark | inside
    · exact absurd (blank '>' inside) (by decide)
    · exact absurd mark (by decide)
    · exact absurd (backBlank '>' inside) (by decide)
  induction front with
  | nil =>
    have here := open_ []
    rw [List.nil_append] at here ⊢
    rw [subFenceClose, if_neg (by rw [here]; decide), List.nil_append]
  | cons c front ih =>
    rw [List.cons_append, subFenceClose, if_neg (by rw [← List.cons_append, open_]; decide), ih,
      List.cons_append]

/-! ### White space at the ends -/

def lstrip (s : List Char) : List Char := s.dropWhile isSpace

def rstrip (s : List Char) : List Char := s.rdropWhile isSpace

/-- The white space around a text that has none at its own ends. -/
theorem strip_around {inner : List Char} (first : ∃ c rest, inner = c :: rest ∧ isSpace c = false)
    (last : ∃ front c, inner = front ++ [c] ∧ isSpace c = false) (before after : List Char) :
    strip (before ++ inner ++ after) = lstrip before ++ inner ++ rstrip after := by
  have front : (before ++ inner ++ after).dropWhile isSpace =
      lstrip before ++ inner ++ after := by
    obtain ⟨c, rest, rfl, solid⟩ := first
    rw [List.append_assoc, List.cons_append, dropWhile_append_stop solid, lstrip, List.append_assoc,
      List.cons_append]
  obtain ⟨part, c, rfl, solid⟩ := last
  have back : (lstrip before ++ (part ++ [c]) ++ after).reverse.dropWhile isSpace =
      after.reverse.dropWhile isSpace ++ c :: (lstrip before ++ part).reverse := by
    simp only [List.reverse_append, List.reverse_cons, List.append_assoc, List.singleton_append]
    exact dropWhile_append_stop solid
  rw [strip, front, back, List.reverse_append, rstrip, List.rdropWhile]
  simp

/-! ### The document in the reply -/

section
variable {u : Unicode} {document : List Char}

theorem matchesTag_iff {tag s : List Char} : matchesTag u tag s = true ↔
    ∃ spelled rest, s = spelled ++ rest ∧ spelled.map Char.toLower = tag ∧
      ∀ c ∈ rest.head?, u.isWord c = false := by
  simp only [matchesTag, Bool.and_eq_true, decide_eq_true_eq, Option.all_eq_true,
    Bool.not_eq_true']
  constructor
  · rintro ⟨spells, ends⟩
    exact ⟨_, _, (List.take_append_drop tag.length s).symm, spells, ends⟩
  · rintro ⟨spelled, rest, rfl, rfl, ends⟩
    rw [List.length_map, List.take_left, List.drop_left]
    exact ⟨rfl, ends⟩

/-- A tag does not run into a character that ends it. -/
private theorem matchesTag_append {tag s : List Char} {stop : Char} (ends : u.isWord stop = false)
    (apart : stop.toLower ∉ tag.tail) (some_ : s ≠ []) (more : List Char) :
    matchesTag u tag (s ++ stop :: more) = matchesTag u tag s := by
  rw [Bool.eq_iff_iff, matchesTag_iff, matchesTag_iff]
  constructor
  · rintro ⟨spelled, rest, split, lowered, last⟩
    rcases List.append_eq_append_iff.mp split with ⟨cut, whole, behind⟩ | ⟨left, whole, behind⟩
    · cases cut with
      | nil => exact ⟨s, [], (List.append_nil s).symm, by simpa [whole] using lowered, by simp⟩
      | cons c cut =>
        -- the tag would have the character behind its first one
        obtain ⟨rfl, -⟩ := List.cons.inj behind
        obtain ⟨d, s, rfl⟩ := List.exists_cons_of_ne_nil some_
        refine absurd ?_ apart
        rw [← lowered, whole, List.cons_append, List.map_cons, List.tail_cons, List.map_append]
        exact List.mem_append_right _ (List.mem_cons_self ..)
    · refine ⟨spelled, left, whole, lowered, fun c head => last c ?_⟩
      rw [behind, List.head?_append, head]
      rfl
  · rintro ⟨spelled, rest, rfl, lowered, last⟩
    refine ⟨spelled, rest ++ stop :: more, List.append_assoc .., lowered, fun c head => ?_⟩
    cases rest with
    | nil =>
      cases head
      exact ends
    | cons d rest => exact last c head

/-- Neither the beginning of a tag nor that of a fence belongs to the tag before it. -/
theorem startsDocument_append {s : List Char} {stop : Char} (ends : stop = '<' ∨ stop = '`')
    (some_ : s ≠ []) (more : List Char) :
    startsDocument u (s ++ stop :: more) = startsDocument u s := by
  have apart : stop.toNat < 128 ∧ stop.isAlphanum = false ∧ stop ≠ '_' ∧
      stop.toLower ∉ doctypeTag.tail ∧ stop.toLower ∉ htmlTag.tail := by
    rcases ends with rfl | rfl <;> decide
  obtain ⟨small, noLetter, noScore, doctype, html⟩ := apart
  have noWord : u.isWord stop = false := by
    rw [Unicode.isWord, u.alnum _ small, noLetter]
    exact decide_eq_false noScore
  rw [startsDocument, startsDocument, matchesTag_append noWord doctype some_,
    matchesTag_append noWord html some_]

/-- Both tags, with their first character and one that they do not have. -/
private theorem exists_tag {s : List Char} (starts : startsDocument u s = true) :
    ∃ tag, matchesTag u tag s = true ∧ tag.head? = some '<' ∧ '>' ∉ tag ∧
      ∀ t, matchesTag u tag t = true → startsDocument u t = true := by
  rcases Bool.or_eq_true _ _ |>.mp starts with doctype | html
  · exact ⟨doctypeTag, doctype, rfl, by decide, fun t begins => by simp [startsDocument, begins]⟩
  · exact ⟨htmlTag, html, rfl, by decide, fun t begins => by simp [startsDocument, begins]⟩

/-- Only a `<` begins a tag. -/
theorem begins_of_startsDocument {s : List Char} (starts : startsDocument u s = true) :
    ∃ rest, s = '<' :: rest := by
  obtain ⟨tag, begins, first, -, -⟩ := exists_tag starts
  obtain ⟨spelled, rest, rfl, rfl, -⟩ := matchesTag_iff.mp begins
  cases spelled with
  | nil => cases first
  | cons c spelled =>
    obtain rfl : c = '<' := eq_of_toLower (Option.some.inj first) (by decide)
    exact ⟨_, rfl⟩

namespace IsPage

/-- The closing tag, as the document spells it, and what is in front of it. -/
theorem split (doc : IsPage u document) :
    ∃ body tag, document = body ++ tag ∧ tag.map Char.toLower = closingTag := by
  obtain ⟨front, whole⟩ := doc.ends
  obtain ⟨body, tag, rfl, -, rest⟩ := List.map_eq_append_iff.mp whole.symm
  exact ⟨body, tag, rfl, rest⟩

theorem last (doc : IsPage u document) : ∃ front, document = front ++ ['>'] := by
  obtain ⟨body, tag, rfl, lowered⟩ := doc.split
  have parts : tag.map Char.toLower = ['<', '/', 'h', 't', 'm', 'l'] ++ ['>'] := lowered
  obtain ⟨front, final, rfl, -, final_eq⟩ := List.map_eq_append_iff.mp parts
  obtain ⟨c, rfl, same⟩ := List.map_eq_singleton_iff.mp final_eq
  obtain rfl : c = '>' := eq_of_toLower same (by decide)
  exact ⟨body ++ front, by rw [List.append_assoc]⟩

/-- What follows a document does not change where it starts. -/
theorem starts_append (doc : IsPage u document) (more : List Char) :
    startsDocument u (document ++ more) = true := by
  obtain ⟨tag, begins, -, other, implies⟩ := exists_tag doc.starts
  obtain ⟨front, whole⟩ := doc.last
  obtain ⟨spelled, rest, split, lowered, ends⟩ := matchesTag_iff.mp begins
  refine implies _ (matchesTag_iff.mpr ⟨spelled, rest ++ more, ?_, lowered, ?_⟩)
  · rw [split, List.append_assoc]
  · cases rest with
    | cons c rest => exact fun d head => ends d head
    | nil =>
      -- the document would be the tag, which does not end as a document does
      refine absurd ?_ other
      rw [← lowered, ← List.append_nil spelled, ← split, whole, List.map_append]
      exact List.mem_append_right _ (List.mem_cons_self ..)

end IsPage

/-! ### The beginning -/

theorem hasTag_nil : ¬HasTag u [] := by
  rintro ⟨rest, suffix, starts⟩
  rw [List.suffix_nil.mp suffix] at starts
  obtain ⟨rest, same⟩ := begins_of_startsDocument starts
  cases same

theorem hasTag_cons {c : Char} {s : List Char} :
    HasTag u (c :: s) ↔ startsDocument u (c :: s) = true ∨ HasTag u s := by
  constructor
  · rintro ⟨rest, suffix, starts⟩
    rcases List.suffix_cons_iff.mp suffix with rfl | inside
    · exact .inl starts
    · exact .inr ⟨rest, inside, starts⟩
  · rintro (starts | ⟨rest, suffix, starts⟩)
    · exact ⟨_, List.suffix_rfl, starts⟩
    · exact ⟨rest, suffix.trans (List.suffix_cons c s), starts⟩

/-- A text without `<` in front adds no tag. -/
theorem hasTag_append {removed s : List Char} (free : '<' ∉ removed) :
    HasTag u (removed ++ s) ↔ HasTag u s := by
  induction removed with
  | nil => rfl
  | cons c removed ih =>
    rw [List.mem_cons, not_or] at free
    rw [List.cons_append, hasTag_cons, ih free.2]
    constructor
    · rintro (starts | inside)
      · obtain ⟨rest, same⟩ := begins_of_startsDocument starts
        exact absurd (List.cons.inj same).1.symm free.1
      · exact inside
    · exact .inr

/-- Nor does one that begins with a fence mark behind it. -/
theorem hasTag_mark {s more : List Char} (free : '<' ∉ more) :
    HasTag u (s ++ '`' :: more) ↔ HasTag u s := by
  induction s with
  | nil =>
    have none_ : '<' ∉ '`' :: more := by
      simpa using free
    rw [List.nil_append, ← List.append_nil ('`' :: more)]
    exact hasTag_append none_
  | cons c s ih =>
    have same := startsDocument_append (u := u) (.inr rfl) (List.cons_ne_nil c s) more
    rw [List.cons_append] at same ⊢
    rw [hasTag_cons, hasTag_cons, ih, same]

/-- The search finds the document, or a tag in front of it. -/
theorem find_document {inner : List Char} (starts : startsDocument u inner = true)
    (front : List Char) :
    ∃ kept, (front ++ inner).tails.find? (startsDocument u) = some (kept ++ inner) ∧
      startsDocument u (kept ++ inner) = true ∧ (kept = [] ↔ ¬HasTag u front) := by
  obtain ⟨rest, rfl⟩ := begins_of_startsDocument starts
  induction front with
  | nil =>
    refine ⟨[], ?_, starts, by simp [hasTag_nil]⟩
    rw [List.nil_append, List.tails_cons, List.find?_cons_of_pos starts]
  | cons c front ih =>
    rw [hasTag_cons, List.cons_append, List.tails_cons,
      ← startsDocument_append (.inl rfl) (List.cons_ne_nil c front) rest]
    by_cases here : startsDocument u (c :: front ++ '<' :: rest) = true
    · refine ⟨c :: front, ?_, here, ?_⟩
      · rw [← List.cons_append, List.find?_cons_of_pos here]
      · exact ⟨fun none_ => absurd none_ (List.cons_ne_nil c front),
          fun free => absurd (.inl here) free⟩
    · obtain ⟨kept, found, begins, none_⟩ := ih
      refine ⟨kept, ?_, begins, none_.trans ?_⟩
      · rw [← List.cons_append, List.find?_cons_of_neg here, found]
      · exact ⟨fun free both => both.elim here free, fun free inside => free (.inr inside)⟩

/-! ### The end -/

theorem faithful_closingTag : Faithful closingTag := by
  decide +kernel

private theorem dottedI_notMem {tag : List Char} (lowered : tag.map Char.toLower = closingTag) :
    dottedI ∉ tag := by
  intro member
  have inside : dottedI.toLower ∈ closingTag := lowered ▸ List.mem_map_of_mem member
  exact absurd inside (by decide)

private theorem infix_of_tail {front back : List Char} (free : '<' ∉ front)
    (found : closingTag <:+: front ++ back) : closingTag <:+: back := by
  induction front with
  | nil => exact found
  | cons c front ih =>
    rw [List.mem_cons, not_or] at free
    rcases List.infix_cons_iff.mp found with begins | inside
    · exact absurd (List.cons_prefix_cons.mp begins).1 free.1
    · exact ih free.2 inside

/-- The end that is found in lower case lies behind the document by as many characters as
lowering adds to what is in front of it. -/
theorem rfind_document (doc : IsPage u document) {after : List Char}
    (last : ¬HasClosing after) (kept : List Char) :
    ∃ stop, rfind closingTag (u.lower (kept ++ document ++ after)) = some stop ∧
      stop + closingTag.length =
        (kept ++ document).length + (kept ++ document).count dottedI := by
  obtain ⟨body, tag, rfl, lowered⟩ := doc.split
  have plain : ∀ c ∈ tag, c.toNat < 128 := by
    intro c member
    have inside : c.toLower ∈ closingTag := lowered ▸ List.mem_map_of_mem member
    exact ascii_of_toLower (faithful_closingTag _ inside).1
  have parts : u.lower (kept ++ (body ++ tag) ++ after) =
      u.lowerBetween [] (kept ++ body) (tag ++ after) ++
        '<' :: (closingTag.tail ++ u.lowerBetween (kept ++ body ++ tag) after []) := by
    have whole : kept ++ (body ++ tag) ++ after = (kept ++ body) ++ (tag ++ after) := by
      simp only [List.append_assoc]
    rw [Unicode.lower, whole, u.lowerBetween_append [] (kept ++ body),
      u.lowerBetween_append ([] ++ (kept ++ body)) tag, u.lowerBetween_ascii plain, lowered,
      List.append_nil, List.nil_append]
    rfl
  have later : ¬closingTag <:+:
      closingTag.tail ++ u.lowerBetween (kept ++ body ++ tag) after [] := by
    intro found
    have behind := infix_of_tail (by decide) found
    exact last (infix_of_lowerBetween faithful_closingTag (by decide) behind)
  refine ⟨_, parts ▸ rfind_append later (List.prefix_append closingTag _) _, ?_⟩
  have length := congrArg List.length lowered
  have uncounted := List.count_eq_zero.mpr (dottedI_notMem lowered)
  rw [List.length_map] at length
  simp only [u.length_lowerBetween, List.length_append, List.count_append, uncounted]
  omega

end

/-! ### What follows the document -/

theorem rstrip_eq_nil {s : List Char} : rstrip s = [] ↔ Blank s :=
  List.rdropWhile_eq_nil_iff

theorem rstrip_split (s : List Char) :
    ∃ spaces, s = rstrip s ++ spaces ∧ Blank spaces :=
  ⟨_, (List.rdropWhile_append_rtakeWhile ..).symm, fun _ member => List.mem_rtakeWhile_imp member⟩

theorem rstrip_append {s spaces : List Char} (blank : Blank spaces) :
    rstrip (s ++ spaces) = rstrip s := by
  rw [rstrip, List.rdropWhile, List.reverse_append,
    List.dropWhile_append_of_pos fun c member => blank c (List.mem_reverse.mp member)]
  rfl

theorem rstrip_mark (front : List Char) : rstrip (front ++ fenceMark) = front ++ fenceMark := by
  have whole : front ++ fenceMark = front ++ ['`', '`'] ++ ['`'] := by
    rw [List.append_assoc]
    rfl
  rw [whole]
  exact List.rdropWhile_concat_neg _ _ _ (by decide)

/-- What the first steps leave behind the document. -/
def tailLeft (after : List Char) : List Char :=
  rstrip (subFenceClose (rstrip after))

theorem tailLeft_split (after : List Char) : ∃ more, after = tailLeft after ++ more := by
  obtain ⟨last, whole, -⟩ := rstrip_split after
  obtain ⟨removed, cut, -⟩ := subFenceClose_split (rstrip after)
  obtain ⟨spaces, inner, -⟩ := rstrip_split (subFenceClose (rstrip after))
  refine ⟨spaces ++ removed ++ last, ?_⟩
  rw [tailLeft, ← List.append_assoc, ← List.append_assoc, ← inner, ← cut, ← whole]

/-- Nothing is left exactly where there was nothing but a closing fence. -/
theorem tailLeft_eq_nil {after : List Char} : tailLeft after = [] ↔ OnlyCloses after := by
  constructor
  · intro none_
    have blank : Blank (subFenceClose (rstrip after)) := rstrip_eq_nil.mp none_
    obtain ⟨last, whole, lastBlank⟩ := rstrip_split after
    obtain ⟨removed, cut, ends⟩ := subFenceClose_split (rstrip after)
    rcases ends with rfl | closes
    · left
      rw [whole, cut, List.append_nil]
      exact fun c member => (List.mem_append.mp member).elim (blank c) (lastBlank c)
    · obtain ⟨front, back, rfl, frontBlank, backBlank, broken⟩ := closing_of_fenceClose closes
      refine .inr ⟨subFenceClose (rstrip after) ++ front, back ++ last, ?_, ?_, ?_, ?_⟩
      · calc after
            _ = rstrip after ++ last := whole
            _ = subFenceClose (rstrip after) ++ (front ++ (fenceMark ++ back)) ++ last := by
              rw [← cut]
            _ = _ := by simp only [List.append_assoc]
      · exact fun c member => (List.mem_append.mp member).elim (blank c) (frontBlank c)
      · exact fun c member => (List.mem_append.mp member).elim (backBlank c) (lastBlank c)
      · exact List.mem_append_right _ broken
  · rintro (blank | ⟨front, back, rfl, frontBlank, backBlank, broken⟩)
    · rw [tailLeft, rstrip_eq_nil.mpr blank]
      rfl
    · -- the mark ends the text, and a line break is in front of it
      obtain ⟨line, spaces, rfl⟩ := List.append_of_mem broken
      have closes : fenceClose ('\n' :: (spaces ++ (fenceMark ++ []))) = true :=
        fenceClose_newline (fun c member => frontBlank c (by simp [member]))
          (fun c member => by cases member)
      have kept : rstrip (line ++ '\n' :: spaces ++ (fenceMark ++ back)) =
          line ++ '\n' :: (spaces ++ (fenceMark ++ [])) := by
        rw [← List.append_assoc, rstrip_append backBlank, rstrip_mark, List.append_nil,
          List.append_assoc, List.cons_append]
      rw [tailLeft, kept]
      have shorter : subFenceClose (line ++ '\n' :: (spaces ++ (fenceMark ++ []))) <+: line :=
        subFenceClose_of_closes closes
      exact rstrip_eq_nil.mpr fun c member => frontBlank c
        (List.mem_append_left _ (shorter.subset member))

/-- The first characters that are left are white space when there are none, or when the first
characters behind the document are. -/
theorem blank_take_tailLeft (after : List Char) (k : Nat) :
    Blank ((tailLeft after).take k) ↔ OnlyCloses after ∨ Blank (after.take k) := by
  obtain ⟨more, whole⟩ := tailLeft_split after
  by_cases none_ : tailLeft after = []
  · have only := tailLeft_eq_nil.mp none_
    rw [none_, List.take_nil]
    exact ⟨fun _ => .inl only, fun _ c member => by cases member⟩
  have open_ : ¬OnlyCloses after := fun only => none_ (tailLeft_eq_nil.mpr only)
  have solid : ¬Blank (tailLeft after) := by
    intro blank
    have final := List.rdropWhile_last_not _ (subFenceClose (rstrip after)) none_
    exact final (blank _ (List.getLast_mem none_))
  rw [or_iff_right open_]
  rcases Nat.le_total k (tailLeft after).length with short | long
  · have same : after.take k = (tailLeft after).take k := by
      conv_lhs => rw [whole]
      exact List.take_append_of_le_length short
    rw [same]
  · refine ⟨fun blank => absurd (List.take_of_length_le long ▸ blank) solid, fun blank => ?_⟩
    refine absurd (fun c member => blank c ?_) solid
    rw [whole, List.take_append]
    exact List.mem_append_left _ (by rwa [List.take_of_length_le long])

/-! ### The document comes back -/

section
variable {u : Unicode} {document : List Char}

private theorem lstrip_split (s : List Char) : ∃ removed, s = removed ++ lstrip s ∧ Blank removed :=
  ⟨_, (List.takeWhile_append_dropWhile ..).symm, fun _ member => List.mem_takeWhile_imp member⟩

private theorem hasTag_lstrip (s : List Char) : HasTag u (lstrip s) ↔ HasTag u s := by
  obtain ⟨removed, whole, blank⟩ := lstrip_split s
  have free : '<' ∉ removed := fun member => absurd (blank _ member) (by decide)
  conv_rhs => rw [whole]
  exact (hasTag_append free).symm

private theorem hasTag_subFenceOpen (s : List Char) : HasTag u (subFenceOpen s) ↔ HasTag u s := by
  obtain ⟨removed, whole, free⟩ := subFenceOpen_suffix s
  conv_rhs => rw [whole]
  exact (hasTag_append free).symm

/-- The steps before the search leave the document whole. -/
theorem first_steps (doc : IsPage u document) (before after : List Char) :
    strip (subFenceClose (subFenceOpen (strip (before ++ document ++ after)))) =
      lstrip (subFenceOpen (lstrip before)) ++ document ++ tailLeft after := by
  obtain ⟨rest, first⟩ := begins_of_startsDocument doc.starts
  obtain ⟨front, last⟩ := doc.last
  have solid : ∃ c rest, document = c :: rest ∧ isSpace c = false := ⟨_, _, first, by decide⟩
  have solid' : ∃ front c, document = front ++ [c] ∧ isSpace c = false := ⟨_, _, last, by decide⟩
  have opened : subFenceOpen (lstrip before ++ document ++ rstrip after) =
      subFenceOpen (lstrip before) ++ document ++ rstrip after := by
    rw [first, List.append_assoc, List.cons_append, subFenceOpen_append, List.append_assoc,
      List.cons_append]
  have closed : ∀ part : List Char, subFenceClose (part ++ document ++ rstrip after) =
      part ++ document ++ subFenceClose (rstrip after) := by
    intro part
    have whole : ∀ more : List Char, part ++ document ++ more = (part ++ front) ++ '>' :: more := by
      intro more
      rw [last]
      simp only [List.append_assoc, List.singleton_append]
    rw [whole, subFenceClose_append, whole]
  rw [strip_around solid solid', opened, closed, strip_around solid solid', tailLeft]

/-- Between any texts: the document is given back exactly when no tag is in front of it and,
behind it, either nothing but a closing fence, or white space as long as the document has dotted
capital letters I. -/
theorem strip_between (doc : IsPage u document) {before after : List Char}
    (last : ¬HasClosing after) :
    stripDocumentFences u (before ++ document ++ after) = document ↔
      ¬HasTag u before ∧ (OnlyCloses after ∨ Blank (after.take (document.count dottedI))) := by
  obtain ⟨more, whole⟩ := tailLeft_split after
  have lastLeft : ¬HasClosing (tailLeft after) := by
    intro inside
    refine last (inside.trans ?_)
    conv_rhs => rw [whole]
    rw [List.map_append]
    exact (List.prefix_append ..).isInfix
  have starts := doc.starts_append (tailLeft after)
  obtain ⟨kept, found, begins, none_⟩ :=
    find_document starts (lstrip (subFenceOpen (lstrip before)))
  obtain ⟨stop, ends, place⟩ := rfind_document doc lastLeft kept
  have result : stripDocumentFences u (before ++ document ++ after) =
      strip (kept ++ document ++ (tailLeft after).take ((kept ++ document).count dottedI)) := by
    rw [stripDocumentFences, first_steps doc, List.append_assoc, found, Option.getD_some,
      ← List.append_assoc, ends]
    dsimp only
    rw [place, List.take_length_add_append]
  obtain ⟨rest, first⟩ := begins_of_startsDocument doc.starts
  obtain ⟨front, final⟩ := doc.last
  rw [result, strip_around ⟨_, _, first, by decide⟩ ⟨_, _, final, by decide⟩]
  rw [hasTag_lstrip, hasTag_subFenceOpen, hasTag_lstrip] at none_
  rw [← none_, ← blank_take_tailLeft, ← rstrip_eq_nil]
  constructor
  · intro same
    have lengths := congrArg List.length same
    simp only [List.length_append] at lengths
    have keptNil : kept = [] := by
      -- a tag in front begins with no white space, and would make the result longer
      obtain ⟨others, begin_⟩ := begins_of_startsDocument begins
      cases kept with
      | nil => rfl
      | cons c kept =>
        obtain ⟨rfl, -⟩ := List.cons.inj begin_
        rw [lstrip, List.dropWhile_cons_of_neg (by decide), List.length_cons] at lengths
        omega
    subst keptNil
    refine ⟨rfl, List.eq_nil_of_length_eq_zero ?_⟩
    rw [List.nil_append] at lengths
    omega
  · rintro ⟨rfl, blank⟩
    rw [List.nil_append, blank, List.append_nil]
    rfl

private theorem hasTag_opening {before : List Char} (fence : Fence) :
    HasTag u (before ++ fence.opening) ↔ HasTag u before := by
  change HasTag u (before ++ '`' :: (['`', '`'] ++ fence.language ++ fence.lineBreak)) ↔ _
  refine hasTag_mark ?_
  have language : '<' ∉ fence.language := fun member => absurd (fence.plain _ member) (by decide)
  have lineBreak : '<' ∉ fence.lineBreak := by
    rcases fence.ends with same | same <;> rw [same] <;> decide
  simp [language, lineBreak]

private theorem hasClosing_closing {after : List Char} (fence : Fence) :
    HasClosing (fence.closing ++ after) → HasClosing after := by
  unfold HasClosing
  rw [List.map_append]
  refine infix_of_tail fun member => ?_
  obtain ⟨c, inside, lowered⟩ := List.mem_map.mp member
  obtain rfl : c = '<' := eq_of_toLower lowered (by decide)
  have lineBreak : '<' ∉ fence.lineBreak := by
    rcases fence.ends with same | same <;> rw [same] <;> decide
  rcases List.mem_append.mp inside with first | mark
  · exact lineBreak first
  · exact absurd mark (by decide)

/-- The document is given back exactly when no tag is in front of it and, behind it, either
nothing but a closing fence, or white space as long as the document has dotted capital letters I:
each of them takes one more character of what follows. -/
theorem stripDocumentFences_iff (fence : Option Fence) {before after : List Char}
    (doc : IsPage u document) (last : ¬HasClosing after) :
    stripDocumentFences u (reply fence before document after) = document ↔
      ¬HasTag u before ∧
        (OnlyCloses (fence.elim [] Fence.closing ++ after) ∨
          Blank ((fence.elim [] Fence.closing ++ after).take (document.count dottedI))) := by
  have parts : reply fence before document after =
      (before ++ fence.elim [] Fence.opening) ++ document ++
        (fence.elim [] Fence.closing ++ after) := by
    simp only [reply, List.append_assoc]
  rw [parts]
  cases fence with
  | none =>
    simp only [Option.elim_none, List.append_nil, List.nil_append]
    exact strip_between doc last
  | some fence =>
    have last' := fun inside => last (hasClosing_closing fence inside)
    simp only [Option.elim_some]
    rw [strip_between doc last', hasTag_opening]

end

/-! ### A page of dotted letters -/

def dottedPage (letters : Nat) : List Char :=
  "<html>".toList ++ List.replicate letters dottedI ++ "</html>".toList

theorem dottedPage_isPage {letters : Nat} (some_ : 0 < letters) :
    IsPage .latin (dottedPage letters) where
  starts := by
    cases letters with
    | zero => cases some_
    | succ letters =>
      have shape : dottedPage (letters + 1) = ['<', 'h', 't', 'm', 'l', '>'] ++
          dottedI :: (List.replicate letters dottedI ++ "</html>".toList) := rfl
      rw [shape]
      rfl
  ends := by
    have tag : "</html>".toList.map Char.toLower = closingTag := by decide +kernel
    delta dottedPage
    rw [List.map_append, tag]
    exact List.suffix_append ..

private theorem noClosing : ¬HasClosing "\n\nDone.".toList := by
  unfold HasClosing
  decide +kernel

/-- Of three letters, the third takes the first word behind the document with it. -/
theorem stripDocumentFences_dotted :
    ¬∀ (u : Unicode) (fence : Option Fence) (before document after : List Char),
      IsPage u document → ¬HasTag u before → ¬HasClosing after →
        stripDocumentFences u (reply fence before document after) = document := by
  intro recovers
  have same := recovers .latin none [] (dottedPage 3) "\n\nDone.".toList
    (dottedPage_isPage (by decide)) hasTag_nil noClosing
  revert same
  decide +kernel

/-- Of two, both take a line break. -/
theorem stripDocumentFences_iff_dotted :
    stripDocumentFences .latin
      (reply none "Here it is:\n\n".toList (dottedPage 2) "\n\nDone.".toList) = dottedPage 2 := by
  refine (stripDocumentFences_iff none (dottedPage_isPage (by decide)) noClosing).mpr
    ⟨fun tagged => ?_, .inr ?_⟩
  · have free : '<' ∉ "Here it is:\n\n".toList := by decide +kernel
    exact hasTag_nil ((hasTag_append free).mp (by rwa [List.append_nil]))
  · have breaks : List.take 2 "\n\nDone.".toList = ['\n', '\n'] := by decide +kernel
    have newline : isSpace '\n' = true := by decide
    have letters : (dottedPage 2).count dottedI = 2 := by decide +kernel
    rw [letters, Option.elim_none, List.nil_append, breaks]
    exact fun c member => by rcases List.mem_pair.mp member with rfl | rfl <;> exact newline

end MegooPM
