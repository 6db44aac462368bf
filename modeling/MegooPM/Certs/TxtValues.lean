import MegooPM.Lib.Replace
import Mathlib.Data.String.Basic

/-!
# TXT values from JSON answers

`_txt_value` of `dns_providers/doh.py`: the quoted strings of the presentation form are found by
a regular expression, stripped of their escapes by two replacements and joined.
-/
namespace MegooPM.Doh

open Lib

/-- The group of the expression and what follows its closing quote, from behind an opening one.
The flag says that a backslash has just been read. An item of the group never begins with a
quote, so giving items back does not find one. -/
def quotedBody : Bool → List Char → Option (List Char × List Char)
  | _, [] => none
  | true, c :: rest =>
    -- the dot is any character but a newline
    if c = '\n' then none
    else (quotedBody false rest).map fun found => (c :: found.1, found.2)
  | false, c :: rest =>
    if c = '"' then some ([], rest)
    else (quotedBody (c = '\\') rest).map fun found => (c :: found.1, found.2)

theorem quotedBody_shorter {escaped : Bool} {text : List Char} {found : List Char × List Char}
    (read : quotedBody escaped text = some found) : found.2.length < text.length := by
  induction text generalizing escaped found with
  | nil => cases escaped <;> cases read
  | cons c rest ih =>
    cases escaped with
    | true =>
      rw [quotedBody] at read
      split at read
      · cases read
      · obtain ⟨inner, later, rfl⟩ := Option.map_eq_some_iff.mp read
        have shorter := ih later
        exact Nat.lt_succ_of_lt shorter
    | false =>
      rw [quotedBody] at read
      split at read
      · cases read
        exact Nat.lt_succ_self _
      · obtain ⟨inner, later, rfl⟩ := Option.map_eq_some_iff.mp read
        have shorter := ih later
        exact Nat.lt_succ_of_lt shorter

/-- `_QUOTED.findall(data)` -/
def quotedStrings : List Char → List (List Char)
  | [] => []
  | c :: rest =>
    if c = '"' then
      match _found : quotedBody false rest with
      | some found => found.1 :: quotedStrings found.2
      | none => quotedStrings rest
    else quotedStrings rest
termination_by text => text.length
decreasing_by
  · have shorter := quotedBody_shorter _found
    rw [List.length_cons]
    omega
  · exact Nat.lt_succ_self _
  · exact Nat.lt_succ_self _

/-- The two replacements. -/
def unescape (chunk : List Char) : List Char :=
  replaceAll id ['\\', '\\'] ['\\'] (replaceAll id ['\\', '"'] ['"'] chunk)

/-- `_txt_value` -/
def txtValue (data : String) : String :=
  let chunks := quotedStrings data.toList
  if chunks.isEmpty then data else String.ofList (chunks.flatMap unescape)

/-! ### The presentation form -/

/-- The character in a character-string. -/
def escapeChar (c : Char) : List Char :=
  if c = '"' then ['\\', '"'] else if c = '\\' then ['\\', '\\'] else [c]

def escape (piece : List Char) : List Char :=
  piece.flatMap escapeChar

/-- A character-string, behind so many blanks. -/
def present (piece : Nat × String) : List Char :=
  List.replicate piece.1 ' ' ++ '"' :: (escape piece.2.toList ++ ['"'])

/-- The presentation of a value that is split into pieces. -/
def presentation (pieces : List (Nat × String)) : String :=
  String.ofList (pieces.flatMap present)

theorem escape_cons (c : Char) (piece : List Char) :
    escape (c :: piece) = escapeChar c ++ escape piece :=
  List.flatMap_cons ..

/-- What is escaped is read up to the closing quote. -/
theorem quotedBody_escape (piece after : List Char) :
    quotedBody false (escape piece ++ '"' :: after) = some (escape piece, after) := by
  induction piece with
  | nil => rfl
  | cons c piece ih =>
    rw [escape_cons]
    unfold escapeChar
    split
    · simp [quotedBody, ih]
    · split
      · simp [quotedBody, ih]
      next other plain => simp [quotedBody, other, plain, ih]

/-- What the first replacement leaves: the backslashes are still doubled. -/
def halfEscape (piece : List Char) : List Char :=
  piece.flatMap fun c => if c = '\\' then ['\\', '\\'] else [c]

theorem halfEscape_cons (c : Char) (piece : List Char) :
    halfEscape (c :: piece) = (if c = '\\' then ['\\', '\\'] else [c]) ++ halfEscape piece :=
  List.flatMap_cons ..

/-- An escaped text does not begin with a quote. -/
theorem escape_head (piece : List Char) : ¬['"'] <+: escape piece := by
  intro start
  cases piece with
  | nil => cases List.prefix_nil.mp start
  | cons c piece =>
    rw [escape_cons] at start
    unfold escapeChar at start
    split at start
    · exact absurd (List.cons_prefix_cons.mp start).1 (by decide)
    · split at start
      · exact absurd (List.cons_prefix_cons.mp start).1 (by decide)
      next other _ => exact other (List.cons_prefix_cons.mp start).1.symm

theorem replace_quotes (piece : List Char) :
    replaceAll id ['\\', '"'] ['"'] (escape piece) = halfEscape piece := by
  induction piece with
  | nil => rfl
  | cons c piece ih =>
    rw [escape_cons, halfEscape_cons]
    unfold escapeChar
    split
    next quote =>
      subst quote
      have here : ['\\', '"'].map id = ['\\', '"'] := rfl
      rw [replaceAll_match here (List.cons_ne_nil _ _), ih]
      rfl
    next =>
      split
      next =>
        -- neither backslash is followed by a quote
        rw [List.cons_append, replaceAll_cons, List.singleton_append, replaceAll_cons, ih]
        · rfl
        · rw [List.map_id]
          exact fun start => escape_head piece (List.cons_prefix_cons.mp start).2
        · intro start
          exact absurd (List.cons_prefix_cons.mp (List.cons_prefix_cons.mp start).2).1 (by decide)
      next plain =>
        rw [List.singleton_append, replaceAll_cons, ih]
        · rfl
        · exact fun start => plain (List.cons_prefix_cons.mp start).1.symm

theorem replace_backslashes (piece : List Char) :
    replaceAll id ['\\', '\\'] ['\\'] (halfEscape piece) = piece := by
  induction piece with
  | nil => rfl
  | cons c piece ih =>
    rw [halfEscape_cons]
    split
    next backslash =>
      subst backslash
      have here : ['\\', '\\'].map id = ['\\', '\\'] := rfl
      rw [replaceAll_match here (List.cons_ne_nil _ _), ih]
      rfl
    next plain =>
      rw [List.singleton_append, replaceAll_cons, ih]
      exact fun start => plain (List.cons_prefix_cons.mp start).1.symm

theorem unescape_escape (piece : List Char) : unescape (escape piece) = piece := by
  rw [unescape, replace_quotes, replace_backslashes]

/-! ### Reading it back -/

theorem quotedStrings_blanks (blanks : Nat) (text : List Char) :
    quotedStrings (List.replicate blanks ' ' ++ text) = quotedStrings text := by
  induction blanks with
  | zero => rfl
  | succ blanks ih =>
    rw [List.replicate_succ, List.cons_append, quotedStrings, if_neg (by decide), ih]

theorem quotedStrings_quoted {body after rest : List Char}
    (found : quotedBody false rest = some (body, after)) :
    quotedStrings ('"' :: rest) = body :: quotedStrings after := by
  rw [quotedStrings, if_pos rfl]
  split
  next again =>
    cases again.symm.trans found
    rfl
  next none_ => cases none_.symm.trans found

theorem quotedStrings_presentation (pieces : List (Nat × String)) :
    quotedStrings (pieces.flatMap present) = pieces.map fun piece => escape piece.2.toList := by
  induction pieces with
  | nil => rw [List.flatMap_nil, quotedStrings, List.map_nil]
  | cons piece pieces ih =>
    have next : quotedBody false (escape piece.2.toList ++ ['"'] ++ pieces.flatMap present) =
        some (escape piece.2.toList, pieces.flatMap present) := by
      rw [List.append_assoc]
      exact quotedBody_escape _ _
    rw [List.flatMap_cons, present, List.append_assoc, quotedStrings_blanks, List.cons_append,
      quotedStrings_quoted next, ih, List.map_cons]

/-- Without a quote there is nothing to find. -/
theorem quotedStrings_bare {text : List Char} (bare : '"' ∉ text) : quotedStrings text = [] := by
  induction text with
  | nil => rw [quotedStrings]
  | cons c rest ih =>
    rw [List.mem_cons, not_or] at bare
    rw [quotedStrings, if_neg fun quote => bare.1 quote.symm, ih bare.2]

/-- However a value is split into character-strings and whatever they hold, its presentation is
read back; and what holds no quote is its own value. -/
theorem txtValue_presentation (pieces : List (Nat × String)) :
    txtValue (presentation pieces) = String.join (pieces.map (·.2)) ∧
    ∀ bare : String, '"' ∉ bare.toList → txtValue bare = bare := by
  constructor
  · have text : (presentation pieces).toList = pieces.flatMap present := String.toList_ofList
    unfold txtValue
    simp only [text, quotedStrings_presentation, List.isEmpty_map]
    cases pieces with
    | nil => rfl
    | cons piece pieces =>
      have joined : ∀ words : List (Nat × String),
          (words.map fun word => escape word.2.toList).flatMap unescape =
            (String.join (words.map (·.2))).toList := by
        intro words
        induction words with
        | nil => rfl
        | cons word words ih =>
          rw [List.map_cons, List.flatMap_cons, unescape_escape, ih, List.map_cons,
            String.join_cons, String.toList_append]
      simp only [List.isEmpty_cons, Bool.false_eq_true, if_false, joined, String.ofList_toList]
  · intro bare unquoted
    simp only [txtValue, quotedStrings_bare unquoted, List.isEmpty_nil, if_true]

/-- A value of two pieces with each of the characters that matter, and one without a quote. -/
theorem txtValue_presentation_two :
    presentation [(0, "say \"a\\"), (1, " \\\"b")] = "\"say \\\"a\\\\\" \" \\\\\\\"b\"" ∧
    txtValue "\"say \\\"a\\\\\" \" \\\\\\\"b\"" = "say \"a\\ \\\"b" ∧
    txtValue "to\\ken" = "to\\ken" := by
  have presented : presentation [(0, "say \"a\\"), (1, " \\\"b")] =
      "\"say \\\"a\\\\\" \" \\\\\\\"b\"" := by decide
  refine ⟨presented, ?_, (txtValue_presentation []).2 _ (by decide)⟩
  rw [← presented, (txtValue_presentation _).1]
  decide

end MegooPM.Doh
