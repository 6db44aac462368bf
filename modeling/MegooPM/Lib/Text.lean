import Mathlib.Data.String.Basic
import Mathlib.Data.List.Sort

/-!
# Texts and sorting

Python's string and list operations that the program relies on: `startswith`,
reading a text file back with universal newlines, `splitlines`, and the stable
`sorted(..., key=...)`.
-/
namespace MegooPM.Lib

/-! ### Prefixes -/

/-- `name.startswith(pre)`. -/
def startsWith (name pre : String) : Bool :=
  pre.toList.isPrefixOf name.toList

/-- A longer name starts as its beginning does. -/
theorem startsWith_append {name pre : String} (starts : startsWith name pre = true)
    (rest : String) : startsWith (name ++ rest) pre = true := by
  simp only [startsWith, List.isPrefixOf_iff_prefix, String.toList_append] at starts ⊢
  exact starts.trans (List.prefix_append ..)

theorem startsWith_trans {name middle pre : String} (first : startsWith name middle = true)
    (second : startsWith middle pre = true) : startsWith name pre = true := by
  simp only [startsWith, List.isPrefixOf_iff_prefix] at first second ⊢
  exact second.trans first

/-! ### Universal newlines -/

/-- What reading a text file in text mode makes of its line ends. -/
def universalNewlines : List Char → List Char
  | [] => []
  | '\r' :: '\n' :: rest => '\n' :: universalNewlines rest
  | '\r' :: rest => '\n' :: universalNewlines rest
  | c :: rest => c :: universalNewlines rest

/-- `path.read_text(encoding="utf-8")` of a file that holds `content`. -/
def readText (content : String) : String :=
  String.ofList (universalNewlines content.toList)

/-- The text holds no carriage return. -/
def NoCarriageReturn (content : String) : Prop :=
  '\r' ∉ content.toList

instance (content : String) : Decidable (NoCarriageReturn content) :=
  inferInstanceAs (Decidable ('\r' ∉ content.toList))

private theorem universalNewlines_id (cs : List Char) (clean : '\r' ∉ cs) :
    universalNewlines cs = cs := by
  induction cs with
  | nil => rfl
  | cons c rest ih =>
    simp only [List.mem_cons, not_or] at clean
    have tail := ih clean.2
    unfold universalNewlines
    split
    · simp_all
    · simp_all
    · simp_all
    · simp_all

private theorem universalNewlines_clean (cs : List Char) : '\r' ∉ universalNewlines cs := by
  fun_induction universalNewlines cs with
  | case1 => simp
  | case2 rest ih => simpa using ih
  | case3 rest _ ih => simpa using ih
  | case4 c rest _ notCr ih =>
    simp only [List.mem_cons, not_or]
    exact ⟨fun same => notCr same.symm, ih⟩

/-- A text without carriage returns is read back as it was written. -/
theorem readText_of_clean {content : String} (clean : NoCarriageReturn content) :
    readText content = content := by
  simp only [readText, universalNewlines_id _ clean, String.ofList_toList]

/-- What is read back never holds a carriage return. -/
theorem readText_clean (content : String) : NoCarriageReturn (readText content) := by
  simp only [NoCarriageReturn, readText, String.toList_ofList]
  exact universalNewlines_clean _

@[simp] theorem readText_readText (content : String) :
    readText (readText content) = readText content :=
  readText_of_clean (readText_clean content)

/-- A text given by its characters. -/
theorem noCarriageReturn_ofList {cs : List Char} (clean : '\r' ∉ cs) :
    NoCarriageReturn (String.ofList cs) := by
  rw [NoCarriageReturn, String.toList_ofList]
  exact clean

@[simp] theorem noCarriageReturn_append (left right : String) :
    NoCarriageReturn (left ++ right) ↔ NoCarriageReturn left ∧ NoCarriageReturn right := by
  simp only [NoCarriageReturn, String.toList_append, List.mem_append, not_or]

theorem noCarriageReturn_intercalate {sep : String} (cleanSep : NoCarriageReturn sep)
    {words : List String} (clean : ∀ w ∈ words, NoCarriageReturn w) :
    NoCarriageReturn (sep.intercalate words) := by
  induction words with
  | nil =>
    rw [String.intercalate_nil]
    decide
  | cons first rest ih =>
    have head := clean first (List.mem_cons_self ..)
    have tail := ih fun w member => clean w (List.mem_cons_of_mem _ member)
    cases rest with
    | nil =>
      rw [String.intercalate_singleton]
      exact head
    | cons second more =>
      rw [String.intercalate_cons_cons]
      simp only [noCarriageReturn_append]
      exact ⟨⟨head, cleanSep⟩, tail⟩

theorem noCarriageReturn_intercalate_iff (words : List String) :
    NoCarriageReturn (" ".intercalate words) ↔ ∀ w ∈ words, NoCarriageReturn w := by
  refine ⟨fun clean => ?_, noCarriageReturn_intercalate (by decide)⟩
  induction words with
  | nil => simp
  | cons first rest ih =>
    cases rest with
    | nil =>
      rw [String.intercalate_singleton] at clean
      simpa using clean
    | cons second more =>
      rw [String.intercalate_cons_cons] at clean
      simp only [noCarriageReturn_append] at clean
      rw [List.forall_mem_cons]
      exact ⟨clean.1.1, ih clean.2⟩

/-! ### Lines -/

/-- The line boundaries of `str.splitlines` other than `\r\n`. -/
def isLineBreak (c : Char) : Bool :=
  c ∈ ['\n', '\r', '\x0b', '\x0c', '\x1c', '\x1d', '\x1e', '\x85', '\u2028', '\u2029']

/-- `str.splitlines()`: the lines without their ends; a final line end opens no
further line. `line` holds the current line in reverse. -/
def splitLinesAux : List Char → List Char → List String
  | [], [] => []
  | [], line => [String.ofList line.reverse]
  | '\r' :: '\n' :: rest, line => String.ofList line.reverse :: splitLinesAux rest []
  | c :: rest, line =>
    if isLineBreak c then String.ofList line.reverse :: splitLinesAux rest []
    else splitLinesAux rest (c :: line)

def splitLines (s : String) : List String :=
  splitLinesAux s.toList []

/-- The template filter `indent(4)`: every line but the first, unless empty, is
indented by four blanks. -/
def indent4 (s : String) : String :=
  match splitLines (s ++ "\n") with
  | [] => ""
  | first :: rest =>
    first ++ String.join (rest.map fun line => "\n" ++ (if line = "" then line else "    " ++ line))

theorem noCarriageReturn_join {lines : List String} (clean : ∀ line ∈ lines, NoCarriageReturn line) :
    NoCarriageReturn (String.join lines) := by
  induction lines with
  | nil => decide
  | cons first rest ih =>
    rw [String.join_cons, noCarriageReturn_append]
    exact ⟨clean first (List.mem_cons_self ..),
      ih fun line member => clean line (List.mem_cons_of_mem _ member)⟩

private theorem noCarriageReturn_splitLinesAux (text line : List Char) (clean : '\r' ∉ line) :
    ∀ part ∈ splitLinesAux text line, NoCarriageReturn part := by
  have ended : ∀ {line : List Char}, '\r' ∉ line →
      NoCarriageReturn (String.ofList line.reverse) := by
    intro line clean
    rw [NoCarriageReturn, String.toList_ofList, List.mem_reverse]
    exact clean
  fun_induction splitLinesAux text line with
  | case1 => simp
  | case2 => simpa using ended clean
  | case3 rest line ih =>
    rw [List.forall_mem_cons]
    exact ⟨ended clean, ih (by simp)⟩
  | case4 c rest line _ breaks ih =>
    rw [List.forall_mem_cons]
    exact ⟨ended clean, ih (by simp)⟩
  | case5 c rest line _ goes ih =>
    -- a carriage return would have ended the line
    refine ih fun member => ?_
    rcases List.mem_cons.mp member with rfl | inside
    · exact goes (by decide)
    · exact clean inside

/-- Whatever the text holds, its lines do not hold a carriage return: it is a line end. -/
theorem noCarriageReturn_indent4 (s : String) : NoCarriageReturn (indent4 s) := by
  have lines := noCarriageReturn_splitLinesAux (s ++ "\n").toList [] (by simp)
  unfold indent4 splitLines
  split
  · decide
  next first rest split =>
    rw [split] at lines
    rw [noCarriageReturn_append]
    refine ⟨lines first (List.mem_cons_self ..), noCarriageReturn_join fun part member => ?_⟩
    obtain ⟨line, inside, rfl⟩ := List.mem_map.mp member
    have clean := lines line (List.mem_cons_of_mem _ inside)
    rw [noCarriageReturn_append]
    refine ⟨by decide, ?_⟩
    split
    · exact clean
    · rw [noCarriageReturn_append]
      exact ⟨by decide, clean⟩

/-- Two texts joined by a separator that the first does not hold can be told apart. -/
theorem append_separator_inj {sep : Char} {a b a' b' : List Char} (clean : sep ∉ a)
    (clean' : sep ∉ a') (same : a ++ sep :: b = a' ++ sep :: b') : a = a' ∧ b = b' := by
  have front : ∀ x y : List Char, sep ∉ x → (x ++ sep :: y).takeWhile (· ≠ sep) = x := by
    intro x y apart
    rw [List.takeWhile_append_of_pos, List.takeWhile_cons_of_neg (by simp), List.append_nil]
    intro c member
    simpa using fun equal : c = sep => apart (equal ▸ member)
  have first : a = a' := by
    rw [← front a b clean, same, front a' b' clean']
  subst first
  exact ⟨rfl, (List.cons.inj (List.append_cancel_left same)).2⟩

/-! ### Texts with a hole -/

/-- A text that depends on another one only through a single copy of it. -/
def Framed (f : String → String) : Prop :=
  ∃ left right, ∀ x, f x = left ++ x ++ right

theorem Framed.prepend {f : String → String} (framed : Framed f) (t : String) :
    Framed fun x => t ++ f x := by
  obtain ⟨left, right, spec⟩ := framed
  exact ⟨t ++ left, right, fun x => by simp only [spec, String.append_assoc]⟩

theorem Framed.append {f : String → String} (framed : Framed f) (t : String) :
    Framed fun x => f x ++ t := by
  obtain ⟨left, right, spec⟩ := framed
  exact ⟨left, right ++ t, fun x => by simp only [spec, String.append_assoc]⟩

/-- What stands in the hole can be read back. -/
theorem Framed.injective {f : String → String} (framed : Framed f) : Function.Injective f := by
  obtain ⟨left, right, spec⟩ := framed
  intro x y same
  rw [spec, spec] at same
  have texts := congrArg String.toList same
  simp only [String.toList_append] at texts
  exact String.toList_inj.mp (List.append_cancel_left (List.append_cancel_right texts))

/-! ### Sorting -/

/-- `sorted(items, key=key)`: stable. -/
def sortedBy {α κ : Type} [LinearOrder κ] (key : α → κ) (items : List α) : List α :=
  items.insertionSort (fun a b => key a ≤ key b)

variable {α κ : Type} [LinearOrder κ]

theorem sortedBy_perm (key : α → κ) (items : List α) : (sortedBy key items).Perm items :=
  List.perm_insertionSort _ items

@[simp] theorem mem_sortedBy (key : α → κ) (items : List α) (a : α) :
    a ∈ sortedBy key items ↔ a ∈ items :=
  (sortedBy_perm key items).mem_iff

theorem pairwise_sortedBy (key : α → κ) (items : List α) :
    (sortedBy key items).Pairwise fun a b => key a ≤ key b :=
  have : IsTrans α fun a b => key a ≤ key b := ⟨fun _ _ _ => le_trans⟩
  have : Std.Total fun a b : α => key a ≤ key b := ⟨fun a b => le_total (key a) (key b)⟩
  List.pairwise_insertionSort _ items

/-- Sorting commutes with a map that keeps the key. -/
theorem sortedBy_map {β : Type} (key : α → κ) (key' : β → κ) (f : α → β) (items : List α)
    (keeps : ∀ a, key' (f a) = key a) : sortedBy key' (items.map f) = (sortedBy key items).map f := by
  refine (List.map_insertionSort _ _ f items fun a _ b _ => ?_).symm
  rw [keeps, keeps]

/-- The same with a selection that the map keeps. -/
theorem sortedBy_filter_map {β : Type} {key : α → κ} {key' : β → κ} {f : α → β} {p : α → Bool}
    {p' : β → Bool} (items : List α) (keeps : ∀ a, key' (f a) = key a)
    (selects : ∀ a, p' (f a) = p a) :
    sortedBy key' ((items.map f).filter p') = (sortedBy key (items.filter p)).map f := by
  have selected : p' ∘ f = p := funext selects
  rw [List.filter_map, selected]
  exact sortedBy_map key key' f _ keeps

/-- Two lists in strict key order with the same items are the same list. -/
theorem eq_of_increasing {key : α → κ} {left right : List α}
    (increasing : left.Pairwise fun a b => key a < key b)
    (increasing' : right.Pairwise fun a b => key a < key b) (same : ∀ a, a ∈ left ↔ a ∈ right) :
    left = right := by
  have nodup : ∀ {l : List α}, (l.Pairwise fun a b => key a < key b) → l.Nodup :=
    fun ordered => ordered.imp fun lower equal => absurd (congrArg key equal) (ne_of_lt lower)
  exact List.Perm.eq_of_pairwise (fun a b _ _ lower upper => absurd lower (lt_asymm upper))
    increasing increasing'
    ((List.perm_ext_iff_of_nodup (nodup increasing) (nodup increasing')).mpr same)

/-- The sorted list is the only sorted one with the same items. -/
theorem sortedBy_eq_of_perm {items ordered : List κ} (same : items.Perm ordered)
    (sorted : ordered.Pairwise (· ≤ ·)) : sortedBy id items = ordered :=
  ((sortedBy_perm id items).trans same).eq_of_pairwise (fun _ _ _ _ => le_antisymm)
    (pairwise_sortedBy id items) sorted

/-! ### Blanks -/

/-- White space, as Unicode has it. -/
def isSpace (c : Char) : Bool :=
  [(0x9, 0xd), (0x1c, 0x20), (0x85, 0x85), (0xa0, 0xa0), (0x1680, 0x1680), (0x2000, 0x200a),
    (0x2028, 0x2029), (0x202f, 0x202f), (0x205f, 0x205f), (0x3000, 0x3000)].any
    fun (first, last) => first ≤ c.toNat ∧ c.toNat ≤ last

/-- The text without the blanks at its ends. -/
def strip (text : List Char) : List Char :=
  ((text.dropWhile isSpace).reverse.dropWhile isSpace).reverse

/-! ### Numbers -/

/-- The decimal text of a number has no colon. -/
theorem colon_notMem_int (i : Int) : ':' ∉ (toString i).toList := by
  have digits : ∀ n : Nat, ':' ∉ n.repr.toList := by
    intro n member
    rw [Nat.toList_repr] at member
    have digit := Nat.isDigit_of_mem_toDigits (by decide) (by decide) member
    revert digit
    decide
  cases i with
  | ofNat n => exact digits n
  | negSucc n =>
    have text : toString (Int.negSucc n) = "-" ++ (n + 1).repr := rfl
    rw [text, String.toList_append]
    intro member
    rcases List.mem_append.mp member with sign | digit
    · revert sign
      decide
    · exact digits _ digit

end MegooPM.Lib
