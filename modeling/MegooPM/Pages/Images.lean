import MegooPM.Lib.Json
import MegooPM.Lib.Scanning
import Mathlib

/-!
# Images of a page

`components/custom-pages/lib.ts`: before a page is sent to a model, every embedded image is
replaced by a placeholder, and the images are put back into what the model returns. Two
patterns scan two texts. A placeholder is a data URI too, so no placeholder is left in a page
that was elided but the ones that were put there.
-/
namespace MegooPM

open Lib

/-- A JavaScript string: its UTF-16 code units. -/
abbrev JsText := List Nat

/-- The code units of a text in ASCII. -/
def units (text : String) : JsText :=
  text.toList.map Char.toNat

/-! ### The patterns -/

/-- `\d` -/
def isDigitUnit (c : Nat) : Bool :=
  48 ≤ c && c ≤ 57

/-- `[A-Za-z]` -/
def isLetterUnit (c : Nat) : Bool :=
  (65 ≤ c && c ≤ 90) || (97 ≤ c && c ≤ 122)

/-- `[\w.+-]` -/
def isMimeUnit (c : Nat) : Bool :=
  isLetterUnit c || isDigitUnit c || c = 95 || c = 46 || c = 43 || c = 45

/-- `[A-Za-z0-9+/=]` -/
def isBase64Unit (c : Nat) : Bool :=
  isLetterUnit c || isDigitUnit c || c = 43 || c = 47 || c = 61

def takeLiteral (literal s : JsText) : Option JsText :=
  if literal.isPrefixOf s then some (s.drop literal.length) else none

/-- `p+`. What the patterns have behind a repetition is no member of its class, so that none
of the run is ever given back. -/
def takeRun (p : Nat → Bool) (s : JsText) : Option (JsText × JsText) :=
  if s.takeWhile p = [] then none else some (s.takeWhile p, s.dropWhile p)

/-- `[\w.+-]+\/[\w.+-]+` -/
def takeMime (s : JsText) : Option (JsText × JsText) := do
  let (kind, s) ← takeRun isMimeUnit s
  let s ← takeLiteral [47] s
  let (subtype, s) ← takeRun isMimeUnit s
  return (kind ++ 47 :: subtype, s)

def dataPrefix : JsText := units "data:"
def base64Mark : JsText := units ";base64,"
def imageMark : JsText := units "MEGOOPM"
def indexMark : JsText := units "_IMAGE_"

/-- `DATA_URI_WITH_MIME`, with the type it captures. -/
def matchDataUri (s : JsText) : Option (JsText × JsText) := do
  let s ← takeLiteral dataPrefix s
  let (mime, s) ← takeMime s
  let s ← takeLiteral base64Mark s
  let (_, s) ← takeRun isBase64Unit s
  return (mime, s)

/-- `PLACEHOLDER_URI`, with the index it captures. -/
def matchPlaceholder (s : JsText) : Option (JsText × JsText) := do
  let s ← takeLiteral dataPrefix s
  let (_, s) ← takeMime s
  let s ← takeLiteral (base64Mark ++ imageMark ++ indexMark) s
  takeRun isDigitUnit s

/-! ### Eliding -/

structure ElidedDocument where
  /-- The document with every data URI replaced by a placeholder. -/
  html : JsText
  /-- The originals, in order. -/
  images : List JsText
  deriving DecidableEq, Repr

/-- `String(n)`, in code units. -/
def indexText (n : Nat) : JsText :=
  (Nat.toDigits 10 n).map Char.toNat

def placeholder (mime : JsText) (n : Nat) : JsText :=
  dataPrefix ++ (mime ++ (base64Mark ++ imageMark ++ indexMark ++ indexText n))

def elidePiece (document : ElidedDocument) : Piece Nat JsText → ElidedDocument
  | .plain c => { document with html := document.html ++ [c] }
  | .found uri mime =>
    let images := document.images ++ [uri]
    { html := document.html ++ placeholder mime images.length, images }

def elideImages (html : JsText) : ElidedDocument :=
  (scanMatches matchDataUri html).foldl elidePiece ⟨[], []⟩

/-! ### Restoring -/

structure RestoredDocument where
  html : JsText
  /-- Notes for the operator. -/
  warnings : List String
  deriving DecidableEq, Repr

/-- What the callback of `restoreImages` has collected; `seen` has no repetitions. -/
structure Restoring where
  html : JsText := []
  seen : List Nat := []
  unknown : Nat := 0

/-- `Number(index)` -/
def indexValue (index : JsText) : Nat :=
  digitsValue (index.map Char.ofNat)

/-- `images[position - 1]` -/
def imageAt (images : List JsText) : Nat → Option JsText
  | 0 => none
  | n + 1 => images[n]?

def restorePiece (images : List JsText) (document : Restoring) : Piece Nat JsText → Restoring
  | .plain c => { document with html := document.html ++ [c] }
  | .found uri index =>
    match imageAt images (indexValue index) with
    | none => { document with html := document.html ++ uri, unknown := document.unknown + 1 }
    | some original => { document with
        html := document.html ++ original
        seen := document.seen.insert (indexValue index) }

def countImages (n : Nat) : String :=
  if n = 1 then "1 image" else toString n ++ " images"

def restoreWarnings (dropped unknown : Nat) : List String :=
  (if 0 < dropped then
    [countImages dropped ++ " " ++ (if dropped = 1 then "was" else "were") ++
      " removed from the page."] else []) ++
  (if 0 < unknown then
    ["The result referenced " ++ countImages unknown ++ " that isn't in your page."] else [])

def restoreImages (html : JsText) (images : List JsText) : RestoredDocument :=
  let document := (scanMatches matchPlaceholder html).foldl (restorePiece images) {}
  { html := document.html
    warnings := restoreWarnings (images.length - document.seen.length) document.unknown }

/-! ### What the patterns match -/

/-- A type and a subtype. -/
def IsMime (mime : JsText) : Prop :=
  ∃ kind subtype, kind ≠ [] ∧ subtype ≠ [] ∧ (∀ c ∈ kind, isMimeUnit c = true) ∧
    (∀ c ∈ subtype, isMimeUnit c = true) ∧ mime = kind ++ 47 :: subtype

/-- The text does not begin with a member of the class. -/
def StopsAt (p : Nat → Bool) (s : JsText) : Prop :=
  ∀ c, s.head? = some c → p c = false

theorem takeLiteral_iff {literal s rest : JsText} :
    takeLiteral literal s = some rest ↔ s = literal ++ rest := by
  unfold takeLiteral
  constructor
  · intro taken
    split at taken
    next starts =>
      obtain ⟨others, rfl⟩ := List.isPrefixOf_iff_prefix.mp starts
      rw [List.drop_left] at taken
      cases taken
      rfl
    next => cases taken
  · rintro rfl
    rw [if_pos (List.isPrefixOf_iff_prefix.mpr (List.prefix_append ..)), List.drop_left]

theorem takeRun_iff {p : Nat → Bool} {s run rest : JsText} :
    takeRun p s = some (run, rest) ↔
      run ≠ [] ∧ (∀ c ∈ run, p c = true) ∧ StopsAt p rest ∧ s = run ++ rest := by
  unfold takeRun
  constructor
  · intro taken
    split at taken
    next => cases taken
    next some_ =>
      cases taken
      refine ⟨some_, fun c member => List.mem_takeWhile_imp member, fun c head => ?_,
        (List.takeWhile_append_dropWhile).symm⟩
      have stopped := List.head?_dropWhile_not p s
      rw [head] at stopped
      exact stopped
  · rintro ⟨some_, holds, stops, rfl⟩
    have taken : (run ++ rest).takeWhile p = run ∧ (run ++ rest).dropWhile p = rest := by
      rw [List.takeWhile_append_of_pos holds, List.dropWhile_append_of_pos holds]
      cases rest with
      | nil => exact ⟨List.append_nil run, rfl⟩
      | cons c rest =>
        have stop : ¬p c = true := by rw [stops c rfl]; decide
        rw [List.takeWhile_cons_of_neg stop, List.dropWhile_cons_of_neg stop]
        exact ⟨List.append_nil run, rfl⟩
    rw [taken.1, taken.2, if_neg some_]

theorem takeMime_iff {s mime rest : JsText} :
    takeMime s = some (mime, rest) ↔ IsMime mime ∧ StopsAt isMimeUnit rest ∧ s = mime ++ rest := by
  simp only [takeMime, Option.bind_eq_bind, Option.bind_eq_some_iff, Prod.exists,
    takeLiteral_iff, takeRun_iff, Option.pure_def, Option.some.injEq, Prod.mk.injEq]
  constructor
  · rintro ⟨kind, _, ⟨some_, holds, -, rfl⟩, _, rfl, subtype, _, ⟨some', holds', stops, rfl⟩, rfl,
      rfl⟩
    exact ⟨⟨kind, subtype, some_, some', holds, holds', rfl⟩, stops, by simp⟩
  · rintro ⟨⟨kind, subtype, some_, some', holds, holds', rfl⟩, stops, rfl⟩
    refine ⟨kind, 47 :: (subtype ++ rest), ⟨some_, holds, ?_, by simp⟩, subtype ++ rest, rfl, subtype,
      rest, ⟨some', holds', stops, rfl⟩, rfl, rfl⟩
    rintro c ⟨⟩
    decide

theorem stopsAt_cons {p : Nat → Bool} {c : Nat} (stop : p c = false) (s : JsText) :
    StopsAt p (c :: s) := by
  rintro d ⟨⟩
  exact stop

theorem dataPrefix_eq : dataPrefix = [100, 97, 116, 97, 58] := by
  decide

theorem base64Mark_eq : base64Mark = [59, 98, 97, 115, 101, 54, 52, 44] := by
  decide

theorem imageMark_eq : imageMark = [77, 69, 71, 79, 79, 80, 77] := by
  decide

theorem indexMark_eq : indexMark = [95, 73, 77, 65, 71, 69, 95] := by
  decide

private theorem stopsAt_base64Mark (s : JsText) : StopsAt isMimeUnit (base64Mark ++ s) := by
  rw [base64Mark_eq]
  exact stopsAt_cons (by decide) _

theorem matchDataUri_iff {s mime rest : JsText} :
    matchDataUri s = some (mime, rest) ↔ IsMime mime ∧ ∃ payload, payload ≠ [] ∧
      (∀ c ∈ payload, isBase64Unit c = true) ∧ StopsAt isBase64Unit rest ∧
      s = dataPrefix ++ (mime ++ (base64Mark ++ (payload ++ rest))) := by
  simp only [matchDataUri, Option.bind_eq_bind, Option.bind_eq_some_iff, Prod.exists,
    takeLiteral_iff, takeRun_iff, takeMime_iff, Option.pure_def, Option.some.injEq, Prod.mk.injEq]
  constructor
  · rintro ⟨_, rfl, _, _, ⟨type, -, rfl⟩, _, rfl, payload, _, ⟨some_, holds, stops, rfl⟩, rfl, rfl⟩
    exact ⟨type, payload, some_, holds, stops, rfl⟩
  · rintro ⟨type, payload, some_, holds, stops, rfl⟩
    exact ⟨_, rfl, mime, _, ⟨type, stopsAt_base64Mark _, rfl⟩, _, rfl, payload, rest,
      ⟨some_, holds, stops, rfl⟩, rfl, rfl⟩

theorem matchPlaceholder_iff {s index rest : JsText} :
    matchPlaceholder s = some (index, rest) ↔ ∃ mime, IsMime mime ∧ index ≠ [] ∧
      (∀ c ∈ index, isDigitUnit c = true) ∧ StopsAt isDigitUnit rest ∧
      s = dataPrefix ++ (mime ++ (base64Mark ++ imageMark ++ indexMark ++ (index ++ rest))) := by
  simp only [matchPlaceholder, Option.bind_eq_bind, Option.bind_eq_some_iff, Prod.exists,
    takeLiteral_iff, takeRun_iff, takeMime_iff]
  constructor
  · rintro ⟨_, rfl, mime, _, ⟨type, -, rfl⟩, _, rfl, some_, holds, stops, rfl⟩
    exact ⟨mime, type, some_, holds, stops, rfl⟩
  · rintro ⟨mime, type, some_, holds, stops, rfl⟩
    refine ⟨_, rfl, mime, _, ⟨type, ?_, rfl⟩, _, rfl, some_, holds, stops, rfl⟩
    simp only [List.append_assoc]
    exact stopsAt_base64Mark _

theorem consumes_dataUri : Consumes matchDataUri := by
  intro s mime rest matched
  obtain ⟨-, payload, -, -, -, rfl⟩ := matchDataUri_iff.mp matched
  exact ⟨dataPrefix ++ (mime ++ (base64Mark ++ payload)), by simp [dataPrefix_eq], by simp⟩

theorem consumes_placeholder : Consumes matchPlaceholder := by
  intro s index rest matched
  obtain ⟨mime, -, -, -, -, rfl⟩ := matchPlaceholder_iff.mp matched
  exact ⟨dataPrefix ++ (mime ++ (base64Mark ++ imageMark ++ indexMark ++ index)),
    by simp [dataPrefix_eq], by simp⟩

/-- What begins like a placeholder begins like a data URI, whatever follows. -/
theorem isSome_matchDataUri {s : JsText} (matched : (matchPlaceholder s).isSome = true)
    (more : JsText) : (matchDataUri (s ++ more)).isSome = true := by
  obtain ⟨⟨index, rest⟩, matched⟩ := Option.isSome_iff_exists.mp matched
  obtain ⟨mime, type, -, -, -, rfl⟩ := matchPlaceholder_iff.mp matched
  have payload : matchDataUri (dataPrefix ++ (mime ++ (base64Mark ++ imageMark ++ indexMark ++
      (index ++ rest))) ++ more) = some (mime, indexMark ++ (index ++ rest ++ more)) := by
    refine matchDataUri_iff.mpr ⟨type, imageMark, by decide, by decide, ?_, by simp⟩
    rw [indexMark_eq]
    exact stopsAt_cons (by decide) _
  rw [payload]
  rfl

/-! ### No match runs into a data URI -/

private theorem notMem_of_mime {mime : JsText} (type : IsMime mime) : 58 ∉ mime := by
  obtain ⟨kind, subtype, -, -, holds, holds', rfl⟩ := type
  intro member
  rcases List.mem_append.mp member with inside | inside
  · exact absurd (holds 58 inside) (by decide)
  · rcases List.mem_cons.mp inside with same | inside
    · exact absurd same (by decide)
    · exact absurd (holds' 58 inside) (by decide)

/-- A text that has its only colon at the end of `data:`, and does not end like the word, is not
cut by the beginning of a data URI. -/
private theorem append_data {s tail rest more : JsText} (some_ : s ≠ []) (inside : tail ≠ [])
    (noColon : 58 ∉ tail) (last : ∀ c ∈ tail.getLast?, isDigitUnit c = true)
    (split : s ++ (dataPrefix ++ more) = dataPrefix ++ tail ++ rest) :
    ∃ left, s = dataPrefix ++ tail ++ left ∧ rest = left ++ (dataPrefix ++ more) := by
  rcases List.append_eq_append_iff.mp split with ⟨ahead, whole, behind⟩ | ⟨left, whole, behind⟩
  · by_cases none_ : ahead = []
    · subst none_
      exact ⟨[], by simpa using whole.symm, by simpa using behind.symm⟩
    · exfalso
      have final : (dataPrefix ++ tail).getLast? = ahead.getLast? := by
        rw [whole, List.getLast?_append_of_ne_nil _ none_]
      rw [List.getLast?_append_of_ne_nil _ inside] at final
      rw [final] at last
      have begins : ahead <+: 100 :: 97 :: 116 :: 97 :: 58 :: more := by
        rw [dataPrefix_eq] at behind
        exact ⟨rest, behind.symm⟩
      by_cases short : ahead.length ≤ 4
      · -- the text would end like a beginning of the word
        have word : ahead <+: [100, 97, 116, 97] :=
          List.prefix_of_prefix_length_le begins (List.prefix_append [100, 97, 116, 97] _) short
        have letters : ∀ w ∈ [100, 97, 116, 97].inits, w ≠ [] →
            ¬∀ c ∈ w.getLast?, isDigitUnit c = true := by
          decide
        exact letters ahead (List.mem_inits _ _ |>.mpr word) none_ last
      · -- the text would have a second colon
        obtain ⟨further, rfl⟩ : [100, 97, 116, 97, 58] <+: ahead :=
          List.prefix_of_prefix_length_le (List.prefix_append [100, 97, 116, 97, 58] more) begins
            (by simp only [List.length_cons, List.length_nil]; omega)
        have long : dataPrefix.length ≤ (s ++ [100, 97, 116, 97]).length := by
          have positive := List.length_pos_of_ne_nil some_
          simp only [dataPrefix_eq, List.length_append, List.length_cons, List.length_nil]
          omega
        have parts : dataPrefix ++ tail = s ++ [100, 97, 116, 97] ++ 58 :: further := by
          simpa using whole
        have dropped := congrArg (List.drop dataPrefix.length) parts
        rw [List.drop_left, List.drop_append_of_le_length long] at dropped
        exact noColon (dropped ▸ List.mem_append_right _ (List.mem_cons_self ..))
  · exact ⟨left, whole, behind⟩

theorem separates_data (more : JsText) : Separates matchPlaceholder (dataPrefix ++ more) := by
  intro s some_
  apply Option.ext
  rintro ⟨index, rest⟩
  rw [Option.map_eq_some_iff]
  constructor
  · intro matched
    obtain ⟨mime, type, digits, holds, stops, split⟩ := matchPlaceholder_iff.mp matched
    have tailColon : 58 ∉ mime ++ (base64Mark ++ imageMark ++ indexMark ++ index) := by
      simp only [List.mem_append, not_or, base64Mark_eq, imageMark_eq, indexMark_eq]
      refine ⟨notMem_of_mime type, ⟨⟨by decide, by decide⟩, by decide⟩, fun member => ?_⟩
      exact absurd (holds 58 member) (by decide)
    have tailLast : ∀ c ∈ (mime ++ (base64Mark ++ imageMark ++ indexMark ++ index)).getLast?,
        isDigitUnit c = true := by
      intro c final
      rw [List.getLast?_append_of_ne_nil _ (by simp [digits]),
        List.getLast?_append_of_ne_nil _ digits] at final
      exact holds c (List.mem_of_getLast? final)
    obtain ⟨left, rfl, rfl⟩ := append_data some_ (by simp [digits]) tailColon tailLast
      (split.trans (by simp) : s ++ (dataPrefix ++ more) =
        dataPrefix ++ (mime ++ (base64Mark ++ imageMark ++ indexMark ++ index)) ++ rest)
    refine ⟨(index, left), matchPlaceholder_iff.mpr ⟨mime, type, digits, holds, ?_, by simp⟩, rfl⟩
    intro c head
    exact stops c (by rw [List.head?_append, head]; rfl)
  · rintro ⟨⟨_, left⟩, matched, same⟩
    cases same
    obtain ⟨mime, type, digits, holds, stops, rfl⟩ := matchPlaceholder_iff.mp matched
    refine matchPlaceholder_iff.mpr ⟨mime, type, digits, holds, ?_, by simp⟩
    cases left with
    | nil =>
      rw [List.nil_append, dataPrefix_eq]
      exact stopsAt_cons (by decide) _
    | cons c left => exact fun d head => stops d head

theorem separates_nil : Separates matchPlaceholder [] := by
  intro s _
  rw [List.append_nil]
  cases matchPlaceholder s with
  | none => rfl
  | some m => simp

/-! ### Placeholders -/

theorem indexValue_indexText (n : Nat) : indexValue (indexText n) = n := by
  have back : (indexText n).map Char.ofNat = Nat.toDigits 10 n := by
    rw [indexText, List.map_map]
    exact List.map_id'' Char.ofNat_toNat _
  rw [indexValue, back, digitsValue, Nat.ofDigitChars_ten_toDigits]

theorem matchPlaceholder_placeholder {mime rest : JsText} (type : IsMime mime) (n : Nat)
    (stops : StopsAt isDigitUnit rest) :
    matchPlaceholder (placeholder mime n ++ rest) = some (indexText n, rest) := by
  refine matchPlaceholder_iff.mpr ⟨mime, type, ?_, ?_, stops, by simp [placeholder]⟩
  · simp [indexText]
  · intro c member
    obtain ⟨d, digit, rfl⟩ := List.mem_map.mp member
    have bounds := Nat.isDigit_of_mem_toDigits (by decide) (by decide) digit
    simpa [isDigitUnit, Char.isDigit, Char.le_def, UInt32.le_iff_toNat_le] using bounds

theorem placeholder_ne_nil (mime : JsText) (n : Nat) : placeholder mime n ≠ [] := by
  simp [placeholder, dataPrefix_eq]

/-! ### Arrangements -/

/-- An image of a document: the type and the number of its placeholder, and what it was. -/
structure SentImage where
  mime : JsText
  number : Nat
  original : JsText
  deriving DecidableEq, Repr

def SentImage.placeholder (image : SentImage) : JsText :=
  MegooPM.placeholder image.mime image.number

/-- A text, and images with the text behind each of them. -/
def arrange (pick : SentImage → JsText) (first : JsText) (parts : List (SentImage × JsText)) :
    JsText :=
  first ++ parts.flatMap fun part => pick part.1 ++ part.2

/-- The text before the first image, and each image with the text behind it, when `n` images
come before. -/
def groupFrom (n : Nat) : List (Piece Nat JsText) → JsText × List (SentImage × JsText)
  | [] => ([], [])
  | .plain c :: rest => (c :: (groupFrom n rest).1, (groupFrom n rest).2)
  | .found uri mime :: rest => ([],
      (⟨mime, n + 1, uri⟩, (groupFrom (n + 1) rest).1) :: (groupFrom (n + 1) rest).2)

/-- A document by its images. -/
def grouped (html : JsText) : JsText × List (SentImage × JsText) :=
  groupFrom 0 (scanMatches matchDataUri html)

/-- The images of a document, in order. -/
def sentImages (html : JsText) : List SentImage :=
  (grouped html).2.map Prod.fst

private theorem arrange_original (n : Nat) (pieces : List (Piece Nat JsText)) :
    arrange SentImage.original (groupFrom n pieces).1 (groupFrom n pieces).2 =
      pieces.flatMap Piece.text := by
  induction pieces generalizing n with
  | nil => rfl
  | cons piece rest ih =>
    cases piece with
    | plain c => exact congrArg (c :: ·) (ih n)
    | found uri mime =>
      have later := ih (n + 1)
      simp only [arrange, groupFrom, List.nil_append, List.flatMap_cons, List.append_assoc] at later ⊢
      rw [later]
      rfl

/-- A document is its texts and originals. -/
theorem arrange_grouped (html : JsText) :
    arrange SentImage.original (grouped html).1 (grouped html).2 = html :=
  (arrange_original 0 _).trans (scanMatches_text consumes_dataUri html)

private theorem foldl_elidePiece (pieces : List (Piece Nat JsText)) (document : ElidedDocument) :
    pieces.foldl elidePiece document =
      { html := document.html ++ arrange SentImage.placeholder
          (groupFrom document.images.length pieces).1 (groupFrom document.images.length pieces).2
        images := document.images ++
          (groupFrom document.images.length pieces).2.map (·.1.original) } := by
  induction pieces generalizing document with
  | nil => simp [groupFrom, arrange]
  | cons piece rest ih =>
    rw [List.foldl_cons, ih]
    cases piece with
    | plain c => simp [elidePiece, groupFrom, arrange]
    | found uri mime => simp [elidePiece, groupFrom, arrange, SentImage.placeholder]

/-- The elided document is its texts and placeholders. -/
theorem elideImages_eq (html : JsText) :
    elideImages html =
      { html := arrange SentImage.placeholder (grouped html).1 (grouped html).2
        images := (sentImages html).map SentImage.original } := by
  rw [elideImages, foldl_elidePiece]
  simp [grouped, sentImages]

/-- Images are numbered as they come. -/
private theorem numbers_groupFrom (n : Nat) (pieces : List (Piece Nat JsText)) :
    (groupFrom n pieces).2.map (·.1.number) =
      List.range' (n + 1) (groupFrom n pieces).2.length := by
  induction pieces generalizing n with
  | nil => rfl
  | cons piece rest ih =>
    cases piece with
    | plain c => exact ih n
    | found uri mime =>
      rw [groupFrom, List.map_cons, ih (n + 1), List.length_cons, List.range'_succ]

theorem numbers_sentImages (html : JsText) :
    (sentImages html).map SentImage.number = List.range' 1 (sentImages html).length := by
  rw [sentImages, List.map_map, List.length_map]
  exact numbers_groupFrom 0 (scanMatches matchDataUri html)

/-- A number finds the image it was given to. -/
theorem imageAt_number {html : JsText} {image : SentImage} (sent : image ∈ sentImages html) :
    imageAt ((sentImages html).map SentImage.original) image.number = some image.original := by
  obtain ⟨i, bound, rfl⟩ := List.mem_iff_getElem.mp sent
  have number : (sentImages html)[i].number = i + 1 := by
    have at_ := congrArg (·[i]?) (numbers_sentImages html)
    simp only [List.getElem?_map, List.getElem?_eq_getElem bound, Option.map_some,
      List.getElem?_range' bound, Option.some.injEq] at at_
    omega
  rw [number, imageAt, List.getElem?_map, List.getElem?_eq_getElem bound, Option.map_some]

private theorem isMime_groupFrom {pieces : List (Piece Nat JsText)}
    (types : ∀ uri mime, .found uri mime ∈ pieces → IsMime mime) (n : Nat) :
    ∀ part ∈ (groupFrom n pieces).2, IsMime part.1.mime := by
  induction pieces generalizing n with
  | nil => simp [groupFrom]
  | cons piece rest ih =>
    have later := ih fun uri mime member => types uri mime (List.mem_cons_of_mem _ member)
    cases piece with
    | plain c => exact later n
    | found uri mime =>
      intro part member
      rcases List.mem_cons.mp member with rfl | behind
      · exact types uri mime (List.mem_cons_self ..)
      · exact later (n + 1) part behind

theorem isMime_of_sent {html : JsText} {image : SentImage} (sent : image ∈ sentImages html) :
    IsMime image.mime := by
  obtain ⟨part, member, rfl⟩ := List.mem_map.mp sent
  refine isMime_groupFrom (fun uri mime found => ?_) 0 part member
  obtain ⟨rest, matched⟩ := matched_of_mem_scanMatches consumes_dataUri found
  exact (matchDataUri_iff.mp matched).1

/-! ### Restoring an arrangement -/

/-- What a part of a scanned document becomes. -/
def restoredPiece (images : List JsText) : Piece Nat JsText → JsText
  | .plain c => [c]
  | .found uri index => (imageAt images (indexValue index)).getD uri

/-- A text with what it has of placeholders restored. -/
def restoredText (images : List JsText) (html : JsText) : JsText :=
  (scanMatches matchPlaceholder html).flatMap (restoredPiece images)

private theorem foldl_restorePiece_html (images : List JsText) (pieces : List (Piece Nat JsText))
    (document : Restoring) :
    (pieces.foldl (restorePiece images) document).html =
      document.html ++ pieces.flatMap (restoredPiece images) := by
  induction pieces generalizing document with
  | nil => simp
  | cons piece rest ih =>
    rw [List.foldl_cons, ih, List.flatMap_cons, ← List.append_assoc]
    cases piece with
    | plain c => rfl
    | found uri index =>
      cases known : imageAt images (indexValue index) <;> simp [restorePiece, restoredPiece, known]

theorem restoreImages_html (html : JsText) (images : List JsText) :
    (restoreImages html images).html = restoredText images html := by
  rw [restoreImages, foldl_restorePiece_html]
  rfl

/-- The parts behind a text begin with a data URI, or there are none. -/
private theorem separates_parts (parts : List (SentImage × JsText)) :
    Separates matchPlaceholder
      (parts.flatMap fun part => part.1.placeholder ++ part.2) := by
  cases parts with
  | nil => exact separates_nil
  | cons part rest =>
    rw [List.flatMap_cons, SentImage.placeholder, placeholder, List.append_assoc, List.append_assoc]
    exact separates_data _

private theorem stopsAt_parts {text : JsText} (stops : StopsAt isDigitUnit text)
    (parts : List (SentImage × JsText)) :
    StopsAt isDigitUnit (text ++ parts.flatMap fun part => part.1.placeholder ++ part.2) := by
  cases text with
  | cons c text => exact fun d head => stops d head
  | nil =>
    cases parts with
    | nil => exact stops
    | cons part rest =>
      rw [List.nil_append, List.flatMap_cons, SentImage.placeholder, placeholder, dataPrefix_eq]
      exact stopsAt_cons (by decide) _

/-- What is found in an arrangement are its placeholders, and what its texts have. -/
theorem scan_arrange {parts : List (SentImage × JsText)}
    (types : ∀ part ∈ parts, IsMime part.1.mime)
    (stops : ∀ part ∈ parts, StopsAt isDigitUnit part.2) (first : JsText) :
    scanMatches matchPlaceholder (arrange SentImage.placeholder first parts) =
      scanMatches matchPlaceholder first ++ parts.flatMap fun part =>
        .found part.1.placeholder (indexText part.1.number) ::
          scanMatches matchPlaceholder part.2 := by
  rw [arrange, scanMatches_append consumes_placeholder (separates_parts parts)]
  congr 1
  induction parts with
  | nil => rfl
  | cons part rest ih =>
    have own := stops part (List.mem_cons_self ..)
    have found : matchPlaceholder (part.1.placeholder ++ (part.2 ++
        rest.flatMap fun part => part.1.placeholder ++ part.2)) = some (indexText part.1.number,
          part.2 ++ rest.flatMap fun part => part.1.placeholder ++ part.2) :=
      matchPlaceholder_placeholder (types part (List.mem_cons_self ..)) _ (stopsAt_parts own rest)
    have some_ : part.1.placeholder ≠ [] := placeholder_ne_nil _ _
    rw [List.flatMap_cons, List.append_assoc, scanMatches_found some_ found,
      scanMatches_append consumes_placeholder (separates_parts rest),
      ih (fun p member => types p (List.mem_cons_of_mem _ member))
        fun p member => stops p (List.mem_cons_of_mem _ member), List.flatMap_cons]
    rfl

/-- Every placeholder of an arrangement becomes the image it stands for. -/
theorem restoredText_arrange {html first : JsText} {parts : List (SentImage × JsText)}
    (sent : ∀ part ∈ parts, part.1 ∈ sentImages html)
    (stops : ∀ part ∈ parts, StopsAt isDigitUnit part.2) :
    restoredText (elideImages html).images (arrange SentImage.placeholder first parts) =
      restoredText (elideImages html).images first ++ parts.flatMap fun part =>
        part.1.original ++ restoredText (elideImages html).images part.2 := by
  rw [restoredText, scan_arrange (fun part member => isMime_of_sent (sent part member)) stops,
    List.flatMap_append, List.flatMap_assoc, elideImages_eq]
  congr 1
  refine List.flatMap_congr fun part member => ?_
  rw [List.flatMap_cons, restoredPiece, indexValue_indexText, imageAt_number (sent part member)]
  rfl

/-! ### The round trip -/

/-- Nothing in the text is taken for a placeholder. -/
def Plain (text : JsText) : Prop :=
  scanMatches matchPlaceholder text = text.map .plain

theorem restoredText_plain {text : JsText} (plain : Plain text) (images : List JsText) :
    restoredText images text = text := by
  rw [restoredText, plain, List.flatMap_map]
  exact List.flatMap_singleton' text

private theorem head_groupFrom {n : Nat} {s : JsText} {c : Nat}
    (head : (groupFrom n (scanMatches matchDataUri s)).1.head? = some c) : s.head? = some c := by
  induction s using scanMatches_induction consumes_dataUri with
  | nil => cases head
  | plain d s none_ _ =>
    rw [scanMatches_plain none_] at head
    exact head
  | found taken mime rest some_ matched _ =>
    rw [scanMatches_found some_ matched] at head
    cases head

/-- The texts between the images of a document have no placeholder in them, and no digit behind
an image. -/
private theorem plain_groupFrom (n : Nat) (s : JsText) :
    Plain (groupFrom n (scanMatches matchDataUri s)).1 ∧
      ∀ part ∈ (groupFrom n (scanMatches matchDataUri s)).2,
        Plain part.2 ∧ StopsAt isDigitUnit part.2 := by
  induction s using scanMatches_induction consumes_dataUri generalizing n with
  | nil => exact ⟨rfl, by simp [groupFrom]⟩
  | plain c s none_ ih =>
    rw [scanMatches_plain none_]
    refine ⟨?_, (ih n).2⟩
    have whole := (arrange_original n (scanMatches matchDataUri s)).trans
      (scanMatches_text consumes_dataUri s)
    have unmatched :
        matchPlaceholder (c :: (groupFrom n (scanMatches matchDataUri s)).1) = none := by
      -- a placeholder here would begin a data URI of the document
      rw [Option.eq_none_iff_forall_ne_some]
      intro m matched
      have uri := isSome_matchDataUri (Option.isSome_of_eq_some matched)
        ((groupFrom n (scanMatches matchDataUri s)).2.flatMap fun part =>
          part.1.original ++ part.2)
      rw [List.cons_append, ← arrange, whole, none_] at uri
      cases uri
    change scanMatches matchPlaceholder (c :: _) = .plain c :: List.map _ _
    rw [scanMatches_plain unmatched, (ih n).1]
  | found taken mime rest some_ matched ih =>
    rw [scanMatches_found some_ matched]
    refine ⟨rfl, fun part member => ?_⟩
    rcases List.mem_cons.mp member with rfl | behind
    · refine ⟨(ih (n + 1)).1, fun c head => ?_⟩
      obtain ⟨-, payload, -, -, stops, -⟩ := matchDataUri_iff.mp matched
      have other := stops c (head_groupFrom head)
      simp only [isBase64Unit, Bool.or_eq_false_iff] at other
      exact other.1.1.1.2
    · exact (ih (n + 1)).2 part behind

theorem plain_grouped (html : JsText) :
    Plain (grouped html).1 ∧
      ∀ part ∈ (grouped html).2, Plain part.2 ∧ StopsAt isDigitUnit part.2 :=
  plain_groupFrom 0 html

/-- The number that a part of a scanned document refers to. -/
def position : Piece Nat JsText → Option Nat
  | .plain _ => none
  | .found _ index => some (indexValue index)

/-- References to different images, all of them known, are seen one by one. -/
private theorem foldl_restorePiece_counts (images : List JsText)
    (pieces : List (Piece Nat JsText)) (document : Restoring)
    (known : ∀ p ∈ pieces.filterMap position, (imageAt images p).isSome = true)
    (distinct : (pieces.filterMap position).Nodup)
    (fresh : ∀ p ∈ pieces.filterMap position, p ∉ document.seen) :
    (pieces.foldl (restorePiece images) document).seen.length =
        document.seen.length + (pieces.filterMap position).length ∧
      (pieces.foldl (restorePiece images) document).unknown = document.unknown := by
  induction pieces generalizing document with
  | nil => exact ⟨rfl, rfl⟩
  | cons piece rest ih =>
    cases piece with
    | plain c => exact ih _ known distinct fresh
    | found uri index =>
      obtain ⟨unseen, distinct⟩ := List.nodup_cons.mp distinct
      obtain ⟨original, found⟩ :=
        Option.isSome_iff_exists.mp (known (indexValue index) (List.mem_cons_self ..))
      have new : indexValue index ∉ document.seen :=
        fresh (indexValue index) (List.mem_cons_self ..)
      have step : restorePiece images document (.found uri index) =
          { document with
            html := document.html ++ original
            seen := indexValue index :: document.seen } := by
        simp only [restorePiece, found, List.insert_of_not_mem new]
      rw [List.foldl_cons, step]
      obtain ⟨size, unknown⟩ := ih { document with
          html := document.html ++ original
          seen := indexValue index :: document.seen }
        (fun p member => known p (List.mem_cons_of_mem _ member)) distinct (by
          intro p member
          rw [List.mem_cons, not_or]
          refine ⟨?_, fresh p (List.mem_cons_of_mem _ member)⟩
          rintro rfl
          exact unseen member)
      refine ⟨?_, unknown⟩
      rw [size]
      change _ = document.seen.length + ((rest.filterMap position).length + 1)
      rw [List.length_cons]
      omega

private theorem positions_elided (html : JsText) :
    (scanMatches matchPlaceholder (elideImages html).html).filterMap position =
      (sentImages html).map SentImage.number := by
  obtain ⟨first, texts⟩ := plain_grouped html
  have none_ : ∀ {text : JsText}, Plain text →
      (scanMatches matchPlaceholder text).filterMap position = [] := by
    intro text plain
    rw [plain, List.filterMap_map]
    exact List.filterMap_eq_nil_iff.mpr fun c _ => rfl
  rw [elideImages_eq]
  dsimp only
  rw [scan_arrange (fun part member => isMime_of_sent (List.mem_map_of_mem member))
    (fun part member => (texts part member).2), List.filterMap_append, none_ first,
    List.nil_append, List.filterMap_flatMap, sentImages, List.map_map, List.map_eq_flatMap]
  refine List.flatMap_congr fun part member => ?_
  rw [List.filterMap_cons]
  simp only [position, indexValue_indexText, none_ (texts part member).1]
  rfl

/-- What was elided comes back, and no image is missed. -/
theorem restoreImages_elideImages (html : JsText) :
    restoreImages (elideImages html).html (elideImages html).images = ⟨html, []⟩ := by
  obtain ⟨first, texts⟩ := plain_grouped html
  have text : (restoreImages (elideImages html).html (elideImages html).images).html = html := by
    have elided : (elideImages html).html =
        arrange SentImage.placeholder (grouped html).1 (grouped html).2 := by
      rw [elideImages_eq]
    rw [restoreImages_html, elided, restoredText_arrange (fun part member => List.mem_map_of_mem member)
      (fun part member => (texts part member).2), restoredText_plain first]
    have originals : ((grouped html).2.flatMap fun part =>
        part.1.original ++ restoredText (elideImages html).images part.2) =
        (grouped html).2.flatMap fun part => part.1.original ++ part.2 :=
      List.flatMap_congr fun part member => by
        rw [restoredText_plain (texts part member).1]
    rw [originals]
    exact arrange_grouped html
  have positions := positions_elided html
  have counted := foldl_restorePiece_counts (elideImages html).images
    (scanMatches matchPlaceholder (elideImages html).html) {} (by
      intro p member
      rw [positions] at member
      obtain ⟨image, sent, rfl⟩ := List.mem_map.mp member
      rw [elideImages_eq, imageAt_number sent]
      rfl) (by rw [positions, numbers_sentImages]; exact List.nodup_range') (by simp)
  have all : (elideImages html).images.length =
      ((scanMatches matchPlaceholder (elideImages html).html).filterMap position).length := by
    rw [positions, elideImages_eq]
    simp
  have warnings :
      (restoreImages (elideImages html).html (elideImages html).images).warnings = [] := by
    rw [restoreImages]
    dsimp only
    rw [counted.1, counted.2, all]
    simp [restoreWarnings]
  exact congrArg₂ RestoredDocument.mk text warnings

/-- The images come back into the elided document, and into every arrangement of text and
placeholders in which no digit follows a placeholder. -/
theorem images_restored (html : JsText) :
    restoreImages (elideImages html).html (elideImages html).images = ⟨html, []⟩ ∧
    arrange SentImage.original (grouped html).1 (grouped html).2 = html ∧
    (elideImages html).html =
      arrange SentImage.placeholder (grouped html).1 (grouped html).2 ∧
    ∀ first parts, (∀ part ∈ parts, part.1 ∈ sentImages html) →
      (∀ part ∈ parts, StopsAt isDigitUnit part.2) →
      (restoreImages (arrange SentImage.placeholder first parts) (elideImages html).images).html =
        (restoreImages first (elideImages html).images).html ++ parts.flatMap fun part =>
          part.1.original ++ (restoreImages part.2 (elideImages html).images).html := by
  refine ⟨restoreImages_elideImages html, arrange_grouped html, by rw [elideImages_eq], ?_⟩
  intro first parts sent stops
  simp only [restoreImages_html]
  exact restoredText_arrange sent stops

/-- A document with an image behind a digit. -/
def numberedPage : JsText := units "7 data:a/b;base64,A"

def numberedImage : SentImage := ⟨units "a/b", 1, units "data:a/b;base64,A"⟩

/-- Its placeholder in front and once more at the end: both become the image. -/
theorem images_restored_numbered :
    restoreImages (elideImages numberedPage).html (elideImages numberedPage).images =
      ⟨numberedPage, []⟩ ∧
    (restoreImages (units "data:a/b;base64,MEGOOPM_IMAGE_1 7 data:a/b;base64,MEGOOPM_IMAGE_1")
      (elideImages numberedPage).images).html =
        units "data:a/b;base64,A 7 data:a/b;base64,A" := by
  have sent : numberedImage ∈ sentImages numberedPage := by
    decide +kernel
  have restored := (images_restored numberedPage).2.2.2 []
    [(numberedImage, units " 7 "), (numberedImage, [])]
    (by simpa using sent) (by
      have stops : ∀ text ∈ [units " 7 ", []], ∀ c ∈ text.head?, isDigitUnit c = false := by
        decide
      simpa [StopsAt] using stops)
  refine ⟨(images_restored numberedPage).1, ?_⟩
  have arranged : arrange SentImage.placeholder []
      [(numberedImage, units " 7 "), (numberedImage, [])] =
      units "data:a/b;base64,MEGOOPM_IMAGE_1 7 data:a/b;base64,MEGOOPM_IMAGE_1" := by
    decide +kernel
  rw [arranged] at restored
  rw [restored]
  decide +kernel

/-- The parts of the elided document the other way round: the digit behind the placeholder is
read as one of its number, and the image does not come back. -/
theorem images_restored_swapped :
    (elideImages numberedPage).html =
        units "7 " ++ units "data:a/b;base64,MEGOOPM_IMAGE_1" ∧
      (elideImages numberedPage).images = [units "data:a/b;base64,A"] ∧
      (restoreImages (units "data:a/b;base64,MEGOOPM_IMAGE_1" ++ units "7 ")
        (elideImages numberedPage).images).html ≠ units "data:a/b;base64,A" ++ units "7 " := by
  decide +kernel

end MegooPM
