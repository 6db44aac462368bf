import MegooPM.Lib.Json
import MegooPM.Lib.Raising
import Mathlib

/-!
# Writing JSON

`json.dumps` with `ensure_ascii`, the grammar its texts belong to, and what is read back.
-/
namespace MegooPM.Lib

/-- The options of `json.dumps` in use. -/
structure JsonStyle where
  itemSeparator : List Char
  keySeparator : List Char
  allowNan : Bool

def JsonStyle.default : JsonStyle := ⟨[',', ' '], [':', ' '], true⟩

def JsonStyle.compact : JsonStyle := ⟨[','], [':'], false⟩

/-- A surrogate is escaped by itself, and every other code point as the character it is. -/
def pointText (n : Nat) : List Char :=
  if isHighSurrogate n || isLowSurrogate n then unicodeEscape n else jsonChar (Char.ofNat n)

def quoted (s : CodePoints) : List Char :=
  '\"' :: s.flatMap pointText ++ ['\"']

def writeInt (n : Int) : Except JsonError (List Char) :=
  if (decimalDigits n.natAbs).length ≤ maxStrDigits then
    .ok ((if n < 0 then ['-'] else []) ++ decimalDigits n.natAbs)
  else .error .valueError

def writeDouble (style : JsonStyle) : Double → Except JsonError (List Char)
  | .finite negative mantissa exponent => .ok (reprFinite negative mantissa exponent)
  | .infinite negative =>
    if style.allowNan then
      .ok ((if negative then ['-'] else []) ++ ['I', 'n', 'f', 'i', 'n', 'i', 't', 'y'])
    else .error .valueError
  | .nan => if style.allowNan then .ok ['N', 'a', 'N'] else .error .valueError

mutual

/-- `json.dumps(value)`, with room for so many containers inside each other. -/
def writeJson (style : JsonStyle) (room : Nat) : Json → Except JsonError (List Char)
  | .null => .ok ['n', 'u', 'l', 'l']
  | .bool true => .ok ['t', 'r', 'u', 'e']
  | .bool false => .ok ['f', 'a', 'l', 's', 'e']
  | .int n => writeInt n
  | .float x => writeDouble style x
  | .text s => .ok (quoted s)
  | .array items =>
    if room = 0 then .error .recursionError
    else do
      let parts ← writeItems style (room - 1) items
      return '[' :: style.itemSeparator.intercalate parts ++ [']']
  | .object members =>
    if room = 0 then .error .recursionError
    else do
      let parts ← writeMembers style (room - 1) members
      return '{' :: style.itemSeparator.intercalate parts ++ ['}']

def writeItems (style : JsonStyle) (room : Nat) : List Json → Except JsonError (List (List Char))
  | [] => .ok []
  | item :: rest => do
    let part ← writeJson style room item
    let parts ← writeItems style room rest
    return part :: parts

def writeMembers (style : JsonStyle) (room : Nat) :
    List (CodePoints × Json) → Except JsonError (List (List Char))
  | [] => .ok []
  | (key, value) :: rest => do
    let part ← writeJson style room value
    let parts ← writeMembers style room rest
    return (quoted key ++ style.keySeparator ++ part) :: parts

end

/-! ### What can be written -/

mutual

/-- Every value that is no container meets `p`. -/
def Json.Scalars (p : Json → Prop) : Json → Prop
  | .array items => ItemScalars p items
  | .object members => MemberScalars p members
  | value => p value

def ItemScalars (p : Json → Prop) : List Json → Prop
  | [] => True
  | item :: rest => item.Scalars p ∧ ItemScalars p rest

def MemberScalars (p : Json → Prop) : List (CodePoints × Json) → Prop
  | [] => True
  | (_, value) :: rest => value.Scalars p ∧ MemberScalars p rest

end

mutual

/-- How many containers are inside each other. -/
def Json.depth : Json → Nat
  | .array items => itemDepth items + 1
  | .object members => memberDepth members + 1
  | _ => 0

def itemDepth : List Json → Nat
  | [] => 0
  | item :: rest => max item.depth (itemDepth rest)

def memberDepth : List (CodePoints × Json) → Nat
  | [] => 0
  | (_, value) :: rest => max value.depth (memberDepth rest)

end

/-- Induction with the items of an array, and the values of an object, as hypotheses. -/
theorem Json.containers {motive : Json → Prop}
    (null : motive .null) (bool : ∀ b, motive (.bool b)) (int : ∀ n, motive (.int n))
    (float : ∀ x, motive (.float x)) (text : ∀ s, motive (.text s))
    (array : ∀ items, (∀ item ∈ items, motive item) → motive (.array items))
    (object : ∀ members : List (CodePoints × Json), (∀ member ∈ members, motive member.2) →
      motive (.object members)) (v : Json) : motive v := by
  refine @Json.rec motive (fun items => ∀ item ∈ items, motive item)
    (fun members => ∀ member ∈ members, motive member.2) (fun member => motive member.2)
    null bool int float text array object ?_ ?_ ?_ ?_ (fun _ _ value => value) v
  · simp
  · exact fun _ _ head tail => List.forall_mem_cons.mpr ⟨head, tail⟩
  · simp
  · exact fun _ _ head tail => List.forall_mem_cons.mpr ⟨head, tail⟩

theorem itemScalars_iff {p : Json → Prop} {items : List Json} :
    ItemScalars p items ↔ ∀ item ∈ items, item.Scalars p := by
  induction items with
  | nil => simp [ItemScalars]
  | cons item rest ih => rw [ItemScalars, ih, List.forall_mem_cons]

theorem memberScalars_iff {p : Json → Prop} {members : List (CodePoints × Json)} :
    MemberScalars p members ↔ ∀ member ∈ members, member.2.Scalars p := by
  induction members with
  | nil => simp [MemberScalars]
  | cons member rest ih => rw [MemberScalars, ih, List.forall_mem_cons]

theorem Json.Scalars.imp₂ {p q r : Json → Prop} (both : ∀ v, p v → q v → r v) {v : Json}
    (left : v.Scalars p) (right : v.Scalars q) : v.Scalars r := by
  induction v using Json.containers with
  | array items ih =>
    rw [Json.Scalars, itemScalars_iff] at left right ⊢
    exact fun item member => ih item member (left item member) (right item member)
  | object members ih =>
    rw [Json.Scalars, memberScalars_iff] at left right ⊢
    exact fun member inside => ih member inside (left member inside) (right member inside)
  | _ => exact both _ left right

theorem memberDepth_le_iff {members : List (CodePoints × Json)} {n : Nat} :
    memberDepth members ≤ n ↔ ∀ member ∈ members, member.2.depth ≤ n := by
  induction members with
  | nil => simp [memberDepth]
  | cons member rest ih => rw [memberDepth, Nat.max_le, ih, List.forall_mem_cons]

theorem itemDepth_le_iff {items : List Json} {n : Nat} :
    itemDepth items ≤ n ↔ ∀ item ∈ items, item.depth ≤ n := by
  induction items with
  | nil => simp [itemDepth]
  | cons item rest ih => rw [itemDepth, Nat.max_le, ih, List.forall_mem_cons]

/-- A number that JSON has, and that Python converts to a text. -/
def Json.Writable : Json → Prop
  | .int n => (decimalDigits n.natAbs).length ≤ maxStrDigits
  | .float x => x.isFinite = true
  | _ => True

/-! ### The grammar -/

/-- What stands between the quotes: plain characters and the two kinds of escapes. -/
inductive IsTextBody : List Char → Prop where
  | nil : IsTextBody []
  | plain {c : Char} {rest : List Char} : 0x20 ≤ c.toNat → c ≠ '\"' → c ≠ '\\' →
    IsTextBody rest → IsTextBody (c :: rest)
  | short {c : Char} {rest : List Char} : (shortEscape c).isSome = true →
    IsTextBody rest → IsTextBody ('\\' :: c :: rest)
  | unicode {a b c d : Char} {rest : List Char} : (fourHex a b c d).isSome = true →
    IsTextBody rest → IsTextBody ('\\' :: 'u' :: a :: b :: c :: d :: rest)

def IsQuoted (cs : List Char) : Prop :=
  ∃ body, cs = '\"' :: body ++ ['\"'] ∧ IsTextBody body

def Blanks (cs : List Char) : Prop :=
  ∀ c ∈ cs, isBlank c = true

/-- A JSON text. -/
inductive IsJson : List Char → Prop where
  | null : IsJson ['n', 'u', 'l', 'l']
  | true : IsJson ['t', 'r', 'u', 'e']
  | false : IsJson ['f', 'a', 'l', 's', 'e']
  | number {cs : List Char} : (readNumber cs).isSome = Bool.true → IsJson cs
  | text {cs : List Char} : IsQuoted cs → IsJson cs
  | emptyArray {within : List Char} : Blanks within → IsJson ('[' :: within ++ [']'])
  | array {items : List (List Char)} : (∀ item ∈ items, IsJson item) →
    IsJson ('[' :: [','].intercalate items ++ [']'])
  | emptyObject {within : List Char} : Blanks within → IsJson ('{' :: within ++ ['}'])
  | object {members : List (List Char × List Char)} :
    (∀ member ∈ members, ∃ front back, Blanks front ∧ Blanks back ∧
      ∃ key, IsQuoted key ∧ member.1 = front ++ key ++ back) →
    (∀ member ∈ members, IsJson member.2) →
    IsJson ('{' :: [','].intercalate (members.map fun member => member.1 ++ ':' :: member.2) ++ ['}'])
  | blanks {front cs back : List Char} : Blanks front → Blanks back → IsJson cs →
    IsJson (front ++ cs ++ back)

/-! ### Texts -/

section

variable {rest : List Char}

theorem IsTextBody.unicodeEscape (body : IsTextBody rest) (n : Nat) :
    IsTextBody (unicodeEscape n ++ rest) := by
  obtain ⟨a, b, c, d, escaped, read⟩ := unicodeEscape_eq n
  rw [escaped]
  exact .unicode (by rw [read]; rfl) body

theorem IsTextBody.jsonChar (body : IsTextBody rest) (c : Char) :
    IsTextBody (jsonChar c ++ rest) := by
  unfold Lib.jsonChar
  split
  all_goals try exact .short rfl body
  next quote backslash _ _ _ _ _ =>
    split
    next printable =>
      simp only [isPrintable, Bool.and_eq_true, decide_eq_true_eq] at printable
      exact .plain printable.1 quote backslash body
    · split
      · exact body.unicodeEscape _
      · -- the pair of surrogates is two escapes
        rw [List.append_assoc]
        exact (body.unicodeEscape _).unicodeEscape _

theorem IsTextBody.points (s : CodePoints) : IsTextBody (s.flatMap pointText) := by
  induction s with
  | nil => exact .nil
  | cons n s ih =>
    rw [List.flatMap_cons, pointText]
    split
    · exact ih.unicodeEscape n
    · exact ih.jsonChar _

end

theorem isQuoted_quoted (s : CodePoints) : IsQuoted (quoted s) :=
  ⟨_, rfl, IsTextBody.points s⟩

/-! ### Numbers -/

def Digits (ds : List Char) : Prop :=
  ds ≠ [] ∧ ∀ c ∈ ds, c.isDigit = true

private theorem span_digits {ds tail : List Char} (digits : ∀ c ∈ ds, c.isDigit = true)
    (stops : ∀ c, tail.head? = some c → c.isDigit = false) :
    (ds ++ tail).takeWhile Char.isDigit = ds ∧ (ds ++ tail).dropWhile Char.isDigit = tail := by
  have nothing : tail.takeWhile Char.isDigit = [] ∧ tail.dropWhile Char.isDigit = tail := by
    cases tail with
    | nil => exact ⟨rfl, rfl⟩
    | cons c tail =>
      have other := stops c rfl
      simp [other]
  rw [List.takeWhile_append_of_pos digits, List.dropWhile_append_of_pos digits, nothing.1,
    nothing.2, List.append_nil]
  exact ⟨rfl, rfl⟩

/-- An exponent as Python writes it. -/
def IsExponent (cs : List Char) : Prop :=
  ∃ sign ds, cs = 'e' :: sign :: ds ∧ (sign = '+' ∨ sign = '-') ∧ Digits ds

private theorem readTail_isSome (negative : Bool) (whole fraction : List Char)
    {exponent : List Char} (shape : exponent = [] ∨ IsExponent exponent) :
    (readTail negative whole fraction exponent).isSome = true := by
  rcases shape with rfl | ⟨sign, ds, rfl, rfl | rfl, some_, digits⟩
  · rfl
  all_goals
    have all : ds.all Char.isDigit = true := List.all_eq_true.mpr digits
    simp [readTail, readExponent, some_, all]

private theorem readFraction_isSome (negative : Bool) (whole : List Char)
    {fraction exponent : List Char} (fractional : fraction = [] ∨ ∃ ds, fraction = '.' :: ds ∧ Digits ds)
    (shape : exponent = [] ∨ IsExponent exponent) :
    (readFraction negative whole (fraction ++ exponent)).isSome = true := by
  have stops : ∀ c, exponent.head? = some c → c.isDigit = false := by
    rcases shape with rfl | ⟨sign, ds, rfl, _⟩
    · simp
    · rintro _ ⟨⟩
      rfl
  rcases fractional with rfl | ⟨ds, rfl, some_, all⟩
  · have plain : readFraction negative whole exponent = readTail negative whole [] exponent := by
      rcases shape with rfl | ⟨sign, ds, rfl, _⟩ <;> rfl
    rw [List.nil_append, plain]
    exact readTail_isSome negative whole [] shape
  · obtain ⟨taken, left⟩ := span_digits all stops
    simp only [List.cons_append, readFraction, taken, left, if_neg some_]
    exact readTail_isSome negative whole ds shape

private theorem readUnsigned_isSome (negative : Bool) {whole fraction exponent : List Char}
    (digits : Digits whole) (plain : whole.head? = some '0' → whole.length = 1)
    (fractional : fraction = [] ∨ ∃ ds, fraction = '.' :: ds ∧ Digits ds)
    (shape : exponent = [] ∨ IsExponent exponent) :
    (readUnsigned negative (whole ++ (fraction ++ exponent))).isSome = true := by
  obtain ⟨some_, all⟩ := digits
  have stops : ∀ c, (fraction ++ exponent).head? = some c → c.isDigit = false := by
    rcases fractional with rfl | ⟨ds, rfl, _⟩
    · rcases shape with rfl | ⟨sign, ds, rfl, _⟩
      · simp
      · rintro _ ⟨⟩
        rfl
    · rintro _ ⟨⟩
      rfl
  obtain ⟨taken, left⟩ := span_digits all stops
  have accepted : ¬(whole = [] ∨ (whole.head? = some '0' ∧ whole.length ≠ 1)) := by
    rintro (none_ | ⟨zero, long⟩)
    · exact some_ none_
    · exact long (plain zero)
  simp only [readUnsigned, taken, left, if_neg accepted]
  exact readFraction_isSome negative whole fractional shape

/-- Sign, whole part, fraction and exponent: a number literal. -/
theorem readNumber_isSome (negative : Bool) {whole fraction exponent : List Char}
    (digits : Digits whole) (plain : whole.head? = some '0' → whole.length = 1)
    (fractional : fraction = [] ∨ ∃ ds, fraction = '.' :: ds ∧ Digits ds)
    (shape : exponent = [] ∨ IsExponent exponent) :
    (readNumber ((if negative then ['-'] else []) ++
      (whole ++ (fraction ++ exponent)))).isSome = true := by
  have unsigned := fun negative => readUnsigned_isSome negative digits plain fractional shape
  cases negative with
  | true => exact unsigned true
  | false =>
    cases whole with
    | nil => exact absurd rfl digits.1
    | cons c whole =>
      -- the first digit is no sign
      have other : c ≠ '-' := by
        rintro rfl
        exact absurd (digits.2 '-' (List.mem_cons_self ..)) (by decide)
      have same : ∀ text, readNumber (c :: text) = readUnsigned false (c :: text) := by
        intro text
        unfold readNumber
        split
        next equal => exact absurd (List.cons.inj equal).1 other
        · rfl
      simp only [Bool.false_eq_true, if_false, List.nil_append, List.cons_append, same]
      exact unsigned false

theorem digits_decimalDigits (n : Nat) : Digits (decimalDigits n) :=
  ⟨Nat.toDigits_ne_nil, fun _ => Nat.isDigit_of_mem_toDigits (by decide) (by decide)⟩

/-- Only zero starts with a zero. -/
theorem eq_zero_of_head {n : Nat} (zero : (decimalDigits n).head? = some '0') : n = 0 := by
  induction n using Nat.strong_induction_on with
  | _ n ih =>
    rw [decimalDigits, Nat.toDigits_eq_if (by decide)] at zero
    split at zero
    next small =>
      have all : ∀ d < 10, [Nat.digitChar d].head? = some '0' → d = 0 := by decide
      exact all n small zero
    next large =>
      rw [List.head?_append_of_ne_nil _ Nat.toDigits_ne_nil] at zero
      have front := ih (n / 10) (by omega) zero
      omega

theorem plain_decimalDigits (n : Nat) (zero : (decimalDigits n).head? = some '0') :
    (decimalDigits n).length = 1 := by
  rw [eq_zero_of_head zero]
  rfl

theorem isJson_writeInt {n : Int} {text : List Char} (written : writeInt n = .ok text) :
    IsJson text := by
  unfold writeInt at written
  split at written
  · cases written
    have number := readNumber_isSome (decide (n < 0)) (digits_decimalDigits n.natAbs)
      (plain_decimalDigits _) (Or.inl rfl) (Or.inl rfl)
    simp only [decide_eq_true_eq, List.append_nil] at number
    exact .number number
  · cases written

/-- Digits and where their point stands, as `repr` is given them. -/
def IsMantissa (digits : List Char) (point : Int) : Prop :=
  Digits digits ∧ (digits.head? = some '0' → digits = ['0'] ∧ point = 1)

private theorem digits_zero : Digits ['0'] :=
  ⟨List.cons_ne_nil _ _, fun c member => by rw [List.mem_singleton.mp member]; rfl⟩

private theorem isMantissa_zero : IsMantissa ['0'] 1 :=
  ⟨digits_zero, fun _ => ⟨rfl, rfl⟩⟩

theorem isMantissa_digitsAt {x : Double} {fraction : Nat × Nat} {point : Int} {places : Nat}
    {found : List Char × Int} (at_ : digitsAt x fraction point places = some found) :
    IsMantissa found.1 found.2 := by
  unfold digitsAt at at_
  obtain ⟨digits, chosen, rfl⟩ := Option.map_eq_some_iff.mp at_
  have positive : 0 < digits := by
    have meets := List.find?_some chosen
    simp only [Bool.and_eq_true, decide_eq_true_eq] at meets
    exact meets.1
  obtain ⟨some_, all⟩ := digits_decimalDigits digits
  have first : (decimalDigits digits).head? ≠ some '0' := fun zero =>
    absurd (eq_zero_of_head zero) (by omega)
  obtain ⟨c, rest, spelled⟩ := List.exists_cons_of_ne_nil some_
  rw [spelled] at first all ⊢
  have other : (c == '0') = false := by simpa using first
  -- the zeros dropped at the end never reach the first digit
  have kept : ∃ front, (c :: rest).rdropWhile (· == '0') = c :: front ∧ front ⊆ rest := by
    have pre := List.rdropWhile_prefix (· == '0') (l := c :: rest)
    cases cut : (c :: rest).rdropWhile (· == '0') with
    | nil =>
      have zero := List.rdropWhile_eq_nil_iff.mp cut c (List.mem_cons_self ..)
      rw [other] at zero
      cases zero
    | cons d front =>
      rw [cut] at pre
      obtain ⟨rfl, within⟩ := List.cons_prefix_cons.mp pre
      exact ⟨front, rfl, within.subset⟩
  obtain ⟨front, dropped, sub⟩ := kept
  rw [dropped]
  refine ⟨⟨List.cons_ne_nil _ _, fun d member => ?_⟩, fun zero => absurd zero (by simpa using first)⟩
  rcases List.mem_cons.mp member with rfl | inside
  · exact all d (List.mem_cons_self ..)
  · exact all d (List.mem_cons_of_mem _ (sub inside))

theorem isMantissa_shortestDigits (mantissa : Nat) (exponent : Int) :
    IsMantissa (shortestDigits mantissa exponent).1 (shortestDigits mantissa exponent).2 := by
  unfold shortestDigits
  simp only
  cases found : (List.range' 1 17).findSome? _ with
  | none => exact isMantissa_zero
  | some pair =>
    obtain ⟨places, _, at_⟩ := List.exists_of_findSome?_eq_some found
    exact isMantissa_digitsAt at_

theorem isExponent_exponentText (e : Int) : IsExponent (exponentText e) := by
  obtain ⟨some_, all⟩ := digits_decimalDigits e.natAbs
  refine ⟨_, _, rfl, ?_, ?_⟩
  · split
    · exact Or.inr rfl
    · exact Or.inl rfl
  · split
    · refine ⟨List.cons_ne_nil _ _, fun c member => ?_⟩
      rcases List.mem_cons.mp member with rfl | inside
      · rfl
      · exact all c inside
    · exact ⟨some_, all⟩

/-- Wherever the point is put, the text is a whole part, a fraction and an exponent. -/
theorem placePoint_shape {digits : List Char} {point : Int} (shape : IsMantissa digits point) :
    ∃ whole fraction exponent, placePoint digits point = whole ++ (fraction ++ exponent) ∧
      Digits whole ∧ (whole.head? = some '0' → whole.length = 1) ∧
      (fraction = [] ∨ ∃ ds, fraction = '.' :: ds ∧ Digits ds) ∧
      (exponent = [] ∨ IsExponent exponent) := by
  obtain ⟨⟨some_, all⟩, zero⟩ := shape
  have within : ∀ {part : List Char}, part ≠ [] → (∀ c ∈ part, c ∈ digits) → Digits part :=
    fun some_ sub => ⟨some_, fun c member => all c (sub c member)⟩
  have zeros : ∀ n, ∀ c ∈ List.replicate n '0', c.isDigit = true := by
    intro n c member
    rw [List.eq_of_mem_replicate member]
    rfl
  unfold placePoint
  split
  -- with an exponent: one digit before the point
  · refine ⟨digits.take 1, if digits.length = 1 then [] else '.' :: digits.drop 1,
      exponentText (point - 1), by rw [List.append_assoc], within ?_ fun _ => List.mem_of_mem_take,
      ?_, ?_, Or.inr (isExponent_exponentText _)⟩
    · simpa using some_
    · intro _
      rw [List.length_take]
      have := List.length_pos_iff.mpr some_
      omega
    · split
      · exact Or.inl rfl
      next more =>
        refine Or.inr ⟨_, rfl, within ?_ fun _ => List.mem_of_mem_drop⟩
        have := List.length_pos_iff.mpr some_
        rw [Ne, List.drop_eq_nil_iff]
        omega
  split
  -- before the first digit: zeros follow the point
  · refine ⟨['0'], '.' :: (List.replicate (-point).toNat '0' ++ digits), [], by simp,
      digits_zero, fun _ => rfl, Or.inr ⟨_, rfl, ?_, ?_⟩, Or.inl rfl⟩
    · simp [some_]
    · intro c member
      rcases List.mem_append.mp member with front | inside
      · exact zeros _ c front
      · exact all c inside
  split
  next positive inside =>
    -- among the digits
    refine ⟨digits.take point.toNat, '.' :: digits.drop point.toNat, [], by simp,
      within ?_ fun _ => List.mem_of_mem_take, ?_,
      Or.inr ⟨_, rfl, within ?_ fun _ => List.mem_of_mem_drop⟩, Or.inl rfl⟩
    · rw [Ne, List.take_eq_nil_iff]
      rintro (none_ | none_)
      · omega
      · exact some_ none_
    · intro first
      rw [List.head?_take, if_neg (by omega)] at first
      obtain ⟨rfl, rfl⟩ := zero first
      rfl
    · rw [Ne, List.drop_eq_nil_iff]
      omega
  next positive beyond =>
    -- behind the last digit: zeros fill up to the point
    refine ⟨digits ++ List.replicate (point.toNat - digits.length) '0', ['.', '0'], [], by simp,
      ⟨by simp [some_], ?_⟩, ?_, Or.inr ⟨['0'], rfl, digits_zero⟩, Or.inl rfl⟩
    · intro c member
      rcases List.mem_append.mp member with inside | back
      · exact all c inside
      · exact zeros _ c back
    · intro first
      rw [List.head?_append_of_ne_nil _ some_] at first
      obtain ⟨rfl, rfl⟩ := zero first
      rfl

theorem isJson_writeDouble {style : JsonStyle} (strict : style.allowNan = false) {x : Double}
    {text : List Char} (written : writeDouble style x = .ok text) : IsJson text := by
  cases x with
  | infinite negative =>
    rw [writeDouble, strict] at written
    cases written
  | nan =>
    rw [writeDouble, strict] at written
    cases written
  | finite negative mantissa exponent =>
    cases written
    have shape : IsMantissa (if mantissa = 0 then (['0'], 1) else shortestDigits mantissa exponent).1
        (if mantissa = 0 then (['0'], 1) else shortestDigits mantissa exponent).2 := by
      split
      · exact isMantissa_zero
      · exact isMantissa_shortestDigits mantissa exponent
    obtain ⟨whole, fraction, tail, spelled, digits, plain, fractional, scaled⟩ :=
      placePoint_shape shape
    refine .number ?_
    rw [reprFinite, spelled]
    exact readNumber_isSome negative digits plain fractional scaled

/-! ### Values -/

section

variable {style : JsonStyle} {room : Nat}

theorem writeItems_ok_iff {items : List Json} :
    (∃ parts, writeItems style room items = .ok parts) ↔
      ∀ item ∈ items, ∃ part, writeJson style room item = .ok part := by
  induction items with
  | nil => simp [writeItems]
  | cons item rest ih =>
    rw [List.forall_mem_cons, ← ih, writeItems]
    constructor
    · rintro ⟨parts, written⟩
      obtain ⟨part, first, others⟩ := bind_eq_ok written
      obtain ⟨parts, others, _⟩ := bind_eq_ok others
      exact ⟨⟨part, first⟩, parts, others⟩
    · rintro ⟨⟨part, first⟩, parts, others⟩
      rw [first, others]
      exact ⟨_, rfl⟩

theorem writeMembers_ok_iff {members : List (CodePoints × Json)} :
    (∃ parts, writeMembers style room members = .ok parts) ↔
      ∀ member ∈ members, ∃ part, writeJson style room member.2 = .ok part := by
  induction members with
  | nil => simp [writeMembers]
  | cons member rest ih =>
    rw [List.forall_mem_cons, ← ih, writeMembers]
    constructor
    · rintro ⟨parts, written⟩
      obtain ⟨part, first, others⟩ := bind_eq_ok written
      obtain ⟨parts, others, _⟩ := bind_eq_ok others
      exact ⟨⟨part, first⟩, parts, others⟩
    · rintro ⟨⟨part, first⟩, parts, others⟩
      rw [first, others]
      exact ⟨_, rfl⟩

theorem writeArray_ok_iff {items : List Json} :
    (∃ text, writeJson style room (.array items) = .ok text) ↔
      0 < room ∧ ∃ parts, writeItems style (room - 1) items = .ok parts := by
  rw [writeJson]
  split
  next none_ => simp [none_]
  next some_ =>
    constructor
    · rintro ⟨text, written⟩
      obtain ⟨parts, written, _⟩ := bind_eq_ok written
      exact ⟨Nat.pos_of_ne_zero some_, parts, written⟩
    · rintro ⟨_, parts, written⟩
      rw [written]
      exact ⟨_, rfl⟩

theorem writeObject_ok_iff {members : List (CodePoints × Json)} :
    (∃ text, writeJson style room (.object members) = .ok text) ↔
      0 < room ∧ ∃ parts, writeMembers style (room - 1) members = .ok parts := by
  rw [writeJson]
  split
  next none_ => simp [none_]
  next some_ =>
    constructor
    · rintro ⟨text, written⟩
      obtain ⟨parts, written, _⟩ := bind_eq_ok written
      exact ⟨Nat.pos_of_ne_zero some_, parts, written⟩
    · rintro ⟨_, parts, written⟩
      rw [written]
      exact ⟨_, rfl⟩

theorem writeInt_ok_iff {n : Int} :
    (∃ text, writeInt n = .ok text) ↔ (decimalDigits n.natAbs).length ≤ maxStrDigits := by
  unfold writeInt
  split
  next short => simp [short]
  next long => simp [long]

theorem writeDouble_ok_iff (strict : style.allowNan = false) {x : Double} :
    (∃ text, writeDouble style x = .ok text) ↔ x.isFinite = true := by
  cases x with
  | finite negative mantissa exponent => simp [writeDouble, Double.isFinite]
  | infinite negative => simp [writeDouble, Double.isFinite, strict]
  | nan => simp [writeDouble, Double.isFinite, strict]

/-- A value is written exactly when there is room for its containers and every number in it
is one that JSON has. -/
theorem writeJson_ok_iff (strict : style.allowNan = false) (v : Json) :
    (∃ text, writeJson style room v = .ok text) ↔ v.Scalars Json.Writable ∧ v.depth ≤ room := by
  induction v using Json.containers generalizing room with
  | null => simp [writeJson, Json.Scalars, Json.Writable, Json.depth]
  | bool b => cases b <;> simp [writeJson, Json.Scalars, Json.Writable, Json.depth]
  | int n =>
    rw [writeJson, writeInt_ok_iff]
    simp [Json.Scalars, Json.Writable, Json.depth]
  | float x =>
    rw [writeJson, writeDouble_ok_iff strict]
    simp [Json.Scalars, Json.Writable, Json.depth]
  | text s => simp [writeJson, Json.Scalars, Json.Writable, Json.depth]
  | array items ih =>
    rw [writeArray_ok_iff, writeItems_ok_iff, Json.Scalars, itemScalars_iff, Json.depth]
    constructor
    · rintro ⟨positive, each⟩
      have parts := fun item member => (ih item member).mp (each item member)
      have inner := itemDepth_le_iff.mpr fun item member => (parts item member).2
      exact ⟨fun item member => (parts item member).1, by omega⟩
    · rintro ⟨each, deep⟩
      have inner := itemDepth_le_iff.mp (Nat.le_sub_one_of_lt deep)
      exact ⟨by omega, fun item member => (ih item member).mpr ⟨each item member, inner item member⟩⟩
  | object members ih =>
    rw [writeObject_ok_iff, writeMembers_ok_iff, Json.Scalars, memberScalars_iff, Json.depth]
    constructor
    · rintro ⟨positive, each⟩
      have parts := fun member inside => (ih member inside).mp (each member inside)
      have inner := memberDepth_le_iff.mpr fun member inside => (parts member inside).2
      exact ⟨fun member inside => (parts member inside).1, by omega⟩
    · rintro ⟨each, deep⟩
      have inner := memberDepth_le_iff.mp (Nat.le_sub_one_of_lt deep)
      exact ⟨by omega, fun member inside =>
        (ih member inside).mpr ⟨each member inside, inner member inside⟩⟩

theorem mem_writeItems {P : List Char → Prop} {items : List Json} {parts : List (List Char)}
    (each : ∀ item ∈ items, ∀ part, writeJson style room item = .ok part → P part)
    (written : writeItems style room items = .ok parts) : ∀ part ∈ parts, P part := by
  induction items generalizing parts with
  | nil =>
    cases written
    simp
  | cons item rest ih =>
    rw [writeItems] at written
    obtain ⟨part, first, written⟩ := bind_eq_ok written
    obtain ⟨others, rest_, written⟩ := bind_eq_ok written
    cases written
    rw [List.forall_mem_cons] at each ⊢
    exact ⟨each.1 part first, ih each.2 rest_⟩

theorem writeMembers_eq {P : List Char → Prop} {members : List (CodePoints × Json)}
    {parts : List (List Char)}
    (each : ∀ member ∈ members, ∀ part, writeJson style room member.2 = .ok part → P part)
    (written : writeMembers style room members = .ok parts) :
    ∃ texts : List (List Char × List Char),
      parts = texts.map (fun text => text.1 ++ (style.keySeparator ++ text.2)) ∧
      ∀ text ∈ texts, IsQuoted text.1 ∧ P text.2 := by
  induction members generalizing parts with
  | nil =>
    cases written
    exact ⟨[], rfl, by simp⟩
  | cons member rest ih =>
    rw [writeMembers] at written
    obtain ⟨part, first, written⟩ := bind_eq_ok written
    obtain ⟨others, rest_, written⟩ := bind_eq_ok written
    cases written
    rw [List.forall_mem_cons] at each
    obtain ⟨texts, rfl, proper⟩ := ih each.2 rest_
    refine ⟨(quoted member.1, part) :: texts, by simp, List.forall_mem_cons.mpr ⟨?_, proper⟩⟩
    exact ⟨isQuoted_quoted _, each.1 part first⟩

end

/-- What the compact style writes is JSON. -/
theorem isJson_writeJson (v : Json) {room : Nat} {text : List Char}
    (written : writeJson .compact room v = .ok text) : IsJson text := by
  induction v using Json.containers generalizing room text with
  | null =>
    cases written
    exact .null
  | bool b =>
    cases b with
    | true =>
      cases written
      exact .true
    | false =>
      cases written
      exact .false
  | int n => exact isJson_writeInt written
  | float x => exact isJson_writeDouble rfl written
  | text s =>
    cases written
    exact .text (isQuoted_quoted s)
  | array items ih =>
    rw [writeJson] at written
    split at written
    · cases written
    · obtain ⟨parts, inner, written⟩ := bind_eq_ok written
      cases written
      exact .array (mem_writeItems (fun item member part => ih item member) inner)
  | object members ih =>
    rw [writeJson] at written
    split at written
    · cases written
    · obtain ⟨parts, inner, written⟩ := bind_eq_ok written
      cases written
      obtain ⟨texts, rfl, proper⟩ := writeMembers_eq (fun member inside part => ih member inside) inner
      refine .object (fun text member => ?_) fun text member => (proper text member).2
      have bare : Blanks [] := by simp [Blanks]
      exact ⟨[], [], bare, bare, text.1, (proper text member).1, by simp⟩

end MegooPM.Lib
