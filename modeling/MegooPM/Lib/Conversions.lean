import MegooPM.Lib.JsonReading
import MegooPM.Lib.Numerals
import Mathlib

/-!
# Python's conversions of JSON values

`int`, `repr` and `str` of what `json.loads` returns, and the values for which they raise. What
they take from Unicode is a parameter: the decimal digits of all scripts, and how a text is
quoted.
-/
namespace MegooPM.Lib

/-- What a conversion raises. -/
inductive PythonError where
  | attributeError
  | typeError
  | valueError
  | overflowError
  | recursionError
  deriving DecidableEq

/-! ### Whole numbers -/

/-- `Py_ISSPACE` -/
def isAsciiSpace (c : Char) : Bool :=
  c = ' ' || (9 ≤ c.toNat && c.toNat ≤ 13)

/-- A code point of a numeral in ASCII: a digit of any script as the digit it is, and white space
as a blank. -/
def asciiOf (decimal : Nat → Option Nat) (n : Nat) : Char :=
  if n < 127 then Char.ofNat n
  else if isSpace (Char.ofNat n) then ' '
  else (decimal n).elim '?' Nat.digitChar

/-- `int(text)`, in ASCII; `none` where it raises. Single underscores may stand between digits. -/
def intLiteral (text : List Char) : Option Int :=
  let (negative, body) := splitSign (trimBy isAsciiSpace text)
  let groups := body.splitOn '_'
  if groups.all (fun digits => digits ≠ [] && digits.all Char.isDigit) &&
      groups.flatten.length ≤ maxStrDigits then
    some (signed negative (digitsValue groups.flatten))
  else none

/-- `int(x)` of a floating-point number, which cuts off its fraction. -/
def Double.toInt : Double → Except PythonError Int
  | .finite negative mantissa exponent =>
    let fraction := scaled 2 (mantissa, 1) exponent
    .ok (signed negative (fraction.1 / fraction.2))
  | .infinite _ => .error .overflowError
  | .nan => .error .valueError

/-- `int(value)` -/
def Json.toInt (decimal : Nat → Option Nat) : Json → Except PythonError Int
  | .bool b => .ok (if b then 1 else 0)
  | .int n => .ok n
  | .float x => x.toInt
  | .text s => orRaise (intLiteral (s.map (asciiOf decimal))) .valueError
  | .null => .error .typeError
  | .array _ => .error .typeError
  | .object _ => .error .typeError

/-- A whole number as `int` accepts it: white space, a sign, and groups of digits with single
underscores between them. -/
def IsIntLiteral (text : List Char) : Prop :=
  ∃ before sign groups after, text = before ++ (sign ++ ['_'].intercalate groups) ++ after ∧
    (∀ c ∈ before, isAsciiSpace c = true) ∧ (∀ c ∈ after, isAsciiSpace c = true) ∧
    (sign = [] ∨ sign = ['+'] ∨ sign = ['-']) ∧ groups ≠ [] ∧ (∀ g ∈ groups, Digits g) ∧
    groups.flatten.length ≤ maxStrDigits

/-- A value that is a whole number, or that has one. -/
def Json.IsWhole (decimal : Nat → Option Nat) : Json → Prop
  | .bool _ => True
  | .int _ => True
  | .float x => x.isFinite = true
  | .text s => IsIntLiteral (s.map (asciiOf decimal))
  | .null => False
  | .array _ => False
  | .object _ => False

private theorem splitSign_append {text : List Char} (sign : List Char)
    (spelled : sign = [] ∨ sign = ['+'] ∨ sign = ['-'])
    (digit : ∀ c, text.head? = some c → c.isDigit = true) :
    splitSign (sign ++ text) = (decide (sign = ['-']), text) := by
  rcases spelled with rfl | rfl | rfl
  · unfold splitSign
    split
    next same => exact absurd (digit '+' (by rw [← List.nil_append text, same]; rfl)) (by decide)
    next same => exact absurd (digit '-' (by rw [← List.nil_append text, same]; rfl)) (by decide)
    next => rfl
  · rfl
  · rfl

private theorem splitSign_eq (text : List Char) :
    ∃ sign, text = sign ++ (splitSign text).2 ∧ (sign = [] ∨ sign = ['+'] ∨ sign = ['-']) := by
  unfold splitSign
  split
  next => exact ⟨['+'], rfl, .inr (.inl rfl)⟩
  next => exact ⟨['-'], rfl, .inr (.inr rfl)⟩
  next => exact ⟨[], rfl, .inl rfl⟩

private theorem groups_iff {groups : List (List Char)} :
    (groups.all fun digits => digits ≠ [] && digits.all Char.isDigit) = true ↔
      ∀ g ∈ groups, Digits g := by
  simp only [List.all_eq_true, Bool.and_eq_true, decide_eq_true_eq, Digits]

/-- Groups of digits begin and end with a digit. -/
private theorem digit_of_groups {groups : List (List Char)} (some_ : groups ≠ [])
    (digits : ∀ g ∈ groups, Digits g) :
    ['_'].intercalate groups ≠ [] ∧
      (∀ c, (['_'].intercalate groups).head? = some c → c.isDigit = true) ∧
      ∀ c, (['_'].intercalate groups).getLast? = some c → c.isDigit = true := by
  induction groups with
  | nil => exact absurd rfl some_
  | cons g groups ih =>
    obtain ⟨own, others⟩ := List.forall_mem_cons.mp digits
    have first : ∀ c, g.head? = some c → c.isDigit = true :=
      fun c head => own.2 c (List.mem_of_head? head)
    cases groups with
    | nil =>
      rw [List.intercalate_singleton]
      exact ⟨own.1, first, fun c last => own.2 c (List.mem_of_getLast? last)⟩
    | cons h groups =>
      obtain ⟨behind, -, last⟩ := ih (List.cons_ne_nil h groups) others
      rw [List.intercalate_cons_of_ne_nil (List.cons_ne_nil h groups)]
      refine ⟨by simp [own.1], fun c head => first c ?_, fun c final => last c ?_⟩
      · rwa [List.append_assoc, List.head?_append_of_ne_nil _ own.1] at head
      · rwa [List.getLast?_append_of_ne_nil _ behind] at final

private theorem solid_of_isDigit {c : Char} (digit : c.isDigit = true) :
    isAsciiSpace c = false := by
  have bounds : 48 ≤ c.toNat ∧ c.toNat ≤ 57 := by
    simpa [Char.isDigit, Char.le_def, UInt32.le_iff_toNat_le] using digit
  have blank : c ≠ ' ' := by
    rintro rfl
    exact absurd bounds.1 (by decide)
  simp only [isAsciiSpace, blank, decide_false, Bool.false_or, Bool.and_eq_false_iff,
    decide_eq_false_iff_not]
  omega

/-- `int` returns on a text exactly when the text is such a number. -/
theorem intLiteral_isSome_iff {text : List Char} :
    (∃ n, intLiteral text = some n) ↔ IsIntLiteral text := by
  unfold intLiteral
  dsimp only
  constructor
  · rintro ⟨n, read⟩
    split at read
    next accepted =>
      obtain ⟨digits, few⟩ := Bool.and_eq_true _ _ |>.mp accepted
      obtain ⟨before, after, whole, front, back⟩ := trimBy_between isAsciiSpace text
      obtain ⟨sign, parts, spelled⟩ := splitSign_eq (trimBy isAsciiSpace text)
      refine ⟨before, sign, (splitSign (trimBy isAsciiSpace text)).2.splitOn '_', after, ?_, front,
        back, spelled, List.splitOn_ne_nil _ _, groups_iff.mp digits, of_decide_eq_true few⟩
      rw [List.intercalate_splitOn, ← parts]
      exact whole
    next => cases read
  · rintro ⟨before, sign, groups, after, rfl, front, back, spelled, some_, digits, few⟩
    obtain ⟨body, first, last⟩ := digit_of_groups some_ digits
    have trimmed : trimBy isAsciiSpace (before ++ (sign ++ ['_'].intercalate groups) ++ after) =
        sign ++ ['_'].intercalate groups := by
      refine trimBy_around front back (by simp [body]) (fun c head => ?_) fun c final => ?_
      · rcases spelled with rfl | rfl | rfl
        · exact solid_of_isDigit (first c head)
        · cases head
          decide
        · cases head
          decide
      · rw [List.getLast?_append_of_ne_nil _ body] at final
        exact solid_of_isDigit (last c final)
    have apart : ∀ g ∈ groups, '_' ∉ g :=
      fun g member inside => absurd ((digits g member).2 _ inside) (by decide)
    rw [trimmed, splitSign_append sign spelled first, List.splitOn_intercalate _ apart some_,
      groups_iff.mpr digits, decide_eq_true few]
    exact ⟨_, rfl⟩

/-- `int` returns on the whole numbers. -/
theorem Json.toInt_ok_iff {decimal : Nat → Option Nat} {v : Json} :
    (∃ n, v.toInt decimal = .ok n) ↔ v.IsWhole decimal := by
  cases v with
  | float x => cases x <;> simp [Json.toInt, Double.toInt, Json.IsWhole, Double.isFinite]
  | text s =>
    rw [Json.IsWhole, ← intLiteral_isSome_iff]
    constructor
    · rintro ⟨n, read⟩
      exact ⟨n, orRaise_eq_ok read⟩
    · rintro ⟨n, read⟩
      exact ⟨n, by rw [Json.toInt, read]; rfl⟩
  | _ => simp [Json.toInt, Json.IsWhole]

/-! ### Texts -/

/-- A value that is built inside others, on Python's own stack. -/
def entered {α : Type} (room : Nat) (x : Except PythonError α) : Except PythonError α :=
  if room = 0 then .error .recursionError else x

/-- `repr` of a whole number. -/
def reprInt (n : Int) : Except PythonError (List Char) :=
  if (decimalDigits n.natAbs).length ≤ maxStrDigits then
    .ok ((if n < 0 then ['-'] else []) ++ decimalDigits n.natAbs)
  else .error .valueError

/-- `float.__repr__` -/
def reprDouble : Double → List Char
  | .finite negative mantissa exponent => reprFinite negative mantissa exponent
  | .infinite negative => (if negative then ['-'] else []) ++ ['i', 'n', 'f']
  | .nan => ['n', 'a', 'n']

section

variable (reprText : CodePoints → List Char)

mutual

/-- `repr(value)`, with room for so many values inside each other. -/
def reprJson (room : Nat) : Json → Except PythonError (List Char)
  | .null => entered room (.ok ['N', 'o', 'n', 'e'])
  | .bool true => entered room (.ok ['T', 'r', 'u', 'e'])
  | .bool false => entered room (.ok ['F', 'a', 'l', 's', 'e'])
  | .int n => entered room (reprInt n)
  | .float x => entered room (.ok (reprDouble x))
  | .text s => entered room (.ok (reprText s))
  | .array items => entered room do
    let parts ← reprItems (room - 1) items
    return '[' :: [',', ' '].intercalate parts ++ [']']
  | .object members => entered room do
    let parts ← reprMembers (room - 1) members
    return '\x7b' :: [',', ' '].intercalate parts ++ ['\x7d']

def reprItems (room : Nat) : List Json → Except PythonError (List (List Char))
  | [] => .ok []
  | item :: rest => do
    let part ← reprJson room item
    let parts ← reprItems room rest
    return part :: parts

def reprMembers (room : Nat) :
    List (CodePoints × Json) → Except PythonError (List (List Char))
  | [] => .ok []
  | (key, value) :: rest => do
    let name ← entered room (.ok (reprText key))
    let part ← reprJson room value
    let parts ← reprMembers room rest
    return (name ++ [':', ' '] ++ part) :: parts

end

/-- `str(value)`: a text as it is, and `repr` of everything else. -/
def Json.toStr (room : Nat) : Json → Except PythonError CodePoints
  | .text s => .ok s
  | value => (reprJson reprText room value).map fun text => text.map Char.toNat

end

mutual

/-- How many values are inside each other. -/
def Json.levels : Json → Nat
  | .array items => itemLevels items + 1
  | .object members => memberLevels members + 1
  | _ => 1

def itemLevels : List Json → Nat
  | [] => 0
  | item :: rest => max item.levels (itemLevels rest)

def memberLevels : List (CodePoints × Json) → Nat
  | [] => 0
  | (_, value) :: rest => max value.levels (memberLevels rest)

end

theorem itemLevels_le_iff {items : List Json} {n : Nat} :
    itemLevels items ≤ n ↔ ∀ item ∈ items, item.levels ≤ n := by
  induction items with
  | nil => simp [itemLevels]
  | cons item rest ih => rw [itemLevels, Nat.max_le, ih, List.forall_mem_cons]

theorem memberLevels_le_iff {members : List (CodePoints × Json)} {n : Nat} :
    memberLevels members ≤ n ↔ ∀ member ∈ members, member.2.levels ≤ n := by
  induction members with
  | nil => simp [memberLevels]
  | cons member rest ih => rw [memberLevels, Nat.max_le, ih, List.forall_mem_cons]

theorem entered_ok_iff {α : Type} {room : Nat} {x : Except PythonError α} :
    (∃ a, entered room x = .ok a) ↔ 0 < room ∧ ∃ a, x = .ok a := by
  unfold entered
  split
  next none_ => simp [none_]
  next some_ => simp [Nat.pos_of_ne_zero some_]

section

variable {reprText : CodePoints → List Char} {room : Nat}

theorem reprInt_ok_iff {n : Int} :
    (∃ text, reprInt n = .ok text) ↔ (decimalDigits n.natAbs).length ≤ maxStrDigits := by
  unfold reprInt
  split
  next short => simp [short]
  next long => simp [long]

theorem reprItems_ok_iff {items : List Json} :
    (∃ parts, reprItems reprText room items = .ok parts) ↔
      ∀ item ∈ items, ∃ part, reprJson reprText room item = .ok part := by
  induction items with
  | nil => simp [reprItems]
  | cons item rest ih =>
    rw [List.forall_mem_cons, ← ih, reprItems]
    constructor
    · rintro ⟨parts, written⟩
      obtain ⟨part, first, others⟩ := bind_eq_ok written
      obtain ⟨parts, others, _⟩ := bind_eq_ok others
      exact ⟨⟨part, first⟩, parts, others⟩
    · rintro ⟨⟨part, first⟩, parts, others⟩
      rw [first, others]
      exact ⟨_, rfl⟩

/-- Where a value is built there is room for its key, too. -/
private theorem room_of_reprJson {v : Json} {text : List Char}
    (written : reprJson reprText room v = .ok text) : 0 < room := by
  refine Nat.pos_of_ne_zero fun none_ => ?_
  subst none_
  cases v with
  | bool b => cases b <;> cases written
  | _ => cases written

theorem reprMembers_ok_iff {members : List (CodePoints × Json)} :
    (∃ parts, reprMembers reprText room members = .ok parts) ↔
      ∀ member ∈ members, ∃ part, reprJson reprText room member.2 = .ok part := by
  induction members with
  | nil => simp [reprMembers]
  | cons member rest ih =>
    rw [List.forall_mem_cons, ← ih, reprMembers]
    constructor
    · rintro ⟨parts, written⟩
      obtain ⟨name, _, others⟩ := bind_eq_ok written
      obtain ⟨part, first, others⟩ := bind_eq_ok others
      obtain ⟨parts, others, _⟩ := bind_eq_ok others
      exact ⟨⟨part, first⟩, parts, others⟩
    · rintro ⟨⟨part, first⟩, parts, others⟩
      have some_ := room_of_reprJson first
      rw [entered, if_neg (by omega), first, others]
      exact ⟨_, rfl⟩

/-- `repr` returns when there is room for what is inside, and no number has too many digits. -/
theorem reprJson_ok_iff (reprText : CodePoints → List Char) (room : Nat) (v : Json) :
    (∃ text, reprJson reprText room v = .ok text) ↔
      v.Scalars Json.Short ∧ v.levels ≤ room := by
  -- a container needs room for itself and one less for what it holds
  induction v using Json.containers generalizing room with
  | null =>
    rw [reprJson, entered_ok_iff]
    simp [Json.Scalars, Json.Short, Json.levels, Nat.succ_le_iff]
  | bool b =>
    cases b <;> rw [reprJson, entered_ok_iff] <;>
      simp [Json.Scalars, Json.Short, Json.levels, Nat.succ_le_iff]
  | int n =>
    rw [reprJson, entered_ok_iff, reprInt_ok_iff]
    simp [Json.Scalars, Json.Short, Json.levels, Nat.succ_le_iff, and_comm]
  | float x =>
    rw [reprJson, entered_ok_iff]
    simp [Json.Scalars, Json.Short, Json.levels, Nat.succ_le_iff]
  | text s =>
    rw [reprJson, entered_ok_iff]
    simp [Json.Scalars, Json.Short, Json.levels, Nat.succ_le_iff]
  | array items ih =>
    rw [reprJson, entered_ok_iff, Json.Scalars, itemScalars_iff, Json.levels]
    constructor
    · rintro ⟨positive, text, written⟩
      obtain ⟨parts, written, _⟩ := bind_eq_ok written
      have each := reprItems_ok_iff.mp ⟨parts, written⟩
      have inner := fun item member => (ih item member _).mp (each item member)
      have deep := itemLevels_le_iff.mpr fun item member => (inner item member).2
      exact ⟨fun item member => (inner item member).1, by omega⟩
    · rintro ⟨each, deep⟩
      have inner := itemLevels_le_iff.mp (Nat.le_sub_one_of_lt deep)
      obtain ⟨parts, written⟩ := reprItems_ok_iff.mpr fun item member =>
        (ih item member _).mpr ⟨each item member, inner item member⟩
      exact ⟨by omega, _, by rw [written]; rfl⟩
  | object members ih =>
    rw [reprJson, entered_ok_iff, Json.Scalars, memberScalars_iff, Json.levels]
    constructor
    · rintro ⟨positive, text, written⟩
      obtain ⟨parts, written, _⟩ := bind_eq_ok written
      have each := reprMembers_ok_iff.mp ⟨parts, written⟩
      have inner := fun member inside => (ih member inside _).mp (each member inside)
      have deep := memberLevels_le_iff.mpr fun member inside => (inner member inside).2
      exact ⟨fun member inside => (inner member inside).1, by omega⟩
    · rintro ⟨each, deep⟩
      have inner := memberLevels_le_iff.mp (Nat.le_sub_one_of_lt deep)
      obtain ⟨parts, written⟩ := reprMembers_ok_iff.mpr fun member inside =>
        (ih member inside _).mpr ⟨each member inside, inner member inside⟩
      exact ⟨by omega, _, by rw [written]; rfl⟩

/-- A value whose text is built: one that is a text already, or that there is room for. -/
def Json.IsShown (room : Nat) : Json → Prop
  | .text _ => True
  | value => value.levels ≤ room

/-- `str` returns where there is room, on numbers that are short enough. -/
theorem Json.toStr_ok_iff {v : Json} (short : v.Scalars Json.Short) :
    (∃ s, v.toStr reprText room = .ok s) ↔ v.IsShown room := by
  have shown := (reprJson_ok_iff reprText room v).trans
    (and_iff_right short)
  cases v with
  | text s => simp [Json.toStr, Json.IsShown]
  | _ =>
    change (∃ s, (reprJson reprText room _).map (fun text => text.map Char.toNat) = .ok s) ↔
      Json.levels _ ≤ room
    rw [← shown]
    constructor
    · rintro ⟨s, written⟩
      obtain ⟨text, written, -⟩ := map_eq_ok written
      exact ⟨text, written⟩
    · rintro ⟨text, written⟩
      exact ⟨_, by rw [written]; rfl⟩

end

end MegooPM.Lib
