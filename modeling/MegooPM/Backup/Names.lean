import MegooPM.Data.Timestamps
import Mathlib

/-!
# Names of backup files

`NAME_RE`, `new_name` and `_created_at` of `services/backup/store.py`. The name of a file is all
that says when it was made and how. `\d` is any decimal digit of Unicode, in `NAME_RE` as in most
fields of `strptime`.
-/
namespace MegooPM

open Lib

/-! ### Digits -/

/-- The zeros of Unicode 15; the digits of a script follow its zero. -/
def decimalZeros : List Nat :=
  [0x30, 0x660, 0x6f0, 0x7c0, 0x966, 0x9e6, 0xa66, 0xae6, 0xb66, 0xbe6, 0xc66, 0xce6, 0xd66, 0xde6,
    0xe50, 0xed0, 0xf20, 0x1040, 0x1090, 0x17e0, 0x1810, 0x1946, 0x19d0, 0x1a80, 0x1a90, 0x1b50,
    0x1bb0, 0x1c40, 0x1c50, 0xa620, 0xa8d0, 0xa900, 0xa9d0, 0xa9f0, 0xaa50, 0xabf0, 0xff10,
    0x104a0, 0x10d30, 0x11066, 0x110f0, 0x11136, 0x111d0, 0x112f0, 0x11450, 0x114d0, 0x11650,
    0x116c0, 0x11730, 0x118e0, 0x11950, 0x11c50, 0x11d50, 0x11da0, 0x11f50, 0x16a60, 0x16ac0,
    0x16b50, 0x1d7ce, 0x1d7d8, 0x1d7e2, 0x1d7ec, 0x1d7f6, 0x1e140, 0x1e2f0, 0x1e4f0, 0x1e950,
    0x1fbf0]

/-- The value of a decimal digit. -/
def decimalValue (c : Char) : Option Nat :=
  (decimalZeros.find? fun first => first ≤ c.toNat ∧ c.toNat < first + 10).map (c.toNat - ·)

/-- `\d` -/
def isDecimalDigit (c : Char) : Bool :=
  (decimalValue c).isSome

/-- `int` of decimal digits. -/
def decimalNumber (digits : List Char) : Nat :=
  digits.foldl (fun n c => 10 * n + (decimalValue c).getD 0) 0

/-! ### Names -/

/-- `TRIGGERS` -/
inductive FileTrigger where
  | manual | auto | upload
  deriving DecidableEq, Repr

namespace FileTrigger

def all : List FileTrigger :=
  [manual, auto, upload]

def value : FileTrigger → String
  | manual => "manual"
  | auto => "auto"
  | upload => "upload"

end FileTrigger

/-- What may follow the second dash of a name; `$` also matches before a line break. -/
def nameEnds : List (List Char) :=
  FileTrigger.all.flatMap fun trigger =>
    [(trigger.value ++ ".mgb").toList, (trigger.value ++ ".mgb\n").toList]

/-- `NAME_RE.match` -/
def matchesName (name : String) : Bool :=
  let cs := name.toList
  cs.take 8 = "megoopm-".toList &&
    ((cs.drop 8).take 8).length = 8 && ((cs.drop 8).take 8).all isDecimalDigit &&
    (cs.drop 16).take 1 = ['-'] &&
    ((cs.drop 17).take 6).length = 6 && ((cs.drop 17).take 6).all isDecimalDigit &&
    (cs.drop 23).take 1 = ['-'] && cs.drop 24 ∈ nameEnds

/-- The time in a name, to the second. -/
def DateTime.stamp (t : DateTime) : List Char :=
  padDigits 4 t.year ++ padDigits 2 t.month ++ padDigits 2 t.day ++
    '-' :: (padDigits 2 t.hour ++ padDigits 2 t.minute ++ padDigits 2 t.second)

/-- `new_name`, of a time in UTC with a year of four digits. -/
def newName (now : DateTime) (trigger : FileTrigger) : String :=
  String.ofList ("megoopm-".toList ++ now.stamp ++ '-' :: trigger.value.toList ++ ".mgb".toList)

/-- `name.rsplit("-", 1)[1].removesuffix(".mgb")`, the trigger that `describe` shows. -/
def nameTrigger (name : String) : String :=
  let last := (name.toList.reverse.takeWhile (· ≠ '-')).reverse
  String.ofList (if ".mgb".toList.isSuffixOf last then last.take (last.length - 4) else last)

/-- An automatic backup, as the page lists it. -/
def isAutomatic (name : String) : Bool :=
  matchesName name && nameTrigger name = "auto"

/-- `backup_dir.glob("*-auto.mgb")` with the filter of `apply_retention`. -/
def expires (name : String) : Bool :=
  "-auto.mgb".toList.isSuffixOf name.toList && matchesName name

/-- A name that ends in `PART_SUFFIX`. -/
def isPart (name : String) : Bool :=
  ".part".toList.isSuffixOf name.toList

/-! ### Dates -/

/-- A field of two characters, read where both are what its format takes. -/
def readField (accepts : Char → Char → Bool) : List Char → Option Nat
  | [tens, ones] => if accepts tens ones then some (decimalNumber [tens, ones]) else none
  | _ => none

/-- `%m`: `1[0-2]|0[1-9]` -/
def monthField (tens ones : Char) : Bool :=
  tens = '1' && '0' ≤ ones && ones ≤ '2' || tens = '0' && '1' ≤ ones && ones ≤ '9'

/-- `%d`: `3[0-1]|[1-2]\d|0[1-9]` -/
def dayField (tens ones : Char) : Bool :=
  tens = '3' && '0' ≤ ones && ones ≤ '1' ||
    (tens = '1' || tens = '2') && isDecimalDigit ones ||
    tens = '0' && '1' ≤ ones && ones ≤ '9'

/-- `%H`: `2[0-3]|[0-1]\d` -/
def hourField (tens ones : Char) : Bool :=
  tens = '2' && '0' ≤ ones && ones ≤ '3' || (tens = '0' || tens = '1') && isDecimalDigit ones

/-- `%M`: `[0-5]\d`. `%S` takes 60 and 61 besides, which are no seconds of a `datetime`. -/
def sixtyField (tens ones : Char) : Bool :=
  '0' ≤ tens && tens ≤ '5' && isDecimalDigit ones

/-- Days of a month of the Gregorian calendar. -/
def daysInMonth (year month : Nat) : Nat :=
  if month = 2 then if year % 4 = 0 ∧ (year % 100 ≠ 0 ∨ year % 400 = 0) then 29 else 28
  else if month = 4 ∨ month = 6 ∨ month = 9 ∨ month = 11 then 30 else 31

private theorem onTheSecond : 0 < 1000000 := by decide

/-- `datetime(year, month, day, hour, minute, second)`, or its `ValueError`. -/
def makeDateTime (year month day hour minute second : Nat) : Option DateTime :=
  if fits : (year < 10000 ∧ month < 13 ∧ day < 32) ∧ hour < 24 ∧ minute < 60 ∧ second < 60 then
    if 1 ≤ year ∧ 1 ≤ month ∧ 1 ≤ day ∧ day ≤ daysInMonth year month then
      some
        { year := ⟨year, fits.1.1⟩, month := ⟨month, fits.1.2.1⟩, day := ⟨day, fits.1.2.2⟩,
          hour := ⟨hour, fits.2.1⟩, minute := ⟨minute, fits.2.2.1⟩, second := ⟨second, fits.2.2.2⟩,
          microsecond := ⟨0, onTheSecond⟩ }
    else none
  else none

/-- `datetime.strptime(text, "%Y%m%d-%H%M%S")`. A field of one digit leaves the text too long or
too short, so every field has its full width. -/
def strptimeStamp (text : List Char) : Option DateTime :=
  if text.length = 15 ∧ (text.take 4).all isDecimalDigit = true ∧ (text.drop 8).take 1 = ['-'] then
    (readField monthField ((text.drop 4).take 2)).bind fun month =>
    (readField dayField ((text.drop 6).take 2)).bind fun day =>
    (readField hourField ((text.drop 9).take 2)).bind fun hour =>
    (readField sixtyField ((text.drop 11).take 2)).bind fun minute =>
    (readField sixtyField ((text.drop 13).take 2)).bind fun second =>
      makeDateTime (decimalNumber (text.take 4)) month day hour minute second
  else none

/-- `_created_at`: the time in the name, or the file's when the name lies. -/
def createdAt (name : String) (fallback : DateTime) : DateTime :=
  (strptimeStamp ((name.toList.drop 8).take 15)).getD fallback

/-- A time that the calendar has. -/
def DateTime.Valid (t : DateTime) : Prop :=
  1 ≤ t.year.val ∧ 1 ≤ t.month.val ∧ 1 ≤ t.day.val ∧ t.day.val ≤ daysInMonth t.year t.month

/-- The seconds up to a time, with room for every field: later times have larger numbers. -/
def DateTime.seconds (t : DateTime) : Nat :=
  ((((t.year.val * 13 + t.month.val) * 32 + t.day.val) * 24 + t.hour.val) * 60 + t.minute.val) * 60
    + t.second.val

/-- The same with the microseconds. -/
def DateTime.moment (t : DateTime) : Nat :=
  t.seconds * 1000000 + t.microsecond.val

/-! ### What a name says -/

theorem matchesName_ends {name : String} (shaped : matchesName name = true) :
    ∃ front ends, name.toList = front ++ '-' :: ends ∧ ends ∈ nameEnds := by
  simp only [matchesName, Bool.and_eq_true, decide_eq_true_eq] at shaped
  obtain ⟨⟨_, dash⟩, ends⟩ := shaped
  refine ⟨name.toList.take 23, name.toList.drop 24, ?_, ends⟩
  have rest : name.toList.drop 23 = '-' :: name.toList.drop 24 := by
    rw [← List.take_append_drop 1 (name.toList.drop 23), dash, List.drop_drop]
    rfl
  rw [← rest, List.take_append_drop]

/-- What the six ends have in common, and how the automatic one differs. -/
private theorem ends_facts : (nameEnds.all fun ends =>
    ends.all (· ≠ '-') && 8 ≤ ends.length && !".part".toList.isSuffixOf ends &&
      decide ("-auto.mgb".toList.isSuffixOf ('-' :: ends) = true ↔ ends = "auto.mgb".toList) &&
      decide (String.ofList (if ".mgb".toList.isSuffixOf ends then ends.take (ends.length - 4)
        else ends) = "auto" ↔ ends = "auto.mgb".toList)) = true := by
  decide

/-- A shorter suffix of the whole is a suffix of the end. -/
private theorem suffix_end {suffix front rest : List Char} (short : suffix.length ≤ rest.length) :
    suffix.isSuffixOf (front ++ rest) = suffix.isSuffixOf rest := by
  apply Bool.eq_iff_iff.mpr
  rw [List.isSuffixOf_iff_suffix, List.isSuffixOf_iff_suffix]
  constructor
  · intro ends
    exact List.suffix_of_suffix_length_le ends (List.suffix_append front rest) short
  · intro ends
    exact ends.trans (List.suffix_append front rest)

theorem nameTrigger_of_ends {name : String} {front ends : List Char}
    (text : name.toList = front ++ '-' :: ends) (plain : ends.all (· ≠ '-') = true) :
    nameTrigger name = String.ofList
      (if ".mgb".toList.isSuffixOf ends then ends.take (ends.length - 4) else ends) := by
  have last : (name.toList.reverse.takeWhile (· ≠ '-')).reverse = ends := by
    rw [text, List.reverse_append, List.reverse_cons, List.append_assoc,
      List.takeWhile_append_of_pos]
    · simp
    · simpa using plain
  simp only [nameTrigger, last]

/-- What retention takes for automatic is what the page lists as automatic. -/
theorem expires_eq_isAutomatic (name : String) : expires name = isAutomatic name := by
  by_cases shaped : matchesName name = true
  · obtain ⟨front, ends, text, member⟩ := matchesName_ends shaped
    have facts := List.all_eq_true.mp ends_facts ends member
    simp only [Bool.and_eq_true, decide_eq_true_eq] at facts
    obtain ⟨⟨⟨⟨plain, long⟩, _⟩, suffix⟩, trigger⟩ := facts
    have short : "-auto.mgb".toList.length ≤ ('-' :: ends).length := Nat.succ_le_succ long
    simp only [expires, isAutomatic, shaped, Bool.true_and, Bool.and_true, text,
      suffix_end short, nameTrigger_of_ends text plain]
    exact Bool.eq_iff_iff.mpr (suffix.trans (trigger.symm.trans decide_eq_true_iff.symm))
  · simp only [expires, isAutomatic, Bool.not_eq_true] at shaped ⊢
    rw [shaped, Bool.and_false, Bool.false_and]

/-- No backup is taken for one that never finished. -/
theorem not_part_of_matches {name : String} (shaped : matchesName name = true) :
    isPart name = false := by
  obtain ⟨front, ends, text, member⟩ := matchesName_ends shaped
  have facts := List.all_eq_true.mp ends_facts ends member
  simp only [Bool.and_eq_true, decide_eq_true_eq, Bool.not_eq_true'] at facts
  obtain ⟨⟨⟨⟨_, long⟩, whole⟩, _⟩, _⟩ := facts
  have short : ".part".toList.length ≤ ends.length := le_trans (by decide) long
  rw [isPart, text, List.append_cons, suffix_end short, whole]

theorem isPart_append (name : String) : isPart (name ++ ".part") = true := by
  rw [isPart, String.toList_append]
  exact List.isSuffixOf_iff_suffix.mpr (List.suffix_append _ _)

/-! ### The name of a new file -/

theorem decimalValue_digitChar {n : Nat} (small : n < 10) :
    decimalValue (Nat.digitChar n) = some n := by
  have each : ∀ n : Fin 10, decimalValue (Nat.digitChar n) = some n.val := by decide
  exact each ⟨n, small⟩

theorem isDecimalDigit_padDigits (width n : Nat) :
    (padDigits width n).all isDecimalDigit = true := by
  induction width generalizing n with
  | zero => rfl
  | succ width ih =>
    simp only [padDigits, List.all_append, ih, List.all_cons, List.all_nil, Bool.and_true,
      isDecimalDigit, decimalValue_digitChar (Nat.mod_lt n (by decide)), Option.isSome_some]

theorem decimalNumber_padDigits {width n : Nat} (small : n < 10 ^ width) :
    decimalNumber (padDigits width n) = n := by
  induction width generalizing n with
  | zero =>
    rw [pow_zero] at small
    exact (Nat.lt_one_iff.mp small).symm
  | succ width ih =>
    rw [pow_succ] at small
    have front : decimalNumber (padDigits width (n / 10)) = n / 10 := ih (by omega)
    have last := decimalValue_digitChar (Nat.mod_lt n (show 10 > 0 by decide))
    simp only [decimalNumber] at front
    simp only [decimalNumber, padDigits, List.foldl_append, front, List.foldl_cons,
      List.foldl_nil, last, Option.getD_some]
    omega

@[simp] theorem length_stamp (t : DateTime) : t.stamp.length = 15 := by
  simp [DateTime.stamp]

theorem newName_toList (t : DateTime) (trigger : FileTrigger) : (newName t trigger).toList =
    "megoopm-".toList ++ (t.stamp ++ '-' :: (trigger.value.toList ++ ".mgb".toList)) := by
  unfold newName
  rw [String.toList_ofList, List.append_assoc, List.append_assoc, List.cons_append]

theorem matchesName_of_parts {name : String} {date time ends : List Char}
    (text : name.toList = "megoopm-".toList ++ (date ++ '-' :: (time ++ '-' :: ends)))
    (eight : date.length = 8) (dateDigits : date.all isDecimalDigit = true)
    (six : time.length = 6) (timeDigits : time.all isDecimalDigit = true)
    (member : ends ∈ nameEnds) : matchesName name = true := by
  have at8 : name.toList.drop 8 = date ++ '-' :: (time ++ '-' :: ends) := by
    rw [text]
    exact List.drop_left' rfl
  have at16 : name.toList.drop 16 = '-' :: (time ++ '-' :: ends) := by
    rw [← List.drop_drop (i := 8) (j := 8), at8]
    exact List.drop_left' eight
  have at17 : name.toList.drop 17 = time ++ '-' :: ends := by
    rw [← List.drop_drop (i := 1) (j := 16), at16, List.drop_one, List.tail_cons]
  have at23 : name.toList.drop 23 = '-' :: ends := by
    rw [← List.drop_drop (i := 6) (j := 17), at17]
    exact List.drop_left' six
  have at24 : name.toList.drop 24 = ends := by
    rw [← List.drop_drop (i := 1) (j := 23), at23, List.drop_one, List.tail_cons]
  have start : name.toList.take 8 = "megoopm-".toList := by
    rw [text]
    exact List.take_left' rfl
  have digits : (name.toList.drop 8).take 8 = date := by
    rw [at8]
    exact List.take_left' eight
  have digits' : (name.toList.drop 17).take 6 = time := by
    rw [at17]
    exact List.take_left' six
  simp only [matchesName, start, digits, digits', at16, at23, at24, eight, six, dateDigits,
    timeDigits, member, List.take_succ_cons, List.take_zero, decide_true, Bool.and_self]

theorem matchesName_newName (t : DateTime) (trigger : FileTrigger) :
    matchesName (newName t trigger) = true := by
  have text := newName_toList t trigger
  rw [DateTime.stamp, List.append_assoc _ _ ('-' :: _), List.cons_append] at text
  refine matchesName_of_parts text (by simp) ?_ (by simp) ?_ ?_
  · simp only [List.all_append, isDecimalDigit_padDigits, Bool.and_self]
  · simp only [List.all_append, isDecimalDigit_padDigits, Bool.and_self]
  · cases trigger <;> decide

theorem isAutomatic_newName (t : DateTime) : isAutomatic (newName t .auto) = true := by
  rw [← expires_eq_isAutomatic, expires, matchesName_newName, Bool.and_true, newName_toList,
    List.isSuffixOf_iff_suffix, ← List.append_assoc]
  exact List.suffix_append _ _

/-! ### Dates -/

section Fields

private theorem month_fields : ∀ n : Fin 13, 1 ≤ n.val →
    readField monthField (padDigits 2 n) = some n.val := by
  decide

private theorem day_fields : ∀ n : Fin 32, 1 ≤ n.val →
    readField dayField (padDigits 2 n) = some n.val := by
  decide

private theorem hour_fields : ∀ n : Fin 24, readField hourField (padDigits 2 n) = some n.val := by
  decide

private theorem sixty_fields : ∀ n : Fin 60,
    readField sixtyField (padDigits 2 n) = some n.val := by
  decide

end Fields

/-- The date of a name that the calendar has is read back. -/
theorem strptimeStamp_stamp {t : DateTime} (valid : t.Valid) :
    strptimeStamp t.stamp = some { t with microsecond := ⟨0, by decide⟩ } := by
  obtain ⟨year, month, day, days⟩ := valid
  -- the fields one after the other, each of its own width
  have yearText : t.stamp.take 4 = padDigits 4 t.year := by
    simp only [DateTime.stamp, List.append_assoc]
    exact List.take_left' (by simp)
  have at4 : t.stamp.drop 4 = padDigits 2 t.month ++ (padDigits 2 t.day ++
      '-' :: (padDigits 2 t.hour ++ (padDigits 2 t.minute ++ padDigits 2 t.second))) := by
    simp only [DateTime.stamp, List.append_assoc]
    exact List.drop_left' (by simp)
  have at6 : t.stamp.drop 6 = padDigits 2 t.day ++
      '-' :: (padDigits 2 t.hour ++ (padDigits 2 t.minute ++ padDigits 2 t.second)) := by
    rw [← List.drop_drop (i := 2) (j := 4), at4]
    exact List.drop_left' (by simp)
  have at8 : t.stamp.drop 8 =
      '-' :: (padDigits 2 t.hour ++ (padDigits 2 t.minute ++ padDigits 2 t.second)) := by
    rw [← List.drop_drop (i := 2) (j := 6), at6]
    exact List.drop_left' (by simp)
  have at9 : t.stamp.drop 9 =
      padDigits 2 t.hour ++ (padDigits 2 t.minute ++ padDigits 2 t.second) := by
    rw [← List.drop_drop (i := 1) (j := 8), at8, List.drop_one, List.tail_cons]
  have at11 : t.stamp.drop 11 = padDigits 2 t.minute ++ padDigits 2 t.second := by
    rw [← List.drop_drop (i := 2) (j := 9), at9]
    exact List.drop_left' (by simp)
  have at13 : t.stamp.drop 13 = padDigits 2 t.second := by
    rw [← List.drop_drop (i := 2) (j := 11), at11]
    exact List.drop_left' (by simp)
  have pair {n : Nat} (rest : List Char) : (padDigits 2 n ++ rest).take 2 = padDigits 2 n :=
    List.take_left' (by simp)
  have last : (padDigits 2 t.second).take 2 = padDigits 2 t.second :=
    List.take_of_length_le (by simp)
  have fits : (t.year.val < 10000 ∧ t.month.val < 13 ∧ t.day.val < 32) ∧
      t.hour.val < 24 ∧ t.minute.val < 60 ∧ t.second.val < 60 :=
    ⟨⟨t.year.isLt, t.month.isLt, t.day.isLt⟩, t.hour.isLt, t.minute.isLt, t.second.isLt⟩
  rw [strptimeStamp, if_pos ⟨length_stamp t, by rw [yearText]; exact isDecimalDigit_padDigits _ _,
    by rw [at8]; rfl⟩, yearText, at4, pair, month_fields t.month month, at6, pair,
    day_fields t.day day, at9, pair, hour_fields, at11, pair, sixty_fields, at13, last,
    sixty_fields, decimalNumber_padDigits t.year.isLt]
  simp only [Option.bind_some, makeDateTime, dif_pos fits]
  exact if_pos ⟨year, month, day, days⟩

/-- A file whose name has a date is listed under it. -/
theorem createdAt_newName {t : DateTime} (valid : t.Valid) (trigger : FileTrigger)
    (fallback : DateTime) :
    createdAt (newName t trigger) fallback = { t with microsecond := ⟨0, by decide⟩ } := by
  have text : (newName t trigger).toList.drop 8 =
      t.stamp ++ '-' :: (trigger.value.toList ++ ".mgb".toList) := by
    rw [newName_toList]
    exact List.drop_left' rfl
  have stamp : ((newName t trigger).toList.drop 8).take 15 = t.stamp := by
    rw [text]
    exact List.take_left' (length_stamp t)
  rw [createdAt, stamp, strptimeStamp_stamp valid, Option.getD_some]

/-! ### The order of names -/

theorem append_lt_append_iff {a b rest rest' : List Char} (same : a.length = b.length) :
    a ++ rest < b ++ rest' ↔ a < b ∨ a = b ∧ rest < rest' := by
  induction a generalizing b with
  | nil =>
    cases List.eq_nil_of_length_eq_zero same.symm
    simp
  | cons c a ih =>
    cases b with
    | nil => cases same
    | cons d b =>
      have tails : a.length = b.length := Nat.succ.inj same
      rw [List.cons_append, List.cons_append, List.cons_lt_cons_iff, List.cons_lt_cons_iff, ih tails,
        List.cons.injEq]
      tauto

private theorem digitChar_lt_iff {n m : Nat} (small : n < 10) (small' : m < 10) :
    Nat.digitChar n < Nat.digitChar m ↔ n < m := by
  have each : ∀ n m : Fin 10, Nat.digitChar n < Nat.digitChar m ↔ n.val < m.val := by decide
  exact each ⟨n, small⟩ ⟨m, small'⟩

/-- Numbers of one width sort as their digits do. -/
theorem padDigits_lt_iff {width n m : Nat} (small : n < 10 ^ width) (small' : m < 10 ^ width) :
    padDigits width n < padDigits width m ↔ n < m := by
  induction width generalizing n m with
  | zero =>
    rw [pow_zero] at small small'
    simp only [padDigits, List.lt_irrefl, false_iff]
    omega
  | succ width ih =>
    rw [pow_succ] at small small'
    have front := ih (n := n / 10) (m := m / 10) (by omega) (by omega)
    have equal : padDigits width (n / 10) = padDigits width (m / 10) ↔ n / 10 = m / 10 :=
      ⟨padDigits_injective (by omega) (by omega), fun same => by rw [same]⟩
    have last : [Nat.digitChar (n % 10)] < [Nat.digitChar (m % 10)] ↔ n % 10 < m % 10 := by
      rw [List.cons_lt_cons_iff, digitChar_lt_iff (Nat.mod_lt n (by decide))
        (Nat.mod_lt m (by decide))]
      simp
    rw [padDigits, padDigits, append_lt_append_iff (by simp), front, equal, last]
    omega

/-- The field that comes first decides, the rest where it is the same. -/
theorem field_lt_iff {width n m : Nat} {rest rest' : List Char} (small : n < 10 ^ width)
    (small' : m < 10 ^ width) :
    padDigits width n ++ rest < padDigits width m ++ rest' ↔ n < m ∨ n = m ∧ rest < rest' := by
  have equal : padDigits width n = padDigits width m ↔ n = m :=
    ⟨padDigits_injective small small', fun same => by rw [same]⟩
  rw [append_lt_append_iff (by simp), padDigits_lt_iff small small', equal]

/-- New names sort as their times do. -/
theorem newName_lt_iff (t u : DateTime) (trigger : FileTrigger) :
    newName t trigger < newName u trigger ↔ t.seconds < u.seconds := by
  have dash : ∀ {rest rest' : List Char}, '-' :: rest < '-' :: rest' ↔ rest < rest' := by
    intro rest rest'
    simp
  have ends : ¬ '-' :: (trigger.value.toList ++ ".mgb".toList) <
      '-' :: (trigger.value.toList ++ ".mgb".toList) := List.lt_irrefl _
  rw [String.lt_iff, newName_toList, newName_toList,
    append_lt_append_iff rfl]
  simp only [List.lt_irrefl, true_and, false_or, DateTime.stamp, List.append_assoc,
    List.cons_append]
  rw [field_lt_iff (by omega) (by omega), field_lt_iff (by omega) (by omega),
    field_lt_iff (by omega) (by omega), dash, field_lt_iff (by omega) (by omega),
    field_lt_iff (by omega) (by omega), field_lt_iff (by omega) (by omega)]
  simp only [ends, and_false, or_false, DateTime.seconds]
  omega

end MegooPM
