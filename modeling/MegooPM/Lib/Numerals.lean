import MegooPM.Lib.Json
import MegooPM.Lib.Trimming
import Mathlib

/-!
# Whole numbers in texts

How ECMAScript reads a whole number from a text, and that it reads the number that was
printed.
-/
namespace MegooPM.Lib

/-- The sign that a numeral may begin with, and the rest. -/
def splitSign : List Char → Bool × List Char
  | '+' :: rest => (false, rest)
  | '-' :: rest => (true, rest)
  | rest => (false, rest)

/-- `Number.parseInt(text, 10)`, which reads as far as it can; `none` for `NaN`. -/
def parseInt (text : String) : Option Int :=
  let (negative, rest) := splitSign (text.toList.dropWhile isJsSpace)
  let digits := rest.takeWhile Char.isDigit
  if digits = [] then none else some (signed negative (digitsValue digits))

private theorem isJsSpace_of_isDigit {c : Char} (digit : c.isDigit = true) :
    isJsSpace c = false := by
  have bounds : 48 ≤ c.toNat ∧ c.toNat ≤ 57 := by
    simpa [Char.isDigit, Char.le_def, UInt32.le_iff_toNat_le] using digit
  simp only [isJsSpace, List.any_cons, List.any_nil, Bool.or_false, Bool.or_eq_false_iff,
    decide_eq_false_iff_not]
  omega

private theorem takeWhile_toDigits (n : Nat) :
    (Nat.toDigits 10 n).takeWhile Char.isDigit = Nat.toDigits 10 n := by
  rw [List.takeWhile_eq_self_iff]
  intro c member
  exact Nat.isDigit_of_mem_toDigits (by decide) (by decide) member

theorem parseInt_nat (n : Nat) : parseInt (toString n) = some (n : Int) := by
  have text : (toString n).toList = Nat.toDigits 10 n := Nat.toList_repr
  obtain ⟨c, rest, digits⟩ := List.exists_cons_of_ne_nil (Nat.toDigits_ne_nil (n := n) (b := 10))
  have digit : c.isDigit = true :=
    Nat.isDigit_of_mem_toDigits (by decide) (by decide) (digits ▸ List.mem_cons_self ..)
  have unsigned : splitSign (Nat.toDigits 10 n) = (false, Nat.toDigits 10 n) := by
    rw [digits]
    unfold splitSign
    split
    next same => rw [(List.cons.inj same).1] at digit; cases digit
    next same => rw [(List.cons.inj same).1] at digit; cases digit
    next => rfl
  have front : (Nat.toDigits 10 n).dropWhile isJsSpace = Nat.toDigits 10 n := by
    rw [digits, List.dropWhile_cons_of_neg (by rw [isJsSpace_of_isDigit digit]; decide)]
  simp only [parseInt, text, front, unsigned, takeWhile_toDigits, Nat.toDigits_ne_nil, if_false,
    signed, digitsValue, Nat.ofDigitChars_ten_toDigits, Bool.false_eq_true]

/-- The number that was printed is read. -/
theorem parseInt_toString (i : Int) : parseInt (toString i) = some i := by
  cases i with
  | ofNat n => exact parseInt_nat n
  | negSucc n =>
    have text : (toString (Int.negSucc n)).toList = '-' :: Nat.toDigits 10 (n + 1) := by
      have whole : toString (Int.negSucc n) = "-" ++ (n + 1).repr := rfl
      rw [whole, String.toList_append, Nat.toList_repr]
      rfl
    have front : ('-' :: Nat.toDigits 10 (n + 1)).dropWhile isJsSpace =
        '-' :: Nat.toDigits 10 (n + 1) := List.dropWhile_cons_of_neg (by decide)
    simp only [parseInt, text, front, splitSign, takeWhile_toDigits, Nat.toDigits_ne_nil, if_false,
      signed, digitsValue, Nat.ofDigitChars_ten_toDigits, if_true]
    rfl

/-- A printed number is not trimmed. -/
theorem trim_nat (n : Nat) : trim (toString n) = toString n := by
  have text : (toString n).toList = Nat.toDigits 10 n := Nat.toList_repr
  have plain : ∀ c ∈ Nat.toDigits 10 n, isJsSpace c = false := fun c member =>
    isJsSpace_of_isDigit (Nat.isDigit_of_mem_toDigits (by decide) (by decide) member)
  rw [trim, text, trimBy_eq_self (fun c head => plain c (List.mem_of_head? head))
    (fun c last => plain c (List.mem_of_getLast? last)), ← text, String.ofList_toList]

end MegooPM.Lib
