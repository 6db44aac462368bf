import Mathlib.Data.Nat.Log
import Mathlib.Data.List.DropRight
import Mathlib.Data.Nat.Digits.Defs

/-!
# Double-precision numbers as texts

Reading a decimal literal as Python's `float` does (to nearest, ties to even, too large is
infinite), and `float.__repr__`: the shortest digits that read back.
-/
namespace MegooPM.Lib

/-- `± mantissa * 2 ^ exponent`, an infinity, or no number. -/
inductive Double where
  | finite (negative : Bool) (mantissa : Nat) (exponent : Int)
  | infinite (negative : Bool)
  | nan
  deriving DecidableEq

def Double.isFinite : Double → Bool
  | .finite .. => true
  | .infinite _ => false
  | .nan => false

/-- `numerator / denominator` to the nearest whole number, ties to even. -/
def roundedDiv (numerator denominator : Nat) : Nat :=
  let quotient := numerator / denominator
  let rest := 2 * (numerator % denominator)
  if denominator < rest ∨ denominator = rest ∧ quotient % 2 = 1 then quotient + 1 else quotient

/-- `x * base ^ e` as a fraction over natural numbers. -/
def scaled (base : Nat) (x : Nat × Nat) (e : Int) : Nat × Nat :=
  match e with
  | .ofNat n => (x.1 * base ^ n, x.2)
  | .negSucc n => (x.1, x.2 * base ^ (n + 1))

/-- The double nearest to a fraction: 53 bits of mantissa, from `2 ^ -1074` up. -/
def nearestDouble (negative : Bool) (numerator denominator : Nat) : Double :=
  if numerator = 0 then .finite negative 0 0
  else
    let guess : Int := (Nat.log 2 numerator : Int) - Nat.log 2 denominator - 52
    let fraction := scaled 2 (numerator, denominator) (-guess)
    let e := max (if fraction.1 < 2 ^ 52 * fraction.2 then guess - 1 else guess) (-1074)
    let fraction := scaled 2 (numerator, denominator) (-e)
    let m := roundedDiv fraction.1 fraction.2
    let (m, e) := if m = 2 ^ 53 then (2 ^ 52, e + 1) else (m, e)
    if e ≤ 971 then .finite negative m e else .infinite negative

/-- `float` of a literal whose digits are those of `digits` and whose last digit counts
`10 ^ exponent`. -/
def floatOf (negative : Bool) (digits : Nat) (exponent : Int) : Double :=
  let fraction := scaled 10 (digits, 1) exponent
  nearestDouble negative fraction.1 fraction.2

/-- A whole number in decimal. -/
def decimalDigits (n : Nat) : List Char :=
  Nat.toDigits 10 n

/-- The digits of the decimal with `places` digits nearest to the fraction that reads back as
`x`, and where its point stands. -/
def digitsAt (x : Double) (fraction : Nat × Nat) (point : Int) (places : Nat) :
    Option (List Char × Int) :=
  let e := point - places
  let shifted := scaled 10 fraction (-e)
  let below := shifted.1 / shifted.2
  let near := if 2 * (shifted.1 % shifted.2) ≤ shifted.2 then [below, below + 1]
    else [below + 1, below]
  (near.find? fun digits => decide (0 < digits) && decide (floatOf false digits e = x)).map
    fun digits =>
      ((decimalDigits digits).rdropWhile (· == '0'), e + (decimalDigits digits).length)

/-- How many digits stand before the point of the fraction. -/
def pointOf (fraction : Nat × Nat) : Int :=
  if fraction.2 ≤ fraction.1 then Nat.log 10 (fraction.1 / fraction.2) + 1
  else -(Nat.log 10 ((fraction.2 - 1) / fraction.1) : Int)

/-- The shortest digits that read back as `mantissa * 2 ^ exponent`. -/
def shortestDigits (mantissa : Nat) (exponent : Int) : List Char × Int :=
  let fraction := scaled 2 (mantissa, 1) exponent
  let x := nearestDouble false fraction.1 fraction.2
  ((List.range' 1 17).findSome? (digitsAt x fraction (pointOf fraction))).getD (['0'], 1)

/-- A decimal exponent: its sign and at least two digits. -/
def exponentText (e : Int) : List Char :=
  let digits := decimalDigits e.natAbs
  'e' :: (if e < 0 then '-' else '+') :: (if digits.length < 2 then '0' :: digits else digits)

/-- The digits with their point in place, as `repr` puts it. -/
def placePoint (digits : List Char) (point : Int) : List Char :=
  if point ≤ -4 ∨ 16 < point then
    digits.take 1 ++ (if digits.length = 1 then [] else '.' :: digits.drop 1) ++
      exponentText (point - 1)
  else if point ≤ 0 then ['0', '.'] ++ List.replicate (-point).toNat '0' ++ digits
  else if point < digits.length then digits.take point.toNat ++ '.' :: digits.drop point.toNat
  else digits ++ List.replicate (point.toNat - digits.length) '0' ++ ['.', '0']

/-- `float.__repr__` of a finite number. -/
def reprFinite (negative : Bool) (mantissa : Nat) (exponent : Int) : List Char :=
  let spelled := if mantissa = 0 then (['0'], 1) else shortestDigits mantissa exponent
  (if negative then ['-'] else []) ++ placePoint spelled.1 spelled.2

example : floatOf false 1 999 = .infinite false := by decide +kernel

end MegooPM.Lib
