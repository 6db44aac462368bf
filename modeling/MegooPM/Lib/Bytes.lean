import Mathlib.Data.Nat.ModEq
import Mathlib.Tactic.Ring

/-!
# Byte strings

Numbers as big-endian bytes of a fixed width, and bytes as hexadecimal digits, and back.
-/
namespace MegooPM.Lib

abbrev Bytes := List UInt8

/-- The last `width` bytes of a number, the most significant one first. -/
def bytesBE : Nat → Nat → Bytes
  | 0, _ => []
  | width + 1, n => UInt8.ofNat (n / 256 ^ width) :: bytesBE width (n % 256 ^ width)

/-- The number big-endian bytes stand for. -/
def natBE : Bytes → Nat
  | [] => 0
  | b :: rest => b.toNat * 256 ^ rest.length + natBE rest

@[simp] theorem length_bytesBE (width n : Nat) : (bytesBE width n).length = width := by
  induction width generalizing n with
  | zero => rfl
  | succ width ih => rw [bytesBE, List.length_cons, ih]

theorem natBE_lt (bytes : Bytes) : natBE bytes < 256 ^ bytes.length := by
  induction bytes with
  | nil => exact Nat.one_pos
  | cons b rest ih =>
    have digit : b.toNat ≤ 255 := by
      have := b.toNat_lt
      omega
    calc b.toNat * 256 ^ rest.length + natBE rest
        < b.toNat * 256 ^ rest.length + 256 ^ rest.length := by omega
      _ ≤ 255 * 256 ^ rest.length + 256 ^ rest.length := by gcongr
      _ = 256 ^ (rest.length + 1) := by ring

theorem natBE_bytesBE {width n : Nat} (fits : n < 256 ^ width) : natBE (bytesBE width n) = n := by
  induction width generalizing n with
  | zero =>
    rw [pow_zero] at fits
    rw [bytesBE, natBE]
    omega
  | succ width ih =>
    have positive : 0 < 256 ^ width := Nat.pow_pos (by decide)
    have digit : n / 256 ^ width < 256 := by
      rw [Nat.div_lt_iff_lt_mul positive]
      calc n < 256 ^ (width + 1) := fits
        _ = 256 * 256 ^ width := by ring
    rw [bytesBE, natBE, length_bytesBE, ih (Nat.mod_lt n positive), UInt8.toNat_ofNat',
      Nat.mod_eq_of_lt digit]
    exact Nat.div_add_mod' n (256 ^ width)

theorem bytesBE_natBE (bytes : Bytes) : bytesBE bytes.length (natBE bytes) = bytes := by
  induction bytes with
  | nil => rfl
  | cons b rest ih =>
    have below := natBE_lt rest
    have positive : 0 < 256 ^ rest.length := Nat.pow_pos (by decide)
    have first : (b.toNat * 256 ^ rest.length + natBE rest) / 256 ^ rest.length = b.toNat := by
      rw [Nat.mul_comm, Nat.mul_add_div positive, Nat.div_eq_of_lt below, Nat.add_zero]
    have others : (b.toNat * 256 ^ rest.length + natBE rest) % 256 ^ rest.length = natBE rest := by
      rw [Nat.mul_comm, Nat.mul_add_mod, Nat.mod_eq_of_lt below]
    rw [List.length_cons, bytesBE, natBE, first, others, ih, UInt8.ofNat_toNat]

theorem bytesBE_inj {width m n : Nat} (left : m < 256 ^ width) (right : n < 256 ^ width)
    (same : bytesBE width m = bytesBE width n) : m = n := by
  rw [← natBE_bytesBE left, same, natBE_bytesBE right]

/-- `struct.pack(">I", n)`; `none` where it raises. -/
def pack32 (n : Nat) : Option Bytes :=
  if n < 2 ^ 32 then some (bytesBE 4 n) else none

theorem pack32_of_lt {n : Nat} (fits : n < 2 ^ 32) : pack32 n = some (bytesBE 4 n) :=
  if_pos fits

/-! ### Hexadecimal -/

def hexByte (b : UInt8) : List Char :=
  [Nat.digitChar (b.toNat / 16), Nat.digitChar (b.toNat % 16)]

/-- `bytes.hex()`. -/
def hex (bytes : Bytes) : List Char :=
  bytes.flatMap hexByte

def hexValue (c : Char) : Option Nat :=
  if c.isDigit then some (c.toNat - 48)
  else if 'a' ≤ c ∧ c ≤ 'f' then some (c.toNat - 87)
  else if 'A' ≤ c ∧ c ≤ 'F' then some (c.toNat - 55)
  else none

/-- `bytes.fromhex()` of a text without blanks; `none` where it raises. -/
def fromHex : List Char → Option Bytes
  | [] => some []
  | [_] => none
  | high :: low :: rest => do
    let h ← hexValue high
    let l ← hexValue low
    let bytes ← fromHex rest
    return UInt8.ofNat (16 * h + l) :: bytes

theorem hexValue_digitChar {n : Nat} (digit : n < 16) : hexValue (Nat.digitChar n) = some n := by
  revert n
  decide

theorem fromHex_hex (bytes : Bytes) : fromHex (hex bytes) = some bytes := by
  induction bytes with
  | nil => rfl
  | cons b rest ih =>
    have high : b.toNat / 16 < 16 := by
      have := b.toNat_lt
      omega
    have low : b.toNat % 16 < 16 := Nat.mod_lt _ (by decide)
    have same : 16 * (b.toNat / 16) + b.toNat % 16 = b.toNat := Nat.div_add_mod _ _
    have tail : fromHex (rest.flatMap hexByte) = some rest := ih
    simp only [hex, List.flatMap_cons, hexByte, List.cons_append, List.nil_append, fromHex,
      hexValue_digitChar high, hexValue_digitChar low, tail, Option.bind_eq_bind, Option.bind_some,
      same, UInt8.ofNat_toNat]
    rfl

end MegooPM.Lib
