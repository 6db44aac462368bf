import MegooPM.Data.Tables

/-!
# Timestamps

`isoformat` loses nothing, and its text holds no `|`: every field has a fixed width, and
only the microseconds may be missing.
-/
namespace MegooPM

open Lib

@[simp] theorem length_padDigits (width n : Nat) : (padDigits width n).length = width := by
  induction width generalizing n with
  | zero => rfl
  | succ width ih => simp [padDigits, ih]

private theorem digitChar_injective {n m : Nat} (small : n < 10) (small' : m < 10)
    (same : Nat.digitChar n = Nat.digitChar m) : n = m := by
  have codes := congrArg Char.toNat same
  rw [Nat.toNat_digitChar_of_lt_ten small, Nat.toNat_digitChar_of_lt_ten small'] at codes
  omega

/-- A number that fits its width is read back from its digits. -/
theorem padDigits_injective {width n m : Nat} (small : n < 10 ^ width) (small' : m < 10 ^ width)
    (same : padDigits width n = padDigits width m) : n = m := by
  induction width generalizing n m with
  | zero =>
    rw [pow_zero] at small small'
    omega
  | succ width ih =>
    rw [pow_succ] at small small'
    simp only [padDigits] at same
    obtain ⟨front, last⟩ := List.append_inj same (by simp)
    have tens := ih (n := n / 10) (m := m / 10) (by omega) (by omega) front
    have ones := digitChar_injective (Nat.mod_lt n (by omega)) (Nat.mod_lt m (by omega))
      (List.head_eq_of_cons_eq last)
    omega

theorem isDigit_of_mem_padDigits {width n : Nat} {c : Char} (member : c ∈ padDigits width n) :
    c.isDigit = true := by
  induction width generalizing n with
  | zero => cases member
  | succ width ih =>
    rw [padDigits, List.mem_append, List.mem_singleton] at member
    rcases member with front | rfl
    · exact ih front
    · rw [Nat.isDigit_digitChar]
      simpa using Nat.mod_lt n (by omega)

/-- The fields of a timestamp, in order. -/
theorem isoformat_injective : Function.Injective DateTime.isoformat := by
  intro t u same
  have texts := congrArg String.toList same
  simp only [DateTime.isoformat, String.toList_ofList, List.append_assoc, List.cons_append] at texts
  obtain ⟨year, texts⟩ := List.append_inj texts (by simp)
  obtain ⟨month, texts⟩ := List.append_inj (List.cons.inj texts).2 (by simp)
  obtain ⟨day, texts⟩ := List.append_inj (List.cons.inj texts).2 (by simp)
  obtain ⟨hour, texts⟩ := List.append_inj (List.cons.inj texts).2 (by simp)
  obtain ⟨minute, texts⟩ := List.append_inj (List.cons.inj texts).2 (by simp)
  obtain ⟨second, texts⟩ := List.append_inj (List.cons.inj texts).2 (by simp)
  have fraction := List.append_cancel_right texts
  have micros : t.microsecond = u.microsecond := by
    split at fraction <;> split at fraction
    next none_ none_' => rw [none_, none_']
    next => cases fraction
    next => cases fraction
    next =>
      have digits := (List.cons.inj fraction).2
      exact Fin.ext (padDigits_injective (by omega) (by omega) digits)
  obtain ⟨y, mo, d, h, mi, s, us⟩ := t
  obtain ⟨y', mo', d', h', mi', s', us'⟩ := u
  simp only at year month day hour minute second micros
  rw [Fin.ext (padDigits_injective (by omega) (by omega) year),
    Fin.ext (padDigits_injective (by omega) (by omega) month),
    Fin.ext (padDigits_injective (by omega) (by omega) day),
    Fin.ext (padDigits_injective (by omega) (by omega) hour),
    Fin.ext (padDigits_injective (by omega) (by omega) minute),
    Fin.ext (padDigits_injective (by omega) (by omega) second), micros]

/-- No field and no separator is a bar. -/
theorem bar_notMem_isoformat (t : DateTime) : '|' ∉ t.isoformat.toList := by
  have digits : ∀ width n, '|' ∉ padDigits width n := by
    intro width n member
    have digit := isDigit_of_mem_padDigits member
    revert digit
    decide
  rw [DateTime.isoformat, String.toList_ofList]
  split <;> simp [digits]

theorem isoformat_ne_empty (t : DateTime) : t.isoformat ≠ "" := by
  intro empty
  have texts := congrArg (fun s => s.toList.length) empty
  simp [DateTime.isoformat] at texts

end MegooPM
