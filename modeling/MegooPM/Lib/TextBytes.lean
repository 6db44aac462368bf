import MegooPM.Lib.Text
import Mathlib.Data.String.Basic

/-!
# Texts as bytes

A text and the UTF-8 bytes a file holds of it. Every text has its bytes, and not all bytes are
those of a text. Bytes also come cut off and pieced together, so what a text must not hold is
followed through its bytes.
-/
namespace MegooPM.Lib

@[simp] theorem fromUTF8?_toByteArray (text : String) :
    String.fromUTF8? text.toByteArray = some text := by
  rw [String.fromUTF8?, dif_pos text.isValidUTF8]
  rfl

/-- What the bytes decode to has those bytes. -/
theorem toByteArray_of_fromUTF8? {bytes : ByteArray} {text : String}
    (decoded : String.fromUTF8? bytes = some text) : text.toByteArray = bytes := by
  unfold String.fromUTF8? at decoded
  split at decoded
  next valid =>
    cases decoded
    rfl
  next => cases decoded

theorem toByteArray_injective : Function.Injective String.toByteArray := by
  intro left right same
  simpa [String.toByteArray_inj] using same

/-- The byte of a carriage return is not among them. -/
def NoReturnByte (bytes : ByteArray) : Prop :=
  (13 : UInt8) ∉ bytes.data

instance (bytes : ByteArray) : Decidable (NoReturnByte bytes) :=
  inferInstanceAs (Decidable ((13 : UInt8) ∉ bytes.data))

theorem NoReturnByte.append {left right : ByteArray} (clean : NoReturnByte left)
    (cleanRight : NoReturnByte right) : NoReturnByte (left ++ right) := by
  simp only [NoReturnByte, ByteArray.data_append, Array.mem_append, not_or]
  exact ⟨clean, cleanRight⟩

theorem NoReturnByte.extract {bytes : ByteArray} (clean : NoReturnByte bytes) (first last : Nat) :
    NoReturnByte (bytes.extract first last) := by
  intro member
  rw [ByteArray.data_extract] at member
  obtain ⟨i, _, here⟩ := Array.mem_extract_iff_getElem.mp member
  exact clean (here ▸ Array.getElem_mem _)

/-- Only the carriage return is written with its byte: the bytes of a longer sequence are above
the ASCII ones. -/
theorem return_mem_utf8EncodeChar (c : Char) :
    (13 : UInt8) ∈ String.utf8EncodeChar c ↔ c = '\r' := by
  have byte : ∀ n : Nat, (13 : UInt8) = UInt8.ofNat n ↔ n % 256 = 13 := by
    intro n
    rw [← UInt8.toNat_inj, UInt8.toNat_ofNat', eq_comm]
    rfl
  have point : c = '\r' ↔ c.val.toNat = 13 := by
    rw [Char.ext_iff, ← UInt32.toNat_inj]
    rfl
  rw [point]
  unfold String.utf8EncodeChar
  simp only
  split
  · simp only [List.mem_singleton, byte]
    omega
  split
  · simp only [List.mem_cons, List.not_mem_nil, byte, or_false]
    omega
  split
  · simp only [List.mem_cons, List.not_mem_nil, byte, or_false]
    omega
  · simp only [List.mem_cons, List.not_mem_nil, byte, or_false]
    omega

theorem noReturnByte_toByteArray (text : String) :
    NoReturnByte text.toByteArray ↔ NoCarriageReturn text := by
  have bytes : text.toByteArray = (text.toList.flatMap String.utf8EncodeChar).toByteArray := by
    conv_lhs => rw [← String.ofList_toList (s := text)]
    rfl
  simp only [NoReturnByte, NoCarriageReturn, bytes, List.data_toByteArray, List.mem_toArray,
    List.mem_flatMap, return_mem_utf8EncodeChar, exists_eq_right]

end MegooPM.Lib
