import MegooPM.Lib.Utf8

/-!
# UTF-8 in chunks

The bytes of a text, and what a decoder makes of them when they arrive in chunks: a sequence
that a chunk breaks off goes on in the next.
-/
namespace MegooPM.Lib

/-- The bytes of a character. -/
def charBytes (c : Char) : Bytes :=
  let n := c.toNat
  if n < 0x80 then [UInt8.ofNat n]
  else if n < 0x800 then [UInt8.ofNat (0xc0 + n / 0x40), UInt8.ofNat (0x80 + n % 0x40)]
  else if n < 0x10000 then
    [UInt8.ofNat (0xe0 + n / 0x1000), UInt8.ofNat (0x80 + n / 0x40 % 0x40),
      UInt8.ofNat (0x80 + n % 0x40)]
  else
    [UInt8.ofNat (0xf0 + n / 0x40000), UInt8.ofNat (0x80 + n / 0x1000 % 0x40),
      UInt8.ofNat (0x80 + n / 0x40 % 0x40), UInt8.ofNat (0x80 + n % 0x40)]

/-- `text.encode("utf-8")` -/
def textBytes (text : List Char) : Bytes :=
  text.flatMap charBytes

/-- What a decoder shows of the code points and errors it found. -/
def shownPoints (found : List (Option Nat)) : List Char :=
  found.map fun point => point.elim '\uFFFD' (charOr '\uFFFD')

/-- The characters that end in a chunk, and the sequence that is open behind it. -/
def decodeChunk : Option OpenSequence → Bytes → List Char × Option OpenSequence
  | sequence, [] => ([], sequence)
  | sequence, b :: rest =>
    let step := utf8Step false sequence b.toNat
    let later := decodeChunk step.2 rest
    (shownPoints step.1 ++ later.1, later.2)

theorem decodeChunk_append (sequence : Option OpenSequence) (left right : Bytes) :
    decodeChunk sequence (left ++ right) =
      ((decodeChunk sequence left).1 ++ (decodeChunk (decodeChunk sequence left).2 right).1,
        (decodeChunk (decodeChunk sequence left).2 right).2) := by
  induction left generalizing sequence with
  | nil => rfl
  | cons b left ih =>
    simp only [List.cons_append, decodeChunk, ih, List.append_assoc]

/-! ### The bytes of a text are read back -/

private theorem byte_toNat {n : Nat} (small : n < 0x100) : (UInt8.ofNat n).toNat = n := by
  rw [UInt8.toNat_ofNat']
  exact Nat.mod_eq_of_lt small

/-- A byte that goes on with the open sequence. -/
private theorem decodeChunk_goOn {point b : Nat} {next : ByteRange} {later : List ByteRange}
    (small : b < 0x100) (inside : next.1 ≤ b ∧ b ≤ next.2) (rest : Bytes) :
    decodeChunk (some ⟨point, next, later⟩) (UInt8.ofNat b :: rest) =
      (shownPoints (goOn (point * 0x40 + (b - 0x80)) later).1 ++
          (decodeChunk (goOn (point * 0x40 + (b - 0x80)) later).2 rest).1,
        (decodeChunk (goOn (point * 0x40 + (b - 0x80)) later).2 rest).2) := by
  simp only [decodeChunk, byte_toNat small, utf8Step, if_pos inside]

private theorem decodeChunk_lead {b point : Nat} {ranges : List ByteRange} (small : b < 0x100)
    (lead : leadByte false b = some (point, ranges)) (rest : Bytes) :
    decodeChunk none (UInt8.ofNat b :: rest) =
      (shownPoints (goOn point ranges).1 ++ (decodeChunk (goOn point ranges).2 rest).1,
        (decodeChunk (goOn point ranges).2 rest).2) := by
  simp only [decodeChunk, byte_toNat small, utf8Step, startSequence, lead]

private theorem decodeChunk_nil (sequence : Option OpenSequence) :
    decodeChunk sequence [] = ([], sequence) := by
  rfl

private theorem shownPoints_nil : shownPoints [] = [] := by
  rfl

private theorem shownPoints_point {c : Char} {point : Nat} (same : point = c.toNat) :
    shownPoints [some point] = [c] := by
  have valid : c.toNat.isValidChar := c.valid
  rw [same]
  simp only [shownPoints, List.map_cons, List.map_nil, Option.elim_some, charOr, if_pos valid,
    Char.ofNat_toNat]

/-- What begins a character of three bytes: no shorter form, and no surrogate. -/
private theorem leadByte_three {n : Nat} (low : 0x800 ≤ n) (high : n < 0x10000)
    (valid : n < 0xd800 ∨ 0xdfff < n) :
    ∃ next : ByteRange, leadByte false (0xe0 + n / 0x1000) = some (n / 0x1000, [next, tailRange]) ∧
      next.1 ≤ 0x80 + n / 0x40 % 0x40 ∧ 0x80 + n / 0x40 % 0x40 ≤ next.2 := by
  unfold leadByte tailRange
  rw [if_neg (by omega), if_neg (by omega), if_neg (by omega)]
  by_cases first : 0xe0 + n / 0x1000 = 0xe0
  · rw [if_pos first, show n / 0x1000 = 0 by omega]
    exact ⟨_, rfl, by show 0xa0 ≤ _; omega, by show _ ≤ 0xbf; omega⟩
  rw [if_neg first]
  by_cases edge : 0xe0 + n / 0x1000 = 0xed
  · rw [if_pos edge, show n / 0x1000 = 0xd by omega]
    exact ⟨_, rfl, by show 0x80 ≤ _; omega, by show _ ≤ 0x9f; omega⟩
  rw [if_neg edge, if_pos (by omega), show 0xe0 + n / 0x1000 - 0xe0 = n / 0x1000 by omega]
  exact ⟨_, rfl, by show 0x80 ≤ _; omega, by show _ ≤ 0xbf; omega⟩

private theorem leadByte_four {n : Nat} (low : 0x10000 ≤ n) (high : n < 0x110000) :
    ∃ next : ByteRange, leadByte false (0xf0 + n / 0x40000) =
        some (n / 0x40000, [next, tailRange, tailRange]) ∧
      next.1 ≤ 0x80 + n / 0x1000 % 0x40 ∧ 0x80 + n / 0x1000 % 0x40 ≤ next.2 := by
  unfold leadByte tailRange
  rw [if_neg (by omega), if_neg (by omega), if_neg (by omega), if_neg (by omega),
    if_neg (by omega), if_neg (by omega)]
  by_cases first : 0xf0 + n / 0x40000 = 0xf0
  · rw [if_pos first, show n / 0x40000 = 0 by omega]
    exact ⟨_, rfl, by show 0x90 ≤ _; omega, by show _ ≤ 0xbf; omega⟩
  rw [if_neg first]
  by_cases last : 0xf0 + n / 0x40000 = 0xf4
  · rw [if_neg (by omega), if_pos last, show n / 0x40000 = 4 by omega]
    exact ⟨_, rfl, by show 0x80 ≤ _; omega, by show _ ≤ 0x8f; omega⟩
  rw [if_pos (by omega), show 0xf0 + n / 0x40000 - 0xf0 = n / 0x40000 by omega]
  exact ⟨_, rfl, by show 0x80 ≤ _; omega, by show _ ≤ 0xbf; omega⟩

private theorem tail_inside (n : Nat) :
    tailRange.1 ≤ 0x80 + n % 0x40 ∧ 0x80 + n % 0x40 ≤ tailRange.2 := by
  constructor
  · show 0x80 ≤ _
    omega
  · show _ ≤ 0xbf
    omega

theorem decodeChunk_charBytes (c : Char) : decodeChunk none (charBytes c) = ([c], none) := by
  have valid : c.toNat < 0xd800 ∨ 0xdfff < c.toNat ∧ c.toNat < 0x110000 := c.valid
  have small {n : Nat} : 0x80 + n % 0x40 < 0x100 := by omega
  simp only [charBytes]
  split
  next one =>
    have lead : leadByte false c.toNat = some (c.toNat, []) := by rw [leadByte, if_pos one]
    rw [decodeChunk_lead (by omega) lead]
    simp only [goOn, decodeChunk_nil, shownPoints_point rfl, List.append_nil]
  split
  next two =>
    have lead : leadByte false (0xc0 + c.toNat / 0x40) = some (c.toNat / 0x40, [tailRange]) := by
      unfold leadByte
      rw [if_neg (by omega), if_neg (by omega), if_pos (by omega), Nat.add_sub_cancel_left]
    have point : c.toNat / 0x40 * 0x40 + (0x80 + c.toNat % 0x40 - 0x80) = c.toNat := by omega
    rw [decodeChunk_lead (by omega) lead]
    simp only [goOn, decodeChunk_goOn small (tail_inside c.toNat), decodeChunk_nil,
      shownPoints_nil, shownPoints_point point, List.append_nil, List.nil_append]
  split
  next three =>
    obtain ⟨next, lead, inside⟩ := leadByte_three (by omega) three (by omega)
    have point : (c.toNat / 0x1000 * 0x40 + (0x80 + c.toNat / 0x40 % 0x40 - 0x80)) * 0x40 +
        (0x80 + c.toNat % 0x40 - 0x80) = c.toNat := by omega
    rw [decodeChunk_lead (by omega) lead]
    simp only [goOn, decodeChunk_goOn small inside, decodeChunk_goOn small (tail_inside c.toNat),
      decodeChunk_nil, shownPoints_nil, shownPoints_point point, List.append_nil, List.nil_append]
  next four =>
    obtain ⟨next, lead, inside⟩ := leadByte_four (Nat.le_of_not_lt four) (by omega)
    have point : ((c.toNat / 0x40000 * 0x40 + (0x80 + c.toNat / 0x1000 % 0x40 - 0x80)) * 0x40 +
        (0x80 + c.toNat / 0x40 % 0x40 - 0x80)) * 0x40 + (0x80 + c.toNat % 0x40 - 0x80) =
          c.toNat := by omega
    rw [decodeChunk_lead (by omega) lead]
    simp only [goOn, decodeChunk_goOn small inside,
      decodeChunk_goOn small (tail_inside (c.toNat / 0x40)),
      decodeChunk_goOn small (tail_inside c.toNat),
      decodeChunk_nil, shownPoints_nil, shownPoints_point point, List.append_nil, List.nil_append]

/-- A whole text is read back, and nothing is open behind it. -/
theorem decodeChunk_textBytes (text : List Char) :
    decodeChunk none (textBytes text) = (text, none) := by
  induction text with
  | nil => rfl
  | cons c text ih =>
    have bytes : textBytes (c :: text) = charBytes c ++ textBytes text := rfl
    rw [bytes, decodeChunk_append, decodeChunk_charBytes, ih]
    rfl

end MegooPM.Lib
