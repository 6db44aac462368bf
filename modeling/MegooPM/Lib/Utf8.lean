import MegooPM.Lib.Bytes

/-!
# UTF-8, byte by byte

What `bytes.decode` makes of every byte string. A byte that cannot go on with the sequence before
it ends that sequence, which is then one error, and starts the next.
-/
namespace MegooPM.Lib

/-- The first and the last byte that may come next. -/
abbrev ByteRange := Nat × Nat

def tailRange : ByteRange := (0x80, 0xbf)

/-- The bits of a first byte and what its sequence goes on with. With `surrogates`, as with
`errors="surrogatepass"`, three bytes may also stand for a surrogate. -/
def leadByte (surrogates : Bool) (b : Nat) : Option (Nat × List ByteRange) :=
  if b < 0x80 then some (b, [])
  else if b < 0xc2 then none
  else if b < 0xe0 then some (b - 0xc0, [tailRange])
  else if b = 0xe0 then some (0, [(0xa0, 0xbf), tailRange])
  else if b = 0xed then some (0xd, [(0x80, if surrogates then 0xbf else 0x9f), tailRange])
  else if b < 0xf0 then some (b - 0xe0, [tailRange, tailRange])
  else if b = 0xf0 then some (0, [(0x90, 0xbf), tailRange, tailRange])
  else if b < 0xf4 then some (b - 0xf0, [tailRange, tailRange, tailRange])
  else if b = 0xf4 then some (4, [(0x80, 0x8f), tailRange, tailRange])
  else none

/-- A sequence that is not at its end. -/
structure OpenSequence where
  point : Nat
  next : ByteRange
  later : List ByteRange

/-- A code point, or `none` for an error, where a sequence ends; and the one that is open. -/
abbrev Utf8Step := List (Option Nat) × Option OpenSequence

def goOn (point : Nat) : List ByteRange → Utf8Step
  | [] => ([some point], none)
  | next :: later => ([], some ⟨point, next, later⟩)

def startSequence (surrogates : Bool) (b : Nat) : Utf8Step :=
  match leadByte surrogates b with
  | none => ([none], none)
  | some (point, ranges) => goOn point ranges

def utf8Step (surrogates : Bool) (sequence : Option OpenSequence) (b : Nat) : Utf8Step :=
  match sequence with
  | none => startSequence surrogates b
  | some s =>
    if s.next.1 ≤ b ∧ b ≤ s.next.2 then goOn (s.point * 0x40 + (b - 0x80)) s.later
    else
      let (found, next) := startSequence surrogates b
      (none :: found, next)

/-- The code points of what is left of a text, and its errors. -/
def utf8From (surrogates : Bool) : Option OpenSequence → Bytes → List (Option Nat)
  | none, [] => []
  | some _, [] => [none]
  | sequence, b :: rest =>
    let (found, next) := utf8Step surrogates sequence b.toNat
    found ++ utf8From surrogates next rest

/-- The character, where there is one. -/
def charOr (other : Char) (point : Nat) : Char :=
  if point.isValidChar then Char.ofNat point else other

/-- `data.decode("utf-8", errors="replace")` -/
def decodeReplacing (data : Bytes) : List Char :=
  (utf8From false none data).map fun point => point.elim '\uFFFD' (charOr '\uFFFD')

/-- `data.decode("utf-8", "surrogatepass")`, `none` where it raises. A surrogate is no character:
the replacement character stands for it. -/
def decodePassing (data : Bytes) : Option (List Char) :=
  ((utf8From true none data).mapM id).map fun points => points.map (charOr '\uFFFD')

/-- The bytes of an ASCII text. -/
def asciiBytes (text : List Char) : Bytes :=
  text.map fun c => UInt8.ofNat c.toNat

theorem utf8From_ascii {surrogates : Bool} {text : List Char} (ascii : ∀ c ∈ text, c.toNat < 0x80) :
    utf8From surrogates none (asciiBytes text) = text.map fun c => some c.toNat := by
  induction text with
  | nil => rfl
  | cons c text ih =>
    rw [List.forall_mem_cons] at ascii
    have byte : (UInt8.ofNat c.toNat).toNat = c.toNat := by
      rw [UInt8.toNat_ofNat']
      exact Nat.mod_eq_of_lt (by omega)
    have lead : leadByte surrogates c.toNat = some (c.toNat, []) := by
      rw [leadByte, if_pos ascii.1]
    rw [asciiBytes, List.map_cons, utf8From, byte]
    simp only [utf8Step, startSequence, lead, goOn, List.singleton_append, List.map_cons]
    rw [← ih ascii.2, asciiBytes]

private theorem charOr_toNat (other c : Char) : charOr other c.toNat = c := by
  have valid : c.toNat.isValidChar := c.valid
  rw [charOr, if_pos valid, Char.ofNat_toNat]

theorem decodeReplacing_ascii {text : List Char} (ascii : ∀ c ∈ text, c.toNat < 0x80) :
    decodeReplacing (asciiBytes text) = text := by
  rw [decodeReplacing, utf8From_ascii ascii, List.map_map]
  calc
    _ = text.map id := List.map_congr_left fun c _ => charOr_toNat _ c
    _ = text := List.map_id text

end MegooPM.Lib
