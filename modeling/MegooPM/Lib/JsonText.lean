import MegooPM.Lib.Text

/-!
# Texts as JSON

`json.dumps` of a text with its default `ensure_ascii`: a quoted text of printable
ASCII characters, whatever the text holds.
-/
namespace MegooPM.Lib

/-- `\uXXXX`. -/
def unicodeEscape (n : Nat) : List Char :=
  '\\' :: 'u' :: [n / 4096, n / 256, n / 16, n].map fun d => Nat.digitChar (d % 16)

def isPrintable (c : Char) : Bool :=
  ' ' ≤ c && c ≤ '~'

def jsonChar (c : Char) : List Char :=
  match c with
  | '\"' => ['\\', '\"']
  | '\\' => ['\\', '\\']
  | '\n' => ['\\', 'n']
  | '\r' => ['\\', 'r']
  | '\t' => ['\\', 't']
  | '\x08' => ['\\', 'b']
  | '\x0c' => ['\\', 'f']
  | c =>
    if isPrintable c then [c]
    else if c.toNat < 0x10000 then unicodeEscape c.toNat
    else
      -- outside the basic plane: a pair of surrogates
      let rest := c.toNat - 0x10000
      unicodeEscape (0xd800 + rest / 0x400) ++ unicodeEscape (0xdc00 + rest % 0x400)

/-- `json.dumps(text)`. -/
def jsonText (text : String) : String :=
  "\"" ++ String.ofList (text.toList.flatMap jsonChar) ++ "\""

private theorem isPrintable_digitChar (n : Nat) : isPrintable (Nat.digitChar (n % 16)) = true := by
  have small : ∀ d < 16, isPrintable (Nat.digitChar d) = true := by decide
  exact small _ (Nat.mod_lt n (by decide))

theorem isPrintable_unicodeEscape (n : Nat) :
    ∀ x ∈ unicodeEscape n, isPrintable x = true := by
  simp only [unicodeEscape, List.map_cons, List.map_nil, List.forall_mem_cons]
  exact ⟨rfl, rfl, isPrintable_digitChar _, isPrintable_digitChar _, isPrintable_digitChar _,
    isPrintable_digitChar _, List.forall_mem_nil _⟩

theorem isPrintable_jsonChar (c : Char) : ∀ x ∈ jsonChar c, isPrintable x = true := by
  unfold jsonChar
  split
  all_goals try exact List.all_eq_true.mp (by decide)
  split
  next printable => exact List.forall_mem_singleton.mpr printable
  · split
    · exact isPrintable_unicodeEscape _
    · exact List.forall_mem_append.mpr ⟨isPrintable_unicodeEscape _, isPrintable_unicodeEscape _⟩

theorem isPrintable_jsonText (text : String) :
    ∀ x ∈ (jsonText text).toList, isPrintable x = true := by
  have quote : ∀ x ∈ ("\"" : String).toList, isPrintable x = true :=
    List.all_eq_true.mp (by decide)
  simp only [jsonText, String.toList_append, String.toList_ofList]
  refine List.forall_mem_append.mpr ⟨List.forall_mem_append.mpr ⟨quote, fun x member => ?_⟩, quote⟩
  obtain ⟨c, _, inside⟩ := List.mem_flatMap.mp member
  exact isPrintable_jsonChar c x inside

theorem noCarriageReturn_jsonText (text : String) : NoCarriageReturn (jsonText text) :=
  fun member => absurd (isPrintable_jsonText text '\r' member) (by decide)

end MegooPM.Lib
