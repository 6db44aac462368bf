import Mathlib.Data.List.Infix
import Mathlib.Tactic.Common
import Mathlib.Data.Char

/-!
# Lower case and searching

What `str.lower` does to the length of a text and to the texts found in it. One character, the
capital I with a dot, is lowered to two, so that places in the lowered text are not places in
the text; and no text of ASCII is found in the lowered text that was not in the text, as long
as it has no letter that others are lowered to.
-/
namespace MegooPM.Lib

/-- The capital I with a dot above. -/
def dottedI : Char := '\u0130'

/-- What `str` knows of Unicode. How a character is lowered may depend on the texts before and
behind it, as the final sigma does. -/
structure Unicode where
  lowered : List Char → Char → List Char → List Char
  isAlnum : Char → Bool
  ascii : ∀ before c after, c.toNat < 128 → lowered before c after = [c.toLower]
  /-- Only the dotted I and the Kelvin sign are lowered into ASCII. -/
  beyond : ∀ before c after, 128 ≤ c.toNat → ∀ x ∈ lowered before c after, x.toNat < 128 →
    x = 'i' ∨ x = 'k'
  length : ∀ before c after, (lowered before c after).length = if c = dottedI then 2 else 1
  alnum : ∀ c, c.toNat < 128 → isAlnum c = c.isAlphanum

/-- `Char.toLower` moves the capitals of ASCII and no other character. -/
theorem toLower_cases (c : Char) :
    c.toLower = c ∨ (65 ≤ c.toNat ∧ c.toNat ≤ 90 ∧ c.toLower.toNat = c.toNat + 32) := by
  unfold Char.toLower
  split
  next upper =>
    have low : 65 ≤ c.val.toNat := UInt32.le_iff_toNat_le.mp upper.1
    have high : c.val.toNat ≤ 90 := UInt32.le_iff_toNat_le.mp upper.2
    refine .inr ⟨low, high, ?_⟩
    show (c.val + ('a'.val - 'A'.val)).toNat = c.val.toNat + 32
    have apart : ('a'.val - 'A'.val).toNat = 32 := by decide
    rw [UInt32.toNat_add]
    omega
  next => exact .inl rfl

/-- A character that is no letter is spelled in one way. -/
theorem eq_of_toLower {c x : Char} (lowered : c.toLower = x) (other : x.toNat < 97) : c = x := by
  rcases toLower_cases c with same | ⟨_, _, moved⟩
  · rw [← same, lowered]
  · rw [lowered] at moved
    omega

theorem ascii_of_toLower {c : Char} (small : c.toLower.toNat < 128) : c.toNat < 128 := by
  rcases toLower_cases c with same | ⟨_, _, moved⟩
  · rwa [same] at small
  · omega

namespace Unicode

/-- ASCII and the dotted I, with no other letter that has a lower case. -/
def latin : Unicode where
  lowered _ c _ := if c = dottedI then ['i', '\u0307'] else [c.toLower]
  isAlnum := Char.isAlphanum
  ascii _ c _ small := by
    rw [if_neg]
    rintro rfl
    exact absurd small (by decide)
  beyond _ c _ large x member small := by
    split at member
    next =>
      rcases List.mem_pair.mp member with rfl | rfl
      · exact .inl rfl
      · exact absurd small (by decide)
    next =>
      rw [List.mem_singleton.mp member] at small
      have : c.toNat < 128 := ascii_of_toLower small
      omega
  length _ c _ := by
    split <;> rfl
  alnum _ _ := rfl

variable (u : Unicode)

/-- `\w` -/
def isWord (c : Char) : Bool :=
  u.isAlnum c || c = '_'

/-- A text in lower case, with what stands before and behind it. -/
def lowerBetween (before : List Char) : List Char → List Char → List Char
  | [], _ => []
  | c :: text, after =>
    u.lowered before c (text ++ after) ++ lowerBetween (before ++ [c]) text after

/-- `str.lower` -/
def lower (text : List Char) : List Char :=
  u.lowerBetween [] text []

theorem lowerBetween_append (before first second after : List Char) :
    u.lowerBetween before (first ++ second) after =
      u.lowerBetween before first (second ++ after) ++
        u.lowerBetween (before ++ first) second after := by
  induction first generalizing before with
  | nil => simp [lowerBetween]
  | cons c first ih =>
    rw [List.cons_append, lowerBetween, lowerBetween, ih, List.append_assoc, List.append_assoc,
      List.append_assoc]
    rfl

theorem length_lowerBetween (before text after : List Char) :
    (u.lowerBetween before text after).length = text.length + text.count dottedI := by
  induction text generalizing before with
  | nil => rfl
  | cons c text ih =>
    rw [lowerBetween, List.length_append, u.length, ih, List.length_cons]
    by_cases dotted : c = dottedI
    · rw [if_pos dotted, dotted, List.count_cons_self]
      omega
    · rw [if_neg dotted, List.count_cons_of_ne dotted]
      omega

theorem lowerBetween_ascii {text : List Char} (plain : ∀ c ∈ text, c.toNat < 128)
    (before after : List Char) : u.lowerBetween before text after = text.map Char.toLower := by
  induction text generalizing before with
  | nil => rfl
  | cons c text ih =>
    rw [lowerBetween, u.ascii _ _ _ (plain c (List.mem_cons_self ..)),
      ih fun d member => plain d (List.mem_cons_of_mem _ member)]
    rfl

end Unicode

/-- Characters of ASCII that nothing else is lowered to. -/
def Faithful (needle : List Char) : Prop :=
  ∀ c ∈ needle, c.toNat < 128 ∧ c ≠ 'i' ∧ c ≠ 'k'

instance (needle : List Char) : Decidable (Faithful needle) :=
  List.decidableBAll _ needle

section
variable {u : Unicode} {needle : List Char}

/-- The first character that is lowered to one of the needle is of ASCII. -/
private theorem ascii_of_lowered {c x : Char} {before after : List Char} {rest : List Char}
    (faithful : x.toNat < 128 ∧ x ≠ 'i' ∧ x ≠ 'k') (lowered : u.lowered before c after = x :: rest) :
    c.toNat < 128 := by
  by_contra large
  have member : x ∈ u.lowered before c after := lowered ▸ List.mem_cons_self ..
  rcases u.beyond before c after (by omega) x member faithful.1 with same | same
  · exact faithful.2.1 same
  · exact faithful.2.2 same

private theorem prefix_of_lowerBetween (faithful : Faithful needle) {text before after : List Char}
    (found : needle <+: u.lowerBetween before text after) : needle <+: text.map Char.toLower := by
  induction needle generalizing text before with
  | nil => exact List.nil_prefix
  | cons x needle ih =>
    cases text with
    | nil => exact absurd (List.prefix_nil.mp found) (by simp)
    | cons c text =>
      have own := faithful x (List.mem_cons_self ..)
      rw [Unicode.lowerBetween] at found
      have some_ : u.lowered before c (text ++ after) ≠ [] := by
        rw [← List.length_pos_iff, u.length]
        split <;> decide
      obtain ⟨y, rest, lowered⟩ := List.exists_cons_of_ne_nil some_
      rw [lowered, List.cons_append, List.cons_prefix_cons] at found
      obtain ⟨rfl, found⟩ := found
      have small := ascii_of_lowered own lowered
      rw [u.ascii _ _ _ small] at lowered
      obtain ⟨rfl, rfl⟩ := List.cons.inj lowered
      rw [List.map_cons, List.cons_prefix_cons]
      exact ⟨rfl, ih (fun d member => faithful d (List.mem_cons_of_mem _ member)) found⟩

/-- What is found in lower case is there in some letter case. -/
theorem infix_of_lowerBetween (faithful : Faithful needle) (some_ : needle ≠ [])
    {text before after : List Char} (found : needle <:+: u.lowerBetween before text after) :
    needle <:+: text.map Char.toLower := by
  induction text generalizing before with
  | nil => exact absurd (List.infix_nil.mp found) some_
  | cons c text ih =>
    by_cases begins : needle <+: u.lowerBetween before (c :: text) after
    · exact (prefix_of_lowerBetween faithful begins).isInfix
    · -- a needle that begins inside the lowered character would begin with no faithful one
      have later : needle <:+: u.lowerBetween (before ++ [c]) text after := by
        rw [Unicode.lowerBetween] at found begins
        by_cases small : c.toNat < 128
        · rw [u.ascii _ _ _ small, List.singleton_append] at found begins
          exact (List.infix_cons_iff.mp found).resolve_left begins
        · have apart : ∀ part : List Char, (∀ y ∈ part, y ∈ u.lowered before c (text ++ after)) →
              needle <:+: part ++ u.lowerBetween (before ++ [c]) text after →
              needle <:+: u.lowerBetween (before ++ [c]) text after := by
            intro part
            induction part with
            | nil => exact fun _ inside => inside
            | cons y part next =>
              intro members inside
              rcases List.infix_cons_iff.mp inside with here | behind
              · obtain ⟨x, others, rfl⟩ := List.exists_cons_of_ne_nil some_
                obtain ⟨rfl, -⟩ := List.cons_prefix_cons.mp here
                have own := faithful x (List.mem_cons_self ..)
                rcases u.beyond _ _ _ (by omega) x (members x (List.mem_cons_self ..)) own.1 with
                  same | same
                · exact absurd same own.2.1
                · exact absurd same own.2.2
              · exact next (fun z member => members z (List.mem_cons_of_mem _ member)) behind
          exact apart _ (fun y member => member) found
      exact List.infix_cons_iff.mpr (.inr (ih later))

end

/-! ### Searching from the end -/

/-- `text.rfind(needle)`, for a needle that is not empty. -/
def rfind (needle : List Char) : List Char → Option Nat
  | [] => none
  | c :: text =>
    match rfind needle text with
    | some i => some (i + 1)
    | none => if needle.isPrefixOf (c :: text) then some 0 else none

theorem rfind_eq_none {needle text : List Char} (absent : ¬needle <:+: text) :
    rfind needle text = none := by
  induction text with
  | nil => rfl
  | cons c text ih =>
    rw [List.infix_cons_iff, not_or] at absent
    rw [rfind, ih absent.2]
    exact if_neg (by rw [List.isPrefixOf_iff_prefix]; exact absent.1)

/-- The last place of a needle that does not begin again behind its beginning. -/
theorem rfind_append {needle : List Char} {c : Char} {rest : List Char}
    (last : ¬needle <:+: rest) (here : needle <+: c :: rest) (front : List Char) :
    rfind needle (front ++ c :: rest) = some front.length := by
  induction front with
  | nil =>
    rw [List.nil_append, rfind, rfind_eq_none last]
    exact if_pos (List.isPrefixOf_iff_prefix.mpr here)
  | cons d front ih => rw [List.cons_append, rfind, ih, List.length_cons]

end MegooPM.Lib
