import MegooPM.Lib.Text
import Mathlib

/-!
# Trimming

A text without the characters of one class at its ends. Python's `strip` and ECMAScript's
`trim` are two of these; their classes differ by the byte order mark on one side and by a few
control characters on the other.
-/
namespace MegooPM.Lib

/-- The text without what is in the class at its ends. -/
def trimBy (space : Char → Bool) (text : List Char) : List Char :=
  (text.dropWhile space).rdropWhile space

/-- White space and line terminators, as ECMAScript has them. -/
def isJsSpace (c : Char) : Bool :=
  [(0x9, 0xd), (0x20, 0x20), (0xa0, 0xa0), (0x1680, 0x1680), (0x2000, 0x200a), (0x2028, 0x2029),
    (0x202f, 0x202f), (0x205f, 0x205f), (0x3000, 0x3000), (0xfeff, 0xfeff)].any
    fun (first, last) => first ≤ c.toNat ∧ c.toNat ≤ last

/-- `String.prototype.trim` -/
def trim (text : String) : String :=
  String.ofList (trimBy isJsSpace text.toList)

theorem strip_eq_trimBy (text : List Char) : strip text = trimBy isSpace text :=
  rfl

section

variable {space : Char → Bool} {text : List Char}

/-- What is left, between what was dropped at either end. -/
theorem trimBy_between (space : Char → Bool) (text : List Char) :
    ∃ front back, text = front ++ trimBy space text ++ back ∧
      (∀ c ∈ front, space c = true) ∧ ∀ c ∈ back, space c = true := by
  refine ⟨text.takeWhile space, (text.dropWhile space).rtakeWhile space, ?_,
    fun c member => List.mem_takeWhile_imp member, fun c member => List.mem_rtakeWhile_imp member⟩
  rw [trimBy, List.append_assoc, List.rdropWhile_append_rtakeWhile, List.takeWhile_append_dropWhile]

theorem length_trimBy_le (space : Char → Bool) (text : List Char) :
    (trimBy space text).length ≤ text.length := by
  obtain ⟨front, back, whole, _⟩ := trimBy_between space text
  have size := congrArg List.length whole
  simp only [List.length_append] at size
  omega

/-- A text that loses nothing is what it was. -/
theorem eq_of_length_trimBy (same : (trimBy space text).length = text.length) :
    trimBy space text = text := by
  obtain ⟨front, back, whole, _⟩ := trimBy_between space text
  have size := congrArg List.length whole
  simp only [List.length_append] at size
  have none_ : front = [] := List.length_eq_zero_iff.mp (by omega)
  have none_' : back = [] := List.length_eq_zero_iff.mp (by omega)
  rw [none_, none_', List.nil_append, List.append_nil] at whole
  exact whole.symm

theorem trimBy_subset (space : Char → Bool) (text : List Char) : trimBy space text ⊆ text := by
  obtain ⟨front, back, whole, _⟩ := trimBy_between space text
  intro c member
  rw [whole]
  exact List.mem_append_left _ (List.mem_append_right _ member)

private theorem dropWhile_of_head (first : ∀ c, text.head? = some c → space c = false) :
    text.dropWhile space = text := by
  cases text with
  | nil => rfl
  | cons c rest => exact List.dropWhile_cons_of_neg (by rw [first c rfl]; decide)

/-- Only a text that begins or ends with such a character is changed. -/
theorem trimBy_eq_self (first : ∀ c, text.head? = some c → space c = false)
    (last : ∀ c, text.getLast? = some c → space c = false) : trimBy space text = text := by
  rw [trimBy, dropWhile_of_head first, List.rdropWhile_eq_self_iff]
  intro some_
  rw [last _ (List.getLast?_eq_getLast_of_ne_nil some_)]
  decide

/-- Where such a character does not begin the text, only its end is cut. -/
theorem trimBy_of_head (first : ∀ c, text.head? = some c → space c = false) :
    ∃ back, text = trimBy space text ++ back ∧ ∀ c ∈ back, space c = true := by
  refine ⟨text.rtakeWhile space, ?_, fun c member => List.mem_rtakeWhile_imp member⟩
  rw [trimBy, dropWhile_of_head first, List.rdropWhile_append_rtakeWhile]

/-- What is trimmed off is white space around the rest. -/
theorem trimBy_around {before after : List Char} (front : ∀ c ∈ before, space c = true)
    (back : ∀ c ∈ after, space c = true) (some_ : text ≠ [])
    (first : ∀ c, text.head? = some c → space c = false)
    (last : ∀ c, text.getLast? = some c → space c = false) :
    trimBy space (before ++ text ++ after) = text := by
  have begin_ : (before ++ text ++ after).dropWhile space = text ++ after := by
    rw [List.append_assoc, List.dropWhile_append_of_pos front]
    refine dropWhile_of_head fun c head => first c ?_
    rwa [List.head?_append_of_ne_nil _ some_] at head
  have reversed : ∀ c ∈ after.reverse, space c = true :=
    fun c member => back c (List.mem_reverse.mp member)
  rw [trimBy, begin_, List.rdropWhile, List.reverse_append, List.dropWhile_append_of_pos reversed,
    dropWhile_of_head (by rwa [List.head?_reverse]), List.reverse_reverse]

theorem trimBy_head {c : Char} (head : (trimBy space text).head? = some c) : space c = false := by
  obtain ⟨rest, whole⟩ : trimBy space text <+: text.dropWhile space := List.rdropWhile_prefix ..
  have front : (text.dropWhile space).head? = some c := by
    rw [← whole, List.head?_append, head]
    rfl
  have stopped := List.head?_dropWhile_not space text
  rw [front] at stopped
  exact stopped

theorem trimBy_last {c : Char} (last : (trimBy space text).getLast? = some c) :
    space c = false := by
  have some_ : trimBy space text ≠ [] := by
    intro none_
    rw [none_] at last
    cases last
  have stopped := List.rdropWhile_last_not space (text.dropWhile space) some_
  rw [List.getLast?_eq_getLast_of_ne_nil some_] at last
  cases last
  exact Bool.eq_false_iff.mpr stopped

theorem trimBy_trimBy (space : Char → Bool) (text : List Char) :
    trimBy space (trimBy space text) = trimBy space text :=
  trimBy_eq_self (fun _ => trimBy_head) fun _ => trimBy_last

end

end MegooPM.Lib
