import MegooPM.Lib.IpAddress

/-!
# The grammar of addresses

An IPv4 literal is four octets. An IPv6 literal is eight groups of up to four hexadecimal
digits, of which the last two may be written as an IPv4 literal, and `::` may once stand for
some of them. A range adds the length of its prefix. What `ipaddress` reads is such a
literal, with a scope id or a mask behind it, and what it prints is one too.
-/
namespace MegooPM.Lib.Ip

/-! ### Literals and ranges -/

inductive Family where
  | v4 | v6
  deriving DecidableEq, Repr

def Family.width : Family → Nat
  | .v4 => 32
  | .v6 => 128

structure IsOctet (group : Text) : Prop where
  decimal : isDecimal group = true
  short : group.length ≤ 3
  bounded : Nat.ofDigitChars 10 group 0 ≤ 255

structure IsHextet (group : Text) : Prop where
  some : group ≠ []
  short : group.length ≤ 4
  digits : ∀ c ∈ group, V6.isHexDigit c = true

def IsV4 (text : Text) : Prop :=
  ∃ a b c d, (∀ group ∈ [a, b, c, d], IsOctet group) ∧ text = join '.' [a, b, c, d]

/-- Groups that stand for so many hextets. -/
inductive Groups : List Text → Nat → Prop where
  | nil : Groups [] 0
  | hextet {group : Text} {rest : List Text} {n : Nat} (first : IsHextet group)
      (others : Groups rest n) : Groups (group :: rest) (n + 1)
  | dotted {text : Text} (v4 : IsV4 text) : Groups [text] 2

def IsV6 (text : Text) : Prop :=
  (∃ groups, Groups groups 8 ∧ text = join ':' groups) ∨
  ∃ above below n, (∀ group ∈ above, IsHextet group) ∧ Groups below n ∧ above.length + n ≤ 7 ∧
    text = join ':' above ++ [':', ':'] ++ join ':' below

def IsLiteral : Family → Text → Prop
  | .v4 => IsV4
  | .v6 => IsV6

/-- A decimal length within the width of the family. -/
structure IsLength (family : Family) (text : Text) : Prop where
  decimal : isDecimal text = true
  within : Nat.ofDigitChars 10 text 0 ≤ family.width

/-- A literal, or one with the length of a prefix behind it. -/
def IsRange (text : Text) : Prop :=
  ∃ family literal, IsLiteral family literal ∧
    (text = literal ∨ ∃ length, IsLength family length ∧ text = literal ++ '/' :: length)

/-! ### Joining -/

theorem join_cons (sep : Char) (first : Text) {rest : List Text} (some_ : rest ≠ []) :
    join sep (first :: rest) = first ++ sep :: join sep rest := by
  obtain ⟨second, others, rfl⟩ := List.exists_cons_of_ne_nil some_
  rw [join, List.intercalate_cons_cons, join]
  simp

theorem join_append (sep : Char) {left right : List Text} (first : left ≠ [])
    (second : right ≠ []) :
    join sep (left ++ right) = join sep left ++ sep :: join sep right := by
  induction left with
  | nil => exact absurd rfl first
  | cons group rest ih =>
    by_cases last : rest = []
    · rw [last, List.singleton_append, join_cons sep group second]
      simp [join]
    · rw [List.cons_append, join_cons sep group (List.append_ne_nil_of_left_ne_nil last _), ih last,
        join_cons sep group last]
      simp

/-- Nothing between two separators. -/
theorem join_skipped {high low : List Text} (above : high ≠ []) (below : low ≠ []) :
    join ':' (high ++ [] :: low) = join ':' high ++ [':', ':'] ++ join ':' low := by
  rw [join_append ':' above (List.cons_ne_nil _ _), join_cons ':' [] below]
  simp

theorem mem_join {sep c : Char} {parts : List Text} (member : c ∈ join sep parts) :
    c = sep ∨ ∃ part ∈ parts, c ∈ part := by
  induction parts with
  | nil => cases member
  | cons first rest ih =>
    by_cases last : rest = []
    · rw [last] at member ⊢
      exact Or.inr ⟨first, List.mem_singleton_self _, by simpa [join] using member⟩
    · rw [join_cons sep first last, List.mem_append, List.mem_cons] at member
      rcases member with inside | between | later
      · exact Or.inr ⟨first, List.mem_cons_self .., inside⟩
      · exact Or.inl between
      · rcases ih later with between | ⟨part, listed, inside⟩
        · exact Or.inl between
        · exact Or.inr ⟨part, List.mem_cons_of_mem _ listed, inside⟩

theorem join_splitOn (sep : Char) (text : Text) : join sep (text.splitOn sep) = text :=
  List.intercalate_splitOn sep

/-! ### Characters -/

/-- What a literal is spelled with. -/
def literalChar (c : Char) : Bool :=
  V6.isHexDigit c || c = ':' || c = '.'

theorem IsOctet.chars {group : Text} (octet : IsOctet group) :
    ∀ c ∈ group, literalChar c = true := by
  intro c member
  have decimal := octet.decimal
  simp only [isDecimal, Bool.and_eq_true, List.all_eq_true] at decimal
  simp [literalChar, V6.isHexDigit, decimal.2 c member]

theorem IsHextet.chars {group : Text} (hextet : IsHextet group) :
    ∀ c ∈ group, literalChar c = true := by
  intro c member
  simp [literalChar, hextet.digits c member]

theorem IsV4.chars {text : Text} (v4 : IsV4 text) : ∀ c ∈ text, literalChar c = true := by
  obtain ⟨a, b, c, d, octets, rfl⟩ := v4
  intro e member
  rcases mem_join member with rfl | ⟨part, listed, inside⟩
  · rfl
  · exact (octets part listed).chars e inside

theorem Groups.chars {groups : List Text} {n : Nat} (spelled : Groups groups n) :
    ∀ group ∈ groups, ∀ c ∈ group, literalChar c = true := by
  induction spelled with
  | nil => exact fun _ member => by cases member
  | hextet first _ ih =>
    intro group member
    rcases List.mem_cons.mp member with rfl | later
    · exact first.chars
    · exact ih group later
  | dotted v4 =>
    intro group member
    rw [List.mem_singleton.mp member]
    exact v4.chars

theorem IsV6.chars {text : Text} (v6 : IsV6 text) : ∀ c ∈ text, literalChar c = true := by
  have joined : ∀ groups : List Text, (∀ group ∈ groups, ∀ c ∈ group, literalChar c = true) →
      ∀ c ∈ join ':' groups, literalChar c = true := by
    intro groups spelled c member
    rcases mem_join member with rfl | ⟨part, listed, inside⟩
    · rfl
    · exact spelled part listed c inside
  rcases v6 with ⟨groups, spelled, rfl⟩ | ⟨above, below, n, high, low, _, rfl⟩
  · exact joined groups spelled.chars
  · intro c member
    simp only [List.mem_append, List.mem_cons, List.not_mem_nil, or_false] at member
    rcases member with (inside | rfl | rfl) | inside
    · exact joined above (fun group listed => (high group listed).chars) c inside
    · rfl
    · rfl
    · exact joined below low.chars c inside

theorem IsLiteral.chars {family : Family} {text : Text} (literal : IsLiteral family text) :
    ∀ c ∈ text, literalChar c = true := by
  cases family with
  | v4 => exact IsV4.chars literal
  | v6 => exact IsV6.chars literal

/-! ### What is read -/

theorem octet_of_parsed {text : Text} {n : Nat} (parsed : V4.parseOctet text = some n) :
    IsOctet text := by
  simp only [V4.parseOctet] at parsed
  split at parsed
  · cases parsed
  next decimal =>
    split at parsed
    · cases parsed
    next short =>
      split at parsed
      · cases parsed
      · split at parsed
        · cases parsed
        next bounded =>
          exact ⟨by simpa using decimal, by omega, by omega⟩

/-- What is read as an IPv4 address is an IPv4 literal. -/
theorem v4_of_parsed {text : Text} {n : Nat} (parsed : V4.ipIntFromString text = some n) :
    IsV4 text := by
  simp only [V4.ipIntFromString] at parsed
  split at parsed
  next a b c d split =>
    simp only [Option.bind_eq_bind, Option.bind_eq_some_iff] at parsed
    obtain ⟨_, first, _, second, _, third, _, fourth, _⟩ := parsed
    refine ⟨a, b, c, d, ?_, by rw [← split, join_splitOn]⟩
    intro group member
    simp only [List.mem_cons, List.not_mem_nil, or_false] at member
    rcases member with rfl | rfl | rfl | rfl
    · exact octet_of_parsed first
    · exact octet_of_parsed second
    · exact octet_of_parsed third
    · exact octet_of_parsed fourth
  · cases parsed

theorem hextet_of_parsed {text : Text} {n : Nat} (parsed : V6.parseHextet text = some n) :
    IsHextet text := by
  simp only [V6.parseHextet] at parsed
  split at parsed
  · cases parsed
  next digits =>
    split at parsed
    · cases parsed
    next short =>
      split at parsed
      · cases parsed
      next some_ =>
        refine ⟨by simpa using some_, by omega, ?_⟩
        simpa using digits

theorem hextets_of_parsed {parts : List Text} {ns : List Nat}
    (parsed : V6.parseHextets parts = some ns) : ∀ part ∈ parts, IsHextet part := by
  induction parts generalizing ns with
  | nil => exact fun _ member => by cases member
  | cons first rest ih =>
    simp only [V6.parseHextets, Option.bind_eq_bind, Option.bind_eq_some_iff] at parsed
    obtain ⟨_, head, _, tail, _⟩ := parsed
    intro part member
    rcases List.mem_cons.mp member with rfl | later
    · exact hextet_of_parsed head
    · exact ih tail part later

theorem groups_of_hextets {groups : List Text} (hextets : ∀ group ∈ groups, IsHextet group) :
    Groups groups groups.length := by
  induction groups with
  | nil => exact .nil
  | cons first rest ih =>
    exact .hextet (hextets first (List.mem_cons_self ..))
      (ih fun group later => hextets group (List.mem_cons_of_mem _ later))

theorem groups_nil {n : Nat} (none_ : Groups [] n) : n = 0 := by
  cases none_
  rfl

theorem groups_append {above below : List Text} {n : Nat}
    (hextets : ∀ group ∈ above, IsHextet group) (rest : Groups below n) :
    Groups (above ++ below) (above.length + n) := by
  induction above with
  | nil => simpa using rest
  | cons first others ih =>
    have tail := ih fun group later => hextets group (List.mem_cons_of_mem _ later)
    have whole := Groups.hextet (hextets first (List.mem_cons_self ..)) tail
    rwa [List.length_cons, Nat.add_right_comm]

/-- The parts a text is split into, and those whose hextets are read. -/
inductive Spells : List Text → List Text → Prop where
  | plain (parts : List Text) : Spells parts parts
  | dotted {text : Text} (before : List Text) {high low : Text} (v4 : IsV4 text)
      (first : high ≠ []) (second : low ≠ []) :
      Spells (before ++ [text]) (before ++ [high, low])

theorem spells_of_splitDotted {parts read : List Text}
    (split : V6.splitDotted parts = some read) : Spells parts read := by
  simp only [V6.splitDotted] at split
  split at split
  · cases split
  next last found =>
    obtain ⟨before, rfl⟩ := List.getLast?_eq_some_iff.mp found
    rw [List.dropLast_concat] at split
    by_cases dot : '.' ∈ last
    · rw [if_pos dot] at split
      obtain ⟨n, parsed, rfl⟩ := Option.map_eq_some_iff.mp split
      exact .dotted before (v4_of_parsed parsed) Nat.toDigits_ne_nil Nat.toDigits_ne_nil
    · rw [if_neg dot] at split
      cases split
      exact .plain _

/-- The hextets behind an empty part, and the groups they were written as. -/
theorem groups_of_spells {parts read : List Text} (spelled : Spells parts read)
    (high : List Text) {low : List Text} (whole : read = high ++ low)
    (hextets : ∀ group ∈ low, IsHextet group)
    (ended : ∀ last, high.getLast? = some last → last = []) :
    ∃ written, parts = high ++ written ∧ Groups written low.length := by
  cases spelled with
  | plain => exact ⟨low, whole, groups_of_hextets hextets⟩
  | dotted before v4 first second =>
    -- the dotted group is behind the empty part, because neither of its hextets is empty
    rcases List.append_eq_append_iff.mp whole with ⟨tail, rfl, pair⟩ | ⟨between, rfl, rfl⟩
    · cases tail with
      | nil =>
        refine ⟨[_], by rw [List.append_nil], ?_⟩
        rw [← show [_, _] = low from pair]
        exact .dotted v4
      | cons group more =>
        rw [List.cons_append, List.cons.injEq] at pair
        obtain ⟨rfl, pair⟩ := pair
        cases more with
        | nil => exact absurd (ended _ List.getLast?_concat) first
        | cons other rest =>
          rw [List.cons_append, List.cons.injEq] at pair
          obtain ⟨rfl, behind⟩ := pair
          obtain ⟨rfl, _⟩ := List.append_eq_nil_iff.mp behind.symm
          exact absurd (ended _ (by simp)) second
    · refine ⟨between ++ [_], by rw [List.append_assoc], ?_⟩
      rw [List.length_append]
      exact groups_append (fun group member => hextets group (List.mem_append_left _ member))
        (.dotted v4)

/-- A part at the end that is empty was written so. -/
theorem spells_of_last {parts read : List Text} (spelled : Spells parts read)
    (last : read.getLast? = some []) : parts = read := by
  cases spelled with
  | plain => rfl
  | dotted before v4 first second =>
    refine absurd ?_ second
    simpa using last

/-- The parts of a text without `::`. -/
private theorem v6_of_all {parts read : List Text} (spelled : Spells parts read) {n : Nat}
    (parsed : V6.allHextets read = some n) : IsV6 (join ':' parts) := by
  simp only [V6.allHextets] at parsed
  split at parsed
  · cases parsed
  next eight =>
    split at parsed
    · cases parsed
    · split at parsed
      · cases parsed
      · obtain ⟨_, hextets, _⟩ := Option.map_eq_some_iff.mp parsed
        obtain ⟨written, same, groups⟩ := groups_of_spells spelled [] (List.nil_append _).symm
          (hextets_of_parsed hextets) (fun _ none_ => by cases none_)
        rw [show read.length = V6.hextetCount by simpa using eight] at groups
        exact Or.inl ⟨written, groups, by rw [same, List.nil_append]⟩

/-- What stands on either side of the empty part at `skip`. -/
private theorem skipped_split {read : List Text} {skip : Nat} (inside : 0 < skip)
    (before : skip < read.length - 1) (empty : read[skip]? = some []) :
    read = read.take skip ++ [] :: read.drop (skip + 1) ∧ read.take skip ≠ [] ∧
      read.drop (skip + 1) ≠ [] ∧ (read.drop (skip + 1)).length = read.length - skip - 1 := by
  obtain ⟨bound, item⟩ := List.getElem?_eq_some_iff.mp empty
  refine ⟨?_, ?_, ?_, by rw [List.length_drop]; omega⟩
  · rw [← item, List.getElem_cons_drop, List.take_append_drop]
  · exact List.ne_nil_of_length_pos (by rw [List.length_take]; omega)
  · exact List.ne_nil_of_length_pos (by rw [List.length_drop]; omega)

/-- The parts of a text with one `::`. -/
private theorem v6_of_skipped {parts read : List Text} (spelled : Spells parts read) {skip n : Nat}
    (inside : 0 < skip) (before : skip < read.length - 1) (empty : read[skip]? = some [])
    (parsed : V6.skippedHextets read skip = some n) : IsV6 (join ':' parts) := by
  obtain ⟨whole, above, below, size⟩ := skipped_split inside before empty
  unfold V6.skippedHextets at parsed
  by_cases first : read.head? = some [] ∧ skip ≠ 1
  · rw [if_pos first] at parsed
    cases parsed
  by_cases last : read.getLast? = some [] ∧ read.length - skip - 1 ≠ 1
  · rw [if_neg first, if_pos last] at parsed
    cases parsed
  rw [if_neg first, if_neg last] at parsed
  dsimp only at parsed
  by_cases full : V6.hextetCount < (if read.head? = some [] then 0 else skip) +
      (if read.getLast? = some [] then 0 else read.length - skip - 1) + 1
  · rw [if_pos full] at parsed
    cases parsed
  rw [if_neg full] at parsed
  simp only [Option.bind_eq_bind, Option.bind_eq_some_iff] at parsed
  obtain ⟨_, highRead, _, lowRead, _⟩ := parsed
  -- above the gap: nothing, or hextets
  have high : ∃ groups, (∀ group ∈ groups, IsHextet group) ∧
      join ':' (read.take skip) = join ':' groups ∧
      groups.length = if read.head? = some [] then 0 else skip := by
    by_cases open_ : read.head? = some []
    · have one : skip = 1 := Decidable.of_not_not fun other => first ⟨open_, other⟩
      obtain ⟨rest, rfl⟩ := List.head?_eq_some_iff.mp open_
      refine ⟨[], fun _ member => (by cases member), ?_, (if_pos open_).symm⟩
      rw [one]
      rfl
    · rw [if_neg open_] at highRead ⊢
      refine ⟨read.take skip, hextets_of_parsed highRead, rfl, ?_⟩
      rw [List.length_take]
      omega
  -- below it: nothing, or groups
  have low : ∃ written groups k, parts = read.take skip ++ [] :: written ∧ written ≠ [] ∧
      join ':' written = join ':' groups ∧ Groups groups k ∧
      k = if read.getLast? = some [] then 0 else read.length - skip - 1 := by
    by_cases open_ : read.getLast? = some []
    · have one : read.length - skip - 1 = 1 :=
        Decidable.of_not_not fun other => last ⟨open_, other⟩
      rw [one] at size
      obtain ⟨only, single⟩ := List.length_eq_one_iff.mp size
      have ends : only = [] := by
        rw [whole, single, List.append_cons, List.getLast?_concat] at open_
        exact Option.some.inj open_
      refine ⟨[[]], [], 0, ?_, List.cons_ne_nil _ _, rfl, .nil, by rw [if_pos open_]⟩
      rw [spells_of_last spelled open_]
      rw [single, ends] at whole
      exact whole
    · rw [if_neg open_] at lowRead ⊢
      have tail : read.drop (read.length - (read.length - skip - 1)) = read.drop (skip + 1) := by
        congr 1
        omega
      rw [tail] at lowRead
      have split : read = (read.take skip ++ [[]]) ++ read.drop (skip + 1) := by
        rw [List.append_assoc]
        exact whole
      obtain ⟨written, same, groups⟩ := groups_of_spells spelled _ split
        (hextets_of_parsed lowRead) (by simp)
      rw [List.append_assoc] at same
      refine ⟨written, written, _, same, ?_, rfl, groups, size⟩
      rintro rfl
      exact below (List.length_eq_zero_iff.mp (groups_nil groups))
  obtain ⟨groups, hextets, same, count⟩ := high
  obtain ⟨written, others, k, rfl, some_, alike, spelt, size'⟩ := low
  refine Or.inr ⟨groups, others, k, hextets, spelt, ?_, ?_⟩
  · rw [count, size']
    simp only [V6.hextetCount] at full
    omega
  · rw [join_skipped above some_, same, alike]

/-- What is read as an IPv6 address, without its scope id, is an IPv6 literal. -/
theorem v6_of_parsed {text : Text} {n : Nat} (parsed : V6.ipIntFromString text = some n) :
    IsV6 text := by
  rw [← join_splitOn ':' text]
  simp only [V6.ipIntFromString] at parsed
  split at parsed
  · cases parsed
  · split at parsed
    · cases parsed
    next read split_ =>
      have spelled := spells_of_splitDotted split_
      split at parsed
      · cases parsed
      · split at parsed
        · exact v6_of_all spelled parsed
        next skip found =>
          have listed : skip ∈ V6.skipIndices read := by
            rw [found]
            exact List.mem_singleton_self _
          simp only [V6.skipIndices, List.mem_filter, List.mem_range, decide_eq_true_eq] at listed
          exact v6_of_skipped spelled listed.2.1 listed.1 listed.2.2 parsed
        · cases parsed

/-! ### What is printed -/

theorem octet_toDigits {n : Nat} (small : n < 256) : IsOctet (Nat.toDigits 10 n) where
  decimal := by
    simp only [isDecimal, Bool.and_eq_true, Bool.not_eq_true', List.isEmpty_eq_false_iff,
      List.all_eq_true]
    exact ⟨Nat.toDigits_ne_nil, fun c => Nat.isDigit_of_mem_toDigits (by decide) (by decide)⟩
  short := (Nat.length_toDigits_le_iff (by decide) (by decide)).mpr (by omega)
  bounded := by
    rw [Nat.ofDigitChars_ten_toDigits]
    omega

theorem v4_stringFromIpInt (n : Nat) : IsV4 (V4.stringFromIpInt n) := by
  refine ⟨_, _, _, _, ?_, rfl⟩
  intro group member
  simp only [List.mem_cons, List.not_mem_nil, or_false] at member
  rcases member with rfl | rfl | rfl | rfl
  all_goals exact octet_toDigits (Nat.mod_lt _ (by decide))

theorem isHexDigit_digitChar {n : Nat} (small : n < 16) :
    V6.isHexDigit (Nat.digitChar n) = true := by
  have all : ∀ k < 16, V6.isHexDigit (Nat.digitChar k) = true := by decide
  exact all n small

private theorem hexDigits_toDigits (n : Nat) :
    ∀ c ∈ Nat.toDigits 16 n, V6.isHexDigit c = true := by
  induction n using Nat.strongRecOn with
  | ind n ih =>
    rw [Nat.toDigits_eq_if (by decide)]
    by_cases small : n < 16
    · rw [if_pos small]
      intro c member
      rw [List.mem_singleton.mp member]
      exact isHexDigit_digitChar small
    · rw [if_neg small]
      intro c member
      rcases List.mem_append.mp member with front | last
      · exact ih (n / 16) (by omega) c front
      · rw [List.mem_singleton.mp last]
        exact isHexDigit_digitChar (Nat.mod_lt _ (by decide))

theorem hextet_toDigits {n : Nat} (small : n < 65536) : IsHextet (Nat.toDigits 16 n) where
  some := Nat.toDigits_ne_nil
  short := (Nat.length_toDigits_le_iff (by decide) (by decide)).mpr small
  digits := hexDigits_toDigits n

/-- The run that is found ends within the hextets. -/
theorem bestRun_within {hextets : List Text} {index : Nat} {best : Nat × Nat}
    {start : Option Nat} {length : Nat} (found : best.1 + best.2 ≤ index)
    (running : start.getD index + length = index) :
    (V6.bestRun index best start length hextets).1 +
      (V6.bestRun index best start length hextets).2 ≤ index + hextets.length := by
  induction hextets generalizing index best start length with
  | nil => simpa [V6.bestRun] using found
  | cons hextet rest ih =>
    rw [V6.bestRun]
    by_cases zero : hextet = ['0']
    · rw [if_pos zero]
      dsimp only
      have longer : (if best.2 < length + 1 then (start.getD index, length + 1) else best).1 +
          (if best.2 < length + 1 then (start.getD index, length + 1) else best).2 ≤ index + 1 := by
        split
        · show start.getD index + (length + 1) ≤ index + 1
          omega
        · omega
      have next := @ih (index + 1) _ (some (start.getD index)) (length + 1) longer
        (by rw [Option.getD_some]; omega)
      rw [List.length_cons]
      omega
    · rw [if_neg zero]
      have next := @ih (index + 1) best none 0 (by omega) (Nat.add_zero _)
      rw [List.length_cons]
      omega

/-- Hextets whose longest run of zeros is left out are an IPv6 literal. -/
theorem v6_compressHextets {hextets : List Text} (eight : hextets.length = 8)
    (groups : ∀ group ∈ hextets, IsHextet group) :
    IsV6 (join ':' (V6.compressHextets hextets)) := by
  have within := @bestRun_within hextets 0 (0, 0) none 0 (Nat.le_refl _) rfl
  simp only [V6.compressHextets]
  split
  next long =>
    generalize V6.bestRun 0 (0, 0) none 0 hextets = best at within long ⊢
    obtain ⟨start, length⟩ := best
    dsimp only at within long ⊢
    -- an empty part at either end belongs to the gap
    have high : (if start = 0 then [[]] else []) ++ hextets.take start ≠ [] ∧
        join ':' ((if start = 0 then [[]] else []) ++ hextets.take start) =
          join ':' (hextets.take start) := by
      by_cases first : start = 0
      · rw [if_pos first, first, List.take_zero]
        exact ⟨List.cons_ne_nil _ _, rfl⟩
      · rw [if_neg first, List.nil_append]
        exact ⟨List.ne_nil_of_length_pos (by rw [List.length_take]; omega), rfl⟩
    have low : hextets.drop (start + length) ++
          (if start + length = hextets.length then [[]] else []) ≠ [] ∧
        join ':' (hextets.drop (start + length) ++
          (if start + length = hextets.length then [[]] else [])) =
          join ':' (hextets.drop (start + length)) := by
      by_cases last : start + length = hextets.length
      · rw [if_pos last, List.drop_eq_nil_of_le (Nat.le_of_eq last.symm), List.nil_append]
        exact ⟨List.cons_ne_nil _ _, rfl⟩
      · rw [if_neg last, List.append_nil]
        exact ⟨List.ne_nil_of_length_pos (by rw [List.length_drop]; omega), rfl⟩
    refine Or.inr ⟨hextets.take start, hextets.drop (start + length), _, ?_,
      groups_of_hextets ?_, ?_, ?_⟩
    · exact fun group member => groups group (List.mem_of_mem_take member)
    · exact fun group member => groups group (List.mem_of_mem_drop member)
    · rw [List.length_take, List.length_drop]
      omega
    · rw [List.append_assoc, List.append_assoc, List.singleton_append,
        join_skipped high.1 low.1, high.2, low.2]
  next =>
    refine Or.inl ⟨hextets, ?_, rfl⟩
    have whole := groups_of_hextets groups
    rwa [eight] at whole

theorem v6_stringFromIpInt (n : Nat) : IsV6 (V6.stringFromIpInt n) := by
  refine v6_compressHextets (by rw [List.length_map, List.length_range]; rfl) ?_
  intro group member
  obtain ⟨i, _, rfl⟩ := List.mem_map.mp member
  exact hextet_toDigits (Nat.mod_lt _ (by decide))

/-! ### Texts with a mask -/

/-- What stands behind the slash is a number. -/
def PlainMask (text : Text) : Prop :=
  ∀ bare mask, splitOptionalNetmask text = some (bare, some mask) → isDecimal mask = true

theorem split_of_text {text bare : Text} {mask : Option Text}
    (split : splitOptionalNetmask text = some (bare, mask)) :
    match mask with
    | none => text = bare
    | some mask => text = bare ++ '/' :: mask := by
  have joined := join_splitOn '/' text
  simp only [splitOptionalNetmask] at split
  split at split
  next whole =>
    cases split
    rw [whole] at joined
    simpa [join] using joined.symm
  next whole =>
    cases split
    rw [whole, join_cons '/' _ (List.cons_ne_nil _ _)] at joined
    simpa [join] using joined.symm
  · cases split

theorem splitOptionalNetmask_literal {text : Text} (none_ : '/' ∉ text) :
    splitOptionalNetmask text = some (text, none) := by
  rw [splitOptionalNetmask, List.splitOn_eq_singleton none_]

theorem splitOptionalNetmask_masked {bare mask : Text} (first : '/' ∉ bare) (second : '/' ∉ mask) :
    splitOptionalNetmask (bare ++ '/' :: mask) = some (bare, some mask) := by
  rw [splitOptionalNetmask, List.splitOn_append_cons_self_of_not_mem first,
    List.splitOn_eq_singleton second]

/-- No literal has this character. -/
theorem IsLiteral.not_mem {family : Family} {text : Text} (literal : IsLiteral family text)
    {c : Char} (other : literalChar c = false) : c ∉ text := by
  intro member
  rw [literal.chars c member] at other
  cases other

theorem isDecimal_not_mem {text : Text} (decimal : isDecimal text = true) {c : Char}
    (other : c.isDigit = false) : c ∉ text := by
  intro member
  simp only [isDecimal, Bool.and_eq_true, List.all_eq_true] at decimal
  rw [decimal.2 c member] at other
  cases other

/-- Neither a scope id nor a mask of another kind stands in a range. -/
theorem IsRange.plain {text : Text} (range : IsRange text) : '%' ∉ text ∧ PlainMask text := by
  obtain ⟨family, literal, spelled, rfl | ⟨length, known, rfl⟩⟩ := range
  · refine ⟨spelled.not_mem rfl, fun bare mask split => ?_⟩
    rw [splitOptionalNetmask_literal (spelled.not_mem rfl)] at split
    cases split
  · constructor
    · simp only [List.mem_append, List.mem_cons, not_or]
      exact ⟨spelled.not_mem rfl, by decide, isDecimal_not_mem known.decimal rfl⟩
    · intro bare mask split
      rw [splitOptionalNetmask_masked (spelled.not_mem rfl)
        (isDecimal_not_mem known.decimal rfl)] at split
      cases split
      exact known.decimal

theorem length_of_parsed {family : Family} {text : Text} {n : Nat}
    (parsed : prefixFromPrefixString family.width text = some n) : IsLength family text := by
  simp only [prefixFromPrefixString] at parsed
  split at parsed
  · cases parsed
  next decimal =>
    split at parsed
    · cases parsed
    next within =>
      simp only [Bool.or_eq_true, Bool.not_eq_true', decide_eq_true_eq, not_or,
        Bool.not_eq_false] at decimal
      exact ⟨decimal.1, by omega⟩

theorem length_toDigits {family : Family} {n : Nat} (within : n ≤ family.width) :
    IsLength family (Nat.toDigits 10 n) where
  decimal := by
    simp only [isDecimal, Bool.and_eq_true, Bool.not_eq_true', List.isEmpty_eq_false_iff,
      List.all_eq_true]
    exact ⟨Nat.toDigits_ne_nil, fun c => Nat.isDigit_of_mem_toDigits (by decide) (by decide)⟩
  within := by
    rw [Nat.ofDigitChars_ten_toDigits]
    exact within

theorem isRange_masked (family : Family) {literal : Text} (spelled : IsLiteral family literal)
    {length : Text} (known : IsLength family length) : IsRange (literal ++ '/' :: length) :=
  ⟨family, literal, spelled, Or.inr ⟨length, known, rfl⟩⟩

private theorem prefix_within {width ipInt n : Nat}
    (found : prefixFromIpInt width ipInt = some n) : n ≤ width := by
  simp only [prefixFromIpInt] at found
  split at found
  · cases found
  · cases found
    omega

private theorem prefixString_within {width n : Nat} {text : Text}
    (found : prefixFromPrefixString width text = some n) : n ≤ width := by
  simp only [prefixFromPrefixString] at found
  split at found
  · cases found
  · split at found
    · cases found
    · cases found
      omega

/-- A mask of an IPv4 network is a length, or spelled like an address. -/
theorem v4_makeNetmask {mask : Text} {n : Nat} (made : V4.makeNetmask (some mask) = some n) :
    n ≤ 32 ∧ (IsLength .v4 mask ∨ IsV4 mask) := by
  simp only [V4.makeNetmask] at made
  split at made
  next found =>
    cases made
    exact ⟨prefixString_within found, Or.inl (length_of_parsed found)⟩
  next =>
    simp only [V4.prefixFromIpString] at made
    split at made
    · cases made
    next ipInt parsed =>
      refine ⟨?_, Or.inr (v4_of_parsed parsed)⟩
      split at made
      next found =>
        cases made
        exact prefix_within found
      next => exact prefix_within made

/-- An IPv4 network: its form is a range, and so is its text if the mask is a number. -/
theorem v4_network {text form : Text} (read : V4.network text = some form) :
    '%' ∉ text ∧ IsRange form ∧ (PlainMask text → IsRange text) := by
  simp only [V4.network, Option.bind_eq_bind, Option.bind_eq_some_iff, Option.pure_def,
    Option.some.injEq] at read
  obtain ⟨⟨bare, mask⟩, split, packed, parsed, length, made, rfl⟩ := read
  have literal : IsLiteral .v4 bare := v4_of_parsed parsed
  have spelled := split_of_text split
  cases mask with
  | none =>
    cases made
    refine ⟨by rw [spelled]; exact literal.not_mem rfl, ?_, fun _ => ?_⟩
    · exact isRange_masked .v4 (v4_stringFromIpInt _) (length_toDigits (Nat.le_refl _))
    · exact ⟨.v4, bare, literal, Or.inl spelled⟩
  | some mask =>
    obtain ⟨within, kind⟩ := v4_makeNetmask made
    refine ⟨?_, isRange_masked .v4 (v4_stringFromIpInt _) (length_toDigits within),
      fun plain => ?_⟩
    · rw [spelled]
      simp only [List.mem_append, List.mem_cons, not_or]
      refine ⟨literal.not_mem rfl, by decide, ?_⟩
      rcases kind with number | dotted
      · exact isDecimal_not_mem number.decimal rfl
      · exact IsLiteral.not_mem (show IsLiteral .v4 mask from dotted) rfl
    · rw [spelled]
      rcases kind with number | ⟨a, b, c, d, _, rfl⟩
      · exact isRange_masked .v4 literal number
      · -- a dotted mask is no number
        have dot : '.' ∈ join '.' [a, b, c, d] := by simp [join_cons]
        exact absurd dot (isDecimal_not_mem (plain _ _ split) rfl)

/-! ### Scope ids -/

/-- A scope id is there when the sign is. -/
theorem splitScopeId_spec {text bare : Text} {scopeId : Option Text}
    (split : V6.splitScopeId text = some (bare, scopeId)) :
    ('%' ∈ text ↔ scopeId.isSome = true) ∧ (scopeId = none → bare = text) := by
  simp only [V6.splitScopeId] at split
  split at split
  next sign =>
    split at split
    · cases split
    · cases split
      exact ⟨iff_of_true sign rfl, fun none_ => by cases none_⟩
  next plain =>
    cases split
    exact ⟨iff_of_false plain Bool.false_ne_true, fun _ => rfl⟩

theorem v6_address {text : Text} {found : V6.Address} (read : V6.address text = some found) :
    ('%' ∈ text ↔ found.scopeId.isSome = true) ∧ (found.scopeId = none → IsV6 text) := by
  simp only [V6.address] at read
  split at read
  · cases read
  · simp only [Option.bind_eq_bind, Option.bind_eq_some_iff, Option.pure_def,
      Option.some.injEq] at read
    obtain ⟨⟨bare, scopeId⟩, split_, ip, parsed, rfl⟩ := read
    obtain ⟨sign, same⟩ := splitScopeId_spec split_
    refine ⟨sign, fun none_ => ?_⟩
    rw [← same none_]
    exact v6_of_parsed parsed

/-- The printed address is a literal exactly when no scope id is left. -/
theorem v6_text (a : V6.Address) :
    ('%' ∈ a.text ↔ a.scopeId.isSome = true) ∧ (a.scopeId = none → IsLiteral .v6 a.text) := by
  have literal : IsLiteral .v6 (V6.stringFromIpInt a.ip) := v6_stringFromIpInt a.ip
  cases kept : a.scopeId with
  | none =>
    simp only [V6.Address.text, kept]
    exact ⟨iff_of_false (literal.not_mem rfl) Bool.false_ne_true, fun _ => literal⟩
  | some scopeId =>
    simp only [V6.Address.text, kept]
    exact ⟨iff_of_true (by simp) rfl, fun none_ => by cases none_⟩

/-- The length of the prefix clears a bit of the IPv6 address. -/
def clearsBits (text : Text) : Bool :=
  match splitOptionalNetmask text with
  | none => false
  | some (bare, mask) =>
    match V6.address bare, V6.makeNetmask mask with
    | some found, some length => found.hasHostBits length
    | _, _ => false

/-- A printed range is one exactly when the address has no scope id. -/
theorem isRange_printed {found : V6.Address} {length : Nat} (within : length ≤ 128) :
    IsRange (found.text ++ '/' :: Nat.toDigits 10 length) ↔ found.scopeId = none := by
  obtain ⟨sign, literal⟩ := v6_text found
  constructor
  · intro range
    have plain : '%' ∉ found.text := fun member => range.plain.1 (List.mem_append_left _ member)
    rw [sign] at plain
    simpa using plain
  · exact fun none_ => isRange_masked .v6 (literal none_) (length_toDigits within)

/-- The sign of a scope id stands in the address, not in the mask. -/
private theorem sign_of_split {text bare : Text} {mask : Option Text} {length : Nat}
    (split : splitOptionalNetmask text = some (bare, mask))
    (made : V6.makeNetmask mask = some length) :
    length ≤ 128 ∧ ('%' ∈ text ↔ '%' ∈ bare) ∧ (IsLiteral .v6 bare → IsRange text) := by
  have spelled := split_of_text split
  cases mask with
  | none =>
    cases made
    exact ⟨Nat.le_refl _, by rw [show text = bare from spelled],
      fun literal => ⟨.v6, bare, literal, Or.inl spelled⟩⟩
  | some mask =>
    have number : IsLength .v6 mask := length_of_parsed made
    refine ⟨prefixString_within made, ?_, fun literal => ?_⟩
    · rw [show text = bare ++ '/' :: mask from spelled]
      have absent := isDecimal_not_mem number.decimal (show '%'.isDigit = false from rfl)
      simp [absent]
    · rw [show text = bare ++ '/' :: mask from spelled]
      exact isRange_masked .v6 literal number

/-- An IPv6 network: what becomes of a scope id in its text and in its form. -/
theorem v6_network {text : Text} {found : V6.Address} {length : Nat}
    (read : V6.network text = some (found, length)) :
    length ≤ 128 ∧ (IsRange text ↔ '%' ∉ text) ∧
      (IsRange (found.text ++ '/' :: Nat.toDigits 10 length) ↔
        ('%' ∈ text → clearsBits text = true)) := by
  simp only [V6.network, Option.bind_eq_bind, Option.bind_eq_some_iff, Option.pure_def,
    Option.some.injEq, Prod.mk.injEq] at read
  obtain ⟨⟨bare, mask⟩, split_, address, read, length', made, masked, rfl⟩ := read
  obtain ⟨within, sign, range⟩ := sign_of_split split_ made
  obtain ⟨zone, literal⟩ := v6_address read
  refine ⟨within, ⟨fun spelled => spelled.plain.1, fun absent => ?_⟩, ?_⟩
  · rw [sign, zone] at absent
    exact range (literal (by simpa using absent))
  · rw [isRange_printed within, sign, zone, ← masked]
    have cleared : clearsBits text = address.hasHostBits length' := by
      simp only [clearsBits, split_, read, made]
    rw [cleared]
    by_cases behind : address.hasHostBits length' = true
    · rw [if_pos behind]
      exact iff_of_true rfl fun _ => behind
    · rw [if_neg behind]
      simp [behind]

/-! ### Accepted texts -/

/-- A text that is read as a network is a range unless it has a scope id or a mask that is no
number. -/
theorem isRange_iff_of_network {text form : Text} (read : ipNetwork text = some form) :
    IsRange text ↔ '%' ∉ text ∧ PlainMask text := by
  refine ⟨IsRange.plain, fun plain => ?_⟩
  simp only [ipNetwork] at read
  split at read
  next found => exact (v4_network found).2.2 plain.2
  next =>
    obtain ⟨⟨found, length⟩, network, _⟩ := Option.map_eq_some_iff.mp read
    exact (v6_network network).2.1.mpr plain.1

/-- The form of a network is a range unless it keeps a scope id. -/
theorem isRange_form_of_network {text form : Text} (read : ipNetwork text = some form) :
    IsRange form ↔ ('%' ∈ text → clearsBits text = true) := by
  simp only [ipNetwork] at read
  split at read
  next found =>
    cases read
    obtain ⟨absent, range, _⟩ := v4_network found
    exact iff_of_true range fun member => absurd member absent
  next =>
    obtain ⟨⟨found, length⟩, network, rfl⟩ := Option.map_eq_some_iff.mp read
    exact (v6_network network).2.2

/-- The form of an address is a literal unless it keeps a scope id. -/
theorem isRange_form_of_address {text form : Text} (read : ipAddress text = some form) :
    IsRange form ↔ '%' ∉ text := by
  simp only [ipAddress] at read
  split at read
  next found =>
    cases read
    simp only [V4.address] at found
    split at found
    · cases found
    · obtain ⟨n, parsed, rfl⟩ := Option.map_eq_some_iff.mp found
      have literal : IsLiteral .v4 text := v4_of_parsed parsed
      exact iff_of_true ⟨.v4, _, v4_stringFromIpInt n, Or.inl rfl⟩ (literal.not_mem rfl)
  next =>
    obtain ⟨found, parsed, rfl⟩ := Option.map_eq_some_iff.mp read
    obtain ⟨sign, literal⟩ := v6_text found
    rw [(v6_address parsed).1, ← sign]
    constructor
    · exact fun range => range.plain.1
    · intro absent
      rw [sign] at absent
      exact ⟨.v6, _, literal (by simpa using absent), Or.inl rfl⟩

/-- What is printed is a range unless it shows a scope id. -/
theorem isRange_of_printed {text form : Text}
    (read : ipNetwork text = some form ∨ ipAddress text = some form) (absent : '%' ∉ form) :
    IsRange form := by
  rcases read with network | address
  · simp only [ipNetwork] at network
    split at network
    next found =>
      cases network
      exact (v4_network found).2.1
    next =>
      obtain ⟨⟨found, length⟩, read, rfl⟩ := Option.map_eq_some_iff.mp network
      obtain ⟨sign, _⟩ := v6_text found
      have none_ : found.scopeId = none := by
        have plain : '%' ∉ found.text := fun member => absent (List.mem_append_left _ member)
        rw [sign] at plain
        simpa using plain
      exact (isRange_printed (v6_network read).1).mpr none_
  · refine (isRange_form_of_address address).mpr fun member => ?_
    simp only [ipAddress] at address
    split at address
    next found =>
      cases address
      simp only [V4.address] at found
      split at found
      · cases found
      · obtain ⟨n, parsed, rfl⟩ := Option.map_eq_some_iff.mp found
        exact IsLiteral.not_mem (show IsLiteral .v4 text from v4_of_parsed parsed) rfl member
    next =>
      obtain ⟨found, parsed, rfl⟩ := Option.map_eq_some_iff.mp address
      rw [(v6_address parsed).1, ← (v6_text found).1] at member
      exact absent member

/-! ### Beginnings -/

/-- A text begins with a digit of an address, or with the colon of an IPv6 address. -/
def Begins (text : Text) : Prop :=
  ∃ c rest, text = c :: rest ∧ (V6.isHexDigit c = true ∨ c = ':')

theorem Begins.append {text : Text} (begins : Begins text) (rest : Text) :
    Begins (text ++ rest) := by
  obtain ⟨c, others, rfl, spelled⟩ := begins
  exact ⟨c, others ++ rest, rfl, spelled⟩

/-- What the first group begins with. -/
private theorem begins_join {sep : Char} {first : Text} (some_ : first ≠ [])
    (digits : ∀ c ∈ first, V6.isHexDigit c = true) (rest : List Text) :
    Begins (join sep (first :: rest)) := by
  obtain ⟨c, others, rfl⟩ := List.exists_cons_of_ne_nil some_
  have begins : Begins (c :: others) := ⟨c, others, rfl, Or.inl (digits c (List.mem_cons_self ..))⟩
  by_cases last : rest = []
  · rw [last]
    simpa [join] using begins
  · rw [join_cons sep _ last]
    exact begins.append _

private theorem begins_v4 {text : Text} (v4 : IsV4 text) : Begins text := by
  obtain ⟨a, b, c, d, octets, rfl⟩ := v4
  have decimal := (octets a (List.mem_cons_self ..)).decimal
  simp only [isDecimal, Bool.and_eq_true, List.all_eq_true, Bool.not_eq_true',
    List.isEmpty_eq_false_iff] at decimal
  exact begins_join decimal.1 (fun c member => by simp [V6.isHexDigit, decimal.2 c member]) _

theorem IsLiteral.begins {family : Family} {text : Text} (literal : IsLiteral family text) :
    Begins text := by
  cases family with
  | v4 => exact begins_v4 literal
  | v6 =>
    rcases literal with ⟨groups, spelled, rfl⟩ | ⟨above, below, n, high, _, _, rfl⟩
    · cases spelled with
      | hextet first others => exact begins_join first.some first.digits _
    · cases above with
      | nil => exact ⟨':', _, rfl, Or.inr rfl⟩
      | cons first rest =>
        have hextet := high first (List.mem_cons_self ..)
        rw [List.append_assoc]
        exact (begins_join hextet.some hextet.digits rest).append _

theorem begins_of_address {text : Text} {found : V6.Address} (read : V6.address text = some found) :
    Begins text := by
  simp only [V6.address] at read
  split at read
  · cases read
  · simp only [Option.bind_eq_bind, Option.bind_eq_some_iff] at read
    obtain ⟨⟨bare, scopeId⟩, split_, ip, parsed, _⟩ := read
    have literal : IsLiteral .v6 bare := v6_of_parsed parsed
    simp only [V6.splitScopeId] at split_
    split at split_
    · split at split_
      · cases split_
      · cases split_
        have begins := literal.begins.append (text.dropWhile (· ≠ '%'))
        rwa [List.takeWhile_append_dropWhile] at begins
    · cases split_
      exact literal.begins

theorem begins_text (found : V6.Address) : Begins found.text := by
  have literal : IsLiteral .v6 (V6.stringFromIpInt found.ip) := v6_stringFromIpInt found.ip
  simp only [V6.Address.text]
  split
  · exact literal.begins.append _
  · exact literal.begins

theorem begins_of_split {text bare : Text} {mask : Option Text}
    (split : splitOptionalNetmask text = some (bare, mask)) (begins : Begins bare) :
    Begins text := by
  have spelled := split_of_text split
  cases mask with
  | none => rwa [show text = bare from spelled]
  | some mask =>
    rw [show text = bare ++ '/' :: mask from spelled]
    exact begins.append _

theorem begins_of_ipAddress {text form : Text} (read : ipAddress text = some form) :
    Begins form := by
  simp only [ipAddress] at read
  split at read
  next found =>
    cases read
    simp only [V4.address] at found
    split at found
    · cases found
    · obtain ⟨n, _, rfl⟩ := Option.map_eq_some_iff.mp found
      exact begins_v4 (v4_stringFromIpInt n)
  next =>
    obtain ⟨found, _, rfl⟩ := Option.map_eq_some_iff.mp read
    exact begins_text found

theorem begins_of_ipNetwork {text form : Text} (read : ipNetwork text = some form) :
    Begins text ∧ Begins form := by
  simp only [ipNetwork] at read
  split at read
  next found =>
    cases read
    simp only [V4.network, Option.bind_eq_bind, Option.bind_eq_some_iff, Option.pure_def,
      Option.some.injEq] at found
    obtain ⟨⟨bare, mask⟩, split_, packed, parsed, length, _, rfl⟩ := found
    exact ⟨begins_of_split split_ (begins_v4 (v4_of_parsed parsed)),
      (begins_v4 (v4_stringFromIpInt _)).append _⟩
  next =>
    obtain ⟨⟨found, length⟩, network, rfl⟩ := Option.map_eq_some_iff.mp read
    refine ⟨?_, (begins_text found).append _⟩
    simp only [V6.network, Option.bind_eq_bind, Option.bind_eq_some_iff] at network
    obtain ⟨⟨bare, mask⟩, split_, address, parsed, _⟩ := network
    exact begins_of_split split_ (begins_of_address parsed)

end MegooPM.Lib.Ip
