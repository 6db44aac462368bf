import MegooPM.Lib.AddressGrammar

/-!
# Printed addresses read back

What `str` makes of an address or of a network is read as that address or network again, so
that a form is its own form. The zeros that `::` stands for are the ones that were left out,
and a scope id stays as it was.
-/
namespace MegooPM.Lib.Ip

/-! ### Groups -/

theorem parseOctet_toDigits {n : Nat} (small : n < 256) :
    V4.parseOctet (Nat.toDigits 10 n) = some n := by
  have all : ∀ k < 256, V4.parseOctet (Nat.toDigits 10 k) = some k := by decide +kernel
  exact all n small

theorem hexValue_digitChar {n : Nat} (small : n < 16) : V6.hexValue (Nat.digitChar n) = n := by
  have all : ∀ k < 16, V6.hexValue (Nat.digitChar k) = k := by decide
  exact all n small

/-- Hexadecimal digits read as the number they were printed from. -/
theorem foldl_hexValue_toDigits (n : Nat) :
    (Nat.toDigits 16 n).foldl (fun m c => m * 16 + V6.hexValue c) 0 = n := by
  induction n using Nat.strongRecOn with
  | ind n ih =>
    rw [Nat.toDigits_eq_if (by decide)]
    by_cases small : n < 16
    · rw [if_pos small, List.foldl_cons, List.foldl_nil, hexValue_digitChar small]
      omega
    · -- the last digit apart
      rw [if_neg small, List.foldl_append, ih (n / 16) (by omega), List.foldl_cons, List.foldl_nil,
        hexValue_digitChar (Nat.mod_lt _ (by decide))]
      omega

theorem parseHextet_toDigits {n : Nat} (small : n < 65536) :
    V6.parseHextet (Nat.toDigits 16 n) = some n := by
  obtain ⟨some_, short, digits⟩ := hextet_toDigits small
  have spelled : (Nat.toDigits 16 n).all V6.isHexDigit = true := List.all_eq_true.mpr digits
  rw [V6.parseHextet, spelled, if_neg (by decide), if_neg (by omega),
    if_neg (by simp [some_]), foldl_hexValue_toDigits]

theorem parseHextets_toDigits {values : List Nat} (small : ∀ v ∈ values, v < 65536) :
    V6.parseHextets (values.map (Nat.toDigits 16)) = some values := by
  induction values with
  | nil => rfl
  | cons first rest ih =>
    have others := ih fun v later => small v (List.mem_cons_of_mem _ later)
    rw [List.map_cons, V6.parseHextets, parseHextet_toDigits (small first (List.mem_cons_self ..)),
      others]
    rfl

/-! ### IPv4 -/

private theorem splitOn_join {sep : Char} {parts : List Text} (some_ : parts ≠ [])
    (clean : ∀ part ∈ parts, sep ∉ part) : (join sep parts).splitOn sep = parts :=
  List.splitOn_intercalate sep clean some_

theorem v4_reads_back (n : Nat) :
    V4.ipIntFromString (V4.stringFromIpInt n) = some (n % 2 ^ 32) := by
  have split : (V4.stringFromIpInt n).splitOn '.' =
      (List.range 4).map fun i => Nat.toDigits 10 (n / 256 ^ (3 - i) % 256) := by
    refine splitOn_join (by simp) ?_
    intro part member
    obtain ⟨i, _, rfl⟩ := List.mem_map.mp member
    exact isDecimal_not_mem (octet_toDigits (Nat.mod_lt _ (by decide))).decimal rfl
  have octet : ∀ k, V4.parseOctet (Nat.toDigits 10 (k % 256)) = some (k % 256) :=
    fun k => parseOctet_toDigits (Nat.mod_lt _ (by decide))
  rw [V4.ipIntFromString, split]
  simp only [List.range, List.range.loop, List.map_cons, List.map_nil, octet, Option.bind_eq_bind,
    Option.bind_some, Option.pure_def, Option.some.injEq]
  omega

/-- A colon stands in no IPv4 literal. -/
theorem colon_not_mem_v4 {text : Text} (v4 : IsV4 text) : ':' ∉ text := by
  obtain ⟨a, b, c, d, octets, rfl⟩ := v4
  intro member
  rcases mem_join member with dot | ⟨part, listed, inside⟩
  · exact absurd dot (by decide)
  · exact isDecimal_not_mem (octets part listed).decimal rfl inside

theorem v4_none_of_colon {text : Text} (colon : ':' ∈ text) : V4.ipIntFromString text = none := by
  cases parsed : V4.ipIntFromString text with
  | none => rfl
  | some n => exact absurd colon (colon_not_mem_v4 (v4_of_parsed parsed))

/-! ### IPv6 -/

/-- The hextets of an address, the highest first. -/
def hextetValues (count ip : Nat) : List Nat :=
  (List.range count).map fun i => ip / 65536 ^ (count - 1 - i) % 65536

theorem hextetValues_succ (count ip : Nat) :
    hextetValues (count + 1) ip = hextetValues count (ip / 65536) ++ [ip % 65536] := by
  rw [hextetValues, List.range_succ, List.map_append, hextetValues]
  congr 1
  · refine List.map_congr_left fun i member => ?_
    have below := List.mem_range.mp member
    rw [Nat.div_div_eq_div_mul, show count + 1 - 1 - i = (count - 1 - i) + 1 by omega,
      Nat.pow_succ, Nat.mul_comm (65536 ^ _)]
  · simp

theorem shiftIn_append (n : Nat) (above below : List Nat) :
    V6.shiftIn n (above ++ below) = V6.shiftIn (V6.shiftIn n above) below :=
  List.foldl_append

theorem shiftIn_zeros (n count : Nat) :
    V6.shiftIn n (List.replicate count 0) = n * 65536 ^ count := by
  induction count with
  | zero => simp [V6.shiftIn]
  | succ count ih =>
    rw [List.replicate_succ', shiftIn_append, ih, Nat.pow_succ]
    simp [V6.shiftIn, Nat.mul_assoc]

theorem shiftIn_hextetValues (count ip : Nat) :
    V6.shiftIn 0 (hextetValues count ip) = ip % 65536 ^ count := by
  induction count generalizing ip with
  | zero => simp [hextetValues, V6.shiftIn, Nat.mod_one]
  | succ count ih =>
    rw [hextetValues_succ, shiftIn_append, ih, Nat.pow_succ', Nat.mod_mul]
    simp only [V6.shiftIn, List.foldl_cons, List.foldl_nil]
    omega

theorem stringFromIpInt_eq (ip : Nat) : V6.stringFromIpInt ip =
    join ':' (V6.compressHextets ((hextetValues 8 ip).map (Nat.toDigits 16))) := by
  rw [V6.stringFromIpInt, hextetValues, List.map_map]
  rfl

/-- Every hextet of the run that is found is zero. -/
theorem bestRun_zeros {whole rest : List Text} {index : Nat} {best : Nat × Nat}
    {start : Option Nat} {length : Nat} (here : whole.drop index = rest)
    (found : ∀ i, best.1 ≤ i → i < best.1 + best.2 → whole[i]? = some ['0'])
    (running : start.getD index + length = index)
    (zeros : ∀ i, start.getD index ≤ i → i < index → whole[i]? = some ['0']) :
    ∀ i, (V6.bestRun index best start length rest).1 ≤ i →
      i < (V6.bestRun index best start length rest).1 +
        (V6.bestRun index best start length rest).2 → whole[i]? = some ['0'] := by
  induction rest generalizing index best start length with
  | nil => simpa only [V6.bestRun] using found
  | cons hextet rest ih =>
    have at_ : whole[index]? = some hextet := by
      rw [← List.head?_drop, here, List.head?_cons]
    have next : whole.drop (index + 1) = rest := by
      rw [← List.tail_drop, here, List.tail_cons]
    rw [V6.bestRun]
    by_cases zero : hextet = ['0']
    · -- the run goes on through this one
      have longer : ∀ i, start.getD index ≤ i → i < index + 1 → whole[i]? = some ['0'] := by
        intro i low high
        by_cases last : i = index
        · rw [last, at_, zero]
        · exact zeros i low (by omega)
      rw [if_pos zero]
      dsimp only
      refine ih next ?_ (by rw [Option.getD_some]; omega) (by simpa using longer)
      split
      · intro i low high
        exact longer i low (by dsimp only at low high; omega)
      · exact found
    · rw [if_neg zero]
      refine ih next found (Nat.add_zero _) fun i low high => ?_
      rw [Option.getD_none] at low
      omega

/-- What stands on one side of `::`, with an empty part where no group does. -/
def padded (groups : List Text) : List Text :=
  if groups = [] then [[]] else groups

theorem padded_ne_nil (groups : List Text) : padded groups ≠ [] := by
  unfold padded
  split
  · exact List.cons_ne_nil _ _
  next some_ => exact some_

theorem padded_length (groups : List Text) :
    (padded groups).length = max 1 groups.length := by
  by_cases empty : groups = []
  · rw [empty]
    rfl
  · have some_ := List.length_pos_iff.mpr empty
    rw [padded, if_neg empty]
    omega

/-- Where nothing stands between two groups of a text with one `::`. -/
theorem skipIndices_gap {high low : List Text} (above : high ≠ []) (below : low ≠ [])
    (inner : ∀ part ∈ high.tail, part ≠ []) (inner' : ∀ part ∈ low.dropLast, part ≠ []) :
    V6.skipIndices (high ++ [] :: low) = [high.length] := by
  have first := List.length_pos_iff.mpr above
  have last := List.length_pos_iff.mpr below
  have only : ∀ i ∈ List.range ((high ++ [] :: low).length - 1),
      decide (0 < i ∧ (high ++ [] :: low)[i]? = some []) = (i == high.length) := by
    intro i member
    rw [List.mem_range, List.length_append, List.length_cons] at member
    rcases Nat.lt_trichotomy i high.length with before | here | behind
    · -- a group above the gap, unless it is the first part
      have other : ¬ (0 < i ∧ (high ++ [] :: low)[i]? = some []) := by
        rintro ⟨later, empty⟩
        rw [List.getElem?_append_left before] at empty
        refine inner [] ?_ rfl
        obtain ⟨j, rfl⟩ : ∃ j, i = j + 1 := ⟨i - 1, by omega⟩
        rw [← List.getElem?_tail] at empty
        exact List.mem_of_getElem? empty
      rw [decide_eq_false other, beq_false_of_ne (by omega)]
    · subst here
      simp [first]
    · have other : ¬ (0 < i ∧ (high ++ [] :: low)[i]? = some []) := by
        rintro ⟨_, empty⟩
        obtain ⟨j, rfl⟩ : ∃ j, i = high.length + (j + 1) := ⟨i - high.length - 1, by omega⟩
        rw [List.getElem?_append_right (by omega), Nat.add_sub_cancel_left,
          List.getElem?_cons_succ] at empty
        refine inner' [] ?_ rfl
        have inside : low.dropLast[j]? = some [] := by
          rw [List.getElem?_dropLast, if_pos (by omega), empty]
        exact List.mem_of_getElem? inside
      rw [decide_eq_false other, beq_false_of_ne (by omega)]
  rw [V6.skipIndices, List.filter_congr only, List.filter_beq,
    List.count_eq_one_of_mem List.nodup_range]
  · rfl
  · rw [List.mem_range, List.length_append, List.length_cons]
    omega

/-- Groups of hexadecimal digits have no dotted suffix. -/
private theorem splitDotted_groups {parts : List Text} (some_ : parts ≠ [])
    (clean : ∀ part ∈ parts, part = [] ∨ IsHextet part) : V6.splitDotted parts = some parts := by
  obtain ⟨last, found⟩ := Option.isSome_iff_exists.mp (List.getLast?_isSome.mpr some_)
  have plain : '.' ∉ last := by
    rcases clean last (List.mem_of_getLast? found) with rfl | hextet
    · exact List.not_mem_nil
    · exact fun dot => absurd (hextet.digits _ dot) (by decide)
  rw [V6.splitDotted, found]
  simp only [if_neg plain]

section Gap

variable {front back : List Text} (upper : ∀ group ∈ front, IsHextet group)
  (lower : ∀ group ∈ back, IsHextet group)

include upper in
private theorem padded_part {part : Text} (member : part ∈ padded front) :
    part = [] ∧ front = [] ∨ IsHextet part := by
  unfold padded at member
  split at member
  next empty => exact Or.inl ⟨List.mem_singleton.mp member, empty⟩
  next => exact Or.inr (upper part member)

include upper in
/-- An end of the text is empty when nothing stands on that side. -/
private theorem padded_head : (padded front).head? = some [] ↔ front = [] := by
  constructor
  · intro head
    rcases padded_part upper (List.mem_of_mem_head? head) with ⟨_, empty⟩ | hextet
    · exact empty
    · exact absurd rfl hextet.some
  · rintro rfl
    rfl

include upper in
private theorem padded_last : (padded front).getLast? = some [] ↔ front = [] := by
  constructor
  · intro last
    rcases padded_part upper (List.mem_of_getLast? last) with ⟨_, empty⟩ | hextet
    · exact empty
    · exact absurd rfl hextet.some
  · rintro rfl
    rfl

include upper in
/-- Away from an end every part is a group. -/
private theorem padded_inner :
    (∀ part ∈ (padded front).tail, part ≠ []) ∧ ∀ part ∈ (padded front).dropLast, part ≠ [] := by
  by_cases empty : front = []
  · rw [padded, if_pos empty]
    exact ⟨fun _ member => (List.not_mem_nil member).elim,
      fun _ member => (List.not_mem_nil member).elim⟩
  · rw [padded, if_neg empty]
    exact ⟨fun part member => (upper part (List.mem_of_mem_tail member)).some,
      fun part member => (upper part (List.dropLast_subset _ member)).some⟩

include upper lower in
/-- The hextets that no group stands for are zero. -/
private theorem skippedHextets_gap {above below : List Nat}
    (first : V6.parseHextets front = some above) (second : V6.parseHextets back = some below)
    (room : front.length + back.length ≤ 7) :
    V6.skippedHextets (padded front ++ [] :: padded back) (padded front).length =
      some (V6.shiftIn (V6.shiftIn 0 above * 65536 ^ (8 - (front.length + back.length)))
        below) := by
  have head : (padded front ++ [] :: padded back).head? = some [] ↔ front = [] := by
    rw [List.head?_append_of_ne_nil _ (padded_ne_nil front)]
    exact padded_head upper
  have last : (padded front ++ [] :: padded back).getLast? = some [] ↔ back = [] := by
    rw [List.getLast?_append_of_ne_nil _ (List.cons_ne_nil _ _),
      List.getLast?_cons_of_ne_nil (padded_ne_nil back)]
    exact padded_last lower
  have size := padded_length front
  have size' := padded_length back
  have total : (padded front ++ [] :: padded back).length - (padded front).length - 1 =
      (padded back).length := by
    rw [List.length_append, List.length_cons]
    omega
  -- an end that is empty belongs to the gap
  have high : (if (padded front ++ [] :: padded back).head? = some [] then 0
      else (padded front).length) = front.length := by
    by_cases empty : front = []
    · rw [if_pos (head.mpr empty), empty, List.length_nil]
    · rw [if_neg fun none_ => empty (head.mp none_), padded, if_neg empty]
  have low : (if (padded front ++ [] :: padded back).getLast? = some [] then 0
      else (padded back).length) = back.length := by
    by_cases empty : back = []
    · rw [if_pos (last.mpr empty), empty, List.length_nil]
    · rw [if_neg fun none_ => empty (last.mp none_), padded, if_neg empty]
  have upperPart : (padded front ++ [] :: padded back).take front.length = front := by
    by_cases empty : front = []
    · rw [empty, List.length_nil, List.take_zero]
    · rw [padded, if_neg empty, List.take_left]
  have lowerPart : (padded front ++ [] :: padded back).drop
      ((padded front ++ [] :: padded back).length - back.length) = back := by
    by_cases empty : back = []
    · rw [empty, List.length_nil, Nat.sub_zero, List.drop_length]
    · rw [show padded back = back by rw [padded, if_neg empty], List.length_append,
        List.length_cons, show (padded front).length + (back.length + 1) - back.length =
          (padded front).length + 1 by omega, List.drop_append, ]
      simp
  simp only [V6.skippedHextets, total, high, low]
  rw [if_neg, if_neg, if_neg (by rw [V6.hextetCount]; omega), upperPart, lowerPart, first, second]
  · rfl
  · rintro ⟨empty, other⟩
    rw [last] at empty
    rw [empty] at other
    exact other rfl
  · rintro ⟨empty, other⟩
    rw [head] at empty
    rw [empty] at other
    exact other rfl

end Gap

/-- A text with one `::` reads as its groups with zeros between them. -/
theorem v6_reads_gap {front back : List Text} {above below : List Nat}
    (first : V6.parseHextets front = some above)
    (second : V6.parseHextets back = some below) (room : front.length + back.length ≤ 7) :
    V6.ipIntFromString (join ':' (padded front ++ [] :: padded back)) =
      some (V6.shiftIn (V6.shiftIn 0 above * 65536 ^ (8 - (front.length + back.length)))
        below) := by
  have upper := hextets_of_parsed first
  have lower := hextets_of_parsed second
  have clean : ∀ part ∈ padded front ++ [] :: padded back, part = [] ∨ IsHextet part := by
    intro part member
    rcases List.mem_append.mp member with high | low
    · exact (padded_part upper high).imp_left And.left
    · rcases List.mem_cons.mp low with gap | low
      · exact Or.inl gap
      · exact (padded_part lower low).imp_left And.left
  have split : (join ':' (padded front ++ [] :: padded back)).splitOn ':' =
      padded front ++ [] :: padded back := by
    refine splitOn_join (List.append_ne_nil_of_right_ne_nil _ (List.cons_ne_nil _ _)) ?_
    intro part member colon
    rcases clean part member with rfl | hextet
    · cases colon
    · exact absurd (hextet.digits _ colon) (by decide)
  have dotted := splitDotted_groups (List.append_ne_nil_of_right_ne_nil _ (List.cons_ne_nil _ _)) clean
  have gap := skipIndices_gap (padded_ne_nil front) (padded_ne_nil back) (padded_inner upper).1
    (padded_inner lower).2
  have size := padded_length front
  have size' := padded_length back
  have total : (padded front ++ [] :: padded back).length =
      (padded front).length + (padded back).length + 1 := by
    rw [List.length_append, List.length_cons]
    omega
  simp only [V6.ipIntFromString, split, dotted]
  rw [if_neg (by omega), if_neg (by rw [total, V6.hextetCount]; omega)]
  simp only [gap]
  exact skippedHextets_gap upper lower first second room

/-- A text without `::` reads as its eight groups. -/
theorem v6_reads_whole {groups : List Text} {values : List Nat} (eight : groups.length = 8)
    (read : V6.parseHextets groups = some values) :
    V6.ipIntFromString (join ':' groups) = some (V6.shiftIn 0 values) := by
  have hextets := hextets_of_parsed read
  have some_ : groups ≠ [] := List.ne_nil_of_length_pos (by omega)
  have split : (join ':' groups).splitOn ':' = groups := by
    refine splitOn_join some_ fun part member colon => ?_
    exact absurd ((hextets part member).digits _ colon) (by decide)
  have full : ∀ part : Text, part ∈ groups → part ≠ [] := fun part member => (hextets part member).some
  have gapless : V6.skipIndices groups = [] := by
    rw [V6.skipIndices, List.filter_eq_nil_iff]
    intro i _ skipped
    rw [decide_eq_true_eq] at skipped
    exact full [] (List.mem_of_getElem? skipped.2) rfl
  simp only [V6.ipIntFromString, split,
    splitDotted_groups some_ fun part member => Or.inr (hextets part member)]
  rw [if_neg (by omega), if_neg (by rw [eight]; decide)]
  simp only [gapless, V6.allHextets]
  have head : groups.head? ≠ some [] := fun empty => full [] (List.mem_of_mem_head? empty) rfl
  have last : groups.getLast? ≠ some [] := fun empty => full [] (List.mem_of_getLast? empty) rfl
  rw [if_neg (by rw [eight]; decide), if_neg head, if_neg last, read]
  rfl

/-- A run of zeros between the values on either side of it. -/
private theorem values_around {values : List Nat} {start length : Nat}
    (zeros : ∀ i, start ≤ i → i < start + length → values[i]? = some 0) :
    values.take start ++ (List.replicate length 0 ++ values.drop (start + length)) = values := by
  have run : (values.drop start).take length = List.replicate length 0 := by
    refine List.ext_getElem? fun i => ?_
    rw [List.getElem?_take, List.getElem?_replicate, List.getElem?_drop]
    by_cases inside : i < length
    · rw [if_pos inside, if_pos inside, zeros _ (by omega) (by omega)]
    · rw [if_neg inside, if_neg inside]
  rw [← run, ← List.drop_drop, List.take_append_drop, List.take_append_drop]

/-- Hextets whose longest run of zeros is left out. -/
private theorem compressHextets_gap {hextets : List Text} {start length : Nat}
    (found : V6.bestRun 0 (0, 0) none 0 hextets = (start, length)) (long : 1 < length)
    (within : start + length ≤ hextets.length) : V6.compressHextets hextets =
      padded (hextets.take start) ++ [] :: padded (hextets.drop (start + length)) := by
  have front : (if start = 0 then [[]] else []) ++ hextets.take start =
      padded (hextets.take start) := by
    by_cases first : start = 0
    · rw [if_pos first, first, List.take_zero]
      rfl
    · have some_ : hextets.take start ≠ [] :=
        List.ne_nil_of_length_pos (by rw [List.length_take]; omega)
      rw [if_neg first, padded, if_neg some_, List.nil_append]
  have back : hextets.drop (start + length) ++
        (if start + length = hextets.length then [[]] else []) =
      padded (hextets.drop (start + length)) := by
    by_cases last : start + length = hextets.length
    · rw [if_pos last, last, List.drop_length]
      rfl
    · have some_ : hextets.drop (start + length) ≠ [] :=
        List.ne_nil_of_length_pos (by rw [List.length_drop]; omega)
      rw [if_neg last, padded, if_neg some_, List.append_nil]
  rw [V6.compressHextets, found]
  dsimp only
  rw [if_pos long, List.append_assoc, List.append_assoc, List.singleton_append, front, back]

/-- The values printed with the run left out are read with zeros in its place. -/
private theorem v6_reads_run {values : List Nat} {start length : Nat} (eight : values.length = 8)
    (small : ∀ v ∈ values, v < 65536) (long : 1 < length) (within : start + length ≤ 8)
    (zeros : ∀ i, start ≤ i → i < start + length → values[i]? = some 0) :
    V6.ipIntFromString (join ':' (padded ((values.take start).map (Nat.toDigits 16)) ++
      [] :: padded ((values.drop (start + length)).map (Nat.toDigits 16)))) =
      some (V6.shiftIn 0 values) := by
  rw [v6_reads_gap
    (parseHextets_toDigits fun v member => small v (List.mem_of_mem_take member))
    (parseHextets_toDigits fun v member => small v (List.mem_of_mem_drop member))]
  · rw [List.length_map, List.length_map, List.length_take, List.length_drop, eight,
      show 8 - (min start 8 + (8 - (start + length))) = length by omega, ← shiftIn_zeros,
      ← shiftIn_append, ← shiftIn_append, values_around zeros]
  · rw [List.length_map, List.length_map, List.length_take, List.length_drop, eight]
    omega

theorem v6_reads_back (ip : Nat) :
    V6.ipIntFromString (V6.stringFromIpInt ip) = some (ip % 2 ^ 128) := by
  have eight : (hextetValues 8 ip).length = 8 := by
    rw [hextetValues, List.length_map, List.length_range]
  have small : ∀ v ∈ hextetValues 8 ip, v < 65536 := by
    intro v member
    obtain ⟨i, _, rfl⟩ := List.mem_map.mp member
    exact Nat.mod_lt _ (by decide)
  have total : V6.shiftIn 0 (hextetValues 8 ip) = ip % 2 ^ 128 := shiftIn_hextetValues 8 ip
  rw [stringFromIpInt_eq]
  generalize hextetValues 8 ip = values at eight small total ⊢
  generalize printed : values.map (Nat.toDigits 16) = hextets
  have eight' : hextets.length = 8 := by rw [← printed, List.length_map, eight]
  have within := @bestRun_within hextets 0 (0, 0) none 0 (Nat.le_refl _) rfl
  have zeros := @bestRun_zeros hextets hextets 0 (0, 0) none 0 rfl
    (fun i _ high => absurd high (Nat.not_lt_zero i)) rfl
    fun i _ high => absurd high (Nat.not_lt_zero i)
  rcases found : V6.bestRun 0 (0, 0) none 0 hextets with ⟨start, length⟩
  rw [found] at within zeros
  rw [Nat.zero_add] at within
  by_cases long : 1 < length
  · -- what was left out was zero
    have zeros' : ∀ i, start ≤ i → i < start + length → values[i]? = some 0 := by
      intro i low high
      have spelled := zeros i low high
      rw [← printed, List.getElem?_map, Option.map_eq_some_iff] at spelled
      obtain ⟨v, there, digits⟩ := spelled
      have read := foldl_hexValue_toDigits v
      rw [digits] at read
      rw [there, ← read]
      rfl
    rw [compressHextets_gap found long within, ← total, ← printed, ← List.map_take,
      ← List.map_drop]
    exact v6_reads_run eight small long (eight' ▸ within) zeros'
  · have whole : V6.compressHextets hextets = hextets := by
      rw [V6.compressHextets, found]
      exact if_neg long
    rw [whole, ← total]
    exact v6_reads_whole eight' (printed ▸ parseHextets_toDigits small)

/-! ### Printing what was read -/

theorem v4_stringFromIpInt_mod (n : Nat) :
    V4.stringFromIpInt (n % 2 ^ 32) = V4.stringFromIpInt n := by
  rw [V4.stringFromIpInt, V4.stringFromIpInt]
  congr 1
  refine List.map_congr_left fun i member => ?_
  have below := List.mem_range.mp member
  congr 1
  obtain rfl | rfl | rfl | rfl : i = 0 ∨ i = 1 ∨ i = 2 ∨ i = 3 := by omega
  all_goals
    simp only [Nat.reduceSub, Nat.reducePow]
    omega

theorem v6_stringFromIpInt_mod (ip : Nat) :
    V6.stringFromIpInt (ip % 2 ^ 128) = V6.stringFromIpInt ip := by
  rw [V6.stringFromIpInt, V6.stringFromIpInt]
  congr 2
  refine List.map_congr_left fun i member => ?_
  have below := List.mem_range.mp member
  -- the hextet lies within the bits that are kept
  have split : 2 ^ 128 = 65536 ^ (7 - i) * (65536 * 65536 ^ i) := by
    rw [V6.hextetCount] at below
    rw [← Nat.pow_succ', ← Nat.pow_add, show 7 - i + (i + 1) = 8 by omega]
    decide
  rw [split, Nat.mod_mul_right_div_self, Nat.mod_mul_right_mod]

/-- No character of a literal is a sign that ends it. -/
private theorem plain_v4 (n : Nat) {c : Char} (other : literalChar c = false) :
    c ∉ V4.stringFromIpInt n :=
  IsLiteral.not_mem (show IsLiteral .v4 _ from v4_stringFromIpInt n) other

private theorem plain_v6 (n : Nat) {c : Char} (other : literalChar c = false) :
    c ∉ V6.stringFromIpInt n :=
  IsLiteral.not_mem (show IsLiteral .v6 _ from v6_stringFromIpInt n) other

theorem colon_mem_v6 (ip : Nat) : ':' ∈ V6.stringFromIpInt ip := by
  have read := v6_reads_back ip
  refine Decidable.byContradiction fun absent => ?_
  -- a text without a colon has one part
  rw [V6.ipIntFromString, List.splitOn_eq_singleton absent] at read
  cases read

/-- The form of an IPv4 address is a printed one. -/
private theorem v4_address_form {text form : Text} (read : V4.address text = some form) :
    ∃ n, form = V4.stringFromIpInt n := by
  simp only [V4.address] at read
  split at read
  · cases read
  · obtain ⟨n, _, rfl⟩ := Option.map_eq_some_iff.mp read
    exact ⟨n, rfl⟩

theorem v4_address_again {text form : Text} (read : V4.address text = some form) :
    V4.address form = some form := by
  obtain ⟨n, rfl⟩ := v4_address_form read
  rw [V4.address, if_neg (plain_v4 n rfl), v4_reads_back, Option.map_some, v4_stringFromIpInt_mod]

/-- A scope id: some text with no sign in it. -/
def IsScope (scope : Text) : Prop :=
  scope ≠ [] ∧ '%' ∉ scope ∧ '/' ∉ scope

instance (scope : Text) : Decidable (IsScope scope) :=
  inferInstanceAs (Decidable (_ ∧ _ ∧ _))

/-- What stands on either side of the sign behind a printed address. -/
private theorem around_sign (ip : Nat) (scope : Text) :
    (V6.stringFromIpInt ip ++ '%' :: scope).takeWhile (· ≠ '%') = V6.stringFromIpInt ip ∧
      (V6.stringFromIpInt ip ++ '%' :: scope).dropWhile (· ≠ '%') = '%' :: scope := by
  have bare : ∀ c ∈ V6.stringFromIpInt ip, decide (c ≠ '%') = true := by
    intro c member
    refine decide_eq_true fun sign => ?_
    exact plain_v6 ip rfl (sign ▸ member)
  constructor
  · rw [List.takeWhile_append_of_pos bare, List.takeWhile_cons_of_neg (by decide), List.append_nil]
  · rw [List.dropWhile_append_of_pos bare, List.dropWhile_cons_of_neg (by decide)]

theorem v6_address_scoped (ip : Nat) (scope : Text) :
    V6.address (V6.stringFromIpInt ip ++ '%' :: scope) =
      if IsScope scope then some ⟨ip % 2 ^ 128, some scope⟩ else none := by
  have slash : '/' ∈ V6.stringFromIpInt ip ++ '%' :: scope ↔ '/' ∈ scope := by
    have absent : '/' ∉ V6.stringFromIpInt ip := plain_v6 ip rfl
    simp [absent]
  have split : V6.splitScopeId (V6.stringFromIpInt ip ++ '%' :: scope) =
      if scope = [] ∨ '%' ∈ scope then none else some (V6.stringFromIpInt ip, some scope) := by
    obtain ⟨front, rest⟩ := around_sign ip scope
    rw [V6.splitScopeId, if_pos (by simp), front, rest, List.tail_cons]
  rw [V6.address, split]
  by_cases good : IsScope scope
  · obtain ⟨some_, sign, mask⟩ := good
    rw [if_neg (slash.not.mpr mask), if_neg fun bad => bad.elim some_ sign,
      if_pos ⟨some_, sign, mask⟩]
    simp only [Option.bind_eq_bind, Option.bind_some, v6_reads_back]
    rfl
  · rw [if_neg good]
    by_cases mask : '/' ∈ scope
    · exact if_pos (slash.mpr mask)
    · have bad : scope = [] ∨ '%' ∈ scope := by
        by_cases none_ : scope = []
        · exact Or.inl none_
        · exact Or.inr (Decidable.byContradiction fun sign => good ⟨none_, sign, mask⟩)
      rw [if_neg (slash.not.mpr mask), if_pos bad]
      rfl

theorem v6_address_bare (ip : Nat) :
    V6.address (V6.stringFromIpInt ip) = some ⟨ip % 2 ^ 128, none⟩ := by
  rw [V6.address, if_neg (plain_v6 ip rfl), V6.splitScopeId, if_neg (plain_v6 ip rfl)]
  simp only [Option.bind_eq_bind, Option.bind_some, v6_reads_back]
  rfl

/-- Where a scope id comes from. -/
theorem scope_of_address {text : Text} {found : V6.Address} (read : V6.address text = some found)
    {scope : Text} (kept : found.scopeId = some scope) : IsScope scope ∧ scope <:+ text := by
  simp only [V6.address] at read
  split at read
  · cases read
  next mask =>
    simp only [Option.bind_eq_bind, Option.bind_eq_some_iff, Option.pure_def,
      Option.some.injEq] at read
    obtain ⟨⟨bare, scopeId⟩, split_, ip, _, rfl⟩ := read
    obtain rfl : scopeId = some scope := kept
    simp only [V6.splitScopeId] at split_
    split at split_
    · split at split_
      · cases split_
      next good =>
        cases split_
        have behind : (text.dropWhile (· ≠ '%')).tail <:+ text :=
          (List.tail_suffix _).trans (List.dropWhile_suffix _)
        rw [not_or] at good
        exact ⟨⟨good.1, good.2, fun slash => mask (behind.subset slash)⟩, behind⟩
    · cases split_

/-- An address that was read is read again from its text. -/
theorem v6_address_text {text : Text} {found : V6.Address} (read : V6.address text = some found) :
    V6.address found.text = some ⟨found.ip % 2 ^ 128, found.scopeId⟩ := by
  cases kept : found.scopeId with
  | none =>
    simp only [V6.Address.text, kept]
    exact v6_address_bare found.ip
  | some scope =>
    simp only [V6.Address.text, kept]
    rw [v6_address_scoped, if_pos (scope_of_address read kept).1]

theorem v6_text_mod (found : V6.Address) :
    V6.Address.text ⟨found.ip % 2 ^ 128, found.scopeId⟩ = found.text := by
  simp only [V6.Address.text, v6_stringFromIpInt_mod]

theorem colon_mem_text (found : V6.Address) : ':' ∈ found.text := by
  simp only [V6.Address.text]
  split
  · exact List.mem_append_left _ (colon_mem_v6 found.ip)
  · exact colon_mem_v6 found.ip

theorem v4_address_none {text : Text} (colon : ':' ∈ text) : V4.address text = none := by
  rw [V4.address, v4_none_of_colon colon]
  split
  · rfl
  · rfl

/-- The form of an address is its own form. -/
theorem ipAddress_again {text form : Text} (read : ipAddress text = some form) :
    ipAddress form = some form := by
  simp only [ipAddress] at read
  split at read
  next found =>
    cases read
    rw [ipAddress, v4_address_again found]
  next =>
    obtain ⟨found, parsed, rfl⟩ := Option.map_eq_some_iff.mp read
    rw [ipAddress, v4_address_none (colon_mem_text found)]
    dsimp only
    rw [v6_address_text parsed, Option.map_some, v6_text_mod]

/-- A printed address with any text behind the sign. -/
theorem ipAddress_scoped (ip : Nat) (scope : Text) :
    ipAddress (V6.stringFromIpInt ip ++ '%' :: scope) =
      if IsScope scope then some (V6.stringFromIpInt ip ++ '%' :: scope) else none := by
  rw [ipAddress, v4_address_none (List.mem_append_left _ (colon_mem_v6 ip))]
  dsimp only
  rw [v6_address_scoped]
  split
  · rw [Option.map_some, v6_text_mod ⟨ip, some scope⟩]
    rfl
  · rfl

/-- What the form of an address is spelled with: a literal, and a scope id taken from the end
of the text. -/
theorem ipAddress_shape {text form : Text} (read : ipAddress text = some form) :
    (∀ c ∈ form, literalChar c = true) ∨
      ∃ ip scope, IsScope scope ∧ scope <:+ text ∧
        form = V6.stringFromIpInt ip ++ '%' :: scope := by
  simp only [ipAddress] at read
  split at read
  next found =>
    cases read
    obtain ⟨n, rfl⟩ := v4_address_form found
    exact Or.inl (v4_stringFromIpInt n).chars
  next =>
    obtain ⟨found, parsed, rfl⟩ := Option.map_eq_some_iff.mp read
    cases kept : found.scopeId with
    | none =>
      simp only [V6.Address.text, kept]
      exact Or.inl (v6_stringFromIpInt found.ip).chars
    | some scope =>
      obtain ⟨good, behind⟩ := scope_of_address parsed kept
      simp only [V6.Address.text, kept]
      exact Or.inr ⟨found.ip, scope, good, behind, rfl⟩

/-! ### Networks -/

theorem prefixFromPrefixString_toDigits {family : Family} {n : Nat} (within : n ≤ family.width) :
    prefixFromPrefixString family.width (Nat.toDigits 10 n) = some n := by
  have decimal : isDecimal (Nat.toDigits 10 n) = true := (length_toDigits within).decimal
  have narrow : family.width ≤ 128 := by
    cases family with
    | v4 => decide
    | v6 => decide
  have short : (Nat.toDigits 10 n).length ≤ 3 :=
    (Nat.length_toDigits_le_iff (by decide) (by decide)).mpr (by omega)
  rw [prefixFromPrefixString, decimal, Nat.ofDigitChars_ten_toDigits, if_neg, if_neg (by omega)]
  simp only [Bool.not_true, Bool.false_or, decide_eq_true_eq]
  rw [maxIntDigits]
  omega

theorem ipIntFromPrefix_lt (width length : Nat) : ipIntFromPrefix width length < 2 ^ width := by
  have ones : allOnes width < 2 ^ width := Nat.sub_lt (Nat.two_pow_pos width) Nat.one_pos
  refine Nat.xor_lt_two_pow ones (Nat.lt_of_le_of_lt ?_ ones)
  rw [Nat.shiftRight_eq_div_pow]
  exact Nat.div_le_self _ _

/-- Masking twice is masking once. -/
theorem masked_again (n width length : Nat) :
    n &&& ipIntFromPrefix width length < 2 ^ width ∧
      n &&& ipIntFromPrefix width length &&& ipIntFromPrefix width length =
        n &&& ipIntFromPrefix width length := by
  constructor
  · exact Nat.and_lt_two_pow n (ipIntFromPrefix_lt width length)
  · rw [Nat.and_assoc, Nat.and_self]

/-- A printed address with a length behind it. -/
private theorem split_masked {bare : Text} (plain : '/' ∉ bare) (length : Nat) :
    splitOptionalNetmask (bare ++ '/' :: Nat.toDigits 10 length) =
      some (bare, some (Nat.toDigits 10 length)) := by
  refine splitOptionalNetmask_masked plain fun slash => ?_
  exact absurd (Nat.isDigit_of_mem_toDigits (by decide) (by decide) slash) (by decide)

theorem v4_network_again {text form : Text} (read : V4.network text = some form) :
    V4.network form = some form := by
  simp only [V4.network, Option.bind_eq_bind, Option.bind_eq_some_iff, Option.pure_def,
    Option.some.injEq] at read
  obtain ⟨⟨bare, mask⟩, _, packed, _, length, made, rfl⟩ := read
  have within : length ≤ Family.v4.width := by
    cases mask with
    | none =>
      cases made
      exact Nat.le_refl _
    | some mask => exact (v4_makeNetmask made).1
  have made' : V4.makeNetmask (some (Nat.toDigits 10 length)) = some length := by
    have known := prefixFromPrefixString_toDigits within
    rw [V4.makeNetmask, show V4.width = Family.v4.width from rfl, known]
  obtain ⟨fits, same⟩ := masked_again packed V4.width length
  rw [V4.network, split_masked (plain_v4 _ rfl)]
  simp only [Option.bind_eq_bind, Option.bind_some, v4_reads_back, made',
    Nat.mod_eq_of_lt (show _ < 2 ^ 32 from fits), same]
  rfl

/-- The form of an IPv4 network is a printed address with a length behind it. -/
private theorem v4_network_form {text form : Text} (read : V4.network text = some form) :
    ∃ n length, form = V4.stringFromIpInt n ++ '/' :: Nat.toDigits 10 length := by
  simp only [V4.network, Option.bind_eq_bind, Option.bind_eq_some_iff, Option.pure_def,
    Option.some.injEq] at read
  obtain ⟨_, _, _, _, length, _, rfl⟩ := read
  exact ⟨_, length, rfl⟩

/-- No address with a colon in it is of IPv4. -/
private theorem v4_network_none {bare : Text} (colon : ':' ∈ bare) (plain : '/' ∉ bare)
    (length : Nat) : V4.network (bare ++ '/' :: Nat.toDigits 10 length) = none := by
  rw [V4.network, split_masked plain]
  simp only [Option.bind_eq_bind, Option.bind_some, v4_none_of_colon colon, Option.bind_none]

theorem slash_not_mem_text {text : Text} {found : V6.Address}
    (read : V6.address text = some found) : '/' ∉ found.text := by
  cases kept : found.scopeId with
  | none =>
    simp only [V6.Address.text, kept]
    exact plain_v6 _ rfl
  | some scope =>
    have absent : '/' ∉ V6.stringFromIpInt found.ip := plain_v6 _ rfl
    simp only [V6.Address.text, kept]
    simp [absent, (scope_of_address read kept).1.2.2]

/-- A network whose address fits behind its mask is read from its text. -/
private theorem v6_network_printed {found : V6.Address} {length : Nat}
    (again : V6.address found.text = some ⟨found.ip % 2 ^ 128, found.scopeId⟩)
    (within : length ≤ Family.v6.width) (plain : '/' ∉ found.text) (fits : found.ip < 2 ^ 128)
    (same : found.ip &&& ipIntFromPrefix V6.width length = found.ip) :
    V6.network (found.text ++ '/' :: Nat.toDigits 10 length) = some (found, length) := by
  have made : V6.makeNetmask (some (Nat.toDigits 10 length)) = some length :=
    prefixFromPrefixString_toDigits within
  have clear : found.hasHostBits length = false := by
    simp [V6.Address.hasHostBits, same]
  rw [Nat.mod_eq_of_lt fits] at again
  rw [V6.network, split_masked plain]
  simp only [Option.bind_eq_bind, Option.bind_some, again, made]
  rw [show V6.Address.hasHostBits ⟨found.ip, found.scopeId⟩ length = false from clear]
  rfl

/-- A network that was read is read again from its text. -/
theorem v6_network_text {text : Text} {found : V6.Address} {length : Nat}
    (read : V6.network text = some (found, length)) :
    '/' ∉ found.text ∧
      V6.network (found.text ++ '/' :: Nat.toDigits 10 length) = some (found, length) := by
  have within : length ≤ Family.v6.width := (v6_network read).1
  simp only [V6.network, Option.bind_eq_bind, Option.bind_eq_some_iff, Option.pure_def,
    Option.some.injEq, Prod.mk.injEq] at read
  obtain ⟨⟨bare, mask⟩, _, address, parsed, length', made, masked, rfl⟩ := read
  obtain ⟨fits, same⟩ := masked_again address.ip V6.width length'
  by_cases behind : address.hasHostBits length' = true
  · -- the bits are cleared, and the scope id is gone
    rw [if_pos behind] at masked
    subst masked
    have plain : '/' ∉ V6.Address.text ⟨address.ip &&& ipIntFromPrefix V6.width length', none⟩ :=
      plain_v6 _ rfl
    exact ⟨plain, v6_network_printed (v6_address_bare _) within plain fits same⟩
  · rw [if_neg behind] at masked
    subst masked
    have kept : address.ip &&& ipIntFromPrefix V6.width length' = address.ip := by
      simpa [V6.Address.hasHostBits] using behind
    rw [kept] at fits same
    have plain := slash_not_mem_text parsed
    exact ⟨plain, v6_network_printed (v6_address_text parsed) within plain fits same⟩

/-- The form of a network is its own form. -/
theorem ipNetwork_again {text form : Text} (read : ipNetwork text = some form) :
    ipNetwork form = some form := by
  simp only [ipNetwork] at read
  split at read
  next found =>
    cases read
    rw [ipNetwork, v4_network_again found]
  next =>
    obtain ⟨⟨found, length⟩, parsed, rfl⟩ := Option.map_eq_some_iff.mp read
    obtain ⟨plain, again⟩ := v6_network_text parsed
    rw [ipNetwork, v4_network_none (colon_mem_text found) plain length]
    dsimp only
    rw [again]
    rfl

/-- The form of a network ends with the length of its prefix. -/
theorem ipNetwork_shape {text form : Text} (read : ipNetwork text = some form) :
    ∃ front length, form = front ++ '/' :: Nat.toDigits 10 length := by
  simp only [ipNetwork] at read
  split at read
  next found =>
    cases read
    obtain ⟨n, length, rfl⟩ := v4_network_form found
    exact ⟨_, length, rfl⟩
  next =>
    obtain ⟨⟨found, length⟩, _, rfl⟩ := Option.map_eq_some_iff.mp read
    exact ⟨found.text, length, rfl⟩

/-- No mask stands in the form of an address. -/
theorem slash_not_mem_address {text form : Text} (read : ipAddress text = some form) :
    '/' ∉ form := by
  rcases ipAddress_shape read with plain | ⟨ip, scope, good, _, rfl⟩
  · exact fun slash => absurd (plain _ slash) (by decide)
  · have absent : '/' ∉ V6.stringFromIpInt ip := plain_v6 ip rfl
    simp [absent, good.2.2]

theorem dot_mem_v4 (n : Nat) : '.' ∈ V4.stringFromIpInt n := by
  obtain ⟨a, b, c, d, _, printed⟩ := v4_stringFromIpInt n
  rw [printed]
  simp [join_cons]

/-- A form has a colon or a dot. -/
theorem sign_mem_form {text form : Text}
    (read : ipNetwork text = some form ∨ ipAddress text = some form) : ':' ∈ form ∨ '.' ∈ form := by
  rcases read with network | address
  · simp only [ipNetwork] at network
    split at network
    next found =>
      cases network
      obtain ⟨n, length, rfl⟩ := v4_network_form found
      exact Or.inr (List.mem_append_left _ (dot_mem_v4 n))
    next =>
      obtain ⟨⟨found, length⟩, _, rfl⟩ := Option.map_eq_some_iff.mp network
      exact Or.inl (List.mem_append_left _ (colon_mem_text found))
  · simp only [ipAddress] at address
    split at address
    next found =>
      cases address
      obtain ⟨n, rfl⟩ := v4_address_form found
      exact Or.inr (dot_mem_v4 n)
    next =>
      obtain ⟨found, _, rfl⟩ := Option.map_eq_some_iff.mp address
      exact Or.inl (colon_mem_text found)

end MegooPM.Lib.Ip
