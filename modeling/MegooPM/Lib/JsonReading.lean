import MegooPM.Lib.JsonWriting

/-!
# What reading JSON gives

Where `loads` stops for want of room, what holds of every number it returns, and that an object
of texts is read back as it was written.
-/
namespace MegooPM.Lib

/-! ### Room -/

section

variable (constant : List Char → Option Json)

theorem height_le_deepest (ts : List JsonToken) (r : Reading) :
    r.height ≤ deepest constant ts r := by
  cases ts with
  | nil => exact Nat.le_refl _
  | cons token rest => exact Nat.le_max_left _ _

private theorem loadTokens_eq (room : Nat) (ts : List JsonToken) (r : Reading)
    (fits : r.height ≤ room) :
    loadTokens constant room ts r = if deepest constant ts r ≤ room then
      orRaise (readTokens constant ts r) .valueError else .error .recursionError := by
  induction ts generalizing r with
  | nil =>
    rw [deepest, if_pos fits]
    rfl
  | cons token rest ih =>
    rw [loadTokens, deepest, readTokens]
    cases step : readToken constant r token with
    | none =>
      rw [Option.elim_none, Nat.max_zero, if_pos fits]
      rfl
    | some next =>
      simp only [Option.elim_some, Option.bind_some, Nat.max_le, fits, true_and]
      split
      next within => exact ih next within
      next beyond =>
        -- the container that does not fit is among the deepest
        have deep := height_le_deepest constant rest next
        rw [if_neg (by omega)]

/-- With room for the nesting of a text `loadsWith` returns what the text denotes, and otherwise
it stops short. -/
theorem loadsWith_eq (room : Nat) (text : List Char) :
    loadsWith constant room text = if nestingWith constant text ≤ room then
      orRaise (readJsonWith constant text) .valueError else .error .recursionError := by
  unfold loadsWith nestingWith readJsonWith
  rw [loadTokens_eq constant room _ _ (Nat.zero_le _)]
  split
  · cases readTokens constant (jsonTokens text) (.within .value []) with
    | none => rfl
    | some r => cases r <;> rfl
  · rfl

end

theorem loads_eq (room : Nat) (text : List Char) :
    loads room text = if nesting text ≤ room then orRaise (readJson text) .valueError
      else .error .recursionError :=
  loadsWith_eq _ room text

/-! ### Every value that is read -/

section

variable {p : Json → Prop}

def Frame.All (p : Json → Prop) : Frame → Prop
  | .array items => ∀ item ∈ items, item.Scalars p
  | .object members _ => ∀ member ∈ members, member.2.Scalars p

def Reading.All (p : Json → Prop) : Reading → Prop
  | .within _ stack => ∀ frame ∈ stack, frame.All p
  | .finished value => value.Scalars p

theorem setItem_all {members : List (CodePoints × Json)} {key : CodePoints} {value : Json}
    (all : ∀ member ∈ members, member.2.Scalars p) (new : value.Scalars p) :
    ∀ member ∈ setItem members key value, member.2.Scalars p := by
  unfold setItem
  split
  · intro member inside
    obtain ⟨old, there, rfl⟩ := List.mem_map.mp inside
    split
    · exact new
    · exact all old there
  · intro member inside
    rcases List.mem_append.mp inside with there | last
    · exact all member there
    · rw [List.mem_singleton.mp last]
      exact new

theorem deliver_all {value : Json} {stack : List Frame} (new : value.Scalars p)
    (all : ∀ frame ∈ stack, frame.All p) : (deliver value stack).All p := by
  cases stack with
  | nil => exact new
  | cons frame below =>
    rw [List.forall_mem_cons] at all
    cases frame with
    | array items =>
      refine List.forall_mem_cons.mpr ⟨fun item member => ?_, all.2⟩
      rcases List.mem_append.mp member with there | last
      · exact all.1 item there
      · rw [List.mem_singleton.mp last]
        exact new
    | object members key =>
      exact List.forall_mem_cons.mpr ⟨setItem_all all.1 new, all.2⟩

theorem leave_all {bracket : Bracket} {stack : List Frame} {r : Reading}
    (all : ∀ frame ∈ stack, frame.All p) (left : leave bracket stack = some r) : r.All p := by
  cases stack with
  | nil => cases left
  | cons frame below =>
    rw [List.forall_mem_cons] at all
    cases frame with
    | array items =>
      rw [leave] at left
      split at left
      · cases left
        exact deliver_all (itemScalars_iff.mpr all.1) all.2
      · cases left
    | object members key =>
      rw [leave] at left
      split at left
      · cases left
        exact deliver_all (memberScalars_iff.mpr all.1) all.2
      · cases left

variable {constant : List Char → Option Json}
  (scalar : ∀ cs v, atomValue constant cs = some v → v.Scalars p)
  (text : ∀ s, p (.text s))

include scalar text

theorem startValue_all {stack : List Frame} {token : JsonToken} {r : Reading}
    (all : ∀ frame ∈ stack, frame.All p) (started : startValue constant stack token = some r) :
    r.All p := by
  unfold startValue at started
  split at started
  · cases started
    exact List.forall_mem_cons.mpr ⟨by simp [Frame.All], all⟩
  · cases started
    exact List.forall_mem_cons.mpr ⟨by simp [Frame.All], all⟩
  · cases started
    exact deliver_all (text _) all
  next cs =>
    obtain ⟨v, read, rfl⟩ := Option.map_eq_some_iff.mp started
    exact deliver_all (scalar cs v read) all
  · cases started

omit scalar text in
theorem startMember_all {key : CodePoints} {stack : List Frame} {r : Reading}
    (all : ∀ frame ∈ stack, frame.All p) (started : startMember key stack = some r) : r.All p := by
  unfold startMember at started
  split at started
  · cases started
    obtain ⟨top, below⟩ := List.forall_mem_cons.mp all
    exact List.forall_mem_cons.mpr ⟨top, below⟩
  · cases started

omit scalar text in
theorem afterComma_all {stack : List Frame} {r : Reading}
    (all : ∀ frame ∈ stack, frame.All p) (after : afterComma stack = some r) : r.All p := by
  unfold afterComma at after
  split at after
  · cases after
    exact all
  · cases after
    exact all
  · cases after

theorem readToken_all {r next : Reading} {token : JsonToken} (all : r.All p)
    (step : readToken constant r token = some next) : next.All p := by
  unfold readToken at step
  split at step
  · cases step
  · exact startValue_all scalar text all step
  · exact leave_all all step
  · exact startValue_all scalar text all step
  · exact startMember_all all step
  · exact startMember_all all step
  · exact leave_all all step
  · cases step
    exact all
  · exact afterComma_all all step
  · exact leave_all all step
  · cases step

theorem readTokens_all {ts : List JsonToken} {r last : Reading} (all : r.All p)
    (read : readTokens constant ts r = some last) : last.All p := by
  induction ts generalizing r with
  | nil =>
    cases read
    exact all
  | cons token rest ih =>
    rw [readTokens] at read
    obtain ⟨next, step, read⟩ := Option.bind_eq_some_iff.mp read
    exact ih (readToken_all scalar text all step) read

/-- What holds of every literal holds all over the value that is read. -/
theorem readJson_all {cs : List Char} {v : Json} (read : readJsonWith constant cs = some v) :
    v.Scalars p := by
  unfold readJsonWith at read
  split at read
  next finished =>
    cases read
    exact readTokens_all scalar text (by simp [Reading.All]) finished
  · cases read

end

theorem length_digitsValue_le {digits : List Char} (some_ : digits ≠ [])
    (all : ∀ c ∈ digits, c.isDigit = true) :
    (decimalDigits (digitsValue digits)).length ≤ digits.length := by
  have bound : digitsValue digits < 10 ^ digits.length := by
    clear some_
    unfold digitsValue
    induction digits using List.reverseRecOn with
    | nil => simp
    | append_singleton digits c ih =>
      rw [List.forall_mem_append] at all
      have front := ih all.1
      have digit := all.2 c (List.mem_singleton_self c)
      have small : c.toNat - '0'.toNat < 10 := by
        simp only [Char.isDigit, Bool.and_eq_true, decide_eq_true_eq] at digit
        have top : c.toNat ≤ 57 := digit.2
        have zero : '0'.toNat = 48 := rfl
        omega
      rw [Nat.ofDigitChars_append, Nat.ofDigitChars_cons, Nat.ofDigitChars_nil, List.length_append,
        List.length_singleton, Nat.pow_succ]
      omega
  exact (Nat.length_toDigits_le_iff (by decide) (List.length_pos_iff.mpr some_)).mpr bound

/-- Python writes every whole number it has read. -/
def Json.Short : Json → Prop
  | .int n => (decimalDigits n.natAbs).length ≤ maxStrDigits
  | _ => True

private theorem natAbs_signed (negative : Bool) (n : Nat) : (signed negative n).natAbs = n := by
  cases negative <;> simp [signed]

theorem readTail_whole {negative : Bool} {whole fraction text : List Char} {parts : NumberParts}
    (read : readTail negative whole fraction text = some parts) : parts.whole = whole := by
  unfold readTail at read
  split at read
  · cases read
    rfl
  · split at read
    · obtain ⟨e, _, rfl⟩ := Option.map_eq_some_iff.mp read
      rfl
    · cases read

theorem readUnsigned_whole {negative : Bool} {text : List Char} {parts : NumberParts}
    (read : readUnsigned negative text = some parts) : Digits parts.whole := by
  unfold readUnsigned at read
  simp only at read
  split at read
  · cases read
  next accepted =>
    have whole : parts.whole = text.takeWhile Char.isDigit := by
      unfold readFraction at read
      split at read
      · simp only at read
        split at read
        · cases read
        · exact readTail_whole read
      · exact readTail_whole read
    rw [whole]
    exact ⟨fun none_ => accepted (Or.inl none_), fun c member => List.mem_takeWhile_imp member⟩

theorem short_atomValue {constant : List Char → Option Json}
    (short : ∀ cs v, constant cs = some v → v.Scalars Json.Short) (cs : List Char) (v : Json)
    (read : atomValue constant cs = some v) : v.Scalars Json.Short := by
  unfold atomValue at read
  split at read
  · cases read
    trivial
  split at read
  · cases read
    trivial
  split at read
  · cases read
    trivial
  split at read
  · exact short cs v read
  obtain ⟨parts, number, read⟩ := Option.bind_eq_some_iff.mp read
  -- an integer is short because the reader has counted its digits
  have digits : Digits parts.whole := by
    unfold readNumber at number
    split at number
    · exact readUnsigned_whole number
    · exact readUnsigned_whole number
  unfold NumberParts.value at read
  split at read
  · split at read
    next few =>
      cases read
      have short := length_digitsValue_le digits.1 digits.2
      change (decimalDigits (signed _ _).natAbs).length ≤ maxStrDigits
      rw [natAbs_signed]
      exact Nat.le_trans short few
    · cases read
  · cases read
    trivial

theorem readJson_short {cs : List Char} {v : Json} (read : readJson cs = some v) :
    v.Scalars Json.Short :=
  readJson_all (short_atomValue fun _ _ none_ => by cases none_) (fun _ => trivial) read

/-! ### Texts read back -/

theorem readEscapes_shorter {text rest : List Char} {points : CodePoints}
    (read : readEscapes text = some (points, rest)) : rest.length < text.length := by
  fun_induction readEscapes text generalizing points with
  | case1 => cases read
  | case2 => cases read; simp
  | case3 a b c d rest ih =>
    obtain ⟨point, _, read⟩ := Option.bind_eq_some_iff.mp read
    obtain ⟨found, later, read⟩ := Option.bind_eq_some_iff.mp read
    cases read
    have := ih later
    simp only [List.length_cons]
    omega
  | case4 c rest _ ih =>
    obtain ⟨point, _, read⟩ := Option.bind_eq_some_iff.mp read
    obtain ⟨found, later, read⟩ := Option.bind_eq_some_iff.mp read
    cases read
    have := ih later
    simp only [List.length_cons]
    omega
  | case5 => cases read
  | case6 c rest _ _ _ _ ih =>
    obtain ⟨found, later, read⟩ := Option.bind_eq_some_iff.mp read
    cases read
    have := ih later
    simp only [List.length_cons]
    omega

theorem readQuoted_shorter {text rest : List Char} {points : CodePoints}
    (read : readQuoted text = some (points, rest)) : rest.length < text.length := by
  obtain ⟨⟨raw, rest⟩, escapes, same⟩ := Option.map_eq_some_iff.mp read
  cases same
  exact readEscapes_shorter escapes

theorem nextJsonToken_shorter {text rest : List Char} {token : JsonToken}
    (next : nextJsonToken text = some (token, rest)) : rest.length < text.length := by
  induction text with
  | nil => cases next
  | cons c text ih =>
    rw [nextJsonToken] at next
    split at next
    · exact Nat.lt_succ_of_lt (ih next)
    split at next
    · cases next
      exact Nat.lt_succ_self _
    split at next
    · split at next
      next read =>
        cases next
        exact Nat.lt_succ_of_lt (readQuoted_shorter read)
      · cases next
        exact Nat.succ_pos _
    split at next
    · cases next
      exact Nat.lt_succ_of_le (List.dropWhile_suffix _).length_le
    · cases next
      exact Nat.succ_pos _

private theorem jsonTokensFrom_enough {n m : Nat} {text : List Char} (left : text.length ≤ n)
    (right : text.length ≤ m) : jsonTokensFrom n text = jsonTokensFrom m text := by
  induction n generalizing m text with
  | zero =>
    rw [List.length_eq_zero_iff.mp (Nat.le_zero.mp left)]
    cases m <;> rfl
  | succ n ih =>
    cases m with
    | zero =>
      rw [List.length_eq_zero_iff.mp (Nat.le_zero.mp right)]
      rfl
    | succ m =>
      rw [jsonTokensFrom, jsonTokensFrom]
      cases next : nextJsonToken text with
      | none => rfl
      | some found =>
        have shorter := nextJsonToken_shorter next
        simp only
        rw [ih (m := m) (by omega) (by omega)]

@[simp] theorem jsonTokens_nil : jsonTokens [] = [] := rfl

theorem jsonTokens_of_next {text rest : List Char} {token : JsonToken}
    (next : nextJsonToken text = some (token, rest)) : jsonTokens text = token :: jsonTokens rest := by
  have shorter := nextJsonToken_shorter next
  obtain ⟨n, size⟩ : ∃ n, text.length = n + 1 := ⟨text.length - 1, by omega⟩
  have enough : jsonTokensFrom n rest = jsonTokens rest :=
    jsonTokensFrom_enough (by omega) (Nat.le_refl _)
  rw [jsonTokens, size, jsonTokensFrom, next, ← enough]

theorem jsonTokens_of_blank {c : Char} {rest : List Char} (blank : isBlank c = true) :
    jsonTokens (c :: rest) = jsonTokens rest := by
  have skipped : nextJsonToken (c :: rest) = nextJsonToken rest := by rw [nextJsonToken, if_pos blank]
  cases next : nextJsonToken rest with
  | none =>
    have ended : ∀ n text, nextJsonToken text = none → jsonTokensFrom n text = [] := by
      intro n text none_
      cases n with
      | zero => rfl
      | succ n => rw [jsonTokensFrom, none_]
    rw [jsonTokens, ended _ _ (skipped.trans next), jsonTokens, ended _ _ next]
  | some found => rw [jsonTokens_of_next (skipped.trans next), jsonTokens_of_next next]

theorem jsonTokens_of_punctuation {c : Char} {token : JsonToken} (rest : List Char)
    (blank : isBlank c = false) (mark : punctuation c = some token) :
    jsonTokens (c :: rest) = token :: jsonTokens rest := by
  refine jsonTokens_of_next ?_
  rw [nextJsonToken, if_neg (by rw [blank]; decide), mark]

/-- A character as its escapes give it: two surrogates outside the basic plane. -/
private def escapePoints (c : Char) : CodePoints :=
  if c.toNat < 0x10000 then [c.toNat]
  else [0xd800 + (c.toNat - 0x10000) / 0x400, 0xdc00 + (c.toNat - 0x10000) % 0x400]

private theorem readEscapes_unicodeEscape {n : Nat} (small : n < 0x10000) (rest : List Char) :
    readEscapes (unicodeEscape n ++ rest) = (readEscapes rest).map (Prod.map ([n] ++ ·) id) := by
  obtain ⟨a, b, c, d, escaped, value⟩ := unicodeEscape_eq n
  rw [escaped]
  simp only [List.cons_append, List.nil_append, readEscapes, value, Nat.mod_eq_of_lt small,
    Option.bind_eq_bind, Option.bind_some]
  cases readEscapes rest <;> rfl

private theorem readEscapes_short {e : Char} {point : Nat} (known : shortEscape e = some point)
    (rest : List Char) :
    readEscapes ('\\' :: e :: rest) = (readEscapes rest).map (Prod.map ([point] ++ ·) id) := by
  have other : e ≠ 'u' := by
    rintro rfl
    cases known
  rw [readEscapes]
  · rw [known]
    cases readEscapes rest <;> rfl
  · rintro _ _ _ _ _ same
    exact fun _ => other same

private theorem readEscapes_plain {c : Char} (quote : c ≠ '\"') (backslash : c ≠ '\\')
    (printable : 0x20 ≤ c.toNat) (rest : List Char) :
    readEscapes (c :: rest) = (readEscapes rest).map (Prod.map ([c.toNat] ++ ·) id) := by
  rw [readEscapes]
  · rw [if_neg (by omega)]
    cases readEscapes rest <;> rfl
  · exact quote
  · rintro _ _ _ _ _ same _
    exact backslash same
  · rintro _ _ same _
    exact backslash same

private theorem readEscapes_jsonChar (c : Char) (rest : List Char) :
    readEscapes (jsonChar c ++ rest) =
      (readEscapes rest).map (Prod.map (escapePoints c ++ ·) id) := by
  unfold jsonChar
  split
  all_goals try exact readEscapes_short rfl rest
  next quote backslash _ _ _ _ _ =>
    split
    next printable =>
      simp only [isPrintable, Bool.and_eq_true, decide_eq_true_eq] at printable
      have low : c.toNat ≤ 126 := printable.2
      rw [escapePoints, if_pos (by omega)]
      exact readEscapes_plain quote backslash printable.1 rest
    · split
      next small =>
        rw [escapePoints, if_pos small]
        exact readEscapes_unicodeEscape small rest
      next large =>
        have bound := toNat_lt c
        rw [escapePoints, if_neg large]
        simp only
        rw [List.append_assoc, readEscapes_unicodeEscape (by omega),
          readEscapes_unicodeEscape (by omega), Option.map_map]
        rfl

/-- A character is never half of a pair. -/
private theorem not_surrogate (c : Char) :
    (isHighSurrogate c.toNat || isLowSurrogate c.toNat) = false := by
  have apart : c.toNat < 0xd800 ∨ 0xdfff < c.toNat := by
    rcases c.valid with low | high
    · exact Or.inl low
    · exact Or.inr high.1
  simp only [isHighSurrogate, isLowSurrogate, Bool.or_eq_false_iff, Bool.and_eq_false_imp,
    decide_eq_true_eq, decide_eq_false_iff_not]
  omega

private theorem joinSurrogates_cons {n : Nat} (other : isHighSurrogate n = false)
    (rest : CodePoints) : joinSurrogates (n :: rest) = n :: joinSurrogates rest := by
  cases rest with
  | nil => rfl
  | cons m rest => simp [joinSurrogates, other]

private theorem joinSurrogates_escapePoints (c : Char) (rest : CodePoints) :
    joinSurrogates (escapePoints c ++ rest) = c.toNat :: joinSurrogates rest := by
  have apart := not_surrogate c
  rw [Bool.or_eq_false_iff] at apart
  unfold escapePoints
  split
  · exact joinSurrogates_cons apart.1 rest
  next large =>
    have bound := toNat_lt c
    have paired : (isHighSurrogate (0xd800 + (c.toNat - 0x10000) / 0x400) &&
        isLowSurrogate (0xdc00 + (c.toNat - 0x10000) % 0x400)) = true := by
      simp only [isHighSurrogate, isLowSurrogate, Bool.and_eq_true, decide_eq_true_eq]
      omega
    simp only [List.cons_append, List.nil_append, joinSurrogates, paired, if_true,
      List.cons.injEq, and_true]
    omega

private theorem readEscapes_chars (cs rest : List Char) :
    readEscapes (cs.flatMap jsonChar ++ '\"' :: rest) = some (cs.flatMap escapePoints, rest) := by
  induction cs with
  | nil => rfl
  | cons c cs ih =>
    rw [List.flatMap_cons, List.append_assoc, readEscapes_jsonChar, ih]
    rfl

private theorem joinSurrogates_chars (cs : List Char) :
    joinSurrogates (cs.flatMap escapePoints) = cs.map Char.toNat := by
  induction cs with
  | nil => rfl
  | cons c cs ih => rw [List.flatMap_cons, joinSurrogates_escapePoints, ih, List.map_cons]

/-- A text of characters is read back as it was. -/
theorem readQuoted_chars (s : String) (rest : List Char) :
    readQuoted ((codePoints s).flatMap pointText ++ '\"' :: rest) = some (codePoints s, rest) := by
  have chars : (codePoints s).flatMap pointText = s.toList.flatMap jsonChar := by
    rw [codePoints, List.flatMap_map]
    refine List.flatMap_congr fun c _ => ?_
    rw [pointText, not_surrogate, Char.ofNat_toNat]
    rfl
  rw [chars, readQuoted, readEscapes_chars, Option.map_some]
  simp only [joinSurrogates_chars]
  rfl

/-- A text between quotes is one token. -/
private theorem jsonTokens_of_text {body rest : List Char} {points : CodePoints}
    (read : readQuoted (body ++ '\"' :: rest) = some (points, rest)) :
    jsonTokens ('\"' :: body ++ ['\"'] ++ rest) = .text points :: jsonTokens rest := by
  refine jsonTokens_of_next ?_
  have spelled : '\"' :: body ++ ['\"'] ++ rest = '\"' :: (body ++ '\"' :: rest) := by simp
  have mark : punctuation '\"' = none := rfl
  rw [spelled, nextJsonToken, if_neg (by decide), mark]
  simp only [read, if_true]

/-- A character as it is written without `ensure_ascii`. -/
def wideChar (c : Char) : List Char :=
  if c.toNat < 0x7f then jsonChar c else [c]

def wideQuoted (s : String) : List Char :=
  '\"' :: s.toList.flatMap wideChar ++ ['\"']

private theorem readEscapes_wideChar (c : Char) (rest : List Char) :
    readEscapes (wideChar c ++ rest) = (readEscapes rest).map (Prod.map ([c.toNat] ++ ·) id) := by
  unfold wideChar
  split
  next low =>
    have points : escapePoints c = [c.toNat] := if_pos (by omega)
    rw [readEscapes_jsonChar, points]
  next high =>
    have quote : c ≠ '\"' := by
      rintro rfl
      exact high (by decide)
    have backslash : c ≠ '\\' := by
      rintro rfl
      exact high (by decide)
    exact readEscapes_plain quote backslash (by omega) rest

private theorem readEscapes_wide (cs rest : List Char) :
    readEscapes (cs.flatMap wideChar ++ '\"' :: rest) = some (cs.map Char.toNat, rest) := by
  induction cs with
  | nil => rfl
  | cons c cs ih =>
    rw [List.flatMap_cons, List.append_assoc, readEscapes_wideChar, ih]
    rfl

private theorem joinSurrogates_toNat (cs : List Char) :
    joinSurrogates (cs.map Char.toNat) = cs.map Char.toNat := by
  induction cs with
  | nil => rfl
  | cons c cs ih =>
    have apart := not_surrogate c
    rw [Bool.or_eq_false_iff] at apart
    rw [List.map_cons, joinSurrogates_cons apart.1, ih]

theorem readQuoted_wide (s : String) (rest : List Char) :
    readQuoted (s.toList.flatMap wideChar ++ '\"' :: rest) = some (codePoints s, rest) := by
  rw [readQuoted, readEscapes_wide, Option.map_some]
  simp only [joinSurrogates_toNat]
  rfl

/-! ### Objects of texts -/

/-- How an object of texts is spelled. -/
structure TextStyle where
  quote : String → List Char
  /-- what stands behind a comma or a colon -/
  gap : List Char

/-- What is written in this style is read back. -/
structure TextStyle.Reads (style : TextStyle) : Prop where
  quote : ∀ s rest, jsonTokens (style.quote s ++ rest) = .text (codePoints s) :: jsonTokens rest
  gap : ∀ rest, jsonTokens (style.gap ++ rest) = jsonTokens rest

/-- `json.dumps` -/
def TextStyle.default : TextStyle := ⟨fun s => quoted (codePoints s), [' ']⟩

/-- `model_dump_json` -/
def TextStyle.wide : TextStyle := ⟨wideQuoted, []⟩

theorem TextStyle.reads_default : TextStyle.default.Reads where
  quote s rest := jsonTokens_of_text (readQuoted_chars s rest)
  gap _ := jsonTokens_of_blank rfl

theorem TextStyle.reads_wide : TextStyle.wide.Reads where
  quote s rest := jsonTokens_of_text (readQuoted_wide s rest)
  gap _ := rfl

/-- The object with these keys and texts. -/
def textObject (pairs : List (String × String)) : Json :=
  .object (pairs.map fun pair => (codePoints pair.1, .text (codePoints pair.2)))

private def memberText (style : TextStyle) (pair : String × String) : List Char :=
  style.quote pair.1 ++ (':' :: (style.gap ++ style.quote pair.2))

private def memberTokens (pair : String × String) : List JsonToken :=
  [.text (codePoints pair.1), .colon, .text (codePoints pair.2)]

/-- An object of texts, written in a style. -/
def objectText (style : TextStyle) (pairs : List (String × String)) : List Char :=
  '{' :: (',' :: style.gap).intercalate (pairs.map (memberText style)) ++ ['}']

/-- A character that no quoted text and no mark holds is not in an object. -/
theorem notMem_objectText {style : TextStyle} {c : Char} (quotes : ∀ s, c ∉ style.quote s)
    (gap : c ∉ style.gap) (marks : c ∉ ['{', '}', ':', ',']) (pairs : List (String × String)) :
    c ∉ objectText style pairs := by
  simp only [List.mem_cons, List.not_mem_nil, or_false, not_or] at marks
  obtain ⟨opening, closing, colon, comma⟩ := marks
  have member : ∀ pair : String × String, c ∉ memberText style pair := by
    intro pair
    simp [memberText, quotes, gap, colon]
  have members : c ∉ (',' :: style.gap).intercalate (pairs.map (memberText style)) := by
    induction pairs with
    | nil => simp
    | cons pair rest ih =>
      cases rest with
      | nil => simpa using member pair
      | cons next rest =>
        rw [List.map_cons, List.map_cons, List.intercalate_cons_cons, ← List.map_cons]
        simp only [List.mem_append, List.mem_cons, not_or]
        exact ⟨⟨member pair, comma, gap⟩, ih⟩
  simp [objectText, opening, closing, members]

section Styles

variable {style : TextStyle}

private theorem jsonTokens_memberText (reads : style.Reads) (pair : String × String)
    (rest : List Char) :
    jsonTokens (memberText style pair ++ rest) = memberTokens pair ++ jsonTokens rest := by
  rw [memberText, List.append_assoc, reads.quote, List.cons_append,
    jsonTokens_of_punctuation _ rfl rfl, List.append_assoc, reads.gap, reads.quote]
  rfl

private theorem jsonTokens_members (reads : style.Reads) (pair : String × String)
    (rest : List (String × String)) (tail : List Char) :
    jsonTokens ((',' :: style.gap).intercalate ((pair :: rest).map (memberText style)) ++ tail) =
      memberTokens pair ++ rest.flatMap (fun pair => JsonToken.comma :: memberTokens pair) ++
        jsonTokens tail := by
  induction rest generalizing pair with
  | nil => simp [jsonTokens_memberText reads]
  | cons next rest ih =>
    rw [List.map_cons, List.map_cons, List.intercalate_cons_cons, ← List.map_cons,
      List.append_assoc, List.append_assoc, jsonTokens_memberText reads, List.cons_append,
      jsonTokens_of_punctuation _ rfl rfl, reads.gap, ih]
    simp

private theorem readTokens_append (left right : List JsonToken) (r : Reading) :
    readTokens rejectConstant (left ++ right) r =
      (readTokens rejectConstant left r).bind (readTokens rejectConstant right) := by
  induction left generalizing r with
  | nil => rfl
  | cons token rest ih =>
    rw [List.cons_append, readTokens, readTokens]
    cases readToken rejectConstant r token with
    | none => rfl
    | some next => exact ih next

private theorem setItem_fresh {members : List (CodePoints × Json)} {key : CodePoints} (value : Json)
    (fresh : ∀ member ∈ members, member.1 ≠ key) :
    setItem members key value = members ++ [(key, value)] := by
  refine if_neg ?_
  simpa using fun value inside => fresh (key, value) inside rfl

private theorem readTokens_members {below : List Frame} (pairs : List (String × String))
    (members : List (CodePoints × Json)) (key : CodePoints)
    (distinct : (members.map (·.1) ++ pairs.map fun pair => codePoints pair.1).Nodup) :
    ∃ last, readTokens rejectConstant (pairs.flatMap fun pair => JsonToken.comma :: memberTokens pair)
      (.within .delimiter (.object members key :: below)) =
      some (.within .delimiter (.object (members ++ pairs.map fun pair =>
        (codePoints pair.1, .text (codePoints pair.2))) last :: below)) := by
  induction pairs generalizing members key with
  | nil => exact ⟨key, by simp [readTokens]⟩
  | cons pair rest ih =>
    have fresh : ∀ member ∈ members, member.1 ≠ codePoints pair.1 := by
      intro member inside same
      rw [List.nodup_append] at distinct
      exact distinct.2.2 _ (List.mem_map_of_mem inside) _ (List.mem_cons_self ..) same
    have step : readTokens rejectConstant (JsonToken.comma :: memberTokens pair)
        (.within .delimiter (.object members key :: below)) =
        some (.within .delimiter (.object (members ++ [(codePoints pair.1,
          .text (codePoints pair.2))]) (codePoints pair.1) :: below)) := by
      simp [memberTokens, readTokens, readToken, afterComma, startMember, startValue, deliver,
        setItem_fresh _ fresh]
    obtain ⟨last, others⟩ := ih (members ++ [(codePoints pair.1, .text (codePoints pair.2))])
      (codePoints pair.1) (by simpa using distinct)
    refine ⟨last, ?_⟩
    rw [List.flatMap_cons, readTokens_append, step, Option.bind_some, others]
    simp

/-- An object of texts is read back as it was written. -/
theorem readJson_objectText (reads : style.Reads) (pairs : List (String × String))
    (distinct : (pairs.map (·.1)).Nodup) :
    readJson (objectText style pairs) = some (textObject pairs) := by
  have injective : Function.Injective codePoints := by
    intro a b same
    exact String.toList_inj.mp (List.map_injective_iff.mpr (fun _ _ => Char.toNat_inj.mp) same)
  have keys : (pairs.map fun pair => codePoints pair.1).Nodup := by
    have mapped := distinct.map injective
    rwa [List.map_map] at mapped
  unfold readJson readJsonWith objectText
  cases pairs with
  | nil => rfl
  | cons pair rest =>
    obtain ⟨last, others⟩ := @readTokens_members [] rest
      [(codePoints pair.1, .text (codePoints pair.2))] (codePoints pair.1) (by simpa using keys)
    rw [List.cons_append, jsonTokens_of_punctuation _ rfl rfl, jsonTokens_members reads,
      jsonTokens_of_punctuation _ rfl rfl, jsonTokens_nil]
    have first : ∀ ts, readTokens rejectConstant (.enter .curly :: (memberTokens pair ++ ts))
        (.within .value []) = readTokens rejectConstant ts (.within .delimiter
          [.object [(codePoints pair.1, .text (codePoints pair.2))] (codePoints pair.1)]) := by
      intro ts
      simp [memberTokens, readTokens, readToken, startMember, startValue, deliver, setItem]
    rw [List.append_assoc, first, readTokens_append, others]
    simp [readTokens, readToken, leave, deliver, textObject]

end Styles

end MegooPM.Lib
