import MegooPM.Lib.ConfTree

/-!
# The tokens of a configuration file

The lexical rules of the configuration language. Words are split by blanks and end
at `;`, `{` or `}`; a word that begins with a quote ends at the same quote; a
backslash takes the next character as it is; `#` where a word could begin opens a
comment to the end of the line. A token keeps its text as it stands in the file.

The tokens of a printed tree are compared with the tree itself: they agree exactly
when every word is one argument and no comment spans a line end.
-/
namespace MegooPM.Lib

inductive Token where
  | word (text : List Char)
  | comment (text : List Char)
  | semicolon
  | opens
  | closes
  /-- A character that cannot follow a quoted word, or the end of the file inside a word. -/
  | error
  deriving DecidableEq, Repr

/-! ### Reading -/

/-- Where the reader stands. The text read of an unfinished token is kept. -/
inductive LexState where
  | between
  | inWord (text : List Char) (escaped : Bool)
  | inQuotes (quote : Char) (text : List Char) (escaped : Bool)
  /-- The closing quote was read; a delimiter has to follow. -/
  | closed (text : List Char)
  | inComment (text : List Char)
  | failed
  deriving DecidableEq, Repr

/-- What a character that ends a word stands for: nothing for a blank. -/
def delimiter? (c : Char) : Option (List Token) :=
  if c = ' ' ∨ c = '\t' ∨ c = '\r' ∨ c = '\n' then some []
  else if c = ';' then some [.semicolon]
  else if c = '\x7b' then some [.opens]
  else if c = '\x7d' then some [.closes]
  else none

namespace LexState

/-- One character: the tokens it completes, and the state after it. -/
def step : LexState → Char → List Token × LexState
  | .between, c =>
    match delimiter? c with
    | some tokens => (tokens, .between)
    | none =>
      if c = '#' then ([], .inComment [])
      else if c = '"' ∨ c = '\'' then ([], .inQuotes c [c] false)
      else ([], .inWord [c] (c = '\\'))
  | .inWord text true, c => ([], .inWord (text ++ [c]) false)
  | .inWord text false, c =>
    match delimiter? c with
    | some tokens => (.word text :: tokens, .between)
    | none => ([], .inWord (text ++ [c]) (c = '\\'))
  | .inQuotes quote text true, c => ([], .inQuotes quote (text ++ [c]) false)
  | .inQuotes quote text false, c =>
    if c = quote then ([], .closed (text ++ [c]))
    else ([], .inQuotes quote (text ++ [c]) (c = '\\'))
  | .closed text, c =>
    match delimiter? c with
    | some tokens => (.word text :: tokens, .between)
    | none =>
      -- a condition in brackets may close right behind its last string
      if c = ')' then ([.word text], .inWord [c] false) else ([.word text, .error], .failed)
  | .inComment text, c =>
    if c = '\n' then ([.comment text], .between) else ([], .inComment (text ++ [c]))
  | .failed, _ => ([], .failed)

/-- The end of the file. -/
def finish : LexState → List Token
  | .between | .failed => []
  | .inComment text => [.comment text]
  | .inWord _ _ | .inQuotes _ _ _ | .closed _ => [.error]

/-- The state and the tokens after a stretch of text. -/
def run : LexState → List Char → List Token × LexState
  | s, [] => ([], s)
  | s, c :: rest =>
    let next := run (s.step c).2 rest
    ((s.step c).1 ++ next.1, next.2)

/-- The tokens of a text that ends the file. -/
def tokens (s : LexState) (text : List Char) : List Token :=
  (s.run text).1 ++ (s.run text).2.finish

end LexState

/-- The tokens of a file. -/
def lex (text : String) : List Token :=
  LexState.between.tokens text.toList

namespace LexState

theorem run_append (s : LexState) (left right : List Char) :
    s.run (left ++ right) =
      ((s.run left).1 ++ ((s.run left).2.run right).1, ((s.run left).2.run right).2) := by
  induction left generalizing s with
  | nil => simp [run]
  | cons c rest ih => simp [run, ih, List.append_assoc]

theorem tokens_append (s : LexState) (left right : List Char) :
    s.tokens (left ++ right) = (s.run left).1 ++ (s.run left).2.tokens right := by
  simp only [tokens, run_append, List.append_assoc]

theorem tokens_cons (s : LexState) (c : Char) (rest : List Char) :
    s.tokens (c :: rest) = (s.step c).1 ++ (s.step c).2.tokens rest := by
  simp only [tokens, run, List.append_assoc]

/-- Reading more from a state that a text leads to. -/
theorem run_snoc {s s' : LexState} {text : List Char} {read : List Token} (c : Char)
    (ran : s.run text = (read, s')) :
    s.run (text ++ [c]) = (read ++ (s'.step c).1, (s'.step c).2) := by
  simp only [run_append, ran, run, List.append_nil]

/-! ### Words -/

/-- The word that a delimiter would complete. -/
def pending : LexState → Option (List Char)
  | .inWord text false | .closed text => some text
  | _ => none

theorem step_delimiter {s : LexState} {text : List Char} {d : Char} {after : List Token}
    (waiting : s.pending = some text) (ends : delimiter? d = some after) :
    s.step d = (.word text :: after, .between) := by
  cases s with
  | inWord read escaped =>
    cases escaped with
    | true => cases waiting
    | false =>
      cases waiting
      simp only [step, ends]
  | closed read =>
    cases waiting
    simp only [step, ends]
  | _ => cases waiting

end LexState

/-- The text is read as one word: what follows it decides nothing. -/
def OneWord (text : List Char) : Prop :=
  (LexState.between.run text).1 = [] ∧ (LexState.between.run text).2.pending = some text

instance (text : List Char) : Decidable (OneWord text) :=
  inferInstanceAs (Decidable (_ ∧ _))

namespace LexState

/-- The state is reached by reading the text it keeps. -/
private def Reached (s : LexState) : Prop :=
  match s with
  | .inWord text _ | .inQuotes _ text _ | .closed text => between.run text = ([], s)
  | _ => True

private theorem reached_step {s s' : LexState} {text : List Char} {c : Char}
    (ran : between.run text = ([], s)) (quiet : s.step c = ([], s')) :
    between.run (text ++ [c]) = ([], s') := by
  rw [run_snoc c ran, quiet]
  rfl

/-- A delimiter completes no word where none has begun. -/
private theorem delimiter_first {c : Char} {after : List Token} (ends : delimiter? c = some after) :
    ∀ text rest, after ≠ .word text :: rest := by
  intro text rest same
  unfold delimiter? at ends
  repeat' split at ends
  all_goals
    cases ends
    try cases same

/-- The first word read, from wherever its beginning was reached, is one word. -/
private theorem oneWord_of_first (s : LexState) (text : List Char) (reached : s.Reached)
    {word : List Char} {more : List Token} (first : s.tokens text = .word word :: more) :
    OneWord word := by
  induction text generalizing s with
  | nil =>
    cases s <;> simp [tokens, run, finish] at first
  | cons c rest ih =>
    rw [tokens_cons] at first
    -- a state that completes nothing hands its text on to the next one
    have quietly : ∀ s' : LexState, s.step c = ([], s') → s'.Reached → OneWord word := by
      intro s' stepped reached'
      rw [stepped] at first
      exact ih s' reached' first
    have ended : ∀ text, s.pending = some text → between.run text = ([], s) →
        (s.step c).1.head? = some (.word text) → OneWord word := by
      intro text waiting ran emitted
      obtain ⟨tail, split⟩ := List.head?_eq_some_iff.mp emitted
      rw [split] at first
      cases (List.cons.inj first).1
      exact ⟨by rw [ran], by rw [ran]; exact waiting⟩
    cases s with
    | between =>
      cases ends : delimiter? c with
      | some after =>
        have stepped : between.step c = (after, .between) := by simp only [step, ends]
        cases after with
        | nil => exact quietly _ stepped trivial
        | cons token others =>
          rw [stepped] at first
          exact absurd (congrArg (· :: others) (List.cons.inj first).1)
            (delimiter_first ends word others)
      | none =>
        have begins : between.step c = if c = '#' then ([], .inComment [])
            else if c = '"' ∨ c = '\'' then ([], .inQuotes c [c] false)
            else ([], .inWord [c] (c = '\\')) := by simp only [step, ends]
        by_cases sharp : c = '#'
        · exact quietly (.inComment []) (by rw [begins, if_pos sharp]) trivial
        · by_cases quote : c = '"' ∨ c = '\''
          · rw [if_neg sharp, if_pos quote] at begins
            exact quietly _ begins (by simp [Reached, run, begins])
          · rw [if_neg sharp, if_neg quote] at begins
            exact quietly _ begins (by simp [Reached, run, begins])
    | inWord read escaped =>
      have ran : between.run read = ([], .inWord read escaped) := reached
      cases escaped with
      | true => exact quietly _ rfl (reached_step ran rfl)
      | false =>
        cases ends : delimiter? c with
        | some after => exact ended read rfl ran (by simp [step, ends])
        | none =>
          have stepped : (inWord read false).step c = ([], .inWord (read ++ [c]) (c = '\\')) := by
            simp only [step, ends]
          exact quietly _ stepped (reached_step ran stepped)
    | inQuotes quote read escaped =>
      have ran : between.run read = ([], .inQuotes quote read escaped) := reached
      cases escaped with
      | true => exact quietly _ rfl (reached_step ran rfl)
      | false =>
        by_cases closing : c = quote
        · have stepped : (inQuotes quote read false).step c = ([], .closed (read ++ [c])) := by
            simp only [step, if_pos closing]
          exact quietly _ stepped (reached_step ran stepped)
        · have stepped : (inQuotes quote read false).step c =
              ([], .inQuotes quote (read ++ [c]) (c = '\\')) := by
            simp only [step, if_neg closing]
          exact quietly _ stepped (reached_step ran stepped)
    | closed read =>
      have ran : between.run read = ([], .closed read) := reached
      refine ended read rfl ran ?_
      cases ends : delimiter? c with
      | some after => simp [step, ends]
      | none =>
        simp only [step, ends]
        split <;> rfl
    | inComment read =>
      by_cases line : c = '\n'
      · have stepped : (inComment read).step c = ([.comment read], .between) := by
          simp only [step, if_pos line]
        rw [stepped] at first
        cases (List.cons.inj first).1
      · exact quietly (.inComment (read ++ [c])) (by simp only [step, if_neg line]) trivial
    | failed => exact quietly .failed rfl trivial

end LexState

/-- The first token of a text, when it is a word, is read as that word wherever it stands. -/
theorem oneWord_of_tokens {text word : List Char} {more : List Token}
    (first : LexState.between.tokens text = .word word :: more) : OneWord word :=
  LexState.oneWord_of_first .between text trivial first

/-! ### Arguments -/

/-- The arguments a printed word stands for: a bracket right behind a string is one of
its own. -/
def argumentTokens (word : List Char) : List Token :=
  if word.head? = some '"' ∧ word.getLast? = some ')' then
    [.word word.dropLast, .word [')']]
  else [.word word]

/-- The word is read as the arguments it stands for. -/
def IsArgument (word : String) : Prop :=
  (LexState.between.run word.toList).2.pending.map
    (fun last => (LexState.between.run word.toList).1 ++ [.word last]) =
  some (argumentTokens word.toList)

instance (word : String) : Decidable (IsArgument word) :=
  inferInstanceAs (Decidable (_ = _))

theorem isArgument_of_oneWord {word : String} (one : OneWord word.toList)
    (single : argumentTokens word.toList = [.word word.toList]) : IsArgument word := by
  rw [IsArgument, one.1, one.2, single]
  rfl

namespace LexState

/-- Inside a quoted word, or right behind it. -/
private def Quoting (q : Char) : LexState → Prop
  | .inQuotes quote _ _ => quote = q
  | .closed text => text.getLast? = some q
  | _ => False

/-- A quoted word is left only by completing it. -/
private theorem quoting_run {q : Char} {s : LexState} {text : List Char} (inside : s.Quoting q)
    (quiet : (s.run text).1 = []) : (s.run text).2.Quoting q := by
  induction text generalizing s with
  | nil => exact inside
  | cons c rest ih =>
    simp only [run, List.append_eq_nil_iff] at quiet ⊢
    refine ih ?_ quiet.2
    have nothing := quiet.1
    cases s with
    | inQuotes quote read escaped =>
      have same : quote = q := inside
      cases escaped with
      | true => exact same
      | false =>
        simp only [step]
        split
        next closing => simp [Quoting, closing, same]
        next => exact same
    | closed read =>
      simp only [step] at nothing
      split at nothing
      · cases nothing
      · split at nothing <;> cases nothing
    | _ => cases inside

private theorem closed_of_pending {q : Char} {s : LexState} {text : List Char}
    (inside : s.Quoting q) (waiting : s.pending = some text) :
    s = .closed text ∧ text.getLast? = some q := by
  cases s with
  | closed read =>
    cases waiting
    exact ⟨rfl, inside⟩
  | inQuotes quote read escaped => cases waiting
  | _ => cases inside

end LexState

/-- A quoted string and the bracket behind it. -/
private theorem isArgument_bracket {string : List Char} (one : OneWord string)
    (quoted : string.head? = some '"') {word : String} (whole : word.toList = string ++ [')'])
    (two : argumentTokens word.toList = [.word string, .word [')']]) : IsArgument word := by
  obtain ⟨inner, rfl⟩ := List.head?_eq_some_iff.mp quoted
  have inside : (LexState.between.run ('"' :: inner)).2.Quoting '"' :=
    LexState.quoting_run (s := .inQuotes '"' ['"'] false) rfl one.1
  have ran : LexState.between.run ('"' :: inner) = ([], .closed ('"' :: inner)) :=
    Prod.ext one.1 (LexState.closed_of_pending inside one.2).1
  rw [IsArgument, two, whole, LexState.run_snoc ')' ran]
  rfl

/-- A word in front of a delimiter gives the tokens it stands for exactly when it is an
argument, and then the delimiter is read on its own. -/
theorem tokens_word_iff (word : String) {d : Char} {after : List Token}
    (ends : delimiter? d = some after) (rest : List Char) (more : List Token) :
    LexState.between.tokens (word.toList ++ d :: rest) =
        argumentTokens word.toList ++ (after ++ more) ↔
      IsArgument word ∧ LexState.between.tokens rest = more := by
  have reads : IsArgument word → LexState.between.tokens (word.toList ++ d :: rest) =
      argumentTokens word.toList ++ (after ++ LexState.between.tokens rest) := by
    intro argument
    obtain ⟨last, waiting, listed⟩ := Option.map_eq_some_iff.mp argument
    rw [LexState.tokens_append, LexState.tokens_cons, LexState.step_delimiter waiting ends,
      ← listed]
    simp only [List.append_assoc, List.cons_append, List.nil_append]
  constructor
  · intro same
    have argument : IsArgument word := by
      by_cases two : word.toList.head? = some '"' ∧ word.toList.getLast? = some ')'
      · have listed : argumentTokens word.toList = [.word word.toList.dropLast, .word [')']] :=
          if_pos two
        rw [listed] at same
        have one := oneWord_of_tokens same
        have whole : word.toList = word.toList.dropLast ++ [')'] := by
          obtain ⟨front, split⟩ := List.getLast?_eq_some_iff.mp two.2
          rw [split, List.dropLast_concat]
        refine isArgument_bracket one ?_ whole listed
        -- the string is not empty, so it begins where the word does
        cases string : word.toList.dropLast with
        | nil =>
          rw [string] at one
          cases one.2
        | cons first others =>
          rw [whole, string] at two
          exact two.1
      · have listed : argumentTokens word.toList = [.word word.toList] := if_neg two
        rw [listed] at same
        exact isArgument_of_oneWord (oneWord_of_tokens same) listed
    rw [reads argument] at same
    exact ⟨argument, List.append_cancel_left (List.append_cancel_left same)⟩
  · rintro ⟨argument, rfl⟩
    exact reads argument

/-! ### Comments and blanks -/

private theorem tokens_inComment_iff (read text rest : List Char) (more : List Token) :
    (LexState.inComment read).tokens (text ++ '\n' :: rest) = .comment (read ++ text) :: more ↔
      '\n' ∉ text ∧ LexState.between.tokens rest = more := by
  induction text generalizing read with
  | nil => simp [LexState.tokens_cons, LexState.step]
  | cons c others ih =>
    rw [List.cons_append, LexState.tokens_cons]
    by_cases line : c = '\n'
    · -- the comment ends too early
      simp [LexState.step, line]
    · have split : read ++ c :: others = (read ++ [c]) ++ others := by simp
      simp only [LexState.step, if_neg line, List.nil_append, split, ih, List.mem_cons, not_or]
      exact ⟨fun ⟨clean, same⟩ => ⟨⟨fun equal => line equal.symm, clean⟩, same⟩,
        fun ⟨clean, same⟩ => ⟨clean.2, same⟩⟩

/-- A comment in front of a line end is read whole exactly when it is on one line. -/
theorem tokens_comment_iff (text rest : List Char) (more : List Token) :
    LexState.between.tokens ('#' :: (text ++ '\n' :: rest)) = .comment text :: more ↔
      '\n' ∉ text ∧ LexState.between.tokens rest = more :=
  tokens_inComment_iff [] text rest more

/-- White space in front of a token. -/
def Blank (lead : String) : Prop :=
  ∀ c ∈ lead.toList, c = ' ' ∨ c = '\n'

instance (lead : String) : Decidable (Blank lead) :=
  List.decidableBAll (fun c => c = ' ' ∨ c = '\n') lead.toList

theorem tokens_blank {lead : String} (blank : Blank lead) (rest : List Char) :
    LexState.between.tokens (lead.toList ++ rest) = LexState.between.tokens rest := by
  unfold Blank at blank
  generalize lead.toList = chars at blank
  induction chars with
  | nil => rfl
  | cons c others ih =>
    simp only [List.forall_mem_cons] at blank
    have quiet : LexState.between.step c = ([], .between) := by
      rcases blank.1 with rfl | rfl <;> rfl
    rw [List.cons_append, LexState.tokens_cons, quiet]
    exact ih blank.2

/-! ### Values inside words -/

/-- Looks for a character that `stops` and is not behind a backslash. Otherwise the
answer tells whether the text ends in an open backslash. -/
def scan (stops : Char → Bool) : Bool → List Char → Option Bool
  | escaped, [] => some escaped
  | true, _ :: rest => scan stops false rest
  | false, c :: rest => if stops c then none else scan stops (c = '\\') rest

theorem scan_append (stops : Char → Bool) (escaped : Bool) (left right : List Char) :
    scan stops escaped (left ++ right) =
      (scan stops escaped left).bind fun e => scan stops e right := by
  induction left generalizing escaped with
  | nil => simp only [List.nil_append, scan, Option.bind_some]
  | cons c rest ih =>
    cases escaped with
    | true => simp only [List.cons_append, scan, ih]
    | false =>
      simp only [List.cons_append, scan, ih]
      split <;> rfl

/-- The character ends a word. -/
def endsWord (c : Char) : Bool :=
  (delimiter? c).isSome

/-- Every character of the value that ends a word stands behind a backslash. -/
def Unbroken (value : String) : Prop :=
  (scan endsWord false value.toList).isSome = true

/-- Moreover the value takes nothing that follows it into the word. -/
def Complete (value : String) : Prop :=
  scan endsWord false value.toList = some false

/-- The value fits between double quotes. -/
def Quotable (value : String) : Prop :=
  scan (· = '"') false value.toList = some false

instance (value : String) : Decidable (Unbroken value) :=
  inferInstanceAs (Decidable (_ = _))

instance (value : String) : Decidable (Complete value) :=
  inferInstanceAs (Decidable (_ = _))

instance (value : String) : Decidable (Quotable value) :=
  inferInstanceAs (Decidable (_ = _))

namespace LexState

/-- A word goes on up to the first character that ends it. -/
theorem run_inWord (read text : List Char) (escaped : Bool) :
    (∀ e, scan endsWord escaped text = some e →
      (inWord read escaped).run text = ([], inWord (read ++ text) e)) ∧
    (scan endsWord escaped text = none → ((inWord read escaped).run text).1 ≠ []) := by
  induction text generalizing read escaped with
  | nil => simp [scan, run]
  | cons c rest ih =>
    have split : read ++ c :: rest = (read ++ [c]) ++ rest := by simp
    cases escaped with
    | true =>
      simp only [scan, run, step, List.nil_append, split]
      exact ih (read ++ [c]) false
    | false =>
      cases ends : delimiter? c with
      | some after => simp [scan, endsWord, ends, run, step]
      | none =>
        have goes : endsWord c = false := by simp [endsWord, ends]
        simp only [scan, goes, run, step, ends, List.nil_append, split]
        exact ih (read ++ [c]) (c = '\\')

private theorem run_inQuotes (read text : List Char) (escaped : Bool) :
    (∀ e, scan (· = '"') escaped text = some e →
      (inQuotes '"' read escaped).run text = ([], inQuotes '"' (read ++ text) e)) ∧
    (scan (· = '"') escaped text = none → ∀ c,
      ((inQuotes '"' read escaped).run (text ++ [c])).1 ≠ []) := by
  induction text generalizing read escaped with
  | nil => simp [scan, run]
  | cons c rest ih =>
    have split : read ++ c :: rest = (read ++ [c]) ++ rest := by simp
    cases escaped with
    | true =>
      simp only [scan, run, step, List.nil_append, List.cons_append, split]
      exact ih (read ++ [c]) false
    | false =>
      by_cases quote : c = '"'
      · -- whatever follows the closing quote completes the word
        have completes : ∀ text more, text ≠ [] → ((closed more).run text).1 ≠ [] := by
          intro text more some
          obtain ⟨d, others, rfl⟩ := List.exists_cons_of_ne_nil some
          cases ends : delimiter? d with
          | some after => simp [run, step, ends]
          | none =>
            simp only [run, step, ends]
            split_ifs <;> simp
        simp only [scan, quote, decide_true, if_true, run, step, List.nil_append, List.cons_append,
          reduceCtorEq, false_implies, implies_true, true_and, forall_const]
        exact fun d => completes _ _ (by simp)
      · simp only [scan, quote, decide_false, if_false, run, step, List.nil_append,
          List.cons_append, split, Bool.false_eq_true]
        exact ih (read ++ [c]) (c = '\\')

end LexState

namespace LexState

/-- What is kept of a word begins with neither a delimiter nor a comment sign. -/
private def Fresh : LexState → Prop
  | .inWord text _ | .inQuotes _ text _ | .closed text =>
    ∃ c rest, text = c :: rest ∧ delimiter? c = none ∧ c ≠ '#'
  | _ => True

private theorem fresh_step {s : LexState} (fresh : s.Fresh) (c : Char) : (s.step c).2.Fresh := by
  -- a word that has begun keeps its first character
  have longer : ∀ text : List Char, (∃ d rest, text = d :: rest ∧ delimiter? d = none ∧ d ≠ '#') →
      ∃ d rest, text ++ [c] = d :: rest ∧ delimiter? d = none ∧ d ≠ '#' := by
    rintro text ⟨d, rest, rfl, plain⟩
    exact ⟨d, rest ++ [c], rfl, plain⟩
  cases s with
  | between =>
    cases ends : delimiter? c with
    | some after => simp [step, ends, Fresh]
    | none =>
      simp only [step, ends]
      split_ifs with sharp quote
      · trivial
      · exact ⟨c, [], rfl, ends, sharp⟩
      · exact ⟨c, [], rfl, ends, sharp⟩
  | inWord text escaped =>
    cases escaped with
    | true => exact longer text fresh
    | false =>
      simp only [step]
      split
      · trivial
      · exact longer text fresh
  | inQuotes quote text escaped =>
    cases escaped with
    | true => exact longer text fresh
    | false =>
      simp only [step]
      split
      · exact longer text fresh
      · exact longer text fresh
  | closed text =>
    simp only [step]
    split
    · trivial
    · split
      next bracket =>
        subst bracket
        exact ⟨')', [], rfl, rfl, by decide⟩
      next => trivial
  | inComment text =>
    simp only [step]
    split <;> trivial
  | failed => trivial

private theorem fresh_run {s : LexState} (fresh : s.Fresh) (text : List Char) :
    (s.run text).2.Fresh := by
  induction text generalizing s with
  | nil => exact fresh
  | cons c rest ih => exact ih (fresh_step fresh c)

end LexState

private theorem oneWord_head {c : Char} {rest : List Char} (one : OneWord (c :: rest)) :
    delimiter? c = none ∧ c ≠ '#' := by
  have fresh := LexState.fresh_run (s := .between) trivial (c :: rest)
  have waiting := one.2
  cases state : (LexState.between.run (c :: rest)).2 with
  | inWord text escaped =>
    rw [state] at fresh waiting
    cases escaped with
    | true => cases waiting
    | false =>
      cases waiting
      obtain ⟨d, others, same, plain⟩ := fresh
      cases same
      exact plain
  | closed text =>
    rw [state] at fresh waiting
    cases waiting
    obtain ⟨d, others, same, plain⟩ := fresh
    cases same
    exact plain
  | _ =>
    rw [state] at waiting
    cases waiting

/-- A word that stands for one argument is one only if it is read whole. -/
private theorem isArgument_single {word : String}
    (single : argumentTokens word.toList = [.word word.toList]) :
    IsArgument word ↔ OneWord word.toList := by
  constructor
  · intro argument
    obtain ⟨last, waiting, listed⟩ := Option.map_eq_some_iff.mp argument
    rw [single] at listed
    have front : (LexState.between.run word.toList).1 = [] := by
      have lengths := congrArg List.length listed
      simp only [List.length_append, List.length_singleton] at lengths
      exact List.length_eq_zero_iff.mp (by omega)
    rw [front] at listed
    cases listed
    exact ⟨front, waiting⟩
  · exact fun one => isArgument_of_oneWord one single

/-- A plain beginning: the rest of the word decides. -/
theorem isArgument_iff_complete {word : String} {c : Char} {rest : List Char}
    (whole : word.toList = c :: rest) (sharp : c ≠ '#') (double : c ≠ '"') (single : c ≠ '\'') :
    IsArgument word ↔ Complete word := by
  have one : argumentTokens word.toList = [.word word.toList] := by
    refine if_neg fun both => double ?_
    rw [whole] at both
    simpa using both.1
  rw [isArgument_single one, Complete, whole]
  cases ends : delimiter? c with
  | some after =>
    have stops : endsWord c = true := by simp [endsWord, ends]
    simp only [scan, stops, if_true, reduceCtorEq, iff_false]
    intro read
    rw [(oneWord_head read).1] at ends
    cases ends
  | none =>
    rw [OneWord]
    have begins : LexState.between.step c = ([], .inWord [c] (c = '\\')) := by
      simp only [LexState.step, ends, if_neg sharp, double, single, or_self, if_false]
    have goes : endsWord c = false := by simp [endsWord, ends]
    obtain ⟨reads, breaks⟩ := LexState.run_inWord [c] rest (c = '\\')
    simp only [LexState.run, begins, List.nil_append, scan, goes]
    cases scanned : scan endsWord (c = '\\') rest with
    | none => simpa using fun quiet => absurd quiet (breaks scanned)
    | some escaped =>
      rw [reads escaped scanned]
      cases escaped <;> simp [LexState.pending]

/-- The word does not begin a comment or a string. -/
def Begins (word : String) : Prop :=
  ∀ c, word.toList.head? = some c → c ≠ '#' ∧ c ≠ '"' ∧ c ≠ '\''

instance (word : String) : Decidable (Begins word) :=
  match first : word.toList.head? with
  | none => .isTrue fun c found => by rw [first] at found; cases found
  | some c => decidable_of_iff (c ≠ '#' ∧ c ≠ '"' ∧ c ≠ '\'') (by simp [Begins, first])

/-- A word that ends neither in a quote nor in a bracket. -/
theorem isArgument_iff {word : String} {last : Char} (ends : word.toList.getLast? = some last)
    (double : last ≠ '"') (single : last ≠ '\'') (bracket : last ≠ ')') :
    IsArgument word ↔ Begins word ∧ Complete word := by
  obtain ⟨c, rest, whole⟩ : ∃ c rest, word.toList = c :: rest := by
    refine List.exists_cons_of_ne_nil fun empty => ?_
    rw [empty] at ends
    cases ends
  have one : argumentTokens word.toList = [.word word.toList] := by
    refine if_neg fun both => bracket ?_
    rw [ends] at both
    simpa using both.2
  by_cases plain : c ≠ '#' ∧ c ≠ '"' ∧ c ≠ '\''
  · have begins : Begins word := by
      intro first found
      rw [whole] at found
      cases found
      exact plain
    rw [isArgument_iff_complete whole plain.1 plain.2.1 plain.2.2]
    exact ⟨fun complete => ⟨begins, complete⟩, fun both => both.2⟩
  · have refused : ¬Begins word := fun begins => plain (begins c (by rw [whole]; rfl))
    refine ⟨fun argument => ?_, fun both => absurd both.1 refused⟩
    have read := (isArgument_single one).mp argument
    rw [whole] at read
    -- a comment completes no word, a string would end in its quote
    have string : (c = '"' ∨ c = '\'') → False := by
      intro quote
      have begins : LexState.between.step c = ([], .inQuotes c [c] false) := by
        rcases quote with rfl | rfl <;> rfl
      have state : (LexState.between.run (c :: rest)).2.Quoting c := by
        have quiet := read.1
        simp only [LexState.run, begins, List.nil_append] at quiet ⊢
        exact LexState.quoting_run (s := .inQuotes c [c] false) rfl quiet
      have shut := (LexState.closed_of_pending state read.2).2
      rw [← whole, ends] at shut
      cases shut
      exact quote.elim double single
    refine (string ?_).elim
    by_contra neither
    exact plain ⟨(oneWord_head read).2, fun h => neither (Or.inl h), fun h => neither (Or.inr h)⟩

/-- A value between double quotes. -/
theorem isArgument_quoted_iff (value : String) :
    IsArgument ("\"" ++ value ++ "\"") ↔ Quotable value := by
  have whole : ("\"" ++ value ++ "\"" : String).toList = '"' :: (value.toList ++ ['"']) := by
    simp [String.toList_append]
  have one : argumentTokens ("\"" ++ value ++ "\"" : String).toList =
      [.word ("\"" ++ value ++ "\"" : String).toList] := by
    refine if_neg fun both => ?_
    rw [whole] at both
    have last := both.2
    rw [← List.cons_append, List.getLast?_concat] at last
    cases last
  rw [isArgument_single one, OneWord, Quotable, whole]
  obtain ⟨reads, breaks⟩ := LexState.run_inQuotes ['"'] value.toList false
  have begins : LexState.between.step '"' = ([], .inQuotes '"' ['"'] false) := rfl
  simp only [LexState.run, begins, List.nil_append]
  cases scanned : scan (· = '"') false value.toList with
  | none => simpa using fun quiet => absurd quiet (breaks scanned '"')
  | some escaped =>
    rw [LexState.run_append, reads escaped scanned]
    cases escaped <;> simp [LexState.run, LexState.step, LexState.pending]

/-! ### Plain text -/

/-- The character means nothing to the reader. -/
def plainChar (c : Char) : Bool :=
  !endsWord c && c ≠ '#' && c ≠ '"' && c ≠ '\'' && c ≠ '\\'

def PlainText (text : String) : Prop :=
  ∀ c ∈ text.toList, plainChar c = true

instance (text : String) : Decidable (PlainText text) :=
  List.decidableBAll (fun c => plainChar c = true) text.toList

@[simp] theorem plainText_append (left right : String) :
    PlainText (left ++ right) ↔ PlainText left ∧ PlainText right := by
  simp only [PlainText, String.toList_append, List.forall_mem_append]

theorem plainText_repr (n : Nat) : PlainText n.repr := by
  intro c member
  rw [Nat.toList_repr] at member
  have digit := Nat.isDigit_of_mem_toDigits (by decide) (by decide) member
  -- a digit is none of the characters the reader knows
  have apart : ∀ d : Char, d.isDigit = false → c ≠ d := by
    rintro d other rfl
    rw [digit] at other
    cases other
  have goes : endsWord c = false := by
    simp [endsWord, delimiter?, apart ' ' (by decide), apart '\t' (by decide),
      apart '\r' (by decide), apart '\n' (by decide), apart ';' (by decide),
      apart '\x7b' (by decide), apart '\x7d' (by decide)]
  simp [plainChar, goes, apart '#' (by decide), apart '"' (by decide), apart '\'' (by decide),
    apart '\\' (by decide)]

@[simp] theorem plainText_nat (n : Nat) : PlainText (toString n) :=
  plainText_repr n

@[simp] theorem plainText_int (i : Int) : PlainText (toString i) := by
  cases i with
  | ofNat n => exact plainText_repr n
  | negSucc n =>
    have text : toString (Int.negSucc n) = "-" ++ (n + 1).repr := rfl
    rw [text, plainText_append]
    exact ⟨by decide, plainText_repr _⟩

theorem scan_plain {text : List Char} (plain : ∀ c ∈ text, plainChar c = true) :
    scan endsWord false text = some false := by
  induction text with
  | nil => rfl
  | cons c rest ih =>
    have first := plain c (List.mem_cons_self ..)
    simp only [plainChar, Bool.and_eq_true, Bool.not_eq_true', decide_eq_true_eq] at first
    simp only [scan, first.1.1.1.1, first.2, Bool.false_eq_true, if_false, decide_false]
    exact ih fun d member => plain d (List.mem_cons_of_mem _ member)

private theorem scan_plain_escaped {text : List Char} (plain : ∀ c ∈ text, plainChar c = true)
    (some : text ≠ []) (escaped : Bool) : scan endsWord escaped text = .some false := by
  cases escaped with
  | false => exact scan_plain plain
  | true =>
    obtain ⟨c, rest, rfl⟩ := List.exists_cons_of_ne_nil some
    exact scan_plain fun d member => plain d (List.mem_cons_of_mem _ member)

/-- Plain text goes on with the word it stands in. -/
theorem LexState.run_plain {text : String} (plain : PlainText text) (read : List Char) :
    (LexState.inWord read false).run text.toList = ([], .inWord (read ++ text.toList) false) :=
  (LexState.run_inWord read text.toList false).1 false (scan_plain plain)

/-- A plain text that is not empty. -/
structure PlainWord (word : String) : Prop where
  plain : PlainText word
  some : word.toList ≠ []

instance (word : String) : Decidable (PlainWord word) :=
  decidable_of_iff (PlainText word ∧ word.toList ≠ []) ⟨fun both => ⟨both.1, both.2⟩,
    fun word => ⟨word.plain, word.some⟩⟩

/-- A literal is the text of its characters, so the check runs on these. -/
theorem PlainText.literal (text : List Char) (plain : text.all plainChar = true) :
    PlainText (String.ofList text) := by
  intro c member
  rw [String.toList_ofList] at member
  exact List.all_eq_true.mp plain c member

theorem PlainWord.literal (word : List Char) (plain : word.all plainChar = true)
    (some : word.isEmpty = false) : PlainWord (String.ofList word) where
  plain := PlainText.literal word plain
  some := by
    rw [String.toList_ofList]
    exact fun empty => by simp [empty] at some

theorem PlainWord.append {left right : String} (word : PlainWord left) (plain : PlainText right) :
    PlainWord (left ++ right) where
  plain := (plainText_append _ _).mpr ⟨word.plain, plain⟩
  some := by
    rw [String.toList_append]
    exact fun empty => word.some (List.append_eq_nil_iff.mp empty).1

theorem PlainWord.isArgument {word : String} (plain : PlainWord word) : IsArgument word := by
  obtain ⟨c, rest, whole⟩ := List.exists_cons_of_ne_nil plain.some
  have first := plain.plain c (by rw [whole]; exact List.mem_cons_self ..)
  simp only [plainChar, Bool.and_eq_true, decide_eq_true_eq] at first
  rw [isArgument_iff_complete whole first.1.1.1.2 first.1.1.2 first.1.2]
  exact scan_plain plain.plain

/-- Plain text has no line end of any kind. -/
theorem PlainText.noLine {text : String} (plain : PlainText text) : '\n' ∉ text.toList := by
  intro member
  have bad := plain _ member
  revert bad
  decide

theorem PlainText.noCarriageReturn {text : String} (plain : PlainText text) :
    NoCarriageReturn text := by
  intro member
  have bad := plain _ member
  revert bad
  decide

/-- A value between two plain texts: whatever it ends with, the second text is read on. -/
theorem complete_framed {left right : String} (before : PlainText left) (after : PlainWord right)
    (value : String) : Complete (left ++ value ++ right) ↔ Unbroken value := by
  unfold Complete Unbroken
  rw [String.toList_append, String.toList_append, scan_append, scan_append, scan_plain before,
    Option.bind_some]
  cases scan endsWord false value.toList with
  | none => simp
  | some escaped => simp [scan_plain_escaped after.plain after.some escaped]

/-- A value that stands first in a word. -/
theorem isArgument_leading {value right : String} (some : value.toList ≠ [])
    (after : PlainWord right) (bracket : ')' ∉ right.toList) :
    IsArgument (value ++ right) ↔ Begins value ∧ Unbroken value := by
  obtain ⟨c, rest, whole⟩ := List.exists_cons_of_ne_nil some
  obtain ⟨last, ends⟩ : ∃ last, right.toList.getLast? = .some last :=
    ⟨_, List.getLast?_eq_some_getLast after.some⟩
  have member : last ∈ right.toList := List.mem_of_getLast? ends
  have plain := after.plain last member
  simp only [plainChar, Bool.and_eq_true, decide_eq_true_eq] at plain
  have tail : (value ++ right).toList.getLast? = .some last := by
    rw [String.toList_append, List.getLast?_append, ends]
    rfl
  have begins : Begins (value ++ right) ↔ Begins value := by
    simp only [Begins, String.toList_append, whole, List.cons_append, List.head?_cons]
  have framed := complete_framed (show PlainText "" by decide) after value
  rw [String.empty_append] at framed
  rw [isArgument_iff tail plain.1.1.2 plain.1.2 fun same => bracket (same ▸ member), begins, framed]

end MegooPM.Lib
