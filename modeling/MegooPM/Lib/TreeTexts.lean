import MegooPM.Lib.Lexer

/-!
# The texts of a configuration tree

What is asked of the words, comments and copied texts of a tree, as a policy: that the
printed tree is read back token by token, that it holds no carriage return.
-/
namespace MegooPM.Lib

namespace Node

/-! ### Trees -/

/-- Text copied into a file is read on its own when it leaves no token open. -/
def Settles (text : String) : Prop :=
  (LexState.between.run text.toList).2 = .between

instance (text : String) : Decidable (Settles text) :=
  inferInstanceAs (Decidable (_ = _))

mutual

/-- The tokens an item stands for. -/
def tokens : Node → List Token
  | .comment _ text => [.comment (' ' :: text.toList)]
  | .directive _ words => words.flatMap (fun w => argumentTokens w.toList) ++ [.semicolon]
  | .block _ words body _ =>
    words.flatMap (fun w => argumentTokens w.toList) ++ [.opens] ++ allTokens body ++ [.closes]
  | .verbatim _ text => lex text

/-- The tokens a sequence of items stands for. -/
def allTokens : List Node → List Token
  | [] => []
  | n :: rest => tokens n ++ allTokens rest

end

/-- White space that begins a new line. -/
def LineLead (lead : String) : Prop :=
  lead.toList.head? = some '\n' ∧ Blank lead

instance (lead : String) : Decidable (LineLead lead) :=
  inferInstanceAs (Decidable (_ ∧ _))

/-- What is asked of the texts of a tree: of its words, its comments, and the text that
is copied into it. -/
structure Policy where
  word : String → Prop
  note : String → Prop
  code : String → Prop

mutual

/-- The texts of an item meet a policy, and every item begins a line. The directives of
a block that closes with a blank stand on its own line instead. -/
def Obeys (p : Policy) (inline : Bool) : Node → Prop
  | .comment lead text => inline = false ∧ LineLead lead ∧ p.note text
  | .directive lead words =>
    (if inline then lead = " " else LineLead lead) ∧ words ≠ [] ∧ ∀ w ∈ words, p.word w
  | .block lead words body close =>
    inline = false ∧ LineLead lead ∧ words ≠ [] ∧ (∀ w ∈ words, p.word w) ∧
    (close = " " ∨ LineLead close) ∧ ObeyAll p (close = " ") body
  | .verbatim lead text => inline = false ∧ LineLead lead ∧ p.code text

def ObeyAll (p : Policy) (inline : Bool) : List Node → Prop
  | [] => True
  | n :: rest => Obeys p inline n ∧ ObeyAll p inline rest

end

section Obeys

variable (p : Policy) (inline : Bool) (lead text : String)

@[simp] theorem obeys_comment :
    Obeys p inline (.comment lead text) ↔ inline = false ∧ LineLead lead ∧ p.note text := by rfl

theorem obeys_directive (words : List String) : Obeys p inline (.directive lead words) ↔
    (if inline then lead = " " else LineLead lead) ∧ words ≠ [] ∧ ∀ w ∈ words, p.word w := by rfl

@[simp] theorem obeys_directive_line (words : List String) :
    Obeys p false (.directive lead words) ↔
      LineLead lead ∧ words ≠ [] ∧ ∀ w ∈ words, p.word w := by rfl

@[simp] theorem obeys_directive_inline (words : List String) :
    Obeys p true (.directive lead words) ↔ lead = " " ∧ words ≠ [] ∧ ∀ w ∈ words, p.word w := by rfl

theorem obeys_block (words : List String) (body : List Node) (close : String) :
    Obeys p inline (.block lead words body close) ↔
      inline = false ∧ LineLead lead ∧ words ≠ [] ∧ (∀ w ∈ words, p.word w) ∧
      (close = " " ∨ LineLead close) ∧ ObeyAll p (close = " ") body := by rfl

@[simp] theorem obeys_block_inline (words : List String) (body : List Node) :
    Obeys p inline (.block lead words body " ") ↔
      inline = false ∧ LineLead lead ∧ words ≠ [] ∧ (∀ w ∈ words, p.word w) ∧
      ObeyAll p true body := by
  simp [obeys_block]

@[simp] theorem obeys_block_lines (words : List String) (body : List Node) {close : String}
    (begins : LineLead close) : Obeys p inline (.block lead words body close) ↔
      inline = false ∧ LineLead lead ∧ words ≠ [] ∧ (∀ w ∈ words, p.word w) ∧
      ObeyAll p false body := by
  have apart : close ≠ " " := by
    rintro rfl
    cases begins.1
  simp [obeys_block, begins, apart]

@[simp] theorem obeys_verbatim :
    Obeys p inline (.verbatim lead text) ↔ inline = false ∧ LineLead lead ∧ p.code text := by rfl

@[simp] theorem obeyAll_nil : ObeyAll p inline [] ↔ True := by rfl

@[simp] theorem obeyAll_cons (n : Node) (rest : List Node) :
    ObeyAll p inline (n :: rest) ↔ Obeys p inline n ∧ ObeyAll p inline rest := by rfl

end Obeys

theorem obeyAll_iff (p : Policy) (inline : Bool) (nodes : List Node) :
    ObeyAll p inline nodes ↔ ∀ n ∈ nodes, Obeys p inline n := by
  induction nodes with
  | nil => simp
  | cons n rest ih => simp [ih]

@[simp] theorem obeyAll_append (p : Policy) (inline : Bool) (left right : List Node) :
    ObeyAll p inline (left ++ right) ↔ ObeyAll p inline left ∧ ObeyAll p inline right := by
  simp only [obeyAll_iff, List.forall_mem_append]

theorem obeyAll_map {α : Type} (p : Policy) (inline : Bool) (items : List α) (f : α → Node) :
    ObeyAll p inline (items.map f) ↔ ∀ a ∈ items, Obeys p inline (f a) := by
  simp only [obeyAll_iff, List.forall_mem_map]

theorem obeyAll_flatMap {α : Type} (p : Policy) (inline : Bool) (items : List α)
    (f : α → List Node) :
    ObeyAll p inline (items.flatMap f) ↔ ∀ a ∈ items, ObeyAll p inline (f a) := by
  simp only [obeyAll_iff, List.mem_flatMap, forall_exists_index, and_imp]
  exact ⟨fun all a member n inside => all n a member inside,
    fun all n a member inside => all a member n inside⟩

/-- The policy that asks for nothing but closed text. -/
def Policy.laid : Policy where
  word _ := True
  note _ := True
  code := Settles

/-- The policy of a tree that is read as it is written. -/
def Policy.lexical : Policy where
  word := IsArgument
  note text := '\n' ∉ text.toList
  code := Settles

private theorem tokens_words_iff (words : List String) (some : words ≠ []) {d : Char}
    {after : List Token} (ends : delimiter? d = .some after) (rest : List Char)
    (more : List Token) :
    LexState.between.tokens ((" ".intercalate words).toList ++ d :: rest) =
        words.flatMap (fun w => argumentTokens w.toList) ++ (after ++ more) ↔
      (∀ w ∈ words, IsArgument w) ∧ LexState.between.tokens rest = more := by
  induction words with
  | nil => exact absurd rfl some
  | cons first others ih =>
    cases others with
    | nil =>
      simp only [String.intercalate_singleton, List.flatMap_cons, List.flatMap_nil, List.append_nil,
        List.mem_singleton, forall_eq]
      exact tokens_word_iff first ends rest more
    | cons second others =>
      rw [String.intercalate_cons_cons, List.flatMap_cons, List.forall_mem_cons]
      have blank : (" " : String).toList = [' '] := rfl
      simp only [String.toList_append, blank, List.append_assoc, List.cons_append, List.nil_append]
      have head := tokens_word_iff first (show delimiter? ' ' = .some [] from rfl)
        ((" ".intercalate (second :: others)).toList ++ d :: rest)
        ((second :: others).flatMap (fun w => argumentTokens w.toList) ++ (after ++ more))
      rw [List.nil_append] at head
      rw [head, ih (by simp), and_assoc]

/-- Every item that does not stand on its block's line begins a new one. -/
private theorem head_print {n : Node} (laid : Obeys .laid false n) (rest : List Char) :
    ((print n).toList ++ rest).head? = some '\n' := by
  have starts : ∀ {lead : String} (tail : List Char), LineLead lead →
      (lead.toList ++ tail).head? = some '\n' := by
    intro lead tail begins
    rw [List.head?_append, begins.1]
    rfl
  cases n with
  | comment lead text =>
    simp only [print, String.toList_append, List.append_assoc]
    exact starts _ laid.2.1
  | directive lead words =>
    simp only [print, String.toList_append, List.append_assoc]
    exact starts _ laid.1
  | block lead words body close =>
    simp only [print, String.toList_append, List.append_assoc]
    exact starts _ laid.2.1
  | verbatim lead text =>
    simp only [print, String.toList_append, List.append_assoc]
    exact starts _ laid.2.1

private theorem head_printAll {nodes : List Node} {inline : Bool} (laid : ObeyAll .laid inline nodes)
    {rest : List Char} (line : inline = true ∨ rest.head? = some '\n') :
    inline = true ∨ ((printAll nodes).toList ++ rest).head? = some '\n' := by
  cases inline with
  | true => exact Or.inl rfl
  | false =>
    refine Or.inr ?_
    cases nodes with
    | nil => exact line.resolve_left (by decide)
    | cons n others =>
      rw [printAll, String.toList_append, List.append_assoc]
      exact head_print laid.1 _

private theorem blank_of_lead {inline : Bool} {lead : String}
    (laid : if inline = true then lead = " " else LineLead lead) : Blank lead := by
  cases inline with
  | true =>
    have same : lead = " " := laid
    rw [same]
    decide
  | false =>
    have begins : LineLead lead := laid
    exact begins.2

mutual

private theorem tokens_print_iff (n : Node) {inline : Bool} (laid : Obeys .laid inline n)
    {rest : List Char} (line : inline = true ∨ rest.head? = some '\n') (more : List Token) :
    LexState.between.tokens ((print n).toList ++ rest) = tokens n ++ more ↔
      Obeys .lexical inline n ∧ LexState.between.tokens rest = more := by
  cases n with
  | comment lead text =>
    obtain ⟨rfl, begins, _⟩ := laid
    obtain ⟨below, rfl⟩ := List.head?_eq_some_iff.mp (line.resolve_left (by decide))
    have sharp : ("# " : String).toList = ['#', ' '] := rfl
    simp only [print, String.toList_append, sharp, List.append_assoc, tokens_blank begins.2,
      List.cons_append, List.nil_append, tokens]
    have read := tokens_comment_iff (' ' :: text.toList) below more
    simp only [List.cons_append, List.mem_cons, not_or] at read
    rw [read]
    exact ⟨fun ⟨clean, same⟩ => ⟨⟨rfl, begins, clean.2⟩, same⟩,
      fun ⟨obeys, same⟩ => ⟨⟨by decide, obeys.2.2⟩, same⟩⟩
  | directive lead words =>
    obtain ⟨begins, some, _⟩ := laid
    have stop : (";" : String).toList = [';'] := rfl
    simp only [print, String.toList_append, stop, List.append_assoc,
      tokens_blank (blank_of_lead begins), List.cons_append, List.nil_append, tokens]
    have read := tokens_words_iff words some (show delimiter? ';' = .some [.semicolon] from rfl)
      rest more
    rw [List.cons_append, List.nil_append] at read
    rw [read]
    exact ⟨fun ⟨words, same⟩ => ⟨⟨begins, some, words⟩, same⟩,
      fun ⟨obeys, same⟩ => ⟨obeys.2.2, same⟩⟩
  | block lead words body close =>
    obtain ⟨rfl, begins, some, _, ending, inner⟩ := laid
    have brace : (" \x7b" : String).toList = [' ', '\x7b'] := rfl
    have closing : ("\x7d" : String).toList = ['\x7d'] := rfl
    have blank : Blank close := by
      rcases ending with rfl | lead
      · decide
      · exact lead.2
    simp only [print, String.toList_append, brace, closing, List.append_assoc,
      tokens_blank begins.2, List.cons_append, List.nil_append, tokens]
    have inside : decide (close = " ") = true ∨
        (close.toList ++ '\x7d' :: rest).head? = .some '\n' := by
      rcases ending with rfl | lead
      · exact Or.inl rfl
      · refine Or.inr ?_
        rw [List.head?_append, lead.1]
        rfl
    -- the words, the opening brace behind its blank, the items, the closing brace
    have read := tokens_words_iff words some (show delimiter? ' ' = .some [] from rfl)
      ('\x7b' :: ((printAll body).toList ++ (close.toList ++ '\x7d' :: rest)))
      (.opens :: (allTokens body ++ (.closes :: more)))
    have items := tokens_printAll_iff body inner inside (.closes :: more)
    rw [tokens_blank blank] at items
    have opened : ∀ text, LexState.between.tokens ('\x7b' :: text) =
      .opens :: LexState.between.tokens text := fun _ => rfl
    have closed : LexState.between.tokens ('\x7d' :: rest) =
      .closes :: LexState.between.tokens rest := rfl
    rw [opened, List.cons.injEq, items, closed, List.cons.injEq] at read
    simp only [List.nil_append, true_and] at read
    rw [read]
    exact ⟨fun ⟨words, body, same⟩ => ⟨⟨rfl, begins, some, words, ending, body⟩, same⟩,
      fun ⟨obeys, same⟩ => ⟨obeys.2.2.2.1, obeys.2.2.2.2.2, same⟩⟩
  | verbatim lead text =>
    obtain ⟨rfl, begins, settles⟩ := laid
    have settled : (LexState.between.run text.toList).2 = .between := settles
    have alone : lex text = (LexState.between.run text.toList).1 := by
      rw [lex, LexState.tokens, settled]
      exact List.append_nil _
    simp only [print, String.toList_append, List.append_assoc, tokens_blank begins.2, tokens, alone]
    rw [LexState.tokens_append, settled]
    exact ⟨fun same => ⟨⟨rfl, begins, settles⟩, List.append_cancel_left same⟩,
      fun ⟨_, same⟩ => by rw [same]⟩

/-- The printed text of a well laid out tree gives the tokens of the tree exactly when the
texts in it obey the lexical rules; what follows it is then read on its own. -/
theorem tokens_printAll_iff (nodes : List Node) {inline : Bool}
    (laid : ObeyAll .laid inline nodes) {rest : List Char}
    (line : inline = true ∨ rest.head? = some '\n') (more : List Token) :
    LexState.between.tokens ((printAll nodes).toList ++ rest) = allTokens nodes ++ more ↔
      ObeyAll .lexical inline nodes ∧ LexState.between.tokens rest = more := by
  cases nodes with
  | nil => exact ⟨fun same => ⟨trivial, same⟩, fun both => both.2⟩
  | cons n others =>
    rw [printAll, String.toList_append, List.append_assoc, allTokens, List.append_assoc]
    rw [tokens_print_iff n laid.1 (head_printAll laid.2 line),
      tokens_printAll_iff others laid.2 line more]
    exact ⟨fun ⟨first, rest, same⟩ => ⟨⟨first, rest⟩, same⟩,
      fun ⟨⟨first, rest⟩, same⟩ => ⟨first, rest, same⟩⟩

end

/-- A file: a comment in its first line, and a tree below it. -/
theorem lex_titled_iff (title : String) {nodes : List Node} (laid : ObeyAll .laid false nodes) :
    lex (printAll (.comment "" title :: nodes) ++ "\n") =
        allTokens (.comment "" title :: nodes) ↔
      '\n' ∉ title.toList ∧ ObeyAll .lexical false nodes := by
  have stop : ("\n" : String).toList = ['\n'] := rfl
  have sharp : ("" ++ "# " ++ title : String).toList = '#' :: ' ' :: title.toList := by
    simp [String.toList_append]
  have line : ((printAll nodes).toList ++ ['\n']).head? = some '\n' :=
    (head_printAll laid (Or.inr rfl)).resolve_left (by decide)
  obtain ⟨below, split⟩ := List.head?_eq_some_iff.mp line
  have read := tokens_comment_iff (' ' :: title.toList) below (allTokens nodes)
  have body : LexState.between.tokens ((printAll nodes).toList ++ ['\n']) =
      allTokens nodes ++ [] ↔ _ := tokens_printAll_iff nodes laid (Or.inr rfl) []
  have skipped : LexState.between.tokens ('\n' :: below) = LexState.between.tokens below := rfl
  rw [split, skipped, List.append_nil] at body
  rw [lex, printAll, print, String.toList_append, String.toList_append, sharp, stop,
    List.append_assoc, split, allTokens, tokens]
  simp only [List.cons_append, List.nil_append] at read ⊢
  rw [read, body]
  simp only [List.mem_cons, not_or]
  exact ⟨fun ⟨clean, obey, _⟩ => ⟨clean.2, obey⟩,
    fun ⟨clean, obey⟩ => ⟨⟨by decide, clean⟩, obey, rfl⟩⟩

/-! ### Carriage returns -/

/-- The policy that asks for the layout only. -/
def Policy.free : Policy where
  word _ := True
  note _ := True
  code _ := True

/-- The policy of a tree that is read back as it was written. -/
def Policy.clean : Policy where
  word := NoCarriageReturn
  note := NoCarriageReturn
  code := NoCarriageReturn

private theorem clean_of_blank {lead : String} (blank : Blank lead) : NoCarriageReturn lead := by
  intro member
  rcases blank _ member with same | same <;> cases same

mutual

private theorem noCarriageReturn_print_iff (n : Node) {inline : Bool}
    (laid : Obeys .free inline n) : NoCarriageReturn (print n) ↔ Obeys .clean inline n := by
  cases n with
  | comment lead text =>
    obtain ⟨rfl, begins, _⟩ := laid
    simp only [print, noCarriageReturn_append, obeys_comment, clean_of_blank begins.2, begins,
      true_and]
    exact and_iff_right (by decide)
  | directive lead words =>
    obtain ⟨begins, some, _⟩ := laid
    have stop : NoCarriageReturn ";" := by decide
    simp only [print, noCarriageReturn_append, obeys_directive, stop,
      clean_of_blank (blank_of_lead begins), noCarriageReturn_intercalate_iff, begins, true_and,
      and_true, some, ne_eq, not_false_eq_true]
    rfl
  | block lead words body close =>
    obtain ⟨rfl, begins, some, _, ending, inner⟩ := laid
    have brace : NoCarriageReturn " \x7b" := by decide
    have closing : NoCarriageReturn "\x7d" := by decide
    have blank : NoCarriageReturn close := by
      rcases ending with rfl | lead
      · decide
      · exact clean_of_blank lead.2
    simp only [print, noCarriageReturn_append, obeys_block, brace, closing, blank,
      clean_of_blank begins.2, noCarriageReturn_intercalate_iff, begins, true_and, and_true, some,
      ne_eq, not_false_eq_true, ending, noCarriageReturn_printAll_iff body inner]
    rfl
  | verbatim lead text =>
    obtain ⟨rfl, begins, _⟩ := laid
    simp only [print, noCarriageReturn_append, obeys_verbatim, clean_of_blank begins.2, begins,
      true_and]
    rfl

/-- A well laid out tree prints without carriage returns exactly when its texts have none. -/
theorem noCarriageReturn_printAll_iff (nodes : List Node) {inline : Bool}
    (laid : ObeyAll .free inline nodes) :
    NoCarriageReturn (printAll nodes) ↔ ObeyAll .clean inline nodes := by
  cases nodes with
  | nil =>
    simp only [printAll, obeyAll_nil, iff_true]
    decide
  | cons n rest =>
    simp only [printAll, noCarriageReturn_append, obeyAll_cons,
      noCarriageReturn_print_iff n laid.1, noCarriageReturn_printAll_iff rest laid.2]

end

/-- The same for a whole file. -/
theorem noCarriageReturn_titled_iff (title : String) {nodes : List Node}
    (laid : ObeyAll .free false nodes) :
    NoCarriageReturn (printAll (.comment "" title :: nodes) ++ "\n") ↔
      NoCarriageReturn title ∧ ObeyAll .clean false nodes := by
  have fixed : NoCarriageReturn "" ∧ NoCarriageReturn "# " ∧ NoCarriageReturn "\n" := by decide
  simp only [printAll, print, noCarriageReturn_append, noCarriageReturn_printAll_iff nodes laid,
    fixed, true_and, and_true]

/-! ### Ordinary policies -/

/-- The text holds no line end of any kind. -/
def OneLine (text : String) : Prop :=
  '\n' ∉ text.toList ∧ NoCarriageReturn text

instance (text : String) : Decidable (OneLine text) :=
  inferInstanceAs (Decidable (_ ∧ _))

theorem oneLine_append (left right : String) :
    OneLine (left ++ right) ↔ OneLine left ∧ OneLine right := by
  simp only [OneLine, String.toList_append, List.mem_append, not_or, noCarriageReturn_append]
  exact and_and_and_comm

theorem OneLine.of_plain {text : String} (plain : PlainText text) : OneLine text :=
  ⟨plain.noLine, plain.noCarriageReturn⟩

/-- The policy admits every text that is harmless in all respects. -/
structure Policy.Ordinary (p : Policy) : Prop where
  word : ∀ {w}, IsArgument w → NoCarriageReturn w → p.word w
  note : ∀ {t}, OneLine t → p.note t
  code : ∀ {t}, Settles t → NoCarriageReturn t → p.code t

theorem Policy.ordinary_free : Policy.free.Ordinary where
  word _ _ := trivial
  note _ := trivial
  code _ _ := trivial

theorem Policy.ordinary_laid : Policy.laid.Ordinary where
  word _ _ := trivial
  note _ := trivial
  code settles _ := settles

theorem Policy.ordinary_lexical : Policy.lexical.Ordinary where
  word argument _ := argument
  note line := line.1
  code settles _ := settles

theorem Policy.ordinary_clean : Policy.clean.Ordinary where
  word _ clean := clean
  note line := line.2
  code _ clean := clean

/-- Characters of a literal word, checked. -/
def harmlessWord (word : List Char) : Bool :=
  (LexState.between.run word).2.pending.map
    (fun last => (LexState.between.run word).1 ++ [.word last]) = some (argumentTokens word) &&
  !word.contains '\r'

/-- A literal is the text of its characters, so the check runs on these. -/
theorem OneLine.literal (text : List Char)
    (harmless : (!text.contains '\n' && !text.contains '\r') = true) :
    OneLine (String.ofList text) := by
  simp only [Bool.and_eq_true, Bool.not_eq_true'] at harmless
  rw [OneLine, NoCarriageReturn, String.toList_ofList]
  exact ⟨by simpa using harmless.1, by simpa using harmless.2⟩

namespace Policy.Ordinary

variable {p : Policy}

theorem literal (ordinary : p.Ordinary) (word : List Char) (harmless : harmlessWord word = true) :
    p.word (String.ofList word) := by
  simp only [harmlessWord, Bool.and_eq_true, decide_eq_true_eq, Bool.not_eq_true'] at harmless
  refine ordinary.word ?_ ?_
  · rw [IsArgument, String.toList_ofList]
    exact harmless.1
  · rw [NoCarriageReturn, String.toList_ofList]
    simpa using harmless.2

theorem comment (ordinary : p.Ordinary) (text : List Char)
    (harmless : (!text.contains '\n' && !text.contains '\r') = true) :
    p.note (String.ofList text) :=
  ordinary.note (OneLine.literal text harmless)

theorem plain (ordinary : p.Ordinary) {word : String} (plain : PlainWord word) : p.word word :=
  ordinary.word plain.isArgument plain.plain.noCarriageReturn

end Policy.Ordinary

end Node

end MegooPM.Lib
