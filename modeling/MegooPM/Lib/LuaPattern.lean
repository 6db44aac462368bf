import Mathlib.Data.List.TakeWhile

/-!
# Lua patterns

Anchored patterns of Lua 5.1: literal characters, character classes and sets, greedy repetitions,
captures that do not nest, and an end. Matching is the backtracking of `string.match`.

A repetition that is followed by something it cannot take never gives a character back. A
pattern made of such repetitions takes the same beginning of every text that starts with it.
-/
namespace MegooPM.Lib

/-- A Lua string: its bytes, as characters. -/
abbrev LuaText := List Char

/-! ### Patterns -/

inductive LuaClass where
  /-- `.` -/
  | any
  | only (c : Char)
  /-- `%a`, `%d`, `%s`, `%w` and the complement `%S` -/
  | named (letter : Char)
  /-- a set of characters and named classes -/
  | set (complement : Bool) (chars letters : List Char)
deriving DecidableEq

/-- The `isalpha`, `isdigit`, `isspace` and `isalnum` of the C locale. -/
def namedHolds (letter c : Char) : Bool :=
  match letter with
  | 'a' => c.isAlpha
  | 'd' => c.isDigit
  | 's' => c.toNat = 0x20 || (0x09 ≤ c.toNat && c.toNat ≤ 0x0d)
  | 'w' => c.isAlphanum
  | 'S' => !(c.toNat = 0x20 || (0x09 ≤ c.toNat && c.toNat ≤ 0x0d))
  | _ => false

/-- The letters `namedHolds` knows. -/
def namedLetters : List Char := ['a', 'd', 's', 'w', 'S']

def LuaClass.holds : LuaClass → Char → Bool
  | any, _ => true
  | only d, c => c == d
  | named letter, c => namedHolds letter c
  | set complement chars letters, c =>
    complement ^^ (chars.contains c || letters.any fun letter => namedHolds letter c)

inductive LuaSuffix where
  | once
  | star
  | plus
deriving DecidableEq

inductive LuaItem where
  | piece (cls : LuaClass) (suffix : LuaSuffix)
  | opening
  | closing
  /-- `$` -/
  | finish
deriving DecidableEq

/-- The members of a set up to its bracket. -/
def readLuaSet : List Char → Option (List Char × List Char × List Char)
  | [] => none
  | ']' :: rest => some ([], [], rest)
  | '%' :: c :: rest => do
    let (chars, letters, rest) ← readLuaSet rest
    if c ∈ namedLetters then some (chars, c :: letters, rest)
    else if c.isAlphanum then none
    else some (c :: chars, letters, rest)
  | c :: rest => do
    let (chars, letters, rest) ← readLuaSet rest
    some (c :: chars, letters, rest)

def readLuaClass : List Char → Option (LuaClass × List Char)
  | '.' :: rest => some (.any, rest)
  | '%' :: c :: rest =>
    if c ∈ namedLetters then some (.named c, rest)
    else if c.isAlphanum then none
    else some (.only c, rest)
  | '[' :: '^' :: rest => do
    let (chars, letters, rest) ← readLuaSet rest
    some (.set true chars letters, rest)
  | '[' :: rest => do
    let (chars, letters, rest) ← readLuaSet rest
    some (.set false chars letters, rest)
  | c :: rest => some (.only c, rest)
  | [] => none

def readLuaSuffix : List Char → Option (LuaSuffix × List Char)
  | '*' :: rest => some (.star, rest)
  | '+' :: rest => some (.plus, rest)
  | '-' :: _ => none
  | '?' :: _ => none
  | rest => some (.once, rest)

def readLuaItems : Nat → List Char → Option (List LuaItem)
  | _, [] => some []
  | 0, _ => none
  | _ + 1, ['$'] => some [.finish]
  | fuel + 1, '(' :: rest => (readLuaItems fuel rest).map (.opening :: ·)
  | fuel + 1, ')' :: rest => (readLuaItems fuel rest).map (.closing :: ·)
  | fuel + 1, rest => do
    let (cls, rest) ← readLuaClass rest
    let (suffix, rest) ← readLuaSuffix rest
    let items ← readLuaItems fuel rest
    some (.piece cls suffix :: items)

/-- An anchored pattern. -/
def readLuaPattern (source : String) : Option (List LuaItem) :=
  match source.toList with
  | '^' :: rest => readLuaItems rest.length rest
  | _ => none

/-! ### Matching -/

section Matching

variable {α : Type}

/-- As many characters as there are, and fewer as long as the rest does not match. -/
def maxExpand (cls : LuaClass) (next : LuaText → Option α) : LuaText → Option α
  | [] => next []
  | c :: rest =>
    if cls.holds c then (maxExpand cls next rest).or (next (c :: rest)) else next (c :: rest)

def matchPiece (cls : LuaClass) (suffix : LuaSuffix) (next : LuaText → Option α) (s : LuaText) :
    Option α :=
  match suffix, s with
  | .star, s => maxExpand cls next s
  | _, [] => none
  | .once, c :: rest => if cls.holds c then next rest else none
  | .plus, c :: rest => if cls.holds c then maxExpand cls next rest else none

/-- `start` is the text where a capture was opened. -/
def matchItems : List LuaItem → (start : LuaText) → (captures : List LuaText) → LuaText →
    Option (List LuaText × LuaText)
  | [], _, captures, s => some (captures, s)
  | .piece cls suffix :: items, start, captures, s =>
    matchPiece cls suffix (matchItems items start captures) s
  | .opening :: items, _, captures, s => matchItems items s captures s
  | .closing :: items, start, captures, s =>
    matchItems items start (captures ++ [start.take (start.length - s.length)]) s
  | .finish :: items, start, captures, s =>
    if s = [] then matchItems items start captures s else none

/-- The captures of a match at the beginning of the text, and what follows it. -/
def luaMatch (pattern : String) (s : LuaText) : Option (List LuaText × LuaText) := do
  matchItems (← readLuaPattern pattern) s [] s

end Matching

/-! ### Patterns that never give back -/

/-- The classes have no character in common. -/
def LuaClass.apart : LuaClass → LuaClass → Bool
  | only c, other => !other.holds c
  | cls, only c => !cls.holds c
  | _, _ => false

/-- The class of the character the items begin with, where they must take one. -/
def firstClass : List LuaItem → Option LuaClass
  | .piece cls .once :: _ => some cls
  | .piece cls .plus :: _ => some cls
  | .opening :: items => firstClass items
  | .closing :: items => firstClass items
  | _ => none

/-- Behind every repetition stands something it cannot take. -/
def determinate : List LuaItem → Bool
  | [] => true
  | .piece _ .once :: items => determinate items
  | .piece cls _ :: items => (firstClass items).any cls.apart && determinate items
  | .opening :: items => determinate items
  | .closing :: items => determinate items
  | .finish :: _ => false

/-- The text is spelled by the items, with these captures; `front` was taken since the capture
that is open. -/
inductive Spelled : List LuaItem → (front : LuaText) → List LuaText → LuaText → Prop
  | nil {front} : Spelled [] front [] []
  | once {cls items front captures c s} (holds : cls.holds c = true)
    (rest : Spelled items (front ++ [c]) captures s) :
    Spelled (.piece cls .once :: items) front captures (c :: s)
  | star {cls items front captures run s} (holds : ∀ c ∈ run, cls.holds c = true)
    (rest : Spelled items (front ++ run) captures s) :
    Spelled (.piece cls .star :: items) front captures (run ++ s)
  | plus {cls items front captures run s} (some_ : run ≠ []) (holds : ∀ c ∈ run, cls.holds c = true)
    (rest : Spelled items (front ++ run) captures s) :
    Spelled (.piece cls .plus :: items) front captures (run ++ s)
  | opening {items front captures s} (rest : Spelled items [] captures s) :
    Spelled (.opening :: items) front captures s
  | closing {items front captures s} (rest : Spelled items front captures s) :
    Spelled (.closing :: items) front (front :: captures) s

section Rules

variable {α : Type} {cls other : LuaClass} {items tail : List LuaItem} {c : Char}

theorem LuaClass.apart_holds (apart : cls.apart other = true) (holds : cls.holds c = true) :
    other.holds c = false := by
  unfold LuaClass.apart at apart
  split at apart
  next d =>
    cases eq_of_beq (show (c == d) = true from holds)
    simpa using apart
  next d _ =>
    change (c == d) = false
    rw [beq_eq_false_iff_ne]
    rintro rfl
    rw [holds] at apart
    cases apart
  · cases apart

private theorem maxExpand_eq {next : LuaText → Option α}
    (refuses : ∀ c t, cls.holds c = true → next (c :: t) = none) (s : LuaText) :
    maxExpand cls next s = next (s.dropWhile cls.holds) := by
  induction s with
  | nil => rfl
  | cons c rest ih =>
    by_cases holds : cls.holds c = true
    · rw [maxExpand, if_pos holds, refuses c rest holds, Option.or_none, ih,
        List.dropWhile_cons_of_pos holds]
    · rw [maxExpand, if_neg holds, List.dropWhile_cons_of_neg holds]

private theorem matchItems_refuses {start : LuaText} {captures : List LuaText} {t : LuaText}
    (first : firstClass items = some other) (apart : other.holds c = false) :
    matchItems (items ++ tail) start captures (c :: t) = none := by
  induction items generalizing start captures with
  | nil => cases first
  | cons item items ih =>
    cases item with
    | piece cls suffix =>
      cases suffix with
      | star => cases first
      | once =>
        cases first
        exact if_neg (by rw [apart]; decide)
      | plus =>
        cases first
        exact if_neg (by rw [apart]; decide)
    | opening => exact ih first
    | closing => exact ih first
    | finish => cases first

private theorem Spelled.head {front : LuaText} {captures : List LuaText} {s : LuaText}
    (spelled : Spelled items front captures s) (first : firstClass items = some other) :
    ∃ c t, s = c :: t ∧ other.holds c = true := by
  induction spelled with
  | nil => cases first
  | once holds _ _ =>
    cases first
    exact ⟨_, _, rfl, holds⟩
  | star => cases first
  | @plus _ _ _ _ run s some_ holds _ _ =>
    cases first
    obtain ⟨c, t, rfl⟩ := List.exists_cons_of_ne_nil some_
    exact ⟨c, t ++ s, rfl, holds c List.mem_cons_self⟩
  | opening _ ih => exact ih first
  | closing _ ih => exact ih first

/-- A repetition takes the whole run. -/
private theorem split_run {run s : LuaText} {front : LuaText} {captures : List LuaText}
    (rest : LuaText) (apart : (firstClass items).any cls.apart = true)
    (holds : ∀ c ∈ run, cls.holds c = true)
    (spelled : Spelled items front captures s) :
    (run ++ (s ++ rest)).takeWhile cls.holds = run ∧
      (run ++ (s ++ rest)).dropWhile cls.holds = s ++ rest := by
  obtain ⟨other, first, apart⟩ := Option.any_eq_true _ _ |>.mp apart
  obtain ⟨c, t, rfl, begins⟩ := spelled.head first
  have stop : ¬cls.holds c = true := by
    intro both
    rw [LuaClass.apart_holds apart both] at begins
    cases begins
  rw [List.takeWhile_append_of_pos holds, List.dropWhile_append_of_pos holds, List.cons_append,
    List.takeWhile_cons_of_neg stop, List.dropWhile_cons_of_neg stop, List.append_nil]
  exact ⟨rfl, rfl⟩

/-- The items match what they spell, and the tail what follows. -/
theorem matchItems_append_iff (tail : List LuaItem) (fixed : determinate items = true)
    (free : ∀ start start' captures s, matchItems tail start captures s =
      matchItems tail start' captures s)
    (front : LuaText) (done : List LuaText) (s : LuaText) (result : List LuaText × LuaText) :
    matchItems (items ++ tail) (front ++ s) done s = some result ↔
      ∃ captures taken rest, s = taken ++ rest ∧ Spelled items front captures taken ∧
        matchItems tail rest (done ++ captures) rest = some result := by
  induction items generalizing front done s with
  | nil =>
    constructor
    · intro matched
      refine ⟨[], [], s, rfl, .nil, ?_⟩
      rw [List.append_nil, ← matched]
      exact free ..
    · rintro ⟨captures, taken, rest, rfl, spelled, matched⟩
      cases spelled
      rw [List.append_nil] at matched
      rw [← matched]
      exact free ..
  | cons item items ih =>
    cases item with
    | opening =>
      refine (ih fixed [] done s).trans ?_
      constructor
      · rintro ⟨captures, taken, rest, split, spelled, matched⟩
        exact ⟨captures, taken, rest, split, .opening spelled, matched⟩
      · rintro ⟨captures, taken, rest, split, spelled, matched⟩
        cases spelled with
        | opening spelled => exact ⟨captures, taken, rest, split, spelled, matched⟩
    | closing =>
      have captured : (front ++ s).take ((front ++ s).length - s.length) = front := by
        rw [List.length_append, Nat.add_sub_cancel, List.take_left']
        rfl
      rw [List.cons_append, matchItems, captured, ih fixed]
      constructor
      · rintro ⟨captures, taken, rest, split, spelled, matched⟩
        rw [List.append_assoc] at matched
        exact ⟨front :: captures, taken, rest, split, .closing spelled, matched⟩
      · rintro ⟨captures, taken, rest, split, spelled, matched⟩
        cases spelled with
        | closing spelled =>
          refine ⟨_, taken, rest, split, spelled, ?_⟩
          rw [List.append_assoc]
          exact matched
    | finish => cases fixed
    | piece cls suffix =>
      -- a repetition takes the whole run: what follows refuses any character of it
      have refuses (apart : (firstClass items).any cls.apart = true) (start : LuaText) (c : Char)
          (t : LuaText) (holds : cls.holds c = true) :
          matchItems (items ++ tail) start done (c :: t) = none := by
        obtain ⟨other, first, apart⟩ := Option.any_eq_true _ _ |>.mp apart
        exact matchItems_refuses first (LuaClass.apart_holds apart holds)
      have repeated (fixed : determinate items = true) :
          matchItems (items ++ tail) (front ++ s) done (s.dropWhile cls.holds) = some result ↔
            ∃ captures taken rest, s = s.takeWhile cls.holds ++ taken ++ rest ∧
              Spelled items (front ++ s.takeWhile cls.holds) captures taken ∧
              matchItems tail rest (done ++ captures) rest = some result := by
        have step := ih fixed (front ++ s.takeWhile cls.holds) done (s.dropWhile cls.holds)
        rw [List.append_assoc, List.takeWhile_append_dropWhile] at step
        rw [step]
        constructor
        · rintro ⟨captures, taken, rest, split, spelled, matched⟩
          refine ⟨captures, taken, rest, ?_, spelled, matched⟩
          rw [List.append_assoc, ← split, List.takeWhile_append_dropWhile]
        · rintro ⟨captures, taken, rest, split, spelled, matched⟩
          refine ⟨captures, taken, rest, ?_, spelled, matched⟩
          have whole := List.takeWhile_append_dropWhile (p := cls.holds) (l := s)
          rw [List.append_assoc] at split
          exact List.append_cancel_left (whole.trans split)
      cases suffix with
      | once =>
        cases s with
        | nil =>
          constructor
          · intro matched
            cases matched
          · rintro ⟨captures, taken, rest, split, spelled, matched⟩
            cases spelled
            cases split
        | cons c s =>
          by_cases holds : cls.holds c = true
          · have step := ih fixed (front ++ [c]) done s
            rw [List.append_assoc, List.singleton_append] at step
            rw [List.cons_append, matchItems, matchPiece, if_pos holds, step]
            · constructor
              · rintro ⟨captures, taken, rest, rfl, spelled, matched⟩
                exact ⟨captures, c :: taken, rest, rfl, .once holds spelled, matched⟩
              · rintro ⟨captures, taken, rest, split, spelled, matched⟩
                cases spelled with
                | once _ spelled =>
                  cases split
                  exact ⟨captures, _, rest, rfl, spelled, matched⟩
          · rw [List.cons_append, matchItems, matchPiece, if_neg holds]
            constructor
            · intro matched
              cases matched
            · rintro ⟨captures, taken, rest, split, spelled, matched⟩
              cases spelled with
              | once here _ =>
                cases split
                exact absurd here holds
      | star =>
        obtain ⟨apart, fixed⟩ := Bool.and_eq_true _ _ |>.mp fixed
        rw [List.cons_append, matchItems, matchPiece, maxExpand_eq (refuses apart _),
          repeated fixed]
        constructor
        · rintro ⟨captures, taken, rest, split, spelled, matched⟩
          exact ⟨captures, _, rest, split, .star (fun c => List.mem_takeWhile_imp) spelled, matched⟩
        · rintro ⟨captures, taken, rest, split, spelled, matched⟩
          cases spelled with
          | star holds spelled =>
            obtain ⟨run, -⟩ := split_run rest apart holds spelled
            rw [← List.append_assoc, ← split] at run
            rw [run]
            exact ⟨captures, _, rest, split, spelled, matched⟩
      | plus =>
        obtain ⟨apart, fixed⟩ := Bool.and_eq_true _ _ |>.mp fixed
        have many : matchItems (.piece cls .plus :: items ++ tail) (front ++ s) done s =
            if s.takeWhile cls.holds = [] then none
            else matchItems (items ++ tail) (front ++ s) done (s.dropWhile cls.holds) := by
          cases s with
          | nil => rfl
          | cons c s =>
            by_cases holds : cls.holds c = true
            · rw [List.cons_append, matchItems, matchPiece, if_pos holds,
                maxExpand_eq (refuses apart _), List.takeWhile_cons_of_pos holds,
                List.dropWhile_cons_of_pos holds, if_neg (List.cons_ne_nil _ _)]
            · rw [List.cons_append, matchItems, matchPiece, if_neg holds,
                List.takeWhile_cons_of_neg holds, if_pos rfl]
        rw [many, Option.ite_none_left_eq_some, repeated fixed]
        constructor
        · rintro ⟨some_, captures, taken, rest, split, spelled, matched⟩
          exact ⟨captures, _, rest, split, .plus some_ (fun c => List.mem_takeWhile_imp) spelled,
            matched⟩
        · rintro ⟨captures, taken, rest, split, spelled, matched⟩
          cases spelled with
          | plus some_ holds spelled =>
            obtain ⟨run, -⟩ := split_run rest apart holds spelled
            rw [← List.append_assoc, ← split] at run
            rw [run]
            exact ⟨some_, captures, _, rest, split, spelled, matched⟩

/-- A pattern that never gives back matches what it spells. -/
theorem luaMatch_iff {pattern : String} (read : readLuaPattern pattern = some items)
    (fixed : determinate items = true) {s rest : LuaText} {captures : List LuaText} :
    luaMatch pattern s = some (captures, rest) ↔
      ∃ taken, s = taken ++ rest ∧ Spelled items [] captures taken := by
  have whole := matchItems_append_iff [] fixed (fun _ _ _ _ => rfl) [] [] s
    (captures, rest)
  rw [List.append_nil, List.nil_append] at whole
  rw [luaMatch, read]
  refine whole.trans ?_
  constructor
  · rintro ⟨_, taken, _, split, spelled, same⟩
    cases same
    exact ⟨taken, split, spelled⟩
  · rintro ⟨taken, split, spelled⟩
    exact ⟨captures, taken, rest, split, spelled, rfl⟩

/-- `(.*)$` or `(.+)$`: whatever follows is the last capture. -/
def lastCapture (suffix : LuaSuffix) : List LuaItem :=
  [.opening, .piece .any suffix, .closing, .finish]

private theorem maxExpand_any {next : LuaText → Option α} {result : α}
    (ends : next [] = some result) (s : LuaText) : maxExpand .any next s = some result := by
  induction s with
  | nil => exact ends
  | cons c rest ih =>
    have any : LuaClass.any.holds c = true := rfl
    rw [maxExpand, if_pos any, ih, Option.some_or]

private theorem matchItems_lastCapture {suffix : LuaSuffix} (repeats : suffix ≠ .once)
    (start : LuaText) (done : List LuaText) (s : LuaText) :
    matchItems (lastCapture suffix) start done s =
      if suffix = .plus ∧ s = [] then none else some (done ++ [s], []) := by
  have ends : matchItems [.closing, .finish] s done [] = some (done ++ [s], []) := by
    simp [matchItems]
  cases suffix with
  | once => exact absurd rfl repeats
  | star => exact maxExpand_any ends s
  | plus =>
    cases s with
    | nil => rfl
    | cons c rest => exact maxExpand_any ends rest

/-- The same pattern with everything that follows as its last capture. -/
theorem luaMatch_lastCapture_iff {pattern : String} {suffix : LuaSuffix} (repeats : suffix ≠ .once)
    (read : readLuaPattern pattern = some (items ++ lastCapture suffix))
    (fixed : determinate items = true) {s : LuaText} (captures : List LuaText) (rest : LuaText) :
    luaMatch pattern s = some (captures ++ [rest], []) ↔
      (∃ taken, s = taken ++ rest ∧ Spelled items [] captures taken) ∧
        ¬(suffix = .plus ∧ rest = []) := by
  have whole := matchItems_append_iff (lastCapture suffix) fixed (fun _ _ _ _ => rfl) [] []
    s (captures ++ [rest], [])
  rw [List.nil_append] at whole
  rw [luaMatch, read]
  refine whole.trans ?_
  simp only [matchItems_lastCapture repeats, Option.ite_none_left_eq_some, List.nil_append]
  constructor
  · rintro ⟨before, taken, last, split, spelled, some_, same⟩
    obtain ⟨rfl, rest⟩ := List.append_inj' (congrArg Prod.fst (Option.some.inj same)) rfl
    cases rest
    exact ⟨⟨taken, split, spelled⟩, some_⟩
  · rintro ⟨⟨taken, split, spelled⟩, some_⟩
    exact ⟨captures, taken, rest, split, spelled, some_, rfl⟩

/-- Nothing but a last capture is left where it matches. -/
theorem luaMatch_lastCapture_ends {pattern : String} {suffix : LuaSuffix} (repeats : suffix ≠ .once)
    (read : readLuaPattern pattern = some (items ++ lastCapture suffix))
    (fixed : determinate items = true) {s : LuaText} {result : List LuaText × LuaText}
    (matched : luaMatch pattern s = some result) :
    ∃ captures rest, result = (captures ++ [rest], []) := by
  have whole := matchItems_append_iff (lastCapture suffix) fixed (fun _ _ _ _ => rfl) [] [] s result
  rw [List.nil_append] at whole
  rw [luaMatch, read] at matched
  obtain ⟨captures, taken, rest, _, _, last⟩ := whole.mp matched
  rw [matchItems_lastCapture repeats, Option.ite_none_left_eq_some] at last
  exact ⟨captures, rest, (Option.some.inj last.2).symm⟩

/-! ### What items spell -/

section

variable {front : LuaText} {captures : List LuaText} {s : LuaText}

theorem spelled_nil_iff : Spelled [] front captures s ↔ captures = [] ∧ s = [] := by
  constructor
  · intro spelled
    cases spelled
    exact ⟨rfl, rfl⟩
  · rintro ⟨rfl, rfl⟩
    exact .nil

theorem spelled_only_iff : Spelled (.piece (.only c) .once :: items) front captures s ↔
    ∃ t, s = c :: t ∧ Spelled items (front ++ [c]) captures t := by
  constructor
  · intro spelled
    cases spelled with
    | once holds rest =>
      cases eq_of_beq holds
      exact ⟨_, rfl, rest⟩
  · rintro ⟨t, rfl, rest⟩
    exact .once (beq_self_eq_true c) rest

theorem spelled_star_iff : Spelled (.piece cls .star :: items) front captures s ↔
    ∃ run t, s = run ++ t ∧ (∀ c ∈ run, cls.holds c = true) ∧
      Spelled items (front ++ run) captures t := by
  constructor
  · intro spelled
    cases spelled with
    | star holds rest => exact ⟨_, _, rfl, holds, rest⟩
  · rintro ⟨run, t, rfl, holds, rest⟩
    exact .star holds rest

theorem spelled_opening_iff :
    Spelled (.opening :: items) front captures s ↔ Spelled items [] captures s := by
  constructor
  · intro spelled
    cases spelled with
    | opening rest => exact rest
  · exact .opening

theorem spelled_closing_iff : Spelled (.closing :: items) front captures s ↔
    ∃ others, captures = front :: others ∧ Spelled items front others s := by
  constructor
  · intro spelled
    cases spelled with
    | closing rest => exact ⟨_, rfl, rest⟩
  · rintro ⟨others, rfl, rest⟩
    exact .closing rest

end

/-! ### Characters no item takes -/

def LuaItem.avoids (stop : Char) : LuaItem → Bool
  | piece cls _ => !cls.holds stop
  | _ => true

theorem Spelled.notMem {stop : Char} {front : LuaText} {captures : List LuaText} {s : LuaText}
    (avoids : items.all (LuaItem.avoids stop) = true) (spelled : Spelled items front captures s) :
    stop ∉ s := by
  have run {cls : LuaClass} {run : LuaText} (free : LuaItem.avoids stop (.piece cls .star) = true)
      (holds : ∀ c ∈ run, cls.holds c = true) : stop ∉ run := by
    intro member
    rw [LuaItem.avoids, holds stop member] at free
    cases free
  induction spelled with
  | nil => exact List.not_mem_nil
  | once holds _ ih =>
    rw [List.all_cons, Bool.and_eq_true] at avoids
    rw [← List.singleton_append, List.mem_append, not_or]
    exact ⟨run avoids.1 (by simpa using holds), ih avoids.2⟩
  | star holds _ ih =>
    rw [List.all_cons, Bool.and_eq_true] at avoids
    rw [List.mem_append, not_or]
    exact ⟨run avoids.1 holds, ih avoids.2⟩
  | plus _ holds _ ih =>
    rw [List.all_cons, Bool.and_eq_true] at avoids
    rw [List.mem_append, not_or]
    exact ⟨run avoids.1 holds, ih avoids.2⟩
  | opening _ ih => exact ih avoids
  | closing _ ih => exact ih avoids

/-- What does not take a character ends before it. -/
theorem append_of_notMem {stop : Char} {taken rest s x : LuaText} (free : stop ∉ taken)
    (member : stop ∈ s) (split : s ++ x = taken ++ rest) :
    ∃ left, s = taken ++ left ∧ rest = left ++ x := by
  rcases List.append_eq_append_iff.mp split with ⟨more, whole, -⟩ | ⟨left, whole, tail⟩
  · rw [whole] at free
    exact absurd (List.mem_append_left more member) free
  · exact ⟨left, whole, tail⟩

/-- What follows a character that no item takes has no part in the match. -/
theorem luaMatch_append {pattern : String} {stop : Char} (read : readLuaPattern pattern = some items)
    (fixed : determinate items = true) (avoids : items.all (LuaItem.avoids stop) = true)
    {s : LuaText} (member : stop ∈ s) (x : LuaText) :
    luaMatch pattern (s ++ x) = (luaMatch pattern s).map fun m => (m.1, m.2 ++ x) := by
  apply Option.ext
  rintro ⟨captures, rest⟩
  rw [luaMatch_iff read fixed, Option.map_eq_some_iff]
  constructor
  · rintro ⟨taken, split, spelled⟩
    obtain ⟨left, whole, tail⟩ := append_of_notMem (spelled.notMem avoids) member split
    exact ⟨(captures, left), (luaMatch_iff read fixed).mpr ⟨taken, whole, spelled⟩, by rw [tail]⟩
  · rintro ⟨⟨_, left⟩, matched, same⟩
    cases same
    obtain ⟨taken, rfl, spelled⟩ := (luaMatch_iff read fixed).mp matched
    exact ⟨taken, List.append_assoc .., spelled⟩

end Rules

end MegooPM.Lib
