import MegooPM.Lib.Doubles
import MegooPM.Lib.Items
import MegooPM.Lib.JsonText

/-!
# JSON values and how they are read

`json.loads`, with any `parse_constant`. A text is cut into tokens, and the tokens
build the value on a stack of open containers; Python keeps these on its own stack, so it stops
with a `RecursionError` where more are open than there is room for.
-/
namespace MegooPM.Lib

/-- A Python text: its code points. `"\ud800"` in JSON makes one that is no character. -/
abbrev CodePoints := List Nat

def codePoints (text : String) : CodePoints :=
  text.toList.map Char.toNat

inductive Json where
  | null
  | bool (b : Bool)
  | int (n : Int)
  | float (x : Double)
  | text (s : CodePoints)
  | array (items : List Json)
  | object (members : List (CodePoints × Json))

/-- `bool(value)` -/
def truthy : Json → Bool
  | .null => false
  | .bool b => b
  | .int n => n ≠ 0
  | .float (.finite _ mantissa _) => mantissa ≠ 0
  | .float _ => true
  | .text s => s ≠ []
  | .array items => !items.isEmpty
  | .object members => !members.isEmpty

/-- `value.get(key)` of a dictionary with texts for keys. -/
def memberAt (members : List (CodePoints × Json)) (key : String) : Option Json :=
  itemAt members (codePoints key)

/-! ### Texts -/

def hexDigit? (c : Char) : Option Nat :=
  if '0' ≤ c && c ≤ '9' then some (c.toNat - 48)
  else if 'a' ≤ c && c ≤ 'f' then some (c.toNat - 87)
  else if 'A' ≤ c && c ≤ 'F' then some (c.toNat - 55)
  else none

def fourHex (a b c d : Char) : Option Nat := do
  return (← hexDigit? a) * 4096 + (← hexDigit? b) * 256 + (← hexDigit? c) * 16 + (← hexDigit? d)

theorem hexDigit?_digitChar {d : Nat} (small : d < 16) : hexDigit? (Nat.digitChar d) = some d := by
  have all : ∀ d < 16, hexDigit? (Nat.digitChar d) = some d := by decide
  exact all d small

theorem unicodeEscape_eq (n : Nat) : ∃ a b c d, unicodeEscape n = ['\\', 'u', a, b, c, d] ∧
    fourHex a b c d = some (n % 0x10000) := by
  refine ⟨_, _, _, _, rfl, ?_⟩
  have digit : ∀ m, hexDigit? (Nat.digitChar (m % 16)) = some (m % 16) :=
    fun m => hexDigit?_digitChar (Nat.mod_lt _ (by decide))
  simp only [fourHex, digit, Option.bind_eq_bind, Option.bind_some, Option.pure_def,
    Option.some.injEq]
  omega

theorem toNat_lt (c : Char) : c.toNat < 0x110000 := by
  rcases c.valid with low | high
  · exact Nat.lt_trans low (by decide)
  · exact high.2

/-- What a backslash and this character stand for. -/
def shortEscape : Char → Option Nat
  | '\"' => some 0x22
  | '\\' => some 0x5c
  | '/' => some 0x2f
  | 'b' => some 0x08
  | 'f' => some 0x0c
  | 'n' => some 0x0a
  | 'r' => some 0x0d
  | 't' => some 0x09
  | _ => none

/-- The code points up to the closing quote, each escape for itself, and what follows it. -/
def readEscapes : List Char → Option (CodePoints × List Char)
  | [] => none
  | '\"' :: rest => some ([], rest)
  | '\\' :: 'u' :: a :: b :: c :: d :: rest => do
    let point ← fourHex a b c d
    let (points, rest) ← readEscapes rest
    return (point :: points, rest)
  | '\\' :: c :: rest => do
    let point ← shortEscape c
    let (points, rest) ← readEscapes rest
    return (point :: points, rest)
  | c :: rest =>
    if c.toNat < 0x20 then none
    else do
      let (points, rest) ← readEscapes rest
      return (c.toNat :: points, rest)

def isHighSurrogate (n : Nat) : Bool :=
  0xd800 ≤ n && n < 0xdc00

def isLowSurrogate (n : Nat) : Bool :=
  0xdc00 ≤ n && n < 0xe000

/-- Two escaped surrogates that make a pair are one code point. -/
def joinSurrogates : CodePoints → CodePoints
  | high :: low :: rest =>
    if isHighSurrogate high && isLowSurrogate low then
      (0x10000 + (high - 0xd800) * 0x400 + (low - 0xdc00)) :: joinSurrogates rest
    else high :: joinSurrogates (low :: rest)
  | rest => rest

/-- `scanstring`, past the opening quote. -/
def readQuoted (text : List Char) : Option (CodePoints × List Char) :=
  (readEscapes text).map fun (points, rest) => (joinSurrogates points, rest)

/-! ### Numbers -/

structure NumberParts where
  negative : Bool
  whole : List Char
  fraction : List Char
  /-- its sign and digits -/
  exponent : Option (Bool × List Char)

/-- An exponent, after its `e`. -/
def readExponent (text : List Char) : Option (Bool × List Char) :=
  let (negative, digits) :=
    match text with
    | '-' :: digits => (true, digits)
    | '+' :: digits => (false, digits)
    | digits => (false, digits)
  if digits ≠ [] ∧ digits.all Char.isDigit then some (negative, digits) else none

/-- An exponent or nothing, up to the end of the text. -/
def readTail (negative : Bool) (whole fraction : List Char) : List Char → Option NumberParts
  | [] => some { negative, whole, fraction, exponent := none }
  | c :: rest =>
    if c == 'e' || c == 'E' then
      (readExponent rest).map fun e => { negative, whole, fraction, exponent := some e }
    else none

/-- The parts after the whole part. -/
def readFraction (negative : Bool) (whole : List Char) : List Char → Option NumberParts
  | '.' :: rest =>
    let fraction := rest.takeWhile Char.isDigit
    if fraction = [] then none else readTail negative whole fraction (rest.dropWhile Char.isDigit)
  | rest => readTail negative whole [] rest

def readUnsigned (negative : Bool) (text : List Char) : Option NumberParts :=
  let whole := text.takeWhile Char.isDigit
  if whole = [] ∨ (whole.head? = some '0' ∧ whole.length ≠ 1) then none
  else readFraction negative whole (text.dropWhile Char.isDigit)

/-- A number literal that takes the whole text. -/
def readNumber : List Char → Option NumberParts
  | '-' :: text => readUnsigned true text
  | text => readUnsigned false text

def digitsValue (digits : List Char) : Nat :=
  Nat.ofDigitChars 10 digits 0

def signed (negative : Bool) (n : Nat) : Int :=
  if negative then -n else n

/-- The most digits of a whole number that Python converts from or to a text. -/
def maxStrDigits : Nat := 4300

/-- A whole number if there is neither point nor exponent; `none` where `int` raises. -/
def NumberParts.value (parts : NumberParts) : Option Json :=
  if parts.fraction = [] ∧ parts.exponent = none then
    if parts.whole.length ≤ maxStrDigits then
      some (.int (signed parts.negative (digitsValue parts.whole)))
    else none
  else
    let exponent := parts.exponent.elim 0 fun e => signed e.1 (digitsValue e.2)
    some (.float (floatOf parts.negative (digitsValue (parts.whole ++ parts.fraction))
      (exponent - parts.fraction.length)))

/-! ### Tokens -/

inductive Bracket where
  | square
  | curly
  deriving DecidableEq

inductive JsonToken where
  | enter (bracket : Bracket)
  | leave (bracket : Bracket)
  | comma
  | colon
  | text (s : CodePoints)
  | atom (cs : List Char)
  | invalid

def isBlank (c : Char) : Bool :=
  c ∈ [' ', '\t', '\n', '\r']

/-- What literals and numbers are made of. -/
def isAtomChar (c : Char) : Bool :=
  c.isAlphanum || c ∈ ['+', '-', '.']

def punctuation : Char → Option JsonToken
  | '[' => some (.enter .square)
  | ']' => some (.leave .square)
  | '{' => some (.enter .curly)
  | '}' => some (.leave .curly)
  | ',' => some .comma
  | ':' => some .colon
  | _ => none

/-- The first token and what follows it; nothing is read past an invalid one. -/
def nextJsonToken : List Char → Option (JsonToken × List Char)
  | [] => none
  | c :: rest =>
    if isBlank c then nextJsonToken rest
    else match punctuation c with
      | some token => some (token, rest)
      | none =>
        if c = '\"' then
          match readQuoted rest with
          | some (s, rest) => some (.text s, rest)
          | none => some (.invalid, [])
        else if isAtomChar c then
          some (.atom (c :: rest.takeWhile isAtomChar), rest.dropWhile isAtomChar)
        else some (.invalid, [])

/-- At most so many tokens from the front. -/
def jsonTokensFrom : Nat → List Char → List JsonToken
  | 0, _ => []
  | fuel + 1, text =>
    match nextJsonToken text with
    | none => []
    | some (token, rest) => token :: jsonTokensFrom fuel rest

def jsonTokens (text : List Char) : List JsonToken :=
  jsonTokensFrom text.length text

/-- The constants that JSON does not have. -/
def constantTexts : List (List Char) :=
  [['N', 'a', 'N'], ['I', 'n', 'f', 'i', 'n', 'i', 't', 'y'],
    ['-', 'I', 'n', 'f', 'i', 'n', 'i', 't', 'y']]

/-- A `parse_constant` that raises. -/
def rejectConstant (_ : List Char) : Option Json :=
  none

/-- The `parse_constant` of `json` itself. -/
def floatConstant (cs : List Char) : Option Json :=
  if cs = ['N', 'a', 'N'] then some (.float .nan)
  else some (.float (.infinite (cs.head? = some '-')))

section

local instance lawfulTexts : LawfulBEq (List Char) := inferInstance

variable (constant : List Char → Option Json)

/-- A literal, a constant or a number. -/
def atomValue (cs : List Char) : Option Json :=
  if cs = ['n', 'u', 'l', 'l'] then some .null
  else if cs = ['t', 'r', 'u', 'e'] then some (.bool true)
  else if cs = ['f', 'a', 'l', 's', 'e'] then some (.bool false)
  else if cs ∈ constantTexts then constant cs
  else (readNumber cs).bind NumberParts.value

/-! ### Reading -/

/-- A container that is still open, with what it holds so far; an object also with the key whose
value comes next. -/
inductive Frame where
  | array (items : List Json)
  | object (members : List (CodePoints × Json)) (key : CodePoints)

inductive Expected where
  | value
  /-- the first item of an array, or its end -/
  | valueOrEnd
  | key
  /-- the first key of an object, or its end -/
  | keyOrEnd
  | colon
  | delimiter
  deriving DecidableEq

inductive Reading where
  | within (expected : Expected) (stack : List Frame)
  | finished (value : Json)

def Reading.height : Reading → Nat
  | .within _ stack => stack.length
  | .finished _ => 0

/-- A value has been read. -/
def deliver (value : Json) : List Frame → Reading
  | [] => .finished value
  | .array items :: below => .within .delimiter (.array (items ++ [value]) :: below)
  | .object members key :: below =>
    .within .delimiter (.object (setItem members key value) key :: below)

/-- The innermost container ends. -/
def leave (bracket : Bracket) : List Frame → Option Reading
  | .array items :: below => if bracket = .square then some (deliver (.array items) below) else none
  | .object members _ :: below =>
    if bracket = .curly then some (deliver (.object members) below) else none
  | [] => none

def startValue (stack : List Frame) : JsonToken → Option Reading
  | .enter .square => some (.within .valueOrEnd (.array [] :: stack))
  | .enter .curly => some (.within .keyOrEnd (.object [] [] :: stack))
  | .text s => some (deliver (.text s) stack)
  | .atom cs => (atomValue constant cs).map fun value => deliver value stack
  | _ => none

def startMember (key : CodePoints) : List Frame → Option Reading
  | .object members _ :: below => some (.within .colon (.object members key :: below))
  | _ => none

def afterComma : List Frame → Option Reading
  | .array items :: below => some (.within .value (.array items :: below))
  | .object members key :: below => some (.within .key (.object members key :: below))
  | [] => none

/-- What a token does; `none` where the reader raises a `ValueError`. -/
def readToken : Reading → JsonToken → Option Reading
  | .finished _, _ => none
  | .within .value stack, token => startValue constant stack token
  | .within .valueOrEnd stack, .leave bracket => leave bracket stack
  | .within .valueOrEnd stack, token => startValue constant stack token
  | .within .key stack, .text key => startMember key stack
  | .within .keyOrEnd stack, .text key => startMember key stack
  | .within .keyOrEnd stack, .leave bracket => leave bracket stack
  | .within .colon stack, .colon => some (.within .value stack)
  | .within .delimiter stack, .comma => afterComma stack
  | .within .delimiter stack, .leave bracket => leave bracket stack
  | .within _ _, _ => none

/-- The reading after the last token; `none` where a token is refused. -/
def readTokens : List JsonToken → Reading → Option Reading
  | [], r => some r
  | token :: rest, r => (readToken constant r token).bind (readTokens rest)

/-- The value a text denotes, however deep it is nested. -/
def readJsonWith (text : List Char) : Option Json :=
  match readTokens constant (jsonTokens text) (.within .value []) with
  | some (.finished value) => some value
  | _ => none

inductive JsonError where
  | valueError
  | recursionError
  deriving DecidableEq

/-- The reading after the last token, with room for so many open containers. -/
def loadTokens (room : Nat) : List JsonToken → Reading → Except JsonError Reading
  | [], r => .ok r
  | token :: rest, r =>
    match readToken constant r token with
    | none => .error .valueError
    | some next => if next.height ≤ room then loadTokens room rest next else .error .recursionError

/-- `json.loads(text, parse_constant=constant)` -/
def loadsWith (room : Nat) (text : List Char) : Except JsonError Json := do
  match ← loadTokens constant room (jsonTokens text) (.within .value []) with
  | .finished value => return value
  | .within .. => throw .valueError

/-- How many containers are open at once at most, up to the end or to the token refused. -/
def deepest : List JsonToken → Reading → Nat
  | [], r => r.height
  | token :: rest, r => max r.height ((readToken constant r token).elim 0 (deepest rest))

/-- The nesting that `loadsWith` meets on a text. -/
def nestingWith (text : List Char) : Nat :=
  deepest constant (jsonTokens text) (.within .value [])

end

/-! ### Reading what only JSON has -/

def readJson : List Char → Option Json :=
  readJsonWith rejectConstant

/-- `json.loads(text, parse_constant=...)`. -/
def loads : Nat → List Char → Except JsonError Json :=
  loadsWith rejectConstant

/-- The nesting that `loads` meets on a text. -/
def nesting : List Char → Nat :=
  nestingWith rejectConstant

end MegooPM.Lib
