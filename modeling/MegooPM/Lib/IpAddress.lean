import Mathlib

/-!
# IP addresses and networks

Python's `ipaddress`, as far as `ip_address(text)` and `ip_network(text, strict=False)` and
what `str` makes of their results. A text is a list of characters, an address a number; an
IPv6 address keeps its scope id. Both readers try IPv4 first and answer `none` where Python
raises a `ValueError`.
-/
namespace MegooPM.Lib.Ip

abbrev Text := List Char

/-- What `'sep'.join` makes of the parts. -/
def join (sep : Char) (parts : List Text) : Text :=
  [sep].intercalate parts

/-! ### Masks -/

/-- `isascii` and `isdigit`. -/
def isDecimal (text : Text) : Bool :=
  !text.isEmpty && text.all Char.isDigit

/-- `int` refuses longer texts. -/
def maxIntDigits := 4300

/-- `_prefix_from_prefix_string` -/
def prefixFromPrefixString (width : Nat) (text : Text) : Option Nat :=
  if !isDecimal text || maxIntDigits < text.length then none
  else if width < Nat.ofDigitChars 10 text 0 then none
  else some (Nat.ofDigitChars 10 text 0)

/-- `_count_righthand_zero_bits`: the zeros are the ones of `~number & (number - 1)`. -/
def countRighthandZeroBits (number bits : Nat) : Nat :=
  if number = 0 then bits
  else min bits (Nat.size ((number - 1) - ((number - 1) &&& number)))

/-- `_prefix_from_ip_int`: a mask is ones, then zeros. -/
def prefixFromIpInt (width ipInt : Nat) : Option Nat :=
  let zeros := countRighthandZeroBits ipInt width
  if ipInt >>> zeros ≠ (1 <<< (width - zeros)) - 1 then none else some (width - zeros)

def allOnes (width : Nat) : Nat :=
  2 ^ width - 1

/-- `_ip_int_from_prefix` -/
def ipIntFromPrefix (width length : Nat) : Nat :=
  allOnes width ^^^ (allOnes width >>> length)

/-- `_split_optional_netmask` -/
def splitOptionalNetmask (text : Text) : Option (Text × Option Text) :=
  match text.splitOn '/' with
  | [address] => some (address, none)
  | [address, mask] => some (address, some mask)
  | _ => none

/-! ### IPv4 -/

namespace V4

def width := 32

/-- `_parse_octet` -/
def parseOctet (text : Text) : Option Nat :=
  if !isDecimal text then none
  else if 3 < text.length then none
  else if text ≠ ['0'] ∧ text.head? = some '0' then none
  else if 255 < Nat.ofDigitChars 10 text 0 then none
  else some (Nat.ofDigitChars 10 text 0)

/-- `_ip_int_from_string` -/
def ipIntFromString (text : Text) : Option Nat :=
  match text.splitOn '.' with
  | [a, b, c, d] => do
    let a ← parseOctet a
    let b ← parseOctet b
    let c ← parseOctet c
    let d ← parseOctet d
    return ((a * 256 + b) * 256 + c) * 256 + d
  | _ => none

/-- `_prefix_from_ip_string`: a netmask, else a hostmask. -/
def prefixFromIpString (text : Text) : Option Nat :=
  match ipIntFromString text with
  | none => none
  | some ipInt =>
    match prefixFromIpInt width ipInt with
    | some length => some length
    | none => prefixFromIpInt width (ipInt ^^^ allOnes width)

/-- The length `_make_netmask` finds. -/
def makeNetmask : Option Text → Option Nat
  | none => some width
  | some mask =>
    match prefixFromPrefixString width mask with
    | some length => some length
    | none => prefixFromIpString mask

/-- `_string_from_ip_int` -/
def stringFromIpInt (ipInt : Nat) : Text :=
  join '.' ((List.range 4).map fun i => Nat.toDigits 10 (ipInt / 256 ^ (3 - i) % 256))

/-- `str(IPv4Address(text))` -/
def address (text : Text) : Option Text :=
  if '/' ∈ text then none else (ipIntFromString text).map stringFromIpInt

/-- `str(IPv4Network(text, strict=False))`: the host bits go. -/
def network (text : Text) : Option Text := do
  let (address, mask) ← splitOptionalNetmask text
  let packed ← ipIntFromString address
  let length ← makeNetmask mask
  return stringFromIpInt (packed &&& ipIntFromPrefix width length) ++
    '/' :: Nat.toDigits 10 length

end V4

/-! ### IPv6 -/

namespace V6

def width := 128

def hextetCount := 8

def isHexDigit (c : Char) : Bool :=
  c.isDigit || ('a' ≤ c && c ≤ 'f') || ('A' ≤ c && c ≤ 'F')

def hexValue (c : Char) : Nat :=
  if c.isDigit then c.toNat - 48 else if c ≤ 'F' then c.toNat - 55 else c.toNat - 87

/-- `_parse_hextet` -/
def parseHextet (text : Text) : Option Nat :=
  if !text.all isHexDigit then none
  else if 4 < text.length then none
  else if text.isEmpty then none
  else some (text.foldl (fun n c => n * 16 + hexValue c) 0)

def parseHextets : List Text → Option (List Nat)
  | [] => some []
  | part :: rest => do
    let first ← parseHextet part
    let others ← parseHextets rest
    return first :: others

/-- `ip_int <<= 16; ip_int |= hextet` -/
def shiftIn (ipInt : Nat) (hextets : List Nat) : Nat :=
  hextets.foldl (fun n hextet => n * 65536 + hextet) ipInt

/-- The dotted suffix of the parts, if there is one, as two hextets. -/
def splitDotted (parts : List Text) : Option (List Text) :=
  match parts.getLast? with
  | none => none
  | some last =>
    if '.' ∈ last then
      (V4.ipIntFromString last).map fun ipv4 =>
        parts.dropLast ++ [Nat.toDigits 16 (ipv4 / 65536 % 65536), Nat.toDigits 16 (ipv4 % 65536)]
    else some parts

/-- The indices strictly between the ends where nothing stands. -/
def skipIndices (parts : List Text) : List Nat :=
  ((List.range (parts.length - 1)).filter fun i => 0 < i ∧ parts[i]? = some [])

/-- `_ip_int_from_string` without `::` -/
def allHextets (parts : List Text) : Option Nat :=
  if parts.length ≠ hextetCount then none
  else if parts.head? = some [] then none
  else if parts.getLast? = some [] then none
  else (parseHextets parts).map (shiftIn 0)

/-- `_ip_int_from_string` with one `::`, at `skip`. A part that is empty at an end belongs to
it. -/
def skippedHextets (parts : List Text) (skip : Nat) : Option Nat :=
  if parts.head? = some [] ∧ skip ≠ 1 then none
  else if parts.getLast? = some [] ∧ parts.length - skip - 1 ≠ 1 then none
  else
    let high := if parts.head? = some [] then 0 else skip
    let low := if parts.getLast? = some [] then 0 else parts.length - skip - 1
    if hextetCount < high + low + 1 then none
    else do
      let above ← parseHextets (parts.take high)
      let below ← parseHextets (parts.drop (parts.length - low))
      return shiftIn (shiftIn 0 above * 65536 ^ (hextetCount - (high + low))) below

/-- `_ip_int_from_string` -/
def ipIntFromString (text : Text) : Option Nat :=
  let parts := text.splitOn ':'
  if parts.length < 3 then none
  else
    match splitDotted parts with
    | none => none
    | some parts =>
      if hextetCount + 1 < parts.length then none
      else
        match skipIndices parts with
        | [] => allHextets parts
        | [skip] => skippedHextets parts skip
        | _ => none

/-- `_split_scope_id` -/
def splitScopeId (text : Text) : Option (Text × Option Text) :=
  if '%' ∈ text then
    let scope := (text.dropWhile (· ≠ '%')).tail
    if scope = [] ∨ '%' ∈ scope then none
    else some (text.takeWhile (· ≠ '%'), some scope)
  else some (text, none)

structure Address where
  ip : Nat
  scopeId : Option Text
  deriving DecidableEq, Repr

/-- `IPv6Address(text)` -/
def address (text : Text) : Option Address :=
  if '/' ∈ text then none
  else do
    let (bare, scopeId) ← splitScopeId text
    let ip ← ipIntFromString bare
    return ⟨ip, scopeId⟩

/-- The longest run of zeros so far, then the run that ends here: its start and its length. -/
def bestRun (index : Nat) (best : Nat × Nat) (start : Option Nat) (length : Nat) :
    List Text → Nat × Nat
  | [] => best
  | hextet :: rest =>
    if hextet = ['0'] then
      let from_ := start.getD index
      bestRun (index + 1) (if best.2 < length + 1 then (from_, length + 1) else best) (some from_)
        (length + 1) rest
    else bestRun (index + 1) best none 0 rest

/-- `_compress_hextets` -/
def compressHextets (hextets : List Text) : List Text :=
  let best := bestRun 0 (0, 0) none 0 hextets
  if 1 < best.2 then
    (if best.1 = 0 then [[]] else []) ++ hextets.take best.1 ++ [[]] ++
      hextets.drop (best.1 + best.2) ++ (if best.1 + best.2 = hextets.length then [[]] else [])
  else hextets

/-- `_string_from_ip_int` -/
def stringFromIpInt (ip : Nat) : Text :=
  join ':' (compressHextets
    ((List.range hextetCount).map fun i => Nat.toDigits 16 (ip / 65536 ^ (7 - i) % 65536)))

/-- `str(IPv6Address)` -/
def Address.text (a : Address) : Text :=
  match a.scopeId with
  | some scopeId => stringFromIpInt a.ip ++ '%' :: scopeId
  | none => stringFromIpInt a.ip

/-- The length `_make_netmask` finds. -/
def makeNetmask : Option Text → Option Nat
  | none => some width
  | some mask => prefixFromPrefixString width mask

/-- The address has bits behind the mask. -/
def Address.hasHostBits (a : Address) (length : Nat) : Bool :=
  a.ip &&& ipIntFromPrefix width length ≠ a.ip

/-- `IPv6Network(text, strict=False)`. Only an address that has to be masked loses its scope
id. -/
def network (text : Text) : Option (Address × Nat) := do
  let (bare, mask) ← splitOptionalNetmask text
  let found ← address bare
  let length ← makeNetmask mask
  return (if found.hasHostBits length then ⟨found.ip &&& ipIntFromPrefix width length, none⟩
    else found, length)

end V6

/-! ### Either family -/

/-- `str(ip_address(text))` -/
def ipAddress (text : Text) : Option Text :=
  match V4.address text with
  | some form => some form
  | none => (V6.address text).map V6.Address.text

/-- `str(ip_network(text, strict=False))` -/
def ipNetwork (text : Text) : Option Text :=
  match V4.network text with
  | some form => some form
  | none => (V6.network text).map fun found => found.1.text ++ '/' :: Nat.toDigits 10 found.2

end MegooPM.Lib.Ip
