import MegooPM.Lib.AddressGrammar
import MegooPM.Lib.Trimming

/-!
# Which address a request came from

`core/client_ip.py`: what the rate limits count a request under. The forwarded addresses are
believed only of a connection from a trusted range, and of them only the last, which is the one
nginx adds.
-/
namespace MegooPM

open Lib Lib.Ip

/-! ### Addresses -/

/-- `ip_address(host)`; `none` where it raises. -/
def readAddress (host : Text) : Option (Family × Nat) :=
  match if '/' ∈ host then none else V4.ipIntFromString host with
  | some ip => some (.v4, ip)
  | none => (V6.address host).map fun found => (.v6, found.ip)

structure Network where
  family : Family
  ip : Nat
  length : Nat
  deriving DecidableEq, Repr

/-- `addr in net`; a scope id does not matter. -/
def Network.contains (net : Network) (address : Family × Nat) : Bool :=
  address.1 = net.family ∧ address.2 &&& ipIntFromPrefix net.family.width net.length = net.ip

/-- `_TRUSTED`: 10.0.0.0/8, 172.16.0.0/12, 192.168.0.0/16, 127.0.0.0/8 and ::1/128. -/
def trustedNetworks : List Network :=
  [⟨.v4, 10 * 2 ^ 24, 8⟩, ⟨.v4, 172 * 2 ^ 24 + 16 * 2 ^ 16, 12⟩,
    ⟨.v4, 192 * 2 ^ 24 + 168 * 2 ^ 16, 16⟩, ⟨.v4, 127 * 2 ^ 24, 8⟩, ⟨.v6, 1, 128⟩]

/-- `_is_trusted` -/
def isTrusted (host : Text) : Bool :=
  match readAddress host with
  | none => false
  | some address => trustedNetworks.any (·.contains address)

/-- `_valid` -/
def isValid (host : Text) : Bool :=
  (readAddress host).isSome

/-! ### Requests -/

/-- What `client_ip` looks at. -/
structure Arrival where
  /-- `request.client.host` -/
  client : Option Text
  /-- the header `x-forwarded-for` -/
  forwardedFor : Option Text

def unknownClient : Text := "unknown".toList

/-- The parts of the header that are not blank. -/
def candidates (forwarded : Text) : List Text :=
  ((forwarded.splitOn ',').map strip).filter (· ≠ [])

/-- `client_ip` -/
def clientIp (request : Arrival) : Text :=
  match request.client with
  | none => unknownClient
  | some connecting =>
    if connecting = [] then unknownClient
    else if !isTrusted connecting then connecting
    else
      match (candidates (request.forwardedFor.getD [])).getLast? with
      | some last => if isValid last then last else connecting
      | none => connecting

/-- nginx's `$proxy_add_x_forwarded_for`: the header of its client, and the client behind it. -/
def proxyAddForwardedFor (header : Option Text) (remote : Text) : Text :=
  match header with
  | none => remote
  | some header => header ++ ',' :: ' ' :: remote

/-- How a client reaches the API: the port is published, and nginx is in front of it. -/
inductive Way where
  | direct
  | through (proxy : Text)

/-- The request of a client that sends this header. -/
def Way.arrival (address : Text) (header : Option Text) : Way → Arrival
  | .direct => ⟨some address, header⟩
  | .through proxy => ⟨some proxy, some (proxyAddForwardedFor header address)⟩

/-- The header of a direct client is not believed, and that of nginx is. -/
def Way.Genuine (address : Text) : Way → Prop
  | .direct => isTrusted address = false
  | .through proxy => isTrusted proxy = true ∨ proxy = address

/-! ### The last address -/

theorem isValid_of_isTrusted {host : Text} (trusted : isTrusted host = true) :
    isValid host = true := by
  unfold isTrusted at trusted
  unfold isValid
  cases read : readAddress host with
  | none =>
    rw [read] at trusted
    cases trusted
  | some address => rfl

/-- An address without a scope id is spelled with the characters of literals. -/
private theorem literal_of_isValid {host : Text} (valid : isValid host = true)
    (plain : '%' ∉ host) : ∃ family, IsLiteral family host := by
  unfold isValid readAddress at valid
  split at valid
  next ip read =>
    split at read
    · cases read
    · exact ⟨.v4, v4_of_parsed read⟩
  next =>
    obtain ⟨⟨_, found⟩, read⟩ := Option.isSome_iff_exists.mp valid
    obtain ⟨found, read, _⟩ := Option.map_eq_some_iff.mp read
    obtain ⟨sign, literal⟩ := v6_address read
    refine ⟨.v6, literal ?_⟩
    cases scope : found.scopeId with
    | none => rfl
    | some id => exact absurd (sign.mpr (by rw [scope]; rfl)) plain

private theorem chars_of_isValid {host : Text} (valid : isValid host = true)
    (plain : '%' ∉ host) : ∀ c ∈ host, literalChar c = true := by
  obtain ⟨family, literal⟩ := literal_of_isValid valid plain
  exact literal.chars

private theorem ne_nil_of_isValid {host : Text} (valid : isValid host = true) : host ≠ [] := by
  rintro rfl
  exact absurd valid (by decide)

/-- Of no character of a literal does `strip` take anything. -/
private theorem isSpace_of_literalChar {c : Char} (literal : literalChar c = true) :
    isSpace c = false := by
  have range : 46 ≤ c.toNat ∧ c.toNat ≤ 102 := by
    simp only [literalChar, V6.isHexDigit, Char.isDigit, Bool.or_eq_true, Bool.and_eq_true,
      decide_eq_true_eq, Char.le_def, UInt32.le_iff_toNat_le, ge_iff_le] at literal
    rcases literal with (((digit | small) | capital) | rfl) | rfl
    · exact ⟨Nat.le_trans (by decide) digit.1, Nat.le_trans digit.2 (by decide)⟩
    · exact ⟨Nat.le_trans (by decide) small.1, small.2⟩
    · exact ⟨Nat.le_trans (by decide) capital.1, Nat.le_trans capital.2 (by decide)⟩
    · exact ⟨by decide, by decide⟩
    · exact ⟨by decide, by decide⟩
  simp only [isSpace, List.any_cons, List.any_nil, Bool.or_false, Bool.or_eq_false_iff,
    decide_eq_false_iff_not]
  omega

private theorem candidates_last {forwarded tail address : Text} (front : List Text)
    (split_ : forwarded.splitOn ',' = front ++ [tail]) (last : strip tail = address)
    (some_ : address ≠ []) : (candidates forwarded).getLast? = some address := by
  have kept : candidates forwarded = (front.map strip).filter (· ≠ []) ++ [address] := by
    rw [candidates, split_, List.map_append, List.filter_append, List.map_singleton, last]
    simp [some_]
  rw [kept, List.getLast?_concat]

/-- The address that nginx adds is the last candidate, whatever stands before it. -/
theorem candidates_proxyAdd {address : Text} (valid : isValid address = true)
    (plain : '%' ∉ address) (header : Option Text) :
    (candidates (proxyAddForwardedFor header address)).getLast? = some address := by
  have some_ : address ≠ [] := ne_nil_of_isValid valid
  have chars := chars_of_isValid valid plain
  have comma : ',' ∉ address := fun member => absurd (chars _ member) (by decide)
  have first : ∀ c, address.head? = some c → isSpace c = false := fun c head =>
    isSpace_of_literalChar (chars c (List.mem_of_mem_head? head))
  have last : ∀ c, address.getLast? = some c → isSpace c = false := fun c last =>
    isSpace_of_literalChar (chars c (List.mem_of_getLast? last))
  cases header with
  | none =>
    have whole : strip address = address := by
      rw [strip_eq_trimBy]
      exact trimBy_eq_self first last
    exact candidates_last [] (List.splitOn_eq_singleton comma) whole some_
  | some header =>
    have space : ∀ c ∈ [' '], isSpace c = true := by
      intro c member
      rw [List.mem_singleton.mp member]
      rfl
    -- the blank that nginx writes behind the comma goes
    have blank : strip (' ' :: address) = address := by
      have around := trimBy_around space (List.forall_mem_nil _) some_ first last
      rw [List.append_nil, List.singleton_append] at around
      rw [strip_eq_trimBy, around]
    have apart : ',' ∉ ' ' :: address := by
      rw [List.mem_cons, not_or]
      exact ⟨by decide, comma⟩
    refine candidates_last (header.splitOn ',') ?_ blank some_
    rw [proxyAddForwardedFor, List.splitOn_append_cons_self, List.splitOn_eq_singleton apart]

/-- A client that connects from a trusted range is believed about any address. -/
private theorem clientIp_forged {address other : Text} (trusted : isTrusted address = true)
    (valid : isValid other = true) (plain : '%' ∉ other) :
    clientIp (Way.direct.arrival address (some other)) = other := by
  have some_ := ne_nil_of_isValid (isValid_of_isTrusted trusted)
  have last := candidates_proxyAdd valid plain none
  rw [proxyAddForwardedFor] at last
  simp only [clientIp, Way.arrival, some_, if_false, trusted, Bool.not_true, Bool.false_eq_true,
    Option.getD_some, last, valid, if_true]

/-- Whatever header a client sends, the request counts as its own address: exactly if it reaches
the API from outside the trusted ranges, or through a proxy inside them or with that address. -/
theorem client_ip_own_iff {address : Text} (valid : isValid address = true)
    (plain : '%' ∉ address) (way : Way) :
    (∀ header, clientIp (way.arrival address header) = address) ↔ way.Genuine address := by
  have some_ : address ≠ [] := ne_nil_of_isValid valid
  constructor
  · intro own
    cases way with
    | direct =>
      -- a trusted client gets away with any other address
      show isTrusted address = false
      by_contra trusted
      rw [Bool.not_eq_false] at trusted
      have forged := own (some "203.0.113.7".toList)
      rw [clientIp_forged trusted (by decide) (by decide)] at forged
      subst forged
      exact absurd trusted (by decide)
    | through proxy =>
      by_cases trusted : isTrusted proxy = true
      · exact Or.inl trusted
      · right
        have counted := own none
        by_cases empty : proxy = []
        · -- nothing that is valid is spelled so
          subst empty
          have unknown : clientIp ((Way.through []).arrival address none) = unknownClient := rfl
          rw [unknown] at counted
          subst counted
          exact absurd valid (by decide)
        · simpa [clientIp, Way.arrival, empty, trusted] using counted
  · intro genuine header
    cases way with
    | direct =>
      have outside : isTrusted address = false := genuine
      simp [clientIp, Way.arrival, some_, outside]
    | through proxy =>
      by_cases trusted : isTrusted proxy = true
      · have connected : proxy ≠ [] := ne_nil_of_isValid (isValid_of_isTrusted trusted)
        simp [clientIp, Way.arrival, connected, trusted, candidates_proxyAdd valid plain header,
          valid]
      · have same : proxy = address := genuine.resolve_left trusted
        subst same
        simp [clientIp, Way.arrival, some_, trusted]

/-- A client on the Internet, behind nginx in the compose network. -/
theorem client_ip_own_iff_proxied :
    isValid "203.0.113.7".toList = true ∧ isTrusted "172.18.0.5".toList = true ∧
    ∀ header, clientIp ((Way.through "172.18.0.5".toList).arrival "203.0.113.7".toList header) =
      "203.0.113.7".toList :=
  ⟨by decide, by decide,
    (client_ip_own_iff (by decide) (by decide) (.through _)).mpr (Or.inl (by decide))⟩

end MegooPM
