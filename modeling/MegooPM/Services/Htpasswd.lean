import MegooPM.Lib.Bytes
import Mathlib.Data.Vector.Basic
import Mathlib.Data.Fintype.Basic
import Mathlib.Tactic.FinCases

/-!
# Password hashes

`services/htpasswd.py`: the `$apr1$` scheme over an arbitrary 16-byte digest. A hash text
carries its salt and all of the digest, so checking a password against it compares the
digests of the last round.
-/
namespace MegooPM

open Lib

/-- `_ITOA64`, and `_SALT_CHARS`. -/
def itoa64 : List Char :=
  "./0123456789ABCDEFGHIJKLMNOPQRSTUVWXYZabcdefghijklmnopqrstuvwxyz".toList

/-- `$apr1$` -/
def apr1Magic : Bytes := [0x24, 0x61, 0x70, 0x72, 0x31, 0x24]

def itoa64Char (value : Nat) : Char :=
  itoa64.getD (value &&& 0x3F) '.'

/-- `_to64` -/
def to64 : Nat → Nat → List Char
  | _, 0 => []
  | value, count + 1 => itoa64Char value :: to64 (value >>> 6) count

abbrev Md5 := Bytes → List.Vector UInt8 16

/-- The alternate digest, a block at a time for as many bytes as the password is long. -/
def altBlocks (alt : Bytes) (length : Nat) : Bytes :=
  if length = 0 then [] else alt.take (min 16 length) ++ altBlocks alt (length - 16)
termination_by length
decreasing_by omega

/-- A NUL byte for every set bit of the password's length, and its first byte for every
cleared one. -/
def lengthBits (pw : Bytes) (length : Nat) : Bytes :=
  if length = 0 then []
  else (if length &&& 1 ≠ 0 then [0] else pw.take 1) ++ lengthBits pw (length >>> 1)
termination_by length
decreasing_by
  rw [Nat.shiftRight_one]
  omega

section Digest

variable (md5 : Md5) (pw salt : Bytes)

def firstDigest : List.Vector UInt8 16 :=
  let alt := (md5 (pw ++ salt ++ pw)).toList
  md5 (pw ++ apr1Magic ++ salt ++ altBlocks alt pw.length ++ lengthBits pw pw.length)

/-- One of the 1000 iterations. -/
def stretchRound (digest : List.Vector UInt8 16) (i : Nat) : List.Vector UInt8 16 :=
  md5 ((if i &&& 1 ≠ 0 then pw else digest.toList) ++ (if i % 3 ≠ 0 then salt else []) ++
    (if i % 7 ≠ 0 then pw else []) ++ if i &&& 1 ≠ 0 then digest.toList else pw)

def stretched : List.Vector UInt8 16 :=
  (List.range 1000).foldl (stretchRound md5 pw salt) (firstDigest md5 pw salt)

end Digest

/-- `digest[i]` as a number. -/
def byteAt (digest : List.Vector UInt8 16) (i : Fin 16) : Nat :=
  (digest.get i).toNat

/-- Three bytes of the digest in one number. -/
def packed (digest : List.Vector UInt8 16) (i j k : Fin 16) : Nat :=
  byteAt digest i <<< 16 ||| byteAt digest j <<< 8 ||| byteAt digest k

/-- The 22 characters of a digest, in Apache's byte order. -/
def encodeDigest (digest : List.Vector UInt8 16) : List Char :=
  to64 (packed digest 0 6 12) 4 ++ to64 (packed digest 1 7 13) 4 ++
  to64 (packed digest 2 8 14) 4 ++ to64 (packed digest 3 9 15) 4 ++
  to64 (packed digest 4 10 5) 4 ++ to64 (byteAt digest 11) 2

/-- `password.encode("utf-8")`; a salt is encoded the same way. -/
def encodeText (text : String) : Bytes :=
  text.toUTF8.data.toList

/-- The digest a hash of the password carries. -/
def passwordDigest (md5 : Md5) (password salt : String) : List.Vector UInt8 16 :=
  stretched md5 (encodeText password) (encodeText salt)

/-- `_crypt_apr1` -/
def cryptApr1 (md5 : Md5) (password salt : String) : String :=
  "$apr1$" ++ salt ++ "$" ++ String.ofList (encodeDigest (passwordDigest md5 password salt))

/-- Eight draws of `secrets.choice(_SALT_CHARS)`. -/
def drawnSalt (draws : List.Vector (Fin 64) 8) : String :=
  String.ofList (draws.toList.map fun i => itoa64Char i.val)

/-- `hash_apr1` with the salt it draws. -/
def hashApr1 (md5 : Md5) (draws : List.Vector (Fin 64) 8) (password : String) : String :=
  cryptApr1 md5 password (drawnSalt draws)

/-- `verify_apr1`, `none` where it raises: `salt.encode("ascii")` and `compare_digest` take ASCII
only. -/
def verifyApr1 (md5 : Md5) (password hashed : String) : Option Bool :=
  match hashed.toList.splitOn '$' with
  | [_, name, salt, _] =>
    if name ≠ "apr1".toList then some false
    else if hashed.toList.all (·.toNat < 128) then
      some (cryptApr1 md5 password (String.ofList salt) = hashed)
    else none
  | _ => some false

/-! ### The digits -/

theorem itoa64Char_inj {m n : Nat} (same : itoa64Char m = itoa64Char n) : m % 64 = n % 64 := by
  have digits : ∀ i j : Fin 64, itoa64.getD i '.' = itoa64.getD j '.' → i = j := by
    decide +kernel
  have mask : ∀ value : Nat, value &&& 0x3F = value % 64 := fun value =>
    Nat.and_two_pow_sub_one_eq_mod value 6
  simp only [itoa64Char, mask] at same
  have equal := digits ⟨m % 64, Nat.mod_lt _ (by decide)⟩ ⟨n % 64, Nat.mod_lt _ (by decide)⟩ same
  exact Fin.mk.inj equal

/-- Digits enough for both numbers tell them apart. -/
theorem to64_inj {count m n : Nat} (left : m < 64 ^ count) (right : n < 64 ^ count)
    (same : to64 m count = to64 n count) : m = n := by
  induction count generalizing m n with
  | zero =>
    rw [pow_zero] at left right
    omega
  | succ count ih =>
    obtain ⟨low, high⟩ := List.cons.inj same
    have first := itoa64Char_inj low
    have shift : ∀ value : Nat, value >>> 6 = value / 64 :=
      fun value => Nat.shiftRight_eq_div_pow ..
    rw [shift, shift] at high
    have rest := ih (by rw [pow_succ] at left; omega) (by rw [pow_succ] at right; omega) high
    omega

@[simp] theorem length_to64 (value count : Nat) : (to64 value count).length = count := by
  induction count generalizing value with
  | zero => rfl
  | succ count ih => rw [to64, List.length_cons, ih]

theorem mem_to64 {value count : Nat} {c : Char} (member : c ∈ to64 value count) : c ∈ itoa64 := by
  induction count generalizing value with
  | zero => cases member
  | succ count ih =>
    rcases List.mem_cons.mp member with rfl | later
    · have below : value &&& 0x3F < itoa64.length := by
        rw [Nat.and_two_pow_sub_one_eq_mod value 6]
        exact Nat.mod_lt _ (by decide)
      rw [itoa64Char, List.getD_eq_getElem?_getD, List.getElem?_eq_getElem below, Option.getD_some]
      exact List.getElem_mem below
    · exact ih later

/-! ### The whole digest -/

theorem packed_eq (digest : List.Vector UInt8 16) (i j k : Fin 16) : packed digest i j k =
    byteAt digest i * 65536 + byteAt digest j * 256 + byteAt digest k := by
  have small : ∀ n, byteAt digest n < 2 ^ 8 := fun n => (digest.get n).toNat_lt
  have low := Nat.shiftLeft_add_eq_or_of_lt (small k) (byteAt digest j)
  have below : byteAt digest j <<< 8 + byteAt digest k < 2 ^ 16 := by
    have := small j
    have := small k
    rw [Nat.shiftLeft_eq]
    omega
  have high := Nat.shiftLeft_add_eq_or_of_lt below (byteAt digest i)
  rw [packed, Nat.or_assoc, ← low, ← high, Nat.shiftLeft_eq, Nat.shiftLeft_eq]
  omega

theorem packed_inj {left right : List.Vector UInt8 16} {i j k : Fin 16}
    (same : to64 (packed left i j k) 4 = to64 (packed right i j k) 4) :
    left.get i = right.get i ∧ left.get j = right.get j ∧ left.get k = right.get k := by
  have below : ∀ digest : List.Vector UInt8 16, packed digest i j k < 64 ^ 4 := by
    intro digest
    have := (digest.get i).toNat_lt
    have := (digest.get j).toNat_lt
    have := (digest.get k).toNat_lt
    rw [packed_eq]
    simp only [byteAt]
    omega
  have equal := to64_inj (below left) (below right) same
  rw [packed_eq, packed_eq] at equal
  simp only [byteAt] at equal
  have := (left.get j).toNat_lt
  have := (left.get k).toNat_lt
  have := (right.get j).toNat_lt
  have := (right.get k).toNat_lt
  refine ⟨UInt8.toNat_inj.mp ?_, UInt8.toNat_inj.mp ?_, UInt8.toNat_inj.mp ?_⟩
  all_goals omega

/-- No byte is left out: every index is in one of the six groups. -/
theorem encodeDigest_injective : Function.Injective encodeDigest := by
  intro left right same
  simp only [encodeDigest] at same
  obtain ⟨same, last⟩ := List.append_inj same (by simp)
  obtain ⟨same, fifth⟩ := List.append_inj same (by simp)
  obtain ⟨same, fourth⟩ := List.append_inj same (by simp)
  obtain ⟨same, third⟩ := List.append_inj same (by simp)
  obtain ⟨first, second⟩ := List.append_inj same (by simp)
  obtain ⟨b0, b6, b12⟩ := packed_inj first
  obtain ⟨b1, b7, b13⟩ := packed_inj second
  obtain ⟨b2, b8, b14⟩ := packed_inj third
  obtain ⟨b3, b9, b15⟩ := packed_inj fourth
  obtain ⟨b4, b10, b5⟩ := packed_inj fifth
  have b11 : left.get 11 = right.get 11 := UInt8.toNat_inj.mp <| to64_inj
    ((left.get 11).toNat_lt.trans (by decide)) ((right.get 11).toNat_lt.trans (by decide)) last
  apply List.Vector.ext
  intro i
  fin_cases i
  all_goals assumption

theorem mem_encodeDigest {digest : List.Vector UInt8 16} {c : Char}
    (member : c ∈ encodeDigest digest) : c ∈ itoa64 := by
  simp only [encodeDigest, List.mem_append] at member
  rcases member with ((((first | second) | third) | fourth) | fifth) | last
  all_goals exact mem_to64 (by assumption)

/-! ### Checking a password -/

theorem mem_drawnSalt {draws : List.Vector (Fin 64) 8} {c : Char}
    (member : c ∈ (drawnSalt draws).toList) : c ∈ itoa64 := by
  rw [drawnSalt, String.toList_ofList] at member
  obtain ⟨i, _, rfl⟩ := List.mem_map.mp member
  have digit : itoa64Char i.val ∈ to64 i.val 1 := List.mem_cons_self ..
  exact mem_to64 digit

/-- The parts of a hash text between its dollar signs. -/
theorem splitOn_hashApr1 (md5 : Md5) (draws : List.Vector (Fin 64) 8) (password : String) :
    (hashApr1 md5 draws password).toList.splitOn '$' =
      [[], "apr1".toList, (drawnSalt draws).toList,
        encodeDigest (passwordDigest md5 password (drawnSalt draws))] := by
  have free : '$' ∉ itoa64 := by decide
  have whole : (hashApr1 md5 draws password).toList = ['$'].intercalate
      [[], "apr1".toList, (drawnSalt draws).toList,
        encodeDigest (passwordDigest md5 password (drawnSalt draws))] := by
    simp [hashApr1, cryptApr1, List.intercalate, List.intersperse]
  rw [whole]
  refine List.splitOn_intercalate _ ?_ (by simp)
  intro part member
  simp only [List.mem_cons, List.not_mem_nil, or_false] at member
  rcases member with rfl | rfl | rfl | rfl
  · simp
  · decide
  · exact fun inside => free (mem_drawnSalt inside)
  · exact fun inside => free (mem_encodeDigest inside)

theorem mem_hashApr1 {md5 : Md5} {draws : List.Vector (Fin 64) 8} {password : String} {c : Char}
    (member : c ∈ (hashApr1 md5 draws password).toList) : c = '$' ∨ c ∈ itoa64 := by
  simp only [hashApr1, cryptApr1, String.toList_append, String.toList_ofList, List.mem_append]
    at member
  rcases member with ((name | salt) | dollar) | digest
  · revert name
    -- `$apr1$`
    have known : ("$apr1$".toList.all fun d => d = '$' || d ∈ itoa64) = true := by decide
    intro name
    simpa using List.all_eq_true.mp known c name
  · exact Or.inr (mem_drawnSalt salt)
  · exact Or.inl (List.mem_singleton.mp dollar)
  · exact Or.inr (mem_encodeDigest digest)

theorem ascii_hashApr1 (md5 : Md5) (draws : List.Vector (Fin 64) 8) (password : String) :
    (hashApr1 md5 draws password).toList.all (·.toNat < 128) = true := by
  have digits : (itoa64.all fun d => d.toNat < 128) = true := by decide
  refine List.all_eq_true.mpr fun c member => ?_
  rcases mem_hashApr1 member with rfl | digit
  · rfl
  · exact List.all_eq_true.mp digits c digit

theorem cryptApr1_inj {md5 : Md5} {password other salt : String} :
    cryptApr1 md5 other salt = cryptApr1 md5 password salt ↔
      passwordDigest md5 other salt = passwordDigest md5 password salt := by
  constructor
  · intro same
    have texts := congrArg String.toList same
    simp only [cryptApr1, String.toList_append, String.toList_ofList] at texts
    exact encodeDigest_injective (List.append_cancel_left texts)
  · intro same
    rw [cryptApr1, same]
    rfl

theorem verifyApr1_hashApr1 (md5 : Md5) (draws : List.Vector (Fin 64) 8)
    (password other : String) : verifyApr1 md5 other (hashApr1 md5 draws password) =
      some (decide (passwordDigest md5 other (drawnSalt draws) =
        passwordDigest md5 password (drawnSalt draws))) := by
  simp only [verifyApr1, splitOn_hashApr1, ne_eq, not_true_eq_false, if_false, ascii_hashApr1,
    if_true, String.ofList_toList]
  exact congrArg some (decide_eq_decide.mpr cryptApr1_inj)

theorem verifyApr1_own (md5 : Md5) (draws : List.Vector (Fin 64) 8) (password : String) :
    verifyApr1 md5 password (hashApr1 md5 draws password) = some true := by
  rw [verifyApr1_hashApr1, decide_eq_true rfl]

/-- A password passes against its own hash, two digests are never written alike, and what
passes is exactly what has the digest of the last round. -/
theorem apr1_complete (md5 : Md5) (draws : List.Vector (Fin 64) 8) (password : String) :
    verifyApr1 md5 password (hashApr1 md5 draws password) = some true ∧
    Function.Injective encodeDigest ∧
    (∀ digest, (encodeDigest digest).length = 22) ∧
    ∀ other, verifyApr1 md5 other (hashApr1 md5 draws password) =
      some (decide (passwordDigest md5 other (drawnSalt draws) =
        passwordDigest md5 password (drawnSalt draws))) := by
  refine ⟨verifyApr1_own .., encodeDigest_injective, fun digest => ?_,
    fun other => verifyApr1_hashApr1 ..⟩
  simp [encodeDigest]

/-! ### A digest that ignores its input -/

def zeroMd5 : Md5 := fun _ => List.Vector.replicate 16 0

def zeroDraws : List.Vector (Fin 64) 8 := List.Vector.replicate 8 0

end MegooPM
