import MegooPM.Lib.Bytes
import Mathlib.Data.Vector.Defs
import Mathlib.Data.List.Infix

/-!
# The backup envelope

`services/backup/crypto.py`: a clear header, then chunks that are sealed one by one under a
counter nonce and framed by their length, then four zero bytes. The writer and the reader are
two loops; the header is the associated data of every chunk.
-/
namespace MegooPM

open Lib

/-! ### The format -/

/-- AES-GCM with nonces of twelve bytes. -/
structure Aead where
  /-- key, nonce, data, associated data -/
  encrypt : Bytes → Bytes → Bytes → Bytes → Bytes
  /-- `none` is `InvalidTag` -/
  decrypt : Bytes → Bytes → Bytes → Bytes → Option Bytes
  decrypt_encrypt : ∀ key nonce plain data, nonce.length = 12 →
    decrypt key nonce (encrypt key nonce plain data) data = some plain
  length_encrypt : ∀ key nonce plain data, nonce.length = 12 →
    (encrypt key nonce plain data).length = plain.length + 16

/-- What the module takes from libraries. -/
structure CryptoEnv where
  aead : Aead
  /-- the HKDF, of a secret and a salt -/
  hkdf : Bytes → Bytes → Bytes
  sha256 : Bytes → List.Vector UInt8 32

/-- `MEGOOPMBK` -/
def magic : Bytes := [77, 69, 71, 79, 79, 80, 77, 66, 75]

def formatVersion : UInt8 := 1

def saltBytes : Nat := 16

def fingerprintBytes : Nat := 8

def noncePrefixBytes : Nat := 8

def headerBytes : Nat :=
  magic.length + 1 + saltBytes + fingerprintBytes + noncePrefixBytes

def chunkBytes : Nat := 1024 * 1024

/-- `megoopm-backup-v1` -/
def info : Bytes := [109, 101, 103, 111, 111, 112, 109, 45, 98, 97, 99, 107, 117, 112, 45, 118, 49]

def terminator : Bytes := [0, 0, 0, 0]

def maxTagOverhead : Nat := 64

inductive BackupError where
  /-- `BackupFormatError` -/
  | format (message : String)
  /-- `BackupKeyError` -/
  | key (message : String)
  /-- `struct.error` -/
  | struct
  deriving DecidableEq, Repr

structure Header where
  version : UInt8
  salt : Bytes
  fingerprint : Bytes
  noncePrefix : Bytes
  raw : Bytes
  deriving DecidableEq, Repr

/-- The bytes behind the hexadecimal text. -/
def keyFingerprint (env : CryptoEnv) (secretKey : Bytes) : Bytes :=
  (env.sha256 (info ++ secretKey)).toList.take fingerprintBytes

def readHeader (src : Bytes) : Except BackupError (Header × Bytes) :=
  let raw := src.take headerBytes
  if raw.length < headerBytes ∨ ¬magic <+: raw then .error (.format "not a MegooPM backup file")
  else
    let version := raw.getD magic.length 0
    if version ≠ formatVersion then
      .error (.format ("unsupported backup format version " ++ version.toNat.repr))
    else
      let offset := magic.length + 1
      .ok ({ version := version
             salt := (raw.drop offset).take saltBytes
             fingerprint := (raw.drop (offset + saltBytes)).take fingerprintBytes
             noncePrefix := (raw.drop (offset + saltBytes + fingerprintBytes)).take noncePrefixBytes
             raw := raw }, src.drop headerBytes)

/-! ### Writing -/

/-- What a file object hands out, read by read. -/
structure Source where
  reads : List Bytes
  nonempty : ∀ read ∈ reads, read ≠ []
  bounded : ∀ read ∈ reads, read.length ≤ chunkBytes

/-- All it holds. -/
def Source.bytes (src : Source) : Bytes :=
  src.reads.flatten

/-- One call of the AEAD. -/
structure SealedChunk where
  nonce : Bytes
  plain : Bytes
  ciphertext : Bytes
  deriving DecidableEq, Repr

def fileHeader (env : CryptoEnv) (secretKey : Bytes) (salt : List.Vector UInt8 16)
    (noncePrefix : List.Vector UInt8 8) : Bytes :=
  magic ++ [formatVersion] ++ salt.toList ++ keyFingerprint env secretKey ++ noncePrefix.toList

/-- The loop of `encrypt_stream` from some counter on: what is sealed, and what is written. -/
def sealChunks (aead : Aead) (key noncePrefix header : Bytes) :
    Nat → List Bytes → Option (List SealedChunk × Bytes)
  | _, [] => some ([], terminator)
  | counter, plain :: reads =>
    if plain = [] then some ([], terminator)
    else do
      let nonce := noncePrefix ++ (← pack32 counter)
      let ciphertext := aead.encrypt key nonce plain header
      let length ← pack32 ciphertext.length
      let (chunks, written) ← sealChunks aead key noncePrefix header (counter + 1) reads
      some ({ nonce := nonce, plain := plain, ciphertext := ciphertext } :: chunks,
        length ++ ciphertext ++ written)

/-- The salt and the nonce prefix are random. `none` where it raises. -/
def encryptStream (env : CryptoEnv) (src : Source) (secretKey : Bytes)
    (salt : List.Vector UInt8 16) (noncePrefix : List.Vector UInt8 8) :
    Option (List SealedChunk × Bytes) := do
  let header := fileHeader env secretKey salt noncePrefix
  let (chunks, written) ← sealChunks env.aead (env.hkdf secretKey salt.toList) noncePrefix.toList
    header 0 src.reads
  some (chunks, header ++ written)

/-! ### Reading -/

/-- One round of `_chunks`: the plaintext and what is left of the file, or the end. -/
def nextChunk (aead : Aead) (key : Bytes) (header : Header) (counter : Nat) (src : Bytes) :
    Except BackupError (Option (Bytes × Bytes)) :=
  let lengthBytes := src.take 4
  if lengthBytes.length < 4 then .error (.format "backup file ends mid-chunk")
  else
    let length := natBE lengthBytes
    if length = 0 then .ok none
    else if chunkBytes + maxTagOverhead < length then
      .error (.format "backup chunk is larger than this format allows")
    else
      let ciphertext := (src.drop 4).take length
      if ciphertext.length < length then .error (.format "backup file ends mid-chunk")
      else match pack32 counter with
        | none => .error .struct
        | some packed =>
          match aead.decrypt key (header.noncePrefix ++ packed) ciphertext header.raw with
          | none => .error (.key "wrong SECRET_KEY, or the backup is damaged")
          | some plain => .ok (some (plain, (src.drop 4).drop length))

/-- A round that yields has read one frame. -/
theorem nextChunk_some {aead : Aead} {key : Bytes} {header : Header} {counter : Nat}
    {src plain rest : Bytes}
    (next : nextChunk aead key header counter src = .ok (some (plain, rest))) :
    ∃ ciphertext, src = bytesBE 4 ciphertext.length ++ ciphertext ++ rest ∧ counter < 2 ^ 32 ∧
      aead.decrypt key (header.noncePrefix ++ bytesBE 4 counter) ciphertext header.raw = some plain := by
  unfold nextChunk at next
  simp only at next
  split at next
  · cases next
  next enough =>
    split at next
    · cases next
    · split at next
      · cases next
      · split at next
        · cases next
        next whole =>
          split at next
          · cases next
          next packed counted =>
            split at next
            · cases next
            next opened =>
              cases next
              unfold pack32 at counted
              split at counted
              next fits =>
                cases counted
                refine ⟨_, ?_, fits, opened⟩
                -- the four bytes are the ones the length packs to
                have four : (src.take 4).length = 4 := by
                  rw [List.length_take] at enough ⊢
                  omega
                have length : ((src.drop 4).take (natBE (src.take 4))).length =
                    natBE (src.take 4) := by
                  rw [List.length_take] at whole ⊢
                  omega
                have bytes := bytesBE_natBE (src.take 4)
                rw [four] at bytes
                rw [length, bytes, List.append_assoc, List.take_append_drop,
                  List.take_append_drop]
              next => cases counted

/-- A round that ends the loop has read the terminator. -/
theorem nextChunk_none {aead : Aead} {key : Bytes} {header : Header} {counter : Nat} {src : Bytes}
    (next : nextChunk aead key header counter src = .ok none) : ∃ rest, src = terminator ++ rest := by
  unfold nextChunk at next
  simp only at next
  split at next
  · cases next
  next enough =>
    split at next
    next zero =>
      have four : (src.take 4).length = 4 := by
        rw [List.length_take] at enough ⊢
        omega
      have bytes := bytesBE_natBE (src.take 4)
      rw [four, zero] at bytes
      exact ⟨src.drop 4, (bytes ▸ List.take_append_drop 4 src).symm⟩
    · split at next
      · cases next
      · split at next
        · cases next
        · split at next
          · cases next
          · split at next <;> cases next

/-- A round takes the length at least. -/
theorem nextChunk_shorter {aead : Aead} {key : Bytes} {header : Header} {counter : Nat}
    {src plain rest : Bytes}
    (next : nextChunk aead key header counter src = .ok (some (plain, rest))) :
    rest.length < src.length := by
  obtain ⟨ciphertext, rfl, _, _⟩ := nextChunk_some next
  simp only [List.length_append, length_bytesBE]
  omega

/-- The loop of `decrypt_stream` from some counter on: what is written. -/
def openChunks (aead : Aead) (key : Bytes) (header : Header) (counter : Nat) (src : Bytes) :
    Except BackupError Bytes :=
  match _next : nextChunk aead key header counter src with
  | .error e => .error e
  | .ok none => .ok []
  | .ok (some (plain, rest)) =>
    (openChunks aead key header (counter + 1) rest).map (plain ++ ·)
termination_by src.length
decreasing_by exact nextChunk_shorter _next

def decryptStream (env : CryptoEnv) (src secretKey : Bytes) : Except BackupError (Header × Bytes) := do
  let (header, rest) ← readHeader src
  let written ← openChunks env.aead (env.hkdf secretKey header.salt) header 0 rest
  .ok (header, written)

/-- Open only the first chunk. -/
def decryptFirstChunk (env : CryptoEnv) (src secretKey : Bytes) : Except BackupError Bytes := do
  let (header, rest) ← readHeader src
  match ← nextChunk env.aead (env.hkdf secretKey header.salt) header 0 rest with
  | none => .ok []
  | some (plain, _) => .ok plain

/-! ### What is written -/

/-- The call of the AEAD for one read. -/
def chunkAt (aead : Aead) (key noncePrefix header : Bytes) (counter : Nat) (plain : Bytes) :
    SealedChunk :=
  let nonce := noncePrefix ++ bytesBE 4 counter
  { nonce := nonce, plain := plain, ciphertext := aead.encrypt key nonce plain header }

def chunksFrom (aead : Aead) (key noncePrefix header : Bytes) : Nat → List Bytes → List SealedChunk
  | _, [] => []
  | counter, plain :: reads =>
    chunkAt aead key noncePrefix header counter plain ::
      chunksFrom aead key noncePrefix header (counter + 1) reads

/-- A chunk in the file. -/
def SealedChunk.frame (chunk : SealedChunk) : Bytes :=
  bytesBE 4 chunk.ciphertext.length ++ chunk.ciphertext

def frames (chunks : List SealedChunk) : Bytes :=
  chunks.flatMap SealedChunk.frame

section Loops

variable {aead : Aead} {key noncePrefix header : Bytes}

theorem length_nonce (eight : noncePrefix.length = 8) (counter : Nat) :
    (noncePrefix ++ bytesBE 4 counter).length = 12 := by
  rw [List.length_append, eight, length_bytesBE]

theorem length_chunkAt (eight : noncePrefix.length = 8) (counter : Nat) (plain : Bytes) :
    (chunkAt aead key noncePrefix header counter plain).ciphertext.length = plain.length + 16 :=
  aead.length_encrypt key _ plain header (length_nonce eight counter)

/-- A sealed read is short enough for the reader. -/
theorem sealed_fits {plain : Bytes} (bounded : plain.length ≤ chunkBytes) :
    plain.length + 16 ≤ chunkBytes + maxTagOverhead ∧ plain.length + 16 < 2 ^ 32 := by
  simp only [chunkBytes, maxTagOverhead] at *
  omega

theorem sealChunks_eq (eight : noncePrefix.length = 8) {counter : Nat} {reads : List Bytes}
    (nonempty : ∀ read ∈ reads, read ≠ []) (bounded : ∀ read ∈ reads, read.length ≤ chunkBytes)
    (fits : counter + reads.length ≤ 2 ^ 32) :
    sealChunks aead key noncePrefix header counter reads =
      some (chunksFrom aead key noncePrefix header counter reads,
        frames (chunksFrom aead key noncePrefix header counter reads) ++ terminator) := by
  induction reads generalizing counter with
  | nil => rfl
  | cons plain reads ih =>
    rw [List.length_cons] at fits
    have small : (chunkAt aead key noncePrefix header counter plain).ciphertext.length < 2 ^ 32 := by
      rw [length_chunkAt eight]
      exact (sealed_fits (bounded plain (List.mem_cons_self ..))).2
    have rest := ih (fun read member => nonempty read (List.mem_cons_of_mem _ member))
      (fun read member => bounded read (List.mem_cons_of_mem _ member))
      (show counter + 1 + reads.length ≤ 2 ^ 32 by omega)
    rw [sealChunks, if_neg (nonempty plain (List.mem_cons_self ..)), pack32_of_lt (by omega)]
    simp only [Option.bind_eq_bind, Option.bind_some, rest]
    simp only [chunkAt] at small
    rw [pack32_of_lt small]
    simp only [Option.bind_some, chunksFrom, chunkAt, frames, List.flatMap_cons, SealedChunk.frame,
      List.append_assoc]

/-- A counter of four bytes is not enough. -/
theorem sealChunks_none {counter : Nat} {reads : List Bytes}
    (nonempty : ∀ read ∈ reads, read ≠ []) (start : counter ≤ 2 ^ 32)
    (long : 2 ^ 32 < counter + reads.length) :
    sealChunks aead key noncePrefix header counter reads = none := by
  induction reads generalizing counter with
  | nil =>
    rw [List.length_nil] at long
    omega
  | cons plain reads ih =>
    rw [List.length_cons] at long
    rw [sealChunks, if_neg (nonempty plain (List.mem_cons_self ..))]
    by_cases last : counter = 2 ^ 32
    · rw [pack32, if_neg (by omega)]
      rfl
    · have rest := ih (fun read member => nonempty read (List.mem_cons_of_mem _ member))
        (show counter + 1 ≤ 2 ^ 32 by omega) (by omega)
      simp only [rest, Option.bind_eq_bind, Option.bind_none, Option.bind_fun_none]

/-- What was sealed is a read under its own counter. -/
theorem mem_chunksFrom {counter : Nat} {reads : List Bytes} {chunk : SealedChunk} :
    chunk ∈ chunksFrom aead key noncePrefix header counter reads ↔
      ∃ i plain, reads[i]? = some plain ∧
        chunk = chunkAt aead key noncePrefix header (counter + i) plain := by
  induction reads generalizing counter with
  | nil => simp [chunksFrom]
  | cons first reads ih =>
    rw [chunksFrom, List.mem_cons, ih]
    constructor
    · rintro (rfl | ⟨i, plain, there, rfl⟩)
      · exact ⟨0, first, rfl, rfl⟩
      · exact ⟨i + 1, plain, there, by rw [Nat.add_right_comm, Nat.add_assoc]⟩
    · rintro ⟨i, plain, there, rfl⟩
      cases i with
      | zero =>
        cases there
        exact Or.inl rfl
      | succ i => exact Or.inr ⟨i, plain, there, by rw [Nat.add_right_comm, Nat.add_assoc]⟩

/-- Counters tell nonces apart. -/
theorem nonce_inj {i j : Nat} (left : i < 2 ^ 32) (right : j < 2 ^ 32)
    (same : noncePrefix ++ bytesBE 4 i = noncePrefix ++ bytesBE 4 j) : i = j :=
  bytesBE_inj left right (List.append_cancel_left same)

theorem nodup_nonces {counter : Nat} {reads : List Bytes} (fits : counter + reads.length ≤ 2 ^ 32) :
    ((chunksFrom aead key noncePrefix header counter reads).map (·.nonce)).Nodup := by
  induction reads generalizing counter with
  | nil => exact List.nodup_nil
  | cons plain reads ih =>
    rw [List.length_cons] at fits
    rw [chunksFrom, List.map_cons, List.nodup_cons]
    refine ⟨fun again => ?_, ih (by omega)⟩
    obtain ⟨chunk, member, same⟩ := List.mem_map.mp again
    obtain ⟨i, _, there, rfl⟩ := mem_chunksFrom.mp member
    have bound := (List.getElem?_eq_some_iff.mp there).1
    have equal := nonce_inj (by omega) (by omega) same
    omega

/-! ### What is read back -/

variable {h : Header}

theorem nextChunk_terminator (counter : Nat) (rest : Bytes) :
    nextChunk aead key h counter (terminator ++ rest) = .ok none := by
  simp [nextChunk, terminator, natBE]

/-- A round reads the frame that was written under its counter. -/
theorem nextChunk_frame (eight : h.noncePrefix.length = 8) {counter : Nat} (counts : counter < 2 ^ 32)
    {plain : Bytes} (bounded : plain.length ≤ chunkBytes) (rest : Bytes) :
    nextChunk aead key h counter
      ((chunkAt aead key h.noncePrefix h.raw counter plain).frame ++ rest) =
      .ok (some (plain, rest)) := by
  obtain ⟨short, fits⟩ := sealed_fits bounded
  have opened : aead.decrypt key (h.noncePrefix ++ bytesBE 4 counter)
      (chunkAt aead key h.noncePrefix h.raw counter plain).ciphertext h.raw = some plain :=
    aead.decrypt_encrypt key _ plain h.raw (length_nonce eight counter)
  have length : (chunkAt aead key h.noncePrefix h.raw counter plain).ciphertext.length =
      plain.length + 16 := length_chunkAt eight counter plain
  generalize (chunkAt aead key h.noncePrefix h.raw counter plain) = chunk at opened length ⊢
  have four : (bytesBE 4 chunk.ciphertext.length).length = 4 := length_bytesBE 4 _
  have taken : (chunk.frame ++ rest).take 4 = bytesBE 4 chunk.ciphertext.length := by
    rw [SealedChunk.frame, List.append_assoc, List.take_left' four]
  have dropped : (chunk.frame ++ rest).drop 4 = chunk.ciphertext ++ rest := by
    rw [SealedChunk.frame, List.append_assoc, List.drop_left' four]
  have number : natBE (bytesBE 4 chunk.ciphertext.length) = chunk.ciphertext.length :=
    natBE_bytesBE (by rw [length]; exact fits)
  unfold nextChunk
  simp only [taken, dropped, number, four, lt_irrefl, if_false, List.take_left, List.drop_left,
    pack32_of_lt counts, opened]
  rw [if_neg (by omega), if_neg (by omega)]

theorem openChunks_end {counter : Nat} {src : Bytes}
    (next : nextChunk aead key h counter src = .ok none) :
    openChunks aead key h counter src = .ok [] := by
  rw [openChunks]
  split
  next failed => cases failed.symm.trans next
  next => rfl
  next more => cases more.symm.trans next

theorem openChunks_more {counter : Nat} {src plain rest : Bytes}
    (next : nextChunk aead key h counter src = .ok (some (plain, rest))) :
    openChunks aead key h counter src =
      (openChunks aead key h (counter + 1) rest).map (plain ++ ·) := by
  rw [openChunks]
  split
  next failed => cases failed.symm.trans next
  next ended => cases ended.symm.trans next
  next more =>
    cases more.symm.trans next
    rfl

/-- The rounds of a loop that ends well. -/
theorem openChunks_ok {counter : Nat} {src written : Bytes}
    (opened : openChunks aead key h counter src = .ok written) :
    (nextChunk aead key h counter src = .ok none ∧ written = []) ∨
    ∃ plain rest later, nextChunk aead key h counter src = .ok (some (plain, rest)) ∧
      openChunks aead key h (counter + 1) rest = .ok later ∧ written = plain ++ later := by
  rw [openChunks] at opened
  split at opened
  · cases opened
  next ended =>
    cases opened
    exact Or.inl ⟨ended, rfl⟩
  next plain rest next =>
    cases others : openChunks aead key h (counter + 1) rest with
    | error e =>
      rw [others] at opened
      cases opened
    | ok later =>
      rw [others] at opened
      cases opened
      exact Or.inr ⟨plain, rest, later, next, others, rfl⟩

theorem openChunks_frames (eight : h.noncePrefix.length = 8) {counter : Nat} {reads : List Bytes}
    (bounded : ∀ read ∈ reads, read.length ≤ chunkBytes) (fits : counter + reads.length ≤ 2 ^ 32)
    (rest : Bytes) :
    openChunks aead key h counter
      (frames (chunksFrom aead key h.noncePrefix h.raw counter reads) ++ (terminator ++ rest)) =
      .ok reads.flatten := by
  induction reads generalizing counter with
  | nil => exact openChunks_end (nextChunk_terminator counter rest)
  | cons plain reads ih =>
    rw [List.length_cons] at fits
    rw [chunksFrom, frames, List.flatMap_cons, List.append_assoc,
      openChunks_more (nextChunk_frame eight (by omega) (bounded plain (List.mem_cons_self ..)) _)]
    have others := ih (fun read member => bounded read (List.mem_cons_of_mem _ member))
      (show counter + 1 + reads.length ≤ 2 ^ 32 by omega)
    rw [frames] at others
    rw [others]
    rfl

end Loops

/-! ### Round trip -/

section File

variable (env : CryptoEnv) (secretKey : Bytes) (salt : List.Vector UInt8 16)
  (noncePrefix : List.Vector UInt8 8)

/-- The header as it is read back. -/
def headerOf : Header where
  version := formatVersion
  salt := salt.toList
  fingerprint := keyFingerprint env secretKey
  noncePrefix := noncePrefix.toList
  raw := fileHeader env secretKey salt noncePrefix

@[simp] theorem headerOf_salt : (headerOf env secretKey salt noncePrefix).salt = salt.toList :=
  rfl

theorem length_fileHeader : (fileHeader env secretKey salt noncePrefix).length = headerBytes := by
  simp [fileHeader, keyFingerprint, headerBytes, saltBytes, fingerprintBytes, noncePrefixBytes,
    List.Vector.toList_length]

private theorem slice_append {a b c : Bytes} {m n : Nat} (before : a.length = m)
    (inside : b.length = n) : ((a ++ (b ++ c)).drop m).take n = b := by
  rw [List.drop_left' before, List.take_left' inside]

theorem readHeader_fileHeader (rest : Bytes) :
    readHeader (fileHeader env secretKey salt noncePrefix ++ rest) =
      .ok (headerOf env secretKey salt noncePrefix, rest) := by
  have length := length_fileHeader env secretKey salt noncePrefix
  have taken : (fileHeader env secretKey salt noncePrefix ++ rest).take headerBytes =
      fileHeader env secretKey salt noncePrefix := List.take_left' length
  have dropped : (fileHeader env secretKey salt noncePrefix ++ rest).drop headerBytes = rest :=
    List.drop_left' length
  have fingerprint : (keyFingerprint env secretKey).length = 8 := by
    simp [keyFingerprint, fingerprintBytes, List.Vector.toList_length]
  have salted : ((fileHeader env secretKey salt noncePrefix).drop 10).take 16 = salt.toList := by
    rw [fileHeader, List.append_assoc, List.append_assoc]
    exact slice_append rfl salt.toList_length
  have printed : ((fileHeader env secretKey salt noncePrefix).drop 26).take 8 =
      keyFingerprint env secretKey := by
    rw [fileHeader, List.append_assoc]
    exact slice_append (by simp [magic, List.Vector.toList_length]) fingerprint
  have counted : ((fileHeader env secretKey salt noncePrefix).drop 34).take 8 =
      noncePrefix.toList := by
    have before : (magic ++ [formatVersion] ++ salt.toList ++ keyFingerprint env secretKey).length =
        34 := by
      simp [magic, fingerprint, List.Vector.toList_length]
    rw [fileHeader, List.drop_left' before, List.take_of_length_le noncePrefix.toList_length.le]
  have start : magic <+: fileHeader env secretKey salt noncePrefix := by
    simp only [fileHeader, List.append_assoc]
    exact List.prefix_append ..
  have version : (fileHeader env secretKey salt noncePrefix).getD magic.length 0 =
      formatVersion := rfl
  unfold readHeader
  simp only [taken, dropped, length, version]
  have whole : ¬(headerBytes < headerBytes ∨ ¬magic <+: fileHeader env secretKey salt noncePrefix) := by
    simp [start]
  rw [if_neg whole, if_neg fun differs => differs rfl]
  simp only [saltBytes, fingerprintBytes, noncePrefixBytes, magic, List.length_cons, List.length_nil,
    salted, printed, counted]
  rfl

/-- What `encrypt_stream` seals. -/
def fileChunks (src : Source) : List SealedChunk :=
  chunksFrom env.aead (env.hkdf secretKey salt.toList) noncePrefix.toList
    (fileHeader env secretKey salt noncePrefix) 0 src.reads

/-- It raises exactly when there are more reads than counters. -/
theorem encryptStream_eq (src : Source) :
    encryptStream env src secretKey salt noncePrefix =
      if src.reads.length ≤ 2 ^ 32 then
        some (fileChunks env secretKey salt noncePrefix src,
          fileHeader env secretKey salt noncePrefix ++
            (frames (fileChunks env secretKey salt noncePrefix src) ++ terminator))
      else none := by
  simp only [encryptStream]
  split
  next fits =>
    rw [sealChunks_eq noncePrefix.toList_length src.nonempty src.bounded
      (show 0 + src.reads.length ≤ 2 ^ 32 by omega)]
    rfl
  next long =>
    rw [sealChunks_none src.nonempty (Nat.zero_le _)
      (show 2 ^ 32 < 0 + src.reads.length by omega)]
    rfl

/-- Frames of the reads behind the header, then the terminator. -/
theorem decryptStream_frames {reads : List Bytes}
    (bounded : ∀ read ∈ reads, read.length ≤ chunkBytes) (fits : reads.length ≤ 2 ^ 32)
    (rest : Bytes) :
    decryptStream env (fileHeader env secretKey salt noncePrefix ++
      (frames (chunksFrom env.aead (env.hkdf secretKey salt.toList) noncePrefix.toList
        (fileHeader env secretKey salt noncePrefix) 0 reads) ++ (terminator ++ rest))) secretKey =
      .ok (headerOf env secretKey salt noncePrefix, reads.flatten) := by
  have opened : openChunks env.aead (env.hkdf secretKey salt.toList)
      (headerOf env secretKey salt noncePrefix) 0 (frames (chunksFrom env.aead
        (env.hkdf secretKey salt.toList) noncePrefix.toList
        (fileHeader env secretKey salt noncePrefix) 0 reads) ++ (terminator ++ rest)) =
      .ok reads.flatten :=
    openChunks_frames noncePrefix.toList_length bounded (by omega) rest
  simp only [decryptStream, readHeader_fileHeader, Except.bind, bind, headerOf_salt, opened]

theorem decryptFirstChunk_file (src : Source) :
    decryptFirstChunk env (fileHeader env secretKey salt noncePrefix ++
      (frames (fileChunks env secretKey salt noncePrefix src) ++ terminator)) secretKey =
      .ok (src.reads.headD []) := by
  unfold fileChunks
  simp only [decryptFirstChunk, readHeader_fileHeader, Except.bind, bind, headerOf_salt]
  cases reads : src.reads with
  | nil =>
    rw [chunksFrom, frames, List.flatMap_nil, List.nil_append, ← List.append_nil terminator,
      nextChunk_terminator]
    rfl
  | cons plain later =>
    have next : ∀ rest, nextChunk env.aead (env.hkdf secretKey salt.toList)
        (headerOf env secretKey salt noncePrefix) 0
        ((chunkAt env.aead (env.hkdf secretKey salt.toList) noncePrefix.toList
          (fileHeader env secretKey salt noncePrefix) 0 plain).frame ++ rest) =
        .ok (some (plain, rest)) :=
      nextChunk_frame noncePrefix.toList_length (by decide)
        (src.bounded plain (reads ▸ List.mem_cons_self ..))
    rw [chunksFrom, frames, List.flatMap_cons, List.append_assoc, next]
    rfl

end File

/-- A source of at most `2 ^ 32` reads comes back byte for byte, its first read can be opened
alone, and no nonce is used twice. -/
theorem envelope_round_trip (env : CryptoEnv) (src : Source) (secretKey : Bytes)
    (salt : List.Vector UInt8 16) (noncePrefix : List.Vector UInt8 8)
    (fits : src.reads.length ≤ 2 ^ 32) :
    ∃ chunks file, encryptStream env src secretKey salt noncePrefix = some (chunks, file) ∧
      decryptStream env file secretKey =
        .ok (headerOf env secretKey salt noncePrefix, src.bytes) ∧
      decryptFirstChunk env file secretKey = .ok (src.reads.headD []) ∧
      src.reads.headD [] <+: src.bytes ∧
      chunks.map (·.plain) = src.reads ∧ (chunks.map (·.nonce)).Nodup := by
  refine ⟨_, _, (encryptStream_eq env secretKey salt noncePrefix src).trans (if_pos fits), ?_,
    decryptFirstChunk_file env secretKey salt noncePrefix src, ?_, ?_, nodup_nonces (by omega)⟩
  · rw [← List.append_nil terminator]
    exact decryptStream_frames env secretKey salt noncePrefix src.bounded fits []
  · unfold Source.bytes
    cases src.reads with
    | nil => exact List.prefix_rfl
    | cons plain later => exact List.prefix_append ..
  · have plains : ∀ counter reads, (chunksFrom env.aead (env.hkdf secretKey salt.toList)
        noncePrefix.toList (fileHeader env secretKey salt noncePrefix) counter reads).map (·.plain) =
        reads := by
      intro counter reads
      induction reads generalizing counter with
      | nil => rfl
      | cons plain later ih => rw [chunksFrom, List.map_cons, ih]; rfl
    exact plains 0 src.reads

/-- A tag of the nonce and the length, behind a mark. -/
def sampleAead : Aead where
  encrypt := fun _ nonce plain _ => 165 :: (nonce ++ (bytesBE 3 plain.length ++ plain))
  decrypt := fun _ nonce ciphertext _ =>
    let plain := ciphertext.drop 16
    if nonce.length = 12 ∧ ciphertext = 165 :: (nonce ++ (bytesBE 3 plain.length ++ plain)) then
      some plain
    else none
  decrypt_encrypt := by
    intro _ nonce plain _ twelve
    have dropped : (165 :: (nonce ++ (bytesBE 3 plain.length ++ plain))).drop 16 = plain := by
      rw [List.drop_succ_cons, ← List.append_assoc]
      exact List.drop_left' (by simp [twelve])
    simp only [dropped, twelve, and_self, if_true]
  length_encrypt := by
    intro _ nonce plain _ twelve
    simp only [List.length_cons, List.length_append, twelve, length_bytesBE]
    omega

def sampleCrypto : CryptoEnv where
  aead := sampleAead
  hkdf := fun secret salt => secret ++ salt
  sha256 := fun _ => List.Vector.replicate 32 7

def sampleSource : Source where
  reads := [[1, 2, 3], [4]]
  nonempty := by decide
  bounded := by
    simp [chunkBytes]

theorem envelope_round_trip_two :
    ∃ chunks file, encryptStream sampleCrypto sampleSource [115] (List.Vector.replicate 16 1)
        (List.Vector.replicate 8 2) = some (chunks, file) ∧ chunks.length = 2 ∧
      (decryptStream sampleCrypto file [115]).map (·.2) = .ok [1, 2, 3, 4] ∧
      decryptFirstChunk sampleCrypto file [115] = .ok [1, 2, 3] := by
  obtain ⟨chunks, file, made, opened, first, _, plains, _⟩ := envelope_round_trip sampleCrypto
    sampleSource [115] (List.Vector.replicate 16 1) (List.Vector.replicate 8 2) (by decide)
  refine ⟨chunks, file, made, ?_, ?_, first⟩
  · have two := congrArg List.length plains
    rwa [List.length_map] at two
  · rw [opened]
    rfl

/-- One byte at a time, one read more than there are counters. -/
def longSource : Source where
  reads := List.replicate (2 ^ 32 + 1) [0]
  nonempty := by
    intro read member
    rw [List.eq_of_mem_replicate member]
    exact List.cons_ne_nil _ _
  bounded := by
    intro read member
    rw [List.eq_of_mem_replicate member, List.length_singleton, chunkBytes]
    decide

theorem long_source_refused :
    ¬∃ chunks file, encryptStream sampleCrypto longSource [115] (List.Vector.replicate 16 1)
      (List.Vector.replicate 8 2) = some (chunks, file) := by
  rintro ⟨chunks, file, made⟩
  have long : ¬longSource.reads.length ≤ 2 ^ 32 := by
    rw [longSource, List.length_replicate]
    decide
  rw [encryptStream_eq, if_neg long] at made
  cases made

end MegooPM
