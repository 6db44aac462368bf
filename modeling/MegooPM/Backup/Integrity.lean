import MegooPM.Backup.Envelope

/-!
# What the envelope authenticates

Whoever lacks the key can only put chunks into a file that were sealed for it. The counter puts
each of them in its place; that the last one is there is said by the terminator alone, which is
not sealed. So a file opens to less than was sealed in exactly one way: chunks are cut off its
end and the terminator is moved up.
-/
namespace MegooPM

open Lib

/-- Nothing in `file` opens but the chunks of the genuine file, each under its own nonce. -/
def Unforged (aead : Aead) (key header : Bytes) (chunks : List SealedChunk) (file : Bytes) : Prop :=
  ∀ nonce ciphertext plain, ciphertext <:+: file →
    aead.decrypt key nonce ciphertext header = some plain →
    ∃ chunk ∈ chunks, chunk.nonce = nonce ∧ chunk.ciphertext = ciphertext

/-- Some chunks at the end are gone, and the terminator comes right after those that are left. -/
def CutShort (header : Bytes) (chunks : List SealedChunk) (file : Bytes) : Prop :=
  ∃ kept rest, kept <+: chunks ∧ kept ≠ chunks ∧
    file = header ++ (frames kept ++ (terminator ++ rest))

section Genuine

variable {aead : Aead} {key : Bytes} {h : Header}

theorem chunksFrom_take (k counter : Nat) (reads : List Bytes) :
    chunksFrom aead key h.noncePrefix h.raw counter (reads.take k) =
      (chunksFrom aead key h.noncePrefix h.raw counter reads).take k := by
  induction reads generalizing k counter with
  | nil => simp [chunksFrom]
  | cons plain reads ih =>
    cases k with
    | zero => rfl
    | succ k => rw [List.take_succ_cons, chunksFrom, chunksFrom, List.take_succ_cons, ih]

theorem length_chunksFrom (counter : Nat) (reads : List Bytes) :
    (chunksFrom aead key h.noncePrefix h.raw counter reads).length = reads.length := by
  induction reads generalizing counter with
  | nil => rfl
  | cons plain reads ih => rw [chunksFrom, List.length_cons, List.length_cons, ih]

/-- The loop reads genuine frames in their order, up to a terminator. -/
theorem openChunks_genuine (eight : h.noncePrefix.length = 8) {counter : Nat} {reads : List Bytes}
    {src written : Bytes}
    (genuine : ∀ i ciphertext plain, counter ≤ i → i < 2 ^ 32 → ciphertext <:+: src →
      aead.decrypt key (h.noncePrefix ++ bytesBE 4 i) ciphertext h.raw = some plain →
      ∃ read, reads[i - counter]? = some read ∧
        ciphertext = (chunkAt aead key h.noncePrefix h.raw i read).ciphertext)
    (opened : openChunks aead key h counter src = .ok written) :
    ∃ k rest, src = frames (chunksFrom aead key h.noncePrefix h.raw counter (reads.take k)) ++
        (terminator ++ rest) ∧ written = (reads.take k).flatten := by
  induction reads generalizing counter src written with
  | nil =>
    rcases openChunks_ok opened with ⟨ended, rfl⟩ | ⟨plain, rest, later, next, _, _⟩
    · obtain ⟨rest, rfl⟩ := nextChunk_none ended
      exact ⟨0, rest, rfl, rfl⟩
    · -- every counter is past the last read
      obtain ⟨ciphertext, rfl, fits, decrypted⟩ := nextChunk_some next
      obtain ⟨read, there, _⟩ := genuine counter ciphertext plain (le_refl _) fits
        ⟨bytesBE 4 ciphertext.length, rest, rfl⟩ decrypted
      simp at there
  | cons first reads ih =>
    rcases openChunks_ok opened with ⟨ended, rfl⟩ | ⟨plain, rest, later, next, others, rfl⟩
    · obtain ⟨rest, rfl⟩ := nextChunk_none ended
      exact ⟨0, rest, rfl, rfl⟩
    · obtain ⟨ciphertext, rfl, fits, decrypted⟩ := nextChunk_some next
      obtain ⟨read, there, rfl⟩ := genuine counter ciphertext plain (le_refl _) fits
        ⟨bytesBE 4 ciphertext.length, rest, rfl⟩ decrypted
      rw [Nat.sub_self, List.getElem?_cons_zero] at there
      cases there
      -- what was sealed under this counter is the read
      have same : plain = first := by
        have back := aead.decrypt_encrypt key _ first h.raw (length_nonce eight counter)
        exact Option.some.inj (decrypted.symm.trans back)
      have genuine' : ∀ i ciphertext plain, counter + 1 ≤ i → i < 2 ^ 32 → ciphertext <:+: rest →
          aead.decrypt key (h.noncePrefix ++ bytesBE 4 i) ciphertext h.raw = some plain →
          ∃ read, reads[i - (counter + 1)]? = some read ∧
            ciphertext = (chunkAt aead key h.noncePrefix h.raw i read).ciphertext := by
        intro i ciphertext plain after fits' inside decrypted'
        obtain ⟨read, there, same⟩ := genuine i ciphertext plain (by omega) fits'
          (inside.trans (List.suffix_append _ rest).isInfix) decrypted'
        rw [show i - counter = i - (counter + 1) + 1 by omega, List.getElem?_cons_succ] at there
        exact ⟨read, there, same⟩
      obtain ⟨k, rest', rfl, rfl⟩ := ih genuine' others
      refine ⟨k + 1, rest', ?_, ?_⟩
      · rw [List.take_succ_cons, chunksFrom, frames, frames, List.flatMap_cons]
        simp only [SealedChunk.frame, List.append_assoc]
      · rw [List.take_succ_cons, List.flatten_cons, same]

/-- Reads that were left out would have been longer than nothing. -/
theorem flatten_take_ne {reads : List Bytes} (nonempty : ∀ read ∈ reads, read ≠ []) {k : Nat}
    (short : k < reads.length) : (reads.take k).flatten ≠ reads.flatten := by
  intro same
  have whole : (reads.take k).flatten ++ (reads.drop k).flatten = reads.flatten := by
    rw [← List.flatten_append, List.take_append_drop]
  have none : (reads.drop k).flatten = [] := by
    rw [← same] at whole
    exact List.append_right_eq_self.mp whole
  have member : reads[k] ∈ reads.drop k := by
    rw [List.drop_eq_getElem_cons short]
    exact List.mem_cons_self ..
  exact nonempty _ (List.getElem_mem short) (List.flatten_eq_nil_iff.mp none _ member)

end Genuine

section File

variable {env : CryptoEnv} {src : Source} {secretKey : Bytes} {salt : List.Vector UInt8 16}
  {noncePrefix : List.Vector UInt8 8}

/-- A file that was cut short opens to less. -/
theorem decryptStream_cut {file : Bytes} (fits : src.reads.length ≤ 2 ^ 32)
    (cut : CutShort (fileHeader env secretKey salt noncePrefix)
      (fileChunks env secretKey salt noncePrefix src) file) :
    ∃ written, decryptStream env file secretKey =
      .ok (headerOf env secretKey salt noncePrefix, written) ∧ written ≠ src.bytes := by
  obtain ⟨kept, rest, start, fewer, rfl⟩ := cut
  have taken := List.prefix_iff_eq_take.mp start
  have short : kept.length < src.reads.length := by
    have bound := start.length_le
    have total : (fileChunks env secretKey salt noncePrefix src).length = src.reads.length :=
      length_chunksFrom (h := headerOf env secretKey salt noncePrefix) 0 src.reads
    have differs : kept.length ≠ (fileChunks env secretKey salt noncePrefix src).length :=
      fun same => fewer (start.eq_of_length same)
    omega
  have those : kept = chunksFrom env.aead (env.hkdf secretKey salt.toList) noncePrefix.toList
      (fileHeader env secretKey salt noncePrefix) 0 (src.reads.take kept.length) :=
    taken.trans (chunksFrom_take (h := headerOf env secretKey salt noncePrefix) _ 0 _).symm
  refine ⟨(src.reads.take kept.length).flatten, ?_, flatten_take_ne src.nonempty short⟩
  have opened := decryptStream_frames env secretKey salt noncePrefix
    (fun read member => src.bounded read (List.mem_of_mem_take member))
    (show (src.reads.take kept.length).length ≤ 2 ^ 32 by
      rw [List.length_take]
      omega) rest
  rw [← those] at opened
  exact opened

/-- What opens is the genuine file up to a terminator. -/
theorem decryptStream_genuine {file : Bytes} {header : Header} {written : Bytes}
    (fits : src.reads.length ≤ 2 ^ 32)
    (starts : fileHeader env secretKey salt noncePrefix <+: file)
    (unforged : Unforged env.aead (env.hkdf secretKey salt.toList)
      (fileHeader env secretKey salt noncePrefix) (fileChunks env secretKey salt noncePrefix src) file)
    (opened : decryptStream env file secretKey = .ok (header, written)) :
    ∃ k rest, written = (src.reads.take k).flatten ∧
      file = fileHeader env secretKey salt noncePrefix ++
        (frames ((fileChunks env secretKey salt noncePrefix src).take k) ++ (terminator ++ rest)) := by
  obtain ⟨body, rfl⟩ := starts
  have loop : openChunks env.aead (env.hkdf secretKey salt.toList)
      (headerOf env secretKey salt noncePrefix) 0 body = .ok written := by
    simp only [decryptStream, readHeader_fileHeader, Except.bind, bind, headerOf_salt] at opened
    split at opened
    · cases opened
    next done =>
      cases opened
      exact done
  have genuine : ∀ i ciphertext plain, 0 ≤ i → i < 2 ^ 32 → ciphertext <:+: body →
      env.aead.decrypt (env.hkdf secretKey salt.toList)
        ((headerOf env secretKey salt noncePrefix).noncePrefix ++ bytesBE 4 i) ciphertext
        (headerOf env secretKey salt noncePrefix).raw = some plain →
      ∃ read, src.reads[i - 0]? = some read ∧
        ciphertext = (chunkAt env.aead (env.hkdf secretKey salt.toList)
          (headerOf env secretKey salt noncePrefix).noncePrefix
          (headerOf env secretKey salt noncePrefix).raw i read).ciphertext := by
    intro i ciphertext plain _ counts inside decrypted
    obtain ⟨chunk, member, nonce, rfl⟩ := unforged _ ciphertext plain
      (inside.trans (List.suffix_append _ body).isInfix) decrypted
    obtain ⟨j, read, there, rfl⟩ := mem_chunksFrom.mp member
    -- a nonce belongs to one counter
    have bound := (List.getElem?_eq_some_iff.mp there).1
    have same : 0 + j = i := nonce_inj (by omega) counts nonce
    rw [Nat.zero_add] at same
    subst same
    exact ⟨read, there, by rw [Nat.zero_add]; rfl⟩
  obtain ⟨k, rest, rfl, rfl⟩ := openChunks_genuine noncePrefix.toList_length genuine loop
  exact ⟨k, rest, rfl, by rw [chunksFrom_take]; rfl⟩

/-- A file that starts with the header of a genuine one and has no forged chunk in it opens to
nothing but what was sealed, unless chunks were cut off its end and the terminator moved up. -/
theorem envelope_intact_iff {chunks : List SealedChunk} {whole file : Bytes}
    (made : encryptStream env src secretKey salt noncePrefix = some (chunks, whole))
    (starts : fileHeader env secretKey salt noncePrefix <+: file)
    (unforged : Unforged env.aead (env.hkdf secretKey salt.toList)
      (fileHeader env secretKey salt noncePrefix) chunks file) :
    (∀ header written, decryptStream env file secretKey = .ok (header, written) →
      written = src.bytes) ↔
    ¬CutShort (fileHeader env secretKey salt noncePrefix) chunks file := by
  rw [encryptStream_eq] at made
  split at made
  next fits =>
    cases made
    constructor
    · intro intact cut
      obtain ⟨written, opened, differs⟩ := decryptStream_cut fits cut
      exact differs (intact _ written opened)
    · intro uncut header written opened
      obtain ⟨k, rest, rfl, rfl⟩ := decryptStream_genuine fits starts unforged opened
      by_cases all : src.reads.length ≤ k
      · rw [List.take_of_length_le all]
        rfl
      · refine absurd ⟨_, rest, List.take_prefix k _, fun same => ?_, rfl⟩ uncut
        have length := congrArg List.length same
        have total : (fileChunks env secretKey salt noncePrefix src).length = src.reads.length :=
          length_chunksFrom (h := headerOf env secretKey salt noncePrefix) 0 src.reads
        rw [List.length_take, total] at length
        omega
  next => cases made

end File

/-! ### A file of one chunk -/

def oneRead : Source where
  reads := [[7]]
  nonempty := by decide
  bounded := by
    simp [chunkBytes]

def sampleHeader : Bytes :=
  fileHeader sampleCrypto [115] (List.Vector.replicate 16 1) (List.Vector.replicate 8 2)

/-- The sealed byte: mark, nonce, length and plaintext. -/
def sampleCiphertext : Bytes := [165, 2, 2, 2, 2, 2, 2, 2, 2, 0, 0, 0, 0, 0, 0, 1, 7]

def sampleChunk : SealedChunk where
  nonce := [2, 2, 2, 2, 2, 2, 2, 2, 0, 0, 0, 0]
  plain := [7]
  ciphertext := sampleCiphertext

def sampleFile : Bytes :=
  sampleHeader ++ (sampleChunk.frame ++ terminator)

theorem sampleFile_made :
    encryptStream sampleCrypto oneRead [115] (List.Vector.replicate 16 1)
      (List.Vector.replicate 8 2) = some ([sampleChunk], sampleFile) := by
  decide

/-- What opens starts with the mark and tells its length. -/
theorem sampleAead_opens {key nonce ciphertext data plain : Bytes}
    (opened : sampleAead.decrypt key nonce ciphertext data = some plain) :
    nonce.length = 12 ∧ ciphertext = 165 :: (nonce ++ (bytesBE 3 plain.length ++ plain)) := by
  simp only [sampleAead] at opened
  split at opened
  next shape =>
    cases opened
    exact shape
  next => cases opened

/-- The mark occurs once. -/
theorem sampleFile_unforged :
    Unforged sampleAead ([115] ++ List.replicate 16 1) sampleHeader [sampleChunk] sampleFile := by
  rintro nonce ciphertext plain ⟨before, after, split⟩ opened
  obtain ⟨twelve, rfl⟩ := sampleAead_opens opened
  have place : before.length = 46 := by
    have mark : sampleFile[before.length]? = some 165 := by
      rw [← split, List.append_assoc, List.getElem?_append_right (le_refl _), Nat.sub_self]
      rfl
    have bound : before.length < 67 := (List.getElem?_eq_some_iff.mp mark).1
    have once : ∀ i < 67, sampleFile[i]? = some 165 → i = 46 := by decide
    exact once _ bound mark
  have tail : (165 :: nonce) ++ (bytesBE 3 plain.length ++ (plain ++ after)) =
      (165 :: sampleChunk.nonce) ++ (bytesBE 3 1 ++ ([7] ++ terminator)) := by
    have dropped := congrArg (List.drop before.length) split
    have rest : sampleFile.drop 46 =
        (165 :: sampleChunk.nonce) ++ (bytesBE 3 1 ++ ([7] ++ terminator)) := by decide
    rw [List.append_assoc, List.drop_left, place, rest] at dropped
    rw [← dropped]
    simp only [List.cons_append, List.append_assoc]
  obtain ⟨own, tail⟩ := List.append_inj tail (by rw [List.length_cons, twelve]; rfl)
  obtain ⟨length, tail⟩ := List.append_inj tail (by rw [length_bytesBE, length_bytesBE])
  have short : plain.length ≤ 5 := by
    have total := congrArg List.length tail
    rw [List.length_append, List.length_append] at total
    have five : ([7] : Bytes).length + terminator.length = 5 := rfl
    omega
  have one : plain.length = 1 := bytesBE_inj (by omega) (by decide) length
  obtain ⟨rfl, _⟩ := List.append_inj tail one
  cases own
  exact ⟨sampleChunk, List.mem_singleton_self _, rfl, rfl⟩

/-- The genuine file opens to its byte. -/
theorem envelope_intact_genuine :
    (decryptStream sampleCrypto sampleFile [115]).map (·.2) = .ok [7] ∧
    ∀ header written, decryptStream sampleCrypto sampleFile [115] = .ok (header, written) →
      written = [7] := by
  have uncut : ¬CutShort sampleHeader [sampleChunk] sampleFile := by
    rintro ⟨kept, rest, start, fewer, same⟩
    have none : kept = [] := by
      rcases List.prefix_cons_iff.mp start with none | ⟨others, rfl, inside⟩
      · exact none
      · rw [List.prefix_nil.mp inside] at fewer
        exact absurd rfl fewer
    have first := congrArg (List.take 4) (List.append_cancel_left same)
    rw [none, frames, List.flatMap_nil, List.nil_append,
      List.take_left' (show terminator.length = 4 from rfl)] at first
    exact absurd first (by decide)
  constructor
  · have file : sampleFile = sampleHeader ++ (frames (chunksFrom sampleAead
        ([115] ++ List.replicate 16 1) (List.replicate 8 2) sampleHeader 0 [[7]]) ++
        (terminator ++ [])) := by decide
    have opened := decryptStream_frames sampleCrypto [115] (List.Vector.replicate 16 1)
      (List.Vector.replicate 8 2) oneRead.bounded (by decide) []
    rw [file]
    exact congrArg (Except.map (·.2)) opened
  · exact (envelope_intact_iff sampleFile_made (List.prefix_append ..) sampleFile_unforged).mpr uncut

/-- The same header with nothing but the terminator behind it. -/
theorem cut_file_opens :
    encryptStream sampleCrypto oneRead [115] (List.Vector.replicate 16 1)
      (List.Vector.replicate 8 2) = some ([sampleChunk], sampleFile) ∧
    Unforged sampleAead ([115] ++ List.replicate 16 1) sampleHeader [sampleChunk]
      (sampleHeader ++ terminator) ∧
    (decryptStream sampleCrypto (sampleHeader ++ terminator) [115]).map (·.2) = .ok [] ∧
    oneRead.bytes = [7] := by
  refine ⟨sampleFile_made, ?_, ?_, rfl⟩
  · -- the mark does not occur, so nothing opens
    rintro nonce ciphertext plain inside opened
    obtain ⟨_, rfl⟩ := sampleAead_opens opened
    have mark : (165 : UInt8) ∈ sampleHeader ++ terminator := inside.subset (List.mem_cons_self ..)
    exact absurd mark (by decide)
  · have bounded : ∀ read ∈ ([] : List Bytes), read.length ≤ chunkBytes := fun _ none => by cases none
    have opened := decryptStream_frames sampleCrypto [115] (List.Vector.replicate 16 1)
      (List.Vector.replicate 8 2) bounded (by decide) []
    exact congrArg (Except.map (·.2)) opened

end MegooPM
