import MegooPM.Backup.Integrity

/-!
# Files cut short

A backup that a full disk cut at any byte, and the rounds that the reader needs. A frame says
its length before it begins and the terminator is four bytes long, so what is left after a cut
always ends where the reader still expects something.
-/
namespace MegooPM

open Lib

/-- `BackupFormatError` or `BackupKeyError`. -/
def BackupError.typed : BackupError → Bool
  | .format _ => true
  | .key _ => true
  | .struct => false

/-- The call raises one of the two errors of the module. -/
def Refused {α : Type} (outcome : Except BackupError α) : Prop :=
  ∃ error, outcome = .error error ∧ error.typed = true

theorem Refused.map {α β : Type} {outcome : Except BackupError α} (refused : Refused outcome)
    (f : α → β) : Refused (outcome.map f) := by
  obtain ⟨error, rfl, typed⟩ := refused
  exact ⟨error, rfl, typed⟩

/-! ### The reader round by round -/

/-- The loop of `_chunks` as the consumer drives it, stopped after some number of rounds;
`none` where it has not ended by then. -/
def chunkRounds (aead : Aead) (key : Bytes) (header : Header) :
    Nat → Nat → Bytes → Option (Except BackupError Bytes)
  | 0, _, _ => none
  | rounds + 1, counter, src =>
    match nextChunk aead key header counter src with
    | .error e => some (.error e)
    | .ok none => some (.ok [])
    | .ok (some (plain, rest)) =>
      (chunkRounds aead key header rounds (counter + 1) rest).map (·.map (plain ++ ·))

/-- `decrypt_stream` with a bound on the rounds of its loop. -/
def decryptRounds (env : CryptoEnv) (rounds : Nat) (src secretKey : Bytes) :
    Option (Except BackupError (Header × Bytes)) :=
  match readHeader src with
  | .error e => some (.error e)
  | .ok (header, rest) =>
    (chunkRounds env.aead (env.hkdf secretKey header.salt) header rounds 0 rest).map
      (·.map fun written => (header, written))

section Rounds

variable {aead : Aead} {key : Bytes} {h : Header}

theorem openChunks_error {counter : Nat} {src : Bytes} {error : BackupError}
    (raised : nextChunk aead key h counter src = .error error) :
    openChunks aead key h counter src = .error error := by
  rw [openChunks]
  split
  next failed =>
    cases failed.symm.trans raised
    rfl
  next ended => cases ended.symm.trans raised
  next more => cases more.symm.trans raised

/-- Every round but the last takes four bytes at least. -/
theorem chunkRounds_eq {rounds counter : Nat} {src : Bytes} (enough : src.length < 4 * rounds) :
    chunkRounds aead key h rounds counter src = some (openChunks aead key h counter src) := by
  induction rounds generalizing counter src with
  | zero => omega
  | succ rounds ih =>
    rw [chunkRounds]
    split
    next failed => rw [openChunks_error failed]
    next ended => rw [openChunks_end ended]
    next plain rest next =>
      rw [openChunks_more next]
      obtain ⟨ciphertext, rfl, _, _⟩ := nextChunk_some next
      rw [List.length_append, List.length_append, length_bytesBE] at enough
      rw [ih (by omega)]
      rfl

theorem readHeader_shorter {src rest : Bytes} {header : Header}
    (read : readHeader src = .ok (header, rest)) : rest.length ≤ src.length := by
  unfold readHeader at read
  simp only at read
  split at read
  · cases read
  · split at read
    · cases read
    · cases read
      rw [List.length_drop]
      omega

/-- A file of `n` bytes takes at most `n / 4 + 1` rounds. -/
theorem decryptRounds_eq (env : CryptoEnv) {rounds : Nat} {src : Bytes} (secretKey : Bytes)
    (enough : src.length < 4 * rounds) :
    decryptRounds env rounds src secretKey = some (decryptStream env src secretKey) := by
  unfold decryptRounds decryptStream
  cases read : readHeader src with
  | error e => rfl
  | ok pair =>
    have shorter := readHeader_shorter read
    simp only [bind, Except.bind]
    rw [chunkRounds_eq (by omega)]
    cases openChunks env.aead (env.hkdf secretKey pair.1.salt) pair.1 0 pair.2 with
    | error e => rfl
    | ok written => rfl

end Rounds

/-! ### Where the cut falls -/

section Cut

variable {aead : Aead} {key : Bytes} {h : Header}

/-- Within the four bytes of a length, or of the terminator. -/
theorem nextChunk_refused {src : Bytes} (counter : Nat) (short : src.length < 4) :
    Refused (nextChunk aead key h counter src) := by
  unfold nextChunk
  simp only
  rw [if_pos (by rw [List.length_take]; omega)]
  exact ⟨_, rfl, rfl⟩

/-- Within a sealed chunk. -/
theorem nextChunk_cut {src : Bytes} {counter length : Nat} (fits : length < 256 ^ 4)
    (positive : 0 < length) (start : src.take 4 = bytesBE 4 length)
    (short : src.length < 4 + length) : Refused (nextChunk aead key h counter src) := by
  unfold nextChunk
  simp only [start, length_bytesBE, lt_irrefl, if_false, natBE_bytesBE fits]
  rw [if_neg (by omega)]
  split
  · exact ⟨_, rfl, rfl⟩
  · rw [if_pos (by rw [List.length_take, List.length_drop]; omega)]
    exact ⟨_, rfl, rfl⟩

/-- A whole frame opens, or the key is not the one it was sealed under. -/
theorem nextChunk_whole {counter : Nat} {ciphertext : Bytes} (rest : Bytes) (counts : counter < 2 ^ 32)
    (positive : 0 < ciphertext.length)
    (bounded : ciphertext.length ≤ chunkBytes + maxTagOverhead) :
    Refused (nextChunk aead key h counter
      (bytesBE 4 ciphertext.length ++ ciphertext ++ rest)) ∨
    ∃ plain, nextChunk aead key h counter (bytesBE 4 ciphertext.length ++ ciphertext ++ rest) =
      .ok (some (plain, rest)) := by
  have four : (bytesBE 4 ciphertext.length).length = 4 := length_bytesBE 4 _
  have fits : ciphertext.length < 256 ^ 4 := by
    simp only [chunkBytes, maxTagOverhead] at bounded
    omega
  unfold nextChunk
  rw [List.append_assoc, List.take_left' four, List.drop_left' four]
  simp only [four, lt_irrefl, if_false, natBE_bytesBE fits, List.take_left, List.drop_left,
    pack32_of_lt counts]
  rw [if_neg (by omega), if_neg (by omega)]
  cases aead.decrypt key (h.noncePrefix ++ bytesBE 4 counter) ciphertext h.raw with
  | none => exact Or.inl ⟨_, rfl, rfl⟩
  | some plain => exact Or.inr ⟨plain, rfl⟩

theorem openChunks_refused {counter : Nat} {src : Bytes}
    (refused : Refused (nextChunk aead key h counter src)) :
    Refused (openChunks aead key h counter src) := by
  obtain ⟨error, raised, typed⟩ := refused
  exact ⟨error, openChunks_error raised, typed⟩

/-- Frames without their end: the induction is on the frames that were written, and the cut is
in the first of them or behind it. -/
theorem openChunks_cut {chunks : List SealedChunk} {counter : Nat} {cut : Bytes}
    (sealed : ∀ chunk ∈ chunks, 0 < chunk.ciphertext.length ∧
      chunk.ciphertext.length ≤ chunkBytes + maxTagOverhead)
    (fits : counter + chunks.length ≤ 2 ^ 32) (start : cut <+: frames chunks ++ terminator)
    (shorter : cut.length < (frames chunks ++ terminator).length) :
    Refused (openChunks aead key h counter cut) := by
  induction chunks generalizing counter cut with
  | nil => exact openChunks_refused (nextChunk_refused counter shorter)
  | cons chunk chunks ih =>
    obtain ⟨positive, bounded⟩ := sealed chunk (List.mem_cons_self ..)
    rw [List.length_cons] at fits
    have frame : frames (chunk :: chunks) ++ terminator =
        bytesBE 4 chunk.ciphertext.length ++ (chunk.ciphertext ++ (frames chunks ++ terminator)) := by
      rw [frames, List.flatMap_cons, SealedChunk.frame, List.append_assoc, List.append_assoc]
      rfl
    rw [frame] at start shorter
    simp only [List.length_append, length_bytesBE] at shorter
    by_cases inLength : cut.length < 4
    · exact openChunks_refused (nextChunk_refused counter inLength)
    by_cases inChunk : cut.length < 4 + chunk.ciphertext.length
    · have four : (bytesBE 4 chunk.ciphertext.length).length = 4 := length_bytesBE 4 _
      have taken : cut.take 4 = bytesBE 4 chunk.ciphertext.length := by
        rw [List.prefix_iff_eq_take.mp start, List.take_take, Nat.min_eq_left (by omega),
          List.take_left' four]
      refine openChunks_refused (nextChunk_cut ?_ positive taken inChunk)
      simp only [chunkBytes, maxTagOverhead] at bounded
      omega
    -- the frame is whole, and the cut is behind it
    · rw [← List.append_assoc] at start
      have whole : (bytesBE 4 chunk.ciphertext.length ++ chunk.ciphertext).length ≤ cut.length := by
        rw [List.length_append, length_bytesBE]
        omega
      obtain ⟨rest, rfl⟩ := List.prefix_of_prefix_length_le (List.prefix_append ..) start whole
      simp only [List.length_append, length_bytesBE] at shorter
      rcases nextChunk_whole rest (by omega : counter < 2 ^ 32) positive bounded with
        refused | ⟨plain, next⟩
      · exact openChunks_refused refused
      · rw [openChunks_more next]
        refine (ih (fun other member => sealed other (List.mem_cons_of_mem _ member)) (by omega)
          ((List.prefix_append_right_inj _).mp start) ?_).map _
        rw [List.length_append]
        omega

end Cut

/-- Within the header. -/
theorem readHeader_refused {src : Bytes} (short : src.length < headerBytes) :
    Refused (readHeader src) := by
  unfold readHeader
  simp only
  rw [if_pos (Or.inl (by rw [List.length_take]; omega))]
  exact ⟨_, rfl, rfl⟩

theorem decryptStream_of_header (env : CryptoEnv) {src rest : Bytes} {header : Header}
    (secretKey : Bytes) (read : readHeader src = .ok (header, rest))
    (refused : Refused (openChunks env.aead (env.hkdf secretKey header.salt) header 0 rest)) :
    Refused (decryptStream env src secretKey) := by
  obtain ⟨error, raised, typed⟩ := refused
  refine ⟨error, ?_, typed⟩
  simp only [decryptStream, read, bind, Except.bind, raised]

/-- A proper beginning of a backup is refused, whoever opens it. -/
theorem decryptStream_refused {env : CryptoEnv} {src : Source} {secretKey : Bytes}
    {salt : List.Vector UInt8 16} {noncePrefix : List.Vector UInt8 8} {chunks : List SealedChunk}
    {whole cut : Bytes} (made : encryptStream env src secretKey salt noncePrefix =
      some (chunks, whole)) (start : cut <+: whole) (fewer : cut ≠ whole) (readerKey : Bytes) :
    Refused (decryptStream env cut readerKey) := by
  rw [encryptStream_eq] at made
  split at made
  next fits =>
    cases made
    have shorter : cut.length < _ := lt_of_le_of_ne start.length_le fun same =>
      fewer (start.eq_of_length same)
    -- the cut is in the header, or among the chunks behind it
    by_cases inHeader : cut.length < headerBytes
    · obtain ⟨error, raised, typed⟩ := readHeader_refused inHeader
      refine ⟨error, ?_, typed⟩
      simp only [decryptStream, raised, bind, Except.bind]
    · rw [← length_fileHeader env secretKey salt noncePrefix] at inHeader
      obtain ⟨rest, rfl⟩ := List.prefix_of_prefix_length_le (List.prefix_append ..) start
        (Nat.le_of_not_lt inHeader)
      refine decryptStream_of_header env readerKey
        (readHeader_fileHeader env secretKey salt noncePrefix rest) ?_
      refine openChunks_cut (fun chunk member => ?_) ?_
        ((List.prefix_append_right_inj _).mp start) ?_
      · -- what is sealed is a read and its tag
        obtain ⟨i, _, there, rfl⟩ := mem_chunksFrom.mp member
        have inside := List.mem_of_getElem? there
        rw [length_chunkAt noncePrefix.toList_length]
        exact ⟨by omega, (sealed_fits (src.bounded _ inside)).1⟩
      · have counted : (fileChunks env secretKey salt noncePrefix src).length = src.reads.length :=
          length_chunksFrom (h := headerOf env secretKey salt noncePrefix) 0 src.reads
        omega
      · rw [List.length_append, List.length_append] at shorter
        omega
  next => cases made

/-- Whatever was backed up, under whatever key, salt and nonces: cut anywhere, the file is
refused. And whatever a file holds, the reader is through with it after a quarter of its length
in rounds. -/
theorem cut_backups_refused (env : CryptoEnv) :
    (∀ src secretKey salt noncePrefix chunks whole,
      encryptStream env src secretKey salt noncePrefix = some (chunks, whole) →
      ∀ cut, cut <+: whole → cut ≠ whole → ∀ readerKey,
        Refused (decryptStream env cut readerKey)) ∧
    ∀ file readerKey rounds, file.length < 4 * rounds →
      decryptRounds env rounds file readerKey = some (decryptStream env file readerKey) :=
  ⟨fun _ _ _ _ _ _ made _ start fewer => decryptStream_refused made start fewer,
    fun _ readerKey _ => decryptRounds_eq env readerKey⟩

/-- The four bytes of the terminator are cut off a file of one chunk. -/
theorem cut_backups_refused_terminator :
    sampleHeader ++ sampleChunk.frame <+: sampleFile ∧
    Refused (decryptStream sampleCrypto (sampleHeader ++ sampleChunk.frame) [115]) := by
  have start : sampleHeader ++ sampleChunk.frame <+: sampleFile := by
    rw [sampleFile, ← List.append_assoc]
    exact List.prefix_append ..
  refine ⟨start, (cut_backups_refused sampleCrypto).1 _ _ _ _ _ _ sampleFile_made _ start ?_ _⟩
  intro same
  have lengths := congrArg List.length same
  revert lengths
  decide

end MegooPM
