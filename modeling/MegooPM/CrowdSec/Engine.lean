import MegooPM.Lib.TextBytes

/-!
# The CrowdSec container

What the appliers ask of the container, and what they make of the answers: a
command run in it, a restart of it, and the text files on the shared volume that
it sees through bind mounts.
-/
namespace MegooPM.CrowdSec

open Lib

/-! ### Answers -/

/-- What a command in the container produced. -/
structure ExecResult where
  exitCode : Int
  output : String
deriving DecidableEq

/-- What `exec` gives back; the error is a `CrowdSecReloadError`. -/
abbrev Exec := Except String ExecResult

/-- What `restart_container` gives back. A call that raises (docker answered late,
or not at all) may still have restarted the container. -/
inductive Restart where
  | restarted
  | raised (error : String) (started : Bool)
deriving DecidableEq

/-- Whether the container was started on what stood on disk. -/
def Restart.starts : Restart → Bool
  | .restarted => true
  | .raised _ started => started

/-! ### Outputs -/

def stripText (text : String) : String :=
  String.ofList (strip text.toList)

/-- `part in text`. -/
def holds (text part : String) : Bool :=
  text.toList.tails.any part.toList.isPrefixOf

/-- `output.strip().splitlines()[-1:] or [missing]`, its only item. -/
def lastLine (output missing : String) : String :=
  (splitLines (stripText output)).getLast?.getD missing

/-- `config_test_error`: what `crowdsec -t` objected to. -/
def configTestError (result : ExecResult) : Option String :=
  if result.exitCode = 0 then none
  else
    let lines := (splitLines result.output).filter (stripText · ≠ "")
    match lines.reverse.find? (holds · "level=fatal") with
    | some line => some (stripText line)
    | none =>
      match lines.getLast? with
      | some line => some (stripText line)
      | none => some "crowdsec -t failed without saying why."

/-- The container was reached and its config test passed. -/
def passes : Exec → Bool
  | .error _ => false
  | .ok result => configTestError result = none

/-! ### Files -/

/-- What the file holds; an absent one counts as empty. -/
def fileBytes (file : Option ByteArray) : ByteArray :=
  file.getD ByteArray.empty

/-- `path.read_text(encoding="utf-8")`, or the empty text where there is no file; `none` where
the bytes are not UTF-8 and it raises. -/
def readFile : Option ByteArray → Option String
  | none => some ""
  | some bytes => (String.fromUTF8? bytes).map readText

/-- The file holds the bytes of a text, so reading it does not raise. -/
def Legible (file : Option ByteArray) : Prop :=
  ∃ text, readFile file = some text

/-- The file holds the bytes of a text without a carriage return. -/
def PlainText (file : Option ByteArray) : Prop :=
  ∃ text : String, fileBytes file = text.toByteArray ∧ NoCarriageReturn text

@[simp] theorem fileBytes_some (bytes : ByteArray) : fileBytes (some bytes) = bytes := rfl

/-- An absent file is read as one that holds the empty text. -/
theorem readFile_eq (file : Option ByteArray) :
    readFile file = (String.fromUTF8? (fileBytes file)).map readText := by
  cases file with
  | some bytes => rfl
  | none => decide

@[simp] theorem readFile_toByteArray (text : String) :
    readFile (some text.toByteArray) = some (readText text) := by
  rw [readFile, fromUTF8?_toByteArray, Option.map_some]

/-- What is read is the text the file holds, with its line ends translated. -/
theorem readFile_eq_some_iff {file : Option ByteArray} {text : String} :
    readFile file = some text ↔
      ∃ held : String, fileBytes file = held.toByteArray ∧ readText held = text := by
  rw [readFile_eq, Option.map_eq_some_iff]
  constructor
  · rintro ⟨held, decoded, translated⟩
    exact ⟨held, (toByteArray_of_fromUTF8? decoded).symm, translated⟩
  · rintro ⟨held, bytes, translated⟩
    exact ⟨held, by rw [bytes, fromUTF8?_toByteArray], translated⟩

/-- What is read never holds a carriage return. -/
theorem noCarriageReturn_of_readFile {file : Option ByteArray} {text : String}
    (read : readFile file = some text) : NoCarriageReturn text := by
  obtain ⟨held, _, rfl⟩ := readFile_eq_some_iff.mp read
  exact readText_clean held

/-- A file is read as what it holds exactly when it holds no carriage return. -/
theorem toByteArray_eq_fileBytes_iff {file : Option ByteArray} {text : String}
    (read : readFile file = some text) : text.toByteArray = fileBytes file ↔ PlainText file := by
  obtain ⟨held, bytes, rfl⟩ := readFile_eq_some_iff.mp read
  constructor
  · intro same
    exact ⟨readText held, same.symm, readText_clean held⟩
  · rintro ⟨text, holds, clean⟩
    have same : held = text := toByteArray_injective (bytes.symm.trans holds)
    rw [bytes, same, readText_of_clean clean]

theorem PlainText.legible {file : Option ByteArray} (plain : PlainText file) : Legible file := by
  obtain ⟨text, bytes, clean⟩ := plain
  exact ⟨text, readFile_eq_some_iff.mpr ⟨text, bytes, readText_of_clean clean⟩⟩

end MegooPM.CrowdSec
