import MegooPM.Lib.Bytes
import Mathlib.Logic.Function.Basic

/-!
# Files by inode

A file system whose names point to inodes, so that a descriptor keeps writing to the inode it was
opened on whatever happens to the name. No inode has two names. Each operation is described by
what can be read under the names before and after it.
-/
namespace MegooPM.Lib

/-- `single`: there are no hard links; `below`: inode numbers are not given twice. -/
structure Files (κ : Type*) where
  inode : κ → Option Nat
  content : Nat → Bytes
  next : Nat
  single : ∀ a b i, inode a = some i → inode b = some i → a = b
  below : ∀ a i, inode a = some i → i < next

/-- The bytes at `offset` replaced; a gap before them is filled with zeros. -/
def splice (old : Bytes) (offset : Nat) (piece : Bytes) : Bytes :=
  old.take offset ++ List.replicate (offset - old.length) 0 ++ piece ++
    old.drop (offset + piece.length)

/-- The next piece of a file that is written from its start, over what was there. -/
theorem splice_over (data old : Bytes) {offset n : Nat} (within : offset + n ≤ data.length) :
    splice (data.take offset ++ old.drop offset) offset ((data.drop offset).take n) =
      data.take (offset + n) ++ old.drop (offset + n) := by
  have front : (data.take offset).length = offset := by
    rw [List.length_take]
    omega
  have piece : ((data.drop offset).take n).length = n := by
    rw [List.length_take, List.length_drop]
    omega
  have gap : offset - (data.take offset ++ old.drop offset).length = 0 := by
    rw [List.length_append, front]
    omega
  have before : (data.take offset ++ old.drop offset).take offset = data.take offset :=
    List.take_left' front
  have behind : (data.take offset ++ old.drop offset).drop (offset + n) = old.drop (offset + n) := by
    rw [← List.drop_drop, List.drop_left' front, List.drop_drop]
  rw [splice, gap, piece, before, behind, List.replicate_zero, List.append_nil, ← List.take_add]

theorem splice_take (data : Bytes) {offset n : Nat} (within : offset + n ≤ data.length) :
    splice (data.take offset) offset ((data.drop offset).take n) = data.take (offset + n) := by
  simpa using splice_over data [] within

namespace Files

variable {κ : Type*}

def empty : Files κ where
  inode := fun _ => none
  content := fun _ => []
  next := 0
  single := fun _ _ _ named => absurd named (by simp)
  below := fun _ _ named => absurd named (by simp)

/-- What a name can be read as. -/
def read (f : Files κ) (a : κ) : Option Bytes :=
  (f.inode a).map f.content

/-- A write through a descriptor. -/
def writeAt (f : Files κ) (i offset : Nat) (piece : Bytes) : Files κ :=
  { f with content := Function.update f.content i (splice (f.content i) offset piece) }

theorem read_writeAt_self (f : Files κ) {a : κ} {i : Nat} {old : Bytes} (offset : Nat)
    (piece : Bytes) (named : f.inode a = some i) (before : f.read a = some old) :
    (f.writeAt i offset piece).read a = some (splice old offset piece) := by
  rw [read, named, Option.map_some, Option.some.injEq] at before
  simp [read, writeAt, named, before]

theorem read_writeAt_of_ne (f : Files κ) {b : κ} {i offset : Nat} {piece : Bytes}
    (other : f.inode b ≠ some i) : (f.writeAt i offset piece).read b = f.read b := by
  simp only [read, writeAt]
  cases h : f.inode b with
  | none => rfl
  | some k =>
    have foreign : k ≠ i := fun same => other (by rw [h, same])
    simp only [Option.map_some, Function.update_of_ne foreign]

variable [DecidableEq κ]

/-- The inode that `open` with `O_CREAT | O_TRUNC` returns. -/
def opened (f : Files κ) (a : κ) : Nat :=
  (f.inode a).getD f.next

/-- `open` with `O_CREAT | O_TRUNC`. -/
def create (f : Files κ) (a : κ) : Files κ where
  inode := Function.update f.inode a (some (f.opened a))
  content := Function.update f.content (f.opened a) []
  next := f.next + 1
  single := by
    have foreign : ∀ b, b ≠ a → f.inode b ≠ some (f.opened a) := by
      intro b other named
      cases h : f.inode a with
      | none =>
        rw [opened, h] at named
        exact Nat.lt_irrefl _ (f.below b _ named)
      | some i =>
        rw [opened, h] at named
        exact other (f.single b a i named h)
    intro b c i left right
    by_cases first : b = a
    · by_cases second : c = a
      · exact first.trans second.symm
      · rw [first, Function.update_self] at left
        rw [Function.update_of_ne second, ← left] at right
        exact absurd right (foreign c second)
    · rw [Function.update_of_ne first] at left
      by_cases second : c = a
      · rw [second, Function.update_self] at right
        exact absurd (left.trans right.symm) (foreign b first)
      · rw [Function.update_of_ne second] at right
        exact f.single b c i left right
  below := by
    intro b i named
    by_cases same : b = a
    · rw [same, Function.update_self] at named
      cases h : f.inode a with
      | none =>
        rw [opened, h] at named
        cases named
        exact Nat.lt_succ_self _
      | some k =>
        rw [opened, h] at named
        cases named
        exact Nat.lt_succ_of_lt (f.below a _ h)
    · rw [Function.update_of_ne same] at named
      exact Nat.lt_succ_of_lt (f.below b i named)

def unlink (f : Files κ) (a : κ) : Files κ where
  inode := Function.update f.inode a none
  content := f.content
  next := f.next
  single := by
    intro b c i left right
    have first : b ≠ a := by
      rintro rfl
      simp at left
    have second : c ≠ a := by
      rintro rfl
      simp at right
    rw [Function.update_of_ne first] at left
    rw [Function.update_of_ne second] at right
    exact f.single b c i left right
  below := by
    intro b i named
    have other : b ≠ a := by
      rintro rfl
      simp at named
    rw [Function.update_of_ne other] at named
    exact f.below b i named

/-- `rename(a, b)` of a name that exists. -/
def rename (f : Files κ) (a b : κ) : Files κ where
  inode := Function.update (Function.update f.inode a none) b (f.inode a)
  content := f.content
  next := f.next
  single := by
    have foreign : ∀ c i, Function.update f.inode a none c = some i → f.inode a ≠ some i := by
      intro c i named source
      by_cases same : c = a
      · rw [same, Function.update_self] at named
        exact absurd named (by simp)
      · rw [Function.update_of_ne same] at named
        exact same (f.single c a i named source)
    intro c d i left right
    by_cases first : c = b
    · by_cases second : d = b
      · exact first.trans second.symm
      · rw [first, Function.update_self] at left
        rw [Function.update_of_ne second] at right
        exact absurd left (foreign d i right)
    · rw [Function.update_of_ne first] at left
      by_cases second : d = b
      · rw [second, Function.update_self] at right
        exact absurd right (foreign c i left)
      · rw [Function.update_of_ne second] at right
        exact (f.unlink a).single c d i left right
  below := by
    intro c i named
    by_cases same : c = b
    · rw [same, Function.update_self] at named
      exact f.below a i named
    · rw [Function.update_of_ne same] at named
      exact (f.unlink a).below c i named

section Read

variable (f : Files κ) {a b c : κ}

@[simp] theorem read_create_self : (f.create a).read a = some [] := by
  simp [read, create]

@[simp] theorem inode_create_self : (f.create a).inode a = some (f.opened a) := by
  simp [create]

theorem inode_create_of_ne (other : b ≠ a) : (f.create a).inode b = f.inode b :=
  Function.update_of_ne other ..

theorem read_create_of_ne (other : b ≠ a) : (f.create a).read b = f.read b := by
  rw [read, inode_create_of_ne f other, read]
  cases h : f.inode b with
  | none => rfl
  | some i =>
    -- another name has another inode than the one that is truncated
    have foreign : i ≠ f.opened a := by
      intro same
      refine other ((f.create a).single b a i ?_ ?_)
      · rw [inode_create_of_ne f other, h]
      · rw [inode_create_self, same]
    simp only [Option.map_some, create, Function.update_of_ne foreign]

theorem inode_unlink_of_ne (other : b ≠ a) : (f.unlink a).inode b = f.inode b :=
  Function.update_of_ne other ..

theorem read_unlink_of_ne (other : b ≠ a) : (f.unlink a).read b = f.read b := by
  rw [read, inode_unlink_of_ne f other]
  rfl

@[simp] theorem read_rename_target : (f.rename a b).read b = f.read a := by
  simp [read, rename]

theorem read_rename_source (distinct : a ≠ b) : (f.rename a b).read a = none := by
  simp [read, rename, Function.update_of_ne distinct]

theorem inode_rename_of_ne (first : c ≠ a) (second : c ≠ b) :
    (f.rename a b).inode c = f.inode c := by
  simp only [rename, Function.update_of_ne second, Function.update_of_ne first]

theorem read_rename_of_ne (first : c ≠ a) (second : c ≠ b) :
    (f.rename a b).read c = f.read c := by
  rw [read, inode_rename_of_ne f first second]
  rfl

end Read

/-! ### Inodes that no name leads to any more -/

/-- An inode that was given and has no name. -/
def Nameless (f : Files κ) (i : Nat) : Prop :=
  (∀ a, f.inode a ≠ some i) ∧ i < f.next

section Nameless

variable {f : Files κ} {a b : κ} {i : Nat}

omit [DecidableEq κ] in
theorem Nameless.writeAt {j offset : Nat} {piece : Bytes} (nameless : f.Nameless i) :
    (f.writeAt j offset piece).Nameless i :=
  nameless

theorem Nameless.create (nameless : f.Nameless i) : (f.create a).Nameless i := by
  obtain ⟨unnamed, given⟩ := nameless
  refine ⟨fun c named => ?_, Nat.lt_succ_of_lt given⟩
  by_cases same : c = a
  · subst same
    rw [inode_create_self, Option.some.injEq] at named
    -- the inode of the name if it has one, else one that was never given
    cases h : f.inode c with
    | none =>
      rw [opened, h, Option.getD_none] at named
      omega
    | some j =>
      rw [opened, h, Option.getD_some] at named
      exact unnamed c (named ▸ h)
  · rw [inode_create_of_ne f same] at named
    exact unnamed c named

theorem Nameless.unlink (nameless : f.Nameless i) : (f.unlink a).Nameless i := by
  refine ⟨fun c named => ?_, nameless.2⟩
  by_cases same : c = a
  · subst same
    simp [Files.unlink] at named
  · rw [inode_unlink_of_ne f same] at named
    exact nameless.1 c named

theorem Nameless.rename (nameless : f.Nameless i) : (f.rename a b).Nameless i := by
  refine ⟨fun c named => ?_, nameless.2⟩
  by_cases target : c = b
  · subst target
    simp only [Files.rename, Function.update_self] at named
    exact nameless.1 a named
  · by_cases source : c = a
    · subst source
      simp [Files.rename, Function.update_of_ne target] at named
    · rw [inode_rename_of_ne f source target] at named
      exact nameless.1 c named

/-- The inode of a name that is deleted. -/
theorem nameless_unlink (named : f.inode a = some i) : (f.unlink a).Nameless i := by
  refine ⟨fun c other => ?_, f.below a i named⟩
  by_cases same : c = a
  · subst same
    simp [Files.unlink] at other
  · rw [inode_unlink_of_ne f same] at other
    exact same (f.single c a i other named)

end Nameless

end Files

end MegooPM.Lib
