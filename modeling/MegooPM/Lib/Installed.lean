import Mathlib.Data.Set.Basic

/-!
# Something installed, and what runs it

A program loads what stands on disk when it is started, and keeps it until it is
started again. What stands on disk is in force when the program was last started
with it.
-/
namespace MegooPM.Lib

/-- What stands on disk, and what the program was last started with, if it ever was. -/
structure Installed (α : Type) where
  disk : α
  running : Option α
deriving DecidableEq

namespace Installed

variable {α : Type}

def write (i : Installed α) (a : α) : Installed α := { i with disk := a }

def start (i : Installed α) : Installed α := { i with running := some i.disk }

/-- Started only where `happened` says so. -/
def startIf (happened : Bool) (i : Installed α) : Installed α :=
  if happened then i.start else i

/-- The program was last started with what stands on disk now. -/
def InForce (i : Installed α) : Prop := i.running = some i.disk

@[simp] theorem disk_write (i : Installed α) (a : α) : (i.write a).disk = a := rfl

@[simp] theorem running_write (i : Installed α) (a : α) : (i.write a).running = i.running := rfl

@[simp] theorem disk_start (i : Installed α) : i.start.disk = i.disk := rfl

@[simp] theorem running_start (i : Installed α) : i.start.running = some i.disk := rfl

@[simp] theorem startIf_true (i : Installed α) : i.startIf true = i.start := rfl

@[simp] theorem startIf_false (i : Installed α) : i.startIf false = i := rfl

@[simp] theorem disk_startIf (happened : Bool) (i : Installed α) :
    (i.startIf happened).disk = i.disk := by
  cases happened with
  | true => rfl
  | false => rfl

theorem inForce_start (i : Installed α) : i.start.InForce := rfl

/-- Started again or not, what was in force stays in force. -/
theorem InForce.startIf {i : Installed α} (inForce : i.InForce) (happened : Bool) :
    (i.startIf happened).InForce := by
  cases happened with
  | true => rfl
  | false => exact inForce

end Installed

end MegooPM.Lib
