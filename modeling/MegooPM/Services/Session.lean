import MegooPM.Data.Tables
import MegooPM.Lib.Raising
import MegooPM.Lib.Rows

/-!
# Sessions

What the domain services share: the errors they raise, partial updates, and the commit.
The database refuses content that breaks one of its constraints, and a refused commit
is rolled back. Rows that a service adds carry the ids the sequences give them.
-/
namespace MegooPM

open Lib

/-- What a service looks up by id. -/
inductive Resource where
  | upstream | backend | proxyHost | redirectionHost | deadHost | stream
  | accessList | authUser | clientRule | customPage | certificate
  deriving DecidableEq, Repr

/-- What the services raise. The text of the database driver is left out. -/
inductive ServiceError where
  | notFound (what : Resource) (id : Id)
  | invalidPoolConfig (message : String)
  | duplicateBackend
  | upstreamInUse (id : Id)
  | invalidReference (message : Option String)
  | portConflict (message : String)
  | duplicateUsername
  | missingPassword (usernames : String)
  | duplicateName
  | unknownCustomPage (message : Option String)
  | certificateValidation (message : String)
  | valueError (message : String)
  /-- An `IntegrityError` that the service does not translate. -/
  | integrity
  deriving DecidableEq, Repr

/-! ### Partial updates -/

/-- One field of a `model_dump(exclude_unset=True)`. -/
inductive Change (α : Type) where
  | unset
  | null
  | set (value : α)
  deriving DecidableEq, Repr

namespace Change

variable {α : Type}

/-- `changes.get(field, old)`, with `none` for `None`. -/
def get (c : Change α) (old : α) : Option α :=
  match c with
  | unset => some old
  | null => none
  | set a => some a

/-- `changes.get(field)`. -/
def value? (c : Change α) : Option α :=
  match c with
  | set a => some a
  | _ => none

/-- The field of a `NOT NULL` column after `setattr`; a null never gets past the commit. -/
def overValue (c : Change α) (old : α) : α :=
  match c with
  | set a => a
  | _ => old

/-- The field of a nullable column after `setattr`. -/
def overNullable (c : Change α) (old : Option α) : Option α :=
  match c with
  | unset => old
  | null => none
  | set a => some a

/-- What a `NOT NULL` column asks of a change. -/
def notNull (c : Change α) : Bool :=
  match c with
  | null => false
  | _ => true

end Change

/-! ### Commit -/

/-- `db.commit()`: the session's content becomes the database, unless it breaks a
constraint. `notNull` says that no `NOT NULL` column was set to null. -/
def commit (db : Database) (notNull : Bool) : Except ServiceError Database :=
  if notNull = true ∧ db.Constraints then .ok db else .error .integrity

theorem commit_eq_ok {db db' : Database} {notNull : Bool} (done : commit db notNull = .ok db') :
    db' = db ∧ db'.Constraints := by
  unfold commit at done
  split at done
  next fine =>
    cases done
    exact ⟨rfl, fine.2⟩
  next => cases done

/-- `except IntegrityError as exc: raise error from exc`. -/
def commitOr (db : Database) (notNull : Bool) (error : ServiceError) :
    Except ServiceError Database :=
  (commit db notNull).mapError fun _ => error

theorem commitOr_eq_ok {db db' : Database} {notNull : Bool} {error : ServiceError}
    (done : commitOr db notNull error = .ok db') : db' = db ∧ db'.Constraints :=
  commit_eq_ok (mapError_eq_ok done)

end MegooPM
