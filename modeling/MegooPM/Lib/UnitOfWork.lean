import MegooPM.Lib.Raising

/-!
# Units of work

One session on a store: its statements change what its transaction holds, and only a commit
stores it. An exception undoes nothing by itself, and whoever handles it has to roll back.
-/
namespace MegooPM.Lib

/-- The stored content, and that of the open transaction. -/
structure UnitOfWork (σ : Type) where
  stored : σ
  pending : σ

/-- What a session runs. -/
def Work (σ ε α : Type) : Type :=
  UnitOfWork σ → Except ε α × UnitOfWork σ

namespace Work

variable {σ ε α β : Type}

instance : Monad (Work σ ε) where
  pure a := fun u => (.ok a, u)
  bind w next := fun u =>
    match w u with
    | (.ok a, u') => next a u'
    | (.error e, u') => (.error e, u')

/-- A query, on what the transaction holds. -/
def query (f : σ → Except ε α) : Work σ ε α :=
  fun u => (f u.pending, u)

/-- A statement that is refused as a whole or changes what the transaction holds. -/
def flush (f : σ → Except ε σ) : Work σ ε Unit := fun u =>
  match f u.pending with
  | .ok content => (.ok (), { u with pending := content })
  | .error e => (.error e, u)

def commit : Work σ ε Unit :=
  fun u => (.ok (), { u with stored := u.pending })

/-- `try: w` with a handler that rolls back and raises another error, for the errors that it
takes. -/
def rescue (translate : ε → Option ε) (w : Work σ ε α) : Work σ ε α := fun u =>
  match w u with
  | (.ok a, u') => (.ok a, u')
  | (.error e, u') =>
    match translate e with
    | some raised => (.error raised, { u' with pending := u'.stored })
    | none => (.error e, u')

/-- The session of one request: what it did not commit is gone at its end. -/
def request (w : Work σ ε α) (store : σ) : Except ε α × σ :=
  ((w ⟨store, store⟩).1, (w ⟨store, store⟩).2.stored)

section Rules

variable {f : σ → Except ε α} {change : σ → Except ε σ} {u : UnitOfWork σ} {e : ε} {a : α}
  {content : σ}

theorem query_bind_ok {next : α → Work σ ε β} (found : f u.pending = .ok a) :
    (query f >>= next) u = next a u := by
  simp only [query, bind, found]

theorem query_bind_error {next : α → Work σ ε β} (raised : f u.pending = .error e) :
    (query f >>= next) u = (.error e, u) := by
  simp only [query, bind, raised]

theorem flush_bind_ok {next : Unit → Work σ ε β} (taken : change u.pending = .ok content) :
    (flush change >>= next) u = next () { u with pending := content } := by
  simp only [flush, bind, taken]

theorem flush_bind_error {k : Unit → Work σ ε β} (refused : change u.pending = .error e) :
    (flush change >>= k) u = (.error e, u) := by
  simp only [flush, bind, refused]

/-- A last statement and its commit, where the statement is taken. -/
theorem flush_commit_ok (taken : change u.pending = .ok content) :
    (flush change >>= fun _ => commit) u = (.ok (), ⟨content, content⟩) :=
  flush_bind_ok taken

theorem rescue_ok (translate : ε → Option ε) {w : Work σ ε α} {u' : UnitOfWork σ}
    (ran : w u = (.ok a, u')) : rescue translate w u = (.ok a, u') := by
  simp only [rescue, ran]

/-- A handler changes the error, and leaves the stored content. -/
theorem rescue_error (translate : ε → Option ε) {w : Work σ ε α} {u' : UnitOfWork σ}
    (ran : w u = (.error e, u')) :
    (rescue translate w u).1 = .error ((translate e).getD e) ∧
      (rescue translate w u).2.stored = u'.stored := by
  simp only [rescue, ran]
  cases translate e with
  | none => exact ⟨rfl, rfl⟩
  | some raised => exact ⟨rfl, rfl⟩

end Rules

end Work

end MegooPM.Lib
