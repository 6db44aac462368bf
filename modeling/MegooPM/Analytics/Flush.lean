import MegooPM.Lib.Tally
import Std.Data.String.ToInt

/-!
# Draining the visitor counters

`services/analytics/flush.py` and `tasks/analytics.py`: the counters of one day in
Redis, the visitor rows in the database, and a flush as the commands it sends, one
after the other.
-/
namespace MegooPM.Analytics

open Lib

/-- A day, by its ordinal. -/
abbrev Day := Int

/-- One visitor's activity since the previous flush. -/
structure VisitorCounts where
  ip : String
  day : Day
  requests : Int
  bytes : Int
deriving DecidableEq

/-- A row of the database; `α` are the addresses of PostgreSQL's `INET`. -/
structure VisitorDay (α : Type) where
  ip : α
  day : Day
  firstSeenAt : Int
  lastSeenAt : Int
  requestCount : Int
  bytes : Int
  country : Option String
deriving DecidableEq

/-- What the flush uses of PostgreSQL and of the country database. -/
structure FlushLibrary (α : Type) where
  inet : String → Option α
  lookupCountry : String → Option String

/-! ### The counters -/

/-- The two hashes of a day, `{prefix}:count:{day}` and `{prefix}:bytes:{day}`. -/
inductive Kind where
  | count
  | bytes
deriving DecidableEq

abbrev RedisHash := Tally (Prod.fst : String × Int → String)

def addValue (old new : String × Int) : String × Int :=
  (old.1, old.2 + new.2)

theorem keeps_addValue : Tally.Keeps (Prod.fst : String × Int → String) addValue :=
  fun _ _ => rfl

/-- `HINCRBY`. -/
def hincrby (hash : RedisHash) (field : String) (n : Int) : RedisHash :=
  hash.upsert addValue keeps_addValue (field, n)

/-- `HGETALL`: every value as its text. -/
def hgetall (hash : RedisHash) : List (String × String) :=
  hash.rows.map fun (field, value) => (field, toString value)

/-- `HGET`, with zero for a field that is not there. -/
def hget (hash : RedisHash) (field : String) : Int :=
  valueOf Prod.fst Prod.snd hash.rows field

/-! ### Rows -/

/-- `_number`. What reaches it is a counter as Redis writes it, so only a decimal without blanks,
underscores or a plus sign: of the texts that `int` takes, the others do not come up. -/
def number (value : String) : Option Int :=
  value.toInt?

/-- The row of one field of the counts, unless it is unusable. -/
def counterRow (byteTotals : List (String × Int)) (day : Day) (entry : String × String) :
    Option VisitorCounts :=
  match number entry.2 with
  | none => none
  | some requests =>
    if entry.1 = "" then none
    else some ⟨entry.1, day, requests, (byteTotals.lookup entry.1).getD 0⟩

/-- `parse_counters` -/
def parseCounters (countMap bytesMap : List (String × String)) (day : Day) : List VisitorCounts :=
  let byteTotals := bytesMap.map fun (ip, value) => (ip, (number value).getD 0)
  countMap.filterMap (counterRow byteTotals day)

section Table

variable {α : Type} [DecidableEq α]

def VisitorDay.key (visitor : VisitorDay α) : α × Day :=
  (visitor.ip, visitor.day)

/-- The visitor rows; `ip` and `day` are the primary key. -/
abbrev VisitorTable (α : Type) [DecidableEq α] := Tally (VisitorDay.key : VisitorDay α → α × Day)

/-- `ON CONFLICT (ip, day) DO UPDATE`: the deltas are added, the first visit stays. -/
def addDelta (old new : VisitorDay α) : VisitorDay α :=
  { old with
    requestCount := old.requestCount + new.requestCount
    bytes := old.bytes + new.bytes
    lastSeenAt := new.lastSeenAt
    country := new.country }

omit [DecidableEq α] in
theorem keeps_addDelta : Tally.Keeps (VisitorDay.key : VisitorDay α → α × Day) addDelta :=
  fun _ _ => rfl

omit [DecidableEq α] in
/-- The values of one row; a text that is no address is an error of the statement. -/
def visitorValues (library : FlushLibrary α) (now : Int) (row : VisitorCounts) :
    Option (VisitorDay α) :=
  (library.inet row.ip).map fun ip =>
    ⟨ip, row.day, now, now, row.requests, row.bytes, library.lookupCountry row.ip⟩

/-- `upsert_visitors`; nothing where the statement fails, as it does when two of its rows have
the same address. -/
def upsertVisitors (library : FlushLibrary α) (table : VisitorTable α) (rows : List VisitorCounts)
    (now : Int) : Option (VisitorTable α) :=
  if rows = [] then some table
  else
    (rows.mapM (visitorValues library now)).bind fun values =>
      if (values.map VisitorDay.key).Nodup then
        some (values.foldl (fun table value => table.upsert addDelta keeps_addDelta value) table)
      else none

end Table

/-! ### What a count and a row hold of a kind -/

def VisitorCounts.amount (kind : Kind) (row : VisitorCounts) : Int :=
  match kind with
  | .count => row.requests
  | .bytes => row.bytes

def VisitorDay.amount {α : Type} (kind : Kind) (visitor : VisitorDay α) : Int :=
  match kind with
  | .count => visitor.requestCount
  | .bytes => visitor.bytes

/-! ### A flush -/

/-- A flush under way, by the last of its commands. -/
inductive Phase where
  /-- The counts are read, and are not empty. -/
  | counted (counts : List (String × String))
  /-- The bytes are read too, and there are rows. -/
  | read (rows : List VisitorCounts)
  /-- The rows are committed. -/
  | written (rows : List VisitorCounts)
  /-- Their fields are removed from the counts. -/
  | dropped (rows : List VisitorCounts)
  /-- It has returned, failed or been stopped. -/
  | ended
deriving DecidableEq

/-- The counters of the day, the visitor rows, the flushes, and all increments so far. -/
structure Counting (α : Type) [DecidableEq α] where
  hashes : Kind → RedisHash
  table : VisitorTable α
  flushes : List Phase
  increments : Kind → List (String × Int)

inductive Event where
  /-- `HINCRBY` of one of the day's hashes. -/
  | increment (kind : Kind) (ip : String) (n : Int)
  /-- A flush begins, with its first command. -/
  | begin
  /-- A flush sends its next command, at a time. -/
  | advance (flush : Nat) (now : Int)
  /-- A command of a flush raises, or its worker dies. -/
  | stop (flush : Nat)

section Flush

variable {α : Type} [DecidableEq α]

def Counting.setHash (s : Counting α) (kind : Kind) (hash : RedisHash) : Counting α :=
  { s with hashes := fun other => if other = kind then hash else s.hashes other }

def Counting.setFlush (s : Counting α) (flush : Nat) (phase : Phase) : Counting α :=
  { s with flushes := s.flushes.set flush phase }

/-- The fields that `HDEL` removes: those of the rows just written. -/
def fields (rows : List VisitorCounts) : List String :=
  rows.map VisitorCounts.ip

/-- `_flush_async(day=day)`, one command. -/
def advance (library : FlushLibrary α) (day : Day) (s : Counting α) (flush : Nat) (now : Int) :
    Phase → Option (Counting α)
  | .counted counts =>
    let rows := parseCounters counts (hgetall (s.hashes .bytes)) day
    some (s.setFlush flush (if rows = [] then .ended else .read rows))
  | .read rows =>
    match upsertVisitors library s.table rows now with
    | none => some (s.setFlush flush .ended)
    | some table => some { s.setFlush flush (.written rows) with table := table }
  | .written rows =>
    some ((s.setHash .count ((s.hashes .count).remove (fields rows))).setFlush flush
      (.dropped rows))
  | .dropped rows =>
    some ((s.setHash .bytes ((s.hashes .bytes).remove (fields rows))).setFlush flush .ended)
  | .ended => none

def afterEvent (library : FlushLibrary α) (day : Day) (s : Counting α) : Event → Option (Counting α)
  | .increment kind ip n =>
    some { s.setHash kind (hincrby (s.hashes kind) ip n) with
      increments := fun other =>
        if other = kind then s.increments other ++ [(ip, n)] else s.increments other }
  | .begin =>
    let counts := hgetall (s.hashes .count)
    if counts = [] then some s
    else some { s with flushes := s.flushes ++ [.counted counts] }
  | .advance flush now => s.flushes[flush]?.bind (advance library day s flush now)
  | .stop flush => s.flushes[flush]?.map fun _ => s.setFlush flush .ended

def FlushStep (library : FlushLibrary α) (day : Day) (s : Counting α) (event : Event)
    (s' : Counting α) : Prop :=
  afterEvent library day s event = some s'

end Flush

end MegooPM.Analytics
