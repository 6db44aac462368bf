import MegooPM.Analytics.Conservation

/-!
# The size of a flush

All rows of a flush go into one `INSERT`, with seven bound parameters a row. The driver sends no
statement with more than 32767, and a flush that fails leaves its counters for the next one.
-/
namespace MegooPM.Analytics

open Lib

/-- A bound parameter. -/
inductive Parameter where
  | text (value : String)
  | date (value : Day)
  | time (value : Int)
  | number (value : Int)
  | null

/-- The dict of one row in `values`. -/
def rowParameters (lookupCountry : String → Option String) (now : Int) (row : VisitorCounts) :
    List (String × Parameter) :=
  [("ip", .text row.ip),
    ("day", .date row.day),
    ("first_seen_at", .time now),
    ("last_seen_at", .time now),
    ("request_count", .number row.requests),
    ("bytes", .number row.bytes),
    ("country", ((lookupCountry row.ip).map .text).getD .null)]

/-- The parameters of each `INSERT` that `upsert_visitors` issues. `ON CONFLICT` names columns only
and binds nothing. -/
def insertsIssued (lookupCountry : String → Option String) (now : Int) (rows : List VisitorCounts) :
    List (List Parameter) :=
  if rows = [] then []
  else [rows.flatMap fun row => (rowParameters lookupCountry now row).map (·.2)]

/-- asyncpg: the number of query arguments cannot exceed 32767. -/
def argumentLimit : Nat := 32767

section Flush

variable {α : Type} [DecidableEq α]

/-- `upsert_visitors` through the driver. -/
def sendVisitors (library : FlushLibrary α) (table : VisitorTable α) (rows : List VisitorCounts)
    (now : Int) : Option (VisitorTable α) :=
  if ∀ parameters ∈ insertsIssued library.lookupCountry now rows,
      parameters.length ≤ argumentLimit then
    upsertVisitors library table rows now
  else none

/-- The two hashes of a day and the table. -/
structure DayCounters (α : Type) [DecidableEq α] where
  counts : RedisHash
  bytes : RedisHash
  table : VisitorTable α

def DayCounters.rows (s : DayCounters α) (day : Day) : List VisitorCounts :=
  parseCounters (hgetall s.counts) (hgetall s.bytes) day

/-- `_flush_async` with nobody in between, and what it returns; `none` where it raises. -/
def flushDay (library : FlushLibrary α) (day : Day) (s : DayCounters α) (now : Int) :
    DayCounters α × Option Nat :=
  if hgetall s.counts = [] then (s, some 0)
  else if s.rows day = [] then (s, some 0)
  else
    match sendVisitors library s.table (s.rows day) now with
    | none => (s, none)
    | some table =>
      (⟨s.counts.remove (fields (s.rows day)), s.bytes.remove (fields (s.rows day)), table⟩,
        some (s.rows day).length)

/-- One flush after the other. -/
def flushes (library : FlushLibrary α) (day : Day) (s : DayCounters α) (times : List Int) :
    DayCounters α :=
  times.foldl (fun s now => (flushDay library day s now).1) s

end Flush

/-! ### How many rows fit -/

theorem length_parameters (lookupCountry : String → Option String) (now : Int)
    (rows : List VisitorCounts) :
    (rows.flatMap fun row => (rowParameters lookupCountry now row).map (·.2)).length =
      7 * rows.length := by
  induction rows with
  | nil => rfl
  | cons row rest ih =>
    rw [List.flatMap_cons, List.length_append, ih, List.length_cons, List.length_map]
    have seven : (rowParameters lookupCountry now row).length = 7 := rfl
    omega

theorem insertsIssued_fit_iff (lookupCountry : String → Option String) (now : Int)
    (rows : List VisitorCounts) :
    (∀ parameters ∈ insertsIssued lookupCountry now rows, parameters.length ≤ argumentLimit) ↔
      rows.length ≤ 4681 := by
  unfold insertsIssued argumentLimit
  by_cases empty : rows = []
  · rw [if_pos empty, empty]
    simp
  · rw [if_neg empty, List.forall_mem_singleton, length_parameters]
    omega

section Flush

variable {α : Type} [DecidableEq α] {library : FlushLibrary α} {day : Day} {s : DayCounters α}

/-- Once its fields are gone from the counts, nothing is left of a row. -/
private theorem rows_removed (counts bytes bytes' : RedisHash) (day : Day) :
    parseCounters (hgetall (counts.remove (fields (parseCounters (hgetall counts) (hgetall bytes)
      day)))) (hgetall bytes') day = [] := by
  rw [parseCounters_hgetall, parseCounters_hgetall]
  refine List.filterMap_eq_nil_iff.mpr fun entry member => ?_
  obtain ⟨here, kept⟩ := List.mem_filter.mp member
  by_contra some_
  by_cases named : entry.1 = ""
  · exact some_ (if_pos named)
  · -- an entry with a name has a row, and so its field is removed
    have row : (⟨entry.1, day, entry.2, hget bytes entry.1⟩ : VisitorCounts) ∈
        heldRows counts bytes day :=
      List.mem_filterMap.mpr ⟨entry, here, if_neg named⟩
    exact of_decide_eq_true kept (List.mem_map_of_mem row)

theorem flushDay_oversized (many : 4681 < (s.rows day).length) (now : Int) :
    flushDay library day s now = (s, none) := by
  have some_ : s.rows day ≠ [] := by
    intro empty
    rw [empty] at many
    cases many
  have counts : hgetall s.counts ≠ [] := by
    intro empty
    rw [DayCounters.rows, empty] at some_
    exact some_ rfl
  have refused : sendVisitors library s.table (s.rows day) now = none := by
    refine if_neg fun fits => ?_
    have few := (insertsIssued_fit_iff _ _ _).mp fits
    omega
  rw [flushDay, if_neg counts, if_neg some_, refused]

theorem flushes_oversized (many : 4681 < (s.rows day).length) (times : List Int) :
    flushes library day s times = s := by
  induction times with
  | nil => rfl
  | cons now rest ih =>
    rw [flushes, List.foldl_cons, flushDay_oversized many]
    exact ih

/-- Where the database accepts the rows of a day: the statements stay within the limit, the flush
writes every row and the counters are drained, exactly when there are at most 4681 rows. -/
theorem flush_drains_iff {now : Int}
    (accepts : (upsertVisitors library s.table (s.rows day) now).isSome = true) :
    ((∀ parameters ∈ insertsIssued library.lookupCountry now (s.rows day),
        parameters.length ≤ argumentLimit) ∧
      (flushDay library day s now).2 = some (s.rows day).length ∧
      ∃ times, (flushes library day s times).rows day = []) ↔ (s.rows day).length ≤ 4681 := by
  constructor
  · rintro ⟨fit, -⟩
    exact (insertsIssued_fit_iff _ _ _).mp fit
  · intro few
    have fit := (insertsIssued_fit_iff library.lookupCountry now (s.rows day)).mpr few
    obtain ⟨table, wrote⟩ := Option.isSome_iff_exists.mp accepts
    have sent : sendVisitors library s.table (s.rows day) now = some table :=
      (if_pos fit).trans wrote
    refine ⟨fit, ?_⟩
    by_cases counts : hgetall s.counts = []
    · have empty : s.rows day = [] := by rw [DayCounters.rows, counts]; rfl
      rw [flushDay, if_pos counts, empty]
      exact ⟨rfl, [], empty⟩
    by_cases empty : s.rows day = []
    · rw [flushDay, if_neg counts, if_pos empty, empty]
      exact ⟨rfl, [], empty⟩
    · have flushed : flushDay library day s now =
          (⟨s.counts.remove (fields (s.rows day)), s.bytes.remove (fields (s.rows day)), table⟩,
            some (s.rows day).length) := by
        rw [flushDay, if_neg counts, if_neg empty, sent]
      refine ⟨by rw [flushed], [now], ?_⟩
      rw [flushes, List.foldl_cons, List.foldl_nil, flushed]
      exact rows_removed s.counts s.bytes _ day

end Flush

/-! ### A day with too many visitors -/

/-- Every text is an address of its own. -/
def anyAddress : FlushLibrary String where
  inet := some
  lookupCountry _ := none

def address (i : Nat) : String :=
  "2001:db8::" ++ toString i

private theorem address_inj {i j : Nat} (same : address i = address j) : i = j := by
  have digits := congrArg String.toNat? ((String.append_right_inj _).mp same)
  simpa using digits

/-- A day with one request of each of so many visitors. -/
def crowded (n : Nat) : DayCounters String where
  counts := ⟨(List.range n).map fun i => (address i, 1), by
    rw [List.map_map]
    exact List.nodup_range.map fun _ _ => address_inj⟩
  bytes := Tally.empty
  table := Tally.empty

private theorem rows_crowded (n : Nat) (day : Day) : (crowded n).rows day =
    (List.range n).map fun i => ⟨address i, day, 1, 0⟩ := by
  have named (i : Nat) : address i ≠ "" := by
    intro empty
    have chars := congrArg String.toList empty
    rw [address, String.toList_append] at chars
    cases chars
  have counts : (crowded n).counts.rows = (List.range n).map fun i => (address i, 1) := rfl
  rw [DayCounters.rows, parseCounters_hgetall, heldRows, counts, List.filterMap_map]
  refine Eq.trans (List.filterMap_congr fun i _ => ?_) (congrFun List.filterMap_eq_map _)
  simp only [Function.comp_apply, if_neg (named i)]
  rfl

private theorem accepts_crowded (n : Nat) (day : Day) (now : Int) :
    (upsertVisitors anyAddress (crowded n).table ((crowded n).rows day) now).isSome = true := by
  have values : ((crowded n).rows day).mapM (visitorValues anyAddress now) =
      some (((crowded n).rows day).map fun row =>
        ⟨row.ip, row.day, now, now, row.requests, row.bytes, none⟩) :=
    List.mapM_pure
  have keys : ((((crowded n).rows day).map fun row =>
      (⟨row.ip, row.day, now, now, row.requests, row.bytes, none⟩ : VisitorDay String)).map
      VisitorDay.key).Nodup := by
    rw [rows_crowded, List.map_map, List.map_map]
    refine List.nodup_range.map fun i j same => ?_
    exact address_inj (congrArg Prod.fst same)
  unfold upsertVisitors
  split
  · rfl
  · rw [values, Option.bind_some, if_pos keys]
    rfl

/-- A day with one visitor is flushed. -/
theorem flush_drains_one :
    (flushDay anyAddress 739500 (crowded 1) 60).2 = some 1 ∧
    ∃ times, (flushes anyAddress 739500 (crowded 1) times).rows 739500 = [] := by
  have one : ((crowded 1).rows 739500).length = 1 := by rw [rows_crowded]; rfl
  have drained := ((flush_drains_iff (accepts_crowded 1 739500 60)).mpr (by omega)).2
  rwa [one] at drained

/-- With 4682 visitors the database would accept the rows, and the one statement that is issued
has 32774 parameters; no flush that follows changes anything. -/
theorem flush_wedged :
    (upsertVisitors anyAddress (crowded 4682).table ((crowded 4682).rows 739500) 60).isSome = true ∧
    (∃ parameters ∈ insertsIssued anyAddress.lookupCountry 60 ((crowded 4682).rows 739500),
      parameters.length = 32774) ∧
    (flushDay anyAddress 739500 (crowded 4682) 60).2 = none ∧
    ∀ times, flushes anyAddress 739500 (crowded 4682) times = crowded 4682 := by
  have size : ((crowded 4682).rows 739500).length = 4682 := by
    rw [rows_crowded, List.length_map, List.length_range]
  have many : 4681 < ((crowded 4682).rows 739500).length := by omega
  refine ⟨accepts_crowded 4682 739500 60, ?_, ?_, flushes_oversized many⟩
  · have some_ : (crowded 4682).rows 739500 ≠ [] := by
      intro empty
      rw [empty] at size
      cases size
    rw [insertsIssued, if_neg some_]
    exact ⟨_, List.mem_singleton_self _, by rw [length_parameters, size]⟩
  · rw [flushDay_oversized many]

end MegooPM.Analytics
