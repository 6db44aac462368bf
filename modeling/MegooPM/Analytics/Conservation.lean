import MegooPM.Analytics.Flush
import MegooPM.Lib.Transition

/-!
# Counts are conserved

What the database holds of an address, and what Redis still holds of it, add up to
its increments, apart from what a flush has written and not yet removed. A flush
keeps this balance when it removes from a field what it wrote of it, and runs to
its end once it has written.
-/
namespace MegooPM.Analytics

open Lib

/-! ### Rows and values -/

section Parse

theorem counterRow_eq_some {byteTotals : List (String × Int)} {day : Day} {entry : String × String}
    {row : VisitorCounts} (made : counterRow byteTotals day entry = some row) :
    row.ip = entry.1 ∧ row.day = day := by
  unfold counterRow at made
  split at made
  · cases made
  · split at made
    · cases made
    · cases made
      exact ⟨rfl, rfl⟩

theorem day_of_mem_parseCounters {countMap bytesMap : List (String × String)} {day : Day}
    {row : VisitorCounts} (member : row ∈ parseCounters countMap bytesMap day) : row.day = day := by
  obtain ⟨entry, _, made⟩ := List.mem_filterMap.mp member
  exact (counterRow_eq_some made).2

/-- The rows are of some of the fields, in their order. -/
theorem fields_filterMap (byteTotals : List (String × Int)) (day : Day)
    (countMap : List (String × String)) :
    (fields (countMap.filterMap (counterRow byteTotals day))).Sublist
      (countMap.map Prod.fst) := by
  induction countMap with
  | nil => exact List.Sublist.refl _
  | cons entry rest ih =>
    cases made : counterRow byteTotals day entry with
    | none =>
      rw [List.filterMap_cons_none made, List.map_cons]
      exact ih.cons _
    | some row =>
      rw [List.filterMap_cons_some made, List.map_cons]
      have same := (counterRow_eq_some made).1
      simp only [fields, List.map_cons, same] at ih ⊢
      exact ih.cons_cons _

theorem nodup_hgetall (hash : RedisHash) : ((hgetall hash).map Prod.fst).Nodup := by
  have same : (hgetall hash).map Prod.fst = hash.rows.map Prod.fst := by
    simp only [hgetall, List.map_map]
    rfl
  rw [same]
  exact hash.nodup

theorem nodup_parseCounters {countMap : List (String × String)}
    (nodup : (countMap.map Prod.fst).Nodup) (bytesMap : List (String × String)) (day : Day) :
    (fields (parseCounters countMap bytesMap day)).Nodup :=
  nodup.sublist (fields_filterMap _ day countMap)

theorem number_repr (n : Int) : number n.repr = some n :=
  Int.toInt?_repr n

theorem lookup_getD_eq_valueOf {rows : List (String × Int)} (nodup : (rows.map Prod.fst).Nodup)
    (ip : String) : (rows.lookup ip).getD 0 = valueOf Prod.fst Prod.snd rows ip := by
  induction rows with
  | nil => rfl
  | cons row rest ih =>
    obtain ⟨fresh, nodup⟩ := List.nodup_cons.mp nodup
    have later := ih nodup
    by_cases same : row.1 = ip
    · subst same
      have none := valueOf_eq_zero Prod.fst Prod.snd fresh
      simp only [valueOf] at none
      simp [List.lookup, valueOf, none]
    · have apart : (ip == row.1) = false := by simpa using fun equal : ip = row.1 => same equal.symm
      simp only [valueOf] at later
      simp [List.lookup, valueOf, apart, same, later]

/-- The rows of what the two hashes hold. -/
def heldRows (counts bytes : RedisHash) (day : Day) : List VisitorCounts :=
  counts.rows.filterMap fun entry =>
    if entry.1 = "" then none else some ⟨entry.1, day, entry.2, hget bytes entry.1⟩

/-- A flush reads what Redis holds. -/
theorem parseCounters_hgetall (counts bytes : RedisHash) (day : Day) :
    parseCounters (hgetall counts) (hgetall bytes) day = heldRows counts bytes day := by
  have same : (hgetall bytes).map (fun entry => (entry.1, (number entry.2).getD 0)) =
      bytes.rows := by
    simp only [hgetall, List.map_map]
    refine (List.map_congr_left fun row _ => ?_).trans (List.map_id _)
    exact congrArg (Prod.mk row.1) (congrArg (Option.getD · 0) (number_repr row.2))
  have rows : parseCounters (hgetall counts) (hgetall bytes) day = (hgetall counts).filterMap
      (counterRow ((hgetall bytes).map fun entry => (entry.1, (number entry.2).getD 0)) day) :=
    rfl
  rw [rows, same]
  simp only [hgetall, heldRows, List.filterMap_map]
  refine List.filterMap_congr fun entry _ => ?_
  have read : number (toString entry.2) = some entry.2 := number_repr entry.2
  simp only [counterRow, Function.comp_apply, read, hget,
    lookup_getD_eq_valueOf bytes.nodup]

end Parse

theorem total_hincrby (hash : RedisHash) (ip : String) (n : Int) (p : String → Bool) :
    total Prod.fst Prod.snd p (hincrby hash ip n).rows =
      total Prod.fst Prod.snd p hash.rows + if p ip then n else 0 :=
  Tally.total_put keeps_addValue (fun _ _ => rfl) p hash.rows (ip, n)

section Upsert

variable {α : Type} [DecidableEq α] {library : FlushLibrary α}

/-- The field names the address. -/
def names (library : FlushLibrary α) (a : α) (ip : String) : Bool :=
  library.inet ip = some a

omit [DecidableEq α] in
theorem amount_addDelta (kind : Kind) (old new : VisitorDay α) :
    (addDelta old new).amount kind = old.amount kind + new.amount kind := by
  cases kind with
  | count => rfl
  | bytes => rfl

theorem total_foldl_upsert (kind : Kind) (p : α × Day → Bool) (values : List (VisitorDay α))
    (table : VisitorTable α) :
    total VisitorDay.key (VisitorDay.amount kind) p
        (values.foldl (fun table value => table.upsert addDelta keeps_addDelta value) table).rows =
      total VisitorDay.key (VisitorDay.amount kind) p table.rows +
        total VisitorDay.key (VisitorDay.amount kind) p values := by
  induction values generalizing table with
  | nil => simp
  | cons value rest ih =>
    rw [List.foldl_cons, ih, total_cons]
    have put := Tally.total_put keeps_addDelta (amount_addDelta kind) p table.rows value
    simp only [Tally.upsert] at put ⊢
    omega

/-- The values of the rows hold what the rows hold. -/
theorem total_values (kind : Kind) (day : Day) (a : α) {now : Int} {rows : List VisitorCounts}
    {values : List (VisitorDay α)} (made : rows.mapM (visitorValues library now) = some values)
    (dated : ∀ row ∈ rows, row.day = day) :
    total VisitorDay.key (VisitorDay.amount kind) (· = (a, day)) values =
      total VisitorCounts.ip (VisitorCounts.amount kind) (names library a) rows := by
  induction rows generalizing values with
  | nil =>
    cases made
    rfl
  | cons row rest ih =>
    rw [List.mapM_cons] at made
    obtain ⟨value, first, made⟩ := Option.bind_eq_some_iff.mp made
    obtain ⟨others, later, made⟩ := Option.bind_eq_some_iff.mp made
    cases made
    have tail := ih later fun next member => dated next (List.mem_cons_of_mem _ member)
    obtain ⟨ip, read, rfl⟩ := Option.map_eq_some_iff.mp first
    have today := dated row (List.mem_cons_self ..)
    have same : ((ip, row.day) = (a, day)) ↔ library.inet row.ip = some a := by
      rw [read, today]
      simp
    rw [total_cons, total_cons, tail]
    simp only [VisitorDay.key, names, same]
    cases kind with
    | count => rfl
    | bytes => rfl

theorem total_upsertVisitors (kind : Kind) (day : Day) (a : α) {table table' : VisitorTable α}
    {rows : List VisitorCounts} {now : Int}
    (wrote : upsertVisitors library table rows now = some table')
    (dated : ∀ row ∈ rows, row.day = day) :
    total VisitorDay.key (VisitorDay.amount kind) (· = (a, day)) table'.rows =
      total VisitorDay.key (VisitorDay.amount kind) (· = (a, day)) table.rows +
        total VisitorCounts.ip (VisitorCounts.amount kind) (names library a) rows := by
  unfold upsertVisitors at wrote
  split at wrote
  next none =>
    cases wrote
    simp [none]
  next =>
    obtain ⟨values, made, wrote⟩ := Option.bind_eq_some_iff.mp wrote
    split at wrote
    · cases wrote
      rw [total_foldl_upsert, total_values kind day a made dated]
    · cases wrote

end Upsert

/-! ### The balance -/

/-- A flush that has written and has not removed all that it wrote. -/
def Phase.unsettled : Phase → Bool
  | .written _ => true
  | .dropped _ => true
  | _ => false

/-- What a flush has written and not yet removed, of the fields that meet `p`. -/
def Phase.underway (kind : Kind) (p : String → Bool) : Phase → Int
  | .written rows => total VisitorCounts.ip (VisitorCounts.amount kind) p rows
  | .dropped rows =>
    match kind with
    | .count => 0
    | .bytes => total VisitorCounts.ip (VisitorCounts.amount .bytes) p rows
  | _ => 0

section Balance

variable {α : Type} [DecidableEq α] (library : FlushLibrary α) (day : Day)

/-- What the database holds of an address. -/
def stored (s : Counting α) (kind : Kind) (a : α) : Int :=
  total VisitorDay.key (VisitorDay.amount kind) (· = (a, day)) s.table.rows

/-- What Redis still holds of it. -/
def waiting (s : Counting α) (kind : Kind) (a : α) : Int :=
  total Prod.fst Prod.snd (names library a) (s.hashes kind).rows

/-- All its increments. -/
def arrived (s : Counting α) (kind : Kind) (a : α) : Int :=
  total Prod.fst Prod.snd (names library a) (s.increments kind)

/-- What flushes under way have written of it and not yet removed. -/
def underway (s : Counting α) (kind : Kind) (a : α) : Int :=
  (s.flushes.map (Phase.underway kind (names library a))).sum

/-- A flush removes from every field what it has written of it, and is not stopped while it has
written something that it has not removed. -/
def Undisturbed (s : Counting α) : Event → Prop
  | .advance flush _ =>
    match s.flushes[flush]? with
    | some (.written rows) => ∀ row ∈ rows, hget (s.hashes .count) row.ip = row.requests
    | some (.dropped rows) => ∀ row ∈ rows, hget (s.hashes .bytes) row.ip = row.bytes
    | _ => True
  | .stop flush =>
    match s.flushes[flush]? with
    | some (.written rows) => ∀ row ∈ rows, row.requests = 0 ∧ row.bytes = 0
    | some (.dropped rows) => ∀ row ∈ rows, row.bytes = 0
    | _ => True
  | _ => True

/-- The rows are of different fields, and of the day. -/
def SoundRows (rows : List VisitorCounts) : Prop :=
  (fields rows).Nodup ∧ ∀ row ∈ rows, row.day = day

def Phase.Sound : Phase → Prop
  | .counted counts => (counts.map Prod.fst).Nodup
  | .read rows => SoundRows day rows
  | .written rows => SoundRows day rows
  | .dropped rows => SoundRows day rows
  | .ended => True

structure Balanced (s : Counting α) : Prop where
  balance : ∀ kind a,
    stored day s kind a + waiting library s kind a =
      arrived library s kind a + underway library s kind a
  sound : ∀ phase ∈ s.flushes, phase.Sound day

/-- Nothing counted, nothing stored, no flush. -/
def Counting.start : Counting α := ⟨fun _ => .empty, .empty, [], fun _ => []⟩

theorem balanced_start : Balanced library day (Counting.start : Counting α) where
  balance _ _ := rfl
  sound phase member := by cases member

variable {library day}

/-! ### One event -/

theorem underway_setFlush (library : FlushLibrary α) {s : Counting α} {flush : Nat} {phase : Phase}
    (here : s.flushes[flush]? = some phase) (next : Phase) (kind : Kind) (a : α) :
    underway library (s.setFlush flush next) kind a = underway library s kind a -
      phase.underway kind (names library a) + next.underway kind (names library a) :=
  sum_map_set (Phase.underway kind (names library a)) here next

theorem sound_setFlush {s : Counting α} (sound : ∀ phase ∈ s.flushes, phase.Sound day)
    (flush : Nat) {next : Phase} (soundNext : next.Sound day) :
    ∀ phase ∈ (s.setFlush flush next).flushes, phase.Sound day := by
  intro phase member
  rcases List.mem_or_eq_of_mem_set member with old | rfl
  · exact sound phase old
  · exact soundNext

/-- A flush moves on without touching the database or Redis. -/
theorem Balanced.setFlush {s : Counting α} (balanced : Balanced library day s) {flush : Nat}
    {phase next : Phase} (here : s.flushes[flush]? = some phase) (soundNext : next.Sound day)
    (same : ∀ kind a, next.underway kind (names library a) =
      phase.underway kind (names library a)) :
    Balanced library day (s.setFlush flush next) := by
  refine ⟨fun kind a => ?_, sound_setFlush balanced.sound flush soundNext⟩
  have before := balanced.balance kind a
  have moved := underway_setFlush library here next kind a
  rw [same kind a] at moved
  have stays : underway library (s.setFlush flush next) kind a = underway library s kind a := by
    omega
  rw [stays]
  exact before

theorem Balanced.increment {s : Counting α} (balanced : Balanced library day s) (kind : Kind)
    (ip : String) (n : Int) :
    Balanced library day { s.setHash kind (hincrby (s.hashes kind) ip n) with
      increments := fun other =>
        if other = kind then s.increments other ++ [(ip, n)] else s.increments other } := by
  refine ⟨fun other a => ?_, balanced.sound⟩
  have before := balanced.balance other a
  by_cases same : other = kind
  · subst same
    have more := total_hincrby (s.hashes other) ip n (names library a)
    simp only [stored, waiting, arrived, underway, Counting.setHash, if_true, total_append,
      total_cons, total_nil] at before more ⊢
    omega
  · simp only [stored, waiting, arrived, underway, Counting.setHash, if_neg same] at before ⊢
    exact before

theorem Balanced.begin {s : Counting α} (balanced : Balanced library day s) :
    Balanced library day
      { s with flushes := s.flushes ++ [.counted (hgetall (s.hashes .count))] } := by
  refine ⟨fun kind a => ?_, fun phase member => ?_⟩
  · have before := balanced.balance kind a
    simp only [stored, waiting, arrived, underway, List.map_append, List.sum_append, List.map_cons,
      List.map_nil, List.sum_cons, List.sum_nil, Phase.underway] at before ⊢
    omega
  · rcases List.mem_append.mp member with old | new
    · exact balanced.sound phase old
    · rw [List.mem_singleton.mp new]
      exact nodup_hgetall (s.hashes .count)

theorem step_read {s : Counting α} {flush : Nat} (counts : RedisHash)
    (here : s.flushes[flush]? = some (.counted (hgetall counts))) (now : Int) :
    afterEvent library day s (.advance flush now) =
      some (s.setFlush flush
        (if heldRows counts (s.hashes .bytes) day = [] then .ended
          else .read (heldRows counts (s.hashes .bytes) day))) := by
  simp only [afterEvent, here, Option.bind_some, advance, parseCounters_hgetall]

/-- The bytes are read, and the rows made. -/
theorem Balanced.read {s : Counting α} (balanced : Balanced library day s) {flush : Nat}
    {counts : List (String × String)} (here : s.flushes[flush]? = some (.counted counts))
    (bytesMap : List (String × String)) :
    Balanced library day
      (s.setFlush flush
        (if parseCounters counts bytesMap day = [] then .ended
          else .read (parseCounters counts bytesMap day))) := by
  have nodup := balanced.sound _ (List.mem_of_getElem? here)
  have rows : SoundRows day (parseCounters counts bytesMap day) :=
    ⟨nodup_parseCounters nodup bytesMap day, fun _ => day_of_mem_parseCounters⟩
  split
  · exact balanced.setFlush here trivial fun _ _ => rfl
  · exact balanced.setFlush here rows fun _ _ => rfl

/-- What the upsert adds to the database is what the flush has then under way. -/
theorem Balanced.written {s : Counting α} (balanced : Balanced library day s) {flush : Nat}
    {rows : List VisitorCounts} (here : s.flushes[flush]? = some (.read rows)) {now : Int}
    {table : VisitorTable α} (wrote : upsertVisitors library s.table rows now = some table) :
    Balanced library day { s.setFlush flush (.written rows) with table := table } := by
  have sound := balanced.sound _ (List.mem_of_getElem? here)
  refine ⟨fun kind a => ?_, sound_setFlush balanced.sound flush sound⟩
  have before := balanced.balance kind a
  have moved := underway_setFlush library here (.written rows) kind a
  have added := total_upsertVisitors kind day a wrote sound.2
  simp only [stored, waiting, arrived, underway, Counting.setFlush, Phase.underway]
    at before moved added ⊢
  omega

/-- Removing the fields of the rows takes off what the rows hold, where each field holds that. -/
theorem total_remove (kind : Kind) {hash : RedisHash} {rows : List VisitorCounts}
    (sound : SoundRows day rows) (same : ∀ row ∈ rows, hget hash row.ip = row.amount kind)
    (p : String → Bool) :
    total Prod.fst Prod.snd p (hash.remove (fields rows)).rows =
      total Prod.fst Prod.snd p hash.rows -
        total VisitorCounts.ip (VisitorCounts.amount kind) p rows :=
  total_filter_notMem Prod.fst Prod.snd p VisitorCounts.ip (VisitorCounts.amount kind) sound.1
    hash.rows same

/-- The first `HDEL` takes the counts out of Redis, and they are no longer under way. -/
theorem Balanced.dropped {s : Counting α} (balanced : Balanced library day s) {flush : Nat}
    {rows : List VisitorCounts} (here : s.flushes[flush]? = some (.written rows))
    (same : ∀ row ∈ rows, hget (s.hashes .count) row.ip = row.requests) :
    Balanced library day
      ((s.setHash .count ((s.hashes .count).remove (fields rows))).setFlush flush
        (.dropped rows)) := by
  have sound := balanced.sound _ (List.mem_of_getElem? here)
  refine ⟨fun kind a => ?_, sound_setFlush balanced.sound flush sound⟩
  have before := balanced.balance kind a
  have moved := underway_setFlush library here (.dropped rows) kind a
  cases kind with
  | count =>
    have less := total_remove .count sound same (names library a)
    simp only [stored, waiting, arrived, underway, Counting.setFlush, Counting.setHash,
      Phase.underway, if_true] at before moved less ⊢
    omega
  | bytes =>
    -- the bytes are in the other hash, and still under way
    have other : Kind.bytes ≠ Kind.count := by decide
    simp only [stored, waiting, arrived, underway, Counting.setFlush, Counting.setHash,
      Phase.underway, if_neg other] at before moved ⊢
    omega

/-- The second one takes the bytes out. -/
theorem Balanced.cleared {s : Counting α} (balanced : Balanced library day s) {flush : Nat}
    {rows : List VisitorCounts} (here : s.flushes[flush]? = some (.dropped rows))
    (same : ∀ row ∈ rows, hget (s.hashes .bytes) row.ip = row.bytes) :
    Balanced library day
      ((s.setHash .bytes ((s.hashes .bytes).remove (fields rows))).setFlush flush .ended) := by
  have sound := balanced.sound _ (List.mem_of_getElem? here)
  refine ⟨fun kind a => ?_, sound_setFlush balanced.sound flush trivial⟩
  have before := balanced.balance kind a
  have moved := underway_setFlush library here .ended kind a
  cases kind with
  | count =>
    have other : Kind.count ≠ Kind.bytes := by decide
    simp only [stored, waiting, arrived, underway, Counting.setFlush, Counting.setHash,
      Phase.underway, if_neg other] at before moved ⊢
    omega
  | bytes =>
    have less := total_remove .bytes sound same (names library a)
    simp only [stored, waiting, arrived, underway, Counting.setFlush, Counting.setHash,
      Phase.underway, if_true] at before moved less ⊢
    omega

/-- A flush that is stopped with nothing under way leaves the balance. -/
theorem Balanced.stop {s : Counting α} (balanced : Balanced library day s) {flush : Nat}
    {phase : Phase} (here : s.flushes[flush]? = some phase)
    (undisturbed : Undisturbed s (.stop flush)) :
    Balanced library day (s.setFlush flush .ended) := by
  refine balanced.setFlush here trivial fun kind a => Eq.symm ?_
  simp only [Undisturbed, here] at undisturbed
  cases phase with
  | written rows =>
    cases kind with
    | count => exact total_eq_zero _ _ _ fun row member => (undisturbed row member).1
    | bytes => exact total_eq_zero _ _ _ fun row member => (undisturbed row member).2
  | dropped rows =>
    cases kind with
    | count => rfl
    | bytes => exact total_eq_zero _ _ _ undisturbed
  | counted counts => rfl
  | read rows => rfl
  | ended => rfl

/-- The next command of a flush. -/
theorem Balanced.advance {s s' : Counting α} (balanced : Balanced library day s) {flush : Nat}
    {now : Int} {phase : Phase} (here : s.flushes[flush]? = some phase)
    (undisturbed : Undisturbed s (.advance flush now))
    (moved : Analytics.advance library day s flush now phase = some s') :
    Balanced library day s' := by
  simp only [Undisturbed, here] at undisturbed
  cases phase with
  | counted counts =>
    cases moved
    exact balanced.read here _
  | read rows =>
    simp only [Analytics.advance] at moved
    cases wrote : upsertVisitors library s.table rows now with
    | none =>
      -- the transaction is rolled back, and the flush raises
      rw [wrote] at moved
      cases moved
      exact balanced.setFlush here trivial fun _ _ => rfl
    | some table =>
      rw [wrote] at moved
      cases moved
      exact balanced.written here wrote
  | written rows =>
    cases moved
    exact balanced.dropped here undisturbed
  | dropped rows =>
    cases moved
    exact balanced.cleared here undisturbed
  | ended => cases moved

theorem Balanced.step {s s' : Counting α} {event : Event} (balanced : Balanced library day s)
    (moved : Guarded Undisturbed (FlushStep library day) s event s') :
    Balanced library day s' := by
  obtain ⟨undisturbed, moved⟩ := moved
  cases event with
  | increment kind ip n =>
    cases moved
    exact balanced.increment kind ip n
  | «begin» =>
    simp only [FlushStep, afterEvent] at moved
    split at moved
    · cases moved
      exact balanced
    · cases moved
      exact balanced.begin
  | advance flush now =>
    obtain ⟨phase, here, moved⟩ := Option.bind_eq_some_iff.mp moved
    exact balanced.advance here undisturbed moved
  | stop flush =>
    obtain ⟨phase, here, rfl⟩ := Option.map_eq_some_iff.mp moved
    exact balanced.stop here undisturbed

end Balance

/-! ### Whole runs -/

section Runs

variable {α : Type} [DecidableEq α] {library : FlushLibrary α} {day : Day}

theorem reaches_balanced {s : Counting α}
    (run : Reaches (Guarded Undisturbed (FlushStep library day)) Counting.start s) :
    Balanced library day s :=
  run.invariant (fun _ _ _ balanced moved => balanced.step moved) (balanced_start library day)

theorem underway_eq_zero {s : Counting α} (settled : ∀ phase ∈ s.flushes, phase.unsettled = false)
    (library : FlushLibrary α) (kind : Kind) (a : α) : underway library s kind a = 0 := by
  unfold underway
  refine List.sum_eq_zero fun value member => ?_
  obtain ⟨phase, here, rfl⟩ := List.mem_map.mp member
  have calm := settled phase here
  cases phase with
  | written rows => cases calm
  | dropped rows => cases calm
  | counted counts => rfl
  | read rows => rfl
  | ended => rfl

/-- In a run in which every flush removes what it wrote, and is not stopped before it has, the
database and Redis hold together what was counted, and what is under way besides. -/
theorem counts_conserved {s : Counting α}
    (run : Reaches (Guarded Undisturbed (FlushStep library day)) Counting.start s)
    (kind : Kind) (a : α) :
    stored day s kind a + waiting library s kind a =
        arrived library s kind a + underway library s kind a ∧
      ((∀ phase ∈ s.flushes, phase.unsettled = false) →
        stored day s kind a + waiting library s kind a = arrived library s kind a) := by
  have balance := (reaches_balanced run).balance kind a
  refine ⟨balance, fun settled => ?_⟩
  have none := underway_eq_zero settled library kind a
  omega

end Runs

/-- An `INET` of the one address that the examples count. -/
def oneAddress : FlushLibrary String where
  inet ip := if ip = "203.0.113.9" then some ip else none
  lookupCountry _ := none

/-- One request of 512 bytes, and a flush that begins. -/
def firstRequest : List Event :=
  [.increment .count "203.0.113.9" 1, .increment .bytes "203.0.113.9" 512, .begin]

def firstCounted : Counting String :=
  (play (afterEvent oneAddress 739500) firstRequest .start).getD .start

/-- The flush has read both hashes. -/
def firstRead : Counting String :=
  firstCounted.setFlush 0 (.read [⟨"203.0.113.9", 739500, 1, 512⟩])

private theorem firstRead_reached :
    Reaches (Guarded Undisturbed (FlushStep oneAddress 739500)) .start firstRead := by
  have fits : Fits Undisturbed (afterEvent oneAddress 739500) firstRequest .start :=
    ⟨trivial, trivial, trivial, trivial⟩
  have counted := Reaches.of_fits fits (rfl : _ = some firstCounted)
  have read : FlushStep oneAddress 739500 firstCounted (.advance 0 60) firstRead :=
    step_read (firstCounted.hashes .count) rfl 60
  have free : Undisturbed firstCounted (.advance 0 60) := trivial
  exact counted.tail ⟨free, read⟩

/-- The flush writes, and removes both fields. -/
theorem counts_conserved_drained : ∃ s : Counting String,
    Reaches (Guarded Undisturbed (FlushStep oneAddress 739500)) .start s ∧
      s.flushes = [.ended] ∧ (s.hashes .count).rows = [] ∧
      stored 739500 s .count "203.0.113.9" = 1 ∧
      stored 739500 s .bytes "203.0.113.9" + waiting oneAddress s .bytes "203.0.113.9" =
        arrived oneAddress s .bytes "203.0.113.9" := by
  have fits : Fits Undisturbed (afterEvent oneAddress 739500)
      [.advance 0 60, .advance 0 60, .advance 0 60] firstRead := by
    refine ⟨trivial, ?_, ?_, trivial⟩
    · exact List.forall_mem_singleton.mpr rfl
    · exact List.forall_mem_singleton.mpr rfl
  have run := firstRead_reached.trans (Reaches.of_fits fits rfl)
  have settled : ∀ phase ∈ [Phase.ended], phase.unsettled = false :=
    List.forall_mem_singleton.mpr rfl
  exact ⟨_, run, rfl, rfl, rfl, (counts_conserved run .bytes "203.0.113.9").2 settled⟩

/-- A second request, after the flush has read and before it removes what it read; and a flush
that is stopped after its commit, with another after it. -/
theorem increment_lost_or_doubled :
    (∃ s : Counting String, Reaches (FlushStep oneAddress 739500) .start s ∧ s.flushes = [.ended] ∧
      stored 739500 s .count "203.0.113.9" = 1 ∧ waiting oneAddress s .count "203.0.113.9" = 0 ∧
      arrived oneAddress s .count "203.0.113.9" = 2) ∧
    ∃ s : Counting String, Reaches (FlushStep oneAddress 739500) .start s ∧ s.flushes = [.ended] ∧
      stored 739500 s .count "203.0.113.9" = 1 ∧ waiting oneAddress s .count "203.0.113.9" = 1 ∧
      arrived oneAddress s .count "203.0.113.9" = 1 := by
  have start := firstRead_reached.of_guarded
  constructor
  · have late : Reaches (Guarded (fun _ _ => True) (FlushStep oneAddress 739500)) firstRead _ :=
      Reaches.of_play (fun _ _ _ => trivial)
        (rfl : play (afterEvent oneAddress 739500)
          [.increment .count "203.0.113.9" 1, .increment .bytes "203.0.113.9" 256, .advance 0 60,
            .advance 0 60, .advance 0 60] firstRead = some _)
    exact ⟨_, start.trans late.of_guarded, rfl, rfl, rfl, rfl⟩
  · have crashed : Reaches (Guarded (fun _ _ => True) (FlushStep oneAddress 739500)) firstRead _ :=
      Reaches.of_play (fun _ _ _ => trivial)
        (rfl : play (afterEvent oneAddress 739500) [.advance 0 60, .stop 0] firstRead = some _)
    exact ⟨_, start.trans crashed.of_guarded, rfl, rfl, rfl, rfl⟩

end MegooPM.Analytics
