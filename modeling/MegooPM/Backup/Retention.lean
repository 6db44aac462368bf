import MegooPM.Backup.Names
import MegooPM.Backup.Runner
import MegooPM.Lib.Ranks
import MegooPM.Lib.Rows

/-!
# Retention

`sweep_interrupted` and `apply_retention` of `services/backup/store.py`, and `_create` of
`tasks/backup.py` around them. What expires is decided by the names alone: all but the first
`keep` of the automatic ones, sorted downward.
-/
namespace MegooPM

open Lib

/-- What the directory says of one of its entries. -/
structure DirEntry where
  name : String
  mtime : DateTime
  deriving DecidableEq, Repr

namespace DirEntry

def automatic (e : DirEntry) : Bool :=
  isAutomatic e.name

/-- A backup that was taken by hand or uploaded. -/
def byHand (e : DirEntry) : Bool :=
  matchesName e.name && !isAutomatic e.name

/-- `created_at` of its row in the list. -/
def created (e : DirEntry) : DateTime :=
  createdAt e.name e.mtime

end DirEntry

/-- The entries of the backup directory. -/
structure Listing where
  entries : List DirEntry
  distinct : (entries.map (·.name)).Nodup

namespace Listing

/-- Only the entries that are chosen. -/
def select (dir : Listing) (p : DirEntry → Bool) : Listing where
  entries := dir.entries.filter p
  distinct := dir.distinct.sublist (List.filter_sublist.map _)

def remove (dir : Listing) (name : String) : Listing :=
  dir.select (·.name ≠ name)

/-- A file put into place, over the one of its name if there is one. -/
def put (dir : Listing) (e : DirEntry) : Listing where
  entries := (dir.remove e.name).entries ++ [e]
  distinct := nodup_map_append (dir.remove e.name).distinct fun old member => by
    simpa using (List.mem_filter.mp member).2

theorem mem_put {dir : Listing} {e old : DirEntry} :
    old ∈ (dir.put e).entries ↔ (old ∈ dir.entries ∧ old.name ≠ e.name) ∨ old = e := by
  simp [put, remove, select]

/-- The automatic backups. -/
def automatic (dir : Listing) : List DirEntry :=
  dir.entries.filter DirEntry.automatic

/-- How many automatic backups sort above a name. -/
def rank (dir : Listing) (name : String) : Nat :=
  rankIn DirEntry.name dir.automatic name

end Listing

/-- `backup_dir.glob("*.part")`, those that are old enough; a `stat` or `unlink` that raises is
passed over. -/
def sweepInterrupted (cutoff : DateTime) (fails : String → Bool) (dir : Listing) : Listing :=
  dir.select fun e =>
    !(isPart e.name && e.mtime.moment < cutoff.moment && !fails e.name)

/-- The loop of `apply_retention`; `none` where an `unlink` raises. -/
def unlinkAll (fails : String → Bool) : List DirEntry → Listing → Option (List String) × Listing
  | [], dir => (some [], dir)
  | e :: rest, dir =>
    if fails e.name = true then (none, dir)
    else
      ((unlinkAll fails rest (dir.remove e.name)).1.map (e.name :: ·),
        (unlinkAll fails rest (dir.remove e.name)).2)

/-- Delete all but the newest `keep` automatic backups. -/
def applyRetention (fails : String → Bool) (keep : Int) (dir : Listing) :
    Option (List String) × Listing :=
  let found := sortedDown DirEntry.name (dir.entries.filter fun e => expires e.name)
  unlinkAll fails (found.drop (max keep 0).toNat) dir

/-- How one run of `_create` goes. -/
structure CreateRun where
  started : DateTime
  cutoff : DateTime
  /-- the paths that cannot be deleted -/
  fails : String → Bool
  /-- the time of the new file, or the directory where `create_backup` raises -/
  made : DateTime ⊕ Listing
  /-- `backup_keep`, if the settings can be read -/
  keep : Option Int

inductive RunEnd where
  | finished (name : String) (swept : List String)
  | failed
  /-- an exception leaves `_create` -/
  | raised
  deriving DecidableEq, Repr

/-- `_create`; its outcome is recorded and announced elsewhere. -/
def runCreate (run : CreateRun) (trigger : FileTrigger) (dir : Listing) : RunEnd × Listing :=
  match run.made with
  | .inr left => (.failed, left)
  | .inl mtime =>
    let name := newName run.started trigger
    let swept := sweepInterrupted run.cutoff run.fails dir
    let placed := (swept.remove (name ++ ".part")).put { name := name, mtime := mtime }
    if trigger ≠ .auto then (.finished name [], placed)
    else match run.keep with
      | none => (.raised, placed)
      | some keep =>
        match applyRetention run.fails keep placed with
        | (some deleted, kept) => (.finished name deleted, kept)
        | (none, kept) => (.raised, kept)

/-- What retention promises: the new file is there, no more than `keep` automatic ones are,
none that is gone was made after one that is kept, and what was made by hand is there. -/
structure Retains (before after : Listing) (made : DirEntry) (keep : Int) : Prop where
  present : made ∈ after.entries
  atMost : (after.automatic.length : Int) ≤ keep
  newest : ∀ kept ∈ after.automatic, ∀ gone ∈ (before.put made).automatic,
    gone ∉ after.entries → gone.created.moment ≤ kept.created.moment
  byHand : ∀ e ∈ before.entries, e.byHand = true → e ∈ after.entries

/-- Fewer than `keep` automatic files sort above the new one, and no two whose names sort one
way and whose times the other are on different sides of the cut. -/
structure NamedInOrder (before : Listing) (made : DirEntry) (keep : Int) : Prop where
  room : ((before.put made).rank made.name : Int) < keep
  together : ∀ a ∈ (before.put made).automatic, ∀ b ∈ (before.put made).automatic,
    b.name < a.name → a.created.moment < b.created.moment →
      keep ≤ (before.put made).rank a.name ∨ ((before.put made).rank b.name : Int) < keep

/-! ### What goes and what stays -/

section Stays

variable {fails : String → Bool} {dir kept : Listing} {deleted : List String}

theorem mem_unlinkAll {rows : List DirEntry} (ran : unlinkAll fails rows dir = (some deleted, kept))
    (e : DirEntry) :
    e ∈ kept.entries ↔ e ∈ dir.entries ∧ ∀ gone ∈ rows, e.name ≠ gone.name := by
  induction rows generalizing dir deleted with
  | nil =>
    cases ran
    simp
  | cons first rest ih =>
    simp only [unlinkAll] at ran
    split at ran
    next => cases ran
    next =>
      obtain ⟨names, ran⟩ := Prod.mk.inj ran
      obtain ⟨later, ran', _⟩ := Option.map_eq_some_iff.mp names
      rw [ih (Prod.ext ran' ran)]
      simp only [Listing.remove, Listing.select, List.mem_filter, decide_eq_true_eq,
        List.forall_mem_cons, and_assoc]

/-- The files of the directory by name. -/
theorem Listing.eq_of_name (dir : Listing) {a b : DirEntry} (first : a ∈ dir.entries)
    (second : b ∈ dir.entries) (same : a.name = b.name) : a = b :=
  List.inj_on_of_nodup_map dir.distinct first second same

theorem Listing.distinct_automatic (dir : Listing) :
    (dir.automatic.map DirEntry.name).Nodup :=
  dir.distinct.sublist (List.filter_sublist.map _)

theorem expires_filter (dir : Listing) :
    (dir.entries.filter fun e => expires e.name) = dir.automatic := by
  simp only [expires_eq_isAutomatic]
  rfl

/-- Retention keeps the first `keep` of the automatic files, and every other entry. -/
theorem mem_applyRetention {keep : Int}
    (ran : applyRetention fails keep dir = (some deleted, kept)) (e : DirEntry) :
    e ∈ kept.entries ↔
      e ∈ dir.entries ∧ (e.automatic = true → (dir.rank e.name : Int) < keep) := by
  have down := pairwise_sortedDown dir.distinct_automatic
  have ranks : ∀ name, rankIn DirEntry.name (sortedDown DirEntry.name dir.automatic) name =
      dir.rank name := rankIn_perm (sortedBy_perm _ _)
  simp only [applyRetention, expires_filter] at ran
  rw [mem_unlinkAll ran e]
  refine and_congr_right fun member => ?_
  constructor
  · intro stays auto
    by_contra low
    refine stays e ((mem_drop_iff_rankIn down).mpr ⟨?_, ?_⟩) rfl
    · exact mem_sortedDown.mpr (List.mem_filter.mpr ⟨member, auto⟩)
    · rw [ranks]
      omega
  · intro high gone dropped same
    obtain ⟨inside, low⟩ := (mem_drop_iff_rankIn down).mp dropped
    obtain ⟨there, auto⟩ := List.mem_filter.mp (mem_sortedDown.mp inside)
    cases dir.eq_of_name member there same
    have above := high auto
    rw [ranks] at low
    omega

theorem automatic_applyRetention {keep : Int}
    (ran : applyRetention fails keep dir = (some deleted, kept)) :
    kept.automatic.length ≤ (max keep 0).toNat := by
  have down := pairwise_sortedDown dir.distinct_automatic
  have ranks : ∀ name, rankIn DirEntry.name (sortedDown DirEntry.name dir.automatic) name =
      dir.rank name := rankIn_perm (sortedBy_perm _ _)
  have nodup : kept.automatic.Nodup := List.Nodup.of_map _ kept.distinct_automatic
  have first : kept.automatic ⊆
      (sortedDown DirEntry.name dir.automatic).take (max keep 0).toNat := by
    intro e member
    obtain ⟨there, auto⟩ := List.mem_filter.mp member
    obtain ⟨before, high⟩ := (mem_applyRetention ran e).mp there
    refine (mem_take_iff_rankIn down).mpr ⟨?_, ?_⟩
    · exact mem_sortedDown.mpr (List.mem_filter.mpr ⟨before, auto⟩)
    · have above := high auto
      rw [ranks]
      omega
  calc kept.automatic.length
      ≤ ((sortedDown DirEntry.name dir.automatic).take (max keep 0).toNat).length :=
        (List.subperm_of_subset nodup first).length_le
    _ ≤ (max keep 0).toNat := List.length_take_le _ _

end Stays

/-! ### A run -/

section Created

variable {env : CryptoEnv} {c : CreateCall} {dir : BackupDir} {files : String → Option StoredFile}

/-- The listing after a call that returns is the one that `runCreate` goes on with. -/
theorem createBackup_lists (ran : createBackup env c dir = (files, .returned)) {listing : Listing}
    (lists : ∀ name, (dir.files name).isSome = true ↔ ∃ e ∈ listing.entries, e.name = name)
    (made : DirEntry) (named : made.name = c.name) (name : String) :
    (files name).isSome = true ↔
      ∃ e ∈ ((listing.remove (c.name ++ ".part")).put made).entries, e.name = name := by
  obtain ⟨file, rfl⟩ := createBackup_returned ran
  by_cases own : name = c.name
  · subst own
    rw [Function.update_self]
    exact iff_of_true rfl ⟨made, Listing.mem_put.mpr (Or.inr rfl), named⟩
  · rw [Function.update_of_ne own]
    by_cases part : name = c.part
    · subst part
      rw [Function.update_self]
      refine iff_of_false (by decide) ?_
      rintro ⟨e, member, same⟩
      rcases Listing.mem_put.mp member with ⟨old, _⟩ | rfl
      · simp only [Listing.remove, Listing.select, List.mem_filter, decide_eq_true_eq] at old
        exact old.2 same
      · exact own (same.symm.trans named)
    · rw [Function.update_of_ne part, lists]
      constructor
      · rintro ⟨e, member, rfl⟩
        refine ⟨e, Listing.mem_put.mpr (Or.inl ⟨?_, fun same => own (same.trans named)⟩), rfl⟩
        exact List.mem_filter.mpr ⟨member, decide_eq_true part⟩
      · rintro ⟨e, member, rfl⟩
        rcases Listing.mem_put.mp member with ⟨old, _⟩ | rfl
        · exact ⟨e, (List.mem_filter.mp old).1, rfl⟩
        · exact absurd named own

end Created

section Run

variable {run : CreateRun} {before after : Listing} {mtime : DateTime} {keep : Int}
  {name : String} {swept : List String}

/-- The sweep and the rename before retention leave the automatic files as they are, the new
one aside. -/
theorem automatic_placed {cutoff : DateTime} {fails : String → Bool} {part : String}
    (unfinished : isPart part = true) (made : DirEntry) :
    (((sweepInterrupted cutoff fails before).remove part).put made).automatic =
      (before.put made).automatic := by
  simp only [Listing.automatic, Listing.put, Listing.remove, Listing.select, sweepInterrupted,
    List.filter_append, List.filter_filter]
  congr 1
  refine List.filter_congr fun e _ => ?_
  by_cases auto : e.automatic = true
  · have shaped : matchesName e.name = true := by
      simp only [DirEntry.automatic, isAutomatic, Bool.and_eq_true] at auto
      exact auto.1
    have whole := not_part_of_matches shaped
    have other : e.name ≠ part := by
      intro same
      rw [same, unfinished] at whole
      cases whole
    simp [auto, whole, other]
  · simp [auto]

/-- What is there once the new file is in place. -/
theorem mem_placed {cutoff : DateTime} {fails : String → Bool} {part : String}
    {made e : DirEntry} (byHand : e.byHand = true) (unfinished : isPart part = true)
    (auto : isAutomatic made.name = true) (there : e ∈ before.entries) :
    e ∈ (((sweepInterrupted cutoff fails before).remove part).put made).entries := by
  simp only [DirEntry.byHand, Bool.and_eq_true, Bool.not_eq_true'] at byHand
  have whole := not_part_of_matches byHand.1
  refine Listing.mem_put.mpr (Or.inl ⟨?_, ?_⟩)
  · simp only [Listing.remove, Listing.select, sweepInterrupted, List.mem_filter, there, whole,
      true_and, Bool.false_and, Bool.not_false, decide_eq_true_eq]
    intro same
    rw [same, unfinished] at whole
    cases whole
  · intro same
    rw [same, auto] at byHand
    cases byHand.2

/-- A run that finishes has gone through every step. -/
theorem runCreate_finished (made : run.made = .inl mtime) (loaded : run.keep = some keep)
    (ran : runCreate run .auto before = (.finished name swept, after)) :
    name = newName run.started .auto ∧
      applyRetention run.fails keep
        (((sweepInterrupted run.cutoff run.fails before).remove (name ++ ".part")).put
          { name := name, mtime := mtime }) = (some swept, after) := by
  simp only [runCreate, made, loaded, ne_eq, not_true_eq_false, if_false] at ran
  split at ran
  next deleted kept retained =>
    cases ran
    exact ⟨rfl, retained⟩
  next => cases ran

/-- An automatic backup that succeeds has kept what it promises exactly when the names are in
the order of the times where it matters. -/
theorem retains_iff (run : CreateRun) (before after : Listing) (mtime : DateTime) (keep : Int)
    (name : String) (swept : List String) (made : run.made = .inl mtime)
    (loaded : run.keep = some keep)
    (ran : runCreate run .auto before = (.finished name swept, after)) :
    Retains before after { name := name, mtime := mtime } keep ↔
      NamedInOrder before { name := name, mtime := mtime } keep := by
  obtain ⟨named, retained⟩ := runCreate_finished made loaded ran
  have autoName : isAutomatic name = true := named ▸ isAutomatic_newName run.started
  have same := @automatic_placed before run.cutoff run.fails _ (isPart_append name)
    { name := name, mtime := mtime }
  have keeps := mem_applyRetention retained
  have fewer := automatic_applyRetention retained
  simp only [Listing.rank, same] at keeps
  -- what stays are the automatic files among the first `keep` by name
  have kept_iff : ∀ e, e ∈ after.automatic ↔ e ∈ (before.put ⟨name, mtime⟩).automatic ∧
      (rankIn DirEntry.name (before.put ⟨name, mtime⟩).automatic e.name : Int) < keep := by
    intro e
    constructor
    · intro stays
      obtain ⟨there, auto⟩ := List.mem_filter.mp stays
      obtain ⟨inside, high⟩ := (keeps e).mp there
      exact ⟨same ▸ List.mem_filter.mpr ⟨inside, auto⟩, high auto⟩
    · rintro ⟨inside, high⟩
      rw [← same] at inside
      obtain ⟨there, auto⟩ := List.mem_filter.mp inside
      exact List.mem_filter.mpr ⟨(keeps e).mpr ⟨there, fun _ => high⟩, auto⟩
  constructor
  · rintro ⟨present, atMost, newest, byHand⟩
    refine ⟨((keeps _).mp present).2 autoName, ?_⟩
    intro a first b second above earlier
    -- otherwise the newer is gone while the older one stays
    by_contra apart
    obtain ⟨high, low⟩ := not_or.mp apart
    have stays : a ∈ after.automatic := (kept_iff a).mpr ⟨first, not_le.mp high⟩
    have gone : b ∉ after.entries := by
      intro there
      have auto := (List.mem_filter.mp second).2
      exact low (((kept_iff b).mp (List.mem_filter.mpr ⟨there, auto⟩)).2)
    exact absurd (newest a stays b second gone) (not_le.mpr earlier)
  · rintro ⟨room, together⟩
    refine ⟨(keeps _).mpr ⟨Listing.mem_put.mpr (Or.inr rfl), fun _ => room⟩, ?_, ?_, ?_⟩
    · have some_ : 0 < keep := lt_of_le_of_lt (Int.natCast_nonneg _) room
      omega
    · intro kept stays gone there absent
      obtain ⟨first, high⟩ := (kept_iff kept).mp stays
      have auto := (List.mem_filter.mp there).2
      have low : keep ≤ rankIn DirEntry.name (before.put ⟨name, mtime⟩).automatic gone.name := by
        by_contra above
        exact absent (List.mem_filter.mp ((kept_iff gone).mpr ⟨there, not_le.mp above⟩)).1
      -- what went sorts behind what stayed
      have sorts : gone.name < kept.name := by
        by_contra other
        rcases lt_or_eq_of_le (not_lt.mp other) with above | equal
        · have ranks := rankIn_lt_of_lt there rfl above
          omega
        · rw [← equal] at low
          omega
      by_contra later
      rcases together kept first gone there sorts (not_le.mp later) with below | inside
      · exact absurd high (not_lt.mpr below)
      · exact absurd inside (not_lt.mpr low)
    · intro e there byHand
      refine (keeps e).mpr ⟨mem_placed byHand (isPart_append name) autoName there, ?_⟩
      intro auto
      simp only [DirEntry.byHand, Bool.and_eq_true, Bool.not_eq_true'] at byHand
      rw [DirEntry.automatic, byHand.2] at auto
      cases auto

/-- Three in the morning of a Sunday. -/
def sundayMorning : DateTime :=
  { newYear ⟨2026, by decide⟩ with
    month := ⟨10, by decide⟩, day := ⟨11, by decide⟩, hour := ⟨3, by decide⟩ }

/-- A run of that time, with nothing in its way. -/
def sundayRun (keep : Int) : CreateRun where
  started := sundayMorning
  cutoff := { sundayMorning with day := ⟨10, by decide⟩ }
  fails _ := false
  made := .inl { sundayMorning with minute := ⟨2, by decide⟩ }
  keep := some keep

def namedFiles (names : List String) (apart : names.Nodup) : Listing where
  entries := names.map fun name => { name := name, mtime := newYear ⟨2026, by decide⟩ }
  distinct := by
    rw [List.map_map]
    exact (List.map_id names).symm ▸ apart

/-- The third of three nightly backups, two of which are kept. -/
theorem retains_nightly : Retains
    (namedFiles ["megoopm-20261009-030000-auto.mgb", "megoopm-20261010-030000-auto.mgb",
      "megoopm-20261010-120000-manual.mgb"] (by decide))
    (runCreate (sundayRun 2) .auto
      (namedFiles ["megoopm-20261009-030000-auto.mgb", "megoopm-20261010-030000-auto.mgb",
        "megoopm-20261010-120000-manual.mgb"] (by decide))).2
    { name := "megoopm-20261011-030000-auto.mgb",
      mtime := { sundayMorning with minute := ⟨2, by decide⟩ } } 2 :=
  (retains_iff (sundayRun 2) _ _ _ 2 "megoopm-20261011-030000-auto.mgb"
    ["megoopm-20261009-030000-auto.mgb"] rfl rfl (Prod.ext (by decide +kernel) rfl)).mpr
    ⟨by decide +kernel, by decide +kernel⟩

/-- A copied file whose name holds no date sorts above every date, and the new backup is the
one that is deleted. -/
theorem impossible_date_expires_new :
    (runCreate (sundayRun 1) .auto (namedFiles ["megoopm-99999999-999999-auto.mgb"]
      (by decide))).1 =
        .finished "megoopm-20261011-030000-auto.mgb" ["megoopm-20261011-030000-auto.mgb"] ∧
    ¬Retains (namedFiles ["megoopm-99999999-999999-auto.mgb"] (by decide))
      (runCreate (sundayRun 1) .auto (namedFiles ["megoopm-99999999-999999-auto.mgb"]
        (by decide))).2
      { name := "megoopm-20261011-030000-auto.mgb",
        mtime := { sundayMorning with minute := ⟨2, by decide⟩ } } 1 := by
  refine ⟨by decide +kernel, fun retains => ?_⟩
  have present := retains.present
  revert present
  decide +kernel

/-- A name that an automatic backup of an earlier time got. -/
def DirEntry.Dated (started : DateTime) (e : DirEntry) : Prop :=
  ∃ t : DateTime, t.Valid ∧ e.name = newName t .auto ∧ t.seconds ≤ started.seconds

/-- Where every automatic file was named by an automatic backup, and none is from the future,
the names are in order. -/
theorem namedInOrder_of_dated {started : DateTime} (valid : started.Valid) (some_ : 1 ≤ keep)
    (dated : ∀ e ∈ before.automatic, e.Dated started) :
    NamedInOrder before { name := newName started .auto, mtime := mtime } keep := by
  have all_dated : ∀ e ∈ (before.put ⟨newName started .auto, mtime⟩).automatic,
      e.Dated started := by
    intro e member
    obtain ⟨there, auto⟩ := List.mem_filter.mp member
    rcases Listing.mem_put.mp there with ⟨old, _⟩ | rfl
    · exact dated e (List.mem_filter.mpr ⟨old, auto⟩)
    · exact ⟨started, valid, rfl, le_rfl⟩
  refine ⟨?_, ?_⟩
  · have top : (before.put ⟨newName started .auto, mtime⟩).rank (newName started .auto) = 0 := by
      refine List.countP_eq_zero.mpr fun e member => ?_
      obtain ⟨t, _, named, past⟩ := all_dated e member
      rw [named, decide_eq_true_eq, newName_lt_iff]
      omega
    rw [top]
    exact lt_of_lt_of_le Int.zero_lt_one some_
  · intro a first b second above earlier
    obtain ⟨t, validT, namedT, _⟩ := all_dated a first
    obtain ⟨u, validU, namedU, _⟩ := all_dated b second
    rw [namedT, namedU, newName_lt_iff] at above
    simp only [DirEntry.created, namedT, namedU, createdAt_newName validT,
      createdAt_newName validU, DateTime.moment, DateTime.seconds] at earlier above
    omega

end Run

end MegooPM
