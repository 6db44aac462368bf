import MegooPM.Certs.Uploads
import Mathlib.Algebra.Order.Group.Int
import Mathlib.Algebra.Order.Group.Unbundled.Abs
import Mathlib.Data.List.Pairwise

/-!
# Renewal sweeps

`renew_due_certificates` in HA mode, where every node's beat emits one, and `claim_sweep` of
`services/cluster/sweeps.py`. A run opens the transaction of its claim at one moment, writes the
row at a later one and commits at a third; other runs do the same in between. The leader lock is
held by one run at a time, but its connection may drop while the run goes on.
-/
namespace MegooPM

open Lib

/-- The upsert over the committed row: the `last_run_at` it writes, if it returns a row. `now` is
the start of the transaction; all moments are microseconds of the database clock. -/
def claimSweep (lastRunAt : Option Int) (now minInterval : Int) : Option Int :=
  match lastRunAt with
  | none => some now
  | some last => if last < now - minInterval then some now else none

/-- Where a run of `renew_due_certificates` is. -/
inductive SweepRun where
  | idle
  /-- `leader_lock` is next -/
  | started
  /-- `engine.begin()` is next -/
  | leading
  /-- the transaction is open since `now`; the upsert is next -/
  | opened (now : Int)
  /-- the upsert wrote the row; the commit is next -/
  | wrote (now : Int)
  /-- the upsert returned no row; the commit is next -/
  | unclaimed
  /-- the claim is committed; `_due_ids_async` is next -/
  | claimed (now : Int)
  | enqueuing (now : Int) (due : List Id)
  | finished
  | skipped (reason : String)
  /-- it raised, or its worker is gone -/
  | stopped
  deriving DecidableEq, Repr

/-- How the commit of a claim ends; the answer to one that went through may be lost. -/
inductive ClaimEnd where
  | committed | rolledBack | unseen
  deriving DecidableEq, Repr

inductive SweepEvent where
  /-- the database clock, wherever it is set to -/
  | clock (now : Int)
  /-- a beat fires, or a message is delivered again -/
  | beat (run : Nat)
  | lead (run : Nat)
  /-- the leader is done, or its connection is gone -/
  | unlead
  | begin (run : Nat)
  | upsert (run : Nat)
  | commit (run : Nat) (how : ClaimEnd)
  | read (run : Nat) (db : Database) (horizon : DateTime)
  /-- `renew_certificate.delay` of the next id, which may raise before or after it sent it -/
  | enqueue (run : Nat) (sent raises : Bool)
  | finish (run : Nat)
  | stop (run : Nat)

/-- A renewal a sweep has enqueued, with the time of the sweep's claim. -/
structure Enqueued where
  run : Nat
  claimedAt : Int
  certId : Id
  deriving DecidableEq, Repr

/-- The sweep's row of `cluster_sweep` as committed, the run whose uncommitted upsert holds it,
the leader, the runs, and the claims and renewals so far. -/
structure SweepWorld where
  minInterval : Int
  now : Int
  row : Option Int
  writer : Option Nat := none
  leader : Option Nat := none
  runs : Nat → SweepRun := fun _ => .idle
  claims : List (Nat × Int) := []
  enqueued : List Enqueued := []

namespace SweepWorld

def put (s : SweepWorld) (run : Nat) (next : SweepRun) : SweepWorld :=
  { s with runs := Function.update s.runs run next }

/-- The upsert of a run; one that finds the row written but not committed waits. -/
def upsert (s : SweepWorld) (run : Nat) (now : Int) : Option SweepWorld :=
  if s.writer = none then
    match claimSweep s.row now s.minInterval with
    | some _ => some { s.put run (.wrote now) with writer := some run }
    | none => some (s.put run .unclaimed)
  else none

/-- The commit of a run that wrote the row. -/
def commit (s : SweepWorld) (run : Nat) (now : Int) : ClaimEnd → SweepWorld
  | .committed =>
    { s.put run (.claimed now) with
      row := some now, writer := none, claims := (run, now) :: s.claims }
  | .unseen =>
    { s.put run .stopped with row := some now, writer := none, claims := (run, now) :: s.claims }
  | .rolledBack => { s.put run .stopped with writer := none }

/-- `renew_certificate.delay` of the next id. -/
def enqueue (s : SweepWorld) (run : Nat) (now : Int) (certId : Id) (rest : List Id)
    (sent raises : Bool) : SweepWorld :=
  { s.put run (if raises then .stopped else .enqueuing now rest) with
    enqueued := if sent then ⟨run, now, certId⟩ :: s.enqueued else s.enqueued }

/-- What one event does; `none` where the run is not at that point. The due ids are read from a
certificate table that keeps its constraints, whatever else happened to it. -/
def next (s : SweepWorld) : SweepEvent → Option SweepWorld
  | .clock now => some { s with now := now }
  | .beat run => if s.runs run = .idle then some (s.put run .started) else none
  | .lead run =>
    if s.runs run = .started then
      if s.leader = none then some { s.put run .leading with leader := some run }
      else some (s.put run (.skipped "another node holds the renewal lock"))
    else none
  | .unlead => some { s with leader := none }
  | .begin run => if s.runs run = .leading then some (s.put run (.opened s.now)) else none
  | .upsert run =>
    match s.runs run with
    | .opened now => s.upsert run now
    | _ => none
  | .commit run how =>
    match s.runs run with
    | .wrote now => some (s.commit run now how)
    | .unclaimed =>
      some (s.put run (if how = .committed then .skipped "already swept this period" else .stopped))
    | _ => none
  | .read run db horizon =>
    match s.runs run with
    | .claimed now =>
      if db.Constraints then some (s.put run (.enqueuing now (listDueCertificateIds db horizon)))
      else none
    | _ => none
  | .enqueue run sent raises =>
    match s.runs run with
    | .enqueuing now (certId :: rest) => some (s.enqueue run now certId rest sent raises)
    | _ => none
  | .finish run =>
    match s.runs run with
    | .enqueuing _ [] => some (s.put run .finished)
    | _ => none
  | .stop run =>
    match s.runs run with
    | .finished => none
    | .skipped _ => none
    -- an open transaction is rolled back with its connection
    | _ => some { s.put run .stopped with writer := if s.writer = some run then none else s.writer }

/-- No run has begun yet. -/
def initial (minInterval now : Int) (row : Option Int) : SweepWorld :=
  { minInterval := minInterval, now := now, row := row }

def Step (s : SweepWorld) (e : SweepEvent) (t : SweepWorld) : Prop :=
  s.next e = some t

/-- What the claims of all runs together amount to. -/
structure Spaced (s : SweepWorld) : Prop where
  apart : ∀ a ∈ s.enqueued, ∀ b ∈ s.enqueued, a.run ≠ b.run →
    s.minInterval < |a.claimedAt - b.claimedAt|
  refused : ∀ run reason, s.runs run = .skipped reason → ∀ a ∈ s.enqueued, a.run ≠ run
  once : s.enqueued.Pairwise fun a b =>
    a.certId = b.certId → a.run ≠ b.run ∧ s.minInterval < |a.claimedAt - b.claimedAt|

/-! ### What the steps keep -/

/-- Nothing enqueued is of that run. -/
def Quiet (s : SweepWorld) (run : Nat) : Prop :=
  ∀ e ∈ s.enqueued, e.run ≠ run

/-- What holds of a run by where it is. -/
def RunSound (s : SweepWorld) (run : Nat) : SweepRun → Prop
  | .wrote now => s.Quiet run ∧ s.writer = some run ∧
      ∀ last, s.row = some last → last + s.minInterval < now
  | .claimed now => s.Quiet run ∧ (run, now) ∈ s.claims
  | .enqueuing now due => (run, now) ∈ s.claims ∧ due.Nodup ∧
      ∀ e ∈ s.enqueued, e.run = run → e.certId ∉ due
  | .finished => True
  | .stopped => True
  | _ => s.Quiet run

/-- The row is the latest of the claims, each of which is past the one before it. -/
structure Sound (s : SweepWorld) : Prop where
  runs : ∀ run, s.RunSound run (s.runs run)
  logged : ∀ e ∈ s.enqueued, (e.run, e.claimedAt) ∈ s.claims
  distinct : s.enqueued.Pairwise fun a b => a.certId = b.certId → a.run ≠ b.run
  latest : 0 ≤ s.minInterval → ∀ claim ∈ s.claims, ∃ last, s.row = some last ∧ claim.2 ≤ last
  ordered : 0 ≤ s.minInterval →
    s.claims.Pairwise fun newer older => older.2 + s.minInterval < newer.2

/-- An upsert that returns a row found no recent claim. -/
theorem claimSweep_eq_some {row : Option Int} {now minInterval written : Int}
    (claims : claimSweep row now minInterval = some written) :
    ∀ last, row = some last → last + minInterval < now := by
  rintro last rfl
  simp only [claimSweep] at claims
  split at claims
  next older => omega
  next => cases claims

section Steps

variable {s t : SweepWorld} {run : Nat}

/-- A run is not disturbed by what the others do. -/
theorem RunSound.frame {at_ : SweepRun} (sound : s.RunSound run at_)
    (interval : t.minInterval = s.minInterval)
    (writer : s.writer = some run → t.writer = some run ∧ t.row = s.row)
    (claims : s.claims ⊆ t.claims) (log : ∀ e ∈ t.enqueued, e.run = run → e ∈ s.enqueued) :
    t.RunSound run at_ := by
  have quiet : s.Quiet run → t.Quiet run := fun before e member own =>
    before e (log e member own) own
  cases at_ with
  | wrote now =>
    obtain ⟨before, holds, older⟩ := sound
    obtain ⟨still, same⟩ := writer holds
    refine ⟨quiet before, still, fun last is => ?_⟩
    rw [interval]
    exact older last (same ▸ is)
  | claimed now => exact ⟨quiet sound.1, claims sound.2⟩
  | enqueuing now due =>
    exact ⟨claims sound.1, sound.2.1, fun e member own => sound.2.2 e (log e member own) own⟩
  | finished => trivial
  | stopped => trivial
  | _ => exact quiet sound

/-- A step of one run that leaves the row, the claims and the renewals alone. -/
theorem Sound.move (sound : s.Sound) {next : SweepRun} {writer : Option Nat} (leader : Option Nat)
    (others : ∀ other ≠ run, s.writer = some other → writer = some other)
    (own : ({ s.put run next with writer := writer, leader := leader } : SweepWorld).RunSound run
      next) :
    ({ s.put run next with writer := writer, leader := leader } : SweepWorld).Sound where
  runs other := by
    by_cases same : other = run
    · subst same
      simpa only [put, Function.update_self] using own
    · simp only [put, Function.update_of_ne same]
      exact (sound.runs other).frame rfl (fun holds => ⟨others other same holds, rfl⟩)
        (List.Subset.refl _) fun e member _ => member
  logged := sound.logged
  distinct := sound.distinct
  latest := sound.latest
  ordered := sound.ordered

/-- A run without a claim of its own goes on. -/
theorem Sound.goOn (sound : s.Sound) {next : SweepRun} (quiet : s.RunSound run next) :
    (s.put run next).Sound :=
  sound.move s.leader (fun _ _ holds => holds)
    (quiet.frame rfl (fun holds => ⟨holds, rfl⟩) (List.Subset.refl _) fun _ member _ => member)

/-- A claim is committed: its time becomes the row. -/
theorem Sound.claim (sound : s.Sound) {now : Int} (here : s.runs run = .wrote now)
    {next : SweepRun} (after : next = .claimed now ∨ next = .stopped) :
    ({ s.put run next with
      row := some now, writer := none, claims := (run, now) :: s.claims } : SweepWorld).Sound := by
  have own := sound.runs run
  rw [here] at own
  obtain ⟨quiet, holds, older⟩ := own
  refine ⟨fun other => ?_, fun e member => List.mem_cons_of_mem _ (sound.logged e member),
    sound.distinct, fun nonneg claim member => ?_, fun nonneg => ?_⟩
  · by_cases same : other = run
    · subst same
      simp only [put, Function.update_self]
      rcases after with rfl | rfl
      · exact ⟨quiet, List.mem_cons_self ..⟩
      · trivial
    · simp only [put, Function.update_of_ne same]
      -- nobody else has written the row
      refine (sound.runs other).frame rfl (fun held => ?_) (List.subset_cons_self ..)
        fun e member _ => member
      rw [holds, Option.some.injEq] at held
      exact absurd held.symm same
  · rcases List.mem_cons.mp member with rfl | before
    · exact ⟨now, rfl, Int.le_refl _⟩
    · obtain ⟨last, is, le⟩ := sound.latest nonneg claim before
      have past := older last is
      exact ⟨now, rfl, by change 0 ≤ s.minInterval at nonneg; omega⟩
  · refine List.pairwise_cons.mpr ⟨fun claim before => ?_, sound.ordered nonneg⟩
    obtain ⟨last, is, le⟩ := sound.latest nonneg claim before
    have past := older last is
    change claim.2 + s.minInterval < now
    omega

/-- A renewal is sent: the run has sent none of this certificate, and the others have claims of
their own. -/
theorem Sound.enqueue (sound : s.Sound) {now : Int} {certId : Id} {rest : List Id}
    (here : s.runs run = .enqueuing now (certId :: rest)) (sent raises : Bool) :
    (s.enqueue run now certId rest sent raises).Sound := by
  have own := sound.runs run
  rw [here] at own
  obtain ⟨granted, nodup, unsent⟩ := own
  obtain ⟨fresh, rest_nodup⟩ := List.nodup_cons.mp nodup
  -- whether or not the broker took the task, the run goes on without this certificate
  have log : ∀ e ∈ (s.enqueue run now certId rest sent raises).enqueued,
      e = ⟨run, now, certId⟩ ∨ e ∈ s.enqueued := by
    intro e member
    cases sent with
    | true => exact List.mem_cons.mp member
    | false => exact Or.inr member
  refine ⟨fun other => ?_, fun e member => ?_, ?_, sound.latest, sound.ordered⟩
  · by_cases same : other = run
    · subst same
      simp only [SweepWorld.enqueue, put, Function.update_self]
      cases raises with
      | true => trivial
      | false =>
        refine ⟨granted, rest_nodup, fun e member own => ?_⟩
        rcases log e member with rfl | before
        · exact fresh
        · exact fun later => unsent e before own (List.mem_cons_of_mem _ later)
    · simp only [SweepWorld.enqueue, put, Function.update_of_ne same]
      refine (sound.runs other).frame rfl (fun holds => ⟨holds, rfl⟩) (List.Subset.refl _)
        fun e member is => ?_
      rcases log e member with rfl | before
      · exact absurd is.symm same
      · exact before
  · rcases log e member with rfl | before
    · exact granted
    · exact sound.logged e before
  · cases sent with
    | false => exact sound.distinct
    | true =>
      refine List.pairwise_cons.mpr ⟨fun e before same own => ?_, sound.distinct⟩
      exact unsent e before own.symm (same ▸ List.mem_cons_self ..)

theorem listDueCertificateIds_nodup {db : Database} (constraints : db.Constraints)
    (horizon : DateTime) : (listDueCertificateIds db horizon).Nodup := by
  refine (List.filter_sublist.map Certificate.id).nodup ?_
  rw [((sortedBy_perm Certificate.id _).map Certificate.id).nodup_iff]
  exact (List.filter_sublist.map Certificate.id).nodup constraints.certificateIds

/-! Each event by itself. -/

/-- An event that every run lets pass. -/
theorem Sound.around (sound : s.Sound) (now : Int) (leader : Option Nat) :
    ({ s with now := now, leader := leader } : SweepWorld).Sound :=
  ⟨sound.runs, sound.logged, sound.distinct, sound.latest, sound.ordered⟩

theorem Sound.beat (sound : s.Sound) (moved : s.next (.beat run) = some t) : t.Sound := by
  have own := sound.runs run
  simp only [next, Option.ite_none_right_eq_some] at moved
  obtain ⟨here, ⟨⟩⟩ := moved
  rw [here] at own
  exact sound.goOn own

theorem Sound.begin (sound : s.Sound) (moved : s.next (.begin run) = some t) : t.Sound := by
  have own := sound.runs run
  simp only [next, Option.ite_none_right_eq_some] at moved
  obtain ⟨here, ⟨⟩⟩ := moved
  rw [here] at own
  exact sound.goOn own

theorem Sound.lead (sound : s.Sound) (moved : s.next (.lead run) = some t) : t.Sound := by
  have own := sound.runs run
  simp only [next, Option.ite_none_right_eq_some] at moved
  obtain ⟨here, moved⟩ := moved
  rw [here] at own
  split at moved
  · cases moved
    exact sound.move _ (fun _ _ holds => holds) own
  · cases moved
    exact sound.goOn own

/-- The upsert that returns a row holds it until the commit. -/
theorem Sound.upsert (sound : s.Sound) (moved : s.next (.upsert run) = some t) : t.Sound := by
  have own := sound.runs run
  simp only [next] at moved
  split at moved
  next now here =>
    rw [here] at own
    simp only [SweepWorld.upsert, Option.ite_none_right_eq_some] at moved
    obtain ⟨free, moved⟩ := moved
    split at moved
    next written claims =>
      cases moved
      refine sound.move s.leader (fun other _ holds => ?_) ?_
      · rw [free] at holds
        cases holds
      · exact ⟨own, rfl, claimSweep_eq_some claims⟩
    next =>
      cases moved
      exact sound.goOn own
  next => cases moved

theorem Sound.commit {how : ClaimEnd} (sound : s.Sound)
    (moved : s.next (.commit run how) = some t) : t.Sound := by
  have own := sound.runs run
  simp only [next] at moved
  split at moved
  next now here =>
    cases moved
    rw [here] at own
    cases how with
    | committed => exact sound.claim here (Or.inl rfl)
    | unseen => exact sound.claim here (Or.inr rfl)
    | rolledBack =>
      refine sound.move s.leader (fun other apart holds => ?_) trivial
      rw [own.2.1, Option.some.injEq] at holds
      exact absurd holds.symm apart
  next here =>
    cases moved
    rw [here] at own
    refine sound.goOn ?_
    split
    · exact own
    · trivial
  next => cases moved

theorem Sound.read {db : Database} {horizon : DateTime} (sound : s.Sound)
    (moved : s.next (.read run db horizon) = some t) : t.Sound := by
  have own := sound.runs run
  simp only [next] at moved
  split at moved
  next now here =>
    rw [here] at own
    obtain ⟨constraints, moved⟩ := Option.ite_none_right_eq_some.mp moved
    cases moved
    exact sound.goOn ⟨own.2, listDueCertificateIds_nodup constraints horizon,
      fun e member is => absurd is (own.1 e member)⟩
  next => cases moved

/-- A run that is stopped gives the row back if it holds it. -/
theorem Sound.stop (sound : s.Sound) (moved : s.next (.stop run) = some t) : t.Sound := by
  simp only [next] at moved
  split at moved
  next => cases moved
  next => cases moved
  next =>
    cases moved
    refine sound.move s.leader (fun other apart holds => ?_) trivial
    rw [if_neg]
    · exact holds
    · rw [holds, Option.some.injEq]
      exact apart

theorem Sound.step (sound : s.Sound) {e : SweepEvent} (moved : s.Step e t) : t.Sound := by
  unfold Step at moved
  cases e with
  | clock now =>
    cases moved
    exact sound.around now s.leader
  | unlead =>
    cases moved
    exact sound.around s.now none
  | beat run => exact sound.beat moved
  | begin run => exact sound.begin moved
  | lead run => exact sound.lead moved
  | upsert run => exact sound.upsert moved
  | commit run how => exact sound.commit moved
  | read run db horizon => exact sound.read moved
  | enqueue run sent raises =>
    simp only [next] at moved
    split at moved
    next now certId rest here =>
      cases moved
      exact sound.enqueue here sent raises
    next => cases moved
  | finish run =>
    simp only [next] at moved
    split at moved
    next =>
      cases moved
      exact sound.goOn trivial
    next => cases moved
  | stop run => exact sound.stop moved

/-- Only the commit of a claim changes the row. -/
theorem row_of_step {e : SweepEvent} (moved : s.Step e t) :
    t.minInterval = s.minInterval ∧
      (t.row = s.row ∨ ∃ run now, s.runs run = .wrote now ∧ t.row = some now) := by
  unfold Step at moved
  cases e with
  | commit run how =>
    simp only [next] at moved
    split at moved
    next now here =>
      cases moved
      cases how with
      | rolledBack => exact ⟨rfl, Or.inl rfl⟩
      | _ => exact ⟨rfl, Or.inr ⟨run, now, here, rfl⟩⟩
    next =>
      cases moved
      exact ⟨rfl, Or.inl rfl⟩
    next => cases moved
  | _ =>
    simp only [next, SweepWorld.upsert] at moved
    repeat' split at moved
    all_goals first
      | cases moved; exact ⟨rfl, Or.inl rfl⟩
      | cases moved

/-- A step takes the row to a later moment, or leaves it. -/
theorem Sound.later (sound : s.Sound) {e : SweepEvent} (moved : s.Step e t)
    (nonneg : 0 ≤ s.minInterval) {last : Int} (is : s.row = some last) :
    ∃ later, t.row = some later ∧ last ≤ later := by
  rcases (row_of_step moved).2 with same | ⟨run, now, here, written⟩
  · exact ⟨last, same.trans is, Int.le_refl _⟩
  · have own := sound.runs run
    rw [here] at own
    have past := own.2.2 last is
    exact ⟨now, written, by omega⟩

/-- Two granted claims are more than the interval apart, whichever came first. -/
theorem Sound.claims_apart (sound : s.Sound) {x y : Nat × Int} (first : x ∈ s.claims)
    (second : y ∈ s.claims) (other : x ≠ y) : s.minInterval < |x.2 - y.2| := by
  by_cases nonneg : 0 ≤ s.minInterval
  · have symmetric : Std.Symm fun x y : Nat × Int => s.minInterval < |x.2 - y.2| :=
      ⟨fun x y past => by rwa [abs_sub_comm]⟩
    have spaced : s.claims.Pairwise fun x y => s.minInterval < |x.2 - y.2| :=
      (sound.ordered nonneg).imp fun past => lt_abs.mpr (Or.inl (by omega))
    exact spaced.forall first second other
  · have bound := abs_nonneg (x.2 - y.2)
    omega

theorem Sound.spaced (sound : s.Sound) : s.Spaced := by
  have apart : ∀ a ∈ s.enqueued, ∀ b ∈ s.enqueued, a.run ≠ b.run →
      s.minInterval < |a.claimedAt - b.claimedAt| := by
    intro a first b second other
    exact sound.claims_apart (sound.logged a first) (sound.logged b second) fun same =>
      other (congrArg Prod.fst same)
  refine ⟨apart, fun run reason here => ?_, ?_⟩
  · have own := sound.runs run
    rw [here] at own
    exact own
  · refine sound.distinct.imp_of_mem fun {a b} first second different same => ?_
    have other := different same
    exact ⟨other, apart a first b second other⟩

end Steps

theorem sound_initial (minInterval now : Int) (row : Option Int) :
    (initial minInterval now row).Sound where
  runs _ _ member := absurd member List.not_mem_nil
  logged _ member := absurd member List.not_mem_nil
  distinct := List.Pairwise.nil
  latest _ _ member := absurd member List.not_mem_nil
  ordered _ := List.Pairwise.nil

theorem Sound.reaches {s t : SweepWorld} (sound : s.Sound) (run : Reaches Step s t) : t.Sound :=
  run.invariant (fun _ _ _ before moved => before.step moved) sound

theorem interval_reaches {s t : SweepWorld} (run : Reaches Step s t) :
    t.minInterval = s.minInterval :=
  run.invariant (P := fun u => u.minInterval = s.minInterval)
    (fun _ _ _ same moved => (row_of_step moved).1.trans same) rfl

/-- Over a whole run the row only moves on. -/
theorem Sound.row_reaches {s t : SweepWorld} (sound : s.Sound) (nonneg : 0 ≤ s.minInterval)
    (run : Reaches Step s t) {last : Int} (is : s.row = some last) :
    ∃ later, t.row = some later ∧ last ≤ later := by
  induction run with
  | refl => exact ⟨last, is, Int.le_refl _⟩
  | @tail middle _ before moved ih =>
    obtain ⟨e, step⟩ := moved
    obtain ⟨between, reached, le⟩ := ih
    have still : 0 ≤ middle.minInterval := (interval_reaches before).symm ▸ nonneg
    obtain ⟨later, after, le'⟩ := (sound.reaches before).later step still reached
    exact ⟨later, after, Int.le_trans le le'⟩

end SweepWorld

/-- However the beats fire and the runs interleave, sweeps that enqueue renewals have claims more
than the interval apart, a refused one enqueues nothing, and no certificate is enqueued twice
within the interval. `last_run_at` never decreases, unless the interval is set to less than
nothing: `cert_renew_sweep_min_interval_seconds` is 12 hours, and no code checks its sign. -/
theorem sweeps_spaced {minInterval now : Int} {row : Option Int} {s t : SweepWorld}
    (before : Reaches SweepWorld.Step (SweepWorld.initial minInterval now row) s)
    (run : Reaches SweepWorld.Step s t) :
    t.Spaced ∧ t.minInterval = minInterval ∧ (0 ≤ minInterval → ∀ last, s.row = some last →
      ∃ later, t.row = some later ∧ last ≤ later) := by
  have sound := (SweepWorld.sound_initial minInterval now row).reaches before
  have interval := SweepWorld.interval_reaches before
  refine ⟨(sound.reaches run).spaced, (SweepWorld.interval_reaches run).trans interval, ?_⟩
  intro nonneg last is
  exact sound.row_reaches (interval.symm ▸ nonneg) run is

/-- A database with a certificate that expires at the beginning of 2026. -/
def expiringDb : Database :=
  { certificates := [
      { id := 7, name := "example", provider := .letsencrypt, status := .active,
        expiresOn := some (newYear 2026) }] }

/-- Two beats at once, of which the second has opened its transaction first and then waits, and
one more after the interval. -/
def sweepTwice : List SweepEvent :=
  [.beat 0, .beat 1, .lead 1, .begin 1, .unlead, .clock 20, .lead 0, .begin 0, .upsert 0,
   .commit 0 .committed, .upsert 1, .commit 1 .committed, .read 0 expiringDb (newYear 2026),
   .enqueue 0 true false, .finish 0, .unlead, .clock 121, .beat 2, .lead 2, .begin 2, .upsert 2,
   .commit 2 .committed, .read 2 expiringDb (newYear 2026), .enqueue 2 true false]

theorem sweeps_spaced_twice : ∃ s,
    play SweepWorld.next sweepTwice (SweepWorld.initial 100 10 none) = some s ∧
      s.enqueued = [⟨2, 121, 7⟩, ⟨0, 20, 7⟩] ∧ s.runs 1 = .skipped "already swept this period" ∧
      s.Spaced := by
  obtain ⟨s, played⟩ : ∃ s,
      play SweepWorld.next sweepTwice (SweepWorld.initial 100 10 none) = some s := ⟨_, rfl⟩
  have run : Reaches (Guarded (fun _ _ => True) SweepWorld.Step) _ s :=
    Reaches.of_play (fun _ _ _ => trivial) played
  refine ⟨s, played, ?_, ?_, (sweeps_spaced (Reaches.refl _ _) run.of_guarded).1⟩
  · cases played
    rfl
  · cases played
    rfl

end MegooPM
