import MegooPM.Accounts.Tables
import MegooPM.CrowdSec.WhitelistYaml
import MegooPM.Lib.ReadCommitted
import MegooPM.Lib.Rows

/-!
# Whitelist slugs

The whitelist routes of `api/routes/crowdsec.py`. A name is checked against every row that is
stored when the guard reads; the row is written with the commit. Nothing but the name itself is
unique in the table, so the check holds of a run as long as no other request stores the same slug
in between.
-/
namespace MegooPM.CrowdSec

open Lib

deriving instance DecidableEq for WhitelistDoc

structure StoredWhitelist where
  id : Id
  doc : WhitelistDoc
  enabled : Bool
  deriving DecidableEq

/-- The body of a request that has passed its schema. -/
structure WhitelistPayload where
  doc : WhitelistDoc
  enabled : Bool := true

inductive WhitelistOutcome where
  /-- a row is inserted, or updated; the name, if it is written, and the rows the guard has read -/
  | saved (whitelist : Id) (name : Option String) (seen : List StoredWhitelist)
  | deleted (whitelist : Id)
  | refused (status : Nat) (detail : String)

abbrev WhitelistTxn := Txn (List StoredWhitelist) Id WhitelistOutcome

section Requests

variable (library : WhitelistLibrary)

/-- The loop of `_guard_slug_unique`, past the slug of the name itself. -/
def guardSlugUnique (slug : String) (excludeId : Option Id) (rows : List StoredWhitelist) :
    Except (Nat × String) Unit :=
  rows.forM fun row =>
    if some row.id = excludeId then .ok ()
    else match slugify library row.doc.name with
      -- nothing catches this one
      | .error detail => .error (500, detail)
      | .ok other =>
        if other = slug then
          .error (409, "Whitelist " ++ library.repr row.doc.name ++
            " already renders as megoopm/wl-" ++ slug ++ ".")
        else .ok ()

/-- The guard, and what the request does with the rows it has read. -/
def guarded (name : String) (excludeId : Option Id) (next : List StoredWhitelist → WhitelistTxn) :
    WhitelistTxn :=
  match slugify library name with
  | .error detail => .emit (.refused 422 detail) .done
  | .ok slug =>
    .read fun rows =>
      match guardSlugUnique library slug excludeId rows with
      | .error (status, detail) => .emit (.refused status detail) .done
      | .ok () => next rows

/-- The constraints of the table. -/
def constrained (rows : List StoredWhitelist) : Option (List StoredWhitelist) :=
  if (rows.map (·.id)).Nodup ∧ (rows.map (·.doc.name)).Nodup then some rows else none

/-- `newId` is what the sequence gives. -/
def createWhitelist (newId : Id) (payload : WhitelistPayload) : WhitelistTxn :=
  guarded library payload.doc.name none fun seen =>
    .commit [newId] (fun rows => constrained (rows ++ [⟨newId, payload.doc, payload.enabled⟩]))
      (.saved newId (some payload.doc.name) seen)

/-- The row after the UPDATE for an object that was loaded and edited. -/
def StoredWhitelist.flush (loaded edited row : StoredWhitelist) : StoredWhitelist where
  id := row.id
  doc :=
    { name := flushColumn loaded.doc.name edited.doc.name row.doc.name
      reason := flushColumn loaded.doc.reason edited.doc.reason row.doc.reason
      description := flushColumn loaded.doc.description edited.doc.description row.doc.description
      ips := flushColumn loaded.doc.ips edited.doc.ips row.doc.ips
      cidrs := flushColumn loaded.doc.cidrs edited.doc.cidrs row.doc.cidrs
      kind := flushColumn loaded.doc.kind edited.doc.kind row.doc.kind
      filter := flushColumn loaded.doc.filter edited.doc.filter row.doc.filter
      expressions := flushColumn loaded.doc.expressions edited.doc.expressions row.doc.expressions }
  enabled := flushColumn loaded.enabled edited.enabled row.enabled

/-- The pending UPDATE; it is refused as stale if the row is gone. -/
def flushWhitelist (loaded edited : StoredWhitelist) (rows : List StoredWhitelist) :
    Option (List StoredWhitelist) :=
  if edited = loaded then some rows
  else if rows.any (·.id = loaded.id) then
    constrained (updateAt StoredWhitelist.id loaded.id (loaded.flush edited) rows)
  else none

def updateWhitelist (whitelistId : Id) (payload : WhitelistPayload) : WhitelistTxn :=
  .read fun rows =>
    match rows.find? (·.id = whitelistId) with
    | none => .emit (.refused 404 "Whitelist not found.") .done
    | some row =>
      let edited := { row with doc := payload.doc, enabled := payload.enabled }
      guarded library payload.doc.name (some whitelistId) fun seen =>
        .commit [whitelistId] (fun rows => flushWhitelist row edited rows)
          (.saved whitelistId
            (if edited.doc.name = row.doc.name then none else some edited.doc.name) seen)

def deleteWhitelist (whitelistId : Id) : WhitelistTxn :=
  .read fun rows =>
    match rows.find? (·.id = whitelistId) with
    | none => .emit (.refused 404 "Whitelist not found.") .done
    | some _ =>
      .commit [whitelistId] (fun rows => some (removeAt StoredWhitelist.id whitelistId rows))
        (.deleted whitelistId)

/-- The requests that write the table. -/
inductive WhitelistRequest : WhitelistTxn → Prop
  | create (newId : Id) (payload : WhitelistPayload) :
    WhitelistRequest (createWhitelist library newId payload)
  | update (whitelistId : Id) (payload : WhitelistPayload) :
    WhitelistRequest (updateWhitelist library whitelistId payload)
  | delete (whitelistId : Id) : WhitelistRequest (deleteWhitelist whitelistId)

/-- `_load_docs`: every enabled whitelist, in id order. -/
def loadDocs (rows : List StoredWhitelist) : List WhitelistDoc :=
  (sortedBy (·.id) (rows.filter (·.enabled))).map (·.doc)

end Requests

/-! ### The slugs of a table -/

section Slugs

variable (library : WhitelistLibrary)

/-- The two rows do not render as the same parser. -/
def SlugsApart (a b : StoredWhitelist) : Prop :=
  ∀ slug, slugify library a.doc.name = .ok slug → slugify library b.doc.name ≠ .ok slug

structure SlugsDistinct (rows : List StoredWhitelist) : Prop where
  ids : (rows.map (·.id)).Nodup
  slugs : ∀ a ∈ rows, ∀ b ∈ rows, a.id ≠ b.id → SlugsApart library a b

/-- No whitelist that the guard has not seen is stored with the slug of the request by now. One
with the very name does not count: the table refuses the request then. -/
def slugStillFree (rows : List StoredWhitelist) : WhitelistOutcome → Bool
  | .saved whitelist (some name) seen =>
    rows.all fun row => row.id = whitelist || row.doc.name = name ||
      (slugify library row.doc.name).toOption ≠ (slugify library name).toOption ||
      seen.any fun old => old.id = row.id && old.doc.name = row.doc.name
  | _ => true

def slugContract : Contract (List StoredWhitelist) WhitelistOutcome where
  valid := SlugsDistinct library
  rely := fun _ _ => True
  guard := fun rows outcome => slugStillFree library rows outcome = true
  commits := fun _ _ _ => SlugsDistinct library
  emits := fun _ => True
  refl := fun _ => trivial
  trans := fun _ _ _ _ _ => trivial
  commits_valid := fun _ _ _ _ _ distinct => distinct
  commits_rely := fun _ _ _ _ _ _ => trivial

end Slugs

section Runs

variable {library : WhitelistLibrary} {rows : List StoredWhitelist}

instance : Std.Symm (SlugsApart library) where
  symm _ _ apart := fun slug second first => apart slug first second

theorem slugsDistinct_iff : SlugsDistinct library rows ↔
    (rows.map (·.id)).Nodup ∧ rows.Pairwise (SlugsApart library) := by
  constructor
  · rintro ⟨ids, slugs⟩
    refine ⟨ids, (List.pairwise_map.mp ids).imp_of_mem ?_⟩
    exact fun first second other => slugs _ first _ second other
  · rintro ⟨ids, apart⟩
    refine ⟨ids, fun a first b second other => ?_⟩
    exact apart.forall first second fun same => other (congrArg StoredWhitelist.id same)

/-- A row the guard has let pass renders as another parser. -/
theorem guardSlugUnique_ok {slug : String} {excludeId : Option Id}
    (passed : guardSlugUnique library slug excludeId rows = .ok ()) {row : StoredWhitelist}
    (member : row ∈ rows) (counted : some row.id ≠ excludeId) :
    slugify library row.doc.name ≠ .ok slug := by
  have check := ok_of_forM_ok passed row member
  rw [if_neg counted] at check
  split at check
  · cases check
  next other slugged =>
    split at check
    · cases check
    next apart =>
      rw [slugged]
      rintro ⟨⟩
      exact apart rfl

/-- A row is saved, and every other one keeps its name. -/
private theorem slugsDistinct_saved {s t seen : List StoredWhitelist} {own : Id}
    {name slug : String} {excludeId : Option Id} (distinct : SlugsDistinct library s)
    (slugged : slugify library name = .ok slug) (only : ∀ i, excludeId = some i → i = own)
    (passed : guardSlugUnique library slug excludeId seen = .ok ())
    (free : slugStillFree library s (.saved own (some name) seen) = true)
    (unique : constrained t = some t)
    (rows : ∀ row ∈ t, (∃ old ∈ s, old.id = row.id ∧ old.doc.name = row.doc.name) ∨
      row.id = own ∧ row.doc.name = name) : SlugsDistinct library t := by
  obtain ⟨⟨ids, names⟩, -⟩ := Option.ite_none_right_eq_some.mp unique
  -- the row that is saved and a row that was there before
  have apart : ∀ a ∈ t, ∀ b ∈ t, a.id ≠ b.id → (∃ old ∈ s, old.id = a.id ∧
      old.doc.name = a.doc.name) → b.id = own → b.doc.name = name → SlugsApart library a b := by
    rintro a first b second other ⟨old, stored, sameId, sameName⟩ isOwn named found slugA slugB
    rw [named, slugged] at slugB
    cases slugB
    have still := List.all_eq_true.mp free old stored
    simp only [Bool.or_eq_true, decide_eq_true_eq, List.any_eq_true, Bool.and_eq_true] at still
    rcases still with ((same | same) | slugs) | ⟨row, read, readId, readName⟩
    · exact other (by rw [← sameId, same, isOwn])
    · have both : a.doc.name = b.doc.name := by rw [← sameName, same, named]
      rw [List.inj_on_of_nodup_map names first second both] at other
      exact other rfl
    · rw [sameName, slugA, slugged] at slugs
      exact slugs rfl
    · refine guardSlugUnique_ok passed read ?_ (by rw [readName, sameName, slugA])
      intro excluded
      exact other (by rw [← sameId, ← readId, only row.id excluded.symm, isOwn])
  refine ⟨ids, fun a first b second other => ?_⟩
  rcases rows a first with oldA | ⟨ownA, nameA⟩
  · rcases rows b second with oldB | ⟨ownB, nameB⟩
    · obtain ⟨x, storedX, idX, nameX⟩ := oldA
      obtain ⟨y, storedY, idY, nameY⟩ := oldB
      have before := distinct.slugs x storedX y storedY (by rw [idX, idY]; exact other)
      rwa [SlugsApart, nameX, nameY] at before
    · exact apart a first b second other oldA ownB nameB
  · rcases rows b second with oldB | ⟨ownB, nameB⟩
    · exact symm (apart b second a first (Ne.symm other) oldB ownA nameA)
    · exact absurd (ownA.trans ownB.symm) other

theorem constrained_eq_some {s t : List StoredWhitelist} (kept : constrained s = some t) :
    s = t ∧ constrained t = some t := by
  have same : s = t := (Option.ite_none_right_eq_some.mp kept).2 |> Option.some.inj
  rw [same] at kept
  exact ⟨same, kept⟩

variable {log : List WhitelistOutcome}

private theorem guarded_safe {name : String} {excludeId : Option Id}
    {next : List StoredWhitelist → WhitelistTxn}
    (cont : ∀ slug seen log s, slugify library name = .ok slug →
      guardSlugUnique library slug excludeId seen = .ok () →
      (next seen).Safe (slugContract library) log s) :
    (guarded library name excludeId next).Safe (slugContract library) log rows := by
  unfold guarded
  split
  · exact ⟨trivial, trivial⟩
  next slug slugged =>
    intro _ seen _ _ _
    dsimp only
    split
    · exact ⟨trivial, trivial⟩
    next passed => exact cont slug seen _ _ slugged passed

-- from here on the guard stands for its rule
attribute [local irreducible] guarded

private theorem createWhitelist_safe (newId : Id) (payload : WhitelistPayload) :
    (createWhitelist library newId payload).Safe (slugContract library) log rows := by
  apply guarded_safe
  intro slug seen _ _ slugged passed _ s t _ distinct _ free written
  obtain ⟨rfl, unique⟩ := constrained_eq_some written
  refine slugsDistinct_saved distinct slugged (fun i (is : none = some i) => nomatch is) passed
    free unique fun row member => ?_
  rcases List.mem_append.mp member with old | new
  · exact Or.inl ⟨row, old, rfl, rfl⟩
  · cases List.mem_singleton.mp new
    exact Or.inr ⟨rfl, rfl⟩

private theorem updateWhitelist_safe (whitelistId : Id) (payload : WhitelistPayload) :
    (updateWhitelist library whitelistId payload).Safe (slugContract library) log rows := by
  intro _ loaded _ _ _
  dsimp only
  split
  · exact ⟨trivial, trivial⟩
  next row found =>
    have own : row.id = whitelistId := by simpa using List.find?_some found
    apply guarded_safe
    intro slug seen _ _ slugged passed _ s t _ distinct _ free written
    simp only [flushWhitelist] at written
    split at written
    · cases written
      exact distinct
    · obtain ⟨-, written⟩ := Option.ite_none_right_eq_some.mp written
      obtain ⟨rfl, unique⟩ := constrained_eq_some written
      by_cases same : payload.doc.name = row.doc.name
      · -- the name is not written, whatever it is by now
        have names : ∀ after ∈ updateAt StoredWhitelist.id row.id (row.flush
            { row with doc := payload.doc, enabled := payload.enabled }) s,
            ∃ old ∈ s, old.id = after.id ∧ old.doc.name = after.doc.name := by
          intro after member
          obtain ⟨old, stored, rfl⟩ := mem_updateAt.mp member
          refine ⟨old, stored, ?_⟩
          split
          · exact ⟨rfl, (if_pos same).symm⟩
          · exact ⟨rfl, rfl⟩
        refine ⟨(Option.ite_none_right_eq_some.mp unique).1.1, fun a first b second other => ?_⟩
        obtain ⟨x, storedX, idX, nameX⟩ := names a first
        obtain ⟨y, storedY, idY, nameY⟩ := names b second
        have before := distinct.slugs x storedX y storedY (by rw [idX, idY]; exact other)
        rwa [SlugsApart, nameX, nameY] at before
      -- the name is written, and its slug still free by the guard
      · have free : slugStillFree library s (.saved whitelistId (some payload.doc.name) seen) :=
          (if_neg same : (if _ then _ else some payload.doc.name) = _) ▸ free
        refine slugsDistinct_saved distinct slugged (fun i is => (Option.some.inj is).symm) passed
          free unique fun after member => ?_
        obtain ⟨old, stored, rfl⟩ := mem_updateAt.mp member
        split
        next here => exact Or.inr ⟨here.trans own, if_neg same⟩
        · exact Or.inl ⟨old, stored, rfl, rfl⟩

private theorem deleteWhitelist_safe (whitelistId : Id) :
    (deleteWhitelist whitelistId).Safe (slugContract library) log rows := by
  intro _ loaded _ _ _
  dsimp only
  split
  · exact ⟨trivial, trivial⟩
  · intro _ s t _ distinct _ _ written
    cases written
    refine ⟨distinct.ids.sublist ((List.filter_sublist ..).map _), fun a first b second => ?_⟩
    exact distinct.slugs a (List.mem_filter.mp first).1 b (List.mem_filter.mp second).1

theorem whitelistRequest_safe (p : WhitelistTxn) (request : WhitelistRequest library p)
    (log : List WhitelistOutcome) (s : List StoredWhitelist) :
    p.Safe (slugContract library) log s := by
  cases request with
  | create newId payload => exact createWhitelist_safe newId payload
  | update whitelistId payload => exact updateWhitelist_safe whitelistId payload
  | delete whitelistId => exact deleteWhitelist_safe whitelistId

/-- The rendered documents of a table with distinct slugs are parsers of different names. -/
theorem nodup_parserNames (distinct : SlugsDistinct library rows) {content : String}
    (rendered : renderWhitelists library (loadDocs rows) = .ok content) :
    ((loadDocs rows).map fun doc => "megoopm/wl-" ++ slugOf library doc.name).Nodup := by
  obtain ⟨_, valid, _⟩ := bind_eq_ok rendered
  have valid := ok_of_forM_ok valid
  have sorted := sortedBy_perm (·.id) (rows.filter (·.enabled))
  have apart := (slugsDistinct_iff.mp distinct).2.sublist (List.filter_sublist (p := (·.enabled)))
  rw [loadDocs, List.map_map, List.Nodup, List.pairwise_map]
  refine (sorted.symm.pairwise apart symm).imp_of_mem fun {a b} first second other same => ?_
  have slugged (row : StoredWhitelist) (member : row ∈ sortedBy (·.id) (rows.filter (·.enabled))) :
      slugify library row.doc.name = .ok (slugOf library row.doc.name) := by
    obtain ⟨slug, slugged, _⟩ := bind_eq_ok (valid row.doc (List.mem_map_of_mem member))
    rw [slugOf, slugged]
    rfl
  refine other _ (slugged a first) ?_
  rw [slugged b second, (String.append_right_inj _).mp same]

/-- In every run of requests in which no other request stores the slug of one between its guard
and its commit, the slugs stay pairwise distinct, and so are the parsers that are rendered. -/
theorem slugs_distinct {w : World (List StoredWhitelist) Id WhitelistOutcome Nat}
    (ids : (rows.map (·.id)).Nodup) (slugs : rows.Pairwise (SlugsApart library))
    (run : Reaches (Guarded (World.Meets fun s outcome => slugStillFree library s outcome = true)
      (World.Step (WhitelistRequest library))) (World.idle rows) w) :
    w.store.Pairwise (SlugsApart library) ∧
    ∀ content, renderWhitelists library (loadDocs w.store) = .ok content →
      ((loadDocs w.store).map fun doc => "megoopm/wl-" ++ slugOf library doc.name).Nodup := by
  have start := slugsDistinct_iff.mpr ⟨ids, slugs⟩
  have idle := World.keeps_idle (c := slugContract library) (κ := Id) (ι := Nat) start
  have distinct := (World.run_invariant whitelistRequest_safe (P := fun _ _ => True)
    (fun _ _ _ _ _ _ _ _ => trivial) (fun _ _ _ _ _ => trivial) idle trivial run).1.1
  exact ⟨(slugsDistinct_iff.mp distinct).2, fun _ => nodup_parserNames distinct⟩

end Runs

/-! ### Two requests at once -/

def officeNamed (name : String) : WhitelistPayload where
  doc := { yard "r" with name := name }

/-- The request creates a whitelist: it reads, and commits. -/
def createNow (session : Nat) (newId : Id) (name : String) :
    List (Label (List StoredWhitelist) Id WhitelistOutcome Nat) :=
  [.start session (createWhitelist yardLibrary newId (officeNamed name)), .act session,
    .act session]

private theorem createNow_allowed {session : Nat} {newId : Id} {name : String}
    (l : Label (List StoredWhitelist) Id WhitelistOutcome Nat)
    (member : l ∈ createNow session newId name) : l.Allowed (WhitelistRequest yardLibrary) := by
  rcases List.mem_cons.mp member with rfl | member
  · exact .create newId (officeNamed name)
  · rcases List.mem_pair.mp member with rfl | rfl <;> trivial

def officeRow (i : Id) (name : String) : StoredWhitelist :=
  ⟨i, (officeNamed name).doc, true⟩

def createInTurn : List (Label (List StoredWhitelist) Id WhitelistOutcome Nat) :=
  createNow 0 1 "office" ++ createNow 1 2 "office!" ++ createNow 2 3 "lab"

/-- One after the other: the second of two names with one slug is refused. -/
theorem slugs_distinct_inTurn :
    ∃ w, (World.idle []).playWithin (slugStillFree yardLibrary) createInTurn = some w ∧
      w.store = [officeRow 1 "office", officeRow 3 "lab"] ∧
      w.store.Pairwise (SlugsApart yardLibrary) := by
  have allowed : ∀ l ∈ createInTurn, l.Allowed (WhitelistRequest yardLibrary) := by
    simp only [createInTurn, List.forall_mem_append]
    exact ⟨⟨createNow_allowed, createNow_allowed⟩, createNow_allowed⟩
  have stored : ((World.idle []).playWithin (slugStillFree yardLibrary) createInTurn).map (·.store) =
      some [officeRow 1 "office", officeRow 3 "lab"] := by decide +kernel
  obtain ⟨w, played, store⟩ := Option.map_eq_some_iff.mp stored
  refine ⟨w, played, store, ?_⟩
  exact (@slugs_distinct _ [] _ List.nodup_nil List.Pairwise.nil
    (World.reaches_playWithin allowed played)).1

/-- Both guards read the empty table before either request commits. -/
def createAtOnce : List (Label (List StoredWhitelist) Id WhitelistOutcome Nat) :=
  (createNow 0 1 "office").take 2 ++ createNow 1 2 "office!" ++ [.act 0]

/-- Two whitelists are stored that render as the same parser. -/
theorem slugs_collide :
    ∃ w : World (List StoredWhitelist) Id WhitelistOutcome Nat,
      Reaches (World.Step (WhitelistRequest yardLibrary)) (World.idle []) w ∧
      ¬w.store.Pairwise (SlugsApart yardLibrary) ∧
      (loadDocs w.store).map (fun doc => "megoopm/wl-" ++ slugOf yardLibrary doc.name) =
        ["megoopm/wl-office", "megoopm/wl-office"] := by
  have allowed : ∀ l ∈ createAtOnce, l.Allowed (WhitelistRequest yardLibrary) := by
    simp only [createAtOnce, List.forall_mem_append, List.forall_mem_singleton]
    exact ⟨⟨fun l member => createNow_allowed l (List.mem_of_mem_take member),
      createNow_allowed⟩, trivial⟩
  have stored : ((World.idle []).play createAtOnce).map (·.store) =
      some [officeRow 2 "office!", officeRow 1 "office"] := by decide +kernel
  obtain ⟨w, played, store⟩ := Option.map_eq_some_iff.mp stored
  refine ⟨w, World.reaches_play allowed played, ?_, ?_⟩
  · have slug : slugify yardLibrary "office!" = .ok "office" ∧
        slugify yardLibrary "office" = .ok "office" := ⟨rfl, rfl⟩
    rw [store]
    intro distinct
    exact (List.pairwise_cons.mp distinct).1 _ (List.mem_singleton_self _) "office" slug.1 slug.2
  · rw [store]
    decide +kernel

end MegooPM.CrowdSec
