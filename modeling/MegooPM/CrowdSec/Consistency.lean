import MegooPM.CrowdSec.Appliers

/-!
# What an apply leaves on disk

An apply that succeeds leaves the text it was asked for, and one that fails leaves
the previous text, for every answer of the engine. The previous text is put back as
it was read: a carriage return in it does not come back, and where it cannot be read
the apply leaves with an error.
-/
namespace MegooPM.CrowdSec

open Lib

/-- The file holds the new text where success is reported, otherwise what it held before. -/
def Kept (ok : Bool) (content : String) (before after : Option ByteArray) : Prop :=
  fileBytes after = if ok then content.toByteArray else fileBytes before

theorem kept_written (content : String) (before : Option ByteArray) :
    Kept true content before (some content.toByteArray) := rfl

theorem kept_untouched (content : String) (before : Option ByteArray) :
    Kept false content before before := rfl

theorem kept_restored_iff (content : String) {before : Option ByteArray} {previous : String}
    (read : readFile before = some previous) :
    Kept false content before (some previous.toByteArray) ↔ PlainText before :=
  toByteArray_eq_fileBytes_iff read

/-- Where the new text is what was read, nothing is written. -/
theorem kept_unchanged_iff {before : Option ByteArray} {previous : String}
    (read : readFile before = some previous) :
    Kept true previous before before ↔ PlainText before :=
  eq_comm.trans (toByteArray_eq_fileBytes_iff read)

/-- A file that cannot be read is no plain text. -/
theorem not_plainText {file : Option ByteArray} (illegible : readFile file = none) :
    ¬PlainText file := by
  intro plain
  obtain ⟨text, read⟩ := plain.legible
  rw [illegible] at read
  cases read

/-! ### The whitelists -/

section Whitelists

variable (library : WhitelistLibrary) (timeout : Int) (docs : List WhitelistDoc)
  (appliedDigest : Option String) (calls : Answers) (site : Site)

/-- Every write of the file succeeds. -/
def applyWhitelists : Applied :=
  applyWhitelistsToDisk library timeout docs appliedDigest (fun _ => .done) calls site

def WhitelistsKept : Prop :=
  ∃ result, (applyWhitelists library timeout docs appliedDigest calls site).result = some result ∧
    match renderWhitelists library docs with
    | .error _ => result.ok = false ∧ Kept false "" site.disk
        (applyWhitelists library timeout docs appliedDigest calls site).site.disk
    | .ok content => Kept result.ok content site.disk
        (applyWhitelists library timeout docs appliedDigest calls site).site.disk

/-- The apply reads the file, writes the new text, and the engine takes it. -/
def WhitelistsStay : Prop :=
  ∃ content previous, renderWhitelists library docs = .ok content ∧
    readFile site.disk = some previous ∧
    ¬(some (contentDigest library content) = appliedDigest ∧ previous = content) ∧ calls.comesBack

def WhitelistsRefused : Prop :=
  ∃ error, renderWhitelists library docs = .error error

omit docs appliedDigest in
/-- With every write done, the new file stays or the previous text is put back. -/
theorem loading_done (digest previous : String) (site : Site) :
    ∃ result, (loading timeout digest previous .done calls site).result = some result ∧
      result.ok = calls.comesBack ∧
      (loading timeout digest previous .done calls site).site.disk =
        if calls.comesBack then site.disk else some previous.toByteArray := by
  rcases loading_cases timeout digest previous .done calls site with
    ⟨refused, error, out⟩ | ⟨_, error, started, raised, out⟩ | ⟨back, out⟩ | ⟨_, _, down, out⟩
  · rw [out]
    simp [puttingBack, Answers.comesBack, refused]
  · rw [out]
    simp [puttingBack, Answers.comesBack, raised]
  · rw [out]
    simp [back]
  · rw [out]
    unfold fallingBack
    cases calls.restart 1 with
    | raised error started => simp [Answers.comesBack, down]
    | restarted => simp [Answers.comesBack, down]

theorem whitelistsKept_iff :
    WhitelistsKept library timeout docs appliedDigest calls site ↔
      PlainText site.disk ∨ WhitelistsRefused library docs ∨
        WhitelistsStay library docs appliedDigest calls site := by
  unfold WhitelistsKept WhitelistsRefused WhitelistsStay applyWhitelists
  cases rendered : renderWhitelists library docs with
  | error error =>
    rw [applyWhitelistsToDisk_refused rendered]
    simp [kept_untouched]
  | ok content =>
    cases read : readFile site.disk with
    | none =>
      rw [applyWhitelistsToDisk_illegible rendered read]
      simp [not_plainText read]
    | some previous =>
      by_cases unchanged : some (contentDigest library content) = appliedDigest ∧
          previous = content
      · rw [applyWhitelistsToDisk_unchanged rendered read unchanged]
        obtain ⟨same, rfl⟩ := unchanged
        simp [same, kept_unchanged_iff read]
      · obtain ⟨result, out, ok, disk⟩ := loading_done timeout calls
          (contentDigest library content) previous (site.write (some content.toByteArray))
        rw [applyWhitelistsToDisk_changed rendered read unchanged, writing_done]
        simp only [out, disk, ok, Option.some.injEq, exists_eq_left', reduceCtorEq,
          exists_false, false_or, Except.ok.injEq]
        cases calls.comesBack with
        | true =>
          exact iff_of_true (kept_written _ _) (.inr ⟨content, previous, rfl, rfl, unchanged, rfl⟩)
        | false => simp [kept_restored_iff _ read]

end Whitelists

/-! ### The community blocklist -/

section Capi

variable (enabled : Bool) (calls : Answers) (path : Option ByteArray)

def Confirms (answer : Exec) : Prop :=
  ∃ status, answer = .ok status ∧ parseCapiStatus status = true

/-- The engine has credentials, or gets them, and the central API takes them. -/
def CapiReady : Prop :=
  (∃ has, calls.exec cmdHasCredentials 0 = .ok has ∧
    (has.exitCode ≠ 0 →
      ∃ registered, calls.exec cmdRegister 0 = .ok registered ∧ registered.exitCode = 0)) ∧
  Confirms (calls.exec cmdStatus 0)

/-- The apply reads the file, writes the new text, and the engine takes it. -/
def CapiStays : Prop :=
  (∃ previous, readFile path = some previous ∧ renderConfigLocal enabled ≠ previous) ∧
    (enabled = true → CapiReady calls) ∧ calls.restart 0 = .restarted ∧ calls.healthy 0 = true ∧
    (enabled = true → Confirms (calls.exec cmdStatus 1))

def CapiKept : Prop :=
  ∃ result, (runCapiApply enabled calls path).1 = some result ∧
    Kept result.ok (renderConfigLocal enabled) path (runCapiApply enabled calls path).2

theorem ensureCredentials_ok_iff (done : Unit) :
    ensureCredentials calls = .ok done ↔ ∃ has, calls.exec cmdHasCredentials 0 = .ok has ∧
      (has.exitCode ≠ 0 →
        ∃ registered, calls.exec cmdRegister 0 = .ok registered ∧ registered.exitCode = 0) := by
  simp only [ensureCredentials, notRestarted, bind_eq_ok_iff, mapError_eq_ok_iff]
  refine exists_congr fun has => and_congr_right fun _ => ?_
  by_cases present : has.exitCode = 0
  · simp [present]
  · rw [if_neg present, bind_eq_ok_iff, forall_prop_of_true present]
    simp only [mapError_eq_ok_iff]
    refine exists_congr fun registered => and_congr_right fun _ => ?_
    by_cases done : registered.exitCode = 0
    · simp [done]
    · simp [done]

theorem capiPreflight_ok_iff (done : Unit) : capiPreflight calls = .ok done ↔ CapiReady calls := by
  simp only [capiPreflight, CapiReady, Confirms, notRestarted, bind_eq_ok_iff, mapError_eq_ok_iff,
    ensureCredentials_ok_iff, exists_and_left, exists_const]
  refine and_congr_right fun _ => exists_congr fun status => and_congr_right fun _ => ?_
  cases parseCapiStatus status with
  | true => simp
  | false => simp

theorem capiFault_none_iff : capiFault enabled calls = none ↔
    calls.healthy 0 = true ∧ (enabled = true → Confirms (calls.exec cmdStatus 1)) := by
  unfold capiFault Confirms
  cases healthy : calls.healthy 0 with
  | false => simp
  | true =>
    cases enabled with
    | false => simp
    | true =>
      cases asked : calls.exec cmdStatus 1 with
      | error error => simp
      | ok status => simp

/-- The file cannot be read, it is as wanted already, the new one stays, or the previous text is
put back. -/
theorem runCapiApply_cases :
    (readFile path = none ∧ runCapiApply enabled calls path = (none, path)) ∨
    (readFile path = some (renderConfigLocal enabled) ∧
      runCapiApply enabled calls path = (some ⟨true, none, false, enabled⟩, path)) ∨
    (CapiStays enabled calls path ∧ runCapiApply enabled calls path =
      (some ⟨true, none, true, enabled⟩, some (renderConfigLocal enabled).toByteArray)) ∨
    (¬CapiStays enabled calls path ∧ ∃ previous, readFile path = some previous ∧
      renderConfigLocal enabled ≠ previous ∧ ∃ result, result.ok = false ∧
        runCapiApply enabled calls path = (some result, some previous.toByteArray)) := by
  cases read : readFile path with
  | none => exact .inl ⟨rfl, by simp only [runCapiApply, read]⟩
  | some previous =>
    right
    by_cases same : renderConfigLocal enabled = previous
    · exact .inl ⟨by rw [same], by simp only [runCapiApply, read, same, if_true]⟩
    right
    have ready : (∃ done, (if enabled then capiPreflight calls else .ok ()) = .ok done) ↔
        (enabled = true → CapiReady calls) := by
      cases enabled with
      | false => simp
      | true => simp [capiPreflight_ok_iff]
    have changed : ∃ previous, readFile path = some previous ∧
        renderConfigLocal enabled ≠ previous := ⟨previous, read, same⟩
    simp only [CapiStays, ← ready, ← capiFault_none_iff, runCapiApply, read, if_neg same]
    cases (if enabled then capiPreflight calls else .ok ()) with
    | error error => exact .inr ⟨by simp, previous, rfl, same, _, rfl, rfl⟩
    | ok done =>
      cases first : calls.restart 0 with
      | raised error started => exact .inr ⟨by simp, previous, rfl, same, _, rfl, rfl⟩
      | restarted =>
        -- whatever the second restart says, the previous text is back by then
        cases fault : capiFault enabled calls with
        | none => exact .inl ⟨⟨⟨previous, rfl, same⟩, ⟨done, rfl⟩, rfl, rfl⟩, rfl⟩
        | some reason =>
          right
          cases calls.restart 1 with
          | raised error started => exact ⟨by simp, previous, rfl, same, _, rfl, rfl⟩
          | restarted => exact ⟨by simp, previous, rfl, same, _, rfl, rfl⟩

theorem capiKept_iff : CapiKept enabled calls path ↔
    PlainText path ∨ CapiStays enabled calls path := by
  unfold CapiKept
  rcases runCapiApply_cases enabled calls path with
    ⟨illegible, out⟩ | ⟨read, out⟩ | ⟨stays, out⟩ |
      ⟨back, previous, read, changed, result, failed, out⟩
  · have idle : ¬CapiStays enabled calls path := by
      rintro ⟨⟨previous, read, _⟩, _⟩
      rw [illegible] at read
      cases read
    rw [out, or_iff_left idle]
    simp [not_plainText illegible]
  · have idle : ¬CapiStays enabled calls path := by
      rintro ⟨⟨previous, other, changed⟩, _⟩
      exact changed (Option.some.inj (read.symm.trans other))
    rw [out, or_iff_left idle]
    simp [kept_unchanged_iff read]
  · rw [out]
    exact iff_of_true ⟨_, rfl, kept_written _ path⟩ (.inr stays)
  · rw [out, or_iff_left back]
    simp [failed, kept_restored_iff _ read]

end Capi

/-! ### The request-body limit -/

section Waf

variable (content : String) (capiEnabled : Bool) (calls : Answers) (files : WafFiles)

/-- The file is read, and holds another text than the desired one. -/
def WafChanged : Prop :=
  ∃ previous, readFile files.path = some previous ∧ content ≠ previous

/-- The engine takes the new file and does not come back on it. -/
def WafDown : Prop :=
  WafChanged content files ∧ passes calls.validate = true ∧ calls.restart 0 = .restarted ∧
    calls.healthy 0 = false

/-- The blocklist is on, and it is CrowdSec's firewall that keeps the engine from coming back. -/
def Blocked : Prop :=
  capiEnabled = true ∧ calls.edgeBlocked = some true

/-- The engine comes back without the blocklist. -/
def Rescued : Prop :=
  Legible files.configLocal ∧ Blocked capiEnabled calls ∧ calls.restart 1 = .restarted ∧
    calls.healthy 1 = true

/-- The apply writes the new text and the engine takes it, if need be without the blocklist. -/
def WafStays : Prop :=
  (WafChanged content files ∧ calls.comesBack = true) ∨
    (WafDown content calls files ∧ Rescued capiEnabled calls files)

/-- Both files hold what the report promises. -/
def WafKept : Prop :=
  ∃ result, (runWafApply content capiEnabled calls files).1 = some result ∧
    Kept result.ok content files.path (runWafApply content capiEnabled calls files).2.path ∧
    Kept result.blocklistSwitchedOff (renderConfigLocal false) files.configLocal
      (runWafApply content capiEnabled calls files).2.configLocal

omit content capiEnabled calls files in
private theorem noCarriageReturn_renderConfigLocal :
    NoCarriageReturn (renderConfigLocal false) := by
  unfold renderConfigLocal configLocalBase
  simp only [noCarriageReturn_append, -String.reduceAppend, Bool.false_eq_true, if_false]
  and_intros
  all_goals exact noCarriageReturn_ofList (by decide)

/-- A report of a failure: the file is put back, and the other one where it was touched. -/
structure FellBack (previous : String) (touched : Prop) (out : WafApplied) : Prop where
  failed : ∃ result, out.1 = some result ∧ result.ok = false ∧ result.blocklistSwitchedOff = false
  path : out.2.path = some previous.toByteArray
  other : (¬touched ∧ out.2.configLocal = files.configLocal) ∨
    (touched ∧ ∃ previousLocal, readFile files.configLocal = some previousLocal ∧
      out.2.configLocal = some previousLocal.toByteArray)

section Rollback

variable {files} (previous : String) {previousLocal : String}
  (read : readFile files.configLocal = some previousLocal) (path : Option ByteArray)
  (cause : Option String) (answer : Restart) {touched : Prop}

include read

omit content capiEnabled calls in
/-- A rollback that finds the other file as it was leaves it alone. -/
theorem rollBack_untouched (not : ¬touched) :
    FellBack files previous touched
      (rollBack previous previousLocal cause answer { files with path := path }) := by
  simp only [rollBack, read, ne_eq, not_true_eq_false, if_false]
  cases answer with
  | restarted => exact ⟨⟨_, rfl, rfl, rfl⟩, rfl, .inl ⟨not, rfl⟩⟩
  | raised error started => exact ⟨⟨_, rfl, rfl, rfl⟩, rfl, .inl ⟨not, rfl⟩⟩

omit content capiEnabled calls in
/-- After a switch-off, the other file is put back as it was read. -/
theorem rollBack_switched {switched : String} (clean : NoCarriageReturn switched) (did : touched) :
    FellBack files previous touched
      (rollBack previous previousLocal cause answer ⟨path, some switched.toByteArray⟩) := by
  have other : (if switched ≠ previousLocal then some previousLocal.toByteArray
      else some switched.toByteArray) = some previousLocal.toByteArray := by
    split
    next => rfl
    next equal => rw [not_not.mp equal]
  simp only [rollBack, readFile_toByteArray, readText_of_clean clean, other]
  cases answer with
  | restarted => exact ⟨⟨_, rfl, rfl, rfl⟩, rfl, .inr ⟨did, previousLocal, read, rfl⟩⟩
  | raised error started => exact ⟨⟨_, rfl, rfl, rfl⟩, rfl, .inr ⟨did, previousLocal, read, rfl⟩⟩

end Rollback

/-- The other file cannot be read, the rescue brings the engine back without the blocklist, or it
falls back. -/
theorem wafRescue_cases (previous : String) (written : Option ByteArray) :
    (¬Legible files.configLocal ∧
      (wafRescue previous capiEnabled calls { files with path := written }).1 = none) ∨
    (Rescued capiEnabled calls files ∧
      wafRescue previous capiEnabled calls { files with path := written } =
        (some ⟨true, none, true, true⟩, ⟨written, some (renderConfigLocal false).toByteArray⟩)) ∨
    (Legible files.configLocal ∧ ¬Rescued capiEnabled calls files ∧
      FellBack files previous (Blocked capiEnabled calls)
        (wafRescue previous capiEnabled calls { files with path := written })) := by
  have clean := noCarriageReturn_renderConfigLocal
  unfold wafRescue Rescued
  cases read : readFile files.configLocal with
  | none => exact .inl ⟨by simp [Legible, read], rfl⟩
  | some previousLocal =>
    right
    have legible : Legible files.configLocal := ⟨previousLocal, read⟩
    by_cases blocked : capiEnabled = true ∧ calls.edgeBlocked = some true
    · simp only [if_pos blocked]
      cases second : calls.restart 1 with
      | raised error started =>
        exact .inr ⟨legible, by simp,
          rollBack_switched previous read written (some error) (calls.restart 2) clean blocked⟩
      | restarted =>
        cases healthy : calls.healthy 1 with
        | true => exact .inl ⟨⟨legible, blocked, rfl, rfl⟩, rfl⟩
        | false =>
          rw [if_neg Bool.false_ne_true]
          exact .inr ⟨legible, by simp,
            rollBack_switched previous read written none (calls.restart 2) clean blocked⟩
    · simp only [if_neg blocked]
      exact .inr ⟨legible, fun all => blocked all.2.1,
        rollBack_untouched previous read written none (calls.restart 1) blocked⟩

/-- A file cannot be read, the file is as wanted already, the new one stays (with the blocklist or
without it), or the apply falls back. -/
theorem runWafApply_cases :
    ((¬Legible files.path ∨ (WafDown content calls files ∧ ¬Legible files.configLocal)) ∧
      (runWafApply content capiEnabled calls files).1 = none) ∨
    (readFile files.path = some content ∧
      runWafApply content capiEnabled calls files = (some ⟨true, none, false, false⟩, files)) ∨
    (WafChanged content files ∧ calls.comesBack = true ∧
      runWafApply content capiEnabled calls files =
        (some ⟨true, none, true, false⟩, { files with path := some content.toByteArray })) ∨
    (WafDown content calls files ∧ Rescued capiEnabled calls files ∧
      runWafApply content capiEnabled calls files = (some ⟨true, none, true, true⟩,
        ⟨some content.toByteArray, some (renderConfigLocal false).toByteArray⟩)) ∨
    (¬WafStays content capiEnabled calls files ∧
      (WafDown content calls files → Legible files.configLocal) ∧
      ∃ previous, readFile files.path = some previous ∧
        FellBack files previous (WafDown content calls files ∧ Blocked capiEnabled calls)
          (runWafApply content capiEnabled calls files)) := by
  -- the tests in the order in which the apply makes them
  cases read : readFile files.path with
  | none => exact .inl ⟨.inl (by simp [Legible, read]), by simp only [runWafApply, read]⟩
  | some previous =>
    by_cases same : content = previous
    · exact .inr (.inl ⟨by rw [same], by simp only [runWafApply, read, same, if_true]⟩)
    have changed : WafChanged content files := ⟨previous, read, same⟩
    unfold WafStays WafDown Answers.comesBack
    simp only [runWafApply, read, if_neg same]
    cases tested : calls.validate with
    | error error =>
      exact .inr (.inr (.inr (.inr ⟨by simp [passes], by simp [passes], previous, rfl,
        ⟨_, rfl, rfl, rfl⟩, rfl, .inl ⟨by simp [passes], rfl⟩⟩)))
    | ok answer =>
      -- the file is written, and the engine asked about it
      cases objection : configTestError answer with
      | some problem =>
        have refused : passes (.ok answer) = false := by simp [passes, objection]
        simp only [objection]
        exact .inr (.inr (.inr (.inr ⟨by simp [refused], by simp [refused], previous, rfl,
          ⟨_, rfl, rfl, rfl⟩, rfl, .inl ⟨by simp [refused], rfl⟩⟩)))
      | none =>
        have passed : passes (.ok answer) = true := by simp [passes, objection]
        simp only [objection]
        cases first : calls.restart 0 with
        | raised error started =>
          exact .inr (.inr (.inr (.inr ⟨by simp, by simp, previous, rfl,
            ⟨_, rfl, rfl, rfl⟩, rfl, .inl ⟨by simp, rfl⟩⟩)))
        | restarted =>
          cases healthy : calls.healthy 0 with
          | true => exact .inr (.inr (.inl ⟨changed, by simp [passed], rfl⟩))
          | false =>
            -- the engine is down on the new file
            rcases wafRescue_cases capiEnabled calls files previous (some content.toByteArray) with
              ⟨illegible, raised⟩ | ⟨rescued, out⟩ | ⟨legible, stuck, fell⟩
            · exact .inl ⟨.inr ⟨⟨changed, passed, rfl, rfl⟩, illegible⟩, raised⟩
            · exact .inr (.inr (.inr (.inl ⟨⟨changed, passed, rfl, rfl⟩, rescued, out⟩)))
            · have other := fell.other
              refine .inr (.inr (.inr (.inr ⟨?_, fun _ => legible, previous, rfl, fell.failed,
                fell.path, ?_⟩)))
              · rintro (⟨_, back⟩ | ⟨_, rescued⟩)
                · simp at back
                · exact stuck rescued
              · simpa [changed, passed] using other

theorem wafKept_iff : WafKept content capiEnabled calls files ↔
    WafStays content capiEnabled calls files ∨
      (PlainText files.path ∧ (WafDown content calls files → Legible files.configLocal) ∧
        (WafDown content calls files ∧ Blocked capiEnabled calls →
          PlainText files.configLocal)) := by
  unfold WafKept
  rcases runWafApply_cases content capiEnabled calls files with
    ⟨illegible, raised⟩ | ⟨read, out⟩ | ⟨changed, back, out⟩ | ⟨down, rescued, out⟩ |
      ⟨falls, readable, previous, read, fell⟩
  -- a file that cannot be decoded: the call raises, and reports nothing
  · have fails : ¬WafStays content capiEnabled calls files := by
      rintro (⟨⟨previous, read, _⟩, back⟩ | ⟨⟨⟨previous, read, _⟩, _⟩, rescued⟩)
      · rcases illegible with closed | ⟨⟨_, _, _, down⟩, _⟩
        · exact closed ⟨previous, read⟩
        · simp [Answers.comesBack, down] at back
      · rcases illegible with closed | ⟨_, closed⟩
        · exact closed ⟨previous, read⟩
        · exact closed rescued.1
    rw [raised, or_iff_right fails]
    refine iff_of_false (by simp) fun ⟨plain, readable, _⟩ => ?_
    rcases illegible with closed | ⟨down, closed⟩
    · exact closed plain.legible
    · exact closed (readable down)
  -- nothing to do: the file stands as it was, with its line ends
  · have still : ¬WafChanged content files := by
      rintro ⟨previous, other, changed⟩
      exact changed (Option.some.inj (read.symm.trans other))
    have idle : ¬WafDown content calls files := fun down => still down.1
    have fails : ¬WafStays content capiEnabled calls files := by
      rintro (⟨changed, _⟩ | ⟨down, _⟩)
      · exact still changed
      · exact idle down
    rw [out, or_iff_right fails]
    simp [idle, kept_untouched, kept_unchanged_iff read]
  · rw [out]
    exact iff_of_true ⟨_, rfl, kept_written _ _, kept_untouched _ _⟩ (.inl (.inl ⟨changed, back⟩))
  · rw [out]
    exact iff_of_true ⟨_, rfl, kept_written _ _, kept_written _ _⟩ (.inl (.inr ⟨down, rescued⟩))
  -- the files are put back as they were read
  · obtain ⟨result, returned, failed, kept⟩ := fell.failed
    rw [or_iff_right falls, returned, fell.path, and_iff_right readable]
    simp only [Option.some.injEq, exists_eq_left', failed, kept, kept_restored_iff _ read]
    rcases fell.other with ⟨idle, same⟩ | ⟨touched, previousLocal, readLocal, restored⟩
    · rw [same]
      simp [idle, kept_untouched]
    · rw [restored, kept_restored_iff _ readLocal]
      simp [touched]

end Waf

/-! ### The three appliers -/

/-- Each applier leaves the new text and success, or the previous text and a failure, exactly
where the file is UTF-8 without a carriage return, or where it is not put back. -/
theorem appliers_keep_files (library : WhitelistLibrary) (timeout : Int)
    (docs : List WhitelistDoc) (appliedDigest : Option String) (site : Site)
    (enabled capiEnabled : Bool) (path : Option ByteArray) (content : String) (files : WafFiles)
    (calls : Answers) :
    (WhitelistsKept library timeout docs appliedDigest calls site ↔
      PlainText site.disk ∨ WhitelistsRefused library docs ∨
        WhitelistsStay library docs appliedDigest calls site) ∧
    (CapiKept enabled calls path ↔ PlainText path ∨ CapiStays enabled calls path) ∧
    (WafKept content capiEnabled calls files ↔
      WafStays content capiEnabled calls files ∨
        (PlainText files.path ∧ (WafDown content calls files → Legible files.configLocal) ∧
          (WafDown content calls files ∧ Blocked capiEnabled calls →
            PlainText files.configLocal))) :=
  ⟨whitelistsKept_iff .., capiKept_iff .., wafKept_iff ..⟩

/-- The container cannot be reached. -/
def noDocker : Answers where
  exec _ _ := .error "no docker"
  validate := .error "no docker"
  restart _ := .raised "no docker" false
  healthy _ := false
  edgeBlocked := none

/-- The engine takes the file and does not come back. -/
def goesDown : Answers where
  exec _ _ := .ok ⟨0, ""⟩
  validate := .ok ⟨0, ""⟩
  restart _ := .restarted
  healthy _ := false
  edgeBlocked := none

/-- A file with the other kind of line ends does not come back as it was, and where the other file
is not UTF-8 the call leaves with an error and the new text stays. -/
theorem line_end_lost :
    runWafApply "b\n" false noDocker ⟨some "a\r\n".toByteArray, none⟩ =
      (some ⟨false, some "no docker", false, false⟩, ⟨some "a\n".toByteArray, none⟩) ∧
    ¬WafKept "b\n" false noDocker ⟨some "a\r\n".toByteArray, none⟩ ∧
    runWafApply "b\n" false goesDown ⟨some "a\n".toByteArray, some ⟨#[0xff]⟩⟩ =
      (none, ⟨some "b\n".toByteArray, some ⟨#[0xff]⟩⟩) := by
  have out : runWafApply "b\n" false noDocker ⟨some "a\r\n".toByteArray, none⟩ =
      (some ⟨false, some "no docker", false, false⟩, ⟨some "a\n".toByteArray, none⟩) := by
    decide +kernel
  refine ⟨out, ?_, by decide +kernel⟩
  rintro ⟨result, returned, file, _⟩
  rw [out] at returned file
  cases returned
  unfold Kept at file
  revert file
  decide +kernel

end MegooPM.CrowdSec
