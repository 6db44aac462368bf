import MegooPM.Nginx.Engine

/-!
# Syncing a directory

What `_sync_to` leaves in a directory, name by name, and that its instructions,
executed one at a time, add up to it. All of it rests on the managed prefix not
matching the engine's own dot-files.
-/
namespace MegooPM

open Lib

theorem visiblePrefix_default : VisiblePrefix defaultManagedPrefix := by
  intro name managed
  simp only [startsWith, List.isPrefixOf_iff_prefix] at managed
  obtain ⟨rest, split⟩ := managed
  simp only [startsWith, ← split]
  rfl

theorem startsWith_tempName (name : String) : startsWith (tempName name) "." = true := by
  simp [startsWith, tempName, String.toList_append]

theorem tempName_ne {name other : String} (plain : startsWith name "." = false) :
    tempName other ≠ name := by
  intro same
  have dotted := startsWith_tempName other
  rw [same, plain] at dotted
  cases dotted

/-! ### Managed files -/

theorem get_managedFiles (pre : String) (dir : Dir) (name : String) :
    (managedFiles pre dir)[name]? = if startsWith name pre then dir[name]? else none := by
  simp only [managedFiles, Std.ExtTreeMap.getElem?_filter']
  cases dir[name]? <;> simp [Option.filter]

theorem get_readManaged (pre : String) (dir : Dir) (name : String) :
    (readManaged pre dir)[name]? =
      if startsWith name pre then (dir[name]?).map readText else none := by
  simp only [readManaged, Std.ExtTreeMap.getElem?_map, get_managedFiles]
  split <;> rfl

/-- Directories with the same managed bytes read the same. -/
theorem readManaged_congr {pre : String} {left right : Dir}
    (same : managedFiles pre left = managedFiles pre right) :
    readManaged pre left = readManaged pre right := by
  simp only [readManaged, same]

theorem readManaged_eq_map (pre : String) (dir : Dir) :
    readManaged pre dir = (managedFiles pre dir).map fun _ content => readText content := rfl

/-- Reading a text already read changes nothing. -/
theorem map_readText_readManaged (pre : String) (dir : Dir) :
    (readManaged pre dir).map (fun _ content => readText content) = readManaged pre dir := by
  apply Std.ExtTreeMap.ext_getElem?
  intro name
  simp only [Std.ExtTreeMap.getElem?_map, get_readManaged]
  split
  · cases dir[name]? <;> simp
  · rfl

theorem named_readManaged (pre : String) (dir : Dir) : Named pre (readManaged pre dir) := by
  intro name content found
  rw [get_readManaged] at found
  split at found
  next managed => exact managed
  next => cases found

theorem named_readTargets (pre : String) (disk : Disk) (d : DirName) :
    Named pre (readTargets pre disk d) :=
  named_readManaged pre (disk d)

/-! ### Writing a list of files -/

theorem get_atomicWrite (dir : Dir) (name content other : String) :
    (atomicWrite dir name content)[other]? =
      if name = other then some content
      else if tempName name = other then none else dir[other]? := by
  simp only [atomicWrite, Dict.get_insert, Dict.get_erase]

private def writeAll (files : List (String × String)) (dir : Dir) : Dir :=
  files.foldl (fun dir file => atomicWrite dir file.1 file.2) dir

private theorem get_writeAll_other (files : List (String × String)) (dir : Dir) (name : String)
    (fresh : ∀ file ∈ files, file.1 ≠ name ∧ tempName file.1 ≠ name) :
    (writeAll files dir)[name]? = dir[name]? := by
  induction files generalizing dir with
  | nil => rfl
  | cons file rest ih =>
    have head := fresh file (List.mem_cons_self ..)
    have tail := ih (atomicWrite dir file.1 file.2) fun f member =>
      fresh f (List.mem_cons_of_mem _ member)
    calc (writeAll (file :: rest) dir)[name]?
        = (atomicWrite dir file.1 file.2)[name]? := tail
      _ = dir[name]? := by rw [get_atomicWrite, if_neg head.1, if_neg head.2]

private theorem get_writeAll_mem (files : List (String × String)) (dir : Dir)
    (name content : String) (distinct : files.Pairwise fun a b => a.1 ≠ b.1)
    (plain : startsWith name "." = false) (member : (name, content) ∈ files) :
    (writeAll files dir)[name]? = some content := by
  induction files generalizing dir with
  | nil => cases member
  | cons file rest ih =>
    rw [List.pairwise_cons] at distinct
    rcases List.mem_cons.mp member with rfl | later
    · have untouched := get_writeAll_other rest (atomicWrite dir name content) name
        fun f inside => ⟨fun same => distinct.1 f inside same.symm, tempName_ne plain⟩
      calc (writeAll ((name, content) :: rest) dir)[name]?
          = (atomicWrite dir name content)[name]? := untouched
        _ = some content := by rw [get_atomicWrite, if_pos rfl]
    · exact ih _ distinct.2 later

/-- Writing over a temp name leaves no such file, unless it is itself written. -/
private theorem get_writeAll_temp (files : List (String × String)) (dir : Dir)
    (name content : String) (member : (name, content) ∈ files)
    (plain : ∀ file ∈ files, startsWith file.1 "." = false) :
    (writeAll files dir)[tempName name]? = none := by
  have other : ∀ file ∈ files, file.1 ≠ tempName name := by
    intro file inside same
    exact tempName_ne (plain file inside) same.symm
  induction files generalizing dir with
  | nil => cases member
  | cons file rest ih =>
    have plainRest : ∀ f ∈ rest, startsWith f.1 "." = false := fun f inside =>
      plain f (List.mem_cons_of_mem _ inside)
    have otherRest : ∀ f ∈ rest, f.1 ≠ tempName name := fun f inside =>
      other f (List.mem_cons_of_mem _ inside)
    by_cases again : (name, content) ∈ rest
    · exact ih _ again plainRest otherRest
    · have first : file = (name, content) := by
        rcases List.mem_cons.mp member with same | later
        · exact same.symm
        · exact absurd later again
      subst first
      -- from here on the temp name can only stay absent
      have absent : (atomicWrite dir name content)[tempName name]? = none := by
        rw [get_atomicWrite, if_neg (other _ (List.mem_cons_self ..)), if_pos rfl]
      have stays : ∀ (more : List (String × String)) (d : Dir),
          (∀ f ∈ more, f.1 ≠ tempName name) → d[tempName name]? = none →
          (writeAll more d)[tempName name]? = none := by
        intro more
        induction more with
        | nil => exact fun _ _ gone => gone
        | cons f more ihMore =>
          intro d apart gone
          apply ihMore
          · exact fun g inside => apart g (List.mem_cons_of_mem _ inside)
          · rw [get_atomicWrite, if_neg (apart f (List.mem_cons_self ..)), gone]
            split <;> rfl
      exact stays rest _ otherRest absent

private theorem toList_distinct (files : Files) :
    files.toList.Pairwise fun a b => a.1 ≠ b.1 := by
  refine files.distinct_keys_toList.imp ?_
  intro a b apart same
  exact apart (Std.compare_eq_iff_eq.mpr same)

/-! ### `_sync_to` -/

private theorem get_syncTo (pre : String) (desired : Files) (dir : Dir) (name : String) :
    (syncTo pre desired dir)[name]? =
      if isStale pre desired name then none else (writeAll desired.toList dir)[name]? := by
  simp only [syncTo, Std.ExtTreeMap.getElem?_filter', writeAll]
  cases (List.foldl (fun dir file => atomicWrite dir file.1 file.2) dir desired.toList)[name]? <;>
    cases isStale pre desired name <;> simp [Option.filter]

/-- The managed files of a synced directory are the desired ones. -/
theorem managedFiles_syncTo {pre : String} (visible : VisiblePrefix pre) {desired : Files}
    (named : Named pre desired) (dir : Dir) :
    managedFiles pre (syncTo pre desired dir) = desired := by
  apply Std.ExtTreeMap.ext_getElem?
  intro name
  rw [get_managedFiles, get_syncTo]
  cases wanted : desired[name]? with
  | some content =>
    have managed := named name content wanted
    have member : (name, content) ∈ desired.toList :=
      Std.ExtTreeMap.mem_toList_iff_getElem?_eq_some.mpr wanted
    have kept : isStale pre desired name = false := by
      simp [isStale, Std.ExtTreeMap.contains_eq_isSome_getElem?, wanted]
    rw [if_pos managed, kept]
    exact get_writeAll_mem _ _ _ _ (toList_distinct desired) (visible name managed) member
  | none =>
    by_cases managed : startsWith name pre = true
    · have stale : isStale pre desired name = true := by
        simp [isStale, managed, Std.ExtTreeMap.contains_eq_isSome_getElem?, wanted]
      rw [if_pos managed, if_pos stale]
    · rw [if_neg managed]

/-- Other files stay, the temp names of managed files apart. -/
theorem get_syncTo_other {pre : String} {desired : Files} (named : Named pre desired) (dir : Dir)
    {name : String} (unmanaged : startsWith name pre = false)
    (notTemp : ∀ file, startsWith file pre = true → tempName file ≠ name) :
    (syncTo pre desired dir)[name]? = dir[name]? := by
  have kept : isStale pre desired name = false := by simp [isStale, unmanaged]
  rw [get_syncTo, kept]
  apply get_writeAll_other
  intro file member
  have managed := named file.1 file.2 (Std.ExtTreeMap.mem_toList_iff_getElem?_eq_some.mp member)
  refine ⟨fun same => ?_, notTemp file.1 managed⟩
  rw [same, unmanaged] at managed
  cases managed

/-- A file under the temp name of a desired file is gone. -/
theorem get_syncTo_temp {pre : String} (visible : VisiblePrefix pre) {desired : Files}
    (named : Named pre desired) (dir : Dir) {name content : String}
    (wanted : desired[name]? = some content) :
    (syncTo pre desired dir)[tempName name]? = none := by
  have member : (name, content) ∈ desired.toList :=
    Std.ExtTreeMap.mem_toList_iff_getElem?_eq_some.mpr wanted
  have gone := get_writeAll_temp desired.toList dir name content member fun file inside =>
    visible file.1 (named file.1 file.2 (Std.ExtTreeMap.mem_toList_iff_getElem?_eq_some.mp inside))
  rw [get_syncTo, gone]
  split <;> rfl

/-! ### Several directories -/

theorem updateDir_self (disk : Disk) (d : DirName) (f : Dir → Dir) :
    updateDir disk d f d = f (disk d) := if_pos rfl

theorem updateDir_other (disk : Disk) {d e : DirName} (f : Dir → Dir) (apart : e ≠ d) :
    updateDir disk d f e = disk e := if_neg apart

theorem syncTargets_apply (pre : String) (dirs : List DirName) (desired : DirName → Files)
    (disk : Disk) (distinct : dirs.Nodup) (d : DirName) :
    syncTargets pre dirs desired disk d =
      if d ∈ dirs then syncTo pre (desired d) (disk d) else disk d := by
  induction dirs generalizing disk with
  | nil => rfl
  | cons e rest ih =>
    rw [List.nodup_cons] at distinct
    have step : syncTargets pre (e :: rest) desired disk =
      syncTargets pre rest desired (updateDir disk e (syncTo pre (desired e))) := rfl
    rw [step, ih _ distinct.2]
    by_cases here : d = e
    · subst here
      rw [if_neg distinct.1, updateDir_self, if_pos (List.mem_cons_self ..)]
    · rw [updateDir_other _ _ here]
      simp only [List.mem_cons, here, false_or]

theorem dirs_nodup (o : ApplyOptions) : o.dirs.Nodup := by
  unfold ApplyOptions.dirs
  cases o.streamDir <;> cases o.defaultDir <;> decide

/-! ### One instruction at a time -/

/-- The whole effect of an instruction. -/
def Instr.effect (pre : String) (disk : Disk) : Instr → Disk
  | .write d name content => updateDir disk d fun dir => atomicWrite dir name content
  | .sweep d desired => updateDir disk d fun dir => dir.filter fun name _ => !isStale pre desired name
  | .unlink d name => updateDir disk d fun dir => dir.erase name

/-- The disk once everything left to do is done. -/
def finishAll (pre : String) (todo : List Instr) (disk : Disk) : Disk :=
  todo.foldl (Instr.effect pre) disk

@[simp] theorem finishAll_nil (pre : String) (disk : Disk) : finishAll pre [] disk = disk := rfl

theorem finishAll_append (pre : String) (left right : List Instr) (disk : Disk) :
    finishAll pre (left ++ right) disk = finishAll pre right (finishAll pre left disk) :=
  List.foldl_append ..

private theorem updateDir_updateDir (disk : Disk) (d : DirName) (f g : Dir → Dir) :
    updateDir (updateDir disk d f) d g = updateDir disk d (g ∘ f) := by
  funext e
  by_cases here : e = d
  · subst here
    simp only [updateDir_self, Function.comp]
  · simp only [updateDir_other _ _ here]

private theorem updateDir_id (disk : Disk) (d : DirName) : updateDir disk d (fun dir => dir) = disk := by
  funext e
  unfold updateDir
  split <;> rfl

private theorem finish_writes (pre : String) (d : DirName) (files : List (String × String))
    (disk : Disk) :
    finishAll pre (files.map fun file => .write d file.1 file.2) disk =
      updateDir disk d (writeAll files) := by
  induction files generalizing disk with
  | nil => exact (updateDir_id disk d).symm
  | cons file rest ih =>
    have step := ih (updateDir disk d fun dir => atomicWrite dir file.1 file.2)
    simp only [List.map_cons, finishAll, List.foldl_cons] at step ⊢
    rw [Instr.effect, step, updateDir_updateDir]
    rfl

/-- The instructions of a sync add up to `_sync_to` of every target. -/
theorem finish_syncProgram (pre : String) (dirs : List DirName) (desired : DirName → Files)
    (disk : Disk) :
    finishAll pre (syncProgram dirs desired) disk = syncTargets pre dirs desired disk := by
  induction dirs generalizing disk with
  | nil => rfl
  | cons d rest ih =>
    have first : syncProgram (d :: rest) desired =
      ((desired d).toList.map (fun file => Instr.write d file.1 file.2) ++ [.sweep d (desired d)]) ++
        syncProgram rest desired := rfl
    rw [first, finishAll_append, finishAll_append, finish_writes, ih]
    simp only [finishAll, List.foldl_cons, List.foldl_nil, Instr.effect, updateDir_updateDir]
    rfl

private theorem finish_unlinks (pre : String) (d : DirName) (names : List String) (disk : Disk) :
    finishAll pre (names.map fun name => .unlink d name) disk =
      updateDir disk d fun dir => dir.filter fun name _ => !decide (name ∈ names) := by
  induction names generalizing disk with
  | nil =>
    funext e
    simp only [List.map_nil, finishAll_nil, updateDir]
    split
    · apply Std.ExtTreeMap.ext_getElem?
      intro name
      rw [Std.ExtTreeMap.getElem?_filter']
      cases (disk e)[name]? <;> simp [Option.filter]
    · rfl
  | cons first rest ih =>
    have step := ih (updateDir disk d fun dir => dir.erase first)
    simp only [List.map_cons, finishAll, List.foldl_cons, Instr.effect] at step ⊢
    rw [step, updateDir_updateDir]
    congr 1
    funext dir
    apply Std.ExtTreeMap.ext_getElem?
    intro name
    simp only [Function.comp, Std.ExtTreeMap.getElem?_filter', Dict.get_erase, List.mem_cons]
    by_cases here : first = name
    · subst here
      cases dir[first]? <;> simp [Option.filter]
    · rw [if_neg here]
      have apart : name ≠ first := fun same => here same.symm
      cases dir[name]? <;> simp [Option.filter, apart]

/-- Unlinking the stale files one by one is the sweep. -/
private theorem finish_exec (pre : String) (disk : Disk) (i : Instr) :
    finishAll pre (i.exec pre disk).2 (i.exec pre disk).1 = i.effect pre disk := by
  cases i with
  | write d name content => rfl
  | unlink d name => rfl
  | sweep d desired =>
    simp only [Instr.exec, Instr.effect, finish_unlinks]
    funext e
    by_cases here : e = d
    · subst here
      rw [updateDir_self, updateDir_self]
      apply Std.ExtTreeMap.ext_getElem?
      intro name
      simp only [Std.ExtTreeMap.getElem?_filter', List.mem_filter, Std.ExtTreeMap.mem_keys]
      cases found : (disk e)[name]? with
      | none => rfl
      | some content =>
        have present : name ∈ disk e := by
          rw [Std.ExtTreeMap.mem_iff_isSome_getElem?, found]
          rfl
        simp [Option.filter, present]
    · rw [updateDir_other _ _ here, updateDir_other _ _ here]

/-- Executing one instruction does not change what the rest will lead to. -/
theorem finish_execFirst (pre : String) (disk : Disk) (todo : List Instr) :
    finishAll pre (Instr.execFirst pre disk todo).2 (Instr.execFirst pre disk todo).1 =
      finishAll pre todo disk := by
  cases todo with
  | nil => rfl
  | cons i rest =>
    show finishAll pre ((i.exec pre disk).2 ++ rest) (i.exec pre disk).1 = _
    rw [finishAll_append, finish_exec]
    rfl

end MegooPM
