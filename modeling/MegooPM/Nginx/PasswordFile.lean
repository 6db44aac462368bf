import MegooPM.Api.Schemas
import MegooPM.Services.Htpasswd

/-!
# The password file of an access list

`_render_htpasswd` joins names and hashes with nothing escaped. Reading the file back as
`auth_basic_user_file` does gives the stored pairs unless a name begins with `#`: to the
reader that line is a comment, and the user is gone.
-/
namespace MegooPM

open Lib

/-! ### Reading -/

/-- One line: the name up to the first colon, the hash up to the next one. -/
def passwordEntry (line : List Char) : Option (List Char × List Char) :=
  if line.head? = some '#' then none
  else
    match line.splitOn ':' with
    | name :: hash :: _ => some (name, hash)
    | _ => none

def passwordEntries (file : List Char) : List (List Char × List Char) :=
  (file.splitOn '\n').filterMap passwordEntry

/-! ### Lists the API stores -/

/-- A list as its requests leave it: the names were validated and are distinct, the hashes
were made by `hash_apr1`. -/
structure AccessList.Stored (md5 : Md5) (a : AccessList) : Prop where
  names : ∀ u ∈ a.authUsers, ∃ raw, validateUsername raw = .ok u.username
  distinct : (a.authUsers.map (·.username)).Nodup
  hashes : ∀ u ∈ a.authUsers, ∃ draws password, u.passwordHash = hashApr1 md5 draws password

/-- What the list holds of a user. -/
def AccessListAuth.pair (u : AccessListAuth) : List Char × List Char :=
  (u.username.toList, u.passwordHash.toList)

/-- The file of the list reads as exactly its pairs, each once. -/
def AccessList.ReadsBack (a : AccessList) : Prop :=
  (passwordEntries (renderHtpasswd (accessListSpec a)).toList).Perm
      (a.authUsers.map AccessListAuth.pair) ∧
    (passwordEntries (renderHtpasswd (accessListSpec a)).toList).Nodup

/-! ### The parts of a line -/

theorem validUsername {raw name : String} (accepted : validateUsername raw = .ok name) :
    name.toList ≠ [] ∧ ':' ∉ name.toList ∧ '\n' ∉ name.toList := by
  have blanks := username_of_validated accepted
  simp only [validateUsername] at accepted
  split at accepted
  · cases accepted
  next some_ =>
    split at accepted
    · cases accepted
    next plain =>
      cases accepted
      rw [not_or] at plain
      refine ⟨fun empty => some_ (String.toList_inj.mp empty), plain.1, fun member => ?_⟩
      have blank := blanks _ member
      revert blank
      decide

theorem plain_hashApr1 (md5 : Md5) (draws : List.Vector (Fin 64) 8) (password : String) :
    ':' ∉ (hashApr1 md5 draws password).toList ∧ '\n' ∉ (hashApr1 md5 draws password).toList := by
  constructor
  all_goals
    intro member
    rcases mem_hashApr1 member with dollar | digit
    · revert dollar
      decide
    · revert digit
      decide

/-! ### The whole file -/

/-- Lines without line ends, each followed by one, are read as they are. -/
theorem splitOn_lines {lines : List (List Char)} (whole : ∀ line ∈ lines, '\n' ∉ line) :
    (lines.flatMap (· ++ ['\n'])).splitOn '\n' = lines ++ [[]] := by
  have text : lines.flatMap (· ++ ['\n']) = ['\n'].intercalate (lines ++ [[]]) := by
    clear whole
    induction lines with
    | nil => rfl
    | cons line rest ih =>
      rw [List.flatMap_cons, ih, List.cons_append]
      cases rest with
      | nil => simp [List.intercalate]
      | cons next others => simp [List.intercalate, List.append_assoc]
  rw [text]
  refine List.splitOn_intercalate _ ?_ (by simp)
  intro line member
  rcases List.mem_append.mp member with old | new
  · exact whole line old
  · rw [List.mem_singleton.mp new]
    simp

/-- The line of a pair, as it is read. -/
theorem passwordEntry_line {name hash : List Char} (some_ : name ≠ []) (plain : ':' ∉ name)
    (plainHash : ':' ∉ hash) : passwordEntry (name ++ ':' :: hash) =
      if name.head? = some '#' then none else some (name, hash) := by
  have first : (name ++ ':' :: hash).head? = name.head? := by
    cases name with
    | nil => exact absurd rfl some_
    | cons c rest => rfl
  have line : name ++ ':' :: hash = [':'].intercalate [name, hash] := by
    simp [List.intercalate]
  have parts : (name ++ ':' :: hash).splitOn ':' = [name, hash] := by
    rw [line]
    exact List.splitOn_intercalate _ (by simp [plain, plainHash]) (by simp)
  rw [passwordEntry, first, parts]

/-- The pairs that the reader finds: those whose name does not begin with `#`. -/
theorem passwordEntries_renderHtpasswd {md5 : Md5} {a : AccessList} (stored : a.Stored md5) :
    passwordEntries (renderHtpasswd (accessListSpec a)).toList =
      ((sortedBy (·.username) a.authUsers).map AccessListAuth.pair).filter
        fun pair => pair.1.head? ≠ some '#' := by
  have text : (renderHtpasswd (accessListSpec a)).toList =
      ((sortedBy (·.username) a.authUsers).map fun u =>
        u.username.toList ++ ':' :: u.passwordHash.toList).flatMap (· ++ ['\n']) := by
    simp [renderHtpasswd, accessListSpec, String.toList_join, List.flatMap_map, Function.comp_def]
  have parts : ∀ u ∈ sortedBy (·.username) a.authUsers, u.username.toList ≠ [] ∧
      (':' ∉ u.username.toList ∧ '\n' ∉ u.username.toList) ∧
      ':' ∉ u.passwordHash.toList ∧ '\n' ∉ u.passwordHash.toList := by
    intro u member
    rw [mem_sortedBy] at member
    obtain ⟨raw, valid⟩ := stored.names u member
    obtain ⟨draws, password, hash⟩ := stored.hashes u member
    rw [hash]
    exact ⟨(validUsername valid).1, (validUsername valid).2, plain_hashApr1 md5 draws password⟩
  generalize sortedBy (·.username) a.authUsers = users at text parts
  have lines : ∀ line ∈ users.map fun u => u.username.toList ++ ':' :: u.passwordHash.toList,
      '\n' ∉ line := by
    intro line member
    obtain ⟨u, inside, rfl⟩ := List.mem_map.mp member
    obtain ⟨_, ⟨_, name⟩, _, hash⟩ := parts u inside
    simp [name, hash]
  rw [text, passwordEntries, splitOn_lines lines, List.filterMap_append]
  have last : [([] : List Char)].filterMap passwordEntry = [] := by decide
  rw [last, List.append_nil, List.filterMap_map, List.filter_map, ← List.filterMap_eq_map,
    List.filterMap_filter]
  apply List.filterMap_congr
  intro u member
  obtain ⟨some_, ⟨name, _⟩, hash, _⟩ := parts u member
  rw [Function.comp_apply, passwordEntry_line some_ name hash]
  by_cases comment : u.username.toList.head? = some '#'
  · simp [comment, AccessListAuth.pair]
  · simp [comment, AccessListAuth.pair]

/-- The file reads back exactly where no name looks like a comment. -/
theorem htpasswd_readsBack {md5 : Md5} {a : AccessList} (stored : a.Stored md5) :
    a.ReadsBack ↔ ∀ u ∈ a.authUsers, u.username.toList.head? ≠ some '#' := by
  have perm : ((sortedBy (·.username) a.authUsers).map AccessListAuth.pair).Perm
      (a.authUsers.map AccessListAuth.pair) := (sortedBy_perm _ _).map _
  unfold AccessList.ReadsBack
  rw [passwordEntries_renderHtpasswd stored]
  constructor
  · rintro ⟨whole, _⟩ u member comment
    have kept := whole.mem_iff.mpr (List.mem_map_of_mem (f := AccessListAuth.pair) member)
    simp [AccessListAuth.pair, comment] at kept
  · intro plain
    have all : ((sortedBy (·.username) a.authUsers).map AccessListAuth.pair).filter
        (fun pair => pair.1.head? ≠ some '#') =
        (sortedBy (·.username) a.authUsers).map AccessListAuth.pair := by
      rw [List.filter_eq_self]
      intro pair member
      obtain ⟨u, inside, rfl⟩ := List.mem_map.mp member
      exact decide_eq_true (plain u ((mem_sortedBy _ _ _).mp inside))
    rw [all]
    refine ⟨perm, perm.nodup_iff.mpr ?_⟩
    have names : ((a.authUsers.map AccessListAuth.pair).map Prod.fst) =
        (a.authUsers.map (·.username)).map String.toList := by
      simp [AccessListAuth.pair, Function.comp_def]
    refine List.Nodup.of_map Prod.fst ?_
    rw [names]
    exact stored.distinct.map fun _ _ => String.toList_inj.mp

/-! ### Two lists -/

/-- A list with one user, whose password is `secret`. -/
def oneUserList (username : String) : AccessList where
  id := 1
  name := "staff"
  authUsers := [{ id := 1, username, passwordHash := hashApr1 zeroMd5 zeroDraws "secret" }]

private theorem oneUserList_stored {username : String}
    (valid : validateUsername username = .ok username) : (oneUserList username).Stored zeroMd5 where
  names u member := by
    rw [List.mem_singleton.mp member]
    exact ⟨username, valid⟩
  distinct := List.nodup_singleton _
  hashes u member := by
    rw [List.mem_singleton.mp member]
    exact ⟨zeroDraws, "secret", rfl⟩

theorem htpasswd_readsBack_alice :
    (oneUserList "alice").Stored zeroMd5 ∧ (oneUserList "alice").ReadsBack := by
  have stored := oneUserList_stored (by decide +kernel : validateUsername "alice" = .ok "alice")
  refine ⟨stored, (htpasswd_readsBack stored).mpr fun u member => ?_⟩
  rw [List.mem_singleton.mp member]
  decide

/-- A name that begins with `#` is accepted, and its line is skipped. -/
theorem htpasswd_comment :
    validateUsername "#ops" = .ok "#ops" ∧ (oneUserList "#ops").Stored zeroMd5 ∧
    passwordEntries (renderHtpasswd (accessListSpec (oneUserList "#ops"))).toList = [] ∧
    ¬(oneUserList "#ops").ReadsBack := by
  have valid : validateUsername "#ops" = .ok "#ops" := by decide +kernel
  have stored := oneUserList_stored valid
  have none : passwordEntries (renderHtpasswd (accessListSpec (oneUserList "#ops"))).toList = [] := by
    rw [passwordEntries_renderHtpasswd stored, List.filter_eq_nil_iff]
    intro pair member
    obtain ⟨u, inside, rfl⟩ := List.mem_map.mp member
    rw [mem_sortedBy] at inside
    rw [List.mem_singleton.mp inside]
    decide
  refine ⟨valid, stored, none, fun reads => ?_⟩
  have whole := reads.1
  rw [none] at whole
  cases whole.nil_eq

end MegooPM
