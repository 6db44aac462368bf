import MegooPM.CrowdSec.Whitelists
import MegooPM.Lib.Yaml

/-!
# The whitelist file read as YAML

Texts are rendered as JSON strings. YAML reads every escape of those the same way but one: a
character outside the basic plane is two escaped surrogates in JSON, and neither of them is a
character in YAML.
-/
namespace MegooPM.CrowdSec

open Lib

/-! ### What each document says -/

/-- The slug of a name that has one. -/
def slugOf (library : WhitelistLibrary) (name : String) : String :=
  (slugify library name).toOption.getD ""

/-- The filter that is rendered. -/
def WhitelistDoc.shownFilter (doc : WhitelistDoc) : Option String :=
  doc.filter.filter fun filter => doc.isExpression && filter ≠ ""

/-- The lists of the `whitelist:` block. -/
def WhitelistDoc.lists (doc : WhitelistDoc) : List (String × List String) :=
  if doc.isExpression then [("expression", doc.expressions)]
  else (if doc.ips = [] then [] else [("ip", doc.ips)]) ++
    (if doc.cidrs = [] then [] else [("cidr", doc.cidrs)])

def yamlText (text : String) : Yaml :=
  .text text.toList

/-- The `whitelist:` block. -/
def WhitelistDoc.block (doc : WhitelistDoc) : Yaml :=
  .mapping (("reason".toList, yamlText doc.reason) ::
    doc.lists.map fun list => (list.1.toList, .sequence (list.2.map yamlText)))

/-- The document that stands for a whitelist. -/
def whitelistYaml (library : WhitelistLibrary) (doc : WhitelistDoc) : Yaml :=
  .mapping (("name".toList, yamlText ("megoopm/wl-" ++ slugOf library doc.name)) ::
    ("description".toList, yamlText doc.description) ::
    doc.shownFilter.toList.map (fun filter => ("filter".toList, yamlText filter)) ++
    [("whitelist".toList, doc.block)])

/-- The texts of an operator that the document holds. -/
def WhitelistDoc.texts (doc : WhitelistDoc) : List String :=
  doc.description :: doc.shownFilter.toList ++ doc.reason :: doc.lists.flatMap (·.2)

/-! ### Its lines -/

def listLines (list : String × List String) : List (List Char) :=
  indented 2 (blockEntry list.1.toList) :: list.2.map fun item => indented 4 (itemEntry item)

/-- The lines of a document behind its marker. -/
def docLines (slug : String) (doc : WhitelistDoc) : List (List Char) :=
  [inlineEntry "name".toList ("megoopm/wl-" ++ slug),
      inlineEntry "description".toList doc.description] ++
    doc.shownFilter.toList.map (inlineEntry "filter".toList) ++
    [blockEntry "whitelist".toList, indented 2 (inlineEntry "reason".toList doc.reason)] ++
    doc.lists.flatMap listLines

/-- Each line behind a line end. -/
private def behind (lines : List (List Char)) : List Char :=
  lines.flatMap ('\n' :: ·)

private theorem behind_append (left right : List (List Char)) :
    behind (left ++ right) = behind left ++ behind right := List.flatMap_append

private theorem behind_end (lines : List (List Char)) :
    behind lines ++ ['\n'] = '\n' :: unlines lines := by
  induction lines with
  | nil => rfl
  | cons line rest ih =>
    rw [behind, List.flatMap_cons, List.append_assoc, ← behind, ih, unlines, unlines,
      List.flatMap_cons]
    simp

private theorem toList_yamlList (list : String × List String) :
    (yamlList list.1 list.2).toList = behind (listLines list) := by
  have items : ∀ items : List String,
      (String.join (items.map fun item => "\n    - " ++ jsonText item)).toList =
        behind (items.map fun item => indented 4 (itemEntry item)) := by
    intro items
    induction items with
    | nil => rfl
    | cons item rest ih =>
      rw [List.map_cons, String.join_cons, String.toList_append, ih, String.toList_append,
        List.map_cons, behind, behind, List.flatMap_cons]
      rfl
  have front : ("\n  " : String).toList = ['\n', ' ', ' '] := rfl
  have colon : (":" : String).toList = [':'] := rfl
  rw [yamlList, String.toList_append, String.toList_append, String.toList_append, items, front,
    colon, listLines, behind, behind, List.flatMap_cons]
  simp [indented, blockEntry]

private theorem toList_filterLine (doc : WhitelistDoc) :
    (filterLine doc).toList =
      behind (doc.shownFilter.toList.map (inlineEntry "filter".toList)) := by
  unfold filterLine WhitelistDoc.shownFilter
  cases doc.filter with
  | none => rfl
  | some filter =>
    by_cases shown : doc.isExpression = true ∧ filter ≠ ""
    · have front : ("\nfilter: " : String).toList = '\n' :: ("filter".toList ++ [':', ' ']) := rfl
      simp only [if_pos shown, String.toList_append, front]
      simp [Option.filter, shown, behind, inlineEntry, jsonQuoted]
    · simp only [if_neg shown]
      have hidden : doc.isExpression = true → filter = "" := by simpa using shown
      simpa [Option.filter, behind] using hidden

private theorem toList_whitelistKeys (doc : WhitelistDoc) :
    (whitelistKeys doc).toList = behind (doc.lists.flatMap listLines) := by
  unfold whitelistKeys WhitelistDoc.lists
  split
  · rw [toList_yamlList ("expression", doc.expressions)]
    simp
  · rw [String.toList_append, List.flatMap_append, behind_append]
    congr 1
    · split
      · rfl
      · rw [toList_yamlList ("ip", doc.ips)]
        simp
    · split
      · rfl
      · rw [toList_yamlList ("cidr", doc.cidrs)]
        simp

theorem toList_document {library : WhitelistLibrary} {doc : WhitelistDoc} {text : String}
    (made : document library doc = .ok text) :
    text.toList = unlines (markerLine :: docLines (slugOf library doc.name) doc) := by
  obtain ⟨slug, slugged, made⟩ := bind_eq_ok made
  cases made
  have same : slugOf library doc.name = slug := by
    rw [slugOf, slugged]
    rfl
  have name : ("---\nname: " : String).toList =
      markerLine ++ '\n' :: ("name".toList ++ [':', ' ']) := rfl
  have description : ("\ndescription: " : String).toList =
      '\n' :: ("description".toList ++ [':', ' ']) := rfl
  have block : ("\nwhitelist:\n  reason: " : String).toList =
      '\n' :: ("whitelist".toList ++ ':' :: '\n' :: ' ' :: ' ' ::
        ("reason".toList ++ [':', ' '])) := rfl
  have newline : ("\n" : String).toList = ['\n'] := rfl
  have lines : unlines (markerLine :: docLines slug doc) =
      markerLine ++ (behind (docLines slug doc) ++ ['\n']) := by
    rw [behind_end, unlines, List.flatMap_cons, ← unlines]
    simp
  rw [same, lines, docLines, behind_append, behind_append, behind_append]
  simp only [String.toList_append, name, description, block, newline, toList_filterLine,
    toList_whitelistKeys]
  simp [behind, inlineEntry, blockEntry, indented, jsonQuoted]

/-! ### A document read back -/

private theorem yamlLine_listLines (list : String × List String)
    (first : ∀ c, (blockEntry list.1.toList).head? = some c → (c == ' ') = false) :
    (listLines list).map yamlLine =
      ⟨2, blockEntry list.1.toList⟩ :: list.2.map fun item => ⟨4, itemEntry item⟩ := by
  have items (item : String) : yamlLine (indented 4 (itemEntry item)) = ⟨4, itemEntry item⟩ := rfl
  simp only [listLines, List.map_cons, yamlLine_indented 2 first, List.map_map, Function.comp_def,
    items]

/-- The lists of a document have keys of their own, and none of them is empty. -/
structure ListsShape (lists : List (String × List String)) : Prop where
  plain : ∀ list ∈ lists, PlainKey list.1.toList ∧ list.1.toList ≠ "reason".toList
  distinct : (lists.map fun list => list.1.toList).Nodup
  full : ∀ list ∈ lists, list.2 ≠ []

private theorem readEntries_lists (n : Nat) {lists : List (String × List String)}
    (shape : ListsShape lists) :
    readEntries (n + lists.length + 1) 2 ((lists.flatMap listLines).map yamlLine) =
      if AllBasic (lists.flatMap (·.2)) then
        some (lists.map fun list => (list.1.toList, .sequence (list.2.map yamlText)), [])
      else none := by
  induction lists with
  | nil => simp [AllBasic]
  | cons list lists ih =>
    obtain ⟨plain, distinct, full⟩ := shape
    rw [List.forall_mem_cons] at plain full
    obtain ⟨fresh, distinct⟩ := List.nodup_cons.mp distinct
    have later := ih ⟨plain.2, distinct, full.2⟩
    obtain ⟨item, items, some_⟩ := List.exists_cons_of_ne_nil full.1
    -- what follows the items of this list is the key of the next one
    have below : ∀ line, ((lists.flatMap listLines).map yamlLine).head? = some line →
        line.indent < 4 := by
      intro line head
      cases lists with
      | nil => cases head
      | cons next others =>
        rw [List.forall_mem_cons] at plain
        rw [List.flatMap_cons, List.map_append, yamlLine_listLines next
          fun c => plain.2.1.1.entry_first [':'] c] at head
        cases head
        exact Nat.lt_of_sub_eq_succ rfl
    rw [List.flatMap_cons, List.map_append, yamlLine_listLines list
      fun c => plain.1.1.entry_first [':'] c, List.cons_append, List.length_cons,
      ← Nat.add_assoc, readEntries_block plain.1.1, some_]
    have far : leastIndent 2 ((item :: items).map (fun item => YamlLine.mk 4 (itemEntry item)) ++
        (lists.flatMap listLines).map yamlLine) = 3 := rfl
    rw [far, readNode_texts (by decide) item items _ below, ← some_]
    have both : AllBasic ((list :: lists).flatMap (·.2)) ↔
        AllBasic list.2 ∧ AllBasic (lists.flatMap (·.2)) := by
      rw [List.flatMap_cons]
      exact List.forall_mem_append
    by_cases here : AllBasic list.2
    · rw [if_pos here, Option.bind_some, later]
      by_cases others : AllBasic (lists.flatMap (·.2))
      · have new : list.1.toList ∉ (lists.map fun list =>
            (list.1.toList, Yaml.sequence (list.2.map yamlText))).map (·.1) := by
          rw [List.map_map]
          exact fresh
        rw [if_pos others, if_pos (both.mpr ⟨here, others⟩), Option.bind_some, consEntry,
          if_neg new]
        rfl
      · rw [if_neg others, if_neg fun all => others (both.mp all).2]
        rfl
    · rw [if_neg here, if_neg fun all => here (both.mp all).1]
      rfl

private theorem plainKeys : ∀ key ∈ ["name", "description", "filter", "whitelist", "reason",
    "expression", "ip", "cidr"], PlainKey key.toList := by
  simp only [List.forall_mem_cons]
  refine ⟨?_, ?_, ?_, ?_, ?_, ?_, ?_, ?_, List.forall_mem_nil _⟩
  all_goals decide

private theorem plainKey (key : String) (listed : ["name", "description", "filter",
    "whitelist", "reason", "expression", "ip", "cidr"].contains key = true) :
    PlainKey key.toList :=
  plainKeys key (List.contains_iff_mem.mp listed)

private theorem listsShape {library : WhitelistLibrary} {doc : WhitelistDoc}
    (valid : validateDoc library doc = .ok ()) : ListsShape doc.lists := by
  unfold WhitelistDoc.lists
  cases expression : doc.isExpression with
  | true =>
    -- an expression whitelist without expressions is not valid
    have full : doc.expressions ≠ [] := by
      intro empty
      obtain ⟨_, _, valid⟩ := bind_eq_ok valid
      rw [if_pos expression, validateExpressions, if_pos empty] at valid
      cases valid
    have reason : "expression".toList ≠ "reason".toList := by simp
    rw [if_pos rfl]
    exact ⟨List.forall_mem_singleton.mpr ⟨plainKey "expression" rfl, reason⟩,
      List.nodup_singleton _, List.forall_mem_singleton.mpr full⟩
  | false =>
    have ip : PlainKey "ip".toList ∧ "ip".toList ≠ "reason".toList :=
      ⟨plainKey "ip" rfl, by simp⟩
    have cidr : PlainKey "cidr".toList ∧ "cidr".toList ≠ "reason".toList :=
      ⟨plainKey "cidr" rfl, by simp⟩
    have apart : "ip".toList ∉ ["cidr".toList] := by simp
    rw [if_neg (by decide)]
    by_cases ips : doc.ips = []
    · by_cases cidrs : doc.cidrs = []
      · rw [if_pos ips, if_pos cidrs]
        exact ⟨nofun, List.nodup_nil, nofun⟩
      · rw [if_pos ips, if_neg cidrs]
        exact ⟨List.forall_mem_singleton.mpr cidr, List.nodup_singleton _,
          List.forall_mem_singleton.mpr cidrs⟩
    · by_cases cidrs : doc.cidrs = []
      · rw [if_neg ips, if_pos cidrs]
        exact ⟨List.forall_mem_singleton.mpr ip, List.nodup_singleton _,
          List.forall_mem_singleton.mpr ips⟩
      · rw [if_neg ips, if_neg cidrs]
        exact ⟨List.forall_mem_cons.mpr ⟨ip, List.forall_mem_singleton.mpr cidr⟩,
          List.nodup_cons.mpr ⟨apart, List.nodup_singleton _⟩,
          List.forall_mem_cons.mpr ⟨ips, List.forall_mem_singleton.mpr cidrs⟩⟩

/-- The `whitelist:` block. -/
private theorem readNode_whitelist {fuel : Nat} {lists : List (String × List String)}
    (shape : ListsShape lists) (enough : lists.length < fuel) (reason : String) :
    readNode (fuel + 2) 1 (⟨2, inlineEntry "reason".toList reason⟩ ::
        (lists.flatMap listLines).map yamlLine) =
      if BasicPlane reason.toList ∧ AllBasic (lists.flatMap (·.2)) then
        some (.mapping (("reason".toList, yamlText reason) ::
          lists.map fun list => (list.1.toList, .sequence (list.2.map yamlText))), [])
      else none := by
  obtain ⟨n, rfl⟩ := Nat.exists_eq_add_of_lt enough
  rw [readNode_entries (by decide) rfl, readEntries_inline (plainKey "reason" rfl),
    Nat.add_comm lists.length n, readEntries_lists n shape]
  have fresh : "reason".toList ∉ (lists.map fun list =>
      (list.1.toList, Yaml.sequence (list.2.map yamlText))).map (·.1) := by
    rw [List.map_map]
    intro member
    obtain ⟨list, listed, same⟩ := List.mem_map.mp member
    exact (shape.plain list listed).2 same
  by_cases basic : BasicPlane reason.toList
  · by_cases all : AllBasic (lists.flatMap (·.2))
    · rw [if_pos basic, if_pos all, if_pos ⟨basic, all⟩, Option.bind_some, consEntry, if_neg fresh]
      rfl
    · rw [if_pos basic, if_neg all, if_neg fun both => all both.2]
      rfl
  · rw [if_neg basic, if_neg fun both => basic both.1]
    rfl

/-! ### The whole file -/

private theorem isSlugChar_dashRuns (name : List Char) :
    ∀ c ∈ dashRuns name, isSlugChar c = true ∨ c = '-' := by
  induction name with
  | nil => exact nofun
  | cons d rest ih =>
    rw [dashRuns]
    split
    next kept => exact List.forall_mem_cons.mpr ⟨Or.inl kept, ih⟩
    · split
      next more same =>
        rw [← same]
        exact ih
      next more _ => exact List.forall_mem_cons.mpr ⟨Or.inr rfl, ih⟩

private theorem mem_of_mem_stripDashes {slug : List Char} {c : Char}
    (member : c ∈ stripDashes slug) : c ∈ slug := by
  rw [stripDashes, List.mem_reverse] at member
  have front := (List.dropWhile_sublist _).mem member
  rw [List.mem_reverse] at front
  exact (List.dropWhile_sublist _).mem front

private theorem basicPlane_slug {library : WhitelistLibrary} {name slug : String}
    (made : slugify library name = .ok slug) : BasicPlane ("megoopm/wl-" ++ slug).toList := by
  rw [slugify] at made
  split at made
  · cases made
  · obtain rfl := Except.ok.inj made
    have chars (slug : List Char) : (String.ofList slug).toList = slug := String.toList_ofList
    rw [String.toList_append, chars (stripDashes _)]
    have front : ("megoopm/wl-".toList.all fun c => decide (c.toNat < 0x10000)) = true := by rfl
    refine List.forall_mem_append.mpr
      ⟨fun c member => of_decide_eq_true (List.all_eq_true.mp front c member), fun c member => ?_⟩
    rcases isSlugChar_dashRuns _ c (mem_of_mem_stripDashes member) with kept | rfl
    · simp only [isSlugChar, Char.isDigit, Bool.or_eq_true, Bool.and_eq_true,
        decide_eq_true_eq] at kept
      rcases kept with ⟨_, high⟩ | ⟨_, high⟩
      · exact lt_of_le_of_lt (show c.toNat ≤ 'z'.toNat from high) (by decide)
      · exact lt_of_le_of_lt (show c.toNat ≤ '9'.toNat from high) (by decide)
    · decide

private theorem entryLine_docLines (slug : String) {doc : WhitelistDoc}
    (shape : ListsShape doc.lists) : ∀ line ∈ docLines slug doc, EntryLine line := by
  have top (key : String) (text : String) (plain : PlainKey key.toList) :
      EntryLine (inlineEntry key.toList text) := entryLine_inlineEntry plain 0 text
  simp only [docLines, List.forall_mem_append, List.forall_mem_cons]
  refine ⟨⟨⟨⟨top _ _ (plainKey "name" rfl), top _ _ (plainKey "description" rfl),
      List.forall_mem_nil _⟩, ?_⟩,
    entryLine_blockEntry (plainKey "whitelist" rfl) 0,
    entryLine_inlineEntry (plainKey "reason" rfl) 2 doc.reason, List.forall_mem_nil _⟩, ?_⟩
  · intro line member
    obtain ⟨filter, _, rfl⟩ := List.mem_map.mp member
    exact top _ _ (plainKey "filter" rfl)
  · intro line member
    obtain ⟨list, listed, member⟩ := List.mem_flatMap.mp member
    rcases List.mem_cons.mp member with rfl | member
    · exact entryLine_blockEntry (shape.plain list listed).1 2
    · obtain ⟨item, _, rfl⟩ := List.mem_map.mp member
      exact entryLine_itemEntry (by decide) item

private theorem readEntries_whitelist {fuel : Nat} {doc : WhitelistDoc}
    (shape : ListsShape doc.lists) (enough : doc.lists.length < fuel) :
    readEntries (fuel + 3) 0 (([blockEntry "whitelist".toList,
        indented 2 (inlineEntry "reason".toList doc.reason)] ++
        doc.lists.flatMap listLines).map yamlLine) =
      if AllBasic (doc.reason :: doc.lists.flatMap (·.2)) then
        some ([("whitelist".toList, doc.block)], [])
      else none := by
  have first : yamlLine (blockEntry "whitelist".toList) = ⟨0, blockEntry "whitelist".toList⟩ := rfl
  have second : yamlLine (indented 2 (inlineEntry "reason".toList doc.reason)) =
      ⟨2, inlineEntry "reason".toList doc.reason⟩ := rfl
  have far : leastIndent 0 (⟨2, inlineEntry "reason".toList doc.reason⟩ ::
      (doc.lists.flatMap listLines).map yamlLine) = 1 := rfl
  simp only [List.map_cons, List.cons_append, List.nil_append, first, second]
  rw [readEntries_block (plainKey "whitelist" rfl), far, readNode_whitelist shape enough]
  simp only [allBasic_cons]
  split
  · rw [Option.bind_some, readEntries_nil]
    rfl
  · rfl

/-- The entries behind the description. -/
private theorem readEntries_filter {fuel : Nat} {doc : WhitelistDoc}
    (shape : ListsShape doc.lists) (enough : doc.lists.length < fuel) :
    readEntries (fuel + 4) 0 ((doc.shownFilter.toList.map (inlineEntry "filter".toList) ++
        ([blockEntry "whitelist".toList, indented 2 (inlineEntry "reason".toList doc.reason)] ++
        doc.lists.flatMap listLines)).map yamlLine) =
      if AllBasic (doc.shownFilter.toList ++ doc.reason :: doc.lists.flatMap (·.2)) then
        some (doc.shownFilter.toList.map (fun filter => ("filter".toList, yamlText filter)) ++
          [("whitelist".toList, doc.block)], [])
      else none := by
  cases doc.shownFilter with
  | none => exact readEntries_whitelist shape (Nat.lt_succ_of_lt enough)
  | some filter =>
    have line : yamlLine (inlineEntry "filter".toList filter) =
        ⟨0, inlineEntry "filter".toList filter⟩ := rfl
    have fresh : "filter".toList ∉ [("whitelist".toList, doc.block)].map (·.1) := by
      have apart : "filter".toList ∉ ["whitelist".toList] := by simp
      exact apart
    simp only [Option.toList_some, List.map_cons, List.map_nil, List.cons_append, List.nil_append,
      line]
    rw [readEntries_inline (plainKey "filter" rfl)]
    have rest := readEntries_whitelist shape enough
    simp only [List.map_cons, List.cons_append, List.nil_append] at rest
    rw [rest]
    simp only [allBasic_cons]
    by_cases basic : BasicPlane filter.toList
    · rw [if_pos basic]
      split
      next all =>
        rw [if_pos ⟨basic, all⟩, Option.bind_some, consEntry, if_neg fresh]
        rfl
      next not_ =>
        rw [if_neg fun both => not_ both.2]
        rfl
    · rw [if_neg basic, if_neg fun both => basic both.1]

/-- A rendered document says what its whitelist does, unless a text leaves the basic plane. -/
theorem readDocument_docLines {library : WhitelistLibrary} {doc : WhitelistDoc}
    (shape : ListsShape doc.lists)
    (slug : BasicPlane ("megoopm/wl-" ++ slugOf library doc.name).toList) :
    readDocument (docLines (slugOf library doc.name) doc) =
      if AllBasic doc.texts then some (whitelistYaml library doc) else none := by
  have name : yamlLine (inlineEntry "name".toList ("megoopm/wl-" ++ slugOf library doc.name)) =
      ⟨0, inlineEntry "name".toList ("megoopm/wl-" ++ slugOf library doc.name)⟩ := rfl
  have description : yamlLine (inlineEntry "description".toList doc.description) =
      ⟨0, inlineEntry "description".toList doc.description⟩ := rfl
  have lines : doc.lists.length ≤ (doc.lists.flatMap listLines).length := by
    have each : ∀ n ∈ doc.lists.map fun list => (listLines list).length, 1 ≤ n := by
      intro n member
      obtain ⟨list, _, rfl⟩ := List.mem_map.mp member
      exact Nat.le_add_left 1 _
    rw [List.length_flatMap]
    exact le_of_eq_of_le (List.length_map _).symm (List.length_le_sum_of_one_le _ each)
  have fuel : ∃ n, doc.lists.length < n ∧
      2 * (docLines (slugOf library doc.name) doc).length + 2 = n + 7 := by
    refine ⟨2 * (docLines (slugOf library doc.name) doc).length - 5, ?_, ?_⟩
    all_goals
      simp only [docLines, List.length_append, List.length_cons, List.length_nil]
      omega
  obtain ⟨n, enough, fuel⟩ := fuel
  have rest := readEntries_filter shape enough
  rw [readDocument, fuel, docLines, List.append_assoc, List.append_assoc, List.map_append]
  simp only [List.map_cons, List.map_nil, List.cons_append, List.nil_append, name, description]
    at rest ⊢
  rw [readNode_entries (Nat.zero_le 0) rfl, readEntries_inline (plainKey "name" rfl), if_pos slug,
    readEntries_inline (plainKey "description" rfl), rest, WhitelistDoc.texts, List.cons_append]
  simp only [allBasic_cons]
  set entries := doc.shownFilter.toList.map (fun filter => ("filter".toList, yamlText filter)) ++
    [("whitelist".toList, doc.block)] with entries_eq
  have keys : entries.map (·.1) ⊆ ["filter".toList, "whitelist".toList] := by
    rw [entries_eq]
    cases doc.shownFilter <;> simp
  -- no key comes twice
  have apart : "description".toList ∉ ["filter".toList, "whitelist".toList] ∧
      "name".toList ∉ ["description".toList, "filter".toList, "whitelist".toList] := by
    simp
  have second : consEntry "description".toList (.text doc.description.toList) (entries, []) =
      some (("description".toList, yamlText doc.description) :: entries, []) :=
    if_neg fun member => apart.1 (keys member)
  have first : consEntry "name".toList
      (.text ("megoopm/wl-" ++ slugOf library doc.name).toList)
      (("description".toList, yamlText doc.description) :: entries, []) =
      some (("name".toList, yamlText ("megoopm/wl-" ++ slugOf library doc.name)) ::
        ("description".toList, yamlText doc.description) :: entries, []) :=
    if_neg fun member => apart.2 (List.cons_subset_cons _ keys member)
  by_cases basic : BasicPlane doc.description.toList
  · rw [if_pos basic]
    split
    next all =>
      rw [if_pos ⟨basic, all⟩, Option.bind_some, second, Option.bind_some, first]
      rfl
    next not_ =>
      rw [if_neg fun both => not_ both.2]
      rfl
  · rw [if_neg basic, if_neg fun both => basic both.1]
    rfl

private theorem readDocument_valid {library : WhitelistLibrary} {doc : WhitelistDoc}
    (valid : validateDoc library doc = .ok ()) :
    readDocument (docLines (slugOf library doc.name) doc) =
      if AllBasic doc.texts then some (whitelistYaml library doc) else none := by
  obtain ⟨slug, slugged, _⟩ := bind_eq_ok valid
  have same : slugOf library doc.name = slug := by
    rw [slugOf, slugged]
    rfl
  refine readDocument_docLines (listsShape valid) ?_
  rw [same]
  exact basicPlane_slug slugged

private theorem toList_join {library : WhitelistLibrary} {docs : List WhitelistDoc}
    {texts : List String} (made : docs.mapM (document library) = .ok texts) :
    (String.join texts).toList =
      unlines ((docs.map fun doc => docLines (slugOf library doc.name) doc).flatMap
        (markerLine :: ·)) := by
  have each := eq_map_of_mapM_ok (g := fun doc =>
    String.ofList (unlines (markerLine :: docLines (slugOf library doc.name) doc)))
    (fun doc text made => by rw [← toList_document made, String.ofList_toList]) made
  rw [each]
  clear made each
  induction docs with
  | nil => rfl
  | cons doc docs ih =>
    rw [List.map_cons, String.join_cons, String.toList_append, ih, String.toList_ofList,
      List.map_cons, List.flatMap_cons, unlines, unlines, unlines, List.flatMap_append]

def headerLine : List Char := "# Managed by MegooPM — do not edit by hand.".toList

private theorem mapM_congr {f g : WhitelistDoc → Option Yaml} {docs : List WhitelistDoc}
    (each : ∀ doc ∈ docs, f doc = g doc) : docs.mapM f = docs.mapM g := by
  induction docs with
  | nil => rfl
  | cons doc docs ih =>
    rw [List.forall_mem_cons] at each
    rw [List.mapM_cons, List.mapM_cons, each.1, ih each.2]

/-- The file is read one whitelist after another. -/
theorem readYaml_rendered {library : WhitelistLibrary} {docs : List WhitelistDoc}
    {content : String} (rendered : renderWhitelists library docs = .ok content) :
    readYaml content.toList = docs.mapM fun doc =>
      if AllBasic doc.texts then some (whitelistYaml library doc) else none := by
  obtain ⟨_, valid, rendered⟩ := bind_eq_ok rendered
  obtain ⟨texts, made, rendered⟩ := bind_eq_ok rendered
  cases rendered
  have valid := ok_of_forM_ok valid
  have header : whitelistHeader.toList = unlines [headerLine] := rfl
  have split : (whitelistHeader ++ String.join texts).toList =
      unlines ([headerLine] ++ (docs.map fun doc => docLines (slugOf library doc.name) doc).flatMap
        (markerLine :: ·)) := by
    rw [String.toList_append, header, toList_join made, unlines, unlines, unlines,
      List.flatMap_append]
  have lines : ∀ doc ∈ docs.map (fun doc => docLines (slugOf library doc.name) doc),
      ∀ line ∈ doc, EntryLine line := by
    intro doc member
    obtain ⟨doc, listed, rfl⟩ := List.mem_map.mp member
    exact entryLine_docLines _ (listsShape (valid doc listed))
  have comment : '\n' ∉ headerLine ∧ isContent headerLine = false := by decide +kernel
  rw [split, readYaml_unlines ?_ (List.forall_mem_singleton.mpr comment.2)
    (fun doc member line inside => (lines doc member line inside).content)
    (fun doc member line inside => (lines doc member line inside).plain)]
  · rw [List.mapM_map]
    exact mapM_congr fun doc listed => readDocument_valid (valid doc listed)
  · refine List.forall_mem_append.mpr ⟨List.forall_mem_singleton.mpr comment.1, ?_⟩
    intro line member
    obtain ⟨doc, listed, inside⟩ := List.mem_flatten.mp member
    exact (lines doc listed line inside).single

private theorem mapM_ite {P : WhitelistDoc → Prop} [DecidablePred P] {g : WhitelistDoc → Yaml}
    (docs : List WhitelistDoc) :
    docs.mapM (fun doc => if P doc then some (g doc) else none) = some (docs.map g) ↔
      ∀ doc ∈ docs, P doc := by
  induction docs with
  | nil => simp
  | cons doc docs ih =>
    rw [List.forall_mem_cons, List.mapM_cons, ← ih]
    by_cases here : P doc
    · rw [if_pos here]
      cases docs.mapM fun doc => if P doc then some (g doc) else none <;> simp [here]
    · rw [if_neg here]
      simp [here]

/-- The file is read back as its whitelists, in order and value for value, exactly when no text
of an operator leaves the basic plane. -/
theorem readYaml_rendered_iff {library : WhitelistLibrary} {docs : List WhitelistDoc}
    {content : String} (rendered : renderWhitelists library docs = .ok content) :
    readYaml content.toList = some (docs.map (whitelistYaml library)) ↔
      ∀ doc ∈ docs, AllBasic doc.texts := by
  rw [readYaml_rendered rendered]
  exact mapM_ite docs

/-- The library on texts of ASCII without quotes. -/
def yardLibrary : WhitelistLibrary where
  unicode := .latin
  repr text := "'" ++ text ++ "'"
  sha256 _ := ""

def yard (reason : String) : WhitelistDoc where
  name := "yard"
  reason := reason
  description := "é"
  ips := ["10.0.0.7"]

def yardFile (reason : String) : String :=
  whitelistHeader ++ "---\nname: \"megoopm/wl-yard\"\ndescription: \"\\u00e9\"\nwhitelist:\n" ++
    "  reason: " ++ reason ++ "\n  ip:\n    - \"10.0.0.7\"\n"

theorem readYaml_yard :
    renderWhitelists yardLibrary [yard "a: \"b\" #"] = .ok (yardFile "\"a: \\\"b\\\" #\"") ∧
    readYaml (yardFile "\"a: \\\"b\\\" #\"").toList =
      some [whitelistYaml yardLibrary (yard "a: \"b\" #")] := by
  have rendered : renderWhitelists yardLibrary [yard "a: \"b\" #"] =
      .ok (yardFile "\"a: \\\"b\\\" #\"") := by decide +kernel
  exact ⟨rendered, (readYaml_rendered_iff rendered).mpr (by decide +kernel)⟩

/-- A character outside the basic plane: what is rendered is not read at all. -/
theorem astral_unreadable :
    renderWhitelists yardLibrary [yard "😀"] = .ok (yardFile "\"\\ud83d\\ude00\"") ∧
    readYaml (yardFile "\"\\ud83d\\ude00\"").toList ≠
      some [whitelistYaml yardLibrary (yard "😀")] := by
  have rendered : renderWhitelists yardLibrary [yard "😀"] =
      .ok (yardFile "\"\\ud83d\\ude00\"") := by
    decide +kernel
  have outside : ¬AllBasic (yard "😀").texts := by decide +kernel
  refine ⟨rendered, ?_⟩
  rw [readYaml_rendered rendered, List.mapM_cons, if_neg outside]
  exact nofun

end MegooPM.CrowdSec
