import MegooPM.CrowdSec.Engine
import MegooPM.Lib.CaseMapping
import MegooPM.Lib.IpAddress
import MegooPM.Lib.JsonText
import MegooPM.Lib.Raising

/-!
# The whitelist file

`services/crowdsec/whitelists.py` and the template it fills: every enabled
whitelist as one document of a parser file, and how that file is written in place.
-/
namespace MegooPM.CrowdSec

open Lib

/-- What the renderer takes from Unicode's tables (the lower case of a character, and how `repr`
quotes a text), and the hexadecimal SHA-256 of a text. -/
structure WhitelistLibrary where
  unicode : Unicode
  repr : String → String
  sha256 : String → String

inductive WhitelistKind where
  | ipCidr
  | expression
deriving DecidableEq

structure WhitelistDoc where
  name : String
  reason : String
  description : String
  ips : List String := []
  cidrs : List String := []
  kind : WhitelistKind := .ipCidr
  filter : Option String := none
  expressions : List String := []

def WhitelistDoc.isExpression (doc : WhitelistDoc) : Bool :=
  doc.kind = .expression

section Render

variable (library : WhitelistLibrary)

/-! ### Checks -/

def isSlugChar (c : Char) : Bool :=
  ('a' ≤ c && c ≤ 'z') || c.isDigit

/-- `_SLUG_STRIP.sub("-", ...)`: every run of other characters becomes one dash. -/
def dashRuns : List Char → List Char
  | [] => []
  | c :: rest =>
    if isSlugChar c then c :: dashRuns rest
    else
      match dashRuns rest with
      | '-' :: more => '-' :: more
      | more => '-' :: more

/-- `.strip("-")`. -/
def stripDashes (slug : List Char) : List Char :=
  ((slug.dropWhile (· = '-')).reverse.dropWhile (· = '-')).reverse

def slugify (name : String) : Except String String :=
  let slug := String.ofList (stripDashes (dashRuns (library.unicode.lower (strip name.toList))))
  if slug = "" then
    .error ("Whitelist name " ++ library.repr name ++ " must contain at least one letter or digit.")
  else .ok slug

def validateEntries (ips cidrs : List String) : Except String Unit := do
  ips.forM fun ip =>
    if (Ip.ipAddress (strip ip.toList)).isSome then .ok ()
    else .error (library.repr ip ++ " is not a valid IP address.")
  cidrs.forM fun cidr =>
    if (Ip.ipNetwork (strip cidr.toList)).isSome then .ok ()
    else .error (library.repr cidr ++ " is not a valid CIDR range.")

def validateExpressions (expressions : List String) : Except String Unit :=
  if expressions = [] then .error "An expression whitelist needs at least one expression."
  else expressions.forM fun expression =>
    if stripText expression = "" then
      .error "An expression cannot be empty — CrowdSec fails to compile it."
    else .ok ()

/-- The checks `render_whitelists` makes of one document. -/
def validateDoc (doc : WhitelistDoc) : Except String Unit := do
  let _ ← slugify library doc.name
  if doc.isExpression then validateExpressions doc.expressions
  else
    validateEntries library doc.ips doc.cidrs
    if doc.ips = [] ∧ doc.cidrs = [] then
      .error ("Whitelist " ++ library.repr doc.name ++
        " needs at least one IP address or CIDR range.")
    else .ok ()

/-! ### The template -/

/-- A key of the `whitelist:` block and the list under it. -/
def yamlList (key : String) (items : List String) : String :=
  "\n  " ++ key ++ ":" ++ String.join (items.map fun item => "\n    - " ++ jsonText item)

/-- The filter of an expression whitelist that has one. -/
def filterLine (doc : WhitelistDoc) : String :=
  match doc.filter with
  | none => ""
  | some filter =>
    if doc.isExpression ∧ filter ≠ "" then "\nfilter: " ++ jsonText filter else ""

/-- Only the keys of the document's own kind. -/
def whitelistKeys (doc : WhitelistDoc) : String :=
  if doc.isExpression then yamlList "expression" doc.expressions
  else
    (if doc.ips = [] then "" else yamlList "ip" doc.ips) ++
    (if doc.cidrs = [] then "" else yamlList "cidr" doc.cidrs)

def document (doc : WhitelistDoc) : Except String String := do
  let slug ← slugify library doc.name
  .ok ("---\nname: " ++ jsonText ("megoopm/wl-" ++ slug) ++
    "\ndescription: " ++ jsonText doc.description ++ filterLine doc ++
    "\nwhitelist:\n  reason: " ++ jsonText doc.reason ++ whitelistKeys doc ++ "\n")

def whitelistHeader : String := "# Managed by MegooPM — do not edit by hand.\n"

def renderWhitelists (docs : List WhitelistDoc) : Except String String := do
  docs.forM (validateDoc library)
  let documents ← docs.mapM (document library)
  .ok (whitelistHeader ++ String.join documents)

def contentDigest (content : String) : String :=
  library.sha256 content

end Render

/-! ### What is rendered is read back as it was written -/

private theorem noCarriageReturn_yamlList {key : String} (clean : NoCarriageReturn key)
    (items : List String) : NoCarriageReturn (yamlList key items) := by
  simp only [yamlList, noCarriageReturn_append]
  refine ⟨⟨⟨by decide, clean⟩, by decide⟩, noCarriageReturn_join fun line member => ?_⟩
  obtain ⟨item, _, rfl⟩ := List.mem_map.mp member
  rw [noCarriageReturn_append]
  exact ⟨by decide, noCarriageReturn_jsonText item⟩

private theorem noCarriageReturn_filterLine (doc : WhitelistDoc) :
    NoCarriageReturn (filterLine doc) := by
  unfold filterLine
  split
  · decide
  next filter _ =>
    split
    · rw [noCarriageReturn_append]
      exact ⟨by decide, noCarriageReturn_jsonText filter⟩
    · decide

private theorem noCarriageReturn_whitelistKeys (doc : WhitelistDoc) :
    NoCarriageReturn (whitelistKeys doc) := by
  unfold whitelistKeys
  split
  · exact noCarriageReturn_yamlList (by decide) doc.expressions
  · rw [noCarriageReturn_append]
    constructor
    · split
      · decide
      · exact noCarriageReturn_yamlList (by decide) doc.ips
    · split
      · decide
      · exact noCarriageReturn_yamlList (by decide) doc.cidrs

theorem noCarriageReturn_document {library : WhitelistLibrary} (doc : WhitelistDoc) (text : String)
    (made : document library doc = .ok text) : NoCarriageReturn text := by
  obtain ⟨slug, _, made⟩ := bind_eq_ok made
  cases made
  simp only [noCarriageReturn_append]
  exact ⟨⟨⟨⟨⟨⟨⟨⟨by decide, noCarriageReturn_jsonText _⟩, by decide⟩, noCarriageReturn_jsonText _⟩,
    noCarriageReturn_filterLine doc⟩, by decide⟩, noCarriageReturn_jsonText _⟩,
    noCarriageReturn_whitelistKeys doc⟩, by decide⟩

/-- Whatever an operator typed, the file has no carriage return. -/
theorem noCarriageReturn_renderWhitelists {library : WhitelistLibrary} {docs : List WhitelistDoc}
    {content : String} (rendered : renderWhitelists library docs = .ok content) :
    NoCarriageReturn content := by
  obtain ⟨_, _, rendered⟩ := bind_eq_ok rendered
  obtain ⟨documents, made, rendered⟩ := bind_eq_ok rendered
  cases rendered
  rw [noCarriageReturn_append]
  exact ⟨by decide, noCarriageReturn_join (forall_of_mapM_ok noCarriageReturn_document made)⟩

/-- The file is never empty: an absent one is never taken for a rendered one. -/
theorem renderWhitelists_ne_empty {library : WhitelistLibrary} {docs : List WhitelistDoc}
    {content : String} (rendered : renderWhitelists library docs = .ok content) :
    content ≠ "" := by
  obtain ⟨_, _, rendered⟩ := bind_eq_ok rendered
  obtain ⟨documents, _, rendered⟩ := bind_eq_ok rendered
  cases rendered
  intro empty
  have head := congrArg String.toList empty
  rw [String.toList_append] at head
  have nothing := (List.append_eq_nil_iff.mp head).1
  revert nothing
  decide

end MegooPM.CrowdSec
