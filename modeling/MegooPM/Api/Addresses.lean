import MegooPM.Api.Schemas
import MegooPM.Lib.AddressGrammar

/-!
# Addresses of the bypass and access lists

The entries of a bypass list are written as entries of a `geo` block, the addresses of an
access list behind `allow` and `deny`, each as one word. Both validators ask Python's
`ipaddress`, which reads more than the proxy does: masks that are no number, and scope ids.
-/
namespace MegooPM

open Lib.Ip (IsRange PlainMask clearsBits)

/-- The validators' library as Python has it; lowering and the splitting of URLs stay
parameters. -/
def pythonLibrary (lower : String → String) (urlsplit : String → Option (String × String)) :
    SchemaLibrary where
  lower := lower
  ipAddress text := (Lib.Ip.ipAddress text.toList).map String.ofList
  ipNetwork text := (Lib.Ip.ipNetwork text.toList).map String.ofList
  urlsplit := urlsplit

section Library

variable {lower : String → String} {urlsplit : String → Option (String × String)}

theorem ipAddress_pythonLibrary (text : String) : (pythonLibrary lower urlsplit).ipAddress text =
    (Lib.Ip.ipAddress text.toList).map String.ofList :=
  rfl

theorem ipNetwork_pythonLibrary (text : String) : (pythonLibrary lower urlsplit).ipNetwork text =
    (Lib.Ip.ipNetwork text.toList).map String.ofList :=
  rfl

end Library

private theorem beginsAddress_of_begins {text : String} (begins : Lib.Ip.Begins text.toList) :
    BeginsAddress text := by
  obtain ⟨c, rest, spelled, kind⟩ := begins
  refine ⟨c, rest, spelled, ?_⟩
  simp only [beginsAddress, Bool.or_eq_true, decide_eq_true_eq]
  rcases kind with hex | colon
  · exact Or.inl (by simpa [Lib.Ip.V6.isHexDigit] using hex)
  · exact Or.inr colon

theorem documented_pythonLibrary (lower : String → String)
    (urlsplit : String → Option (String × String)) : (pythonLibrary lower urlsplit).Documented where
  address := by
    intro text form read
    rw [ipAddress_pythonLibrary] at read
    obtain ⟨printed, found, rfl⟩ := Option.map_eq_some_iff.mp read
    refine beginsAddress_of_begins ?_
    rw [String.toList_ofList]
    exact Lib.Ip.begins_of_ipAddress found
  network := by
    intro text form read
    rw [ipNetwork_pythonLibrary] at read
    obtain ⟨printed, found, rfl⟩ := Option.map_eq_some_iff.mp read
    obtain ⟨first, second⟩ := Lib.Ip.begins_of_ipNetwork found
    refine ⟨beginsAddress_of_begins first, beginsAddress_of_begins ?_⟩
    rw [String.toList_ofList]
    exact second

variable {lower : String → String} {urlsplit : String → Option (String × String)}

/-- What may stand before the value of a `geo` entry. -/
def IsGeoRange (entry : String) : Prop :=
  IsRange entry.toList

/-- What may stand behind `allow` or `deny`. -/
def IsRuleAddress (address : String) : Prop :=
  address = "all" ∨ IsRange address.toList

/-- An entry of a bypass list is kept as it was entered. -/
theorem isGeoRange_iff {raw entry : String}
    (accepted : validateAllow (pythonLibrary lower urlsplit) raw = .ok entry) :
    IsGeoRange entry ↔ '%' ∉ (stripped raw).toList ∧ PlainMask (stripped raw).toList := by
  simp only [validateAllow] at accepted
  split at accepted
  next form read =>
    cases accepted
    rw [ipNetwork_pythonLibrary] at read
    obtain ⟨printed, found, _⟩ := Option.map_eq_some_iff.mp read
    exact Lib.Ip.isRange_iff_of_network found
  · cases accepted

/-- No scope id stands in `all`, so that a form spelled so would be a range. -/
private theorem isRuleAddress_printed {text printed : Lib.Ip.Text}
    (read : Lib.Ip.ipNetwork text = some printed ∨ Lib.Ip.ipAddress text = some printed) :
    IsRuleAddress (String.ofList printed) ↔ IsRange printed := by
  rw [IsRuleAddress, String.toList_ofList]
  refine ⟨fun kind => ?_, Or.inr⟩
  rcases kind with everyone | range
  · refine Lib.Ip.isRange_of_printed read ?_
    rw [← String.toList_ofList (l := printed), everyone]
    decide
  · exact range

/-- An address of an access list is printed anew. -/
theorem isRuleAddress_iff {raw form : String}
    (accepted : validateAddress (pythonLibrary lower urlsplit) raw = .ok form) :
    IsRuleAddress form ↔ lower (stripped raw) = "all" ∨
      ('%' ∈ (stripped raw).toList →
        '/' ∈ (stripped raw).toList ∧ clearsBits (stripped raw).toList = true) := by
  simp only [validateAddress] at accepted
  generalize stripped raw = text at accepted ⊢
  split at accepted
  · cases accepted
  · split at accepted
    next everyone =>
      cases accepted
      exact iff_of_true (Or.inl rfl) (Or.inl everyone)
    next named =>
      have other : ¬ lower text = "all" := named
      split at accepted
      next printed read =>
        cases accepted
        rw [or_iff_right other]
        by_cases masked : '/' ∈ text.toList
        · rw [if_pos masked, ipNetwork_pythonLibrary] at read
          obtain ⟨printed, found, rfl⟩ := Option.map_eq_some_iff.mp read
          rw [isRuleAddress_printed (Or.inl found), Lib.Ip.isRange_form_of_network found]
          simp only [masked, true_and]
        · rw [if_neg masked, ipAddress_pythonLibrary] at read
          obtain ⟨printed, found, rfl⟩ := Option.map_eq_some_iff.mp read
          rw [isRuleAddress_printed (Or.inr found), Lib.Ip.isRange_form_of_address found]
          simp only [masked, false_and, imp_false]
      · cases accepted

/-- What an accepted text is written as can stand where it is written unless it carries a
scope id that no prefix clears, or, in a bypass list, any scope id or a mask that is no
number. -/
theorem accepted_addresses_iff (lower : String → String)
    (urlsplit : String → Option (String × String)) (raw written : String) :
    (validateAllow (pythonLibrary lower urlsplit) raw = .ok written →
      (IsGeoRange written ↔
        '%' ∉ (stripped raw).toList ∧ PlainMask (stripped raw).toList)) ∧
    (validateAddress (pythonLibrary lower urlsplit) raw = .ok written →
      (IsRuleAddress written ↔ lower (stripped raw) = "all" ∨
        ('%' ∈ (stripped raw).toList →
          '/' ∈ (stripped raw).toList ∧ clearsBits (stripped raw).toList = true))) :=
  ⟨isGeoRange_iff, isRuleAddress_iff⟩

theorem accepted_addresses_private :
    IsGeoRange "10.0.0.0/8" ∧ IsRuleAddress "2001:db8::/32" := by
  refine ⟨((accepted_addresses_iff id (fun _ => none) " 10.0.0.0/8" _).1 (by decide +kernel)).mpr
    ⟨by decide +kernel, ?_⟩, ((accepted_addresses_iff id (fun _ => none) "2001:DB8:0::1/32" _).2
    (by decide +kernel)).mpr (Or.inr fun sign => absurd sign (by decide +kernel))⟩
  intro bare mask split
  rw [show Lib.Ip.splitOptionalNetmask (stripped " 10.0.0.0/8").toList =
    some ("10.0.0.0".toList, some "8".toList) by decide +kernel] at split
  cases split
  rfl

/-- A network mask is kept in a bypass list, a scope id in either. -/
theorem accepted_addresses_masked :
    (validateAllow (pythonLibrary id fun _ => none) "10.0.0.0/255.0.0.0" =
        .ok "10.0.0.0/255.0.0.0" ∧ ¬ IsGeoRange "10.0.0.0/255.0.0.0") ∧
      validateAddress (pythonLibrary id fun _ => none) "fe80::1%eth0" = .ok "fe80::1%eth0" ∧
      ¬ IsRuleAddress "fe80::1%eth0" := by
  refine ⟨⟨by decide +kernel, fun range => ?_⟩, by decide +kernel, fun kind => ?_⟩
  · have number := range.plain.2 "10.0.0.0".toList "255.0.0.0".toList (by decide +kernel)
    exact absurd number (by decide +kernel)
  · rcases kind with everyone | range
    · exact absurd everyone (by decide)
    · exact range.plain.1 (by decide)

end MegooPM
