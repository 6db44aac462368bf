import MegooPM.Nginx.LoaderFacts

/-!
# The default site over TLS

`plan_default_tls` walks the active certificates and remembers for every name the
lowest id that covers it. The result in one line: a certificate gets a block for the
names it lists that no host claims and no certificate with a lower id lists.
-/
namespace MegooPM

open Lib

/-! ### The plan in one line -/

/-- The certificate serves the name: it lists it, nothing claims it, and no certificate with
a lower id lists it. -/
def serves (claimed : List String) (certificates : List Certificate) (c : Certificate)
    (name : String) : Bool :=
  name ∈ c.domainNames ∧ name ∉ claimed ∧
    ∀ other ∈ certificates, name ∈ other.domainNames → c.id ≤ other.id

/-- The names a certificate serves, sorted. -/
def servedNames (claimed : List String) (certificates : List Certificate) (c : Certificate) :
    List String :=
  sortedBy id (c.domainNames.dedup.filter (serves claimed certificates c))

def tlsPlan (cfg : Deployment) (certificates : List Certificate) (claimed : List String) :
    List DefaultTlsSpec :=
  (certificates.filter fun c => servedNames claimed certificates c ≠ []).map fun c =>
    { certificate := certificateSpec cfg c, serverNames := servedNames claimed certificates c }

theorem serves_iff {claimed : List String} {certificates : List Certificate} {c : Certificate}
    {name : String} : serves claimed certificates c name = true ↔
      name ∈ c.domainNames ∧ name ∉ claimed ∧
      ∀ other ∈ certificates, name ∈ other.domainNames → c.id ≤ other.id := by
  simp only [serves, decide_eq_true_eq]

theorem mem_servedNames {claimed : List String} {certificates : List Certificate}
    {c : Certificate} {name : String} :
    name ∈ servedNames claimed certificates c ↔ serves claimed certificates c name = true := by
  simp only [servedNames, mem_sortedBy, List.mem_filter, List.mem_dedup, and_iff_right_iff_imp]
  intro served
  exact (serves_iff.mp served).1

/-! ### The owner of a name -/

private theorem get_takeName (claimed : List String) (id : Id) (owner : Dict String Id)
    (name n : String) :
    (TlsOwners.takeName claimed id owner name)[n]? =
      if name = n ∧ n ∉ claimed then some (((owner[n]?).map (min id)).getD id) else owner[n]? := by
  unfold TlsOwners.takeName
  split
  next taken =>
    rw [if_neg]
    rintro ⟨rfl, free⟩
    exact free taken
  next free =>
    by_cases same : name = n
    · subst same
      rw [if_pos ⟨rfl, free⟩]
      cases current : owner[name]? with
      | none => simp only [Dict.get_insert, if_true, Option.map_none, Option.getD_none]
      | some lowest =>
        simp only [Option.map_some, Option.getD_some]
        split
        next lower => rw [Dict.get_insert, if_pos rfl, min_eq_left lower.le]
        next higher => rw [current, min_eq_right (not_lt.mp higher)]
    · rw [if_neg (fun both => same both.1)]
      cases current : owner[name]? with
      | none => simp only [Dict.get_insert, same, if_false]
      | some lowest =>
        simp only
        split
        next => rw [Dict.get_insert, if_neg same]
        next => rfl

private theorem get_takeNames (claimed : List String) (id : Id) (names : List String)
    (owner : Dict String Id) (n : String) :
    (names.foldl (TlsOwners.takeName claimed id) owner)[n]? =
      if n ∈ names ∧ n ∉ claimed then some (((owner[n]?).map (min id)).getD id) else owner[n]? := by
  induction names generalizing owner with
  | nil => simp
  | cons name rest ih =>
    rw [List.foldl_cons, ih, get_takeName]
    by_cases free : n ∉ claimed
    · by_cases here : name = n
      · subst here
        simp only [List.mem_cons, true_or, free, not_false_eq_true, and_self, if_true,
          Option.map_some, Option.getD_some]
        -- taking a name twice changes nothing more
        cases owner[name]? <;> simp
      · have other : n ∈ name :: rest ↔ n ∈ rest := by
          simp [Ne.symm here]
        simp only [other, here, false_and, if_false]
    · simp only [free, and_false, if_false]

/-- What the walk over some certificates has found for a name. -/
private def Owned (claimed : List String) (certificates : List Certificate) (n : String) :
    Option Id → Prop
  | none => n ∈ claimed ∨ ∀ c ∈ certificates, n ∉ c.domainNames
  | some i => n ∉ claimed ∧ (∃ c ∈ certificates, c.id = i ∧ n ∈ c.domainNames) ∧
      ∀ c ∈ certificates, n ∈ c.domainNames → i ≤ c.id

private theorem owned (claimed : List String) (certificates : List Certificate)
    (active : ∀ c ∈ certificates, c.status = .active) (n : String) :
    Owned claimed certificates n
      (certificates.foldl (TlsOwners.takeCertificate claimed) {}).owner[n]? := by
  induction certificates using List.reverseRecOn with
  | nil =>
    rw [List.foldl_nil, show ({} : TlsOwners).owner[n]? = none from
      Std.ExtTreeMap.getElem?_empty]
    exact Or.inr fun c member => by cases member
  | append_singleton earlier c ih =>
    have now : c.status = .active := active c (by simp)
    have before := ih fun other member => active other (List.mem_append_left _ member)
    rw [List.foldl_append, List.foldl_cons, List.foldl_nil]
    simp only [TlsOwners.takeCertificate, now, if_true]
    rw [get_takeNames]
    generalize (earlier.foldl (TlsOwners.takeCertificate claimed) {}).owner[n]? = current at before
    by_cases listed : n ∈ c.domainNames ∧ n ∉ claimed
    · rw [if_pos listed]
      cases current with
      | none =>
        have nobody : ∀ other ∈ earlier, n ∉ other.domainNames := before.resolve_left listed.2
        refine ⟨listed.2, ⟨c, by simp, rfl, listed.1⟩, fun other member lists => ?_⟩
        rcases List.mem_append.mp member with old | new
        · exact absurd lists (nobody other old)
        · rw [List.mem_singleton.mp new]
          exact le_refl _
      | some lowest =>
        obtain ⟨_, ⟨low, lowMember, rfl, lowLists⟩, least⟩ := before
        refine ⟨listed.2, ?_, fun other member lists => ?_⟩
        · simp only [Option.map_some, Option.getD_some]
          rcases le_total c.id low.id with lower | higher
          · rw [min_eq_left lower]
            exact ⟨c, by simp, rfl, listed.1⟩
          · rw [min_eq_right higher]
            exact ⟨low, List.mem_append_left _ lowMember, rfl, lowLists⟩
        · simp only [Option.map_some, Option.getD_some]
          rcases List.mem_append.mp member with old | new
          · exact (min_le_right _ _).trans (least other old lists)
          · rw [List.mem_singleton.mp new]
            exact min_le_left _ _
    · rw [if_neg listed]
      -- the certificate does not count for this name
      have skips : n ∉ claimed → n ∉ c.domainNames := fun free lists => listed ⟨lists, free⟩
      cases current with
      | none =>
        by_cases taken : n ∈ claimed
        · exact Or.inl taken
        · refine Or.inr fun other member => ?_
          rcases List.mem_append.mp member with old | new
          · exact before.resolve_left taken other old
          · rw [List.mem_singleton.mp new]
            exact skips taken
      | some lowest =>
        obtain ⟨free, ⟨low, lowMember, same, lowLists⟩, least⟩ := before
        refine ⟨free, ⟨low, List.mem_append_left _ lowMember, same, lowLists⟩, ?_⟩
        intro other member lists
        rcases List.mem_append.mp member with old | new
        · exact least other old lists
        · rw [List.mem_singleton.mp new] at lists
          exact absurd lists (skips free)

/-- The owner of a name is the certificate that serves it. -/
private theorem owner_iff (claimed : List String) (certificates : List Certificate)
    (active : ∀ c ∈ certificates, c.status = .active) (n : String) (i : Id) :
    (certificates.foldl (TlsOwners.takeCertificate claimed) {}).owner[n]? = some i ↔
      ∃ c ∈ certificates, c.id = i ∧ serves claimed certificates c n = true := by
  have spec := owned claimed certificates active n
  constructor
  · intro found
    rw [found] at spec
    obtain ⟨free, ⟨c, member, rfl, lists⟩, least⟩ := spec
    exact ⟨c, member, rfl, serves_iff.mpr ⟨lists, free, least⟩⟩
  · rintro ⟨c, member, rfl, served⟩
    obtain ⟨lists, free, least⟩ := serves_iff.mp served
    cases found : (certificates.foldl (TlsOwners.takeCertificate claimed) {}).owner[n]? with
    | none =>
      rw [found] at spec
      rcases spec with taken | nobody
      · exact absurd taken free
      · exact absurd lists (nobody c member)
    | some j =>
      rw [found] at spec
      obtain ⟨_, ⟨d, dMember, rfl, dLists⟩, dLeast⟩ := spec
      rw [le_antisymm (dLeast c member lists) (least d dMember dLists)]

/-! ### Certificates and names by id -/

private theorem byId_eq (claimed : List String) (certificates : List Certificate)
    (active : ∀ c ∈ certificates, c.status = .active)
    (ids : (certificates.map (·.id)).Nodup) (c : Certificate) (member : c ∈ certificates) :
    (certificates.foldl (TlsOwners.takeCertificate claimed) {}).byId[c.id]? = some c := by
  induction certificates using List.reverseRecOn with
  | nil => cases member
  | append_singleton earlier last ih =>
    have now : last.status = .active := active last (by simp)
    rw [List.foldl_append, List.foldl_cons, List.foldl_nil]
    simp only [TlsOwners.takeCertificate, now, if_true, Dict.get_insert]
    rw [List.map_append, List.nodup_append] at ids
    rcases List.mem_append.mp member with old | new
    · have other : last.id ≠ c.id := fun same =>
        ids.2.2 c.id (List.mem_map_of_mem old) last.id (by simp) same.symm
      rw [if_neg other]
      exact ih (fun d dMember => active d (List.mem_append_left _ dMember)) ids.1 old
    · rw [List.mem_singleton.mp new, if_pos rfl]

/-- The names collected for an id. -/
private theorem namesFor_eq (items : List (String × Id)) (i : Id) :
    (items.foldl addName (∅ : Dict Id (List String)))[i]? =
      if (items.filter (·.2 = i)).isEmpty then none
      else some ((items.filter (·.2 = i)).map (·.1)) := by
  induction items using List.reverseRecOn with
  | nil => simp
  | append_singleton earlier item ih =>
    rw [List.foldl_append, List.foldl_cons, List.foldl_nil, addName, Dict.get_insert,
      List.filter_append]
    by_cases here : item.2 = i
    · subst here
      rw [if_pos rfl, ih]
      by_cases none : (earlier.filter (·.2 = item.2)).isEmpty = true
      · rw [if_pos none]
        simp only [List.isEmpty_iff] at none
        simp [none]
      · rw [if_neg none]
        simp
    · have skipped : [item].filter (·.2 = i) = [] := by simp [here]
      rw [if_neg here, ih, skipped, List.append_nil]

/-! ### The plan -/

section Plan

variable {claimed : List String} {certificates : List Certificate}

private abbrev owners (claimed : List String) (certificates : List Certificate) : TlsOwners :=
  certificates.foldl (TlsOwners.takeCertificate claimed) {}

private theorem names_perm (active : ∀ c ∈ certificates, c.status = .active)
    (ids : (certificates.map (·.id)).Nodup) {c : Certificate} (member : c ∈ certificates) :
    (((owners claimed certificates).owner.toList.filter (·.2 = c.id)).map (·.1)).Perm
      (servedNames claimed certificates c) := by
  have distinct : ((owners claimed certificates).owner.toList.map (·.1)).Nodup := by
    have keys := (owners claimed certificates).owner.nodup_keys
    rwa [← Std.ExtTreeMap.map_fst_toList_eq_keys] at keys
  have nodup : (servedNames claimed certificates c).Nodup :=
    (sortedBy_perm id _).nodup_iff.mpr ((List.nodup_dedup _).filter _)
  rw [List.perm_ext_iff_of_nodup ((List.filter_sublist.map _).nodup distinct) nodup]
  intro n
  rw [mem_servedNames]
  constructor
  · intro listed
    obtain ⟨⟨m, i⟩, inside, rfl⟩ := List.mem_map.mp listed
    obtain ⟨stored, here⟩ := List.mem_filter.mp inside
    rw [Std.ExtTreeMap.mem_toList_iff_getElem?_eq_some, owner_iff _ _ active] at stored
    obtain ⟨d, dMember, same, served⟩ := stored
    have equal : d = c := by
      apply List.inj_on_of_nodup_map ids dMember member
      rw [same]
      simpa using here
    rw [← equal]
    exact served
  · intro served
    refine List.mem_map.mpr ⟨(n, c.id), List.mem_filter.mpr ⟨?_, by simp⟩, rfl⟩
    rw [Std.ExtTreeMap.mem_toList_iff_getElem?_eq_some, owner_iff _ _ active]
    exact ⟨c, member, rfl, served⟩

private abbrev namesFor (claimed : List String) (certificates : List Certificate) :
    Dict Id (List String) :=
  (owners claimed certificates).owner.toList.foldl addName ∅

/-- What is collected for a certificate that serves a name. -/
private theorem namesFor_served (active : ∀ c ∈ certificates, c.status = .active)
    (ids : (certificates.map (·.id)).Nodup) {c : Certificate} (member : c ∈ certificates)
    (some_ : servedNames claimed certificates c ≠ []) :
    ∃ names, (namesFor claimed certificates)[c.id]? = some names ∧
      sortedBy id names = servedNames claimed certificates c := by
  have perm : (((owners claimed certificates).owner.toList.filter (·.2 = c.id)).map (·.1)).Perm
      (servedNames claimed certificates c) := names_perm active ids member
  refine ⟨_, ?_, sortedBy_eq_of_perm perm (pairwise_sortedBy id _)⟩
  rw [namesFor_eq, if_neg]
  intro empty
  rw [List.isEmpty_iff] at empty
  rw [empty] at perm
  exact some_ perm.nil_eq.symm

/-- The ids names are collected for are those of the certificates that serve one. -/
private theorem keys_perm (active : ∀ c ∈ certificates, c.status = .active)
    (ids : (certificates.map (·.id)).Nodup) :
    (namesFor claimed certificates).keys.Perm
      ((certificates.filter fun c => servedNames claimed certificates c ≠ []).map (·.id)) := by
  rw [List.perm_ext_iff_of_nodup (namesFor claimed certificates).nodup_keys
    ((List.filter_sublist.map _).nodup ids)]
  intro i
  rw [Std.ExtTreeMap.mem_keys, Std.ExtTreeMap.mem_iff_isSome_getElem?]
  constructor
  · intro stored
    rw [namesFor_eq] at stored
    split at stored
    next => cases stored
    next nonempty =>
      rw [List.isEmpty_iff] at nonempty
      obtain ⟨⟨n, j⟩, inside⟩ := List.exists_mem_of_ne_nil _ nonempty
      obtain ⟨owns, here⟩ := List.mem_filter.mp inside
      simp only [decide_eq_true_eq] at here
      subst here
      rw [Std.ExtTreeMap.mem_toList_iff_getElem?_eq_some, owner_iff _ _ active] at owns
      obtain ⟨c, member, rfl, served⟩ := owns
      refine List.mem_map.mpr ⟨c, List.mem_filter.mpr ⟨member, ?_⟩, rfl⟩
      simp only [ne_eq, decide_eq_true_eq]
      exact List.ne_nil_of_mem (mem_servedNames.mpr served)
  · intro listed
    obtain ⟨c, inside, rfl⟩ := List.mem_map.mp listed
    obtain ⟨member, some_⟩ := List.mem_filter.mp inside
    simp only [ne_eq, decide_eq_true_eq] at some_
    obtain ⟨names, found, _⟩ := namesFor_served active ids member some_
    rw [found]
    rfl

/-- The walk gives the plan, and reads no key that is missing. -/
theorem planDefaultTls_ok (cfg : Deployment) (claimed : List String)
    {certificates : List Certificate} (active : ∀ c ∈ certificates, c.status = .active)
    (ordered : certificates.Pairwise fun a b => a.id < b.id) :
    planDefaultTls cfg certificates claimed = .ok (tlsPlan cfg certificates claimed) := by
  have ids : (certificates.map (·.id)).Nodup := by
    rw [List.Nodup, List.pairwise_map]
    exact ordered.imp fun lower => ne_of_lt lower
  have keys : sortedBy id (namesFor claimed certificates).keys =
      (certificates.filter fun c => servedNames claimed certificates c ≠ []).map (·.id) := by
    apply sortedBy_eq_of_perm (keys_perm active ids)
    rw [List.pairwise_map]
    exact (ordered.sublist List.filter_sublist).imp fun lower => le_of_lt lower
  unfold planDefaultTls
  simp only
  rw [keys, List.mapM_map]
  apply mapM_eq_ok
  intro c inside
  obtain ⟨member, some_⟩ := List.mem_filter.mp inside
  simp only [ne_eq, decide_eq_true_eq] at some_
  obtain ⟨names, found, sorted⟩ := namesFor_served active ids member some_
  have row := byId_eq claimed certificates active ids c member
  simp only [Function.comp, getItem, row, found]
  rw [← sorted]
  rfl

end Plan

end MegooPM
