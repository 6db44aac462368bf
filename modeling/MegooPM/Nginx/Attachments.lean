import MegooPM.Nginx.Documents
import MegooPM.Nginx.PoolClosure
import MegooPM.Services.Certificates

/-!
# Certificate rows and the rendered files

What a new row of the certificates table and the deletion of one do to the rendered files. A
row shows only where something attaches it, or where it is active and serves a name of the
default-TLS plan.
-/
namespace MegooPM

open Lib Lib.Node

/-! ### The plan without an idle certificate -/

section Plan

variable {claimed : List String} {all rest : List Certificate} {c : Certificate}
  (split : ∀ d, d ∈ all ↔ d ∈ rest ∨ d = c) (idle : servedNames claimed all c = [])

include split idle

/-- A certificate that serves nothing takes no name from another. -/
private theorem serves_of_idle (d : Certificate) (name : String) :
    serves claimed all d name = serves claimed rest d name := by
  rw [Bool.eq_iff_iff, serves_iff, serves_iff]
  constructor
  · rintro ⟨listed, free, lowest⟩
    exact ⟨listed, free, fun other inside => lowest other ((split other).mpr (Or.inl inside))⟩
  · rintro ⟨listed, free, lowest⟩
    refine ⟨listed, free, fun other inside own => ?_⟩
    rcases (split other).mp inside with inRest | rfl
    · exact lowest other inRest own
    · -- were `other` below `d`, it would be the lowest of all and serve the name
      by_contra above
      have served : serves claimed all other name = true := by
        refine serves_iff.mpr ⟨own, free, fun third inAll lists => ?_⟩
        rcases (split third).mp inAll with inRest | rfl
        · exact le_of_lt (lt_of_lt_of_le (lt_of_not_ge above) (lowest third inRest lists))
        · exact le_refl _
      have listed := mem_servedNames.mpr served
      rw [idle] at listed
      cases listed

/-- So the plan is that of the others. -/
theorem tlsPlan_of_idle (cfg : Deployment) (ordered : all.Pairwise fun a b => a.id < b.id)
    (ordered' : rest.Pairwise fun a b => a.id < b.id) :
    tlsPlan cfg all claimed = tlsPlan cfg rest claimed := by
  have names : ∀ d, servedNames claimed all d = servedNames claimed rest d := by
    intro d
    unfold servedNames
    congr 2
    funext name
    exact serves_of_idle split idle d name
  have same : all.filter (fun d => servedNames claimed all d ≠ []) =
      rest.filter fun d => servedNames claimed rest d ≠ [] := by
    refine eq_of_increasing (ordered.sublist List.filter_sublist)
      (ordered'.sublist List.filter_sublist) fun d => ?_
    simp only [List.mem_filter, decide_eq_true_eq, split, names]
    constructor
    · rintro ⟨inRest | rfl, serving⟩
      · exact ⟨inRest, serving⟩
      · exact absurd ((names d).symm.trans idle) serving
    · rintro ⟨inRest, serving⟩
      exact ⟨Or.inl inRest, serving⟩
  unfold tlsPlan
  rw [same]
  refine List.map_congr_left fun d _ => ?_
  rw [names d]

end Plan

/-- A default-TLS block that only one of two states has. -/
theorem renderConfig_ne_of_defaultTls {cfg : Deployment} {state state' : DesiredState}
    {t : DefaultTlsSpec} (block : t ∈ state.defaultTls)
    (gone : ∀ u ∈ state'.defaultTls, u.certificate.id ≠ t.certificate.id) :
    renderConfig cfg state ≠ renderConfig cfg state' := by
  intro same
  obtain ⟨content, found⟩ := get_text_isSome
    (mem_configPairs.mpr (Or.inr (Or.inr (Or.inr (Or.inr ⟨t, block, rfl⟩)))))
  have there : (renderConfig cfg state')[defaultTlsFilename t.certificate.id]? = some content := by
    rw [← same]
    exact found
  obtain ⟨body, member, _⟩ := mem_pairs_of_get_text there
  rcases List.mem_append.mp member with others | own
  · have tag : nameTag (defaultTlsFilename t.certificate.id) = "megoopm-def".toList :=
      (nameTag_append (by decide) _ _).trans (by decide)
    exact absent_of_tagged (tagged_configHosts cfg state') (by rw [tag]; decide) body others
  · obtain ⟨u, listed, names⟩ := List.mem_map.mp own
    exact gone u listed (fileName_injective (Prod.mk.inj names).1)

/-! ### A new row -/

section Added

variable {cfg : Deployment} {db : Database} (constraints : db.Constraints) {c : Certificate}

/-- A foreign key that leads to a row still does. -/
private theorem related_addCertificate {ref : Option Id}
    (resolves : references ref Certificate.id db.certificates = true) :
    related (db.addCertificate c).certificate? ref = related db.certificate? ref := by
  cases ref with
  | none => rfl
  | some i =>
    obtain ⟨row, member, same⟩ := List.any_eq_true.mp resolves
    exact find?_append_of_mem ⟨row, member, by simpa using same⟩

include constraints in
theorem desiredHosts_addCertificate :
    desiredHosts cfg (db.addCertificate c) = desiredHosts cfg db := by
  have hosts : (includedHosts db).map (loadedHost cfg (db.addCertificate c)) =
      (includedHosts db).map (loadedHost cfg db) := by
    refine List.map_congr_left fun h included => ?_
    have row := (mem_includedHosts.mp included).1
    simp only [loadedHost, proxyHostSpec,
      related_addCertificate (constraints.hostCertificates h row)]
    rfl
  have redirects : loadRedirectionHosts cfg (db.addCertificate c) = loadRedirectionHosts cfg db := by
    refine List.map_congr_left fun r member => ?_
    simp only [mem_sortedBy, List.mem_filter] at member
    simp only [redirectionHostSpec,
      related_addCertificate (constraints.redirectionCertificates r member.1)]
  have deads : loadDeadHosts cfg (db.addCertificate c) = loadDeadHosts cfg db := by
    refine List.map_congr_left fun d member => ?_
    simp only [mem_sortedBy, List.mem_filter] at member
    simp only [deadHostSpec, related_addCertificate (constraints.deadCertificates d member.1)]
  have streams : (includedStreams db).map (streamSpec cfg (db.addCertificate c)) =
      (includedStreams db).map (streamSpec cfg db) := by
    refine List.map_congr_left fun s included => ?_
    have row := (mem_includedStreams.mp included).1
    simp only [streamSpec, related_addCertificate (constraints.streamCertificates s row)]
  have sameHosts : includedHosts (db.addCertificate c) = includedHosts db := rfl
  have sameStreams : includedStreams (db.addCertificate c) = includedStreams db := rfl
  simp only [desiredHosts, sameHosts, sameStreams, hosts, redirects, deads, streams]
  rfl

/-- The row would serve a name: it is active and lists one that no rendered host claims and
no active certificate with a lower id lists. -/
def Database.WouldServe (cfg : Deployment) (db : Database) (c : Certificate) : Prop :=
  c.status = .active ∧ ∃ name ∈ c.domainNames, name ∉ claimedNames cfg db ∧
    ∀ other ∈ loadCertificates db, name ∈ other.domainNames → c.id ≤ other.id

private theorem mem_loadCertificates_add (active : c.status = .active) (d : Certificate) :
    d ∈ loadCertificates (db.addCertificate c) ↔ d ∈ loadCertificates db ∨ d = c := by
  simp only [loadCertificates, Database.addCertificate, mem_sortedBy, List.mem_filter,
    List.mem_append, List.mem_singleton, decide_eq_true_eq, or_and_right]
  constructor
  · rintro (old | ⟨rfl, _⟩)
    · exact Or.inl old
    · exact Or.inr rfl
  · rintro (old | rfl)
    · exact Or.inl old
    · exact Or.inr ⟨rfl, active⟩

private theorem servedNames_add_iff (active : c.status = .active) (claimed : List String) :
    servedNames claimed (loadCertificates (db.addCertificate c)) c ≠ [] ↔
      ∃ name ∈ c.domainNames, name ∉ claimed ∧
        ∀ other ∈ loadCertificates db, name ∈ other.domainNames → c.id ≤ other.id := by
  constructor
  · intro some_
    obtain ⟨name, member⟩ := List.exists_mem_of_ne_nil _ some_
    obtain ⟨listed, free, lowest⟩ := serves_iff.mp (mem_servedNames.mp member)
    exact ⟨name, listed, free, fun other inside =>
      lowest other ((mem_loadCertificates_add active other).mpr (Or.inl inside))⟩
  · rintro ⟨name, listed, free, lowest⟩
    refine List.ne_nil_of_mem (mem_servedNames.mpr (serves_iff.mpr ⟨listed, free, ?_⟩))
    intro other inside lists
    rcases (mem_loadCertificates_add active other).mp inside with old | rfl
    · exact lowest other old lists
    · exact le_refl _

include constraints in
/-- A new row shows exactly when it serves a name. -/
theorem rendering_addCertificate_iff (fine : (db.addCertificate c).Constraints) :
    rendering cfg db ≠ rendering cfg (db.addCertificate c) ↔ db.WouldServe cfg c := by
  have hosts := @desiredHosts_addCertificate cfg db constraints c
  rw [rendering_ok cfg constraints, rendering_ok cfg fine]
  constructor
  · intro differ
    by_contra idle
    refine differ (congrArg (fun state => Except.ok (renderState cfg state)) ?_)
    -- the new certificate serves no name, so the plan stays as it was
    have plan : tlsPlan cfg (loadCertificates (db.addCertificate c))
        (claimedTlsNames (desiredHosts cfg db)) =
        tlsPlan cfg (loadCertificates db) (claimedTlsNames (desiredHosts cfg db)) := by
      by_cases active : c.status = .active
      · refine tlsPlan_of_idle (mem_loadCertificates_add active) ?_ cfg
          (loadCertificates_ordered fine.certificateIds)
          (loadCertificates_ordered constraints.certificateIds)
        by_contra serving
        exact idle ⟨active, (servedNames_add_iff active _).mp serving⟩
      · have same : loadCertificates (db.addCertificate c) = loadCertificates db := by
          simp [loadCertificates, Database.addCertificate, active]
        rw [same]
    unfold desiredState
    rw [hosts, plan]
  · rintro ⟨active, serving⟩ same
    have confd : renderConfig cfg (desiredState cfg db) =
        renderConfig cfg (desiredState cfg (db.addCertificate c)) :=
      renderConfig_eq_of_renderState (Except.ok.inj same)
    -- it serves one, and its block is in no rendering without it
    have block : ∃ t ∈ (desiredState cfg (db.addCertificate c)).defaultTls,
        t.certificate = certificateSpec cfg c := by
      have listed : c ∈ (loadCertificates (db.addCertificate c)).filter fun d =>
          servedNames (claimedNames cfg db) (loadCertificates (db.addCertificate c)) d ≠ [] := by
        refine List.mem_filter.mpr ⟨(mem_loadCertificates_add active c).mpr (Or.inr rfl), ?_⟩
        simpa using (servedNames_add_iff active _).mpr serving
      unfold desiredState
      rw [hosts]
      exact ⟨_, List.mem_map_of_mem listed, rfl⟩
    obtain ⟨t, listed, own⟩ := block
    refine renderConfig_ne_of_defaultTls listed ?_ confd.symm
    intro u member equal
    rw [own] at equal
    obtain ⟨d, listed, rfl⟩ := List.mem_map.mp member
    have stored := (loadCertificates_active (List.mem_filter.mp listed).1).1
    have fresh := fine.certificateIds
    simp only [Database.addCertificate, List.map_append, List.nodup_append, List.map_cons,
      List.map_nil] at fresh
    exact fresh.2.2 d.id (List.mem_map_of_mem stored) c.id (by simp) equal

end Added

/-! ### Text with and without a certificate -/

/-- How long a tree prints. -/
def printedLength (nodes : List Lib.Node) : Nat :=
  (printAll nodes).length

@[simp] theorem printedLength_append (left right : List Lib.Node) :
    printedLength (left ++ right) = printedLength left + printedLength right := by
  simp only [printedLength, printAll_append, String.length_append]

private theorem printedLength_cons (n : Lib.Node) (rest : List Lib.Node) :
    printedLength (n :: rest) = printedLength [n] + printedLength rest :=
  printedLength_append [n] rest

private theorem printedLength_block (lead : String) (words : List String) (body : List Lib.Node)
    (close : String) : printedLength [.block lead words body close] =
      printedLength [.block lead words [] close] + printedLength body := by
  simp only [printedLength, printAll, print, String.length_append, String.length_empty]
  omega

section Lengths

variable (cfg : Deployment)

/-! A host with a certificate has a second server block, and between them the two hold all that
the only block of a host without one does. -/

theorem length_proxyHostConf (h : ProxyHostSpec) (m : Option MaintenanceSpec)
    (c : CertificateSpec) :
    printedLength (proxyHostConf cfg { h with certificate := none } m) <
      printedLength (proxyHostConf cfg { h with certificate := some c } m) := by
  have only : ∀ x, proxyOnlyServer cfg { h with certificate := x } m = proxyOnlyServer cfg h m :=
    fun _ => rfl
  have plain : ∀ x, proxyPlainServer cfg { h with certificate := x } m = proxyPlainServer cfg h m :=
    fun _ => rfl
  have head : ∀ x, proxyTlsHead cfg { h with certificate := x } m = proxyTlsHead cfg h m :=
    fun _ => rfl
  have tail : ∀ x, proxyTlsTail cfg { h with certificate := x } = proxyTlsTail cfg h :=
    fun _ => rfl
  have geo : ∀ x, maintenanceGeo { h with certificate := x } = maintenanceGeo h := fun _ => rfl
  have server : 0 < printedLength [.block "\n\n" ["server"] [] "\n"] := by decide
  have listen : printedLength [.directive "\n    " ["listen", "80"]] ≤
      printedLength [.directive "\n    " ["listen", "443", "ssl"]] := by decide
  have bodies : printedLength (proxyOnlyServer cfg h m) ≤
      printedLength (proxyPlainServer cfg h m) + printedLength (proxyTlsHead cfg h m) +
        printedLength (proxyTlsTail cfg h) := by
    simp only [proxyOnlyServer, proxyPlainServer, proxyTlsHead, proxyTlsTail, printedLength_append,
      printedLength_cons (.directive _ _) (_ :: _)]
    omega
  simp only [proxyHostConf, only, plain, head, tail, geo, printedLength_append,
    printedLength_cons (.block _ _ _ _) (_ :: _), printedLength_block _ _ (_ ++ _),
    printedLength_block _ _ (proxyOnlyServer _ _ _), printedLength_block _ _ (proxyPlainServer _ _ _)]
  omega

theorem length_redirectionHostConf (h : RedirectionHostSpec) (c : CertificateSpec) :
    printedLength (redirectionHostConf cfg { h with certificate := none }) <
      printedLength (redirectionHostConf cfg { h with certificate := some c }) := by
  have location : ∀ x, redirectLocation { h with certificate := x } = redirectLocation h :=
    fun _ => rfl
  have server : 0 < printedLength [.block "\n\n" ["server"] [] "\n"] := by decide
  simp only [redirectionHostConf, location, printedLength_append,
    printedLength_cons (.block _ _ _ _) (_ :: _), printedLength_block _ _ (_ ++ _)]
  split
  · omega
  · simp only [printedLength_append]
    omega

theorem length_deadHostConf (h : DeadHostSpec) (c : CertificateSpec) :
    printedLength (deadHostConf cfg { h with certificate := none }) <
      printedLength (deadHostConf cfg { h with certificate := some c }) := by
  have server : 0 < printedLength [.block "\n\n" ["server"] [] "\n"] := by decide
  simp only [deadHostConf, printedLength_append,
    printedLength_cons (.block _ _ _ _) (_ :: _), printedLength_block _ _ (_ ++ _)]
  omega

/-- A stream gains the two certificate lines. -/
theorem length_streamConf (s : StreamSpec) (c : CertificateSpec) :
    printedLength (streamConf { s with certificate := none }) <
      printedLength (streamConf { s with certificate := some c }) := by
  -- what does not depend on the certificate
  obtain ⟨top, udp, log, last, shape⟩ : ∃ top udp log last, ∀ x : Option CertificateSpec,
      streamConf { s with certificate := x } = top ++ [Lib.Node.block "\n" ["server"]
        (when s.tcpForwarding [.directive "\n    " (["listen", toString s.incomingPort] ++
          if x.isSome then ["ssl"] else [])] ++ udp ++ log ++
          x.elim [] (certificateDirectives "\n\n    ") ++ last) "\n"] :=
    ⟨(streamConf s).take 2, when s.udpForwarding [.directive "\n    "
        ["listen", toString s.incomingPort, "udp"]], liveStreamLog ("s" ++ toString s.id),
      [.directive "\n    " ["proxy_pass", streamTarget s]],
      fun x => by cases x <;> rfl⟩
  have paths : 0 < printedLength (certificateDirectives "\n\n    " c) := by
    have semicolon : ";".length = 1 := by decide
    simp only [certificateDirectives, printedLength, printAll, print, String.length_append]
    omega
  have listen : printedLength (when s.tcpForwarding [.directive "\n    "
      (["listen", toString s.incomingPort] ++ [])]) ≤ printedLength (when s.tcpForwarding
      [.directive "\n    " (["listen", toString s.incomingPort] ++ ["ssl"])]) := by
    unfold when
    split
    · simp only [printedLength, printAll, print, List.cons_append, List.nil_append,
        List.append_nil, String.intercalate_cons_cons, String.intercalate_singleton,
        String.length_append]
      omega
    · exact le_refl _
  have none_ : printedLength [] = 0 := by decide
  simp only [shape, printedLength_append, printedLength_block _ _ (_ ++ _), Option.isSome_some,
    Option.isSome_none, Option.elim_some, Option.elim_none, if_true, Bool.false_eq_true, if_false,
    none_]
  omega

end Lengths

/-! ### A row that is gone -/

section Dropped

variable {cfg : Deployment} {db : Database} {c : Certificate}

/-- The certificate of an object once `i` is gone. -/
def detached (i : Id) (ref : Option Id) (certificate : Option CertificateSpec) :
    Option CertificateSpec :=
  if ref = some i then none else certificate

theorem detached_of_ne {i : Id} {ref : Option Id} (other : ref ≠ some i)
    (certificate : Option CertificateSpec) : detached i ref certificate = certificate :=
  if_neg other

private theorem related_drop (i : Id) (ref : Option Id) :
    (related (db.dropCertificate i).certificate? (setNull i ref)).map (certificateSpec cfg) =
      detached i ref ((related db.certificate? ref).map (certificateSpec cfg)) := by
  unfold setNull detached
  split
  next => rfl
  next other =>
    cases ref with
    | none => rfl
    | some j =>
      have apart : j ≠ i := fun same => other (congrArg some same)
      exact congrArg (Option.map (certificateSpec cfg)) (find?_removeAt apart)

/-! The rows that are rendered stay; one that had the certificate loses it. -/

theorem proxyHosts_drop (i : Id) : (desiredHosts cfg (db.dropCertificate i)).proxyHosts =
    (includedHosts db).map fun h => { loadedHost cfg db h with
      certificate := detached i h.certificateId (loadedHost cfg db h).certificate } := by
  have included : includedHosts (db.dropCertificate i) = (includedHosts db).map fun h =>
      { h with certificateId := setNull i h.certificateId } := by
    refine (congrArg (List.filter _) (sortedBy_filter_map db.proxyHosts (fun _ => rfl)
      fun _ => rfl)).trans ?_
    rw [List.filter_map]
    rfl
  simp only [desiredHosts, included, List.map_map]
  refine List.map_congr_left fun h _ => ?_
  simp only [Function.comp, loadedHost, proxyHostSpec, related_drop]
  rfl

theorem redirectionHosts_drop (i : Id) : loadRedirectionHosts cfg (db.dropCertificate i) =
    (sortedBy (·.id) (db.redirectionHosts.filter (·.enabled))).map fun r =>
      { redirectionHostSpec cfg db r with
        certificate := detached i r.certificateId (redirectionHostSpec cfg db r).certificate } := by
  refine (congrArg (List.map _) (sortedBy_filter_map db.redirectionHosts (fun _ => rfl)
    fun _ => rfl)).trans ?_
  rw [List.map_map]
  refine List.map_congr_left fun r _ => ?_
  simp only [Function.comp, redirectionHostSpec, related_drop]

theorem deadHosts_drop (i : Id) : loadDeadHosts cfg (db.dropCertificate i) =
    (sortedBy (·.id) (db.deadHosts.filter (·.enabled))).map fun d =>
      { deadHostSpec cfg db d with
        certificate := detached i d.certificateId (deadHostSpec cfg db d).certificate } := by
  refine (congrArg (List.map _) (sortedBy_filter_map db.deadHosts (fun _ => rfl)
    fun _ => rfl)).trans ?_
  rw [List.map_map]
  refine List.map_congr_left fun d _ => ?_
  simp only [Function.comp, deadHostSpec, related_drop]

theorem streams_drop (i : Id) : (desiredHosts cfg (db.dropCertificate i)).streams =
    (includedStreams db).map fun s => { streamSpec cfg db s with
      certificate := detached i s.certificateId (streamSpec cfg db s).certificate } := by
  have included : includedStreams (db.dropCertificate i) = (includedStreams db).map fun s =>
      { s with certificateId := setNull i s.certificateId } := by
    refine (congrArg (List.filter _) (sortedBy_filter_map db.streams (fun _ => rfl)
      fun _ => rfl)).trans ?_
    rw [List.filter_map]
    rfl
  simp only [desiredHosts, included, List.map_map]
  refine List.map_congr_left fun s _ => ?_
  simp only [Function.comp, streamSpec, related_drop]

/-- The pools stay. -/
private theorem pools_drop (i : Id) :
    (desiredHosts cfg (db.dropCertificate i)).httpUpstreams = (desiredHosts cfg db).httpUpstreams ∧
    (desiredHosts cfg (db.dropCertificate i)).streamUpstreams =
      (desiredHosts cfg db).streamUpstreams := by
  have http : httpReferences (desiredHosts cfg (db.dropCertificate i)).proxyHosts =
      httpReferences (desiredHosts cfg db).proxyHosts := by
    rw [proxyHosts_drop]
    simp only [desiredHosts, httpReferences, List.filterMap_map, List.flatMap_map,
      Function.comp_def]
  have stream : (desiredHosts cfg (db.dropCertificate i)).streams.filterMap (·.upstreamId) =
      (desiredHosts cfg db).streams.filterMap (·.upstreamId) := by
    rw [streams_drop]
    simp only [desiredHosts, List.filterMap_map, Function.comp_def]
  exact ⟨congrArg (poolsOf db) http, congrArg (poolsOf db) stream⟩

/-! Where nothing that is rendered had it, nothing changes. -/

private theorem hosts_keep {i : Id} (free : ∀ h ∈ includedHosts db, h.certificateId ≠ some i) :
    (desiredHosts cfg (db.dropCertificate i)).proxyHosts = (desiredHosts cfg db).proxyHosts := by
  rw [proxyHosts_drop]
  refine List.map_congr_left fun h included => ?_
  rw [detached_of_ne (free h included)]

private theorem redirects_keep {i : Id}
    (free : ¬∃ r ∈ db.redirectionHosts, r.enabled = true ∧ r.certificateId = some i) :
    loadRedirectionHosts cfg (db.dropCertificate i) = loadRedirectionHosts cfg db := by
  rw [redirectionHosts_drop]
  refine List.map_congr_left fun r member => ?_
  simp only [mem_sortedBy, List.mem_filter] at member
  rw [detached_of_ne fun ref => free ⟨r, member.1, member.2, ref⟩]

private theorem deads_keep {i : Id}
    (free : ¬∃ d ∈ db.deadHosts, d.enabled = true ∧ d.certificateId = some i) :
    loadDeadHosts cfg (db.dropCertificate i) = loadDeadHosts cfg db := by
  rw [deadHosts_drop]
  refine List.map_congr_left fun d member => ?_
  simp only [mem_sortedBy, List.mem_filter] at member
  rw [detached_of_ne fun ref => free ⟨d, member.1, member.2, ref⟩]

private theorem streams_keep {i : Id} (free : ¬∃ s ∈ includedStreams db, s.certificateId = some i) :
    (desiredHosts cfg (db.dropCertificate i)).streams = (desiredHosts cfg db).streams := by
  rw [streams_drop]
  refine List.map_congr_left fun s included => ?_
  rw [detached_of_ne fun ref => free ⟨s, included, ref⟩]

section Row

variable (constraints : db.Constraints) (row : c ∈ db.certificates)

include constraints row

private theorem mem_loadCertificates_drop (d : Certificate) :
    d ∈ loadCertificates db ↔
      d ∈ loadCertificates (db.dropCertificate c.id) ∨ (d = c ∧ c.status = .active) := by
  simp only [loadCertificates, Database.dropCertificate, mem_sortedBy, List.mem_filter,
    mem_removeAt, decide_eq_true_eq]
  constructor
  · rintro ⟨stored, active⟩
    by_cases same : d.id = c.id
    · have equal := List.inj_on_of_nodup_map constraints.certificateIds stored row same
      exact Or.inr ⟨equal, equal ▸ active⟩
    · exact Or.inl ⟨⟨stored, same⟩, active⟩
  · rintro (⟨⟨stored, _⟩, active⟩ | ⟨rfl, active⟩)
    · exact ⟨stored, active⟩
    · exact ⟨row, active⟩

/-- The plan without a row that serves nothing. -/
private theorem tlsPlan_drop (fine : (db.dropCertificate c.id).Constraints) (claimed : List String)
    (idle : ¬(c.status = .active ∧ servedNames claimed (loadCertificates db) c ≠ [])) :
    tlsPlan cfg (loadCertificates (db.dropCertificate c.id)) claimed =
      tlsPlan cfg (loadCertificates db) claimed := by
  have members := mem_loadCertificates_drop constraints row
  have ordered := loadCertificates_ordered constraints.certificateIds
  have ordered' := loadCertificates_ordered fine.certificateIds
  by_cases active : c.status = .active
  · refine (tlsPlan_of_idle (c := c) (fun d => ?_) ?_ cfg ordered ordered').symm
    · rw [members]
      simp only [active, and_true]
    · by_contra serving
      exact idle ⟨active, serving⟩
  · have same : loadCertificates (db.dropCertificate c.id) = loadCertificates db := by
      refine eq_of_increasing ordered' ordered fun d => ?_
      rw [members]
      simp only [active, and_false, or_false]
    rw [same]

/-- conf.d and the default directory are the same where conf.d does not name the row. -/
theorem renderConfig_drop_eq (fine : (db.dropCertificate c.id).Constraints)
    (unnamed : ¬db.NamesHttp cfg c) :
    renderConfig cfg (desiredState cfg (db.dropCertificate c.id)) =
      renderConfig cfg (desiredState cfg db) ∧
    renderDefaultSite cfg (desiredState cfg (db.dropCertificate c.id)) =
      renderDefaultSite cfg (desiredState cfg db) := by
  simp only [Database.NamesHttp, not_or] at unnamed
  obtain ⟨noHost, noRedirect, noDead, idle⟩ := unnamed
  have hosts : (desiredHosts cfg (db.dropCertificate c.id)).proxyHosts =
      (desiredHosts cfg db).proxyHosts :=
    hosts_keep fun h included ref => noHost ⟨h, included, ref⟩
  have redirects : (desiredHosts cfg (db.dropCertificate c.id)).redirectionHosts =
      (desiredHosts cfg db).redirectionHosts := redirects_keep noRedirect
  have deads : (desiredHosts cfg (db.dropCertificate c.id)).deadHosts =
      (desiredHosts cfg db).deadHosts := deads_keep noDead
  have claimed : claimedTlsNames (desiredHosts cfg (db.dropCertificate c.id)) =
      claimedTlsNames (desiredHosts cfg db) := by
    unfold claimedTlsNames
    rw [hosts, redirects, deads]
  have plan := @tlsPlan_drop cfg db c constraints row fine (claimedNames cfg db) idle
  have config : configPairs cfg (desiredState cfg (db.dropCertificate c.id)) =
      configPairs cfg (desiredState cfg db) := by
    unfold configPairs desiredState
    rw [claimed]
    unfold claimedNames at plan
    simp only [hosts, redirects, deads, plan, (pools_drop c.id).1]
    rfl
  have default : defaultPairs cfg (desiredState cfg (db.dropCertificate c.id)) =
      defaultPairs cfg (desiredState cfg db) := by
    unfold defaultPairs maintenancePairs desiredState
    simp only [hosts]
    rfl
  constructor
  · rw [renderConfig, configBodies, config]
    rfl
  · rw [renderDefaultSite, default]
    rfl

end Row

/-- The streams are the same where none of them had the certificate, and where a pool keeps
them from being rendered at all. -/
theorem renderStreamConfig_drop_eq (i : Id)
    (unnamed : ¬((∃ s ∈ includedStreams db, s.certificateId = some i) ∧ ¬StreamOnIpHash db)) :
    renderStreamConfig (desiredState cfg (db.dropCertificate i)) =
      renderStreamConfig (desiredState cfg db) := by
  have pools : (desiredState cfg (db.dropCertificate i)).streamUpstreams =
      (desiredState cfg db).streamUpstreams := (pools_drop i).2
  unfold renderStreamConfig streamBodies streamPairs
  rw [pools]
  cases looped : (desiredState cfg db).streamUpstreams.mapM renderStreamUpstream with
  | error e => rfl
  | ok upstreams =>
    have rendered : ∃ bodies, streamBodies (desiredState cfg db) = .ok bodies :=
      ⟨_, by rw [streamBodies, streamPairs, looped]; rfl⟩
    have free : ¬∃ s ∈ includedStreams db, s.certificateId = some i :=
      fun attached => unnamed ⟨attached, (streamBodies_ok_iff cfg db).mp rendered⟩
    have streams : (desiredState cfg (db.dropCertificate i)).streams =
        (desiredState cfg db).streams := streams_keep free
    rw [streams]

/-! Where something that is rendered had it, its file gets shorter. -/

section Attached

variable (constraints : db.Constraints) (fine : (db.dropCertificate c.id).Constraints)
  (row : c ∈ db.certificates)

include constraints row

/-- What the row is for an object that refers to it. -/
private theorem related_row {ref : Option Id} (own : ref = some c.id) :
    (related db.certificate? ref).map (certificateSpec cfg) = some (certificateSpec cfg c) :=
  (relatedCertificate_iff constraints.certificateIds).mpr ⟨c, row, own, rfl⟩

include fine

private theorem renderConfig_ne_of_host
    (attached : ∃ h ∈ includedHosts db, h.certificateId = some c.id) :
    renderConfig cfg (desiredState cfg db) ≠
      renderConfig cfg (desiredState cfg (db.dropCertificate c.id)) := by
  obtain ⟨h, included, ref⟩ := attached
  have secured : loadedHost cfg db h =
      { loadedHost cfg db h with certificate := some (certificateSpec cfg c) } := by
    rw [← related_row constraints row ref]
    rfl
  have after : { loadedHost cfg db h with certificate := none } ∈
      (desiredHosts cfg (db.dropCertificate c.id)).proxyHosts := by
    rw [proxyHosts_drop]
    refine List.mem_map.mpr ⟨h, included, ?_⟩
    rw [detached, if_pos ref]
  intro same
  have texts := printAll_eq_of_renderConfig (distinctSpecs_desiredState cfg constraints)
    (distinctSpecs_desiredState cfg fine) same
    (mem_configPairs.mpr (Or.inr (Or.inl
      ⟨_, List.mem_map_of_mem included, mem_renderProxyHost.mpr (Or.inl rfl)⟩)))
    (mem_configPairs.mpr (Or.inr (Or.inl ⟨_, after, mem_renderProxyHost.mpr (Or.inl rfl)⟩)))
  have shorter := length_proxyHostConf cfg (loadedHost cfg db h) (loadMaintenance db)
    (certificateSpec cfg c)
  rw [← secured] at shorter
  exact ne_of_gt shorter (congrArg String.length texts)

private theorem renderConfig_ne_of_redirect
    (attached : ∃ r ∈ db.redirectionHosts, r.enabled = true ∧ r.certificateId = some c.id) :
    renderConfig cfg (desiredState cfg db) ≠
      renderConfig cfg (desiredState cfg (db.dropCertificate c.id)) := by
  obtain ⟨r, member, enabled, ref⟩ := attached
  have listed : r ∈ sortedBy (·.id) (db.redirectionHosts.filter (·.enabled)) := by
    simpa using ⟨member, enabled⟩
  have secured : redirectionHostSpec cfg db r =
      { redirectionHostSpec cfg db r with certificate := some (certificateSpec cfg c) } := by
    rw [← related_row constraints row ref]
    rfl
  have after : { redirectionHostSpec cfg db r with certificate := none } ∈
      loadRedirectionHosts cfg (db.dropCertificate c.id) := by
    rw [redirectionHosts_drop]
    refine List.mem_map.mpr ⟨r, listed, ?_⟩
    rw [detached, if_pos ref]
  intro same
  have texts := printAll_eq_of_renderConfig (distinctSpecs_desiredState cfg constraints)
    (distinctSpecs_desiredState cfg fine) same
    (mem_configPairs.mpr (Or.inr (Or.inr (Or.inl ⟨_, List.mem_map_of_mem listed, rfl⟩))))
    (mem_configPairs.mpr (Or.inr (Or.inr (Or.inl ⟨_, after, rfl⟩))))
  have shorter := length_redirectionHostConf cfg (redirectionHostSpec cfg db r)
    (certificateSpec cfg c)
  rw [← secured] at shorter
  exact ne_of_gt shorter (congrArg String.length texts)

private theorem renderConfig_ne_of_dead
    (attached : ∃ d ∈ db.deadHosts, d.enabled = true ∧ d.certificateId = some c.id) :
    renderConfig cfg (desiredState cfg db) ≠
      renderConfig cfg (desiredState cfg (db.dropCertificate c.id)) := by
  obtain ⟨d, member, enabled, ref⟩ := attached
  have listed : d ∈ sortedBy (·.id) (db.deadHosts.filter (·.enabled)) := by
    simpa using ⟨member, enabled⟩
  have secured : deadHostSpec cfg db d =
      { deadHostSpec cfg db d with certificate := some (certificateSpec cfg c) } := by
    rw [← related_row constraints row ref]
    rfl
  have after : { deadHostSpec cfg db d with certificate := none } ∈
      loadDeadHosts cfg (db.dropCertificate c.id) := by
    rw [deadHosts_drop]
    refine List.mem_map.mpr ⟨d, listed, ?_⟩
    rw [detached, if_pos ref]
  intro same
  have texts := printAll_eq_of_renderConfig (distinctSpecs_desiredState cfg constraints)
    (distinctSpecs_desiredState cfg fine) same
    (mem_configPairs.mpr (Or.inr (Or.inr (Or.inr (Or.inl ⟨_, List.mem_map_of_mem listed, rfl⟩)))))
    (mem_configPairs.mpr (Or.inr (Or.inr (Or.inr (Or.inl ⟨_, after, rfl⟩)))))
  have shorter := length_deadHostConf cfg (deadHostSpec cfg db d) (certificateSpec cfg c)
  rw [← secured] at shorter
  exact ne_of_gt shorter (congrArg String.length texts)

omit constraints fine in
/-- The block of the default-TLS plan goes. -/
private theorem renderConfig_ne_of_serving (active : c.status = .active)
    (serving : servedNames (claimedNames cfg db) (loadCertificates db) c ≠ []) :
    renderConfig cfg (desiredState cfg db) ≠
      renderConfig cfg (desiredState cfg (db.dropCertificate c.id)) := by
  have listed : c ∈ (loadCertificates db).filter fun d =>
      servedNames (claimedNames cfg db) (loadCertificates db) d ≠ [] := by
    refine List.mem_filter.mpr ⟨?_, by simpa using serving⟩
    simpa [loadCertificates] using ⟨row, active⟩
  refine renderConfig_ne_of_defaultTls (List.mem_map_of_mem listed) fun u member same => ?_
  obtain ⟨d, inside, rfl⟩ := List.mem_map.mp member
  have stored := (loadCertificates_active (List.mem_filter.mp inside).1).1
  exact (mem_removeAt.mp stored).2 same

private theorem renderStreamConfig_ne (rendered : ¬StreamOnIpHash db)
    (attached : ∃ s ∈ includedStreams db, s.certificateId = some c.id) :
    renderStreamConfig (desiredState cfg db) ≠
      renderStreamConfig (desiredState cfg (db.dropCertificate c.id)) := by
  obtain ⟨s, included, ref⟩ := attached
  have secured : streamSpec cfg db s =
      { streamSpec cfg db s with certificate := some (certificateSpec cfg c) } := by
    rw [← related_row constraints row ref]
    rfl
  have after : { streamSpec cfg db s with certificate := none } ∈
      (desiredHosts cfg (db.dropCertificate c.id)).streams := by
    rw [streams_drop]
    refine List.mem_map.mpr ⟨s, included, ?_⟩
    rw [detached, if_pos ref]
  intro same
  obtain ⟨bodies, printed⟩ := (streamBodies_ok_iff cfg db).mpr rendered
  have files : renderStreamConfig (desiredState cfg db) = .ok bodies.text := by
    rw [renderStreamConfig, printed]
    rfl
  have texts := printAll_eq_of_renderStreamConfig (distinctSpecs_desiredState cfg constraints)
    (distinctSpecs_desiredState cfg fine) files (same ▸ files) (List.mem_map_of_mem included) after
    rfl
  have shorter := length_streamConf (streamSpec cfg db s) (certificateSpec cfg c)
  rw [← secured] at shorter
  exact ne_of_gt shorter (congrArg String.length texts)

/-- A deletion changes the rendered files exactly when they name the row. -/
theorem rendering_dropCertificate_iff :
    rendering cfg db ≠ rendering cfg (db.dropCertificate c.id) ↔
      db.NamesHttp cfg c ∨ (db.NamesStream c ∧ ¬StreamOnIpHash db) := by
  rw [rendering_ok cfg constraints, rendering_ok cfg fine]
  constructor
  · intro differ
    by_contra unnamed
    obtain ⟨noHttp, noStream⟩ := not_or.mp unnamed
    obtain ⟨config, default⟩ := renderConfig_drop_eq constraints row fine noHttp
    refine differ (congrArg Except.ok ?_)
    rw [renderState, renderState, config, default, renderStreamConfig_drop_eq c.id noStream]
  · intro named same
    have config : renderConfig cfg (desiredState cfg db) =
        renderConfig cfg (desiredState cfg (db.dropCertificate c.id)) :=
      renderConfig_eq_of_renderState (Except.ok.inj same)
    rcases named with (host | redirect | dead | ⟨active, serving⟩) | ⟨attached, rendered⟩
    · exact renderConfig_ne_of_host constraints fine row host config
    · exact renderConfig_ne_of_redirect constraints fine row redirect config
    · exact renderConfig_ne_of_dead constraints fine row dead config
    · exact renderConfig_ne_of_serving row active serving config
    · exact renderStreamConfig_ne constraints fine row rendered attached
        (congrArg Rendering.stream (Except.ok.inj same))

end Attached

end Dropped

end MegooPM
