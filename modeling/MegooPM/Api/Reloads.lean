import MegooPM.Api.Requests
import MegooPM.Nginx.AllOrNothing
import MegooPM.Nginx.Attachments

/-!
# Reloads

Each route decides on its own whether a reload follows its commit. Those that write hosts,
pools, streams, access lists and rendered settings always ask for one. The routes of pages,
certificates and the other settings do not, or only in the case of the default site, and what
they write may be rendered all the same.
-/
namespace MegooPM

open Lib

/-! ### Pages -/

section Pages

variable {cfg : Deployment} {db : Database}

/-- Every reference of a content to a page. -/
private theorem page_resolves (constraints : db.Constraints) {ref : Option Id}
    (used : (∃ h ∈ db.proxyHosts, ∃ l ∈ h.locations, l.customPageId = ref) ∨
      (∃ row ∈ db.instanceSettings, row.defaultSitePageId = ref ∨ row.crowdsecBanPageId = ref ∨
        row.maintenancePageId = ref) ∨ (∃ row ∈ db.errorPages, row.customPageId = ref)) :
    references ref CustomPage.id db.customPages = true := by
  rcases used with ⟨h, host, l, inside, rfl⟩ | ⟨row, found, rfl | rfl | rfl⟩ | ⟨row, stored, rfl⟩
  · exact constraints.locationPages h host l inside
  · exact (constraints.settingsPages row found).1
  · exact (constraints.settingsPages row found).2.1
  · exact (constraints.settingsPages row found).2.2
  · exact constraints.errorPagePages row stored

theorem rendering_addCustomPage (constraints : db.Constraints) {page : CustomPage}
    (fine : (db.addCustomPage page).Constraints) :
    rendering cfg db = rendering cfg (db.addCustomPage page) := by
  have state : desiredState cfg (db.addCustomPage page) = desiredState cfg db := by
    refine desiredState_withPages fun ref used => ?_
    have resolves := page_resolves constraints used
    cases ref with
    | none => rfl
    | some i =>
      obtain ⟨row, member, same⟩ := List.any_eq_true.mp resolves
      have lookup : (db.addCustomPage page).customPage? i = db.customPage? i :=
        find?_append_of_mem ⟨row, member, by simpa using same⟩
      exact pageHtml_congr lookup
  rw [rendering_ok cfg constraints, rendering_ok cfg fine, state]

/-- A page that is referred to cannot be deleted, so no reference led to it. -/
theorem rendering_dropCustomPage (constraints : db.Constraints) {i : Id}
    (fine : (db.dropCustomPage i).Constraints) :
    rendering cfg db = rendering cfg (db.dropCustomPage i) := by
  have state : desiredState cfg (db.dropCustomPage i) = desiredState cfg db := by
    refine desiredState_withPages fun ref used => ?_
    have resolves := page_resolves fine used
    cases ref with
    | none => rfl
    | some j =>
      obtain ⟨row, member, same⟩ := List.any_eq_true.mp resolves
      have other : j ≠ i := by
        rintro rfl
        exact (mem_removeAt.mp member).2 (by simpa using same)
      have lookup : (db.dropCustomPage i).customPage? j = db.customPage? j := find?_removeAt other
      exact pageHtml_congr lookup
  rw [rendering_ok cfg constraints, rendering_ok cfg fine, state]

/-- An edit of a page that is not the default site. -/
theorem rendering_changeCustomPage_iff (constraints : db.Constraints) {page : CustomPage}
    (row : page ∈ db.customPages) {f : CustomPage → CustomPage} (keeps : ∀ p, (f p).id = p.id)
    (fine : (db.changeCustomPage page.id f).Constraints)
    (other : isDefaultSite db page.id = false) :
    rendering cfg db ≠ rendering cfg (db.changeCustomPage page.id f) ↔
      db.ShowsPage cfg page.id page.html (f page).html := by
  have lookup : ∀ j, (db.changeCustomPage page.id f).customPage? j =
      (db.customPage? j).map fun p => if p.id = page.id then f p else p :=
    fun j => find?_updateAt keeps j
  have own : db.customPage? page.id = some page := find?_key constraints.customPageIds row
  refine rendering_withPages_iff constraints fine ?_ ?_ ?_ ?_
  · intro ref apart
    cases ref with
    | none => rfl
    | some j =>
      have read : (db.changeCustomPage page.id f).customPage? j = db.customPage? j := by
        rw [lookup]
        cases found : db.customPage? j with
        | none => rfl
        | some p =>
          have id : p.id = j := by simpa using List.find?_some found
          have differs : p.id ≠ page.id := fun same => apart (by rw [← id, same])
          rw [Option.map_some, if_neg differs]
      exact pageHtml_congr read
  · exact pageHtml_of_find own
  · have read : (db.changeCustomPage page.id f).customPage? page.id = some (f page) := by
      rw [lookup, own, Option.map_some, if_pos rfl]
    exact pageHtml_of_find read
  · intro settings found
    have differs : db.instanceSettings.any (·.defaultSitePageId = some page.id) = false := other
    rw [Option.mem_def.mp found] at differs
    simpa using differs

end Pages

/-! ### Requests -/

/-- The write leaves the rendered files alone, or a reload follows it. -/
def WriteRequest.Covered (cfg : Deployment) (db : Database) : WriteRequest → Prop
  -- the page is the default site, or is shown nowhere else with another text
  | .updateCustomPage i c => isDefaultSite db i = true ∨
    ∀ page ∈ db.customPages, page.id = i → ¬db.ShowsPage cfg i page.html (c.apply page).html
  -- the settings row is there
  | .readSettings | .updateUnrendered _ => db.instanceSettings ≠ none
  -- the new certificate takes over no name of the default site
  | .uploadCustomCertificate i name validated at_ => ∀ bundle, validated = .ok bundle →
    ¬db.WouldServe cfg (customCertificate i name bundle at_)
  -- nothing that is rendered names the certificate
  | .deleteCertificate i => ∀ c ∈ db.certificates, c.id = i →
    ¬(db.NamesHttp cfg c ∨ (db.NamesStream c ∧ ¬StreamOnIpHash db))
  | _ => True

/-- If the rendered files changed, a reload was enqueued. -/
def ReloadFollows (cfg : Deployment) (s : Store) (h : Handled) : Prop :=
  rendering cfg s.db ≠ rendering cfg h.store.db → .reloadNginxConfig ∈ h.enqueued

section Follows

variable {cfg : Deployment} {s : Store} {h : Handled}

private theorem follows_reloading {service : Except ServiceError Database}
    (done : reloading s service = .ok h) : ReloadFollows cfg s h := by
  obtain ⟨db, _, rfl⟩ := map_eq_ok done
  exact fun _ => List.mem_singleton_self _

/-- Without a reload, the files must be the same. -/
private theorem follows_iff_of_silent (silent : .reloadNginxConfig ∉ h.enqueued) :
    ReloadFollows cfg s h ↔ rendering cfg s.db = rendering cfg h.store.db := by
  constructor
  · intro follows
    by_contra differ
    exact silent (follows differ)
  · intro same differ
    exact absurd same differ

/-- A request that only reads the settings row creates it where it is missing. -/
private theorem follows_settings (constraints : s.db.Constraints) (fine : h.store.db.Constraints)
    (done : auditing s (getInstanceSettings s.db) = .ok h) :
    ReloadFollows cfg s h ↔ s.db.instanceSettings ≠ none := by
  obtain ⟨db, ran, rfl⟩ := map_eq_ok done
  rw [follows_iff_of_silent (by simp)]
  rcases getInstanceSettings_ok ran with ⟨missing, rfl, _⟩ | ⟨present, rfl⟩
  · exact iff_of_false (rendering_newSettings constraints fine missing) (not_not.mpr missing)
  · exact iff_of_true rfl present

end Follows

variable {hashApr1 : String → String} {s : Store} {r : WriteRequest} {h : Handled}

/-- A successful request whose effect on the rendered files is not followed by a reload is one
that is not covered. -/
theorem reload_follows_iff (cfg : Deployment) (constraints : s.db.Constraints)
    (done : handle hashApr1 s r = .ok h) : ReloadFollows cfg s h ↔ r.Covered cfg s.db := by
  obtain ⟨wrote, keeps⟩ := handle_wrote done
  have fine := keeps constraints
  cases r with
  | createCustomPage page =>
    have written : h.store.db = s.db.addCustomPage page := congrArg Store.db wrote
    rw [written] at fine
    refine iff_of_true (fun differ => absurd ?_ differ) trivial
    rw [written]
    exact rendering_addCustomPage constraints fine
  | updateCustomPage i c =>
    obtain ⟨db, ran, branch⟩ := bind_eq_ok done
    obtain ⟨page, found, _⟩ := bind_eq_ok ran
    have lookup : s.db.customPage? i = some page := orRaise_eq_ok found
    have row := List.mem_of_find?_eq_some lookup
    have id : page.id = i := by simpa using List.find?_some lookup
    subst id
    obtain ⟨rfl, _⟩ := updateCustomPage_ok ran
    have settings : isDefaultSite (s.db.changeCustomPage page.id c.apply) page.id =
        isDefaultSite s.db page.id := rfl
    rw [settings] at branch
    cases shown : isDefaultSite s.db page.id with
    | true =>
      rw [shown, if_pos rfl] at branch
      exact iff_of_true (follows_reloading branch) (Or.inl shown)
    | false =>
      rw [shown, if_neg (by decide)] at branch
      cases branch
      rw [follows_iff_of_silent (by simp), ← not_ne_iff,
        rendering_changeCustomPage_iff constraints row (fun p => (rfl : (c.apply p).id = p.id)) fine
          shown]
      constructor
      · intro unseen
        refine Or.inr fun other member same => ?_
        rw [List.inj_on_of_nodup_map constraints.customPageIds member row same]
        exact unseen
      · rintro (default | unseen)
        · rw [shown] at default
          cases default
        · exact unseen page row rfl
  | deleteCustomPage i =>
    have written : h.store.db = s.db.dropCustomPage i := congrArg Store.db wrote
    rw [written] at fine
    refine iff_of_true (fun differ => absurd ?_ differ) trivial
    rw [written]
    exact rendering_dropCustomPage constraints fine
  | readSettings => exact follows_settings constraints fine done
  | updateUnrendered group => exact follows_settings constraints fine done
  | uploadCustomCertificate i name validated at_ =>
    obtain ⟨bundle, rfl, _, written⟩ := wrote
    have silent : .reloadNginxConfig ∉ h.enqueued := by
      obtain ⟨_, _, rfl⟩ := map_eq_ok done
      simp
    rw [written] at fine
    rw [follows_iff_of_silent silent, written, ← not_ne_iff,
      rendering_addCertificate_iff constraints fine]
    constructor
    · rintro idle _ ⟨⟩
      exact idle
    · intro idle
      exact idle bundle rfl
  | requestLetsencryptCertificate i payload =>
    obtain ⟨dnsProvider, _, written⟩ := wrote
    rw [written] at fine
    refine iff_of_true (fun differ => ?_) trivial
    rw [written, rendering_addCertificate_iff constraints fine] at differ
    -- a pending certificate serves nothing
    cases differ.1
  | renewCertificate i =>
    have written : h.store = s := wrote
    refine iff_of_true (fun differ => absurd ?_ differ) trivial
    rw [written]
  | deleteCertificate i =>
    have written : h.store.db = s.db.dropCertificate i := congrArg Store.db wrote
    have silent : .reloadNginxConfig ∉ h.enqueued := by
      obtain ⟨_, _, rfl⟩ := map_eq_ok done
      simp
    obtain ⟨_, ran, _⟩ := map_eq_ok done
    obtain ⟨c, found, _⟩ := bind_eq_ok ran
    have lookup : s.db.certificate? i = some c := orRaise_eq_ok found
    have row := List.mem_of_find?_eq_some lookup
    have id : c.id = i := by simpa using List.find?_some lookup
    subst id
    rw [written] at fine
    rw [follows_iff_of_silent silent, written, ← not_ne_iff,
      rendering_dropCertificate_iff constraints fine row]
    constructor
    · intro unnamed other member same
      rw [List.inj_on_of_nodup_map constraints.certificateIds member row same]
      exact unnamed
    · intro unnamed
      exact unnamed c row rfl
  | _ => exact iff_of_true (follows_reloading done) trivial

/-! ### A page for a status code -/

/-- The page of the status code 404. -/
def lostPage : CustomPage where
  id := 1
  name := "lost"
  html := "lost"

def lostStore : Store where
  db := { customPages := [lostPage], instanceSettings := some {}
          errorPages := [{ code := 404, mode := .customPage, customPageId := some 1 }] }

/-- An edit of the page's name alone. -/
theorem reload_follows_rename : ∃ h : Handled,
    handle id lostStore (.updateCustomPage 1 { name := .set "gone" }) = .ok h ∧
      ReloadFollows sampleDeployment lostStore h := by
  have done : handle id lostStore (.updateCustomPage 1 { name := .set "gone" }) =
      .ok { store := { lostStore with
        db := { lostStore.db with customPages := [{ lostPage with name := "gone" }] } } } := rfl
  refine ⟨_, done, (reload_follows_iff sampleDeployment (by decide) done).mpr (Or.inr ?_)⟩
  intro page member _
  cases List.mem_singleton.mp member
  rintro (⟨differ, _⟩ | ⟨differ, _⟩ | ⟨differ, _⟩ | ⟨_, _, _, _, differ⟩) <;> exact differ rfl

/-- An edit of the document changes what visitors see, and nothing converges it. -/
theorem edited_without_reload : ∃ (s : Store) (h : Handled), s.db.Constraints ∧
    handle id s (.updateCustomPage 1 { html := .set "gone" }) = .ok h ∧
      ¬ReloadFollows sampleDeployment s h := by
  have done : handle id lostStore (.updateCustomPage 1 { html := .set "gone" }) =
      .ok { store := { lostStore with
        db := { lostStore.db with customPages := [{ lostPage with html := "gone" }] } } } := rfl
  have constraints : lostStore.db.Constraints := by decide
  refine ⟨lostStore, _, constraints, done, fun follows => ?_⟩
  have shown : lostStore.db.ShowsPage sampleDeployment 1 "lost" "gone" :=
    Or.inr (Or.inr (Or.inr ⟨_, List.mem_singleton_self _, by decide, rfl, by decide⟩))
  have differ := (@rendering_changeCustomPage_iff sampleDeployment _ constraints lostPage
    (List.mem_singleton_self _) (fun page => { page with html := "gone" }) (fun _ => rfl)
    (by decide) rfl).mpr shown
  cases follows differ

end MegooPM
