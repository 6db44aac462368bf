import MegooPM.Services.Hosts
import MegooPM.Services.AccessLists
import MegooPM.Services.Pages
import MegooPM.Services.Certificates

/-!
# Write requests

The routes that change what is rendered, or could: each calls one service and then
enqueues tasks. `handle` is a request from its payload to the tasks it enqueues after the
commit; `WriteRequest.write` is what a request that succeeds has written.
-/
namespace MegooPM

open Lib

/-- A request that passed its schema, with the ids the rows it adds are given. -/
inductive WriteRequest where
  -- routes/upstreams.py
  | createUpstream (pool : Upstream)
  | updateUpstream (upstreamId : Id) (changes : UpstreamChanges)
  | deleteUpstream (upstreamId : Id)
  | addBackend (upstreamId : Id) (backend : UpstreamBackend)
  | updateBackend (upstreamId backendId : Id) (changes : BackendChanges)
  | removeBackend (upstreamId backendId : Id)
  -- routes/proxy_hosts.py
  | createProxyHost (host : ProxyHost)
  | updateProxyHost (hostId : Id) (changes : ProxyHostChanges)
  | deleteProxyHost (hostId : Id)
  -- routes/redirection_hosts.py
  | createRedirectionHost (host : RedirectionHost)
  | updateRedirectionHost (hostId : Id) (changes : RedirectionHostChanges)
  | deleteRedirectionHost (hostId : Id)
  -- routes/dead_hosts.py
  | createDeadHost (host : DeadHost)
  | updateDeadHost (hostId : Id) (changes : DeadHostChanges)
  | deleteDeadHost (hostId : Id)
  -- routes/streams.py
  | createStream (stream : Stream)
  | updateStream (streamId : Id) (changes : StreamChanges)
  | deleteStream (streamId : Id)
  -- routes/access_lists.py
  | createAccessList (list : AccessList) (authUsers : List AuthUserIn)
  | updateAccessList (accessListId : Id) (changes : AccessListChanges)
  | deleteAccessList (accessListId : Id)
  | addAuthUser (accessListId : Id) (user : AuthUserIn)
  | setAuthPassword (accessListId userId : Id) (password : String)
  | removeAuthUser (accessListId userId : Id)
  | addClientRule (accessListId : Id) (rule : AccessListClient)
  | updateClientRule (accessListId ruleId : Id) (changes : ClientRuleChanges)
  | removeClientRule (accessListId ruleId : Id)
  -- routes/custom_pages.py
  | createCustomPage (page : CustomPage)
  | updateCustomPage (pageId : Id) (changes : CustomPageChanges)
  | deleteCustomPage (pageId : Id)
  -- routes/settings.py
  | readSettings
  | updateDefaultSite (mode : DefaultSiteMode) (redirectUrl : Option String) (pageId : Option Id)
  | updateBanPage (mode : CrowdSecBanMode) (pageId : Option Id)
  | updateMaintenance (mode : MaintenancePageMode) (pageId : Option Id) (retryAfterMinutes : Int)
  | updateUnrendered (group : SettingsGroup)
  | replaceErrorPages (rows : List ErrorPageUpdate)
  -- routes/certificates.py
  | uploadCustomCertificate (id : Id) (name : String)
      (validated : Except String ValidatedCertificate) (uploadedAt : String)
  | requestLetsencryptCertificate (id : Id) (payload : LetsEncryptRequest)
  | renewCertificate (certId : Id)
  | deleteCertificate (certId : Id)

/-- What a request hands to the workers. -/
inductive TaskName where
  | reloadNginxConfig
  | issueCertificate (certId : Id)
  | renewCertificate (certId : Id)
  deriving DecidableEq, Repr

/-- What a successful request leaves: the committed content, and the tasks enqueued after
the commit. -/
structure Handled where
  store : Store
  enqueued : List TaskName := []
  deriving DecidableEq, Repr

/-- Whether the default site currently serves a page (`_is_default_site`). -/
def isDefaultSite (db : Database) (pageId : Id) : Bool :=
  db.instanceSettings.any (·.defaultSitePageId = some pageId)

/-- A service that changes the database, followed by `after_config_write`. -/
def reloading (s : Store) (service : Except ServiceError Database) : Except ServiceError Handled :=
  service.map fun db => { store := { s with db }, enqueued := [.reloadNginxConfig] }

/-- A service that changes the database, followed by the audit entry alone. -/
def auditing (s : Store) (service : Except ServiceError Database) : Except ServiceError Handled :=
  service.map fun db => { store := { s with db } }

section Handle

variable (hashApr1 : String → String)

def handle (s : Store) : WriteRequest → Except ServiceError Handled
  | .createUpstream pool => reloading s (createUpstream s.db pool)
  | .updateUpstream i c => reloading s (updateUpstream s.db i c)
  | .deleteUpstream i => reloading s (deleteUpstream s.db i)
  | .addBackend i b => reloading s (addBackend s.db i b)
  | .updateBackend i b c => reloading s (updateBackend s.db i b c)
  | .removeBackend i b => reloading s (removeBackend s.db i b)
  | .createProxyHost h => reloading s (createProxyHost s.db h)
  | .updateProxyHost i c => reloading s (updateProxyHost s.db i c)
  | .deleteProxyHost i => reloading s (deleteProxyHost s.db i)
  | .createRedirectionHost h => reloading s (createRedirectionHost s.db h)
  | .updateRedirectionHost i c => reloading s (updateRedirectionHost s.db i c)
  | .deleteRedirectionHost i => reloading s (deleteRedirectionHost s.db i)
  | .createDeadHost h => reloading s (createDeadHost s.db h)
  | .updateDeadHost i c => reloading s (updateDeadHost s.db i c)
  | .deleteDeadHost i => reloading s (deleteDeadHost s.db i)
  | .createStream t => reloading s (createStream s.db t)
  | .updateStream i c => reloading s (updateStream s.db i c)
  | .deleteStream i => reloading s (deleteStream s.db i)
  | .createAccessList a users =>
    reloading s (createAccessList (AuthUserIn.hashed hashApr1) s.db a users)
  | .updateAccessList i c =>
    reloading s (updateAccessList (AuthUserIn.hashed hashApr1) s.db i c)
  | .deleteAccessList i => reloading s (deleteAccessList s.db i)
  | .addAuthUser i user =>
    reloading s (addAuthUser (AuthUserIn.hashed hashApr1) s.db i user)
  | .setAuthPassword i u password => reloading s (setAuthPassword hashApr1 s.db i u password)
  | .removeAuthUser i u => reloading s (removeAuthUser s.db i u)
  | .addClientRule i rule => reloading s (addClientRule s.db i rule)
  | .updateClientRule i r c => reloading s (updateClientRule s.db i r c)
  | .removeClientRule i r => reloading s (removeClientRule s.db i r)
  | .createCustomPage page => auditing s (createCustomPage s.db page)
  | .updateCustomPage i c => do
    let db ← updateCustomPage s.db i c
    -- the settings are read again, after the commit
    if isDefaultSite db i then reloading s (.ok db) else auditing s (.ok db)
  | .deleteCustomPage i => auditing s (deleteCustomPage s.db i)
  | .readSettings => auditing s (getInstanceSettings s.db)
  | .updateDefaultSite mode url page => reloading s (updateDefaultSite s.db mode url page)
  | .updateBanPage mode page => reloading s (updateBanPage s.db mode page)
  | .updateMaintenance mode page retry => reloading s (updateMaintenance s.db mode page retry)
  | .updateUnrendered group => auditing s (updateUnrendered s.db group)
  | .replaceErrorPages rows => reloading s (replaceErrorPages s.db rows)
  | .uploadCustomCertificate i name validated at_ =>
    (createCustomCertificate s i name validated at_).map fun store => { store }
  | .requestLetsencryptCertificate i payload =>
    (createLetsencryptCertificate s i payload).map fun store =>
      { store, enqueued := [.issueCertificate i] }
  | .renewCertificate i => do
    let _ ← orRaise (s.db.certificate? i) (ServiceError.notFound .certificate i)
    return { store := s, enqueued := [.renewCertificate i] }
  | .deleteCertificate i => (deleteCertificate s i).map fun store => { store }

end Handle

/-! ### What a request writes -/

/-- What a successful request has written. Of a change inside an access list it only says
which list it is in. -/
def WriteRequest.Wrote (s s' : Store) : WriteRequest → Prop
  | .createUpstream pool => s' = { s with db := s.db.addUpstream pool }
  | .updateUpstream i c => s' = { s with db := s.db.changeUpstream i c.apply }
  | .deleteUpstream i => s' = { s with db := s.db.dropUpstream i }
  | .addBackend i b => s' = { s with db := s.db.changeUpstream i (Upstream.addBackend b) }
  | .updateBackend i b c => s' = { s with db := s.db.changeUpstream i (Upstream.changeBackend b c) }
  | .removeBackend i b => s' = { s with db := s.db.changeUpstream i (Upstream.dropBackend b) }
  | .createProxyHost h => s' = { s with db := s.db.addProxyHost h }
  | .updateProxyHost i c => s' = { s with db := s.db.changeProxyHost i c.apply }
  | .deleteProxyHost i => s' = { s with db := s.db.dropProxyHost i }
  | .createRedirectionHost h => s' = { s with db := s.db.addRedirectionHost h }
  | .updateRedirectionHost i c => s' = { s with db := s.db.changeRedirectionHost i c.apply }
  | .deleteRedirectionHost i => s' = { s with db := s.db.dropRedirectionHost i }
  | .createDeadHost h => s' = { s with db := s.db.addDeadHost h }
  | .updateDeadHost i c => s' = { s with db := s.db.changeDeadHost i c.apply }
  | .deleteDeadHost i => s' = { s with db := s.db.dropDeadHost i }
  | .createStream t => s' = { s with db := s.db.addStream t }
  | .updateStream i c => s' = { s with db := s.db.changeStream i c.apply }
  | .deleteStream i => s' = { s with db := s.db.dropStream i }
  | .createAccessList _ _ => ∃ row, s' = { s with db := s.db.addAccessList row }
  | .deleteAccessList i => s' = { s with db := s.db.dropAccessList i }
  | .updateAccessList i _ | .addAuthUser i _ | .setAuthPassword i _ _ | .removeAuthUser i _
  | .addClientRule i _ | .updateClientRule i _ _ | .removeClientRule i _ =>
    ∃ f, s' = { s with db := s.db.changeAccessList i f }
  | .createCustomPage page => s' = { s with db := s.db.addCustomPage page }
  | .updateCustomPage i c => s' = { s with db := s.db.changeCustomPage i c.apply }
  | .deleteCustomPage i => s' = { s with db := s.db.dropCustomPage i }
  | .readSettings | .updateUnrendered _ => s' = { s with db := s.db.setSettings s.db.settings }
  | .updateDefaultSite _ _ _ | .updateBanPage _ _ | .updateMaintenance _ _ _ =>
    ∃ row, s' = { s with db := s.db.setSettings row }
  | .replaceErrorPages rows => s' = { s with db := s.db.setErrorPages rows }
  | .uploadCustomCertificate i name validated at_ => ∃ bundle, validated = .ok bundle ∧
    s.certificateSeq < i ∧
    s' = { db := s.db.addCertificate (customCertificate i name bundle at_)
           material := i :: s.material, certificateSeq := i }
  | .requestLetsencryptCertificate i payload => ∃ dnsProvider, s.certificateSeq < i ∧
    s' = { s with db := s.db.addCertificate (pendingCertificate i payload dnsProvider)
                  certificateSeq := i }
  | .renewCertificate _ => s' = s
  | .deleteCertificate i => s' = { s with db := s.db.dropCertificate i
                                          material := s.material.filter (· ≠ i) }

/-- A service with one outcome, whether a reload follows it or not. -/
private theorem wrote_target {s : Store} {h : Handled} {service : Except ServiceError Database}
    {target : Database} (spec : ∀ db', service = .ok db' → db' = target ∧ db'.Constraints)
    (done : reloading s service = .ok h ∨ auditing s service = .ok h) :
    h.store = { s with db := target } ∧ (s.db.Constraints → h.store.db.Constraints) := by
  rcases done with done | done
  all_goals
    obtain ⟨db', ran, rfl⟩ := map_eq_ok done
    obtain ⟨rfl, fine⟩ := spec db' ran
    exact ⟨rfl, fun _ => fine⟩

/-- A change inside an access list. -/
private theorem wrote_list {s : Store} {h : Handled} {service : Except ServiceError Database}
    {i : Id} (spec : ∀ db', service = .ok db' → ∃ f, db' = s.db.changeAccessList i f ∧ db'.Constraints)
    (done : reloading s service = .ok h) :
    (∃ f, h.store = { s with db := s.db.changeAccessList i f }) ∧
      (s.db.Constraints → h.store.db.Constraints) := by
  obtain ⟨db', ran, rfl⟩ := map_eq_ok done
  obtain ⟨f, rfl, fine⟩ := spec db' ran
  exact ⟨⟨f, rfl⟩, fun _ => fine⟩

/-- The settings row after it has been read. -/
theorem getInstanceSettings_wrote {db db' : Database} (done : getInstanceSettings db = .ok db') :
    db' = db.setSettings db.settings ∧ (db.Constraints → db'.Constraints) := by
  rcases getInstanceSettings_ok done with ⟨missing, rfl, fine⟩ | ⟨present, rfl⟩
  · refine ⟨?_, fun _ => fine⟩
    simp [Database.settings, missing]
  · refine ⟨?_, id⟩
    obtain ⟨row, found⟩ := Option.ne_none_iff_exists'.mp present
    cases db'
    cases found
    rfl

variable {hashApr1 : String → String} {s : Store} {r : WriteRequest} {h : Handled}

/-- A request that succeeds has written what it is for, and the content it leaves meets the
constraints. -/
theorem handle_wrote (done : handle hashApr1 s r = .ok h) :
    r.Wrote s h.store ∧ (s.db.Constraints → h.store.db.Constraints) := by
  cases r with
  | createUpstream pool => exact wrote_target (fun _ => createUpstream_ok) (Or.inl done)
  | updateUpstream i c => exact wrote_target (fun _ => updateUpstream_ok) (Or.inl done)
  | deleteUpstream i => exact wrote_target (fun _ => deleteUpstream_ok) (Or.inl done)
  | addBackend i b => exact wrote_target (fun _ => addBackend_ok) (Or.inl done)
  | updateBackend i b c => exact wrote_target (fun _ => updateBackend_ok) (Or.inl done)
  | removeBackend i b => exact wrote_target (fun _ => removeBackend_ok) (Or.inl done)
  | createProxyHost host => exact wrote_target (fun _ => createProxyHost_ok) (Or.inl done)
  | updateProxyHost i c => exact wrote_target (fun _ => updateProxyHost_ok) (Or.inl done)
  | deleteProxyHost i => exact wrote_target (fun _ => deleteProxyHost_ok) (Or.inl done)
  | createRedirectionHost host => exact wrote_target (fun _ => createRedirectionHost_ok) (Or.inl done)
  | updateRedirectionHost i c => exact wrote_target (fun _ => updateRedirectionHost_ok) (Or.inl done)
  | deleteRedirectionHost i => exact wrote_target (fun _ => deleteRedirectionHost_ok) (Or.inl done)
  | createDeadHost host => exact wrote_target (fun _ => createDeadHost_ok) (Or.inl done)
  | updateDeadHost i c => exact wrote_target (fun _ => updateDeadHost_ok) (Or.inl done)
  | deleteDeadHost i => exact wrote_target (fun _ => deleteDeadHost_ok) (Or.inl done)
  | createStream t => exact wrote_target (fun _ => createStream_ok) (Or.inl done)
  | updateStream i c => exact wrote_target (fun _ => updateStream_ok) (Or.inl done)
  | deleteStream i => exact wrote_target (fun _ => deleteStream_ok) (Or.inl done)
  | createAccessList a users =>
    obtain ⟨db, ran, rfl⟩ := map_eq_ok done
    obtain ⟨row, rfl, fine⟩ := createAccessList_ok _ ran
    exact ⟨⟨row, rfl⟩, fun _ => fine⟩
  | updateAccessList i c => exact wrote_list (fun _ => updateAccessList_ok _) done
  | deleteAccessList i => exact wrote_target (fun _ => deleteAccessList_ok) (Or.inl done)
  | addAuthUser i user => exact wrote_list (fun _ => addAuthUser_ok _) done
  | setAuthPassword i u password => exact wrote_list (fun _ => setAuthPassword_ok) done
  | removeAuthUser i u => exact wrote_list (fun _ => removeAuthUser_ok) done
  | addClientRule i rule => exact wrote_list (fun _ => addClientRule_ok) done
  | updateClientRule i u c => exact wrote_list (fun _ => updateClientRule_ok) done
  | removeClientRule i u => exact wrote_list (fun _ => removeClientRule_ok) done
  | createCustomPage page => exact wrote_target (fun _ => createCustomPage_ok) (Or.inr done)
  | updateCustomPage i c =>
    obtain ⟨db, ran, done⟩ := bind_eq_ok done
    obtain ⟨written, fine⟩ := updateCustomPage_ok ran
    -- a page that is served reloads, another does not
    have same : ∀ db', Except.ok (ε := ServiceError) db = .ok db' →
        db' = s.db.changeCustomPage i c.apply ∧ db'.Constraints := by
      rintro _ ⟨⟩
      exact ⟨written, fine⟩
    split at done
    next => exact wrote_target same (Or.inl done)
    next => exact wrote_target same (Or.inr done)
  | deleteCustomPage i => exact wrote_target (fun _ => deleteCustomPage_ok) (Or.inr done)
  | readSettings =>
    obtain ⟨db, ran, rfl⟩ := map_eq_ok done
    obtain ⟨rfl, fine⟩ := getInstanceSettings_wrote ran
    exact ⟨rfl, fine⟩
  | updateDefaultSite mode url page =>
    have written := wrote_target (fun _ => updateSettings_ok) (Or.inl done)
    exact ⟨⟨_, written.1⟩, written.2⟩
  | updateBanPage mode page =>
    have written := wrote_target (fun _ => updateSettings_ok) (Or.inl done)
    exact ⟨⟨_, written.1⟩, written.2⟩
  | updateMaintenance mode page retry =>
    have written := wrote_target (fun _ => updateSettings_ok) (Or.inl done)
    exact ⟨⟨_, written.1⟩, written.2⟩
  | updateUnrendered group =>
    obtain ⟨db, ran, rfl⟩ := map_eq_ok done
    obtain ⟨rfl, fine⟩ := getInstanceSettings_wrote ran
    exact ⟨rfl, fine⟩
  | replaceErrorPages rows => exact wrote_target (fun _ => replaceErrorPages_ok) (Or.inl done)
  | uploadCustomCertificate i name validated at_ =>
    obtain ⟨s', ran, rfl⟩ := map_eq_ok done
    obtain ⟨bundle, valid, fresh, fine, written⟩ := createCustomCertificate_ok ran
    exact ⟨⟨bundle, valid, fresh, written⟩, fun _ => fine⟩
  | requestLetsencryptCertificate i payload =>
    obtain ⟨s', ran, rfl⟩ := map_eq_ok done
    obtain ⟨provider, fresh, fine, written⟩ := createLetsencryptCertificate_ok ran
    exact ⟨⟨provider, fresh, written⟩, fun _ => fine⟩
  | renewCertificate i =>
    obtain ⟨_, _, done⟩ := bind_eq_ok done
    cases done
    exact ⟨rfl, id⟩
  | deleteCertificate i =>
    obtain ⟨s', ran, rfl⟩ := map_eq_ok done
    obtain ⟨fine, written⟩ := deleteCertificate_ok ran
    exact ⟨written, fun _ => fine⟩

/-- A run of the API takes one successful request after another; a request that fails
commits nothing. -/
def RequestStep (hashApr1 : String → String) (s : Store) (r : WriteRequest) (s' : Store) : Prop :=
  ∃ tasks, handle hashApr1 s r = .ok { store := s', enqueued := tasks }

theorem RequestStep.wrote {s s' : Store} (moved : RequestStep hashApr1 s r s') :
    r.Wrote s s' ∧ (s.db.Constraints → s'.db.Constraints) := by
  obtain ⟨_, done⟩ := moved
  exact handle_wrote done

end MegooPM
