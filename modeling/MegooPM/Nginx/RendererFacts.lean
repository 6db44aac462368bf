import MegooPM.Nginx.Sync
import MegooPM.Lib.Raising

/-!
# Rendered names

Every file the renderer emits is managed, and which assignments a rendered
directory is made of.
-/
namespace MegooPM

open Lib

/-! ### Printing keeps the names -/

theorem get_text (bodies : Bodies) (name : String) :
    bodies.text[name]? = (bodies[name]?).map FileBody.text := by
  simp only [Bodies.text, Std.ExtTreeMap.getElem?_map]

/-- What is read under a rendered name was assigned to it. -/
theorem mem_pairs_of_get_text {pairs : List (String × FileBody)} {name content : String}
    (found : (Bodies.text (Dict.ofPairs pairs))[name]? = some content) :
    ∃ body, (name, body) ∈ pairs ∧ body.text = content := by
  rw [get_text, Option.map_eq_some_iff] at found
  obtain ⟨body, stored, printed⟩ := found
  exact ⟨body, Dict.mem_of_get_ofPairs pairs name body stored, printed⟩

/-- A rendered name has a file. -/
theorem get_text_isSome {pairs : List (String × FileBody)} {name : String} {body : FileBody}
    (member : (name, body) ∈ pairs) :
    ∃ content, (Bodies.text (Dict.ofPairs pairs))[name]? = some content := by
  obtain ⟨stored, found⟩ := Dict.get_ofPairs_isSome pairs name body member
  exact ⟨stored.text, by rw [get_text, found]; rfl⟩

/-! ### The managed prefix -/

/-- The file is one the engine will recognise as its own. -/
def HasManagedName (file : String × FileBody) : Prop :=
  startsWith file.1 defaultManagedPrefix = true

/-- A name built from a literal that carries the prefix. -/
private theorem managed_of_parts (head middle tail : String)
    (starts : startsWith head defaultManagedPrefix = true) :
    startsWith (head ++ middle ++ tail) defaultManagedPrefix = true :=
  startsWith_append (startsWith_append starts middle) tail

private theorem renderUpstream_managed (u : UpstreamSpec) : HasManagedName (renderUpstream u) :=
  managed_of_parts "megoopm-upstream-" _ _ (by decide)

private theorem renderProxyHost_managed (cfg : Deployment) (m : Option MaintenanceSpec)
    (h : ProxyHostSpec) (file : String × FileBody) (member : file ∈ renderProxyHost cfg m h) :
    HasManagedName file := by
  simp only [renderProxyHost, List.mem_cons] at member
  rcases member with rfl | member
  · exact managed_of_parts "megoopm-proxy-" _ _ (by decide)
  · split at member
    · split at member
      · cases member
      · rw [List.mem_singleton] at member
        subst member
        exact managed_of_parts "megoopm-access-" _ _ (by decide)
    · cases member

private theorem configPairs_managed (cfg : Deployment) (state : DesiredState)
    (file : String × FileBody) (member : file ∈ configPairs cfg state) : HasManagedName file := by
  simp only [configPairs, List.mem_append, List.mem_map, List.mem_flatMap] at member
  rcases member with (((⟨u, _, rfl⟩ | ⟨h, _, inside⟩) | ⟨r, _, rfl⟩) | ⟨d, _, rfl⟩) | ⟨t, _, rfl⟩
  · exact renderUpstream_managed u
  · exact renderProxyHost_managed cfg _ h file inside
  · exact managed_of_parts "megoopm-redirect-" _ _ (by decide)
  · exact managed_of_parts "megoopm-dead-" _ _ (by decide)
  · exact managed_of_parts "megoopm-default-tls-" _ _ (by decide)

/-! ### Streams -/

private theorem renderStreamUpstream_ok (u : UpstreamSpec) (file : String × FileBody)
    (ran : renderStreamUpstream u = .ok file) : file = renderUpstream u := by
  unfold renderStreamUpstream at ran
  split at ran
  · cases ran
  · cases ran
    rfl

/-- The assignments of the stream files, when no pool balances by `ip_hash`. -/
theorem streamPairs_ok {state : DesiredState} {pairs : List (String × FileBody)}
    (ran : streamPairs state = .ok pairs) :
    pairs = state.streamUpstreams.map renderUpstream ++
      state.streams.map fun s => (streamFilename s.id, FileBody.conf (streamConf s)) := by
  obtain ⟨upstreams, rendered, ran⟩ := bind_eq_ok ran
  cases ran
  rw [eq_map_of_mapM_ok renderStreamUpstream_ok rendered]

private theorem streamPairs_managed {state : DesiredState} {pairs : List (String × FileBody)}
    (ran : streamPairs state = .ok pairs) (file : String × FileBody) (member : file ∈ pairs) :
    HasManagedName file := by
  rw [streamPairs_ok ran, List.mem_append, List.mem_map, List.mem_map] at member
  rcases member with ⟨u, _, rfl⟩ | ⟨s, _, rfl⟩
  · exact renderUpstream_managed u
  · exact managed_of_parts "megoopm-stream-" _ _ (by decide)

/-- What a stream rendering is printed from. -/
theorem renderStreamConfig_ok {state : DesiredState} {files : Files}
    (ran : renderStreamConfig state = .ok files) :
    ∃ pairs, streamPairs state = .ok pairs ∧ files = Bodies.text (Dict.ofPairs pairs) := by
  obtain ⟨bodies, built, printed⟩ := map_eq_ok ran
  obtain ⟨pairs, listed, assigned⟩ := map_eq_ok built
  exact ⟨pairs, listed, by rw [← printed, ← assigned]⟩

/-! ### The default directory -/

private theorem defaultSitePairs_managed (cfg : Deployment) (site : Option DefaultSiteSpec)
    (file : String × FileBody) (member : file ∈ defaultSitePairs cfg site) :
    HasManagedName file := by
  cases site with
  | none => cases member
  | some site =>
    simp only [defaultSitePairs, List.mem_append, List.mem_cons, List.not_mem_nil, or_false]
      at member
    rcases member with (rfl | rfl) | html
    · show startsWith defaultSiteConf _ = true
      decide
    · show startsWith defaultSiteBody _ = true
      decide
    · have named : file.1 = defaultSiteHtml := by
        split at html <;> simp_all
      unfold HasManagedName
      rw [named]
      decide

private theorem banPairs_managed (cfg : Deployment) (ban : Option BanPageSpec)
    (file : String × FileBody) (member : file ∈ banPairs cfg ban) : HasManagedName file := by
  have named : file.1 = banPageHtml := by
    unfold banPairs at member
    split at member
    · cases member
    · split at member
      · cases member
      all_goals
        split at member
        · cases member
        · rw [List.mem_singleton] at member
          rw [member]
  unfold HasManagedName
  rw [named]
  decide

private theorem maintenancePairs_managed (cfg : Deployment) (state : DesiredState)
    (file : String × FileBody) (member : file ∈ maintenancePairs cfg state) :
    HasManagedName file := by
  unfold maintenancePairs at member
  split at member
  · rw [List.mem_singleton] at member
    subst member
    show startsWith maintenanceHtml _ = true
    decide
  · cases member

private theorem errorPairs_managed (cfg : Deployment) (pages : List ErrorPageSpec)
    (file : String × FileBody) (member : file ∈ errorPairs cfg pages) : HasManagedName file := by
  simp only [errorPairs, List.mem_append, List.mem_map, List.mem_singleton] at member
  rcases member with ⟨code, _, rfl⟩ | rfl
  · exact managed_of_parts "megoopm-error-" _ _ (by decide)
  · show startsWith errorsConf _ = true
    decide

private theorem defaultPairs_managed (cfg : Deployment) (state : DesiredState)
    (file : String × FileBody) (member : file ∈ defaultPairs cfg state) : HasManagedName file := by
  simp only [defaultPairs, List.mem_append, List.mem_flatMap] at member
  rcases member with (((site | ⟨h, _, location⟩) | error) | ban) | maintenance
  · exact defaultSitePairs_managed cfg _ file site
  · obtain ⟨l, _, rfl⟩ := List.mem_map.mp location
    exact managed_of_parts "megoopm-location-" _ _ (by decide)
  · exact errorPairs_managed cfg _ file error
  · exact banPairs_managed cfg _ file ban
  · exact maintenancePairs_managed cfg state file maintenance

/-! ### All directories -/

private theorem named_text {pairs : List (String × FileBody)}
    (managed : ∀ file ∈ pairs, HasManagedName file) :
    Named defaultManagedPrefix (Bodies.text (Dict.ofPairs pairs)) := by
  intro name content found
  obtain ⟨body, member, _⟩ := mem_pairs_of_get_text found
  exact managed _ member

private theorem named_empty (pre : String) : Named pre ∅ := by
  intro name content found
  simp at found

theorem named_renderConfig (cfg : Deployment) (state : DesiredState) :
    Named defaultManagedPrefix (renderConfig cfg state) :=
  named_text (configPairs_managed cfg state)

theorem named_renderStreamConfig {state : DesiredState} {files : Files}
    (ran : renderStreamConfig state = .ok files) : Named defaultManagedPrefix files := by
  obtain ⟨pairs, listed, rfl⟩ := renderStreamConfig_ok ran
  exact named_text (streamPairs_managed listed)

theorem named_renderDefaultSite (cfg : Deployment) (state : DesiredState) :
    Named defaultManagedPrefix (renderDefaultSite cfg state) :=
  named_text (defaultPairs_managed cfg state)

/-- Every rendered name carries the managed prefix. -/
theorem named_renderTargets {cfg : Deployment} {o : ApplyOptions} {state : DesiredState}
    {desired : DirName → Files} (rendered : renderTargets cfg o state = .ok desired)
    (d : DirName) : Named defaultManagedPrefix (desired d) := by
  obtain ⟨stream, listed, rendered⟩ := bind_eq_ok rendered
  cases rendered
  cases d with
  | confd => exact named_renderConfig cfg state
  | stream =>
    show Named _ stream
    cases given : o.streamDir with
    | true =>
      rw [given] at listed
      exact named_renderStreamConfig listed
    | false =>
      rw [given] at listed
      cases listed
      exact named_empty _
  | default =>
    show Named _ (if o.defaultDir then renderDefaultSite cfg state else ∅)
    split
    · exact named_renderDefaultSite cfg state
    · exact named_empty _

/-- The include of the error pages is always rendered. -/
theorem errorsConf_rendered (cfg : Deployment) (state : DesiredState) :
    ∃ content, (renderDefaultSite cfg state)[errorsConf]? = some content := by
  have member : (errorsConf, FileBody.conf (errorsTemplate cfg errorCodes)) ∈
      defaultPairs cfg state := by
    simp [defaultPairs, errorPairs]
  exact get_text_isSome member

end MegooPM
