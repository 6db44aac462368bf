import MegooPM.Nginx.RendererFacts
import MegooPM.Nginx.Desired
import Std.Data.String.ToInt

/-!
# The rendered files of a database

A rendered directory is a dictionary keyed by file name. For the state the loader
returns, no two objects share a name with different contents, so every file that is
assigned is there, and what a directory says can be read object by object.
-/
namespace MegooPM

open Lib Lib.Node

/-! ### What a directory says -/

/-- The argument words of every directive called `name` in the server blocks of a file. -/
def serverDirectives (name : String) (nodes : List Lib.Node) : List (List String) :=
  (Lib.Node.blocks "server" nodes).flatMap fun block => allDirectives name block.2

/-- The same over all files of a directory. -/
def Bodies.directives (name : String) (bodies : Bodies) : List (List String) :=
  bodies.toList.flatMap fun file => serverDirectives name file.2.tree

/-- The top-level blocks called `name` in some file. -/
def Bodies.blocks (name : String) (bodies : Bodies) : List (List String × List Lib.Node) :=
  bodies.toList.flatMap fun file => Lib.Node.blocks name file.2.tree

/-- No name is assigned two contents. -/
def Functional (pairs : List (String × FileBody)) : Prop :=
  ∀ name a b, (name, a) ∈ pairs → (name, b) ∈ pairs → a = b

theorem mem_toList_ofPairs {pairs : List (String × FileBody)} (functional : Functional pairs)
    (file : String × FileBody) : file ∈ (Dict.ofPairs pairs).toList ↔ file ∈ pairs := by
  obtain ⟨name, body⟩ := file
  rw [Std.ExtTreeMap.mem_toList_iff_getElem?_eq_some]
  constructor
  · exact Dict.mem_of_get_ofPairs pairs name body
  · intro member
    exact Dict.get_ofPairs pairs name body member fun w other => functional name w body other member

theorem mem_directives {pairs : List (String × FileBody)} (functional : Functional pairs)
    {name : String} {args : List String} :
    args ∈ Bodies.directives name (Dict.ofPairs pairs) ↔
      ∃ file ∈ pairs, args ∈ serverDirectives name file.2.tree := by
  simp only [Bodies.directives, List.mem_flatMap, mem_toList_ofPairs functional]

theorem mem_blocks {pairs : List (String × FileBody)} (functional : Functional pairs)
    {name : String} {block : List String × List Lib.Node} :
    block ∈ Bodies.blocks name (Dict.ofPairs pairs) ↔
      ∃ file ∈ pairs, block ∈ Lib.Node.blocks name file.2.tree := by
  simp only [Bodies.blocks, List.mem_flatMap, mem_toList_ofPairs functional]

/-! ### File names -/

theorem toString_id_injective {i j : Id} (same : toString i = toString j) : i = j :=
  Int.repr_injective same

/-- A name of a family determines the id. -/
theorem fileName_injective {head tail : String} {i j : Id}
    (same : head ++ toString i ++ tail = head ++ toString j ++ tail) : i = j := by
  have texts := congrArg String.toList same
  simp only [String.toList_append, List.append_assoc] at texts
  have middle := List.append_cancel_right (List.append_cancel_left texts)
  exact toString_id_injective (String.toList_inj.mp middle)

/-- The letters that tell the families of files apart. -/
def nameTag (name : String) : List Char :=
  name.toList.take 11

theorem nameTag_append {head : String} (long : 11 ≤ head.toList.length)
    (middle tail : String) : nameTag (head ++ middle ++ tail) = head.toList.take 11 := by
  rw [String.append_assoc, nameTag, String.toList_append, List.take_append_of_le_length long]

/-- Every name of a list of files has one of the tags. -/
def Tagged (tags : List String) (pairs : List (String × FileBody)) : Prop :=
  ∀ file ∈ pairs, nameTag file.1 ∈ tags.map String.toList

theorem functional_append {left right : List (String × FileBody)} {tags tags' : List String}
    (first : Functional left) (second : Functional right) (tagged : Tagged tags left)
    (tagged' : Tagged tags' right) (apart : ∀ tag ∈ tags, tag ∉ tags') :
    Functional (left ++ right) := by
  have clash : ∀ name a b, (name, a) ∈ left → (name, b) ∈ right → a = b := by
    intro name a b inLeft inRight
    obtain ⟨tag, known, same⟩ := List.mem_map.mp (tagged _ inLeft)
    obtain ⟨tag', known', same'⟩ := List.mem_map.mp (tagged' _ inRight)
    have equal : tag = tag' := String.toList_inj.mp (same.trans same'.symm)
    rw [equal] at known
    exact absurd known' (apart tag' known)
  intro name a b hereA hereB
  rcases List.mem_append.mp hereA with inLeft | inRight
  · rcases List.mem_append.mp hereB with inLeft' | inRight'
    · exact first name a b inLeft inLeft'
    · exact clash name a b inLeft inRight'
  · rcases List.mem_append.mp hereB with inLeft' | inRight'
    · exact (clash name b a inLeft' inRight).symm
    · exact second name a b inRight inRight'

theorem tagged_append {left right : List (String × FileBody)} {tags tags' : List String}
    (tagged : Tagged tags left) (tagged' : Tagged tags' right) :
    Tagged (tags ++ tags') (left ++ right) := by
  intro file member
  rw [List.map_append]
  rcases List.mem_append.mp member with inLeft | inRight
  · exact List.mem_append_left _ (tagged file inLeft)
  · exact List.mem_append_right _ (tagged' file inRight)

/-- A family of files, one for each item. -/
theorem functional_family {α : Type} {items : List α} {id : α → Id} {head tail : String}
    {body : α → FileBody} (unique : ∀ a ∈ items, ∀ b ∈ items, id a = id b → a = b) :
    Functional (items.map fun a => (head ++ toString (id a) ++ tail, body a)) := by
  intro name x y first second
  obtain ⟨a, memberA, sameA⟩ := List.mem_map.mp first
  obtain ⟨b, memberB, sameB⟩ := List.mem_map.mp second
  cases sameA
  obtain ⟨names, rfl⟩ := Prod.mk.inj sameB
  rw [unique b memberB a memberA (fileName_injective names)]

theorem tagged_family {α : Type} {items : List α} {id : α → Id} {head tail tag : String}
    {body : α → FileBody} (long : 11 ≤ head.toList.length) (same : head.toList.take 11 = tag.toList) :
    Tagged [tag] (items.map fun a => (head ++ toString (id a) ++ tail, body a)) := by
  intro file member
  obtain ⟨a, _, rfl⟩ := List.mem_map.mp member
  rw [List.map_singleton, List.mem_singleton, nameTag_append long, same]

/-! ### One object per id -/

/-- No two specs of a kind share an id. -/
def UniqueIds {α : Type} (id : α → Id) (items : List α) : Prop :=
  ∀ a ∈ items, ∀ b ∈ items, id a = id b → a = b

/-- What makes the files of a state distinct. -/
structure DistinctSpecs (state : DesiredState) : Prop where
  httpUpstreams : UniqueIds UpstreamSpec.id state.httpUpstreams
  proxyHosts : UniqueIds ProxyHostSpec.id state.proxyHosts
  accessLists : UniqueIds AccessListSpec.id (state.proxyHosts.filterMap (·.accessList))
  redirectionHosts : UniqueIds RedirectionHostSpec.id state.redirectionHosts
  deadHosts : UniqueIds DeadHostSpec.id state.deadHosts
  defaultTls : UniqueIds (·.certificate.id) state.defaultTls
  streamUpstreams : UniqueIds UpstreamSpec.id state.streamUpstreams
  streams : UniqueIds StreamSpec.id state.streams

theorem mem_renderProxyHost {cfg : Deployment} {m : Option MaintenanceSpec} {h : ProxyHostSpec}
    {file : String × FileBody} : file ∈ renderProxyHost cfg m h ↔
      file = (proxyFilename h.id, .conf (proxyHostConf cfg h m)) ∨
      ∃ a, h.accessList = some a ∧ a.authUsers.isEmpty = false ∧
        file = (htpasswdFilename a.id, .plain (renderHtpasswd a)) := by
  simp only [renderProxyHost, List.mem_cons]
  cases h.accessList with
  | none => simp
  | some a => by_cases none : a.authUsers = [] <;> simp [none]

theorem nameTag_proxyFilename (i : Id) : nameTag (proxyFilename i) =
    "megoopm-pro".toList := by
  rw [proxyFilename_eq, nameTag_append (by decide)]
  decide

theorem nameTag_htpasswdFilename (i : Id) :
    nameTag (htpasswdFilename i) = "megoopm-acc".toList := by
  rw [htpasswdFilename_eq, nameTag_append (by decide)]
  decide

theorem nameTag_defaultTlsFilename (i : Id) :
    nameTag (defaultTlsFilename i) = "megoopm-def".toList := by
  have parts : defaultTlsFilename i = "megoopm-default-tls-" ++ toString i ++ ".conf" := rfl
  rw [parts, nameTag_append (by decide)]
  decide

private theorem functional_proxy {cfg : Deployment} {state : DesiredState}
    (distinct : DistinctSpecs state) :
    Functional (state.proxyHosts.flatMap (renderProxyHost cfg state.maintenance)) := by
  have apart : ∀ i j, proxyFilename i ≠ htpasswdFilename j := by
    intro i j same
    have tags := congrArg nameTag same
    rw [nameTag_proxyFilename, nameTag_htpasswdFilename] at tags
    revert tags
    decide
  intro name x y first second
  obtain ⟨h, member, first⟩ := List.mem_flatMap.mp first
  obtain ⟨g, member', second⟩ := List.mem_flatMap.mp second
  rcases mem_renderProxyHost.mp first with same | ⟨a, has, _, same⟩ <;>
    rcases mem_renderProxyHost.mp second with same' | ⟨b, has', _, same'⟩ <;>
    obtain ⟨rfl, rfl⟩ := Prod.mk.inj same <;> obtain ⟨names, rfl⟩ := Prod.mk.inj same'
  · rw [distinct.proxyHosts h member g member' (fileName_injective names)]
  · exact absurd names (apart _ _)
  · exact absurd names.symm (apart _ _)
  · have inside := List.mem_filterMap.mpr ⟨h, member, has⟩
    have inside' := List.mem_filterMap.mpr ⟨g, member', has'⟩
    rw [distinct.accessLists a inside b inside' (fileName_injective names)]

private theorem tagged_proxy (cfg : Deployment) {state : DesiredState} :
    Tagged ["megoopm-pro", "megoopm-acc"]
      (state.proxyHosts.flatMap (renderProxyHost cfg state.maintenance)) := by
  intro file member
  obtain ⟨h, _, inside⟩ := List.mem_flatMap.mp member
  rcases mem_renderProxyHost.mp inside with rfl | ⟨a, _, _, rfl⟩
  · rw [nameTag_proxyFilename]
    decide
  · rw [nameTag_htpasswdFilename]
    decide

private theorem tagged_upstreams (pools : List UpstreamSpec) :
    Tagged ["megoopm-ups"] (pools.map renderUpstream) :=
  tagged_family (by decide) (by decide)

private theorem tagged_redirects (cfg : Deployment) (hosts : List RedirectionHostSpec) :
    Tagged ["megoopm-red"] (hosts.map fun r =>
      (redirectFilename r.id, FileBody.conf (redirectionHostConf cfg r))) :=
  tagged_family (by decide) (by decide)

private theorem tagged_deads (cfg : Deployment) (hosts : List DeadHostSpec) :
    Tagged ["megoopm-dea"] (hosts.map fun d =>
      (deadFilename d.id, FileBody.conf (deadHostConf cfg d))) :=
  tagged_family (by decide) (by decide)

private theorem tagged_defaultTls (cfg : Deployment) (blocks : List DefaultTlsSpec) :
    Tagged ["megoopm-def"] (blocks.map fun t =>
      (defaultTlsFilename t.certificate.id, FileBody.conf (defaultTlsConf cfg t))) :=
  tagged_family (by decide) (by decide)

private theorem tagged_proxyPools (cfg : Deployment) (state : DesiredState) :
    Tagged ["megoopm-ups", "megoopm-pro", "megoopm-acc"] (state.httpUpstreams.map renderUpstream ++
      state.proxyHosts.flatMap (renderProxyHost cfg state.maintenance)) :=
  tagged_append (tagged_upstreams _) (tagged_proxy cfg)

/-- Everything in conf.d but the default-TLS blocks. -/
theorem tagged_configHosts (cfg : Deployment) (state : DesiredState) :
    Tagged ["megoopm-ups", "megoopm-pro", "megoopm-acc", "megoopm-red", "megoopm-dea"]
      (state.httpUpstreams.map renderUpstream ++
      state.proxyHosts.flatMap (renderProxyHost cfg state.maintenance) ++
      state.redirectionHosts.map (fun r => (redirectFilename r.id, .conf (redirectionHostConf cfg r))) ++
      state.deadHosts.map (fun d => (deadFilename d.id, .conf (deadHostConf cfg d)))) :=
  tagged_append (tagged_append (tagged_proxyPools cfg state) (tagged_redirects cfg _))
    (tagged_deads cfg _)

/-- A default-TLS file is the file of a block. -/
theorem mem_defaultTls_of_configPairs {cfg : Deployment} {state : DesiredState} {i : Id}
    {body : FileBody} (member : (defaultTlsFilename i, body) ∈ configPairs cfg state) :
    ∃ t ∈ state.defaultTls, t.certificate.id = i ∧ body = .conf (defaultTlsConf cfg t) := by
  rcases List.mem_append.mp member with hosts | blocks
  · -- the files of the hosts are named differently
    have tagged : nameTag (defaultTlsFilename i) ∈ _ := tagged_configHosts cfg state _ hosts
    rw [nameTag_defaultTlsFilename] at tagged
    exact absurd tagged (by decide)
  · obtain ⟨t, inside, same⟩ := List.mem_map.mp blocks
    have names : defaultTlsFilename t.certificate.id = defaultTlsFilename i := congrArg Prod.fst same
    exact ⟨t, inside, fileName_injective names, (congrArg Prod.snd same).symm⟩

theorem functional_configPairs (cfg : Deployment) {state : DesiredState}
    (distinct : DistinctSpecs state) : Functional (configPairs cfg state) := by
  have first := functional_append (functional_family distinct.httpUpstreams)
    (functional_proxy distinct) (tagged_upstreams _) (tagged_proxy cfg) (by decide)
  have second := functional_append first (functional_family distinct.redirectionHosts)
    (tagged_proxyPools cfg state) (tagged_redirects cfg _) (by decide)
  have third := functional_append second (functional_family distinct.deadHosts)
    (tagged_append (tagged_proxyPools cfg state) (tagged_redirects cfg _)) (tagged_deads cfg _)
    (by decide)
  exact functional_append third (functional_family distinct.defaultTls)
    (tagged_configHosts cfg state) (tagged_defaultTls cfg _) (by decide)

theorem functional_streamPairs {state : DesiredState} (distinct : DistinctSpecs state) :
    Functional (state.streamUpstreams.map renderUpstream ++
      state.streams.map fun s => (streamFilename s.id, FileBody.conf (streamConf s))) :=
  functional_append (functional_family distinct.streamUpstreams) (functional_family distinct.streams)
    (tagged_family (by decide) (show _ = "megoopm-ups".toList by decide))
    (tagged_family (by decide) (show _ = "megoopm-str".toList by decide)) (by decide)

/-- What a directory holds under a name that is assigned once. -/
theorem get_text_ofPairs {pairs : List (String × FileBody)} (functional : Functional pairs)
    {name : String} {body : FileBody} (member : (name, body) ∈ pairs) :
    (Bodies.text (Dict.ofPairs pairs))[name]? = some body.text := by
  rw [get_text, Dict.get_ofPairs pairs name body member fun w other =>
    functional name w body other member]
  rfl

/-- Two states that render the same conf.d print the same text under every name. -/
theorem printAll_eq_of_renderConfig {cfg : Deployment} {state state' : DesiredState}
    (distinct : DistinctSpecs state) (distinct' : DistinctSpecs state')
    (same : renderConfig cfg state = renderConfig cfg state') {name : String}
    {nodes nodes' : List Lib.Node} (member : (name, .conf nodes) ∈ configPairs cfg state)
    (member' : (name, .conf nodes') ∈ configPairs cfg state') : printAll nodes = printAll nodes' := by
  have texts := congrArg (fun d : Files => d[name]?) same
  simp only [renderConfig, configBodies,
    get_text_ofPairs (functional_configPairs cfg distinct) member,
    get_text_ofPairs (functional_configPairs cfg distinct') member', Option.some_inj] at texts
  have inner := congrArg String.toList texts
  simp only [FileBody.text, String.toList_append] at inner
  exact String.toList_inj.mp (List.append_cancel_right inner)

/-- The same for a stream. -/
theorem printAll_eq_of_renderStreamConfig {state state' : DesiredState}
    (distinct : DistinctSpecs state) (distinct' : DistinctSpecs state') {files : Files}
    (rendered : renderStreamConfig state = .ok files)
    (rendered' : renderStreamConfig state' = .ok files) {s s' : StreamSpec}
    (member : s ∈ state.streams) (member' : s' ∈ state'.streams) (id : s.id = s'.id) :
    printAll (streamConf s) = printAll (streamConf s') := by
  obtain ⟨_, bodies, rfl⟩ := map_eq_ok rendered
  obtain ⟨_, listed, rfl⟩ := map_eq_ok bodies
  obtain ⟨_, bodies', same⟩ := map_eq_ok rendered'
  obtain ⟨_, listed', rfl⟩ := map_eq_ok bodies'
  have texts := congrArg (fun d : Files => d[streamFilename s.id]?) same
  rw [streamPairs_ok listed, streamPairs_ok listed'] at texts
  have found := get_text_ofPairs (functional_streamPairs distinct)
    (List.mem_append_right _ (List.mem_map_of_mem member))
  have found' := get_text_ofPairs (functional_streamPairs distinct')
    (List.mem_append_right _ (List.mem_map_of_mem member'))
  rw [← id] at found'
  simp only [found, found', Option.some_inj] at texts
  have inner := congrArg String.toList texts
  simp only [FileBody.text, String.toList_append] at inner
  exact (String.toList_inj.mp (List.append_cancel_right inner)).symm

/-! ### The loaded state -/

theorem uniqueIds_of_nodup {α : Type} {id : α → Id} {items : List α} (ids : (items.map id).Nodup) :
    UniqueIds id items :=
  fun _ a _ b same => List.inj_on_of_nodup_map ids a b same

private theorem uniqueIds_map {α β : Type} {id : α → Id} {id' : β → Id} {items : List α}
    {f : α → β} (unique : UniqueIds id items) (same : ∀ a, id' (f a) = id a) :
    UniqueIds id' (items.map f) := by
  intro x memberX y memberY equal
  obtain ⟨a, member, rfl⟩ := List.mem_map.mp memberX
  obtain ⟨b, member', rfl⟩ := List.mem_map.mp memberY
  rw [same, same] at equal
  rw [unique a member b member' equal]

private theorem uniqueIds_sub {α : Type} {id : α → Id} {items kept : List α}
    (unique : UniqueIds id items) (sub : ∀ a ∈ kept, a ∈ items) : UniqueIds id kept :=
  fun a member b member' => unique a (sub a member) b (sub b member')

private theorem uniqueIds_poolsOf (db : Database) (refs : List Id) :
    UniqueIds UpstreamSpec.id (poolsOf db refs) := by
  intro a memberA b memberB same
  obtain ⟨i, _, rfl⟩ := mem_poolsOf.mp memberA
  obtain ⟨j, _, rfl⟩ := mem_poolsOf.mp memberB
  rw [poolSpec_id, poolSpec_id] at same
  rw [same]

private theorem accessList?_id {db : Database} {i : Id} {a : AccessList}
    (found : db.accessList? i = some a) : a.id = i := by
  have holds := List.find?_some found
  simpa using holds

private theorem uniqueIds_accessLists (cfg : Deployment) (db : Database) (hosts : List ProxyHost) :
    UniqueIds AccessListSpec.id ((hosts.map (loadedHost cfg db)).filterMap (·.accessList)) := by
  have source : ∀ a ∈ (hosts.map (loadedHost cfg db)).filterMap (·.accessList),
      ∃ row, db.accessList? a.id = some row ∧ a = accessListSpec row := by
    intro a member
    obtain ⟨_, inside, has⟩ := List.mem_filterMap.mp member
    obtain ⟨h, _, rfl⟩ := List.mem_map.mp inside
    obtain ⟨row, found, rfl⟩ := Option.map_eq_some_iff.mp
      (show (related db.accessList? h.accessListId).map accessListSpec = some a from has)
    obtain ⟨i, _, found⟩ := Option.bind_eq_some_iff.mp found
    have same := accessList?_id found
    subst same
    exact ⟨row, found, rfl⟩
  intro a memberA b memberB same
  obtain ⟨row, found, rfl⟩ := source a memberA
  obtain ⟨row', found', rfl⟩ := source b memberB
  rw [same, found'] at found
  cases found
  rfl

theorem distinctSpecs_desiredState (cfg : Deployment) {db : Database}
    (constraints : db.Constraints) : DistinctSpecs (desiredState cfg db) where
  httpUpstreams := uniqueIds_poolsOf db _
  proxyHosts := by
    refine uniqueIds_map (uniqueIds_sub (uniqueIds_of_nodup constraints.proxyHostIds) ?_)
      fun h => rfl
    exact fun h member => (mem_includedHosts.mp member).1
  accessLists := uniqueIds_accessLists cfg db (includedHosts db)
  redirectionHosts := by
    refine uniqueIds_map (uniqueIds_sub (uniqueIds_of_nodup constraints.redirectionHostIds) ?_)
      fun r => rfl
    intro r member
    simp only [mem_sortedBy, List.mem_filter] at member
    exact member.1
  deadHosts := by
    refine uniqueIds_map (uniqueIds_sub (uniqueIds_of_nodup constraints.deadHostIds) ?_)
      fun d => rfl
    intro d member
    simp only [mem_sortedBy, List.mem_filter] at member
    exact member.1
  defaultTls := by
    refine uniqueIds_map (uniqueIds_sub (uniqueIds_of_nodup constraints.certificateIds) ?_)
      fun c => rfl
    intro c member
    exact (loadCertificates_active (List.mem_filter.mp member).1).1
  streamUpstreams := uniqueIds_poolsOf db _
  streams := by
    refine uniqueIds_map (uniqueIds_sub (uniqueIds_of_nodup constraints.streamIds) ?_)
      fun s => rfl
    exact fun s member => (mem_includedStreams.mp member).1

/-! ### Renderings -/

/-- What the three render functions return for one state. -/
structure Rendering where
  confd : Files
  stream : Except ValueError Files
  default : Files

def renderState (cfg : Deployment) (state : DesiredState) : Rendering where
  confd := renderConfig cfg state
  stream := renderStreamConfig state
  default := renderDefaultSite cfg state

theorem renderConfig_eq_of_renderState {cfg : Deployment} {state state' : DesiredState}
    (same : renderState cfg state = renderState cfg state') :
    renderConfig cfg state = renderConfig cfg state' :=
  (Rendering.mk.inj same).1

/-- The rendered file sets of the content of a database. -/
def rendering (cfg : Deployment) (db : Database) : Except KeyError Rendering :=
  (loadDesiredState cfg db).map (renderState cfg)

theorem rendering_ok (cfg : Deployment) {db : Database} (constraints : db.Constraints) :
    rendering cfg db = .ok (renderState cfg (desiredState cfg db)) := by
  rw [rendering, loadDesiredState_ok cfg constraints]
  rfl

end MegooPM
