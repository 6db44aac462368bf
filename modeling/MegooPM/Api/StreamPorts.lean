import MegooPM.Api.Requests
import MegooPM.Nginx.Sockets
import MegooPM.Lib.Transition

/-!
# Ports of streams

A stream is refused the port of another stream and nothing else, so it can be given one that the
http templates, an operator's own `listen`, `nginx.conf` or the reload agent has. In a run in which
no request puts an enabled stream on such a port, and none makes a server block listen where an
enabled stream does, nginx can bind whatever it is told to.
-/
namespace MegooPM

open Lib

/-- The stream can be rendered beside the rest of the database. -/
def Stream.Spares (raw : String → List Lib.Node) (cfg : Deployment) (db : Database) (t : Stream) :
    Prop :=
  t.enabled = true → ∀ socket ∈ t.sockets, ¬(desiredState cfg db).Takes raw socket

/-- What happens to the database: a request commits, or a task that issues, renews or expires
certificates stores their rows. -/
inductive CommitEvent where
  | request (r : WriteRequest)
  | certificates (rows : List Certificate)

/-- The commit of an event. Requests run in transactions of their own, so what a service looked up
may have changed by then; the commit sets the columns that the request changes, and meets the
constraints or fails. -/
def CommitStep (s : Store) (e : CommitEvent) (s' : Store) : Prop :=
  (match e with
    | .request r => r.Wrote s s'
    | .certificates rows => s' = { s with db := { s.db with certificates := rows } }) ∧
  (s.db.Constraints → s'.db.Constraints)

/-- A request that nothing interferes with ends in such a commit. -/
theorem RequestStep.commitStep {hashApr1 : String → String} {s s' : Store} {r : WriteRequest}
    (moved : RequestStep hashApr1 s r s') : CommitStep s (.request r) s' :=
  moved.wrote

/-- A request leaves no enabled stream on a socket that is taken in the state it finds; any other
event makes no server block listen anew where an enabled stream does. -/
def CommitEvent.SparesSockets (raw : String → List Lib.Node) (cfg : Deployment) (s : Store) :
    CommitEvent → Prop
  | .request (.createStream t) => t.Spares raw cfg s.db
  | .request (.updateStream i c) => ∀ t ∈ s.db.streams, t.id = i → (c.apply t).Spares raw cfg s.db
  | e => ∀ s', CommitStep s e s' → ∀ socket, (desiredState cfg s'.db).Takes raw socket →
      (desiredState cfg s.db).Takes raw socket ∨
        ∀ t ∈ s.db.streams, t.enabled = true → socket ∉ t.sockets

section Runs

variable {raw : String → List Lib.Node} {cfg : Deployment} {s s' : Store} {e : CommitEvent}

/-- What every state of such a run satisfies. -/
structure PortsSpared (raw : String → List Lib.Node) (cfg : Deployment) (s : Store) : Prop where
  constraints : s.db.Constraints
  streams : ∀ t ∈ s.db.streams, t.Spares raw cfg s.db

theorem portsSpared_start : PortsSpared raw cfg {} where
  constraints := by constructor <;> simp
  streams _ member := absurd member List.not_mem_nil

/-- Other streams take nothing from one another's http sockets. -/
private theorem spares_streams {db : Database} {streams : List Stream} {t : Stream} :
    t.Spares raw cfg { db with streams } ↔ t.Spares raw cfg db :=
  Iff.rfl

/-- An event that is not about streams leaves their sockets where they are; a certificate that
goes takes their TLS with it. -/
private theorem streams_other (other : (∀ t, e ≠ .request (.createStream t)) ∧
      ∀ i c, e ≠ .request (.updateStream i c)) (moved : CommitStep s e s') {t : Stream}
    (member : t ∈ s'.db.streams) :
    ∃ u ∈ s.db.streams, t.enabled = u.enabled ∧ t.sockets = u.sockets := by
  obtain ⟨wrote, _⟩ := moved
  cases e with
  | certificates rows =>
    cases wrote
    exact ⟨t, member, rfl, rfl⟩
  | request r =>
    cases r
    case createStream stream => exact absurd rfl (other.1 stream)
    case updateStream i c => exact absurd rfl (other.2 i c)
    case deleteStream i =>
      cases wrote
      exact ⟨t, (mem_removeAt.mp member).1, rfl, rfl⟩
    case deleteCertificate i =>
      cases wrote
      obtain ⟨u, old, rfl⟩ := List.mem_map.mp member
      exact ⟨u, old, rfl, rfl⟩
    all_goals
      simp only [WriteRequest.Wrote] at wrote
      first
        | (subst wrote; exact ⟨t, member, rfl, rfl⟩)
        | (obtain ⟨_, rfl⟩ := wrote; exact ⟨t, member, rfl, rfl⟩)
        | (obtain ⟨_, _, rfl⟩ := wrote; exact ⟨t, member, rfl, rfl⟩)
        | (obtain ⟨_, _, _, rfl⟩ := wrote; exact ⟨t, member, rfl, rfl⟩)

private theorem streams_step (spares : e.SparesSockets raw cfg s)
    (before : ∀ t ∈ s.db.streams, t.Spares raw cfg s.db) (moved : CommitStep s e s') :
    ∀ t ∈ s'.db.streams, t.Spares raw cfg s'.db := by
  have kept (other : (∀ t, e ≠ .request (.createStream t)) ∧
      ∀ i c, e ≠ .request (.updateStream i c)) (adds : ∀ socket,
        (desiredState cfg s'.db).Takes raw socket → (desiredState cfg s.db).Takes raw socket ∨
          ∀ t ∈ s.db.streams, t.enabled = true → socket ∉ t.sockets) :
      ∀ t ∈ s'.db.streams, t.Spares raw cfg s'.db := by
    intro t member enabled socket own taken
    obtain ⟨u, old, same, sockets⟩ := streams_other other moved member
    rw [same] at enabled
    rw [sockets] at own
    rcases adds socket taken with again | apart
    · exact before u old enabled socket own again
    · exact apart u old enabled own
  cases e with
  | certificates rows => exact kept (by simp) (spares s' moved)
  | request r =>
    cases r
    case createStream stream =>
      obtain ⟨rfl, _⟩ := moved
      intro t member
      rcases List.mem_append.mp member with old | new
      · exact spares_streams.mpr (before t old)
      · rw [List.mem_singleton.mp new]
        exact spares_streams.mpr spares
    case updateStream i c =>
      obtain ⟨rfl, _⟩ := moved
      intro t member
      exact spares_streams.mpr (forall_updateAt before spares t member)
    all_goals exact kept (by simp) (spares s' moved)

theorem portsSpared_step (spared : PortsSpared raw cfg s)
    (moved : Guarded (fun s e => e.SparesSockets raw cfg s) CommitStep s e s') :
    PortsSpared raw cfg s' :=
  ⟨moved.2.2 spared.constraints, streams_step moved.1 spared.streams moved.2⟩

end Runs

/-- After any events, in any interleaving, of which none puts an enabled stream and a server block,
`nginx.conf` or the reload agent on one socket, nginx can bind: no socket of a stream is claimed
elsewhere, and none is claimed by two streams. -/
theorem sockets_apart (raw : String → List Lib.Node) (cfg : Deployment) {s : Store}
    (run : Reaches (Guarded (fun s e => CommitEvent.SparesSockets raw cfg s e) CommitStep) {} s) :
    SocketsApart raw cfg s.db := by
  have spared := run.invariant (P := PortsSpared raw cfg) (fun _ _ _ => portsSpared_step)
    portsSpared_start
  refine (socketsApart_iff raw cfg spared.constraints).mpr (Or.inr fun t included => ?_)
  obtain ⟨row, enabled, _⟩ := mem_includedStreams.mp included
  exact spared.streams t row enabled

/-! ### A stream beside a host -/

def portedStream (port : Nat) : Stream :=
  { id := 1, incomingPort := port, forwardHost := some "10.0.0.1", forwardPort := some 22 }

def plainHost : ProxyHost :=
  { id := 1, domainNames := ["app.example"], forwardHost := some "10.0.0.2", forwardPort := some 80 }

/-- The stream, and the host. -/
def streamAndHost (port : Nat) : Database :=
  { streams := [portedStream port], proxyHosts := [plainHost] }

/-- Without redirections and dead hosts, a proxy host without text of the operator's adds no
socket. -/
private theorem operatorSockets_none {raw : String → List Lib.Node} {cfg : Deployment}
    {db : Database} (proxy : ∀ h ∈ db.proxyHosts, h.advancedConfig = "")
    (redirection : db.redirectionHosts = []) (dead : db.deadHosts = []) :
    (desiredState cfg db).operatorSockets raw = [] := by
  have texts : ∀ text ∈ (desiredState cfg db).proxyHosts.map (·.advancedConfig) ++
      (desiredState cfg db).redirectionHosts.map (·.advancedConfig) ++
      (desiredState cfg db).deadHosts.map (·.advancedConfig), text = "" := by
    intro text member
    rcases List.mem_append.mp member with member | member
    · rcases List.mem_append.mp member with member | member
      · obtain ⟨spec, listed, rfl⟩ := List.mem_map.mp member
        obtain ⟨h, included, rfl⟩ := List.mem_map.mp listed
        exact proxy h (mem_includedHosts.mp included).1
      · change text ∈ (loadRedirectionHosts cfg db).map (·.advancedConfig) at member
        simp [loadRedirectionHosts, redirection] at member
    · change text ∈ (loadDeadHosts cfg db).map (·.advancedConfig) at member
      simp [loadDeadHosts, dead] at member
  rw [DesiredState.operatorSockets, List.flatMap_eq_nil_iff]
  intro text member
  rw [texts text member, operatorNodes_none]
  rfl

theorem sockets_apart_ssh :
    Reaches (Guarded (fun s e => CommitEvent.SparesSockets (fun _ => []) sampleDeployment s e)
        CommitStep) {} { db := streamAndHost 2222 } ∧
      SocketsApart (fun _ => []) sampleDeployment (streamAndHost 2222) := by
  let raw : String → List Lib.Node := fun _ => []
  have first : RequestStep id {} (.createStream (portedStream 2222))
      { db := { streams := [portedStream 2222] } } := ⟨[.reloadNginxConfig], by rfl⟩
  have second : RequestStep id { db := { streams := [portedStream 2222] } }
      (.createProxyHost plainHost) { db := streamAndHost 2222 } := ⟨[.reloadNginxConfig], by rfl⟩
  -- no fixed socket and none of the templates is on the port
  have apart : ∀ {db : Database}, db.redirectionHosts = [] → db.deadHosts = [] →
      (∀ h ∈ db.proxyHosts, h.advancedConfig = "") → ∀ socket ∈ (portedStream 2222).sockets,
      ¬(desiredState sampleDeployment db).Takes raw socket := by
    intro db redirection dead proxy socket own taken
    rw [DesiredState.Takes, operatorSockets_none proxy redirection dead] at taken
    have socket : socket = (.tcp, "2222") := List.mem_singleton.mp own
    rcases taken with fixed | ⟨tls, _⟩ | operator
    · revert fixed
      rw [socket]
      decide
    · exact absurd (socket.symm.trans tls) (by decide)
    · cases operator
  have spares : CommitEvent.SparesSockets raw sampleDeployment {}
      (.request (.createStream (portedStream 2222))) :=
    fun _ => apart rfl rfl (fun _ member => absurd member List.not_mem_nil)
  have beside : CommitEvent.SparesSockets raw sampleDeployment
      { db := { streams := [portedStream 2222] } } (.request (.createProxyHost plainHost)) := by
    intro s' moved socket taken
    cases moved.1
    refine Or.inr fun t member _ own => ?_
    rw [List.mem_singleton.mp member] at own
    exact apart rfl rfl (fun h member => by rw [List.mem_singleton.mp member]; rfl) socket own taken
  have run : Reaches (Guarded (fun s e => CommitEvent.SparesSockets raw sampleDeployment s e)
      CommitStep) {} { db := streamAndHost 2222 } :=
    ((Reaches.refl _ _).tail ⟨spares, first.commitStep⟩).tail ⟨beside, second.commitStep⟩
  exact ⟨run, sockets_apart raw sampleDeployment run⟩

/-- A stream on TCP port 80 is accepted, and so is a host beside it: both contexts listen there. -/
theorem sockets_collide :
    Reaches (RequestStep id) {} { db := streamAndHost 80 } ∧
      ¬SocketsApart (fun _ => []) sampleDeployment (streamAndHost 80) := by
  have first : RequestStep id {} (.createStream (portedStream 80))
      { db := { streams := [portedStream 80] } } := ⟨[.reloadNginxConfig], by rfl⟩
  have second : RequestStep id { db := { streams := [portedStream 80] } }
      (.createProxyHost plainHost) { db := streamAndHost 80 } := ⟨[.reloadNginxConfig], by rfl⟩
  refine ⟨((Reaches.refl _ _).tail first).tail second, fun apart => ?_⟩
  have empty : PortsSpared (fun _ => []) sampleDeployment {} := portsSpared_start
  have constraints : (streamAndHost 80).Constraints :=
    second.wrote.2 (first.wrote.2 empty.constraints)
  have included : portedStream 80 ∈ includedStreams (streamAndHost 80) :=
    mem_includedStreams.mpr ⟨List.mem_singleton_self _, rfl, rfl⟩
  rcases (socketsApart_iff _ sampleDeployment constraints).mp apart with raises | clear
  · obtain ⟨t, kept, i, own, _⟩ := raises
    have only := List.mem_singleton.mp (mem_includedStreams.mp kept).1
    rw [only] at own
    cases own
  · exact clear _ included (.tcp, "80") (by decide) (Or.inl (by decide))

end MegooPM
