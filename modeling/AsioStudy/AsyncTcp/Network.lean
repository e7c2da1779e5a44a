import AsioStudy.AsyncTcpClient.Liveness
import AsioStudy.AsyncTcpClient.Responses
import AsioStudy.AsyncTcpServer.Liveness
import AsioStudy.Core.Joint
import AsioStudy.Core.Pipe

/-!
# AsioStudy.AsyncTcp.Network

The multi-threaded `AsyncTCPClient` and the asynchronous TCP server, connected with each other.
Both are as they are by themselves; a completion now says what the other side and the network
have made of the operation.

The sessions of the client connect to the one server. The system completes the connections and
queues them, and the acceptor takes them from the queue in their order. In both directions of a
connection the bytes go out in portions while the `async_write` is pending, so the other side may
read them before the write completes.
-/

namespace AsioStudy.AsyncTcp

open AsyncTcpClient (SessionId Session HandlerPc)
open AsyncTcpServer (Service service)

abbrev ClientState := AsyncTcpClient.State
abbrev ClientAction := AsyncTcpClient.Action

abbrev ServerState := AsyncServer.State AsyncTcpServer.Op AsyncTcpServer.Point Service
abbrev ServerAction := AsyncServer.Action Unit

/-- What lies between the client and the server. -/
structure Net where
  /-- From the client to the server, by the session. -/
  request : SessionId → Pipe
  /-- From the server to the client. -/
  response : SessionId → Pipe
  /-- The connections that are made and not yet accepted. -/
  backlog : List SessionId
  /-- The sessions whose connections the acceptor has taken, in this order. -/
  accepted : List SessionId

namespace Net

def new : Net := ⟨fun _ => .new, fun _ => .new, [], []⟩

def setRequest (net : Net) (S : SessionId) (p : Pipe) : Net :=
  { net with request := Function.update net.request S p }

def setResponse (net : Net) (S : SessionId) (p : Pipe) : Net :=
  { net with response := Function.update net.response S p }

end Net

inductive Event
  /-- A step of the client other than the completion of an operation. -/
  | client (a : ClientAction)
  /-- A step of the server other than the completion of an operation. -/
  | server (a : ServerAction)
  /-- `async_connect` of a session completes. -/
  | connect (S : SessionId) (ec : ErrorCode)
  /-- `async_accept` completes. -/
  | accept (i : Nat) (ec : ErrorCode)
  /-- A portion of the request goes out. -/
  | sendRequest (S : SessionId) (portion : Bytes)
  /-- `async_write` of a session completes. -/
  | requestSent (S : SessionId) (ec : ErrorCode)
  /-- `async_read_until` of the `j`-th service completes. -/
  | readRequest (j i : Nat) (received : Bytes) (ec : ErrorCode)
  /-- A portion of the response goes out. -/
  | sendResponse (j : Nat) (portion : Bytes)
  /-- `async_write` of the `j`-th service completes. -/
  | responseSent (j i : Nat) (ec : ErrorCode)
  /-- `async_read_until` of a session completes. -/
  | readResponse (S : SessionId) (received : Bytes) (ec : ErrorCode)

/-- The completion of an operation of the client. -/
def completesClient : ClientAction → Bool
  | .complete _ _ _ _ => true
  | _ => false

def completesServer : ServerAction → Bool
  | .accept _ _ | .service _ (.complete _ _ _) => true
  | _ => false

/-- What the client takes of an event. -/
def Event.left : Event → Option ClientAction
  | .client a => some a
  | .connect S ec => some (.complete S .connect ec [])
  | .requestSent S ec => some (.complete S .write ec [])
  | .readResponse S received ec => some (.complete S .read ec received)
  | _ => none

/-- What the server takes of an event. -/
def Event.right : Event → Option ServerAction
  | .server a => some a
  | .accept i ec => some (.accept i ec)
  | .readRequest j i received ec => some (.service j (.complete i ec received))
  | .responseSent j i ec => some (.service j (.complete i ec []))
  | _ => none

/-- The acceptor listens. -/
def listening (v : ServerState) : Prop := v.pc ≠ .idle ∧ v.closed = false

instance (v : ServerState) : Decidable (listening v) := inferInstanceAs (Decidable (_ ∧ _))

/-- The handler is behind `m_sock.shutdown` in `onRequestComplete`. -/
def pastShutdown : HandlerPc → Bool
  | .lockActive | .eraseEntry | .unlockActive | .report | .callback _ => true
  | _ => false

/-- The session has shut its socket down. -/
def disconnected (x : Session) : Prop :=
  x.callbacks ≠ [] ∨ pastShutdown (x.pc .connect) = true ∨ pastShutdown (x.pc .write) = true ∨
    pastShutdown (x.pc .read) = true

instance (x : Session) : Decidable (disconnected x) := inferInstanceAs (Decidable (_ ∨ _))

/-- The service of the session is deleted, and its socket closed with it. -/
def socketClosed (v : ServerState) (net : Net) (S : SessionId) : Prop :=
  ∃ j < v.services.length, net.accepted[j]? = some S ∧
    ∀ x ∈ v.services[j]?, x.service.deleted = 1

instance (v : ServerState) (net : Net) (S : SessionId) : Decidable (socketClosed v net S) :=
  inferInstanceAs (Decidable (∃ j < v.services.length, _))

/-- How `async_read_until` may complete on a connection: with a line, at the end of a stream
without one, or with any other error. -/
def ReadsUntil (p : Pipe) (closed : Prop) (received : Bytes) (ec : ErrorCode) : Prop :=
  received <+: p.inFlight ∧ (ec.value = 0 → LF ∈ received) ∧
    (ec = .eof → closed ∧ received = p.inFlight ∧ LF ∉ received)

instance (p : Pipe) (closed : Prop) [Decidable closed] (received : Bytes) (ec : ErrorCode) :
    Decidable (ReadsUntil p closed received ec) :=
  inferInstanceAs (Decidable (_ ∧ _))

/-- What an event does to the network, if the client `c`, the server `v` and the network allow
it. -/
def Net.step (c : ClientState) (v : ServerState) (net : Net) : Event → Option Net
  | .client a => if completesClient a then none else some net
  | .server a => if completesServer a then none else some net
  | .connect S ec =>
      if ec.value ≠ 0 then some net
      else if listening v then some { net with backlog := net.backlog ++ [S] }
      else none
  | .accept _ ec =>
      if ec.value ≠ 0 then some net
      else net.backlog.head?.map fun S =>
        { net with backlog := net.backlog.tail, accepted := net.accepted ++ [S] }
  | .sendRequest S portion =>
      if (c.session S).pc .write = .pending ∧ portion ≠ [] ∧
          (net.request S).sent ++ portion <+: (c.session S).m_request then
        some (net.setRequest S ((net.request S).write portion))
      else none
  | .requestSent S ec =>
      if ec.value = 0 → (net.request S).sent = (c.session S).m_request then some net else none
  | .readRequest j i received ec =>
      net.accepted[j]?.bind fun S => v.services[j]?.bind fun x =>
        if x.service.pending[i]? = some .onRequestReceived ∧
            ReadsUntil (net.request S) (disconnected (c.session S)) received ec then
          some (net.setRequest S ((net.request S).take received.length))
        else none
  | .sendResponse j portion =>
      net.accepted[j]?.bind fun S => v.services[j]?.bind fun x =>
        if .onResponseSent ∈ x.service.pending ∧ portion ≠ [] ∧
            (net.response S).sent ++ portion <+: x.service.data.m_response then
          some (net.setResponse S ((net.response S).write portion))
        else none
  | .responseSent j i ec =>
      net.accepted[j]?.bind fun S => v.services[j]?.bind fun x =>
        if x.service.pending[i]? = some .onResponseSent ∧
            (ec.value = 0 → (net.response S).sent = x.service.data.m_response) then some net
        else none
  | .readResponse S received ec =>
      if ReadsUntil (net.response S) (socketClosed v net S) received ec then
        some (net.setResponse S ((net.response S).take received.length))
      else none

/-- The client and the server with the network between them. The client may run any number of
handlers and goes on after its `close`; `Admitted` in `Liveness.lean` tells the events of one with
its threads that is not closed. -/
def network (thread_pool_size : Nat) : TransitionSystem (JointState ClientState ServerState Net) Event :=
  Joint.system (L := AsyncTcpClient.client) (R := AsyncServer.machine service thread_pool_size)
    ⟨Event.left, Event.right, .new, Net.step⟩

variable {thread_pool_size : Nat} {s s' : JointState ClientState ServerState Net} {e : Event}
  {c : ClientState} {v : ServerState} {net net' : Net} {S T : SessionId} {p : Pipe}

namespace Net

@[simp] theorem setRequest_request :
    (net.setRequest S p).request T = if T = S then p else net.request T := by
  simp [setRequest, Function.update_apply]

@[simp] theorem setRequest_frame :
    (net.setRequest S p).response = net.response ∧ (net.setRequest S p).backlog = net.backlog ∧
      (net.setRequest S p).accepted = net.accepted :=
  ⟨rfl, rfl, rfl⟩

@[simp] theorem setResponse_response :
    (net.setResponse S p).response T = if T = S then p else net.response T := by
  simp [setResponse, Function.update_apply]

@[simp] theorem setResponse_frame :
    (net.setResponse S p).request = net.request ∧ (net.setResponse S p).backlog = net.backlog ∧
      (net.setResponse S p).accepted = net.accepted :=
  ⟨rfl, rfl, rfl⟩

end Net

/-! ### The steps -/

/-- What the network makes of an event. -/
inductive NetStep (c : ClientState) (v : ServerState) (net : Net) : Event → Net → Prop
  | client {a} : completesClient a = false → NetStep c v net (.client a) net
  | server {a} : completesServer a = false → NetStep c v net (.server a) net
  | connected {S ec} : ec.value = 0 → listening v →
      NetStep c v net (.connect S ec) { net with backlog := net.backlog ++ [S] }
  | connectFails {S ec} : ec.value ≠ 0 → NetStep c v net (.connect S ec) net
  | accepted {i ec S rest} : ec.value = 0 → net.backlog = S :: rest →
      NetStep c v net (.accept i ec)
        { net with backlog := rest, accepted := net.accepted ++ [S] }
  | acceptFails {i ec} : ec.value ≠ 0 → NetStep c v net (.accept i ec) net
  | sendRequest {S portion} : (c.session S).pc .write = .pending → portion ≠ [] →
      (net.request S).sent ++ portion <+: (c.session S).m_request →
      NetStep c v net (.sendRequest S portion)
        (net.setRequest S ((net.request S).write portion))
  | requestSent {S ec} :
      (ec.value = 0 → (net.request S).sent = (c.session S).m_request) →
      NetStep c v net (.requestSent S ec) net
  | readRequest {j i received ec S x} : net.accepted[j]? = some S → v.services[j]? = some x →
      x.service.pending[i]? = some .onRequestReceived →
      ReadsUntil (net.request S) (disconnected (c.session S)) received ec →
      NetStep c v net (.readRequest j i received ec)
        (net.setRequest S ((net.request S).take received.length))
  | sendResponse {j portion S x} : net.accepted[j]? = some S → v.services[j]? = some x →
      .onResponseSent ∈ x.service.pending → portion ≠ [] →
      (net.response S).sent ++ portion <+: x.service.data.m_response →
      NetStep c v net (.sendResponse j portion)
        (net.setResponse S ((net.response S).write portion))
  | responseSent {j i ec S x} : net.accepted[j]? = some S → v.services[j]? = some x →
      x.service.pending[i]? = some .onResponseSent →
      (ec.value = 0 → (net.response S).sent = x.service.data.m_response) →
      NetStep c v net (.responseSent j i ec) net
  | readResponse {S received ec} :
      ReadsUntil (net.response S) (socketClosed v net S) received ec →
      NetStep c v net (.readResponse S received ec)
        (net.setResponse S ((net.response S).take received.length))

theorem net_step_inv (h : Net.step c v net e = some net') : NetStep c v net e net' := by
  cases e with
  | client a =>
      simp only [Net.step] at h
      split at h
      · exact absurd h nofun
      · next ha =>
        obtain rfl := Option.some.inj h
        exact .client (Bool.not_eq_true _ ▸ ha)
  | server a =>
      simp only [Net.step] at h
      split at h
      · exact absurd h nofun
      · next ha =>
        obtain rfl := Option.some.inj h
        exact .server (Bool.not_eq_true _ ▸ ha)
  | connect S ec =>
      simp only [Net.step] at h
      split at h
      · next hec =>
        obtain rfl := Option.some.inj h
        exact .connectFails hec
      · next hec =>
        split at h
        · next hlisten =>
          obtain rfl := Option.some.inj h
          exact .connected (not_not.mp hec) hlisten
        · exact absurd h nofun
  | accept i ec =>
      simp only [Net.step] at h
      split at h
      · next hec =>
        obtain rfl := Option.some.inj h
        exact .acceptFails hec
      · next hec =>
        obtain ⟨S, hS, rfl⟩ := Option.map_eq_some_iff.mp h
        cases hb : net.backlog with
        | nil => simp [hb] at hS
        | cons T rest =>
            obtain rfl : T = S := by simpa [hb] using hS
            exact .accepted (not_not.mp hec) hb
  | sendRequest S portion =>
      simp only [Net.step] at h
      split at h
      · next hok =>
        obtain rfl := Option.some.inj h
        exact .sendRequest hok.1 hok.2.1 hok.2.2
      · exact absurd h nofun
  | requestSent S ec =>
      simp only [Net.step] at h
      split at h
      · next hok =>
        obtain rfl := Option.some.inj h
        exact .requestSent hok
      · exact absurd h nofun
  | readRequest j i received ec =>
      obtain ⟨S, hS, h⟩ := Option.bind_eq_some_iff.mp h
      obtain ⟨x, hx, h⟩ := Option.bind_eq_some_iff.mp h
      split at h
      · next hok =>
        obtain rfl := Option.some.inj h
        exact .readRequest hS hx hok.1 hok.2
      · exact absurd h nofun
  | sendResponse j portion =>
      obtain ⟨S, hS, h⟩ := Option.bind_eq_some_iff.mp h
      obtain ⟨x, hx, h⟩ := Option.bind_eq_some_iff.mp h
      split at h
      · next hok =>
        obtain rfl := Option.some.inj h
        exact .sendResponse hS hx hok.1 hok.2.1 hok.2.2
      · exact absurd h nofun
  | responseSent j i ec =>
      obtain ⟨S, hS, h⟩ := Option.bind_eq_some_iff.mp h
      obtain ⟨x, hx, h⟩ := Option.bind_eq_some_iff.mp h
      split at h
      · next hok =>
        obtain rfl := Option.some.inj h
        exact .responseSent hS hx hok.1 hok.2
      · exact absurd h nofun
  | readResponse S received ec =>
      simp only [Net.step] at h
      split at h
      · next hok =>
        obtain rfl := Option.some.inj h
        exact .readResponse hok
      · exact absurd h nofun

/-- **Inversion.** An event is a step of the network, and of the sides that take part in it. -/
theorem network_inv (h : (network thread_pool_size).step s e = some s') :
    NetStep s.left s.right s.medium e s'.medium ∧
      AsyncTcpClient.client.move s.left e.left = some s'.left ∧
      (AsyncServer.machine service thread_pool_size).move s.right e.right = some s'.right := by
  obtain ⟨hnet, hleft, hright⟩ := Joint.step_eq_some.mp h
  exact ⟨net_step_inv hnet, hleft, hright⟩

end AsioStudy.AsyncTcp
