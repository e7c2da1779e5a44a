import AsioStudy.Core.ErrorCode
import AsioStudy.Core.Pipe
import AsioStudy.Core.TransitionSystem

/-!
# AsioStudy.Shutdown.Model

The two programs that mark the end of a message by shutting down a direction of their
connection: `communicate` of the client and `processRequest` of the server, each in its own
process, with a pipe for either direction between them.

`asio::write` and `asio::read` transfer in portions of any size, one portion a step, and may
fail at any moment. An exception is caught in `main`, which returns; the destructor of the
socket then closes the party's own direction.
-/

namespace AsioStudy.Shutdown

/-- `request_buf` of `communicate`; the zero is a byte like the others. -/
def communicate.request_buf : Bytes := [0x48, 0x65, 0x0, 0x6c, 0x6c, 0x6f]

/-- `response_buf` of `processRequest` -/
def processRequest.response_buf : Bytes := [0x48, 0x69, 0x21]

/-- Where the client is in `communicate`. -/
inductive ClientPc
  /-- In `asio::write`, with these bytes left. -/
  | write (left : Bytes)
  /-- At `sock.shutdown(shutdown_send)`. -/
  | shutdown
  /-- In `asio::read`. -/
  | read
  | returned
  | threw (ec : ErrorCode)
  deriving DecidableEq, Repr

/-- Where the server is in `processRequest`. -/
inductive ServerPc
  /-- In `asio::read`. -/
  | read
  /-- In `asio::write`, with these bytes left. -/
  | write (left : Bytes)
  /-- At `sock.shutdown(shutdown_send)`. -/
  | shutdown
  | returned
  | threw (ec : ErrorCode)
  deriving DecidableEq, Repr

structure State where
  client : ClientPc
  /-- The `streambuf` of the client. -/
  response_buf : Bytes
  server : ServerPc
  /-- The `streambuf` of the server. -/
  request_buf : Bytes
  /-- From the client to the server. -/
  requests : Pipe
  /-- From the server to the client. -/
  responses : Pipe
  deriving DecidableEq, Repr

/-- The connection has been made. -/
def State.init (request : Bytes) : State := ⟨.write request, [], .read, [], .new, .new⟩

inductive Action
  | client (o : Pipe.Outcome)
  | server (o : Pipe.Outcome)
  deriving DecidableEq, Repr

/-- An exception leaves `communicate`; the socket is closed. -/
def State.clientThrows (s : State) (ec : ErrorCode) : State :=
  { s with client := .threw ec, requests := s.requests.close }

def State.serverThrows (s : State) (ec : ErrorCode) : State :=
  { s with server := .threw ec, responses := s.responses.close }

/-- `communicate` -/
def stepClient (s : State) : Pipe.Outcome → Option State
  | .fails ec =>
      match s.client with
      | .write [] | .returned | .threw _ => none
      | _ => if ec.value ≠ 0 ∧ ec ≠ .eof then some (s.clientThrows ec) else none
  | .ok n =>
      match s.client with
      | .write [] => some { s with client := .shutdown }
      | .write left => (s.requests.write_some left n).map fun (left, requests) =>
          { s with client := .write left, requests := requests }
      | .shutdown => some { s with client := .read, requests := s.requests.close }
      | .read =>
          -- `ec == asio::error::eof`: all data was transferred
          if s.responses.atEnd then some { s with client := .returned }
          else (s.responses.read_some n).map fun (data, responses) =>
            { s with response_buf := s.response_buf ++ data, responses := responses }
      | .returned | .threw _ => none

/-- `processRequest`, which answers with `response`. -/
def stepServer (response : Bytes) (s : State) : Pipe.Outcome → Option State
  | .fails ec =>
      match s.server with
      | .write [] | .returned | .threw _ => none
      | _ => if ec.value ≠ 0 ∧ ec ≠ .eof then some (s.serverThrows ec) else none
  | .ok n =>
      match s.server with
      | .read =>
          if s.requests.atEnd then some { s with server := .write response }
          else (s.requests.read_some n).map fun (data, requests) =>
            { s with request_buf := s.request_buf ++ data, requests := requests }
      | .write [] => some { s with server := .shutdown }
      | .write left => (s.responses.write_some left n).map fun (left, responses) =>
          { s with server := .write left, responses := responses }
      | .shutdown => some { s with server := .returned, responses := s.responses.close }
      | .returned | .threw _ => none

/-- A client that sends `request` and a server that answers with `response`. -/
def exchange (request response : Bytes) : TransitionSystem State Action where
  init := .init request
  step s
    | .client o => stepClient s o
    | .server o => stepServer response s o

/-- The two programs. -/
def programs : TransitionSystem State Action :=
  exchange communicate.request_buf processRequest.response_buf

/-! ### The steps -/

/-- The client is inside one of its calls. -/
def ClientPc.busy : ClientPc → Bool
  | .write left => !left.isEmpty
  | .shutdown | .read => true
  | .returned | .threw _ => false

def ServerPc.busy : ServerPc → Bool
  | .write left => !left.isEmpty
  | .read | .shutdown => true
  | .returned | .threw _ => false

inductive ClientStep (s : State) : Pipe.Outcome → State → Prop
  | throws {ec} : s.client.busy = true → ClientStep s (.fails ec) (s.clientThrows ec)
  | written {n} : s.client = .write [] → ClientStep s (.ok n) { s with client := .shutdown }
  | write {n left left' requests} : s.client = .write left →
      s.requests.write_some left n = some (left', requests) →
      ClientStep s (.ok n) { s with client := .write left', requests := requests }
  | shutdown {n} : s.client = .shutdown →
      ClientStep s (.ok n) { s with client := .read, requests := s.requests.close }
  | eof {n} : s.client = .read → s.responses.atEnd = true →
      ClientStep s (.ok n) { s with client := .returned }
  | read {n data responses} : s.client = .read →
      s.responses.read_some n = some (data, responses) →
      ClientStep s (.ok n)
        { s with response_buf := s.response_buf ++ data, responses := responses }

inductive ServerStep (response : Bytes) (s : State) : Pipe.Outcome → State → Prop
  | throws {ec} : s.server.busy = true → ServerStep response s (.fails ec) (s.serverThrows ec)
  | eof {n} : s.server = .read → s.requests.atEnd = true →
      ServerStep response s (.ok n) { s with server := .write response }
  | read {n data requests} : s.server = .read →
      s.requests.read_some n = some (data, requests) →
      ServerStep response s (.ok n)
        { s with request_buf := s.request_buf ++ data, requests := requests }
  | written {n} : s.server = .write [] →
      ServerStep response s (.ok n) { s with server := .shutdown }
  | write {n left left' responses} : s.server = .write left →
      s.responses.write_some left n = some (left', responses) →
      ServerStep response s (.ok n) { s with server := .write left', responses := responses }
  | shutdown {n} : s.server = .shutdown →
      ServerStep response s (.ok n) { s with server := .returned, responses := s.responses.close }

variable {s s' : State} {o : Pipe.Outcome} {response : Bytes}

theorem stepClient_inv (h : stepClient s o = some s') : ClientStep s o s' := by
  cases o with
  | fails ec =>
      simp only [stepClient] at h
      split at h
      · exact absurd h nofun
      · exact absurd h nofun
      · exact absurd h nofun
      · next hwrite hreturned hthrew =>
        split at h
        · obtain rfl := Option.some.inj h
          refine .throws ?_
          cases hpc : s.client with
          | write left => cases left <;> simp_all [ClientPc.busy]
          | returned => exact absurd hpc hreturned
          | threw ec => exact absurd hpc (hthrew ec)
          | _ => rfl
        · exact absurd h nofun
  | ok n =>
      simp only [stepClient] at h
      split at h
      · next hpc => obtain rfl := Option.some.inj h; exact .written hpc
      · next hpc =>
        obtain ⟨⟨left', requests⟩, hwrite, rfl⟩ := Option.map_eq_some_iff.mp h
        exact .write hpc hwrite
      · next hpc => obtain rfl := Option.some.inj h; exact .shutdown hpc
      · next hpc =>
        split at h
        · next hend => obtain rfl := Option.some.inj h; exact .eof hpc hend
        · obtain ⟨⟨data, responses⟩, hread, rfl⟩ := Option.map_eq_some_iff.mp h
          exact .read hpc hread
      · exact absurd h nofun
      · exact absurd h nofun

theorem stepServer_inv (h : stepServer response s o = some s') : ServerStep response s o s' := by
  cases o with
  | fails ec =>
      simp only [stepServer] at h
      split at h
      · exact absurd h nofun
      · exact absurd h nofun
      · exact absurd h nofun
      · next hwrite hreturned hthrew =>
        split at h
        · obtain rfl := Option.some.inj h
          refine .throws ?_
          cases hpc : s.server with
          | write left => cases left <;> simp_all [ServerPc.busy]
          | returned => exact absurd hpc hreturned
          | threw ec => exact absurd hpc (hthrew ec)
          | _ => rfl
        · exact absurd h nofun
  | ok n =>
      simp only [stepServer] at h
      split at h
      · next hpc =>
        split at h
        · next hend => obtain rfl := Option.some.inj h; exact .eof hpc hend
        · obtain ⟨⟨data, requests⟩, hread, rfl⟩ := Option.map_eq_some_iff.mp h
          exact .read hpc hread
      · next hpc => obtain rfl := Option.some.inj h; exact .written hpc
      · next hpc =>
        obtain ⟨⟨left', responses⟩, hwrite, rfl⟩ := Option.map_eq_some_iff.mp h
        exact .write hpc hwrite
      · next hpc => obtain rfl := Option.some.inj h; exact .shutdown hpc
      · exact absurd h nofun
      · exact absurd h nofun

end AsioStudy.Shutdown
