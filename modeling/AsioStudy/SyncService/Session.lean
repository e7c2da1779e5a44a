import AsioStudy.Core.Pipe
import AsioStudy.Core.TransitionSystem
import AsioStudy.SyncTcpClient.Model

/-!
# AsioStudy.SyncService.Session

One client of a synchronous server: `main` of `SyncTCPClient` from the moment its `connect`
has returned, and the `HandleClient` that serves it, with a pipe for either direction.

The connection is made before the server accepts it; until then the request waits in the
pipe. `asio::write` and `asio::read_until` transfer in portions of any size, one portion a
step, and may fail at any moment. An exception is caught in `main` and in `HandleClient`;
either way the socket is destroyed, which closes the party's own direction.

The loop that counts to a million and the sleep of `HandleClient` are not modelled.
-/

namespace AsioStudy.SyncService

/-- The string `response` of `HandleClient`. -/
def HandleClient.response : Bytes := bytes "Response\n"

/-- Where the client is in `main`. -/
inductive ClientPc
  /-- In `sendRequest`, with these bytes left. -/
  | sendRequest (left : Bytes)
  /-- In `asio::read_until` of `receiveResponse`. -/
  | receiveResponse
  /-- At `client.close()`. -/
  | close (response : Bytes)
  | returned (response : Bytes)
  | threw (ec : ErrorCode)
  deriving DecidableEq, Repr

/-- Where the server is with the connection. -/
inductive HandlePc
  /-- `HandleClient` has not been called. -/
  | waiting
  /-- In `asio::read_until`. -/
  | read
  /-- In `asio::write`, with these bytes left. -/
  | write (left : Bytes)
  /-- The socket is destroyed. -/
  | ended
  deriving DecidableEq, Repr

structure Session where
  duration_sec : UInt32
  client : ClientPc
  /-- The `streambuf` of `receiveResponse`. -/
  buf : Bytes
  service : HandlePc
  /-- The `streambuf` of `HandleClient`. -/
  request : Bytes
  /-- From the client to the server. -/
  requests : Pipe
  /-- From the server to the client. -/
  responses : Pipe
  deriving DecidableEq, Repr

namespace Session

/-- The connection has been made. -/
def new (duration_sec : UInt32) : Session where
  duration_sec := duration_sec
  client := .sendRequest (SyncTcpClient.request duration_sec)
  buf := []
  service := .waiting
  request := []
  requests := .new
  responses := .new

/-- An exception leaves `emulateLongComputationOp` or `close`. -/
def clientThrows (x : Session) (ec : ErrorCode) : Session :=
  { x with client := .threw ec, requests := x.requests.close }

/-- `HandleClient` has returned, or is never called. -/
def drop (x : Session) : Session :=
  { x with service := .ended, responses := x.responses.close }

/-- `std::getline(input, response)` -/
def line (buf : Bytes) : Bytes := ((IStream.on buf).getline [] LF).1

end Session

/-- The client is in a call that can fail. -/
def Session.clientBusy (x : Session) : Bool :=
  match x.client with
  | .sendRequest left => !left.isEmpty
  | .receiveResponse => !x.buf.contains LF
  | .close _ => true
  | .returned _ | .threw _ => false

def Session.serviceBusy (x : Session) : Bool :=
  match x.service with
  | .read => !x.request.contains LF
  | .write left => !left.isEmpty
  | .waiting | .ended => false

/-- `main` of the client. -/
def stepClient (x : Session) : Pipe.Outcome → Option Session
  | .fails ec =>
      if x.clientBusy ∧ ec.value ≠ 0 ∧ ec ≠ .eof then some (x.clientThrows ec) else none
  | .ok n =>
      match x.client with
      | .sendRequest [] => some { x with client := .receiveResponse }
      | .sendRequest left => (x.requests.write_some left n).map fun (left, requests) =>
          { x with client := .sendRequest left, requests := requests }
      | .receiveResponse =>
          -- `read_until` looks for the newline before each of its reads
          if x.buf.contains LF then some { x with client := .close (Session.line x.buf) }
          else if x.responses.atEnd then some (x.clientThrows .eof)
          else (x.responses.read_some n).map fun (data, responses) =>
            { x with buf := x.buf ++ data, responses := responses }
      | .close response =>
          some { x with client := .returned response, requests := x.requests.close }
      | .returned _ | .threw _ => none

/-- `HandleClient` -/
def stepService (x : Session) : Pipe.Outcome → Option Session
  | .fails ec => if x.serviceBusy ∧ ec.value ≠ 0 ∧ ec ≠ .eof then some x.drop else none
  | .ok n =>
      match x.service with
      | .read =>
          if x.request.contains LF then some { x with service := .write HandleClient.response }
          else if x.requests.atEnd then some x.drop
          else (x.requests.read_some n).map fun (data, requests) =>
            { x with request := x.request ++ data, requests := requests }
      | .write [] => some x.drop
      | .write left => (x.responses.write_some left n).map fun (left, responses) =>
          { x with service := .write left, responses := responses }
      | .waiting | .ended => none

inductive SessionAction
  | client (o : Pipe.Outcome)
  | service (o : Pipe.Outcome)
  /-- `HandleClient` is called. -/
  | serve
  /-- The thread that was to call it cannot be made. -/
  | drop
  deriving DecidableEq, Repr

def stepSession (x : Session) : SessionAction → Option Session
  | .client o => stepClient x o
  | .service o => stepService x o
  | .serve => if x.service = .waiting then some { x with service := .read } else none
  | .drop => if x.service = .waiting then some x.drop else none

/-- One client and its service. -/
def session (duration_sec : UInt32) : TransitionSystem Session SessionAction :=
  ⟨.new duration_sec, stepSession⟩

/-! ### The steps -/

inductive ClientStep (x : Session) : Pipe.Outcome → Session → Prop
  | throws {ec} : x.clientBusy = true → ClientStep x (.fails ec) (x.clientThrows ec)
  | sent {n} : x.client = .sendRequest [] →
      ClientStep x (.ok n) { x with client := .receiveResponse }
  | write {n left left' requests} : x.client = .sendRequest left →
      x.requests.write_some left n = some (left', requests) →
      ClientStep x (.ok n) { x with client := .sendRequest left', requests := requests }
  | received {n} : x.client = .receiveResponse → LF ∈ x.buf →
      ClientStep x (.ok n) { x with client := .close (Session.line x.buf) }
  | eof {n} : x.client = .receiveResponse → LF ∉ x.buf → x.responses.atEnd = true →
      ClientStep x (.ok n) (x.clientThrows .eof)
  | read {n data responses} : x.client = .receiveResponse → LF ∉ x.buf →
      x.responses.read_some n = some (data, responses) →
      ClientStep x (.ok n) { x with buf := x.buf ++ data, responses := responses }
  | close {n response} : x.client = .close response →
      ClientStep x (.ok n) { x with client := .returned response, requests := x.requests.close }

inductive ServiceStep (x : Session) : Pipe.Outcome → Session → Prop
  | throws {ec} : x.serviceBusy = true → ServiceStep x (.fails ec) x.drop
  | received {n} : x.service = .read → LF ∈ x.request →
      ServiceStep x (.ok n) { x with service := .write HandleClient.response }
  | eof {n} : x.service = .read → LF ∉ x.request → x.requests.atEnd = true →
      ServiceStep x (.ok n) x.drop
  | read {n data requests} : x.service = .read → LF ∉ x.request →
      x.requests.read_some n = some (data, requests) →
      ServiceStep x (.ok n) { x with request := x.request ++ data, requests := requests }
  | written {n} : x.service = .write [] → ServiceStep x (.ok n) x.drop
  | write {n left left' responses} : x.service = .write left →
      x.responses.write_some left n = some (left', responses) →
      ServiceStep x (.ok n) { x with service := .write left', responses := responses }

inductive SessionStep (x : Session) : SessionAction → Session → Prop
  | client {o y} : ClientStep x o y → SessionStep x (.client o) y
  | service {o y} : ServiceStep x o y → SessionStep x (.service o) y
  | serve : x.service = .waiting → SessionStep x .serve { x with service := .read }
  | drop : x.service = .waiting → SessionStep x .drop x.drop

variable {x y : Session} {o : Pipe.Outcome} {a : SessionAction} {duration_sec : UInt32}

theorem stepClient_inv (h : stepClient x o = some y) : ClientStep x o y := by
  cases o with
  | fails ec =>
      simp only [stepClient] at h
      split at h
      · next hbusy =>
        obtain rfl := Option.some.inj h
        exact .throws hbusy.1
      · exact absurd h (by simp)
  | ok n =>
      simp only [stepClient] at h
      split at h
      · next hpc => obtain rfl := Option.some.inj h; exact .sent hpc
      · next hpc =>
        obtain ⟨⟨left', requests⟩, hwrite, rfl⟩ := Option.map_eq_some_iff.mp h
        exact .write hpc hwrite
      · next hpc =>
        split at h
        · next hmem =>
          obtain rfl := Option.some.inj h
          exact .received hpc (List.contains_iff_mem.mp hmem)
        · next hmem =>
          have hnot : LF ∉ x.buf := fun hin => hmem (List.contains_iff_mem.mpr hin)
          split at h
          · next hend => obtain rfl := Option.some.inj h; exact .eof hpc hnot hend
          · obtain ⟨⟨data, responses⟩, hread, rfl⟩ := Option.map_eq_some_iff.mp h
            exact .read hpc hnot hread
      · next hpc => obtain rfl := Option.some.inj h; exact .close hpc
      · exact absurd h (by simp)
      · exact absurd h (by simp)

theorem stepService_inv (h : stepService x o = some y) : ServiceStep x o y := by
  cases o with
  | fails ec =>
      simp only [stepService] at h
      split at h
      · next hbusy =>
        obtain rfl := Option.some.inj h
        exact .throws hbusy.1
      · exact absurd h (by simp)
  | ok n =>
      simp only [stepService] at h
      split at h
      · next hpc =>
        split at h
        · next hmem =>
          obtain rfl := Option.some.inj h
          exact .received hpc (List.contains_iff_mem.mp hmem)
        · next hmem =>
          have hnot : LF ∉ x.request := fun hin => hmem (List.contains_iff_mem.mpr hin)
          split at h
          · next hend => obtain rfl := Option.some.inj h; exact .eof hpc hnot hend
          · obtain ⟨⟨data, requests⟩, hread, rfl⟩ := Option.map_eq_some_iff.mp h
            exact .read hpc hnot hread
      · next hpc => obtain rfl := Option.some.inj h; exact .written hpc
      · next hpc =>
        obtain ⟨⟨left', responses⟩, hwrite, rfl⟩ := Option.map_eq_some_iff.mp h
        exact .write hpc hwrite
      · exact absurd h (by simp)
      · exact absurd h (by simp)

theorem stepSession_inv (h : stepSession x a = some y) : SessionStep x a y := by
  cases a with
  | client o => exact .client (stepClient_inv h)
  | service o => exact .service (stepService_inv h)
  | serve =>
      simp only [stepSession] at h
      split at h
      · next hwaiting => obtain rfl := Option.some.inj h; exact .serve hwaiting
      · exact absurd h (by simp)
  | drop =>
      simp only [stepSession] at h
      split at h
      · next hwaiting => obtain rfl := Option.some.inj h; exact .drop hwaiting
      · exact absurd h (by simp)

end AsioStudy.SyncService
