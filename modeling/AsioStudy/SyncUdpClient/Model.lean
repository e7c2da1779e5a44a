import AsioStudy.Core.Bytes
import AsioStudy.Core.ErrorCode

/-!
# AsioStudy.SyncUdpClient.Model

`SyncUDPClient`, of which one object is asked several times.

A call sends its request and receives one datagram: the first one in the queue of the
socket, whoever has sent it, and no more than six bytes of it. Then it shuts the socket down,
so there is no second call (`later_call_throws`).
-/

namespace AsioStudy.SyncUdpClient

/-- `asio::ip::udp::endpoint` of version 4. -/
structure Endpoint where
  address : UInt32
  port : UInt16
  deriving DecidableEq, Repr

structure Datagram where
  sender : Endpoint
  payload : Bytes
  deriving DecidableEq, Repr

/-- `m_sock` -/
structure Socket where
  /-- `shutdown_both` has succeeded. -/
  shut : Bool
  /-- The datagrams that have arrived and were not received. -/
  queue : List Datagram
  sent : List (Endpoint × Bytes)
  deriving DecidableEq, Repr

/-- The socket that the constructor opens. -/
def Socket.new : Socket := ⟨false, [], []⟩

/-- What the operations on a socket that was shut down fail with. -/
def socket_shutdown : ErrorCode := ⟨10058, .system⟩

/-- `send_to`; `none`: it does not throw. -/
def Socket.send_to (sock : Socket) (request : Bytes) (ep : Endpoint) : Option ErrorCode × Socket :=
  if sock.shut then (some socket_shutdown, sock)
  else (none, { sock with sent := sock.sent ++ [(ep, request)] })

/-- `receive_from` into a buffer of `size` bytes: what it stores there and the sender it reports;
`none`: it waits for ever. -/
def Socket.receive_from (sock : Socket) (size : Nat) :
    Option (Except ErrorCode (Bytes × Endpoint) × Socket) :=
  if sock.shut then some (.error socket_shutdown, sock)
  else
    match sock.queue with
    | [] => none
    | d :: queue => some (.ok (d.payload.take size, d.sender), { sock with queue := queue })

/-- `shutdown(shutdown_both)`, which throws `result` when that is an error. A socket that could not
be shut down stays open here; the Linux kernel shuts it although it reports an error. The call has
thrown either way, so `AllWhole` does not depend on it. -/
def Socket.shutdown (sock : Socket) (result : Option ErrorCode) : Option ErrorCode × Socket :=
  match result with
  | some ec => (some ec, sock)
  | none => (none, { sock with shut := true })

/-- A call, and what the network and the system do about it. -/
structure Call where
  duration_sec : UInt32
  /-- The server that `raw_ip` and `port` address. -/
  server : Endpoint
  /-- The payload of its answer. -/
  answer : Bytes
  /-- The datagrams that arrive before the answer, and after it. -/
  before : List Datagram
  after : List Datagram
  /-- They come from other hosts. -/
  others : ∀ d ∈ before ++ after, d.sender ≠ server
  shutdown : Option ErrorCode

/-- What arrives at the socket after the request of a call. -/
def Call.arrivals (c : Call) : List Datagram := c.before ++ ⟨c.server, c.answer⟩ :: c.after

/-- How a call ends. -/
inductive Outcome
  | returns (response : Bytes)
  | throws (ec : ErrorCode)
  | waits
  deriving DecidableEq, Repr

def sendRequest (sock : Socket) (ep : Endpoint) (request : Bytes) : Option ErrorCode × Socket :=
  sock.send_to request ep

/-- `receiveResponse`; the sender goes into the argument `ep`, which nobody looks at again. -/
def receiveResponse (sock : Socket) (shutdown : Option ErrorCode) : Outcome × Socket :=
  match sock.receive_from 6 with
  | none => (.waits, sock)
  | some (.error ec, sock) => (.throws ec, sock)
  | some (.ok (response, _), sock) =>
      -- the socket is shut down after every response
      match sock.shutdown shutdown with
      | (some ec, sock) => (.throws ec, sock)
      | (none, sock) => (.returns response, sock)

/-- The text of a request. -/
def request (duration_sec : UInt32) : Bytes :=
  bytes "EMULATE_LONG_COMP_OP " ++ to_string duration_sec.toNat ++ bytes "\n"

def emulateLongComputationOp (sock : Socket) (c : Call) : Outcome × Socket :=
  match sendRequest sock c.server (request c.duration_sec) with
  | (some ec, sock) => (.throws ec, sock)
  | (none, sock) => receiveResponse { sock with queue := sock.queue ++ c.arrivals } c.shutdown

/-- Several calls on one client, one after the other. -/
def outcomes : Socket → List Call → List Outcome
  | _, [] => []
  | sock, c :: calls =>
      match emulateLongComputationOp sock c with
      | (.waits, _) => [.waits]
      | (outcome, sock) => outcome :: outcomes sock calls

/-- Every call returns the complete payload of the datagram of the server it has addressed. -/
def AllWhole (calls : List Call) : Prop :=
  outcomes .new calls = calls.map fun c => .returns c.answer

/-! ### One call -/

variable {sock : Socket} {c : Call}

/-- The first datagram that arrives after the request of a call. -/
def Call.first (c : Call) : Datagram := c.arrivals.headD ⟨c.server, c.answer⟩

theorem Call.exists_arrivals (c : Call) : ∃ queue, c.arrivals = c.first :: queue := by
  cases hbefore : c.before with
  | nil => exact ⟨c.after, by simp [Call.first, Call.arrivals, hbefore]⟩
  | cons d before => exact ⟨_, by simp [Call.first, Call.arrivals, hbefore]; rfl⟩

/-- **The first call returns six bytes of the first datagram**, whoever has sent it. -/
theorem first_call_returns (h : c.shutdown = none) :
    ∃ sock, sock.shut = true ∧
      emulateLongComputationOp .new c = (.returns (c.first.payload.take 6), sock) := by
  obtain ⟨queue, harrivals⟩ := c.exists_arrivals
  refine ⟨⟨true, queue, [(c.server, request c.duration_sec)]⟩, rfl, ?_⟩
  simp only [emulateLongComputationOp, sendRequest, Socket.send_to, Socket.new, harrivals, h]
  rfl

/-- It throws when it cannot shut the socket down. -/
theorem first_call_throws {ec : ErrorCode} (h : c.shutdown = some ec) :
    ∃ sock, emulateLongComputationOp .new c = (.throws ec, sock) := by
  obtain ⟨queue, harrivals⟩ := c.exists_arrivals
  refine ⟨⟨false, queue, [(c.server, request c.duration_sec)]⟩, ?_⟩
  simp only [emulateLongComputationOp, sendRequest, Socket.send_to, Socket.new, harrivals, h]
  rfl

/-- **There is no second call.** -/
theorem later_call_throws (h : sock.shut = true) (c : Call) :
    emulateLongComputationOp sock c = (.throws socket_shutdown, sock) := by
  simp [emulateLongComputationOp, sendRequest, Socket.send_to, h]

/-! ### Runs of calls -/

/-- **When every call returns its answer**: when there is one, and the first six bytes that
arrive are the answer. -/
theorem allWhole_iff (calls : List Call) :
    AllWhole calls ↔ calls = [] ∨
      ∃ c, calls = [c] ∧ c.shutdown = none ∧ c.first.payload.take 6 = c.answer := by
  cases calls with
  | nil => simp [AllWhole, outcomes]
  | cons c calls =>
      cases hshutdown : c.shutdown with
      | some ec =>
          obtain ⟨sock, hcall⟩ := first_call_throws hshutdown
          simp [AllWhole, outcomes, hcall, hshutdown]
      | none =>
          obtain ⟨sock, hshut, hcall⟩ := first_call_returns hshutdown
          cases calls with
          | nil => simp [AllWhole, outcomes, hcall, hshutdown]
          | cons c' calls => simp [AllWhole, outcomes, hcall, later_call_throws hshut]

/-- The two calls of `main`, each answered at once. -/
def mainCalls : List Call :=
  [⟨10, ⟨0x7F000001, 3333⟩, bytes "ok", [], [], by simp, none⟩,
    ⟨10, ⟨0xC0A80165, 3334⟩, bytes "ok", [], [], by simp, none⟩]

theorem not_allWhole_main : ¬ ∀ calls : List Call, AllWhole calls := by
  intro hall
  have houtcomes : outcomes .new mainCalls = [.returns (bytes "ok"), .throws socket_shutdown] := by
    decide
  exact absurd (houtcomes.symm.trans (hall mainCalls)) (by decide)

end AsioStudy.SyncUdpClient
