import AsioStudy.Core.ErrorCode
import AsioStudy.Core.IStream
import AsioStudy.Core.Mutex
import AsioStudy.Core.TransitionSystem

/-!
# AsioStudy.AsyncTcpClient.Model

The multi-threaded `AsyncTCPClient` as a transition system.

A state holds every `Session` ever created, the map `m_active_sessions`, the owner of
every mutex, and where each thread is. The threads are

* `caller S` — the `emulateLongComputationOp` call that created session `S`;
* `handler S op` — the completion handler of operation `op` of session `S`, run by
  one of the threads inside `io_service::run`;
* `canceller n` — a thread that calls `cancelRequest`.

Each step ends at the next lock, unlock, operation start, or access to shared data, so
the interleavings are those of the source. The number of io threads is not bounded:
any number of handlers may be running. Of Asio it is assumed that a started operation
completes once, with any outcome, and that its handler is run by `run()`; the effect of
`m_sock.cancel()` is covered because a pending operation may complete with any error at
any time.
-/

namespace AsioStudy.AsyncTcpClient

/-- The identity of a `Session` object (what its `shared_ptr` points to). -/
abbrev SessionId := Nat

/-- The asynchronous operations of a session. -/
inductive Op
  | connect
  | write
  | read
  deriving DecidableEq, Repr

/-- The operation a handler starts next. -/
def Op.next : Op → Option Op
  | .connect => some .write
  | .write => some .read
  | .read => none

/-- Where the `emulateLongComputationOp` call of a session is. -/
inductive CallPc
  /-- No call has created this session. -/
  | notCalled
  /-- The session is constructed; at `m_sock.open`. -/
  | openSocket
  /-- At the construction of the `unique_lock` on `m_active_sessions_guard`. -/
  | lockActive
  /-- At `m_active_sessions[request_id] = session`. -/
  | insert
  /-- At `lock.unlock()`. -/
  | unlockActive
  /-- At `async_connect`. -/
  | asyncConnect
  | returned
  | threw
  deriving DecidableEq, Repr

/-- Where the handler of an operation is. The steps from `shutdown` to `callback` are
`onRequestComplete`. -/
inductive HandlerPc
  /-- The operation has not been started. -/
  | idle
  /-- The operation has been started and its handler has not been invoked. -/
  | pending
  /-- The handler has been invoked with this error code. -/
  | entry (ec : ErrorCode)
  /-- At the `unique_lock` on `m_cancel_guard`. -/
  | lockCancel
  /-- At `if (session->m_was_cancelled)`. -/
  | testCancelled
  /-- At the start of the next operation. -/
  | startNext
  /-- At `m_sock.shutdown(shutdown_both, ignored_ec)`. -/
  | shutdown
  /-- At the `unique_lock` on `m_active_sessions_guard`. -/
  | lockActive
  /-- At `m_active_sessions.find` and `erase`. -/
  | eraseEntry
  /-- At `lock.unlock()`. -/
  | unlockActive
  /-- At the choice of the error code to report. -/
  | report
  /-- At the invocation of `m_callback` with this error code. -/
  | callback (ec : ErrorCode)
  /-- About to return; the destructor of `cancel_lock` runs. -/
  | ret
  | finished
  deriving DecidableEq, Repr

/-- Where a thread that calls `cancelRequest` is. -/
inductive CancelPc
  | idle
  | lockActive (request_id : UInt32)
  /-- At `m_active_sessions.find(request_id)`. -/
  | find (request_id : UInt32)
  /-- The session has been found; at the `unique_lock` on its `m_cancel_guard`. -/
  | lockCancel (S : SessionId)
  /-- At `m_was_cancelled = true`. -/
  | setCancelled (S : SessionId)
  /-- At `m_sock.cancel()`. -/
  | cancelSock (S : SessionId)
  /-- The destructor of `cancel_lock`. -/
  | unlockCancel (S : SessionId)
  /-- The destructor of `lock`. -/
  | unlockActive
  deriving DecidableEq, Repr

inductive Thread
  | caller (S : SessionId)
  | handler (S : SessionId) (op : Op)
  | canceller (n : Nat)
  deriving DecidableEq, Repr

inductive Mutex
  | m_active_sessions_guard
  /-- The `m_cancel_guard` of a session. -/
  | m_cancel_guard (S : SessionId)
  deriving DecidableEq, Repr

/-- The arguments of one invocation of a `Callback`. -/
structure CallbackArgs where
  request_id : UInt32
  response : Bytes
  ec : ErrorCode
  deriving DecidableEq, Repr

structure Session where
  m_request : Bytes
  m_response_buf : Bytes
  m_response : Bytes
  m_ec : ErrorCode
  m_id : UInt32
  m_was_cancelled : Bool
  /-- Where the call that created the session is. -/
  call : CallPc
  /-- Where the handler of each operation is. -/
  pc : Op → HandlerPc
  /-- The invocations of `m_callback` so far. -/
  callbacks : List CallbackArgs

namespace Session

/-- The members as the constructor leaves them. -/
def new (request : Bytes) (id : UInt32) (call : CallPc) : Session where
  m_request := request
  m_response_buf := []
  m_response := []
  m_ec := .success
  m_id := id
  m_was_cancelled := false
  call := call
  pc := fun _ => .idle
  callbacks := []

def setPc (x : Session) (op : Op) (pc : HandlerPc) : Session :=
  { x with pc := Function.update x.pc op pc }

def setCall (x : Session) (call : CallPc) : Session := { x with call := call }

/-- The body of the handler of `op` up to its first lock or to `onRequestComplete`. -/
def enter (x : Session) (op : Op) (ec : ErrorCode) : Session :=
  if ec.value ≠ 0 then
    { x with m_ec := ec }.setPc op .shutdown
  else
    match op with
    | .read =>
        let (response, strm) := (IStream.on x.m_response_buf).getline x.m_response LF
        { x with m_response := response, m_response_buf := strm.rest }.setPc op .shutdown
    | .connect | .write => x.setPc op .lockCancel

/-- A completed read has put `received` into `m_response_buf`. -/
def receive (x : Session) (op : Op) (received : Bytes) : Session :=
  match op with
  | .read => { x with m_response_buf := x.m_response_buf ++ received }
  | .connect | .write => x

/-- `m_callback(m_id, m_response, ec)` -/
def invokeCallback (x : Session) (ec : ErrorCode) : Session :=
  { x with callbacks := x.callbacks ++ [⟨x.m_id, x.m_response, ec⟩] }

/-- The error code `onRequestComplete` reports. -/
def reported (x : Session) : ErrorCode :=
  if x.m_ec.value = 0 ∧ x.m_was_cancelled then .operation_aborted else x.m_ec

end Session

/-- The key a request id is stored under: `m_active_sessions` is a `std::map<int, …>`,
so the `unsigned int` is converted to `int`. -/
def mapKey (request_id : UInt32) : Int := request_id.toBitVec.toInt

/-- The text of a request. -/
def computationRequest (duration_sec : UInt32) : Bytes :=
  bytes "EMULATE_LONG_CALC_OP " ++ to_string duration_sec.toNat ++ [LF]

structure State where
  /-- The identity of the next session. -/
  next : SessionId
  session : SessionId → Session
  m_active_sessions : StdMap Int SessionId
  mutex : Mutexes Mutex Thread
  /-- Where each thread that calls `cancelRequest` is. -/
  cancel : Nat → CancelPc
  /-- `m_work` has not been reset. -/
  m_work : Bool

namespace State

def init : State where
  next := 0
  session := fun _ => .new [] 0 .notCalled
  m_active_sessions := .empty
  mutex := .free
  cancel := fun _ => .idle
  m_work := true

/-- Change one session. -/
def modify (s : State) (S : SessionId) (f : Session → Session) : State :=
  { s with session := Function.update s.session S (f (s.session S)) }

def setPc (s : State) (S : SessionId) (op : Op) (pc : HandlerPc) : State :=
  s.modify S (·.setPc op pc)

def setCall (s : State) (S : SessionId) (call : CallPc) : State := s.modify S (·.setCall call)

def setCancel (s : State) (n : Nat) (pc : CancelPc) : State :=
  { s with cancel := Function.update s.cancel n pc }

/-- Construct a `unique_lock` in thread `t`; not enabled while `m` is owned. -/
def lock (s : State) (m : Mutex) (t : Thread) : Option State :=
  (s.mutex.lock m t).map fun g => { s with mutex := g }

/-- `unique_lock::unlock` -/
def unlock (s : State) (m : Mutex) : State := { s with mutex := s.mutex.unlock m }

/-- The destructor of a `unique_lock` of thread `t`. -/
def release (s : State) (m : Mutex) (t : Thread) : State :=
  { s with mutex := s.mutex.release m t }

/-- Construct the session of an `emulateLongComputationOp` call. -/
def construct (s : State) (duration_sec request_id : UInt32) : State :=
  { s with
    next := s.next + 1
    session := Function.update s.session s.next
      (.new (computationRequest duration_sec) request_id .openSocket) }

/-- `m_active_sessions[request_id] = session` -/
def insert (s : State) (S : SessionId) : State :=
  { s with m_active_sessions := s.m_active_sessions.insert (mapKey (s.session S).m_id) S }

/-- `m_active_sessions.erase(m_active_sessions.find(session->m_id))` -/
def erase (s : State) (S : SessionId) : State :=
  { s with m_active_sessions := s.m_active_sessions.erase (mapKey (s.session S).m_id) }

end State

/-- A step of the system. -/
inductive Action
  /-- `emulateLongComputationOp` is called; `parsed` tells whether `address::from_string`
  accepts its `raw_ip` or throws. -/
  | emulateLongComputationOp (parsed : Bool) (duration_sec request_id : UInt32)
  /-- The next step of the call that created `S`; `opened` is the outcome of
  `m_sock.open`, looked at only there. -/
  | caller (S : SessionId) (opened : Bool)
  /-- Operation `op` of `S` completes and `run()` invokes its handler; `received` are
  the bytes a read has put into `m_response_buf`. -/
  | complete (S : SessionId) (op : Op) (ec : ErrorCode) (received : Bytes)
  /-- The next step of the handler of `op`. -/
  | handler (S : SessionId) (op : Op)
  /-- Thread `n` calls `cancelRequest`. -/
  | cancelRequest (n : Nat) (request_id : UInt32)
  /-- The next step of the `cancelRequest` call of thread `n`. -/
  | canceller (n : Nat)
  /-- `close()` resets `m_work`. Operations may complete here even after `m_ios` has run out of
  work, which only adds runs: it is for safety results. Where the end of a run matters `close` is
  that of `pool`, or is not called. -/
  | close
  deriving DecidableEq, Repr

/-- `emulateLongComputationOp` after the construction of the session. -/
def stepCaller (s : State) (S : SessionId) (opened : Bool) : Option State :=
  match (s.session S).call with
  | .openSocket => some (s.setCall S (if opened then .lockActive else .threw))
  | .lockActive => (s.lock .m_active_sessions_guard (.caller S)).map (·.setCall S .insert)
  | .insert => some ((s.insert S).setCall S .unlockActive)
  | .unlockActive => some ((s.unlock .m_active_sessions_guard).setCall S .asyncConnect)
  | .asyncConnect => some (s.modify S fun x => (x.setPc .connect .pending).setCall .returned)
  | .notCalled | .returned | .threw => none

/-- The three completion handlers and `onRequestComplete`. -/
def stepHandler (s : State) (S : SessionId) (op : Op) : Option State :=
  match (s.session S).pc op with
  | .entry ec => some (s.modify S (·.enter op ec))
  | .lockCancel => (s.lock (.m_cancel_guard S) (.handler S op)).map (·.setPc S op .testCancelled)
  -- on the cancelled branch `cancel_lock` stays locked during `onRequestComplete`
  | .testCancelled =>
      some (s.setPc S op (if (s.session S).m_was_cancelled then .shutdown else .startNext))
  | .startNext => op.next.map fun op' => s.modify S fun x => (x.setPc op' .pending).setPc op .ret
  | .shutdown => some (s.setPc S op .lockActive)
  | .lockActive =>
      (s.lock .m_active_sessions_guard (.handler S op)).map (·.setPc S op .eraseEntry)
  | .eraseEntry => some ((s.erase S).setPc S op .unlockActive)
  | .unlockActive => some ((s.unlock .m_active_sessions_guard).setPc S op .report)
  | .report => some (s.setPc S op (.callback (s.session S).reported))
  | .callback ec => some (s.modify S fun x => (x.invokeCallback ec).setPc op .ret)
  | .ret => some ((s.release (.m_cancel_guard S) (.handler S op)).setPc S op .finished)
  | .idle | .pending | .finished => none

/-- `cancelRequest`. -/
def stepCancel (s : State) (n : Nat) : Option State :=
  match s.cancel n with
  | .lockActive request_id =>
      (s.lock .m_active_sessions_guard (.canceller n)).map (·.setCancel n (.find request_id))
  | .find request_id =>
      match s.m_active_sessions (mapKey request_id) with
      | some S => some (s.setCancel n (.lockCancel S))
      | none => some (s.setCancel n .unlockActive)
  | .lockCancel S =>
      (s.lock (.m_cancel_guard S) (.canceller n)).map (·.setCancel n (.setCancelled S))
  | .setCancelled S =>
      some ((s.modify S ({ · with m_was_cancelled := true })).setCancel n (.cancelSock S))
  -- whether `m_sock.cancel()` returns or throws, both scoped locks are released next
  | .cancelSock S => some (s.setCancel n (.unlockCancel S))
  | .unlockCancel S => some ((s.unlock (.m_cancel_guard S)).setCancel n .unlockActive)
  | .unlockActive => some ((s.unlock .m_active_sessions_guard).setCancel n .idle)
  | .idle => none

def step (s : State) : Action → Option State
  | .emulateLongComputationOp parsed duration_sec request_id =>
      -- a `raw_ip` that does not parse throws before anything is stored
      some (if parsed then s.construct duration_sec request_id else s)
  | .caller S opened => stepCaller s S opened
  | .complete S op ec received =>
      if (s.session S).pc op = .pending then
        some (s.modify S fun x => (x.receive op received).setPc op (.entry ec))
      else none
  | .handler S op => stepHandler s S op
  | .cancelRequest n request_id =>
      if s.cancel n = .idle then some (s.setCancel n (.lockActive request_id)) else none
  | .canceller n => stepCancel s n
  | .close => some { s with m_work := false }

/-- `AsyncTCPClient` as a transition system. -/
def client : TransitionSystem State Action := ⟨State.init, step⟩

end AsioStudy.AsyncTcpClient
