import AsioStudy.Core.Mutex
import AsioStudy.Core.TransitionSystem
import AsioStudy.HttpClient.Model

/-!
# AsioStudy.HttpClient.Machine

One `HTTPRequest` on which `execute()` is called once, as a transition system. The user's
thread runs `execute`; the single thread of `HTTPClient` runs the completion handlers, one
at a time; any number of threads call `cancel`. A step ends at the next acquisition or
release of `m_cancel_mux`, operation start, or access to `m_was_cancelled`.

The first part of a stage (`Stage.firstPart`) is one step: it touches only data that no
other thread uses. Operations complete with any error code, and reads with any bytes.
-/

namespace AsioStudy.HttpClient

/-- The threads that run the stages. -/
inductive Worker
  /-- The thread that calls `execute`. -/
  | user
  /-- `HTTPClient::m_thread` -/
  | io
  deriving DecidableEq, Repr

inductive Thread
  | worker (k : Worker)
  /-- A thread that calls `cancel`. -/
  | canceller (n : Nat)
  deriving DecidableEq, Repr

inductive Mutex
  | m_cancel_mux
  deriving DecidableEq, Repr

/-- Where a worker is in its stage. -/
inductive Pc
  /-- The handler has been invoked with this error code. -/
  | entry (ec : ErrorCode)
  /-- At the construction of `cancel_lock`. -/
  | lock
  /-- At `if (m_was_cancelled)`. -/
  | test
  /-- At `cancel_lock.unlock()`. -/
  | unlock
  /-- At the start of the next operation. -/
  | start
  /-- In `on_finish`, at the invocation of `m_callback` with this error code. -/
  | callback (ec : ErrorCode)
  /-- About to return; the destructor of `cancel_lock` runs. -/
  | ret
  /-- An exception has left the stage. -/
  | threw
  /-- In a loop that never ends. -/
  | loops
  deriving DecidableEq, Repr

structure Frame where
  stage : Stage
  pc : Pc
  deriving DecidableEq, Repr

/-- Where a thread that calls `cancel` is. -/
inductive CancelPc
  | idle
  | lock
  /-- At `m_was_cancelled = true`. -/
  | set
  /-- At `m_resolver.cancel()` and `m_sock.cancel()`. -/
  | cancelOps
  /-- The destructor of `cancel_lock`. -/
  | unlock
  deriving DecidableEq, Repr

/-- The arguments of one invocation of the callback. -/
structure CallbackArgs where
  response : HTTPResponse
  ec : ErrorCode

structure State where
  request : HTTPRequest
  m_was_cancelled : Bool
  mutex : Mutexes Mutex Thread
  /-- `execute()` has been called. -/
  executed : Bool
  /-- What each worker runs. -/
  frame : Worker → Option Frame
  /-- The handlers of the operations that are pending. -/
  pending : List Stage
  /-- Where each thread that calls `cancel` is. -/
  cancel : Nat → CancelPc
  callbacks : List CallbackArgs

namespace State

def init (m_host m_uri : Bytes) : State where
  request := .new m_host m_uri
  m_was_cancelled := false
  mutex := .free
  executed := false
  frame := fun _ => none
  pending := []
  cancel := fun _ => .idle
  callbacks := []

def setFrame (s : State) (k : Worker) (f : Option Frame) : State :=
  { s with frame := Function.update s.frame k f }

/-- The worker moves on in its stage. -/
def goto (s : State) (k : Worker) (stage : Stage) (pc : Pc) : State :=
  s.setFrame k (some ⟨stage, pc⟩)

def setCancel (s : State) (n : Nat) (pc : CancelPc) : State :=
  { s with cancel := Function.update s.cancel n pc }

/-- Construct a `unique_lock` on `m_cancel_mux` in thread `t`; not enabled while it is
owned. -/
def lock (s : State) (t : Thread) : Option State :=
  (s.mutex.lock .m_cancel_mux t).map fun g => { s with mutex := g }

/-- `unique_lock::unlock` -/
def unlock (s : State) : State := { s with mutex := s.mutex.unlock .m_cancel_mux }

/-- The destructor of a `unique_lock` of thread `t`. -/
def release (s : State) (t : Thread) : State :=
  { s with mutex := s.mutex.release .m_cancel_mux t }

/-- Start the operation whose handler is `stage`. -/
def startOp (s : State) (stage : Stage) : State := { s with pending := s.pending ++ [stage] }

/-- `m_callback(*this, m_response, ec)` -/
def invokeCallback (s : State) (ec : ErrorCode) : State :=
  { s with callbacks := s.callbacks ++ [⟨s.request.m_response, ec⟩] }

end State

inductive Action
  /-- The user calls `execute()`. -/
  | execute
  /-- The next step of a worker; `shutdown` is the outcome of `m_sock.shutdown`, looked at
  only by `on_request_sent`. -/
  | worker (k : Worker) (shutdown : Bool)
  /-- The operation whose handler is `stage` completes and `run()` invokes the handler;
  `received` are the bytes that a read has put into the response buffer. -/
  | complete (stage : Stage) (ec : ErrorCode) (received : Bytes)
  /-- Thread `n` calls `cancel()`. -/
  | cancel (n : Nat)
  /-- The next step of the `cancel()` call of thread `n`. -/
  | canceller (n : Nat)
  deriving DecidableEq, Repr

/-- Where the first part of a stage leads. -/
def Exit.pc : Exit → Pc
  | .on_finish ec => .callback ec
  | .lock => .lock
  | .threw => .threw
  | .loops => .loops

/-- Only reads put bytes into the response buffer. -/
def Stage.reads : Stage → Bool
  | .on_status_line_received | .on_headers_received | .on_response_body_received => true
  | _ => false

/-- The response buffer after a completed operation. -/
def HTTPRequest.receive (x : HTTPRequest) (stage : Stage) (received : Bytes) : HTTPRequest :=
  if stage.reads then x.withBuf (x.m_response.m_response_buf ++ received) else x

/-- The step of a worker in its stage. -/
def stepFrame (P : Platform) (s : State) (k : Worker) (shutdown : Bool) (f : Frame) :
    Option State :=
  match f.pc with
  | .entry ec =>
      let (request, exit) := f.stage.firstPart P shutdown ec s.request
      some ({ s with request := request }.goto k f.stage exit.pc)
  | .lock => (s.lock (.worker k)).map (·.goto k f.stage .test)
  | .test => some (s.goto k f.stage (if s.m_was_cancelled then .unlock else .start))
  | .unlock => some (s.unlock.goto k f.stage (.callback .operation_aborted))
  | .start => f.stage.next.map fun stage => (s.startOp stage).goto k f.stage .ret
  | .callback ec => some ((s.invokeCallback ec).goto k f.stage .ret)
  | .ret => some ((s.release (.worker k)).setFrame k none)
  | .threw | .loops => none

/-- `cancel()` -/
def stepCancel (s : State) (n : Nat) : Option State :=
  match s.cancel n with
  | .lock => (s.lock (.canceller n)).map (·.setCancel n .set)
  | .set => some ({ s with m_was_cancelled := true }.setCancel n .cancelOps)
  -- whether `m_sock.cancel()` returns or throws, `cancel_lock` is released next
  | .cancelOps => some (s.setCancel n .unlock)
  | .unlock => some (s.unlock.setCancel n .idle)
  | .idle => none

def step (P : Platform) (s : State) : Action → Option State
  | .execute =>
      if s.executed then none else some ({ s with executed := true }.goto .user .execute .lock)
  | .worker k shutdown => (s.frame k).bind (stepFrame P s k shutdown)
  | .complete stage ec received =>
      if stage ∈ s.pending ∧ s.frame .io = none then
        some ({ s with
          pending := s.pending.erase stage
          request := s.request.receive stage received }.goto .io stage (.entry ec))
      else none
  | .cancel n => if s.cancel n = .idle then some (s.setCancel n .lock) else none
  | .canceller n => stepCancel s n

/-- An `HTTPRequest` for this host and this resource as a transition system. -/
def machine (P : Platform) (m_host m_uri : Bytes) : TransitionSystem State Action :=
  ⟨State.init m_host m_uri, step P⟩

/-! ### Frame lemmas of the updates -/

namespace State

variable (s : State) (k : Worker) (n : Nat) (t : Thread) (stage : Stage)

/-- The state in which `t` has just locked `m_cancel_mux`. -/
def owned : State := { s with mutex := Function.update s.mutex .m_cancel_mux (some t) }

variable {s t} in
theorem lock_eq_some {s' : State} :
    s.lock t = some s' ↔ s.mutex .m_cancel_mux = none ∧ s' = s.owned t :=
  Mutexes.lock_map_eq_some

@[simp] theorem setFrame_frame (k' : Worker) (f : Option Frame) :
    (s.setFrame k f).frame k' = if k' = k then f else s.frame k' := by
  simp [setFrame, Function.update_apply]

@[simp] theorem setFrame_fields (f : Option Frame) :
    (s.setFrame k f).mutex = s.mutex ∧ (s.setFrame k f).pending = s.pending ∧
    (s.setFrame k f).callbacks = s.callbacks ∧ (s.setFrame k f).cancel = s.cancel ∧
    (s.setFrame k f).m_was_cancelled = s.m_was_cancelled ∧
    (s.setFrame k f).executed = s.executed :=
  ⟨rfl, rfl, rfl, rfl, rfl, rfl⟩

@[simp] theorem goto_frame (k' : Worker) (pc : Pc) :
    (s.goto k stage pc).frame k' = if k' = k then some ⟨stage, pc⟩ else s.frame k' :=
  setFrame_frame ..

@[simp] theorem goto_fields (pc : Pc) :
    (s.goto k stage pc).mutex = s.mutex ∧ (s.goto k stage pc).pending = s.pending ∧
    (s.goto k stage pc).callbacks = s.callbacks ∧ (s.goto k stage pc).cancel = s.cancel ∧
    (s.goto k stage pc).m_was_cancelled = s.m_was_cancelled ∧
    (s.goto k stage pc).executed = s.executed :=
  ⟨rfl, rfl, rfl, rfl, rfl, rfl⟩

@[simp] theorem setCancel_cancel (n' : Nat) (pc : CancelPc) :
    (s.setCancel n pc).cancel n' = if n' = n then pc else s.cancel n' := by
  simp [setCancel, Function.update_apply]

@[simp] theorem setCancel_fields (pc : CancelPc) :
    (s.setCancel n pc).mutex = s.mutex ∧ (s.setCancel n pc).pending = s.pending ∧
    (s.setCancel n pc).callbacks = s.callbacks ∧ (s.setCancel n pc).frame = s.frame ∧
    (s.setCancel n pc).m_was_cancelled = s.m_was_cancelled ∧
    (s.setCancel n pc).executed = s.executed :=
  ⟨rfl, rfl, rfl, rfl, rfl, rfl⟩

@[simp] theorem owned_mutex : (s.owned t).mutex .m_cancel_mux = some t := by
  simp [owned]

@[simp] theorem owned_fields :
    (s.owned t).frame = s.frame ∧ (s.owned t).pending = s.pending ∧
    (s.owned t).callbacks = s.callbacks ∧ (s.owned t).cancel = s.cancel ∧
    (s.owned t).m_was_cancelled = s.m_was_cancelled ∧ (s.owned t).executed = s.executed :=
  ⟨rfl, rfl, rfl, rfl, rfl, rfl⟩

@[simp] theorem unlock_mutex : s.unlock.mutex .m_cancel_mux = none := by
  simp [unlock, Mutexes.unlock_apply]

@[simp] theorem unlock_fields :
    s.unlock.frame = s.frame ∧ s.unlock.pending = s.pending ∧
    s.unlock.callbacks = s.callbacks ∧ s.unlock.cancel = s.cancel ∧
    s.unlock.m_was_cancelled = s.m_was_cancelled ∧ s.unlock.executed = s.executed :=
  ⟨rfl, rfl, rfl, rfl, rfl, rfl⟩

@[simp] theorem release_mutex :
    (s.release t).mutex .m_cancel_mux =
      if s.mutex .m_cancel_mux = some t then none else s.mutex .m_cancel_mux := by
  simp [release, Mutexes.release_apply]

@[simp] theorem release_fields :
    (s.release t).frame = s.frame ∧ (s.release t).pending = s.pending ∧
    (s.release t).callbacks = s.callbacks ∧ (s.release t).cancel = s.cancel ∧
    (s.release t).m_was_cancelled = s.m_was_cancelled ∧
    (s.release t).executed = s.executed :=
  ⟨rfl, rfl, rfl, rfl, rfl, rfl⟩

@[simp] theorem startOp_fields :
    (s.startOp stage).pending = s.pending ++ [stage] ∧ (s.startOp stage).mutex = s.mutex ∧
    (s.startOp stage).frame = s.frame ∧ (s.startOp stage).callbacks = s.callbacks ∧
    (s.startOp stage).cancel = s.cancel ∧
    (s.startOp stage).m_was_cancelled = s.m_was_cancelled ∧
    (s.startOp stage).executed = s.executed :=
  ⟨rfl, rfl, rfl, rfl, rfl, rfl, rfl⟩

@[simp] theorem invokeCallback_fields (ec : ErrorCode) :
    (s.invokeCallback ec).callbacks = s.callbacks ++ [⟨s.request.m_response, ec⟩] ∧
    (s.invokeCallback ec).mutex = s.mutex ∧ (s.invokeCallback ec).frame = s.frame ∧
    (s.invokeCallback ec).pending = s.pending ∧ (s.invokeCallback ec).cancel = s.cancel ∧
    (s.invokeCallback ec).m_was_cancelled = s.m_was_cancelled ∧
    (s.invokeCallback ec).executed = s.executed :=
  ⟨rfl, rfl, rfl, rfl, rfl, rfl, rfl⟩

end State

/-! ### The steps -/

/-- The steps of a worker. -/
inductive WorkerStep (P : Platform) (s : State) (k : Worker) : State → Prop
  | enter {stage ec request} {exit : Exit} {shutdown : Bool} :
      s.frame k = some ⟨stage, .entry ec⟩ →
      stage.firstPart P shutdown ec s.request = (request, exit) →
      WorkerStep P s k ({ s with request := request }.goto k stage exit.pc)
  | lock {stage} : s.frame k = some ⟨stage, .lock⟩ → s.mutex .m_cancel_mux = none →
      WorkerStep P s k ((s.owned (.worker k)).goto k stage .test)
  | cancelled {stage} : s.frame k = some ⟨stage, .test⟩ → s.m_was_cancelled = true →
      WorkerStep P s k (s.goto k stage .unlock)
  | notCancelled {stage} : s.frame k = some ⟨stage, .test⟩ → s.m_was_cancelled = false →
      WorkerStep P s k (s.goto k stage .start)
  | unlock {stage} : s.frame k = some ⟨stage, .unlock⟩ →
      WorkerStep P s k (s.unlock.goto k stage (.callback .operation_aborted))
  | start {stage stage'} : s.frame k = some ⟨stage, .start⟩ → stage.next = some stage' →
      WorkerStep P s k ((s.startOp stage').goto k stage .ret)
  | callback {stage ec} : s.frame k = some ⟨stage, .callback ec⟩ →
      WorkerStep P s k ((s.invokeCallback ec).goto k stage .ret)
  | ret {stage} : s.frame k = some ⟨stage, .ret⟩ →
      WorkerStep P s k ((s.release (.worker k)).setFrame k none)

/-- The steps of a `cancel()` call. -/
inductive CancelStep (s : State) (n : Nat) : State → Prop
  | lock : s.cancel n = .lock → s.mutex .m_cancel_mux = none →
      CancelStep s n ((s.owned (.canceller n)).setCancel n .set)
  | set : s.cancel n = .set →
      CancelStep s n ({ s with m_was_cancelled := true }.setCancel n .cancelOps)
  | cancelOps : s.cancel n = .cancelOps → CancelStep s n (s.setCancel n .unlock)
  | unlock : s.cancel n = .unlock → CancelStep s n (s.unlock.setCancel n .idle)

/-- The steps of the machine. -/
inductive Step (P : Platform) (s : State) : Action → State → Prop
  | execute : s.executed = false →
      Step P s .execute ({ s with executed := true }.goto .user .execute .lock)
  | worker {k shutdown s'} : WorkerStep P s k s' → Step P s (.worker k shutdown) s'
  | complete {stage ec received} : stage ∈ s.pending → s.frame .io = none →
      Step P s (.complete stage ec received)
        ({ s with
          pending := s.pending.erase stage
          request := s.request.receive stage received }.goto .io stage (.entry ec))
  | cancel {n} : s.cancel n = .idle → Step P s (.cancel n) (s.setCancel n .lock)
  | canceller {n s'} : CancelStep s n s' → Step P s (.canceller n) s'

theorem stepFrame_inv {P : Platform} {s s' : State} {k : Worker} {shutdown : Bool} {f : Frame}
    (hf : s.frame k = some f) (h : stepFrame P s k shutdown f = some s') :
    WorkerStep P s k s' := by
  obtain ⟨stage, pc⟩ := f
  cases pc with
  | entry ec => obtain rfl := Option.some.inj h; exact .enter hf rfl
  | lock =>
      obtain ⟨t, ht, rfl⟩ := Option.map_eq_some_iff.mp h
      obtain ⟨hfree, rfl⟩ := State.lock_eq_some.mp ht
      exact .lock hf hfree
  | test =>
      obtain rfl := Option.some.inj h
      cases hw : s.m_was_cancelled
      · exact .notCancelled hf hw
      · exact .cancelled hf hw
  | unlock => obtain rfl := Option.some.inj h; exact .unlock hf
  | start =>
      obtain ⟨stage', hnext, rfl⟩ := Option.map_eq_some_iff.mp h
      exact .start hf hnext
  | callback ec => obtain rfl := Option.some.inj h; exact .callback hf
  | ret => obtain rfl := Option.some.inj h; exact .ret hf
  | threw => exact absurd h (by simp [stepFrame])
  | loops => exact absurd h (by simp [stepFrame])

theorem stepCancel_inv {s s' : State} {n : Nat} (h : stepCancel s n = some s') :
    CancelStep s n s' := by
  unfold stepCancel at h
  cases hpc : s.cancel n with
  | idle => rw [hpc] at h; exact absurd h (by simp)
  | lock =>
      simp only [hpc, Option.map_eq_some_iff] at h
      obtain ⟨t, ht, rfl⟩ := h
      obtain ⟨hfree, rfl⟩ := State.lock_eq_some.mp ht
      exact .lock hpc hfree
  | set => rw [hpc] at h; obtain rfl := Option.some.inj h; exact .set hpc
  | cancelOps => rw [hpc] at h; obtain rfl := Option.some.inj h; exact .cancelOps hpc
  | unlock => rw [hpc] at h; obtain rfl := Option.some.inj h; exact .unlock hpc

/-- **Inversion.** Every step of the machine is one of the listed ones. -/
theorem step_inv {P : Platform} {s s' : State} {a : Action} (h : step P s a = some s') :
    Step P s a s' := by
  cases a with
  | execute =>
      simp only [step] at h
      split at h
      · exact absurd h nofun
      · next he =>
        obtain rfl := Option.some.inj h
        exact .execute (by simpa using he)
  | worker k shutdown =>
      obtain ⟨f, hf, h⟩ := Option.bind_eq_some_iff.mp h
      exact .worker (stepFrame_inv hf h)
  | complete stage ec received =>
      simp only [step] at h
      split at h
      · next hp =>
        obtain rfl := Option.some.inj h
        exact .complete hp.1 hp.2
      · exact absurd h nofun
  | cancel n =>
      simp only [step] at h
      split at h
      · next hp =>
        obtain rfl := Option.some.inj h
        exact .cancel hp
      · exact absurd h nofun
  | canceller n => exact .canceller (stepCancel_inv h)

end AsioStudy.HttpClient
