import AsioStudy.AsyncServer.Conservation

/-!
# AsioStudy.AsyncTcpServer.Service

The `Service` of the asynchronous TCP server: it reads one line, answers it and deletes
itself. A failed read or write leads to `onFinish` as well, so that every service comes to
its `delete this` unless one of its two operations never completes.
-/

namespace AsioStudy.AsyncTcpServer

open AsyncServer

structure Service where
  m_request : Bytes
  m_response : Bytes
  deriving DecidableEq, Repr

/-- The operations, each under the name of its handler. -/
inductive Op
  | onRequestReceived
  | onResponseSent
  deriving DecidableEq, Repr

inductive Point
  | onRequestReceived (ec : ErrorCode)
  | onResponseSent (ec : ErrorCode)
  | onFinish
  deriving DecidableEq, Repr

/-- `ProcessRequest`; the loop and the sleep leave no trace in the response. -/
def ProcessRequest (_request : Bytes) : Bytes := bytes "Response\n"

/-- The step of a handler. -/
def step (s : Service) : Point → Effect Op Point Service
  | .onRequestReceived ec =>
      if ec.value ≠ 0 then ⟨s, [], false, .goto .onFinish⟩
      else ⟨{ s with m_response := ProcessRequest s.m_request }, [.onResponseSent], false, .ret⟩
  | .onResponseSent _ => ⟨s, [], false, .goto .onFinish⟩
  | .onFinish => ⟨s, [], true, .ret⟩

/-- The class `Service`; `StartHandling` starts the read. -/
def service : Program Op Point Unit Service where
  data := ⟨[], []⟩
  first := .onRequestReceived
  receive
    | .onRequestReceived, received, s => { s with m_request := s.m_request ++ received }
    | .onResponseSent, _, s => s
  entry
    | .onRequestReceived, ec => .onRequestReceived ec
    | .onResponseSent, ec => .onResponseSent ec
  step p _ s := some (step s p)

theorem service_linear : service.Linear := by
  intro p input s e he
  obtain rfl := Option.some.inj he
  cases p with
  | onRequestReceived ec =>
      by_cases hec : ec.value = 0 <;> simp [step, hec, Effect.weight, Next.weight]
  | onResponseSent ec => rfl
  | onFinish => rfl

theorem service_safe : service.Safe := by
  intro p input s e he
  obtain rfl := Option.some.inj he
  cases p with
  | onRequestReceived ec =>
      by_cases hec : ec.value = 0 <;> simp [step, hec, Next.throws, Next.isUndefined]
  | onResponseSent ec => exact ⟨rfl, rfl⟩
  | onFinish => exact ⟨rfl, rfl⟩

variable {thread_pool_size : Nat} {s : State Op Point Service}

/-- **Conservation of connections** in every reachable state. -/
theorem reachable_conserved (h : (machine service thread_pool_size).Reachable s) :
    Conserved service thread_pool_size s :=
  conserved service_linear service_safe h

/-- One client is served to the end, the read of a second one is pending, a third accept
fails, and the acceptor is closed. -/
def servedRun : List (Action Unit) :=
  [.server, .accept 0 .success, .onAccept 0, .onAccept 0, .onAccept 0,
    .service 0 (.complete 0 .success (bytes "x\n")), .accept 0 .success,
    .service 0 (.run 0 ()), .onAccept 0, .onAccept 0, .onAccept 0,
    .service 0 (.complete 0 .success []), .service 0 (.run 0 ()), .server,
    .accept 0 .operation_aborted, .service 0 (.run 0 ()), .onAccept 0, .onAccept 0, .onAccept 0]

theorem reachable_conserved_served :
    ∃ s, (machine service 2).exec .init servedRun = some s ∧
      s.closed = true ∧ s.services.map (·.service.deleted) = [1, 0] ∧ Conserved service 2 s := by
  have hrun : ((machine service 2).exec .init servedRun).map
      (fun s => (s.closed, s.services.map (·.service.deleted))) = some (true, [1, 0]) := by decide
  obtain ⟨s, hs, he⟩ := Option.map_eq_some_iff.mp hrun
  obtain ⟨hclosed, hdeleted⟩ := Prod.mk.inj he
  exact ⟨s, hs, hclosed, hdeleted, reachable_conserved (TransitionSystem.reachable_of_exec hs)⟩

end AsioStudy.AsyncTcpServer
