import AsioStudy.AsyncServer.Liveness
import AsioStudy.AsyncTcpServer.Service

/-!
# AsioStudy.AsyncTcpServer.Liveness

The asynchronous TCP server serves every connection to its end, and `Stop` returns.
-/

namespace AsioStudy.AsyncTcpServer

open AsyncServer

variable {thread_pool_size : Nat} {s s' : State Op Point Service}

def rankOp : Op → Nat
  | .onRequestReceived => 5
  | .onResponseSent => 3

def rankPoint : Point → Nat
  | .onRequestReceived _ => 4
  | .onResponseSent _ => 2
  | .onFinish => 1

/-- The steps that are left in a handler. -/
def depth : Point → Nat
  | .onRequestReceived _ | .onResponseSent _ => 2
  | .onFinish => 1

theorem service_total : service.Total := by
  intro p d
  exact ⟨(), rfl⟩

/-- The only point that a handler goes on to. -/
theorem step_goto {d : Service} {p p' : Point} (h : (step d p).next = .goto p') :
    p' = .onFinish ∧ p ≠ .onFinish := by
  cases p with
  | onRequestReceived ec =>
      by_cases hec : ec.value = 0
      · simp [step, hec] at h
      · simp only [step, hec, ne_eq, not_false_eq_true, if_true] at h
        exact ⟨(Next.goto.inj h).symm, by simp⟩
  | onResponseSent ec => exact ⟨(Next.goto.inj h).symm, by simp⟩
  | onFinish => exact absurd h (by simp [step])

theorem service_handlersEnd : service.HandlersEnd depth where
  pos p := by cases p <;> simp [depth]
  goto := by
    intro p input d e p' he hnext
    obtain rfl := Option.some.inj he
    obtain ⟨rfl, hne⟩ := step_goto hnext
    cases p with
    | onFinish => exact absurd rfl hne
    | _ => simp [depth]

theorem service_ranked : service.Ranked rankOp rankPoint where
  pos p := by cases p <;> simp [rankPoint]
  entry op ec := by cases op <;> exact Nat.lt_succ_self _
  starts := by
    intro p input d e he op hop
    obtain rfl := Option.some.inj he
    cases p with
    | onRequestReceived ec =>
        by_cases hec : ec.value = 0 <;> simp [step, hec] at hop
        simp [hop, rankOp, rankPoint]
    | onResponseSent ec => exact absurd hop (by simp [step])
    | onFinish => exact absurd hop (by simp [step])
  goto := by
    intro p input d e p' he hnext
    obtain rfl := Option.some.inj he
    obtain ⟨rfl, hne⟩ := step_goto hnext
    cases p with
    | onFinish => exact absurd rfl hne
    | _ => simp [rankPoint]

/-- Where a run of the server leads. -/
structure Serves (thread_pool_size : Nat) (as : List (Action Unit)) (s : State Op Point Service) :
    Prop where
  /-- Each accept costs at most eight steps. -/
  bounded : as.countP Action.ofHandler ≤ 8 * as.countP Action.isAccept
  /-- Where the handlers have nothing more to do and `Stop` was not called, each accepted
  connection has had a service, which was deleted once and of which nothing is left. -/
  served : Still service thread_pool_size s → s.iosStopped = false →
    s.services.map (·.m_sock) = s.accepted ∧ ∀ x ∈ s.services,
      x.service.pending = [] ∧ x.service.running = [] ∧ x.service.deleted = 1

/-- **Every connection is served to its end** after a bounded number of steps, whatever its
operations return. -/
theorem connections_served (hpool : 0 < thread_pool_size) {as : List (Action Unit)}
    (he : (machine service thread_pool_size).exec (machine service thread_pool_size).init as =
      some s) : Serves thread_pool_size as s := by
  have hr := TransitionSystem.reachable_of_exec he
  refine ⟨countP_handlers_le service_linear service_ranked he, ?_⟩
  intro hstill hgoes
  obtain ⟨honAccept, hended⟩ := ended_of_still service_linear service_total hpool hr hgoes hstill
  refine ⟨by simpa [honAccept] using (reachable_chain hr).sockets, ?_⟩
  intro x hx
  obtain ⟨hpending, hrunning, hone⟩ := hended x hx
  obtain ⟨hthrew, hundefined⟩ := not_failed_of_safe service_safe (reachable_service hr x hx)
  exact ⟨hpending, hrunning, by omega⟩

/-- One client, served to the end; the next accept is pending. -/
def oneClient : List (Action Unit) :=
  [.server, .accept 0 .success, .onAccept 0, .onAccept 0, .onAccept 0,
    .service 0 (.complete 0 .success (bytes "x\n")), .service 0 (.run 0 ()),
    .service 0 (.complete 0 .success []), .service 0 (.run 0 ()), .service 0 (.run 0 ())]

theorem connections_served_oneClient :
    ∃ s, (machine service 1).exec (machine service 1).init oneClient = some s ∧
      s.services.map (·.service.deleted) = [1] ∧ Serves 1 oneClient s := by
  have hrun : ((machine service 1).exec (machine service 1).init oneClient).map
      (fun s => s.services.map (·.service.deleted)) = some [1] := by decide
  obtain ⟨s, hs, hdeleted⟩ := Option.map_eq_some_iff.mp hrun
  exact ⟨s, hs, hdeleted, connections_served (by decide) hs⟩

/-- **`Stop` returns**: after `m_ios.stop()` each thread of the pool takes at most three more
steps. -/
theorem threads_joined (hr : (machine service thread_pool_size).Reachable s) (hpc : s.pc = .join)
    {as : List (Action Unit)} (he : (machine service thread_pool_size).exec s as = some s') :
    Stops service thread_pool_size 3 as s' := by
  refine stops service_handlersEnd service_total ?_ (Nat.le_refl 3) hr hpc he
  intro p
  cases p <;> simp [depth]

/-- `Stop` is called while a request is being processed. -/
def stopRun : List (Action Unit) :=
  [.server, .accept 0 .success, .onAccept 0, .onAccept 0, .onAccept 0,
    .service 0 (.complete 0 .success (bytes "x\n")), .server, .server]

theorem threads_joined_stopRun :
    ∃ s s', (machine service 1).exec (machine service 1).init stopRun = some s ∧ s.pc = .join ∧
      (machine service 1).exec s [.service 0 (.run 0 ()), .server] = some s' ∧
      s'.pc = .returned ∧ Stops service 1 3 [.service 0 (.run 0 ()), .server] s' := by
  have hrun : ((machine service 1).exec (machine service 1).init stopRun).map (·.pc) =
      some .join := by decide
  have hrest : (((machine service 1).exec (machine service 1).init stopRun).bind fun s =>
      (machine service 1).exec s [.service 0 (.run 0 ()), .server]).map (·.pc) =
      some .returned := by decide
  obtain ⟨s, hs, hpc⟩ := Option.map_eq_some_iff.mp hrun
  rw [hs, Option.bind_some] at hrest
  obtain ⟨s', hs', hpc'⟩ := Option.map_eq_some_iff.mp hrest
  exact ⟨s, s', hs, hpc, hs', hpc',
    threads_joined (TransitionSystem.reachable_of_exec hs) hpc hs'⟩

end AsioStudy.AsyncTcpServer
