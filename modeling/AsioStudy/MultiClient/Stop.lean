import AsioStudy.AsyncTcpServer.Service
import AsioStudy.ParallelSyncTcpServer.Model

/-!
# AsioStudy.MultiClient.Stop

What `Server::Stop` leaves behind in the two servers that serve several clients at a time.

Neither of them waits for its clients. The asynchronous server stops its `io_service`: the
handlers that run are awaited, but a service that waits for an operation keeps waiting. The
parallel server joins the thread that accepts; the threads of the clients are detached.
-/

namespace AsioStudy.MultiClient

/-- The asynchronous TCP server after `Stop`: nothing runs and nothing will, and every
service is deleted or waits for one operation, for good. -/
structure AsyncStopped (thread_pool_size : Nat)
    (s : AsyncServer.State AsyncTcpServer.Op AsyncTcpServer.Point AsyncTcpServer.Service) :
    Prop where
  idle : s.running = 0
  final : ∀ a, AsyncServer.step AsyncTcpServer.service thread_pool_size s a = none
  deleted_or_left : ∀ x ∈ s.services,
    x.service.pending = [] ∧ x.service.deleted = 1 ∨
      x.service.pending.length = 1 ∧ x.service.deleted = 0

/-- The parallel server after `Stop`: the accept loop has ended, no service is created any
more, and every service is deleted or still served by its thread. -/
structure ParallelStopped (s : ParallelSyncTcpServer.State) : Prop where
  loop_ended : s.run = .ended
  no_more : ∀ s', (ParallelSyncTcpServer.machine.after s).Reachable s' →
    s'.services.length = s.services.length
  deleted_or_left : ∀ x ∈ s.services,
    x.pc = .ended ∧ x.deleted = 1 ∨ x.pc ≠ .ended ∧ x.deleted = 0

theorem asyncStopped {thread_pool_size : Nat}
    {s : AsyncServer.State AsyncTcpServer.Op AsyncTcpServer.Point AsyncTcpServer.Service}
    (hr : (AsyncServer.machine AsyncTcpServer.service thread_pool_size).Reachable s)
    (hpc : s.pc = .returned) : AsyncStopped thread_pool_size s := by
  obtain ⟨hrunning, hfinal⟩ := AsyncServer.returned_final hr hpc
  refine ⟨hrunning, hfinal, ?_⟩
  intro x hx
  have hservice := AsyncServer.reachable_service hr x hx
  have hw := weight_eq_one AsyncTcpServer.service_linear hservice
  obtain ⟨hthrew, hundefined⟩ := not_failed_of_safe AsyncTcpServer.service_safe hservice
  exact (AsyncObject.pending_or_deleted hw ((AsyncServer.State.running_eq_zero.mp hrunning).2 x hx)
    hthrew hundefined).symm

theorem parallelStopped {s : ParallelSyncTcpServer.State}
    (hr : ParallelSyncTcpServer.machine.Reachable s) (hpc : s.pc = .returned) :
    ParallelStopped s := by
  refine ⟨ParallelSyncTcpServer.reachable_returned hr hpc, ?_, ?_⟩
  · intro s' h
    exact (ParallelSyncTcpServer.services_after hr hpc h).2
  · intro x hx
    have howned := ParallelSyncTcpServer.reachable_owned hr x hx
    unfold ParallelSyncTcpServer.Service.Owned at howned
    by_cases hended : x.pc = .ended
    · exact .inl ⟨hended, by simpa [hended] using howned⟩
    · exact .inr ⟨hended, by simpa [hended] using howned⟩

/-- **What `Stop` leaves behind**, in both servers. -/
theorem stopped {thread_pool_size : Nat}
    {s : AsyncServer.State AsyncTcpServer.Op AsyncTcpServer.Point AsyncTcpServer.Service}
    {t : ParallelSyncTcpServer.State}
    (hr : (AsyncServer.machine AsyncTcpServer.service thread_pool_size).Reachable s)
    (hpc : s.pc = .returned) (hr' : ParallelSyncTcpServer.machine.Reachable t)
    (hpc' : t.pc = .returned) : AsyncStopped thread_pool_size s ∧ ParallelStopped t :=
  ⟨asyncStopped hr hpc, parallelStopped hr' hpc'⟩

/-- A client of the asynchronous server has connected and sent nothing when `Stop` is
called. -/
def asyncRun : List (AsyncServer.Action Unit) :=
  [.server, .accept 0 .success, .onAccept 0, .onAccept 0, .onAccept 0, .server, .server, .server]

/-- A client of the parallel server is served when `Stop` is called; one more connection is
accepted before the loop sees the flag. -/
def parallelRun : List ParallelSyncTcpServer.Action :=
  [.server, .run true, .run true, .run true, .run true, .run true, .service 0 true, .server,
    .run true, .run true, .run true, .service 1 false, .service 1 true, .server]

theorem stopped_abandoned :
    ∃ s t, (AsyncServer.machine AsyncTcpServer.service 2).exec .init asyncRun = some s ∧
      ParallelSyncTcpServer.machine.exec .init parallelRun = some t ∧
      AsyncStopped 2 s ∧ ParallelStopped t := by
  have hrun : ((AsyncServer.machine AsyncTcpServer.service 2).exec .init asyncRun).map (·.pc) =
      some .returned := by decide
  have hrun' : (ParallelSyncTcpServer.machine.exec .init parallelRun).map (·.pc) =
      some .returned := by decide
  obtain ⟨s, hs, hpc⟩ := Option.map_eq_some_iff.mp hrun
  obtain ⟨t, ht, hpc'⟩ := Option.map_eq_some_iff.mp hrun'
  exact ⟨s, t, hs, ht, stopped (TransitionSystem.reachable_of_exec hs) hpc
    (TransitionSystem.reachable_of_exec ht) hpc'⟩

/-- Both servers return from `Stop` with a service that was not deleted. -/
theorem not_all_deleted :
    (¬ ∀ thread_pool_size s,
      (AsyncServer.machine AsyncTcpServer.service thread_pool_size).Reachable s →
      s.pc = .returned → ∀ x ∈ s.services, x.service.deleted = 1) ∧
    ¬ ∀ s, ParallelSyncTcpServer.machine.Reachable s → s.pc = .returned →
      ∀ x ∈ s.services, x.deleted = 1 := by
  constructor
  · intro hall
    have hrun : ((AsyncServer.machine AsyncTcpServer.service 2).exec .init asyncRun).map
        (fun s => (s.pc, s.services.map (·.service.deleted))) = some (.returned, [0]) := by decide
    obtain ⟨s, hs, he⟩ := Option.map_eq_some_iff.mp hrun
    obtain ⟨hpc, hdeleted⟩ := Prod.mk.inj he
    obtain ⟨x, hx, hzero⟩ := List.mem_map.mp (hdeleted ▸ List.mem_singleton_self 0)
    exact absurd (hall 2 s (TransitionSystem.reachable_of_exec hs) hpc x hx) (by omega)
  · intro hall
    have hrun : (ParallelSyncTcpServer.machine.exec .init parallelRun).map
        (fun s => (s.pc, s.services.map (·.deleted))) = some (.returned, [0, 1]) := by decide
    obtain ⟨s, hs, he⟩ := Option.map_eq_some_iff.mp hrun
    obtain ⟨hpc, hdeleted⟩ := Prod.mk.inj he
    obtain ⟨x, hx, hzero⟩ := List.mem_map.mp (hdeleted ▸ List.mem_cons_self ..)
    exact absurd (hall s (TransitionSystem.reachable_of_exec hs) hpc x hx) (by omega)

end AsioStudy.MultiClient
