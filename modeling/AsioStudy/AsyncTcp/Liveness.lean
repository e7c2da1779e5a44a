import AsioStudy.AsyncTcp.Exchange
import AsioStudy.AsyncTcpClient.Close

/-!
# AsioStudy.AsyncTcp.Liveness

Client and server do not wait for each other for ever. The service waits for the line of the
client and the client for that of the service; where nothing goes on any more, every service has
come to its `delete this` and every request has been reported (`settled_of_rest`).

That a read comes to its end is concluded, not assumed: an operation goes on by itself only if
there is something to read or to write, or if the other side has closed the connection.

Here the client has `num_of_threads` threads, and `close` is not called (`Admitted`); its
`m_ios` then never runs out of work (`pool_of_admitted`).
-/

namespace AsioStudy.AsyncTcp

open AsyncServer (Served)
open AsyncTcpClient (SessionId Clash PoolState)
open AsyncTcpServer (Service service service_linear service_safe service_total)

variable {num_of_threads thread_pool_size : Nat}
  {s s' : JointState ClientState ServerState Net} {e : Event}
  {c c' : ClientState} {v v' : ServerState} {net net' : Net} {S T : SessionId} {i j : Nat}
  {p : Pipe} {closed : Prop} {es : List Event}

/-- An operation ends as it should: without an error, or at the end of the stream. -/
def ends (ec : ErrorCode) : Bool := ec.value = 0 ∨ ec = .eof

/-- A step of the two programs, or one by which an operation goes on or ends as it should. -/
def Event.own : Event → Bool
  | .client a => a.ofThread
  | .server (.onAccept _) | .server (.service _ (.run _ _)) => true
  | .server _ => false
  | .connect _ ec | .accept _ ec | .requestSent _ ec | .responseSent _ _ ec => ec.value = 0
  | .readRequest _ _ _ ec | .readResponse _ _ ec => ends ec
  | .sendRequest _ _ | .sendResponse _ _ => true

/-- The client runs on `num_of_threads` threads, and `close` is not called. -/
def Admitted (num_of_threads : Nat) (s : JointState ClientState ServerState Net) (e : Event) :
    Prop :=
  ∀ a ∈ e.left, (PoolState.mk s.left false .idle).enabled num_of_threads a

instance (s : JointState ClientState ServerState Net) (e : Event) :
    Decidable (Admitted num_of_threads s e) :=
  inferInstanceAs (Decidable (∀ a ∈ e.left, _))

/-- Nothing goes on any more. -/
def AtRest (num_of_threads thread_pool_size : Nat) (s : JointState ClientState ServerState Net) :
    Prop :=
  ∀ e : Event, e.own = true → Admitted num_of_threads s e →
    (network thread_pool_size).step s e = none

/-- Every request has been answered, and nothing is left of it on either side. -/
structure Settled (s : JointState ClientState ServerState Net) : Prop where
  client : AsyncTcpClient.Served s.left
  /-- No connection waits for the acceptor. -/
  backlog : s.medium.backlog = []
  /-- Every connection that was accepted has had a service. -/
  services : s.right.services.length = s.medium.accepted.length
  deleted : ∀ x ∈ s.right.services,
    x.service.pending = [] ∧ x.service.running = [] ∧ x.service.deleted = 1

/-- **The client of such a run is one with its threads**, and its `m_ios` goes on. -/
theorem pool_of_admitted
    (h : (network thread_pool_size).ReachableUnder (Admitted num_of_threads) s) :
    (AsyncTcpClient.pool num_of_threads).Reachable ⟨s.left, false, .idle⟩ := by
  refine h.invariant (P := fun s => (AsyncTcpClient.pool num_of_threads).Reachable
    ⟨s.left, false, .idle⟩) .init ?_
  intro s e s' _ hi hok hs
  obtain ⟨-, hleft, -⟩ := network_inv hs
  cases he : e.left with
  | none =>
      rw [he] at hleft
      rw [← Option.some.inj hleft]
      exact hi
  | some a =>
      rw [he] at hleft
      have henabled := hok a he
      have hclose : a ≠ .close := by
        intro heq
        rw [heq] at henabled
        exact henabled
      have hwork : s'.left.m_work = true := by
        rw [(AsyncTcpClient.step_inv hleft).m_work hclose]
        exact (AsyncTcpClient.reachable_poolInv hi).work.mpr rfl
      -- `m_work` alone keeps `m_ios` from stopping
      have hgoes : (PoolState.mk s'.left false .idle).settle = ⟨s'.left, false, .idle⟩ :=
        if_neg (by simp [AsyncTcpClient.State.work, hwork])
      refine hi.step (a := .client a) ?_
      have hstep : AsyncTcpClient.step s.left a = some s'.left := hleft
      simp [AsyncTcpClient.pool, AsyncTcpClient.stepPool, henabled, hstep, hgoes]

/-! ### What is refused at rest -/

/-- One of the two sides refuses the event. -/
theorem AtRest.refused (h : AtRest num_of_threads thread_pool_size s) (he : e.own = true)
    (hok : Admitted num_of_threads s e)
    (hnet : (Net.step s.left s.right s.medium e).isSome = true) :
    AsyncTcpClient.client.move s.left e.left = none ∨
      (AsyncServer.machine service thread_pool_size).move s.right e.right = none := by
  obtain ⟨net', hnet'⟩ := Option.isSome_iff_exists.mp hnet
  exact Joint.step_eq_none (h e he hok) net' hnet'

/-- The client refuses an event that does not concern the server. -/
theorem AtRest.refused_left (h : AtRest num_of_threads thread_pool_size s) (he : e.own = true)
    (hok : Admitted num_of_threads s e) (hright : e.right = none)
    (hnet : (Net.step s.left s.right s.medium e).isSome = true) :
    AsyncTcpClient.client.move s.left e.left = none := by
  refine (h.refused he hok hnet).resolve_right ?_
  rw [hright]
  exact Option.some_ne_none _

/-- An event that does not concern the client needs none of its threads. -/
theorem admitted_of_right (hleft : e.left = none) : Admitted num_of_threads s e := by
  intro a ha
  rw [hleft] at ha
  exact absurd ha (by simp)

theorem AtRest.refused_right (h : AtRest num_of_threads thread_pool_size s) (he : e.own = true)
    (hleft : e.left = none) (hnet : (Net.step s.left s.right s.medium e).isSome = true) :
    (AsyncServer.machine service thread_pool_size).move s.right e.right = none := by
  refine (h.refused he (admitted_of_right hleft) hnet).resolve_left ?_
  rw [hleft]
  exact Option.some_ne_none _

theorem AtRest.client (h : AtRest num_of_threads thread_pool_size s) :
    AsyncTcpClient.client.Quiescent AsyncTcpClient.Action.ofThread s.left := by
  intro a ha
  cases a with
  | caller _ _ | handler _ _ | canceller _ =>
      refine h.refused_left (e := .client _) rfl ?_ rfl rfl
      rintro _ ⟨⟩
      exact trivial
  | _ => exact absurd ha Bool.false_ne_true

/-- All threads of the client are free. -/
theorem AtRest.admitted (h : AtRest num_of_threads thread_pool_size s)
    (hthreads : 0 < num_of_threads) (hr : (network thread_pool_size).Reachable s)
    (hclash : ¬ Clash s.left) {op : AsyncTcpClient.Op} {ec : ErrorCode} {received : Bytes}
    (hleft : e.left = some (.complete S op ec received)) : Admitted num_of_threads s e := by
  intro a ha
  rw [hleft] at ha
  obtain rfl := Option.some.inj ha
  have hzero := AsyncTcpClient.handlers_of_quiescent h.client (Joint.reachable_sides hr).1 hclash
  exact ⟨rfl, hzero ▸ hthreads⟩

theorem AtRest.server (h : AtRest num_of_threads thread_pool_size s) {a : ServerAction}
    (ha : (Event.server a).own = true) (hcompletes : completesServer a = false) :
    AsyncServer.step service thread_pool_size s.right a = none := by
  have hnet : (Net.step s.left s.right s.medium (.server a)).isSome = true := by
    simp [Net.step, hcompletes]
  exact h.refused_right ha rfl hnet

theorem AtRest.running (h : AtRest num_of_threads thread_pool_size s) : s.right.running = 0 := by
  refine AsyncServer.running_of_stuck (h.server (a := .onAccept 0) rfl rfl) ?_
  intro j x p _ _
  obtain ⟨input, hsome⟩ := service_total p x.service.data
  exact ⟨input, hsome, h.server rfl rfl⟩

/-- An operation of the client would complete. -/
theorem session_may_complete {op : AsyncTcpClient.Op} {ec : ErrorCode} {received : Bytes}
    (hpc : (c.session S).pc op = .pending) :
    AsyncTcpClient.client.move c (some (.complete S op ec received)) ≠ none := by
  simp [AsyncTcpClient.client, AsyncTcpClient.step, hpc]

/-- A thread of the pool is free for a completion of the server. -/
theorem AtRest.mayInvoke (h : AtRest num_of_threads thread_pool_size s)
    (hpool : 0 < thread_pool_size)
    (hgoes : s.right.pc = .running) : AsyncServer.mayInvoke thread_pool_size s.right :=
  ⟨by simp [AsyncServer.State.iosStopped, hgoes], h.running ▸ hpool⟩

theorem service_may_complete {x : Served AsyncTcpServer.Op AsyncTcpServer.Point Service}
    {op : AsyncTcpServer.Op} {ec : ErrorCode} {received : Bytes}
    (hmay : AsyncServer.mayInvoke thread_pool_size v) (hx : v.services[j]? = some x)
    (hop : x.service.pending[i]? = some op) :
    (AsyncServer.machine service thread_pool_size).move v
      (some (.service j (.complete i ec received))) ≠ none := by
  simp [AsyncServer.machine, AsyncServer.step, AsyncServer.enabled, hmay, hx, Program.stepObject,
    hop]

/-- A read ends as it should if there is a line or nothing more can come. -/
theorem exists_readsUntil (h : LF ∈ p.inFlight ∨ closed) :
    ∃ received ec, ends ec = true ∧ ReadsUntil p closed received ec := by
  by_cases hline : LF ∈ p.inFlight
  · exact ⟨p.inFlight, .success, rfl, List.prefix_rfl, fun _ => hline, nofun⟩
  · have hclosed := h.resolve_left hline
    exact ⟨p.inFlight, .eof, rfl, List.prefix_rfl, (absurd · (by decide)),
      fun _ => ⟨hclosed, rfl, hline⟩⟩

/-- What is still missing of a text that has been sent in part. -/
theorem exists_portion {sent text : Bytes} (h : sent <+: text) (hne : sent ≠ text) :
    ∃ portion, portion ≠ [] ∧ sent ++ portion <+: text := by
  obtain ⟨portion, rfl⟩ := h
  refine ⟨portion, ?_, List.prefix_rfl⟩
  rintro rfl
  exact hne (by simp)

/-! ### At rest -/

/-- Every connection has been accepted. -/
theorem AtRest.backlog (h : AtRest num_of_threads thread_pool_size s)
    (hpool : 0 < thread_pool_size)
    (hr : (network thread_pool_size).Reachable s) (hgoes : s.right.pc = .running) :
    s.medium.backlog = [] := by
  have hserver := (Joint.reachable_sides hr).2
  have hconserved := AsyncTcpServer.reachable_conserved hserver
  have honAccept := (AsyncServer.State.running_eq_zero.mp h.running).1
  have hclosed := (AsyncServer.open_of_running hserver (.inr hgoes)).2.1
  have hone := hconserved.between_handlers (by simp [hgoes]) honAccept
  cases hbacklog : s.medium.backlog with
  | nil => rfl
  | cons S rest =>
      have hno := h.refused_right (e := .accept 0 .success) rfl rfl (by simp [Net.step, hbacklog])
      cases haccepts : s.right.accepts with
      | nil => simp [haccepts, hclosed] at hone
      | cons sock accepts =>
          simp [Event.right, AsyncServer.machine, AsyncServer.step, AsyncServer.enabled,
            h.mayInvoke hpool hgoes, haccepts] at hno

theorem AtRest.not_connecting (h : AtRest num_of_threads thread_pool_size s)
    (hthreads : 0 < num_of_threads) (hr : (network thread_pool_size).Reachable s)
    (hgoes : s.right.pc = .running) (hclash : ¬ Clash s.left) :
    (s.left.session S).pc .connect ≠ .pending := by
  intro hpc
  have hlistening : listening s.right :=
    ⟨by simp [hgoes], (AsyncServer.open_of_running (Joint.reachable_sides hr).2 (.inr hgoes)).2.1⟩
  exact session_may_complete hpc
    (h.refused_left (e := .connect S .success) rfl (h.admitted hthreads hr hclash rfl) rfl
      (by simp [Net.step, hlistening]))

/-- Every request has gone out. -/
theorem AtRest.not_writing (h : AtRest num_of_threads thread_pool_size s)
    (hthreads : 0 < num_of_threads) (hr : (network thread_pool_size).Reachable s)
    (hclash : ¬ Clash s.left) :
    (s.left.session S).pc .write ≠ .pending := by
  intro hpc
  have hprefix := ((reachable_linked hr).sends S).isPrefix
  by_cases hall : (s.medium.request S).sent = (s.left.session S).m_request
  · exact session_may_complete hpc
      (h.refused_left (e := .requestSent S .success) rfl (h.admitted hthreads hr hclash rfl) rfl
        (by simp [Net.step, hall]))
  · obtain ⟨portion, hne, hportion⟩ := exists_portion hprefix hall
    exact absurd (h.refused_left (e := .sendRequest S portion) rfl (admitted_of_right rfl) rfl
      (by simp [Net.step, hpc, hne, hportion])) (Option.some_ne_none _)

/-- So has every response. -/
theorem AtRest.not_responding (h : AtRest num_of_threads thread_pool_size s)
    (hpool : 0 < thread_pool_size)
    (hr : (network thread_pool_size).Reachable s) (hgoes : s.right.pc = .running)
    {x : Served AsyncTcpServer.Op AsyncTcpServer.Point Service}
    (hS : s.medium.accepted[j]? = some S) (hx : s.right.services[j]? = some x) :
    x.service.pending[0]? ≠ some .onResponseSent := by
  intro hop
  have hprefix := ((reachable_attended hr).served j S x hS hx).sent
  by_cases hall : (s.medium.response S).sent = x.service.data.m_response
  · exact service_may_complete (h.mayInvoke hpool hgoes) hx hop
      (h.refused_right (e := .responseSent j 0 .success) rfl rfl
        (by simp [Net.step, hS, hx, hop, hall]))
  · obtain ⟨portion, hne, hportion⟩ := exists_portion hprefix hall
    exact absurd (h.refused_left (e := .sendResponse j portion) rfl (admitted_of_right rfl) rfl
      (by simp [Net.step, hS, hx, List.mem_of_getElem? hop, hne, hportion]))
      (Option.some_ne_none _)

/-- A service that reads has neither got a line nor come to the end. -/
theorem AtRest.reading (h : AtRest num_of_threads thread_pool_size s)
    (hpool : 0 < thread_pool_size)
    (hgoes : s.right.pc = .running) {x : Served AsyncTcpServer.Op AsyncTcpServer.Point Service}
    (hS : s.medium.accepted[j]? = some S) (hx : s.right.services[j]? = some x)
    (hop : x.service.pending[0]? = some .onRequestReceived) :
    LF ∉ (s.medium.request S).inFlight ∧ ¬ disconnected (s.left.session S) := by
  rw [← not_or]
  intro hcan
  obtain ⟨received, ec, hends, hread⟩ := exists_readsUntil hcan
  exact service_may_complete (h.mayInvoke hpool hgoes) hx hop
    (h.refused_right (e := .readRequest j 0 received ec) hends rfl
      (by simp [Net.step, hS, hx, hop, hread]))

/-- Nor has a session that reads. -/
theorem AtRest.waiting (h : AtRest num_of_threads thread_pool_size s)
    (hthreads : 0 < num_of_threads) (hr : (network thread_pool_size).Reachable s)
    (hclash : ¬ Clash s.left) (hpc : (s.left.session S).pc .read = .pending) :
    LF ∉ (s.medium.response S).inFlight ∧ ¬ socketClosed s.right s.medium S := by
  rw [← not_or]
  intro hcan
  obtain ⟨received, ec, hends, hread⟩ := exists_readsUntil hcan
  exact session_may_complete hpc
    (h.refused_left (e := .readResponse S received ec) hends (h.admitted hthreads hr hclash rfl) rfl
      (by simp [Net.step, hread]))

/-- The session behind a connection goes on, or has disconnected. -/
theorem AtRest.session (h : AtRest num_of_threads thread_pool_size s)
    (hthreads : 0 < num_of_threads) (hr : (network thread_pool_size).Reachable s)
    (hclash : ¬ Clash s.left) (hS : S ∈ s.medium.accepted)
    (hdisconnected : ¬ disconnected (s.left.session S)) :
    (s.left.session S).pc .read = .pending := by
  have hclient := (Joint.reachable_sides hr).1
  have hconnected := (reachable_linked hr).connected S (List.mem_append_left _ hS)
  obtain ⟨q, hq⟩ := (AsyncTcpClient.reachable_phase hclient).1 S
  cases q with
  | absent | calling | failed => exact absurd (hq.2.1 .connect) hconnected.1
  | completed =>
      refine absurd (.inl ?_) hdisconnected
      exact List.ne_nil_of_length_pos (by rw [hq.2.1]; exact Nat.one_pos)
  | handling op =>
      -- the handler that is at work is not on its way
      have hworking := hq.2.2.1
      have hstands := AsyncTcpClient.stands_of_quiescent h.client hclient hclash (.handler S op)
      have hpending : (s.left.session S).pc op = .pending := by
        simp only [AsyncTcpClient.State.stands, AsyncTcpClient.State.ended, Bool.or_eq_true,
          decide_eq_true_eq] at hstands
        rcases hstands with (hidle | hfinished) | hpending
        · simp [hidle, AsyncTcpClient.HandlerPc.working] at hworking
        · simp [hfinished, AsyncTcpClient.HandlerPc.working] at hworking
        · exact hpending
      cases op with
      | connect => exact absurd hpending hconnected.2
      | write => exact absurd hpending (h.not_writing hthreads hr hclash)
      | read => exact hpending

/-- **At rest every service has come to its end.** -/
theorem AtRest.deleted (h : AtRest num_of_threads thread_pool_size s)
    (hthreads : 0 < num_of_threads) (hpool : 0 < thread_pool_size)
    (he : (network thread_pool_size).exec (network thread_pool_size).init es = some s)
    (hgoes : s.right.pc = .running) (hclash : ¬ Clash s.left)
    {x : Served AsyncTcpServer.Op AsyncTcpServer.Point Service}
    (hS : s.medium.accepted[j]? = some S) (hx : s.right.services[j]? = some x) :
    x.service.pending = [] ∧ x.service.running = [] ∧ x.service.deleted = 1 := by
  have hr := TransitionSystem.reachable_of_exec he
  obtain ⟨hclient, hserver⟩ := Joint.reachable_sides hr
  have hlinked := reachable_linked hr
  have hmem := List.mem_of_getElem? hx
  have hrunning := (AsyncServer.State.running_eq_zero.mp h.running).2 x hmem
  rcases (AsyncTcpServer.reachable_conserved hserver).pending_or_deleted x hmem hrunning with
    ⟨hone, -⟩ | ⟨hpending, hdeleted⟩
  · obtain ⟨op, hop⟩ := List.length_eq_one_iff.mp hone
    have hfirst : x.service.pending[0]? = some op := by rw [hop]; rfl
    cases op with
    | onResponseSent => exact absurd hfirst (h.not_responding hpool hr hgoes hS hx)
    | onRequestReceived =>
        -- the session has sent its line and waits for the response
        obtain ⟨hline, hdisconnected⟩ := h.reading hpool hgoes hS hx hfirst
        have hread := h.session hthreads hr hclash (List.mem_of_getElem? hS) hdisconnected
        have hsent := (hlinked.sends S).written (.inr (by rw [hread]; nofun))
        have hlt := hlinked.lt_next hclient (List.mem_append_left _ (List.mem_of_getElem? hS))
        have hhistory := client_history he
        rw [hhistory.next] at hlt
        have hrequest := (hhistory.call S _ _ (List.getElem?_eq_getElem hlt)).1
        have hserves := (reachable_attended hr).served j S x hS hx
        have hnil : (s.medium.request S).received = [] := by
          rw [← hserves.request, hserves.first (by simp [hop])]
        rw [Pipe.inFlight_eq_sent hnil, hsent, hrequest] at hline
        exact absurd (by simp [AsyncTcpClient.computationRequest]) hline
  · exact ⟨hpending, hrunning, hdeleted⟩

/-- **At rest nobody waits for the other side**, unless the lock orders of the client have
crossed. -/
theorem settled_of_rest (hthreads : 0 < num_of_threads) (hpool : 0 < thread_pool_size)
    (he : (network thread_pool_size).exec (network thread_pool_size).init es = some s)
    (h : AtRest num_of_threads thread_pool_size s) (hgoes : s.right.pc = .running)
    (hclash : ¬ Clash s.left) :
    Settled s := by
  have hr := TransitionSystem.reachable_of_exec he
  obtain ⟨hclient, hserver⟩ := Joint.reachable_sides hr
  have hbacklog := h.backlog hpool hr hgoes
  have honAccept := (AsyncServer.State.running_eq_zero.mp h.running).1
  have hlength : s.right.services.length = s.medium.accepted.length := by
    have hsockets := congrArg List.length (AsyncServer.reachable_chain hserver).sockets
    rw [(reachable_attended hr).length, ← hsockets, honAccept]
    simp
  have hdeleted : ∀ (j : Nat) (S : SessionId)
      (x : Served AsyncTcpServer.Op AsyncTcpServer.Point Service),
      s.medium.accepted[j]? = some S → s.right.services[j]? = some x →
        x.service.pending = [] ∧ x.service.running = [] ∧ x.service.deleted = 1 :=
    fun j S x hS hx => h.deleted hthreads hpool he hgoes hclash hS hx
  have hpending : ∀ S op, (s.left.session S).pc op ≠ .pending := by
    intro S op hpc
    cases op with
    | connect => exact h.not_connecting hthreads hr hgoes hclash hpc
    | write => exact h.not_writing hthreads hr hclash hpc
    | read =>
        refine (h.waiting hthreads hr hclash hpc).2 ?_
        obtain ⟨q, hq⟩ := (AsyncTcpClient.reachable_phase hclient).1 S
        obtain rfl := hq.eq_handling hpc rfl
        have hleft := hq.2.2.2.1 .write (by decide)
        have hmade := (reachable_linked hr).made S (.inr fun hidle => by
          simp [hidle, AsyncTcpClient.HandlerPc.left] at hleft)
        rw [hbacklog, List.append_nil] at hmade
        obtain ⟨j, hS⟩ := List.mem_iff_getElem?.mp hmade
        have hj : j < s.right.services.length := hlength ▸ (List.getElem?_eq_some_iff.mp hS).1
        exact ⟨j, hj, hS, fun x hx => (hdeleted j S x hS hx).2.2⟩
  have hquiescent : AsyncTcpClient.client.Quiescent AsyncTcpClient.Action.own s.left := by
    intro a ha
    cases a with
    | complete S op ec received =>
        simp [AsyncTcpClient.client, AsyncTcpClient.step, hpending S op]
    | caller _ _ | handler _ _ | canceller _ => exact h.client _ rfl
    | _ => exact absurd ha Bool.false_ne_true
  refine ⟨AsyncTcpClient.served_of_quiescent hquiescent hclient hclash, hbacklog, hlength, ?_⟩
  intro x hx
  obtain ⟨j, hj⟩ := List.mem_iff_getElem?.mp hx
  have hlt : j < s.medium.accepted.length := hlength ▸ (List.getElem?_eq_some_iff.mp hj).1
  exact hdeleted j _ x (List.getElem?_eq_getElem hlt) hj

end AsioStudy.AsyncTcp
