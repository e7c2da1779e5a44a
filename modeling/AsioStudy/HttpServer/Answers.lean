import AsioStudy.HttpServer.Liveness
import AsioStudy.HttpServer.Network

/-!
# AsioStudy.HttpServer.Answers

What the clients of the HTTP server get, over all connections.

* `online_answered`: at any time, what has been sent on a connection is the answer to the bytes
  of that connection, as `answerOf` gives it, and nothing is sent twice.
* `online_settles`: the server takes a bounded number of steps for each accept, and where its
  handlers have nothing more to do every connection has got its answer.
-/

namespace AsioStudy.HttpServer

open AsyncServer

variable {P : Platform} {w : World} {thread_pool_size : Nat} {s s' : Online} {e : Event}
  {c : Connection} {chunks : List Bytes} {o : AsyncObject Op Point ServiceData}

/-- What the client of a connection is answered. -/
def Connection.answer (c : Connection) : Option Answer :=
  answerOf c.platform c.fs c.incoming.ending c.incoming.chunks.flatten

/-- What has been sent on a connection. -/
structure Answered (c : Connection) (o : AsyncObject Op Point ServiceData) : Prop where
  at_most_once : o.data.sends.length ≤ 1
  /-- It is the answer to all the bytes of this connection, however they arrive. -/
  response : ∀ call ∈ o.data.sends, c.answer =
    some (.response call.service.m_response_status_code call.service.m_requested_resource)
  /-- The buffers are those that the connection would get by itself. -/
  buffers : ∀ call ∈ o.data.sends, ∃ s response_buffers,
    call.response_buffers = some response_buffers ∧ c.serve = .responds s response_buffers
  /-- A service that is deleted without a response leaves none to be given. -/
  silent : o.deleted = 1 → o.data.sends = [] → c.answer = some .on_finish

theorem Connection.serve_eq_answer (hshutdown : c.shutdown = true) :
    c.serve.answer = c.answer :=
  Connection.serve_answer hshutdown

/-- What is sent is what `send_response` makes of some service. -/
theorem Connection.serve_responds {s : Service} {response_buffers : List Bytes}
    (h : c.serve = .responds s response_buffers) :
    ∃ s₀ : Service, s₀.send_response c.shutdown = some (s, response_buffers) := by
  have hrespond : ∀ s₀ : Service, c.respond s₀ = .responds s response_buffers →
      s₀.send_response c.shutdown = some (s, response_buffers) := by
    intro s₀ h
    unfold Connection.respond at h
    split at h
    · exact absurd h (by simp)
    · next s' buffers hsend =>
      obtain ⟨rfl, rfl⟩ := Outcome.responds.inj h
      exact hsend
  unfold Connection.serve at h
  split at h
  · split at h
    · exact absurd h (by simp)
    · exact absurd h (by simp)
    · exact ⟨_, hrespond _ h⟩
  · exact ⟨_, hrespond _ h⟩
  all_goals exact absurd h (by simp)

/-- The only answer that a look at a file leads to is a response. -/
theorem fileAnswer_response {uri : Bytes} {entry : FileEntry} {answer : Answer}
    (h : fileAnswer P uri entry = some answer) : ∃ code, answer = .response code uri := by
  cases entry with
  | inaccessible => exact absurd h (by simp [fileAnswer])
  | absent => exact ⟨404, (Option.some.inj h).symm⟩
  | closed => exact ⟨500, (Option.some.inj h).symm⟩
  | opened contents seekable =>
      rw [fileAnswer] at h
      split at h
      · exact ⟨200, (Option.some.inj h).symm⟩
      · exact absurd h (by simp)

theorem Serves.answered (h : Serves c chunks o) (hshutdown : c.shutdown = true)
    (hr : (service P).machine.Reachable o) (hfine : NotFailed o) : Answered c o := by
  have honce := ((service_invariant P).holds (service_linear P) hr).always
  have hw := weight_eq_one (service_linear P) hr
  have hanswer := Connection.serve_eq_answer hshutdown
  simp only [AsyncObject.weight] at hw
  cases h with
  | waits op hpending hsends _ =>
      rw [hpending, List.length_singleton] at hw
      exact ⟨honce.at_most_once, by simp [hsends], by simp [hsends], fun _ _ => by omega⟩
  | handles p hrunning hsends _ =>
      rw [hrunning, List.length_singleton] at hw
      exact ⟨honce.at_most_once, by simp [hsends], by simp [hsends], fun _ _ => by omega⟩
  | finished _ hsends houtcome =>
      refine ⟨honce.at_most_once, by simp [hsends], by simp [hsends], fun _ _ => ?_⟩
      rw [← hanswer, houtcome]
      rfl
  | threw hthrew hsends _ =>
      exact ⟨honce.at_most_once, by simp [hsends], by simp [hsends], fun _ _ => by omega⟩
  | undefined hundefined hsends _ =>
      exact ⟨honce.at_most_once, by simp [hsends], by simp [hsends], fun _ _ => by omega⟩
  | responded call hsends hrespond hsent =>
      have hready : Ready call.service := (honce.proper call (by simp [hsends])).ready
      refine ⟨honce.at_most_once, ?_, ?_, ?_⟩
      · simp only [hsends, List.mem_singleton, forall_eq]
        rw [← hanswer, ← hrespond]
        exact Connection.respond_answer hshutdown hready.found
      · simp only [hsends, List.mem_singleton, forall_eq]
        rcases hsent with ⟨-, hthrew⟩ | hsome
        · have hcalm := hfine.no_exception
          omega
        · obtain ⟨status, hstatus⟩ := Option.isSome_iff_exists.mp hready.found
          rw [← hrespond, Connection.respond, hshutdown, hsome]
          simp [Service.send_response, hstatus]
      · intro _ hnil
        exact absurd (hsends.symm.trans hnil) (by simp)

/-- No handler of any service has failed. -/
def Online.Fine (s : Online) : Prop := ∀ x ∈ s.server.services, NotFailed x.service

/-- **Every client is answered according to its own bytes**, whatever the other clients send,
whichever portions the bytes come in and however the handlers interleave, as long as no handler
fails. -/
theorem online_answered (h : (online w thread_pool_size).Reachable s) (hfine : s.Fine) :
    ∀ (j : Nat) (x : Served Op Point ServiceData), s.server.services[j]? = some x →
      Answered (w.connection j) x.service := by
  intro j x hx
  have hserves := (online_allServed h j).2 x hx
  have hmem := List.mem_of_getElem? hx
  exact hserves.answered rfl (reachable_service (online_server h) x hmem) (hfine x hmem)

/-- Two clients: one asks for a missing file, in two portions; the other one closes. -/
def twoClients : World where
  platform := .llp64
  fs _ := .absent
  incoming j :=
    if j = 0 then ⟨[bytes "GET /a HT", bytes "TP/1.1\r\nb:c\r\n\r\n"], .silent⟩
    else ⟨[], .eof⟩

/-- Both are accepted, and both services come to their end. -/
def twoClientsRun : List Event :=
  [.server, .accept 0 .success, .onAccept 0, .onAccept 0, .onAccept 0, .accept 0 .success,
    .onAccept 0, .onAccept 0, .onAccept 0, .completes 1 0 .eof, .completes 0 0 .success,
    .run 1 0 true, .run 0 0 true, .run 1 0 true, .completes 0 0 .success, .run 0 0 true,
    .run 0 0 true, .run 0 0 true, .completes 0 0 .success, .run 0 0 true, .run 0 0 true]

theorem twoClientsRun_exec :
    ((online twoClients 2).exec (online twoClients 2).init twoClientsRun).map
      (fun s => s.server.services.map fun x =>
        (x.service.deleted, x.service.threw, x.service.undefined)) =
      some [(1, 0, 0), (1, 0, 0)] := by
  decide

theorem online_answered_twoClients :
    ∃ s, (online twoClients 2).exec (online twoClients 2).init twoClientsRun = some s ∧ s.Fine ∧
      ∀ (j : Nat) (x : Served Op Point ServiceData), s.server.services[j]? = some x →
        Answered (twoClients.connection j) x.service := by
  obtain ⟨s, hs, he⟩ := Option.map_eq_some_iff.mp twoClientsRun_exec
  have hfine : s.Fine := by
    intro x hx
    have hmem := List.mem_map_of_mem (f := fun x =>
      (x.service.deleted, x.service.threw, x.service.undefined)) hx
    rw [he] at hmem
    simp only [List.mem_cons, Prod.mk.injEq, List.not_mem_nil, or_false, or_self] at hmem
    exact ⟨hmem.2.1, hmem.2.2⟩
  exact ⟨s, hs, hfine, online_answered (TransitionSystem.reachable_of_exec hs) hfine⟩

/-! ### At rest -/

def Event.ofHandler : Event → Bool
  | .onAccept _ | .completes _ _ _ | .run _ _ _ => true
  | .server | .accept _ _ => false

def Event.isAccept : Event → Bool
  | .accept _ _ => true
  | _ => false

/-- The handlers have nothing more to do: none of them takes a step, and no operation of a
service completes. -/
def OnlineStill (w : World) (thread_pool_size : Nat) (s : Online) : Prop :=
  (online w thread_pool_size).Quiescent Event.ofHandler s

/-- What a service has come to that was to give this answer. -/
def Answer.Settled (o : AsyncObject Op Point ServiceData) : Answer → Prop
  | .response m_response_status_code m_requested_resource =>
      o.deleted = 1 ∧ ∃ call, o.data.sends = [call] ∧
        call.service.m_response_status_code = m_response_status_code ∧
        call.service.m_requested_resource = m_requested_resource
  | .on_finish => o.deleted = 1 ∧ o.data.sends = []
  | .waiting => o.pending.length = 1 ∧ o.running = [] ∧ o.deleted = 0 ∧ o.data.sends = []

theorem step_of_online {a : AsyncServer.Action Input} {chunks : Nat → List Bytes}
    (h : (online w thread_pool_size).step s e = none) (ha : w.action s e = some (a, chunks)) :
    AsyncServer.step (service w.platform) thread_pool_size s.server a = none := by
  simpa only [online, ha, Option.bind_some, Option.map_eq_none_iff] using h

theorem online_running (h : OnlineStill w thread_pool_size s) : s.server.running = 0 := by
  refine running_of_stuck (step_of_online (h (.onAccept 0) rfl) rfl) ?_
  intro j x p _ _
  exact ⟨⟨true, w.fs⟩, stepPoint_isSome w.platform ⟨true, w.fs⟩ x.service.data p,
    step_of_online (h (.run j 0 true) rfl) rfl⟩

/-- Nothing goes on in a server all of whose services are gone. -/
theorem still_of_gone (hr : (online w thread_pool_size).Reachable s)
    (honAccept : s.server.onAccept = []) (hgone : ∀ x ∈ s.server.services, x.service.deleted = 1) :
    OnlineStill w thread_pool_size s := by
  have hnone : ∀ x ∈ s.server.services, x.service.pending = [] ∧ x.service.running = [] := by
    intro x hx
    have hw := weight_eq_one (service_linear w.platform)
      (reachable_service (online_server hr) x hx)
    have hdeleted := hgone x hx
    simp only [AsyncObject.weight] at hw
    exact ⟨List.length_eq_zero_iff.mp (by omega), List.length_eq_zero_iff.mp (by omega)⟩
  intro e he
  cases e with
  | server | accept i ec => exact absurd he Bool.false_ne_true
  | onAccept i =>
      simp [online, World.action, AsyncServer.step, AsyncServer.enabled, honAccept]
  | completes j i ec =>
      cases hx : s.server.services[j]? with
      | none => simp [online, World.action, hx]
      | some x =>
          obtain ⟨hpending, -⟩ := hnone x (List.mem_of_getElem? hx)
          simp [online, World.action, hx, hpending]
  | run j i shutdown =>
      cases hx : s.server.services[j]? with
      | none => simp [online, World.action, AsyncServer.step, AsyncServer.enabled, hx]
      | some x =>
          obtain ⟨-, hrunning⟩ := hnone x (List.mem_of_getElem? hx)
          simp [online, World.action, AsyncServer.step, AsyncServer.enabled, hx,
            Program.stepObject, hrunning]

/-- A service at rest waits for nothing but bytes. -/
theorem transferred_of_still (h : OnlineStill w thread_pool_size s)
    (hgoes : s.server.iosStopped = false) (hpool : 0 < thread_pool_size) {j i : Nat}
    {x : Served Op Point ServiceData} {op : Op} (hx : s.server.services[j]? = some x)
    (hop : x.service.pending[i]? = some op) (ec : ErrorCode) :
    transferred (w.incoming j).ending x.service.data.service (s.chunks j) ec op = none := by
  by_contra hne
  obtain ⟨⟨received, left⟩, hsome⟩ := Option.ne_none_iff_exists'.mp hne
  have ha : w.action s (.completes j i ec) =
      some (.service j (.complete i ec received), Function.update s.chunks j left) := by
    simp only [World.action, hx, hop, hsome, Option.bind_some, Option.map_some]
  have hstep := step_of_online (h (.completes j i ec) rfl) ha
  have hzero := online_running h
  simp [AsyncServer.step, enabled, mayInvoke, hgoes, hzero, hpool, hx, Program.stepObject,
    hop] at hstep

/-- A read that brings nothing leaves its connection waiting. -/
theorem Connection.ofOp_waiting {s : Service} {op : Op} {out : Outcome}
    (h : c.ofOp s chunks op = some out)
    (hread : ∀ ec, transferred c.incoming.ending s chunks ec op = none) : out = .waiting := by
  have hcompletion : ∀ delim, op.delimiter = some delim →
      (async_read_until delim (some max_request) c.incoming.ending s.m_request chunks).completion =
        none := by
    intro delim hdelim
    by_contra hne
    obtain ⟨ec, hec⟩ := Option.ne_none_iff_exists'.mp hne
    have hnone := hread ec
    simp [transferred, hdelim, hec] at hnone
  cases op with
  | on_request_line_received =>
      simp only [Connection.ofOp, hcompletion CRLF rfl, Option.some.injEq] at h
      exact h.symm
  | on_headers_received =>
      simp only [Connection.ofOp, Connection.read_headers, hcompletion (CRLF ++ CRLF) rfl,
        Option.some.injEq] at h
      exact h.symm
  | on_response_sent => exact absurd h (by simp [Connection.ofOp])

theorem Serves.settled (h : Serves c chunks o) (hr : (service P).machine.Reachable o)
    (hshutdown : c.shutdown = true) (hfine : NotFailed o) (hrunning : o.running = [])
    (hread : ∀ op, o.pending = [op] → ∀ ec,
      transferred c.incoming.ending o.data.service chunks ec op = none) :
    ∃ answer, c.answer = some answer ∧ answer.Settled o := by
  have hw := weight_eq_one (service_linear P) hr
  have hanswer := Connection.serve_eq_answer hshutdown
  have hended := AsyncObject.pending_or_deleted hw hrunning hfine.no_exception hfine.defined
  have hresponse := (h.answered hshutdown hr hfine).response
  cases h with
  | waits op hpending hsends houtcome =>
      have hwaiting := Connection.ofOp_waiting houtcome (hread op hpending)
      refine ⟨.waiting, ?_, ?_⟩
      · rw [← hanswer, hwaiting]
        rfl
      · have hone : o.pending.length = 1 := by simp [hpending]
        refine ⟨hone, hrunning, ?_, hsends⟩
        rcases hended with ⟨-, hdeleted⟩ | ⟨hnil, -⟩
        · exact hdeleted
        · exact absurd (hpending.symm.trans hnil) nofun
  | handles p hp _ _ => exact absurd (hrunning.symm.trans hp) nofun
  | finished hdeleted hsends houtcome =>
      refine ⟨.on_finish, ?_, hdeleted, hsends⟩
      rw [← hanswer, houtcome]
      rfl
  | threw hthrew _ _ => exact absurd hfine.no_exception (by omega)
  | undefined hundefined _ _ => exact absurd hfine.defined (by omega)
  | responded call hsends hrespond hsent =>
      refine ⟨_, hresponse call (by simp [hsends]), ?_, call, hsends, rfl, rfl⟩
      rcases hended with ⟨hone, -⟩ | ⟨-, hdeleted⟩
      · -- only the write could be pending, and a write completes
        obtain ⟨op, hop⟩ := List.length_eq_one_iff.mp hone
        have hpending := ((service_invariant P).holds (service_linear P) hr).pending op
          (by simp [hop])
        cases op with
        | on_response_sent => exact absurd (hread .on_response_sent hop .success) nofun
        | on_request_line_received | on_headers_received =>
            exact absurd (hsends.symm.trans hpending.2) nofun
      · exact hdeleted

/-- Where a run of the server with its connections leads. -/
structure Settles (w : World) (thread_pool_size : Nat) (es : List Event) (s : Online) : Prop where
  /-- Each accept costs at most twelve steps. -/
  bounded : es.countP Event.ofHandler ≤ 12 * es.countP Event.isAccept
  /-- Where the handlers have nothing more to do, each accepted connection has a service and
  has got its answer, unless `Stop` was called or a handler has failed. -/
  settled : OnlineStill w thread_pool_size s → s.server.iosStopped = false → s.Fine →
    s.server.services.map (·.m_sock) = s.server.accepted ∧
      ∀ (j : Nat) (x : Served Op Point ServiceData), s.server.services[j]? = some x →
        ∃ answer, (w.connection j).answer = some answer ∧ answer.Settled x.service

theorem action_of_event {a : AsyncServer.Action Input} {chunks : Nat → List Bytes}
    (h : w.action s e = some (a, chunks)) :
    a.ofHandler = e.ofHandler ∧ a.isAccept = e.isAccept := by
  cases e with
  | completes j i ec =>
      obtain ⟨x, -, h⟩ := Option.bind_eq_some_iff.mp h
      obtain ⟨op, -, h⟩ := Option.bind_eq_some_iff.mp h
      obtain ⟨r, -, h⟩ := Option.map_eq_some_iff.mp h
      obtain ⟨rfl, -⟩ := Prod.mk.inj h
      exact ⟨rfl, rfl⟩
  | _ =>
      obtain ⟨rfl, -⟩ := Prod.mk.inj (Option.some.inj h)
      exact ⟨rfl, rfl⟩

theorem online_potential (w : World) (thread_pool_size : Nat) :
    (online w thread_pool_size).Potential (fun _ => True) Event.ofHandler
      (fun e => if e.isAccept then 12 else 0) fun s => s.server.cost rankOp rankPoint 9 := by
  refine ⟨?_⟩
  intro s e s' hr _ hs
  obtain ⟨a, ha, hserver⟩ := online_inv hs
  obtain ⟨hof, haccept⟩ := action_of_event ha
  have hpotential : (machine (service w.platform) thread_pool_size).Potential _ _ _ _ :=
    potential (service_linear w.platform) (service_ranked w.platform)
  have hpays := hpotential.pays (online_server hr) trivial hserver
  rw [hof, haccept] at hpays
  exact hpays

/-- **Every client gets its answer**, after a bounded number of steps. -/
theorem online_settles (hpool : 0 < thread_pool_size) {es : List Event}
    (he : (online w thread_pool_size).exec (online w thread_pool_size).init es = some s) :
    Settles w thread_pool_size es s := by
  have hr := TransitionSystem.reachable_of_exec he
  refine ⟨?_, ?_⟩
  · have hle := (online_potential w thread_pool_size).countP_le .init (fun _ _ => trivial) he
    have hinit : (online w thread_pool_size).init.server.cost rankOp rankPoint 9 = 0 := rfl
    rw [sum_map_ite, hinit] at hle
    omega
  · intro hstill hgoes hfine
    obtain ⟨honAccept, hrunning⟩ := State.running_eq_zero.mp (online_running hstill)
    refine ⟨?_, ?_⟩
    · simpa [honAccept] using (reachable_chain (online_server hr)).sockets
    · intro j x hx
      have hmem := List.mem_of_getElem? hx
      refine ((online_allServed hr j).2 x hx).settled (reachable_service (online_server hr) x hmem)
        rfl (hfine x hmem) (hrunning x hmem) ?_
      intro op hop ec
      have hfirst : x.service.pending[0]? = some op := by rw [hop]; rfl
      exact transferred_of_still hstill hgoes hpool hx hfirst ec

theorem online_settles_twoClients :
    ∃ s, (online twoClients 2).exec (online twoClients 2).init twoClientsRun = some s ∧
      Settles twoClients 2 twoClientsRun s := by
  obtain ⟨s, hs, -⟩ := Option.map_eq_some_iff.mp twoClientsRun_exec
  exact ⟨s, hs, online_settles (by decide) hs⟩

end AsioStudy.HttpServer
