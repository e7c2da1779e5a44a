import AsioStudy.SyncService.Network

/-!
# AsioStudy.SyncService.Clients

What the clients of a synchronous server get, in any interleaving of any number of clients.

* `clients_in_order`: a client that returns has got the response to its own request, and the
  loop server serves its clients one after the other, in the order of their connections.
* `clients_settle`: the network comes to rest after a bounded number of steps, and there every
  client that was accepted has its response, unless something has failed.
* `accepted_after_stop`: after `Stop` has stored its flag, at most one more client is accepted.
-/

namespace AsioStudy.SyncService

variable {server : Server} {s s' : State} {a : Action} {x y : Session} {i : Nat}

/-! ### The order of service -/

theorem forall_getElem?_set {α : Type*} {P : Nat → α → Prop} {l : List α} {k : Nat} {v : α}
    (h : ∀ i x, l[i]? = some x → P i x) (hv : P k v) : ∀ i x, (l.set k v)[i]? = some x → P i x := by
  intro i x hx
  by_cases hik : k = i
  · subst hik
    rw [List.getElem?_set_self'] at hx
    obtain ⟨-, -, rfl⟩ := Option.map_eq_some_iff.mp hx
    exact hv
  · rw [List.getElem?_set_ne hik] at hx
    exact h i x hx

theorem forall_getElem?_concat {α : Type*} {P : Nat → α → Prop} {l : List α} {v : α}
    (h : ∀ i x, l[i]? = some x → P i x) (hv : P l.length v) :
    ∀ i x, (l ++ [v])[i]? = some x → P i x := by
  intro i x hx
  rcases Nat.lt_trichotomy i l.length with hi | rfl | hi
  · rw [List.getElem?_append_left hi] at hx
    exact h i x hx
  · rw [List.getElem?_concat_length] at hx
    obtain rfl := Option.some.inj hx
    exact hv
  · rw [List.getElem?_eq_none (by rw [List.length_append, List.length_singleton]; omega)] at hx
    exact absurd hx (by simp)

/-- Where the server may be with its `i`-th client. -/
structure Placed (server : Server) (s : State) (i : Nat) (x : Session) : Prop where
  waiting : s.accepted ≤ i → x.service = .waiting
  called : i < s.accepted → x.service = .waiting → s.run = .serve ∧ i + 1 = s.accepted
  serve : s.run = .serve → i + 1 = s.accepted → x.service = .waiting
  /-- The loop server is only ever busy with the last client it has accepted. -/
  loop : server = .loop_sync_server → i < s.accepted →
    x.service = .ended ∨ i + 1 = s.accepted ∧ (s.run = .serve ∨ s.run = .handleClient)

structure Order (server : Server) (s : State) : Prop where
  idle : s.pc = .idle ↔ s.run = .idle
  returned : s.pc = .returned → s.run = .ended
  accepted_le : s.accepted ≤ s.sessions.length
  placed : ∀ i x, s.sessions[i]? = some x → Placed server s i x
  serve : s.run = .serve → 0 < s.accepted
  handleClient : s.run = .handleClient → server = .loop_sync_server ∧ 0 < s.accepted

theorem ClientStep.service {o : Pipe.Outcome} (h : ClientStep x o y) : y.service = x.service := by
  cases h <;> rfl

theorem ServiceStep.service {o : Pipe.Outcome} (h : ServiceStep x o y) :
    x.service ≠ .waiting ∧ x.service ≠ .ended ∧ y.service ≠ .waiting := by
  cases h with
  | throws hbusy =>
      refine ⟨?_, ?_, by simp [Session.drop]⟩ <;>
      · intro hpc
        simp [Session.serviceBusy, hpc] at hbusy
  | received hpc _ | written hpc | write hpc _ => simp [hpc, Session.drop]
  | eof hpc _ _ | read hpc _ _ => simp [hpc, Session.drop]

theorem Placed.congr (h : Placed server s i x) (hservice : y.service = x.service) :
    Placed server s i y := by
  refine ⟨?_, ?_, ?_, ?_⟩ <;> rw [hservice]
  · exact h.waiting
  · exact h.called
  · exact h.serve
  · exact h.loop

/-- A service that runs is one of those that may. -/
theorem Placed.service {o : Pipe.Outcome} (h : Placed server s i x) (hs : ServiceStep x o y) :
    Placed server s i y := by
  obtain ⟨hwaiting, hended, hwaiting'⟩ := hs.service
  refine ⟨?_, ?_, ?_, ?_⟩
  · intro hle
    exact absurd (h.waiting hle) hwaiting
  · intro _ hy
    exact absurd hy hwaiting'
  · intro hrun hlast
    exact absurd (h.serve hrun hlast) hwaiting
  · intro hloop hlt
    exact .inr ((h.loop hloop hlt).resolve_left hended)

theorem Placed.of_eq (h : Placed server s i x) (haccepted : s'.accepted = s.accepted)
    (hrun : s'.run = s.run) : Placed server s' i x := by
  refine ⟨?_, ?_, ?_, ?_⟩ <;> simp only [haccepted, hrun]
  · exact h.waiting
  · exact h.called
  · exact h.serve
  · exact h.loop

/-- `Run` goes on, and nobody is left waiting for it. -/
theorem Placed.of_run (h : Placed server s i x) (haccepted : s'.accepted = s.accepted)
    (hserve' : s'.run ≠ .serve) (hserve : s.run = .serve → i + 1 = s.accepted → False)
    (hloop : s.run = .handleClient → i + 1 = s.accepted → x.service = .ended) :
    Placed server s' i x := by
  refine ⟨?_, ?_, ?_, ?_⟩
  · rw [haccepted]
    exact h.waiting
  · rw [haccepted]
    intro hlt hx
    obtain ⟨hrun, hlast⟩ := h.called hlt hx
    exact absurd (hserve hrun hlast) id
  · intro hrun
    exact absurd hrun hserve'
  · rw [haccepted]
    intro hs hlt
    rcases h.loop hs hlt with hended | ⟨hlast, hrun | hrun⟩
    · exact .inl hended
    · exact absurd (hserve hrun hlast) id
    · exact .inl (hloop hrun hlast)

/-- One more client is accepted. -/
theorem Placed.accept (h : Placed server s i x) (hrun : s.run = .accept) :
    Placed server { s with run := .serve, accepted := s.accepted + 1 } i x := by
  refine ⟨?_, ?_, ?_, ?_⟩
  · intro hle
    exact h.waiting (Nat.le_of_succ_le hle)
  · intro hlt hx
    refine ⟨rfl, ?_⟩
    by_contra hne
    have hlt' : i < s.accepted := by
      simp only at hlt hne
      omega
    exact absurd (hrun.symm.trans (h.called hlt' hx).1) (by simp)
  · intro _ hlast
    exact h.waiting (by simp only at hlast; omega)
  · intro hs hlt
    by_cases hlt' : i < s.accepted
    · rcases h.loop hs hlt' with hended | ⟨-, hrun' | hrun'⟩
      · exact .inl hended
      · exact absurd (hrun.symm.trans hrun') (by simp)
      · exact absurd (hrun.symm.trans hrun') (by simp)
    · exact .inr ⟨by simp only at hlt ⊢; omega, .inl rfl⟩

/-- `Run` is done with the call of `HandleClient` for the last client, `y`. -/
theorem Order.setLast (hi : Order server s) (hrun : s.run = .serve) (hy : y.service ≠ .waiting)
    {run : RunPc} (hserve' : run ≠ .serve)
    (hloop : server = .loop_sync_server → run = .handleClient) :
    ∀ i x, (s.setLast y).sessions[i]? = some x → Placed server { s.setLast y with run := run } i x := by
  have hpos := hi.serve hrun
  -- everybody but the last client is where he was
  have hothers : ∀ i x, s.sessions[i]? = some x → i + 1 ≠ s.accepted →
      Placed server { s.setLast y with run := run } i x := by
    intro i x hx hne
    refine (hi.placed i x hx).of_run rfl hserve' (fun _ hlast => hne hlast) ?_
    intro _ hlast
    exact absurd hlast hne
  intro i x hx
  by_cases hlast : i + 1 = s.accepted
  · have hindex : s.accepted - 1 = i := by omega
    simp only [State.setLast, hindex, List.getElem?_set_self'] at hx
    obtain ⟨-, -, rfl⟩ := Option.map_eq_some_iff.mp hx
    refine ⟨?_, ?_, ?_, ?_⟩
    · intro hle
      simp only [State.setLast] at hle
      omega
    · intro _ hwaiting
      exact absurd hwaiting hy
    · intro hrun'
      exact absurd hrun' hserve'
    · intro hs _
      exact .inr ⟨hlast, .inr (hloop hs)⟩
  · have hne : s.accepted - 1 ≠ i := by omega
    simp only [State.setLast, List.getElem?_set_ne hne] at hx
    exact hothers i x hx hlast

theorem State.last_of_getElem? (hx : s.sessions[i]? = some x) (hlast : i + 1 = s.accepted) :
    s.last = some x := by
  rw [State.last, ← hlast]
  exact hx

/-- `Run` is between its first step and its last. -/
def RunPc.goes : RunPc → Bool
  | .idle | .ended | .threw => false
  | _ => true

theorem Order.not_returned (hi : Order server s) (hgoes : s.run.goes = true) :
    s.pc ≠ .returned := by
  intro hpc
  rw [hi.returned hpc] at hgoes
  exact absurd hgoes (by simp [RunPc.goes])

theorem Order.idle_of_goes (hi : Order server s) (hgoes : s.run.goes = true) {run : RunPc}
    (hidle : run ≠ .idle) : s.pc = .idle ↔ run = .idle := by
  refine iff_of_false ?_ hidle
  intro hpc
  rw [hi.idle.mp hpc] at hgoes
  exact absurd hgoes (by simp [RunPc.goes])

/-- `Run` goes on without a client. -/
theorem Order.move (hi : Order server s) (hgoes : s.run.goes = true) (hserve : s.run ≠ .serve)
    (hhandle : s.run = .handleClient → ∀ x, s.last = some x → x.service = .ended) {run : RunPc}
    (hidle' : run ≠ .idle) (hserve' : run ≠ .serve) (hhandle' : run ≠ .handleClient) :
    Order server { s with run := run } := by
  refine ⟨hi.idle_of_goes hgoes hidle', fun hpc => absurd hpc (hi.not_returned hgoes),
    hi.accepted_le, ?_, fun hrun => absurd hrun hserve', fun hrun => absurd hrun hhandle'⟩
  intro i x hx
  refine (hi.placed i x hx).of_run rfl hserve' (fun hrun _ => hserve hrun) ?_
  intro hrun hlast
  exact hhandle hrun x (State.last_of_getElem? hx hlast)

theorem Step.order (h : Step server s a s') (hi : Order server s) : Order server s' := by
  cases h with
  | start hpc =>
      have hrun := hi.idle.mp hpc
      refine ⟨by simp, by simp, hi.accepted_le, ?_, by simp, by simp⟩
      intro i x hx
      refine (hi.placed i x hx).of_run rfl (by simp) ?_ ?_
      · exact fun hrun' => absurd (hrun.symm.trans hrun') (by simp)
      · exact fun hrun' => absurd (hrun.symm.trans hrun') (by simp)
  | store hpc =>
      have hidle := hi.idle
      simp only [hpc, reduceCtorEq, false_iff] at hidle
      exact ⟨by simpa using hidle, by simp, hi.accepted_le,
        fun i x hx => (hi.placed i x hx).of_eq rfl rfl, hi.serve, hi.handleClient⟩
  | join hpc hrun =>
      exact ⟨by simp [hrun], fun _ => hrun, hi.accepted_le,
        fun i x hx => (hi.placed i x hx).of_eq rfl rfl, hi.serve, hi.handleClient⟩
  | construct hrun =>
      exact hi.move (by rw [hrun]; rfl) (by simp [hrun]) (by simp [hrun]) (by simp) (by simp)
        (by simp)
  | load hrun =>
      refine hi.move (by rw [hrun]; rfl) (by simp [hrun]) (by simp [hrun]) ?_ ?_ ?_ <;>
        cases s.m_stop <;> simp
  | throws hrun =>
      rcases hrun with hrun | hrun <;>
        exact hi.move (by rw [hrun]; rfl) (by simp [hrun]) (by simp [hrun]) (by simp) (by simp)
          (by simp)
  | accept hrun hlt =>
      have hgoes : s.run.goes = true := by rw [hrun]; rfl
      exact ⟨hi.idle_of_goes hgoes (by simp), fun hpc => absurd hpc (hi.not_returned hgoes), hlt,
        fun i x hx => (hi.placed i x hx).accept hrun, fun _ => Nat.succ_pos _, by simp⟩
  | @serve n x y hrun hx hy =>
      have hgoes : s.run.goes = true := by rw [hrun]; rfl
      have hcalled : y.service ≠ .waiting := by
        cases stepSession_inv hy
        simp
      refine ⟨hi.idle_of_goes hgoes (by cases server <;> simp [Server.next]),
        fun hpc => absurd hpc (hi.not_returned hgoes), ?_, ?_, ?_, ?_⟩
      · simpa [State.setLast] using hi.accepted_le
      · exact hi.setLast hrun hcalled (by cases server <;> simp [Server.next])
          (fun hloop => by rw [hloop, Server.next])
      · intro hrun'
        exact absurd hrun' (by cases server <;> simp [Server.next])
      · intro hrun'
        refine ⟨?_, hi.serve hrun⟩
        cases server <;> simp [Server.next] at hrun' ⊢
  | @handled n x hrun hx hended =>
      refine hi.move (by rw [hrun]; rfl) (by simp [hrun]) ?_ (by simp) (by simp) (by simp)
      intro _ z hz
      obtain rfl := Option.some.inj (hx.symm.trans hz)
      exact hended
  | @drop ec x y hparallel hrun hx hy =>
      have hgoes : s.run.goes = true := by rw [hrun]; rfl
      have hended : y.service ≠ .waiting := by
        cases stepSession_inv hy
        simp [Session.drop]
      refine ⟨hi.idle_of_goes hgoes (by simp), fun hpc => absurd hpc (hi.not_returned hgoes), ?_,
        ?_, by simp, by simp⟩
      · simpa [State.setLast] using hi.accepted_le
      · exact hi.setLast hrun hended (by simp)
          (fun hloop => absurd (hparallel.symm.trans hloop) (by simp))
  | connect hlistening =>
      refine ⟨hi.idle, hi.returned, ?_, ?_, hi.serve, hi.handleClient⟩
      · rw [List.length_append]
        exact Nat.le_add_right_of_le hi.accepted_le
      · refine forall_getElem?_concat (fun i x hx => (hi.placed i x hx).of_eq rfl rfl) ?_
        have hle := hi.accepted_le
        refine ⟨fun _ => rfl, ?_, fun _ _ => rfl, ?_⟩
        · intro hlt
          exact absurd hlt (Nat.not_lt.mpr hle)
        · intro _ hlt
          exact absurd hlt (Nat.not_lt.mpr hle)
  | client hx hy =>
      refine ⟨hi.idle, hi.returned, by simpa using hi.accepted_le, ?_, hi.serve, hi.handleClient⟩
      have hplaced := hi.placed _ _ hx
      exact forall_getElem?_set (fun i x hx => (hi.placed i x hx).of_eq rfl rfl)
        ((hplaced.congr (stepClient_inv hy).service).of_eq rfl rfl)
  | service hx hy =>
      refine ⟨hi.idle, hi.returned, by simpa using hi.accepted_le, ?_, hi.serve, hi.handleClient⟩
      have hplaced := hi.placed _ _ hx
      exact forall_getElem?_set (fun i x hx => (hi.placed i x hx).of_eq rfl rfl)
        ((hplaced.service (stepService_inv hy)).of_eq rfl rfl)

theorem reachable_order (h : (network server).Reachable s) : Order server s := by
  refine h.invariant (P := Order server) ?_ ?_
  · exact ⟨iff_of_true rfl rfl, nofun, Nat.le_refl _, by simp [network, State.init], nofun, nofun⟩
  · intro s a s' _ hi hs
    exact (step_inv hs).order hi

/-- What holds of the clients at any time. -/
structure InOrder (server : Server) (s : State) : Prop where
  /-- A service answers the whole request of its client. -/
  request : ∀ x ∈ s.sessions, ∀ left, x.service = .write left →
    x.request = SyncTcpClient.request x.duration_sec
  /-- A client returns with the answer to its request. -/
  response : ∀ x ∈ s.sessions, ∀ response, x.client = .returned response →
    response = bytes "Response" ∧ x.request = SyncTcpClient.request x.duration_sec
  /-- Nobody is served before those that have connected earlier; with the loop server, they
  have been served to the end. -/
  order : ∀ (i j : Nat) (x y : Session), s.sessions[i]? = some x → s.sessions[j]? = some y →
    i < j → y.service ≠ .waiting →
    x.service ≠ .waiting ∧ (server = .loop_sync_server → x.service = .ended)

/-- **The clients are served in order**, and each gets the answer to its own request. -/
theorem clients_in_order (h : (network server).Reachable s) : InOrder server s := by
  have hsession := reachable_session h
  have horder := reachable_order h
  refine ⟨?_, ?_, ?_⟩
  · intro x hx left hleft
    exact (hsession x hx).request_of_mem ((hsession x hx).answers left hleft)
  · intro x hx response hresponse
    exact (hsession x hx).response (by rw [hresponse]; rfl)
  · intro i j x y hx hy hij hcalled
    have hlt : i + 1 < s.accepted := by
      by_contra hnot
      exact hcalled ((horder.placed j y hy).waiting (by omega))
    have hplaced := horder.placed i x hx
    refine ⟨?_, ?_⟩
    · intro hwaiting
      have hlast := (hplaced.called (by omega) hwaiting).2
      omega
    · intro hloop
      rcases hplaced.loop hloop (by omega) with hended | ⟨hlast, -⟩
      · exact hended
      · omega

/-- Two clients have connected before the first of them is accepted; each of the texts arrives
in portions. -/
def servedRun : List Action :=
  [.server, .run (.ok 0), .connect 10, .connect 3, .run (.ok 0), .run (.ok 0), .run (.ok 0),
    .client 1 (.ok 23), .client 0 (.ok 20), .client 0 (.ok 4), .client 0 (.ok 0), .client 1 (.ok 0),
    .service 0 (.ok 24), .service 0 (.ok 0), .service 0 (.ok 4), .service 0 (.ok 5),
    .service 0 (.ok 0), .run (.ok 0), .run (.ok 0), .run (.ok 0), .run (.ok 0),
    .client 0 (.ok 9), .client 0 (.ok 0), .client 0 (.ok 0),
    .service 1 (.ok 23), .service 1 (.ok 0), .service 1 (.ok 9), .service 1 (.ok 0),
    .client 1 (.ok 9), .client 1 (.ok 0), .client 1 (.ok 0), .run (.ok 0), .run (.ok 0)]

theorem servedRun_exec :
    ((network .loop_sync_server).exec (network .loop_sync_server).init servedRun).map
        (fun s => s.sessions.map (·.client)) =
      some [.returned (bytes "Response"), .returned (bytes "Response")] := by decide

theorem clients_in_order_servedRun :
    ∃ s, (network .loop_sync_server).exec (network .loop_sync_server).init servedRun = some s ∧
      s.sessions.map (·.client) = [.returned (bytes "Response"), .returned (bytes "Response")] ∧
      InOrder .loop_sync_server s := by
  obtain ⟨s, hs, hclients⟩ := Option.map_eq_some_iff.mp servedRun_exec
  exact ⟨s, hs, hclients, clients_in_order (TransitionSystem.reachable_of_exec hs)⟩

/-! ### The steps that are left -/

def serverCost : ParallelSyncTcpServer.ServerPc → Nat
  | .idle => 3
  | .running => 2
  | .join => 1
  | .returned => 0

/-- The steps of `Run` up to its next `accept`, and its end. -/
def RunPc.cost : RunPc → Nat
  | .serve => 4
  | .idle | .construct | .handleClient => 3
  | .load => 2
  | .accept => 1
  | .ended | .threw => 0

/-- The steps that are left; a client that is accepted causes four of `Run`. -/
def State.cost (s : State) : Nat :=
  serverCost s.pc + s.run.cost + 4 * (s.sessions.length - s.accepted) +
    (s.sessions.map Session.cost).sum

def Action.isConnect : Action → Bool
  | .connect _ => true
  | _ => false

theorem State.cost_setLast (hx : s.last = some x) (hcost : y.cost ≤ x.cost) {run : RunPc}
    (hrun : run.cost + 1 ≤ s.run.cost) : ({ s.setLast y with run := run } : State).cost + 1 ≤ s.cost := by
  have hset := sum_map_set Session.cost y hx
  simp only [State.cost, State.setLast, List.length_set]
  omega

theorem network_potential (server : Server) :
    (network server).Potential (fun _ => True) (fun _ => true)
      (fun a => if a.isConnect then 92 else 0) State.cost := by
  refine ⟨?_⟩
  intro s a s' hr _ hs
  have hsession := reachable_session hr
  have horder := reachable_order hr
  show s'.cost + 1 ≤ s.cost + _
  cases step_inv hs with
  | start hpc =>
      simp only [State.cost, hpc, horder.idle.mp hpc, serverCost, RunPc.cost]
      omega
  | store hpc | join hpc _ =>
      simp only [State.cost, hpc, serverCost]
      omega
  | construct hrun =>
      simp only [State.cost, hrun, RunPc.cost]
      omega
  | load hrun =>
      cases hstop : s.m_stop <;> simp only [State.cost, hrun, RunPc.cost, if_true, if_false,
        Bool.false_eq_true] <;> omega
  | accept hrun hlt =>
      simp only [State.cost, hrun, RunPc.cost]
      omega
  | @serve n x y hrun hx hy =>
      cases stepSession_inv hy with
      | serve hwaiting =>
          have hnext : server.next.cost + 1 ≤ s.run.cost := by
            cases server <;> simp [hrun, Server.next, RunPc.cost]
          have hsame : ({ x with service := .read } : Session).cost ≤ x.cost := by
            simp [Session.cost, hwaiting, HandlePc.cost]
          have hle := State.cost_setLast hx hsame hnext
          omega
  | handled hrun _ _ =>
      simp only [State.cost, hrun, RunPc.cost]
      omega
  | throws hrun =>
      rcases hrun with hrun | hrun <;> simp only [State.cost, hrun, RunPc.cost] <;> omega
  | @drop ec x y _ hrun hx hy =>
      cases stepSession_inv hy with
      | drop _ =>
          have hthrew : RunPc.threw.cost + 1 ≤ s.run.cost := by simp [hrun, RunPc.cost]
          have hle := State.cost_setLast hx x.cost_drop_le hthrew
          omega
  | @connect duration_sec _ =>
      have hnew := Session.cost_new_le duration_sec
      simp only [State.cost, Action.isConnect, if_true, List.map_append, List.sum_append,
        List.map_cons, List.map_nil, List.sum_cons, List.sum_nil, List.length_append,
        List.length_singleton]
      omega
  | @client i o x y hx hy =>
      have hcost := (stepClient_inv hy).cost (hsession x (List.mem_of_getElem? hx))
      have hset := sum_map_set Session.cost y hx
      simp only [State.cost, List.length_set]
      omega
  | @service i o x y hx hy =>
      have hcost := (stepService_inv hy).cost (hsession x (List.mem_of_getElem? hx))
      have hset := sum_map_set Session.cost y hx
      simp only [State.cost, List.length_set]
      omega

/-! ### Completion -/

/-- A step that one of the threads takes by itself. -/
def Action.own : Action → Bool
  | .run (.ok _) | .client _ (.ok _) | .service _ (.ok _) => true
  | _ => false

/-- Nothing can happen any more but a failure, a new client, or a call of `Start` or `Stop`. -/
structure Still (server : Server) (s : State) : Prop where
  own : (network server).Quiescent Action.own s
  join : s.pc = .join → stepServer s = none

theorem Still.client (h : Still server s) (hx : s.sessions[i]? = some x) (n : Nat) :
    stepClient x (.ok n) = none := by
  have hstep := h.own (.client i (.ok n)) rfl
  simpa [network, step, hx] using hstep

theorem Still.service (h : Still server s) (hx : s.sessions[i]? = some x) (n : Nat) :
    stepService x (.ok n) = none := by
  have hstep := h.own (.service i (.ok n)) rfl
  simpa [network, step, hx] using hstep

theorem Order.exists_last (hi : Order server s) (hpos : 0 < s.accepted) :
    ∃ x, s.last = some x ∧ s.sessions[s.accepted - 1]? = some x := by
  have hlt : s.accepted - 1 < s.sessions.length := by
    have hle := hi.accepted_le
    omega
  exact ⟨_, List.getElem?_eq_getElem hlt, List.getElem?_eq_getElem hlt⟩

/-- A session whose service was called has come to its end. -/
theorem Still.ended (h : Still server s) (hr : (network server).Reachable s)
    (hx : s.sessions[i]? = some x) (hcalled : x.service ≠ .waiting) :
    x.service = .ended ∧ x.client.ended = true :=
  (reachable_session hr x (List.mem_of_getElem? hx)).ended_of_still (h.client hx) (h.service hx)
    hcalled

/-- **`Run` waits for a client, or it is over.** -/
theorem Still.run (h : Still server s) (hr : (network server).Reachable s) :
    s.run = .idle ∨ s.run = .ended ∨ s.run = .threw ∨
      s.run = .accept ∧ s.accepted = s.sessions.length := by
  have hi := reachable_order hr
  have hrun : stepRun server s (.ok 0) = none := h.own (.run (.ok 0)) rfl
  cases hpc : s.run with
  | idle => exact .inl rfl
  | ended => exact .inr (.inl rfl)
  | threw => exact .inr (.inr (.inl rfl))
  | construct => exact absurd hrun (by simp [stepRun, hpc])
  | load => exact absurd hrun (by simp [stepRun, hpc])
  | accept =>
      refine .inr (.inr (.inr ⟨rfl, ?_⟩))
      have hle := hi.accepted_le
      simp only [stepRun, hpc] at hrun
      split at hrun
      · exact absurd hrun (by simp)
      · omega
  | serve =>
      have hpos := hi.serve hpc
      obtain ⟨x, hlast, hx⟩ := hi.exists_last hpos
      have hwaiting := (hi.placed _ x hx).serve hpc (by omega)
      exact absurd hrun (by simp [stepRun, hpc, hlast, stepSession, hwaiting])
  | handleClient =>
      have hpos := (hi.handleClient hpc).2
      obtain ⟨x, hlast, hx⟩ := hi.exists_last hpos
      have hcalled : x.service ≠ .waiting := by
        intro hwaiting
        have hserve := ((hi.placed _ x hx).called (by omega) hwaiting).1
        exact absurd (hpc.symm.trans hserve) (by simp)
      have hended := (h.ended hr hx hcalled).1
      exact absurd hrun (by simp [stepRun, hpc, hlast, hended])

/-- Where a run of the network leads. -/
structure Settles (server : Server) (as : List Action) (s : State) : Prop where
  /-- A client costs at most 92 steps, with those of the server. -/
  bounded : as.length ≤ 6 + 92 * as.countP Action.isConnect
  /-- Where nothing can happen any more but a failure or a new client, `Run` waits in `accept`
  and has accepted everybody, or it is over. -/
  run : Still server s → s.pc ≠ .idle → s.run = .ended ∨ s.run = .threw ∨
    s.run = .accept ∧ s.accepted = s.sessions.length
  /-- Every client that was accepted has come to its end, and so has its service. -/
  accepted : Still server s → ∀ i x, s.sessions[i]? = some x → i < s.accepted →
    x.service = .ended ∧ x.client.ended = true
  /-- Without a failure it has its response. -/
  answered : Still server s → (∀ a ∈ as, a.fault = false) →
    ∀ i x, s.sessions[i]? = some x → i < s.accepted → x.client = .returned (bytes "Response")
  /-- `Stop` has returned, unless `Run` has thrown or waits for one more client. -/
  stop : Still server s → s.pc = .join → s.run = .threw ∨
    s.run = .accept ∧ s.accepted = s.sessions.length

/-- **Every client is served**, after a bounded number of steps. -/
theorem clients_settle {as : List Action}
    (he : (network server).exec (network server).init as = some s) : Settles server as s := by
  have hr := TransitionSystem.reachable_of_exec he
  have hi := reachable_order hr
  have haccepted : Still server s → ∀ i x, s.sessions[i]? = some x → i < s.accepted →
      x.service = .ended ∧ x.client.ended = true := by
    intro hstill i x hx hlt
    refine hstill.ended hr hx ?_
    intro hwaiting
    have hserve := ((hi.placed i x hx).called hlt hwaiting).1
    rcases hstill.run hr with hrun | hrun | hrun | ⟨hrun, -⟩ <;>
      exact absurd (hrun.symm.trans hserve) (by simp)
  have hrun : Still server s → s.pc ≠ .idle → s.run = .ended ∨ s.run = .threw ∨
      s.run = .accept ∧ s.accepted = s.sessions.length := by
    intro hstill hpc
    exact (hstill.run hr).resolve_left fun hidle => hpc (hi.idle.mpr hidle)
  refine ⟨?_, hrun, haccepted, ?_, ?_⟩
  · have hle := (network_potential server).countP_le .init (fun _ _ => trivial) he
    have hinit : (network server).init.cost = 6 := rfl
    rw [sum_map_ite, hinit, List.countP_true] at hle
    omega
  · intro hstill hok i x hx hlt
    have hcalm := reachable_calm (TransitionSystem.reachableUnder_of_exec
      TransitionSystem.ReachableUnder.init hok he)
    have hmem := List.mem_of_getElem? hx
    exact (hcalm x hmem).returned (reachable_session hr x hmem) (haccepted hstill i x hx hlt).2
  · intro hstill hpc
    rcases hrun hstill (by simp [hpc]) with hended | hthrew | hwaits
    · have hjoin := hstill.join hpc
      simp [stepServer, hpc, hended] at hjoin
    · exact .inl hthrew
    · exact .inr hwaits

theorem clients_settle_servedRun :
    ∃ s, (network .loop_sync_server).exec (network .loop_sync_server).init servedRun = some s ∧
      s.sessions.map (·.client) = [.returned (bytes "Response"), .returned (bytes "Response")] ∧
      Settles .loop_sync_server servedRun s := by
  obtain ⟨s, hs, hclients⟩ := Option.map_eq_some_iff.mp servedRun_exec
  exact ⟨s, hs, hclients, clients_settle hs⟩

/-! ### After `Stop` -/

/-- What can still happen after `m_stop` was set, in `s`. -/
structure Stopped (server : Server) (s s' : State) : Prop where
  /-- At most one more client is accepted, and only if `Run` was at `accept`. -/
  accepted : s'.accepted ≤ s.accepted + 1
  closed : s.run ≠ .accept → s'.accepted = s.accepted
  /-- Where `Stop` of the loop server has returned, the clients it has accepted were served to
  the end. -/
  served : server = .loop_sync_server → s'.pc = .returned →
    ∀ i x, s'.sessions[i]? = some x → i < s'.accepted → x.service = .ended

/-- The clients that `Run` accepts before it loads the flag again. -/
def RunPc.accepts : RunPc → Nat
  | .accept => 1
  | _ => 0

theorem Step.accepted_mono (h : Step server s a s') : s.accepted ≤ s'.accepted := by
  cases h with
  | accept _ _ => exact Nat.le_succ _
  | _ => exact Nat.le_refl _

theorem Step.after_stop (h : Step server s a s') (hi : Order server s) (hstop : s.m_stop = true) :
    s'.m_stop = true ∧ s'.accepted + s'.run.accepts ≤ s.accepted + s.run.accepts := by
  cases h with
  | start hpc => exact ⟨hstop, by simp [hi.idle.mp hpc, RunPc.accepts]⟩
  | store _ => exact ⟨rfl, Nat.le_refl _⟩
  | load hrun =>
      refine ⟨hstop, ?_⟩
      rw [hstop, hrun]
      exact Nat.le_refl _
  | accept hrun _ =>
      refine ⟨hstop, ?_⟩
      rw [hrun]
      exact Nat.le_refl _
  | @serve n x y hrun _ _ =>
      refine ⟨hstop, ?_⟩
      cases server <;> simp [State.setLast, Server.next, RunPc.accepts]
  | construct _ | handled _ _ _ | throws _ | drop _ _ _ _ =>
      exact ⟨hstop, by simp [State.setLast, RunPc.accepts]⟩
  | _ => exact ⟨hstop, Nat.le_refl _⟩

/-- **At most one more client is accepted** after `Stop` has set its flag. -/
theorem accepted_after_stop (hr : (network server).Reachable s) (hstop : s.m_stop = true)
    (h : ((network server).after s).Reachable s') : Stopped server s s' := by
  have hafter : s'.m_stop = true ∧ s.accepted ≤ s'.accepted ∧
      s'.accepted + s'.run.accepts ≤ s.accepted + s.run.accepts := by
    refine hr.invariant_after (P := fun t => t.m_stop = true ∧ s.accepted ≤ t.accepted ∧
      t.accepted + t.run.accepts ≤ s.accepted + s.run.accepts) ⟨hstop, Nat.le_refl _, Nat.le_refl _⟩
      ?_ h
    intro t a t' hrt ⟨hstopt, hge, hle⟩ _ hs
    have hstep := step_inv hs
    obtain ⟨hstop', hle'⟩ := hstep.after_stop (reachable_order hrt) hstopt
    exact ⟨hstop', Nat.le_trans hge hstep.accepted_mono, Nat.le_trans hle' hle⟩
  obtain ⟨-, hge, hle⟩ := hafter
  refine ⟨?_, ?_, ?_⟩
  · have hone : s.run.accepts ≤ 1 := by cases s.run <;> simp [RunPc.accepts]
    omega
  · intro hrun
    have hzero : s.run.accepts = 0 := by cases hpc : s.run <;> simp_all [RunPc.accepts]
    omega
  · intro hloop hpc i x hx hlt
    have hi := reachable_order (hr.after h)
    have hended := hi.returned hpc
    rcases (hi.placed i x hx).loop hloop hlt with hdone | ⟨-, hrun | hrun⟩
    · exact hdone
    · exact absurd (hended.symm.trans hrun) (by simp)
    · exact absurd (hended.symm.trans hrun) (by simp)

/-- A client that connects after `Stop` has set its flag, while `Run` is at `accept`. -/
def lateRun : List Action :=
  [.connect 7, .run (.ok 0), .run (.ok 0), .client 2 (.ok 23), .client 2 (.ok 0),
    .service 2 (.ok 23), .service 2 (.ok 0), .service 2 (.ok 9), .service 2 (.ok 0),
    .run (.ok 0), .run (.ok 0), .server]

theorem accepted_after_stop_lateRun :
    ∃ s s', (network .loop_sync_server).exec (network .loop_sync_server).init
        (servedRun ++ [.server]) = some s ∧
      (network .loop_sync_server).exec s lateRun = some s' ∧
      (s.accepted, s'.accepted, s'.pc) = (2, 3, .returned) ∧ Stopped .loop_sync_server s s' := by
  have hrun : ((network .loop_sync_server).exec (network .loop_sync_server).init
      (servedRun ++ [.server])).map (fun s => (s.m_stop, s.accepted,
        ((network .loop_sync_server).exec s lateRun).map fun s' => (s'.accepted, s'.pc))) =
      some (true, 2, some (3, .returned)) := by decide
  obtain ⟨s, hs, he⟩ := Option.map_eq_some_iff.mp hrun
  obtain ⟨hstop, he⟩ := Prod.mk.inj he
  obtain ⟨haccepted, he⟩ := Prod.mk.inj he
  obtain ⟨s', hs', he'⟩ := Option.map_eq_some_iff.mp he
  refine ⟨s, s', hs, hs', by rw [haccepted, (Prod.mk.inj he').1, (Prod.mk.inj he').2], ?_⟩
  exact accepted_after_stop (TransitionSystem.reachable_of_exec hs) hstop
    (TransitionSystem.reachable_after_of_exec hs')

end AsioStudy.SyncService
