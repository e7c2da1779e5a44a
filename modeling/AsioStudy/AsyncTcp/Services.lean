import AsioStudy.AsyncServer.Isolation
import AsioStudy.AsyncTcp.Requests

/-!
# AsioStudy.AsyncTcp.Services

The server's side of the network. A service has read what has arrived of the request of its own
session, and it has a response only after a whole line of it (`Serves`). `Attended` says this of
every service; connections without a service are untouched.
-/

namespace AsioStudy.AsyncTcp

open AsyncServer (Served ServiceStep)
open AsyncTcpClient (SessionId)
open AsyncTcpServer (Service service service_linear)

/-- The object behind a `Service`. -/
abbrev ServiceObject := AsyncObject AsyncTcpServer.Op AsyncTcpServer.Point Service

variable {thread_pool_size : Nat} {s s' : JointState ClientState ServerState Net} {e : Event}
  {c : ClientState} {v v' : ServerState} {net net' : Net} {S T : SessionId} {p p' q q' : Pipe}
  {o o' : ServiceObject} {i j : Nat} {ec : ErrorCode} {received : Bytes}

/-- A service with the request it reads and the response it writes. -/
structure Serves (o : ServiceObject) (p q : Pipe) : Prop where
  request : o.data.m_request = p.received
  /-- There is no response, or a whole line has been read. -/
  response : o.data.m_response = [] ∨
    o.data.m_response = bytes "Response\n" ∧ LF ∈ o.data.m_request
  sent : q.sent <+: o.data.m_response
  first : .onRequestReceived ∈ o.pending → o.data = ⟨[], []⟩
  received : ∀ ec, .onRequestReceived ec ∈ o.running →
    o.data.m_response = [] ∧ (ec.value = 0 → LF ∈ o.data.m_request)

/-! ### One service -/

theorem serves_start (hp : p.received = []) (hq : q.sent = []) : Serves service.start p q where
  request := hp.symm
  response := .inl rfl
  sent := hq ▸ List.nil_prefix
  first _ := rfl
  received _ h := absurd h List.not_mem_nil

/-- The pipes change without the service. -/
theorem Serves.congr (h : Serves o p q) (hp : p'.received = p.received)
    (hq : q'.sent <+: o.data.m_response) : Serves o p' q' :=
  ⟨h.request.trans hp.symm, h.response, hq, h.first, h.received⟩

/-- A read completes. -/
theorem Serves.read (h : Serves o p q) (hw : o.weight = 1)
    (hop : o.pending[i]? = some .onRequestReceived) (hin : received <+: p.inFlight)
    (hline : ec.value = 0 → LF ∈ received)
    (hs : service.stepObject o (.complete i ec received) = some o') :
    Serves o' (p.take received.length) q := by
  obtain ⟨hpending, hrunning, rfl⟩ := AsyncObject.only_pending hw hop
  have hdata := h.first (by simp [hpending])
  have hnil : p.received = [] := by rw [← h.request, hdata]
  simp only [Program.stepObject, hop, Option.map_some] at hs
  obtain rfl := Option.some.inj hs
  refine ⟨?_, .inl ?_, ?_, ?_, ?_⟩
  · rw [Pipe.take_received hin, hnil]
    simp [service, hdata]
  · simp [service, hdata]
  · simpa [service] using h.sent
  · simp [hpending]
  · intro ec' hec'
    have he : ec' = ec := by simpa [hrunning, service] using hec'
    subst he
    exact ⟨by simp [service, hdata], fun hec => by simpa [service, hdata] using hline hec⟩

/-- A write completes. -/
theorem Serves.wrote (h : Serves o p q) (hw : o.weight = 1)
    (hop : o.pending[i]? = some .onResponseSent)
    (hs : service.stepObject o (.complete i ec received) = some o') : Serves o' p q := by
  obtain ⟨hpending, hrunning, rfl⟩ := AsyncObject.only_pending hw hop
  simp only [Program.stepObject, hop, Option.map_some] at hs
  obtain rfl := Option.some.inj hs
  exact ⟨h.request, h.response, h.sent, by simp [hpending], by simp [hrunning, service]⟩

/-- A handler takes a step. -/
theorem Serves.run (h : Serves o p q) (hw : o.weight = 1)
    (hs : service.stepObject o (.run i ()) = some o') : Serves o' p q := by
  cases stepObject_inv hs with
  | @run _ _ pt ef hpt hef =>
      obtain ⟨hpending, hrunning, rfl, -⟩ := AsyncObject.only_running hw hpt
      obtain rfl := Option.some.inj hef
      cases pt with
      | onRequestReceived ec =>
          obtain ⟨hnil, hline⟩ := h.received ec (by simp [hrunning])
          by_cases hec : ec.value = 0
          · have hsent : q.sent = [] := List.prefix_nil.mp (hnil ▸ h.sent)
            refine ⟨?_, .inr ⟨?_, ?_⟩, ?_, ?_, ?_⟩
            · simpa [AsyncObject.perform, AsyncTcpServer.step, hec] using h.request
            · simp [AsyncObject.perform, AsyncTcpServer.step, hec, AsyncTcpServer.ProcessRequest]
            · simpa [AsyncObject.perform, AsyncTcpServer.step, hec] using hline hec
            · simp [hsent]
            · simp [AsyncObject.perform, AsyncTcpServer.step, hec, hpending]
            · simp [AsyncObject.perform, AsyncTcpServer.step, hec, hrunning, Next.running]
          · refine ⟨?_, ?_, ?_, ?_, ?_⟩
            · simpa [AsyncObject.perform, AsyncTcpServer.step, hec] using h.request
            · simpa [AsyncObject.perform, AsyncTcpServer.step, hec] using h.response
            · simpa [AsyncObject.perform, AsyncTcpServer.step, hec] using h.sent
            · simp [AsyncObject.perform, AsyncTcpServer.step, hec, hpending]
            · simp [AsyncObject.perform, AsyncTcpServer.step, hec, hrunning, Next.running]
      | onResponseSent ec | onFinish =>
          exact ⟨h.request, h.response, h.sent,
            by simp [AsyncObject.perform, AsyncTcpServer.step, hpending],
            by simp [AsyncObject.perform, AsyncTcpServer.step, hrunning, Next.running]⟩

/-! ### All services -/

/-- The services and the network agree. -/
structure Attended (v : ServerState) (net : Net) : Prop where
  length : net.accepted.length = v.accepted.length
  /-- The `j`-th service serves the session that was accepted as the `j`-th. -/
  served : ∀ (j : Nat) (S : SessionId) (x : Served AsyncTcpServer.Op AsyncTcpServer.Point Service),
    net.accepted[j]? = some S → v.services[j]? = some x →
      Serves x.service (net.request S) (net.response S)
  untouched : ∀ S : SessionId, (∀ j : Nat, net.accepted[j]? = some S → v.services[j]? = none) →
    (net.request S).received = [] ∧ (net.response S).sent = []

/-- A session is accepted once. -/
theorem Linked.index_inj (h : Linked c net) (hi : net.accepted[i]? = some S)
    (hj : net.accepted[j]? = some S) : i = j :=
  (List.getElem?_inj (List.getElem?_eq_some_iff.mp hi).1 (List.nodup_append.mp h.nodup).1).mp
    (hi.trans hj.symm)

/-- What has been read and written is only that of the services. -/
theorem Attended.congr (h : Attended v net) (haccepted : net'.accepted = net.accepted)
    (hrequest : ∀ S, (net'.request S).received = (net.request S).received)
    (hresponse : ∀ S, (net'.response S).sent = (net.response S).sent) : Attended v net' := by
  refine ⟨haccepted ▸ h.length, ?_, ?_⟩
  · intro j S x hS hx
    rw [haccepted] at hS
    have hserves := h.served j S x hS hx
    exact hserves.congr (hrequest S) (hresponse S ▸ hserves.sent)
  · intro S hnone
    rw [haccepted] at hnone
    rw [hrequest, hresponse]
    exact h.untouched S hnone

theorem weight_of_service (hr : (AsyncServer.machine service thread_pool_size).Reachable v)
    {x : Served AsyncTcpServer.Op AsyncTcpServer.Point Service} (hx : v.services[j]? = some x) :
    x.service.weight = 1 :=
  weight_eq_one service_linear (AsyncServer.reachable_service hr x (List.mem_of_getElem? hx))

/-- There are no more services than connections were accepted. -/
theorem Attended.index_lt (h : Attended v net)
    (hr : (AsyncServer.machine service thread_pool_size).Reachable v)
    {x : Served AsyncTcpServer.Op AsyncTcpServer.Point Service} (hx : v.services[j]? = some x) :
    j < net.accepted.length := by
  have hsockets := congrArg List.length (AsyncServer.reachable_chain hr).sockets
  rw [List.length_append, List.length_map, ← h.length] at hsockets
  have hj : j < v.services.length := (List.getElem?_eq_some_iff.mp hx).1
  omega

/-- A step of the server by itself. -/
theorem Attended.server (h : Attended v net) (hlinked : Linked c net)
    (hr : (AsyncServer.machine service thread_pool_size).Reachable v) {a : ServerAction}
    (ha : completesServer a = false)
    (hs : AsyncServer.step service thread_pool_size v a = some v') : Attended v' net := by
  have hst := AsyncServer.step_inv hs
  have hstep := hst.serviceStep
  have haccepted : v'.accepted = v.accepted := by
    cases hst with
    | accept _ _ => exact absurd ha (by simp [completesServer])
    | @onAccept i sock pc _ =>
        cases pc with
        | entry ec => by_cases hec : ec.value = 0 <;> simp [AsyncServer.stepOnAccept, hec,
            AsyncServer.State.goto]
        | _ => rfl
    | _ => rfl
  refine ⟨haccepted ▸ h.length, ?_, ?_⟩
  · intro j S x hS hx
    rcases hstep j with ⟨y, hold, -, hnew, hstart⟩ | ⟨y, b, o, hold, hof, ho, hnew⟩ | ⟨-, hsame⟩
    · obtain rfl := Option.some.inj (hnew.symm.trans hx)
      obtain ⟨hrequest, hresponse⟩ := h.untouched S fun j' hj' =>
        hlinked.index_inj hS hj' ▸ hold
      rw [hstart]
      exact serves_start hrequest hresponse
    · obtain rfl := Option.some.inj (hnew.symm.trans hx)
      have hserves := h.served j S y hS hold
      cases b with
      | run i input => exact hserves.run (weight_of_service hr hold) ho
      | complete i ec received =>
          -- the completions are events of the network
          cases a with
          | service j' b =>
              simp only [AsyncServer.Action.of] at hof
              split at hof
              · obtain rfl := Option.some.inj hof
                exact absurd ha (by simp [completesServer])
              · exact absurd hof (by simp)
          | _ => exact absurd hof (by simp [AsyncServer.Action.of])
    · exact h.served j S x hS (hsame ▸ hx)
  · intro S hnone
    refine h.untouched S ?_
    intro j hS
    rcases hstep j with ⟨y, hold, -, -, -⟩ | ⟨y, b, o, hold, -, -, hnew⟩ | ⟨-, hsame⟩
    · exact hold
    · exact absurd ((hnone j hS).symm.trans hnew) (by simp)
    · exact hsame ▸ hnone j hS

/-- An operation of the `j`-th service completes. -/
theorem Attended.ofService (h : Attended v net) (hlinked : Linked c net)
    (haccepted : net'.accepted = net.accepted) (hS : net.accepted[j]? = some S)
    (hothers : ∀ T, T ≠ S → net'.request T = net.request T ∧ net'.response T = net.response T)
    {b : ObjectAction Unit}
    (hs : AsyncServer.step service thread_pool_size v (.service j b) = some v')
    (hserves : ∀ x o, v.services[j]? = some x → service.stepObject x.service b = some o →
      Serves o (net'.request S) (net'.response S)) : Attended v' net' := by
  cases AsyncServer.step_inv hs with
  | @service _ _ x o hx ho _ =>
      have hj : j < v.services.length := (List.getElem?_eq_some_iff.mp hx).1
      refine ⟨haccepted ▸ h.length, ?_, ?_⟩
      · intro i T y hT hy
        rw [haccepted] at hT
        by_cases hij : j = i
        · subst hij
          obtain rfl := Option.some.inj (hS.symm.trans hT)
          obtain rfl : { x with service := o } = y := by simpa [hj] using hy
          exact hserves x o hx ho
        · have hne : T ≠ S := by
            rintro rfl
            exact hij (hlinked.index_inj hS hT)
          rw [(hothers T hne).1, (hothers T hne).2]
          exact h.served i T y hT (by simpa [hij] using hy)
      · intro T hnone
        rw [haccepted] at hnone
        have hne : T ≠ S := by
          rintro rfl
          simpa [hj] using hnone j hS
        rw [(hothers T hne).1, (hothers T hne).2]
        refine h.untouched T ?_
        intro i hT
        have hij : j ≠ i := by
          rintro rfl
          exact hne (Option.some.inj (hT.symm.trans hS))
        simpa [hij] using hnone i hT

/-- **Every event keeps the server and the network in agreement.** -/
theorem Attended.step (h : Attended v net) (hlinked : Linked c net)
    (hr : (AsyncServer.machine service thread_pool_size).Reachable v)
    (hnet : NetStep c v net e net')
    (hs : (AsyncServer.machine service thread_pool_size).move v e.right = some v') :
    Attended v' net' := by
  cases hnet with
  | client _ | connected _ _ | connectFails _ | requestSent _ =>
      obtain rfl := Option.some.inj hs
      exact h.congr rfl (fun _ => rfl) fun _ => rfl
  | server ha => exact h.server hlinked hr ha hs
  | @accepted i ec S rest hec hbacklog =>
      cases AsyncServer.step_inv (P := service) hs with
      | accept _ _ =>
          refine ⟨by simp [hec, h.length], ?_, ?_⟩
          · intro j T x hT hx
            refine h.served j T x ?_ hx
            rwa [List.getElem?_append_left (h.index_lt hr hx)] at hT
          · intro T hnone
            refine h.untouched T ?_
            intro j hT
            refine hnone j ?_
            rw [List.getElem?_append_left (List.getElem?_eq_some_iff.mp hT).1]
            exact hT
  | acceptFails hec =>
      cases AsyncServer.step_inv (P := service) hs with
      | accept _ _ => exact ⟨by simp [hec, h.length], h.served, h.untouched⟩
  | @sendRequest S portion _ _ _ =>
      obtain rfl := Option.some.inj hs
      refine h.congr rfl ?_ fun _ => rfl
      intro T
      by_cases hT : T = S
      · simp [hT]
      · simp [hT]
  | @readRequest j i received ec S x hS hx hop hread =>
      refine h.ofService hlinked rfl hS (fun T hT => by simp [hT]) hs ?_
      intro y o hy ho
      obtain rfl := Option.some.inj (hx.symm.trans hy)
      simpa using (h.served j S x hS hx).read (weight_of_service hr hx) hop hread.1 hread.2.1 ho
  | @sendResponse j portion S x hS hx _ _ hprefix =>
      obtain rfl := Option.some.inj hs
      refine ⟨h.length, ?_, ?_⟩
      · intro i T y hT hy
        have hserves := h.served i T y hT hy
        refine hserves.congr rfl ?_
        by_cases hTS : T = S
        · subst hTS
          obtain rfl := hlinked.index_inj hS hT
          obtain rfl := Option.some.inj (hx.symm.trans hy)
          simpa using hprefix
        · simpa [hTS] using hserves.sent
      · intro T hnone
        have hne : T ≠ S := by
          rintro rfl
          exact absurd ((hnone j hS).symm.trans hx) nofun
        simpa [hne] using h.untouched T hnone
  | @responseSent j i ec S x hS hx hop _ =>
      refine h.ofService hlinked rfl hS (fun _ _ => ⟨rfl, rfl⟩) hs ?_
      intro y o hy ho
      obtain rfl := Option.some.inj (hx.symm.trans hy)
      exact (h.served j S x hS hx).wrote (weight_of_service hr hx) hop ho
  | @readResponse S received ec _ =>
      obtain rfl := Option.some.inj hs
      refine h.congr rfl (fun _ => rfl) ?_
      intro T
      by_cases hT : T = S
      · simp [hT]
      · simp [hT]

theorem reachable_attended (h : (network thread_pool_size).Reachable s) :
    Attended s.right s.medium := by
  refine h.invariant (P := fun s => Attended s.right s.medium) ?_ ?_
  · exact ⟨rfl, fun _ _ _ h => absurd h nofun, fun _ _ => ⟨rfl, rfl⟩⟩
  · intro s e s' hr hi hs
    obtain ⟨hnet, -, hright⟩ := network_inv hs
    exact hi.step (reachable_linked hr) (Joint.reachable_sides hr).2 hnet hright

end AsioStudy.AsyncTcp
