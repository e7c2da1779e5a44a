import AsioStudy.AsyncTcp.Cost

/-!
# AsioStudy.AsyncTcp.Success

Runs that nothing disturbs: no operation fails and nobody cancels. There every request is
answered with `Response`, whatever the interleaving (`undisturbed_succeeds`). The end of a stream
is not excluded by assumption. It is not met: a service is deleted only after the whole response
has gone out, and a session disconnects only after it has read it.
-/

namespace AsioStudy.AsyncTcp

open AsyncServer (Served)
open AsyncTcpClient (SessionId Session HandlerPc HandlerMove SessionStep computationRequest)
open AsyncTcpServer (Service service)

variable {num_of_threads thread_pool_size : Nat}
  {s s' : JointState ClientState ServerState Net} {e : Event}
  {es : List Event} {c c' : ClientState} {v v' : ServerState} {net net' : Net}
  {S T : SessionId} {x y : Session} {op : AsyncTcpClient.Op} {a : ClientAction} {ec : ErrorCode}
  {received : Bytes} {o o' : ServiceObject} {q q' : Pipe} {i j : Nat}

/-- How the operation of a session or of a service ends. -/
def Event.result : Event → ErrorCode
  | .connect _ ec | .requestSent _ ec | .readRequest _ _ _ ec | .responseSent _ _ ec
  | .readResponse _ _ ec => ec
  | _ => .success

/-- The event is no cancellation and no failure; a read may come to the end of its stream. -/
def Event.undisturbed : Event → Bool
  | .client (.cancelRequest _ _) => false
  | .readRequest _ _ _ ec | .readResponse _ _ ec => ends ec
  | e => e.result.value = 0

/-! ### Sessions -/

/-- The session is not stopped, and none of its operations has failed. -/
structure SessionFine (x : Session) : Prop where
  goes : ¬ x.Stopped
  entry : ∀ op ec, x.pc op = .entry ec → ec.value = 0

theorem SessionFine.setPc (h : SessionFine x) {pc : HandlerPc}
    (hpc : ∀ ec, pc = .entry ec → ec.value = 0) : SessionFine (x.setPc op pc) := by
  refine ⟨h.goes, ?_⟩
  intro o ec ho
  by_cases hop : o = op
  · exact hpc ec (by simpa [hop] using ho)
  · exact h.entry o ec (by simpa [hop] using ho)

theorem SessionFine.handlerMove (hx : SessionFine x) (h : HandlerMove x op y) : SessionFine y := by
  cases h with
  | @enter ec hpc =>
      have hec := hx.entry op ec hpc
      have hset : SessionFine (x.setPc op (Session.enterPc op ec)) := hx.setPc fun ec' hec' => by
        unfold Session.enterPc at hec'
        split at hec'
        · exact absurd hec' (by simp)
        · exact absurd hec' (by simp)
      refine ⟨?_, fun o ec' ho => hset.entry o ec' (by simpa using ho)⟩
      intro h
      obtain hstopped | hflag := h
      · refine hx.goes (.inl ?_)
        unfold Session.enter at hstopped
        rw [if_neg (not_not.mpr hec)] at hstopped
        cases op <;> exact hstopped
      · exact hx.goes (.inr (by simpa using hflag))
  | startNext _ _ => exact (hx.setPc (by simp)).setPc (by simp)
  | @callback ec _ =>
      have hcallback : SessionFine (x.invokeCallback ec) := ⟨hx.goes, hx.entry⟩
      exact hcallback.setPc (by simp)
  | _ => exact hx.setPc (by simp)

/-- Only a failure or a cancellation stops a session. -/
theorem SessionFine.sessionStep (hx : SessionFine (c.session S)) (h : SessionStep c S a y)
    (hcancel : ∀ n, c.cancel n = .idle)
    (hok : ∀ op ec received, a = .complete S op ec received → ec.value = 0) : SessionFine y := by
  cases h with
  | construct _ => exact ⟨by simp [Session.Stopped, Session.new], fun _ _ h => absurd h (by simp)⟩
  | caller h =>
      cases h with
      | asyncConnect _ =>
          have hset : SessionFine ((c.session S).setPc .connect .pending) := hx.setPc (by simp)
          exact ⟨hset.goes, hset.entry⟩
      | _ => exact ⟨hx.goes, hx.entry⟩
  | @complete op ec received _ =>
      have hreceive : SessionFine ((c.session S).receive op received) :=
        ⟨by simpa [Session.Stopped] using hx.goes, by simpa using hx.entry⟩
      refine hreceive.setPc ?_
      rintro ec' ⟨⟩
      exact hok op ec received rfl
  | handler h => exact hx.handlerMove h
  | @setCancelled n hpc => exact absurd ((hcancel n).symm.trans hpc) (by simp)

/-! ### Services -/

/-- No operation of the service has failed, and it goes on from the write only when the whole
response has gone out. -/
structure ServiceFine (o : ServiceObject) (q : Pipe) : Prop where
  read : ∀ ec, .onRequestReceived ec ∈ o.running → ec.value = 0
  pending : .onResponseSent ∈ o.pending → o.data.m_response = bytes "Response\n"
  wrote : (∃ ec, .onResponseSent ec ∈ o.running) ∨ .onFinish ∈ o.running ∨ o.deleted ≠ 0 →
    q.sent = bytes "Response\n"

theorem serviceFine_start : ServiceFine service.start q where
  read _ h := absurd h List.not_mem_nil
  pending h := by simp [Program.start, service] at h
  wrote h := by simp [Program.start] at h

theorem ServiceFine.congr (h : ServiceFine o q)
    (hq : q.sent = bytes "Response\n" → q'.sent = bytes "Response\n") : ServiceFine o q' :=
  ⟨h.read, h.pending, fun hw => hq (h.wrote hw)⟩

/-- An operation succeeds. -/
theorem ServiceFine.complete (h : ServiceFine o q) (hw : o.weight = 1) (hec : ec.value = 0)
    (hsent : o.pending[i]? = some .onResponseSent → q.sent = o.data.m_response)
    (hs : service.stepObject o (.complete i ec received) = some o') : ServiceFine o' q := by
  cases stepObject_inv hs with
  | @complete _ _ _ op hop =>
      obtain ⟨hpending, hrunning, rfl⟩ := AsyncObject.only_pending hw hop
      have hdeleted : o.deleted = 0 := by
        simp only [AsyncObject.weight, hpending, List.length_singleton] at hw
        omega
      cases op with
      | onRequestReceived =>
          refine ⟨?_, by simp [hpending], ?_⟩
          · simp [hrunning, service, hec]
          · simp [hrunning, service, hdeleted]
      | onResponseSent =>
          refine ⟨by simp [hrunning, service], by simp [hpending], fun _ => ?_⟩
          rw [hsent hop]
          exact h.pending (by simp [hpending])

/-- A handler takes a step. -/
theorem ServiceFine.run (h : ServiceFine o q) (hw : o.weight = 1)
    (hs : service.stepObject o (.run i ()) = some o') : ServiceFine o' q := by
  cases stepObject_inv hs with
  | @run _ _ pt ef hpt hef =>
      obtain ⟨hpending, hrunning, rfl, -⟩ := AsyncObject.only_running hw hpt
      have hdeleted : o.deleted = 0 := by
        simp only [AsyncObject.weight, hrunning, List.length_singleton] at hw
        omega
      obtain rfl := Option.some.inj hef
      cases pt with
      | onRequestReceived ec =>
          have hec := h.read ec (by simp [hrunning])
          refine ⟨?_, ?_, ?_⟩
          · simp [AsyncObject.perform, AsyncTcpServer.step, hec, hrunning, Next.running]
          · simp [AsyncObject.perform, AsyncTcpServer.step, hec, AsyncTcpServer.ProcessRequest]
          · simp [AsyncObject.perform, AsyncTcpServer.step, hec, hrunning, Next.running, hdeleted]
      | onResponseSent ec =>
          have hsent := h.wrote (.inl ⟨ec, by simp [hrunning]⟩)
          refine ⟨?_, ?_, fun _ => hsent⟩
          · simp [AsyncObject.perform, AsyncTcpServer.step, hrunning, Next.running]
          · simp [AsyncObject.perform, AsyncTcpServer.step, hpending]
      | onFinish =>
          have hsent := h.wrote (.inr (.inl (by simp [hrunning])))
          refine ⟨?_, ?_, fun _ => hsent⟩
          · simp [AsyncObject.perform, AsyncTcpServer.step, hrunning, Next.running]
          · simp [AsyncObject.perform, AsyncTcpServer.step, hpending]

/-! ### What becomes of a service in an event -/

/-- A service is made, stays as it is, or takes its part of the event. -/
theorem service_cases {x : Served AsyncTcpServer.Op AsyncTcpServer.Point Service}
    {b : Option ServerAction}
    (hs : (AsyncServer.machine service thread_pool_size).move v b = some v')
    (hx : v'.services[j]? = some x) :
    v.services[j]? = none ∧ x.service = service.start ∨
      ∃ y, v.services[j]? = some y ∧ (x.service = y.service ∨
        ∃ a, b = some (.service j a) ∧ service.stepObject y.service a = some x.service) := by
  cases b with
  | none =>
      obtain rfl := Option.some.inj hs
      exact .inr ⟨x, hx, .inl rfl⟩
  | some b =>
      rcases (AsyncServer.step_inv hs).serviceStep j with
        ⟨y, hold, -, hnew, hstart⟩ | ⟨y, a, o, hold, hof, ho, hnew⟩ | ⟨-, hsame⟩
      · obtain rfl := Option.some.inj (hnew.symm.trans hx)
        exact .inl ⟨hold, hstart⟩
      · obtain rfl := Option.some.inj (hnew.symm.trans hx)
        refine .inr ⟨y, hold, .inr ⟨a, ?_, ho⟩⟩
        cases b with
        | service i a' =>
            simp only [AsyncServer.Action.of] at hof
            split at hof
            · next hij => rw [hij, Option.some.inj hof]
            · exact absurd hof (by simp)
        | _ => exact absurd hof (by simp [AsyncServer.Action.of])
      · exact .inr ⟨x, hsame ▸ hx, .inl rfl⟩

theorem NetStep.accepted_of (h : NetStep c v net e net') (hj : j < net.accepted.length)
    (hS : net'.accepted[j]? = some S) : net.accepted[j]? = some S := by
  cases h with
  | accepted _ _ => rwa [List.getElem?_append_left hj] at hS
  | _ => exact hS

/-- After the whole response nothing more goes out. -/
theorem NetStep.response_stays (h : NetStep c v net e net') (hattended : Attended v net)
    (hsent : (net.response S).sent = bytes "Response\n") :
    (net'.response S).sent = bytes "Response\n" := by
  cases h with
  | @sendResponse j portion T x hT hx _ hne hprefix =>
      by_cases hST : S = T
      · subst hST
        exfalso
        rw [hsent] at hprefix
        rcases (hattended.served j S x hT hx).response with hnil | ⟨htext, -⟩
        · rw [hnil] at hprefix
          exact absurd (List.prefix_nil.mp hprefix) (by simp [hne])
        · rw [htext] at hprefix
          have hlen := hprefix.length_le
          rw [List.length_append] at hlen
          exact hne (List.length_eq_zero_iff.mp (by omega))
      · simpa [hST] using hsent
  | @readResponse T received ec _ =>
      by_cases hST : S = T <;> simpa [hST] using hsent
  | _ => exact hsent

/-! ### Client, server and network -/

/-- Nothing has failed so far. -/
structure Fine (s : JointState ClientState ServerState Net) : Prop where
  sessions : ∀ S, SessionFine (s.left.session S)
  cancel : ∀ n, s.left.cancel n = .idle
  services : ∀ (j : Nat) (S : SessionId)
    (x : Served AsyncTcpServer.Op AsyncTcpServer.Point Service),
    s.medium.accepted[j]? = some S → s.right.services[j]? = some x →
      ServiceFine x.service (s.medium.response S)

/-- A session disconnects after it has read. -/
theorem Fine.response_of_disconnected (h : Fine s)
    (he : (network thread_pool_size).exec (network thread_pool_size).init es = some s)
    (hdisconnected : disconnected (s.left.session S)) : (s.medium.response S).sent ≠ [] := by
  have hgoes := (h.sessions S).goes
  have hown := (client_history he).own S
  have hcompleting : ∀ op, pastShutdown ((s.left.session S).pc op) = true →
      ((s.left.session S).pc .read).completing = true := by
    intro op hpast
    have hop : ((s.left.session S).pc op).completing = true := by
      cases hpc : (s.left.session S).pc op <;>
        simp [hpc, pastShutdown, HandlerPc.completing] at hpast ⊢
    by_cases hread : op = .read
    · exact hread ▸ hop
    · exact absurd (hown.completing op hread hop) hgoes
  have hread : ((s.left.session S).pc .read).completing = true ∨
      ((s.left.session S).pc .read).left = true := by
    rcases hdisconnected with hne | hpast | hpast | hpast
    · exact .inr ((hown.reported hne).resolve_left hgoes)
    all_goals exact .inl (hcompleting _ hpast)
  obtain ⟨received, -, hreceived, hLF⟩ := received_of_read he hread hgoes
  intro hnil
  rw [hreceived, Pipe.received_eq_nil hnil] at hLF
  exact absurd hLF List.not_mem_nil

/-- **No read comes to the end of its stream.** -/
theorem Fine.succeeds (h : Fine s)
    (he : (network thread_pool_size).exec (network thread_pool_size).init es = some s)
    (hs : (network thread_pool_size).step s e = some s') (hok : e.undisturbed = true) :
    e.result.value = 0 := by
  have hattended := reachable_attended (TransitionSystem.reachable_of_exec he)
  obtain ⟨hnet, hleft, -⟩ := network_inv hs
  generalize s'.medium = net' at hnet
  cases hnet with
  | @readRequest j i received ec S x hS hx hop hread =>
      by_contra hec
      have hends : ec.value = 0 ∨ ec = .eof := by simpa [Event.undisturbed, ends] using hok
      obtain ⟨hdisconnected, -, -⟩ := hread.2.2 (hends.resolve_left hec)
      have hserves := hattended.served j S x hS hx
      have hsent := hserves.sent
      rw [hserves.first (List.mem_of_getElem? hop)] at hsent
      exact h.response_of_disconnected he hdisconnected (List.prefix_nil.mp hsent)
  | @readResponse S received ec hread =>
      by_contra hec
      have hends : ec.value = 0 ∨ ec = .eof := by simpa [Event.undisturbed, ends] using hok
      obtain ⟨⟨j, hj, hS, hdeleted⟩, hall, hLF⟩ := hread.2.2 (hends.resolve_left hec)
      have hpc : (s.left.session S).pc .read = .pending := by
        have hstep : AsyncTcpClient.Step s.left (.complete S .read ec received) s'.left :=
          AsyncTcpClient.step_inv hleft
        generalize s'.left = c' at hstep
        cases hstep with
        | complete hpc => exact hpc
      -- all of the response is still in flight
      have hreads : readsOf S es = [] := (((client_history he).own S).read.of_not_completed (.inr hpc)).1
      have hnil : (s.medium.response S).received = [] := by
        rw [← (delivered he S).received, hreads]
        rfl
      have hx := List.getElem?_eq_getElem hj
      have hone := hdeleted _ hx
      have hsent := (h.services j S _ hS hx).wrote (.inr (.inr (by rw [hone]; exact Nat.one_ne_zero)))
      rw [hall, Pipe.inFlight_eq_sent hnil, hsent] at hLF
      exact hLF (by decide)
  | acceptFails _ => rfl
  | client _ | server _ | accepted _ _ | sendRequest _ _ _ | sendResponse _ _ _ _ _ => rfl
  | connected _ _ | connectFails _ | requestSent _ | responseSent _ _ _ _ =>
      simpa [Event.undisturbed] using hok

/-- The client goes on without a failure. -/
theorem Fine.client (h : Fine s) (hs : (network thread_pool_size).step s e = some s')
    (hok : e.undisturbed = true) (hsuccess : e.result.value = 0) :
    (∀ S, SessionFine (s'.left.session S)) ∧ ∀ n, s'.left.cancel n = .idle := by
  obtain ⟨hnet, hleft, -⟩ := network_inv hs
  cases hleft' : e.left with
  | none =>
      rw [hleft'] at hleft
      rw [← Option.some.inj hleft]
      exact ⟨h.sessions, h.cancel⟩
  | some a =>
      rw [hleft'] at hleft
      have hstep := AsyncTcpClient.step_inv hleft
      have hcomplete : ∀ S op ec received, a = .complete S op ec received → ec.value = 0 := by
        rintro S op ec received rfl
        generalize s'.medium = net' at hnet
        cases e with
        | client b =>
            obtain rfl := Option.some.inj hleft'
            cases hnet with
            | client ha => exact absurd ha (by simp [completesClient])
        | connect T ec' | requestSent T ec' | readResponse T received' ec' =>
            obtain ⟨-, -, rfl, -⟩ :=
              AsyncTcpClient.Action.complete.inj (Option.some.inj hleft')
            exact hsuccess
        | _ => exact absurd hleft' (by simp [Event.left])
      refine ⟨?_, ?_⟩
      · intro S
        rcases hstep.session S with hsame | hmoved
        · rw [hsame]
          exact h.sessions S
        · exact (h.sessions S).sessionStep hmoved h.cancel (hcomplete S)
      · intro n
        cases a with
        | cancelRequest m id =>
            cases e with
            | client b =>
                obtain rfl := Option.some.inj hleft'
                exact absurd hok Bool.false_ne_true
            | connect _ _ | requestSent _ _ | readResponse _ _ _ =>
                exact absurd (Option.some.inj hleft') (by simp)
            | _ => exact absurd hleft' (by simp [Event.left])
        | canceller m =>
            have hnone := AsyncTcpClient.step_canceller_idle (h.cancel m)
            exact absurd (hnone.symm.trans hleft) (by simp)
        | _ => exact hstep.cancel_idle (by simp) (h.cancel n)

/-- So do the services. -/
theorem Fine.service (h : Fine s) (hr : (network thread_pool_size).Reachable s)
    (hs : (network thread_pool_size).step s e = some s') (hsuccess : e.result.value = 0)
    {x : Served AsyncTcpServer.Op AsyncTcpServer.Point Service}
    (hS : s'.medium.accepted[j]? = some S) (hx : s'.right.services[j]? = some x) :
    ServiceFine x.service (s'.medium.response S) := by
  have hserver := (Joint.reachable_sides hr).2
  have hattended := reachable_attended hr
  obtain ⟨hnet, -, hright⟩ := network_inv hs
  rcases service_cases hright hx with ⟨-, hstart⟩ | ⟨y, hy, hobject⟩
  · rw [hstart]
    exact serviceFine_start
  · have hold := hnet.accepted_of (hattended.index_lt hserver hy) hS
    have hfine := (h.services j S y hold hy).congr (hnet.response_stays hattended)
    rcases hobject with hsame | ⟨a, ha, ho⟩
    · rw [hsame]
      exact hfine
    · have hw := weight_of_service hserver hy
      cases a with
      | run i input => exact hfine.run hw ho
      | complete i ec received =>
          generalize s'.medium = net' at hnet hfine
          cases hnet with
          | server hcompletes =>
              obtain rfl := Option.some.inj ha
              exact absurd hcompletes nofun
          | @readRequest j' i' received' ec' T z _ hz hop _ =>
              obtain ⟨rfl, hb⟩ := AsyncServer.Action.service.inj (Option.some.inj ha)
              obtain ⟨rfl, rfl, rfl⟩ := ObjectAction.complete.inj hb
              obtain rfl := Option.some.inj (hz.symm.trans hy)
              refine hfine.complete hw hsuccess ?_ ho
              rw [hop]
              exact nofun
          | @responseSent j' i' ec' T z hT hz hop hall =>
              obtain ⟨rfl, hb⟩ := AsyncServer.Action.service.inj (Option.some.inj ha)
              obtain ⟨rfl, rfl, rfl⟩ := ObjectAction.complete.inj hb
              obtain rfl := Option.some.inj (hz.symm.trans hy)
              obtain rfl := Option.some.inj (hT.symm.trans hold)
              exact hfine.complete hw hsuccess (fun _ => hall hsuccess) ho
          | _ => exact absurd ha nofun

/-- **Nothing fails in an undisturbed run.** -/
theorem fine
    (he : (network thread_pool_size).exec (network thread_pool_size).init es = some s)
    (hok : ∀ e ∈ es, e.undisturbed = true) : Fine s ∧ ∀ e ∈ es, e.result.value = 0 := by
  revert hok
  refine TransitionSystem.exec_history
    (P := fun es s => (∀ e ∈ es, e.undisturbed = true) → Fine s ∧ ∀ e ∈ es, e.result.value = 0)
    ?_ ?_ he
  · intro _
    refine ⟨⟨?_, fun _ => rfl, fun _ _ _ hS => absurd hS nofun⟩, by simp⟩
    exact fun _ => ⟨by simp [network, Joint.system, AsyncTcpClient.client,
      AsyncTcpClient.State.init, Session.Stopped, Session.new], fun _ _ h => absurd h nofun⟩
  · intro es s e s' he hi hs hok
    have hr := TransitionSystem.reachable_of_exec he
    obtain ⟨hfine, hall⟩ := hi fun e h => hok e (List.mem_append_left _ h)
    have hoke := hok e (List.mem_append_right _ List.mem_cons_self)
    have hsuccess := hfine.succeeds he hs hoke
    obtain ⟨hsessions, hcancel⟩ := hfine.client hs hoke hsuccess
    refine ⟨⟨hsessions, hcancel, fun j S x hS hx => hfine.service hr hs hsuccess hS hx⟩, ?_⟩
    intro e' he'
    rcases List.mem_append.mp he' with he' | he'
    · exact hall e' he'
    · exact List.mem_singleton.mp he' ▸ hsuccess

/-- What an undisturbed run comes to in which `close` is not called. -/
structure Succeeds (num_of_threads thread_pool_size : Nat) (es : List Event)
    (s : JointState ClientState ServerState Net) : Prop where
  /-- No operation fails, and no read comes to the end of its stream. -/
  success : ∀ e ∈ es, e.result.value = 0
  /-- Every callback is given the response and the id of its own call, and no error. -/
  callbacks : ∀ S, ∀ k ∈ (s.left.session S).callbacks, k.ec.value = 0 ∧
    k.response = bytes "Response" ∧
    ∃ duration_sec, (calls es)[S]? = some (duration_sec, k.request_id)
  /-- Left alone, the whole comes to rest. -/
  comes_to_rest : ∃ fs s', (∀ e ∈ fs, e.own = true) ∧
    (network thread_pool_size).execUnder (Admitted num_of_threads) s fs = some s' ∧
    AtRest num_of_threads thread_pool_size s'
  /-- Wherever it does while the server runs, every call that has returned was called back. -/
  answered : s.right.pc = .running → ∀ fs s', (∀ e ∈ fs, e.own = true) →
    (network thread_pool_size).execUnder (Admitted num_of_threads) s fs = some s' →
    AtRest num_of_threads thread_pool_size s' → Settled s' ∧
      ∀ S, (s'.left.session S).call = .returned → (s'.left.session S).callbacks.length = 1

/-- **If nothing fails and nobody cancels, every request is answered**, in every interleaving. -/
theorem undisturbed_succeeds (hthreads : 0 < num_of_threads) (hpool : 0 < thread_pool_size)
    (he : (network thread_pool_size).execUnder (Admitted num_of_threads)
      (network thread_pool_size).init es = some s)
    (hok : ∀ e ∈ es, e.undisturbed = true) : Succeeds num_of_threads thread_pool_size es s := by
  have hrun := TransitionSystem.exec_of_execUnder he
  obtain ⟨hfine, hsuccess⟩ := fine hrun hok
  refine ⟨hsuccess, ?_, exists_rest hrun, ?_⟩
  · intro S k hk
    have hreport := (AsyncTcpClient.reachable_report
      (Joint.reachable_sides (TransitionSystem.reachable_of_exec hrun)).1 S).2 k hk
    have hgoes := (hfine.sessions S).goes
    have hec : k.ec.value = 0 := by
      rw [hreport, Session.reported]
      simp only [Session.Stopped, not_or, not_not, Bool.not_eq_true] at hgoes
      simp [hgoes]
    obtain ⟨hresponse, -, -, duration_sec, -, hcall, -⟩ := service_of_success hrun hk hec
    exact ⟨hec, hresponse, duration_sec, hcall⟩
  · intro hgoes fs s' hown hunder hrest
    have hsettled := (settled_iff_of_rest hthreads hpool hrun hgoes hown
      (TransitionSystem.exec_of_execUnder hunder) hrest).2 hfine.cancel
    exact ⟨hsettled, hsettled.client.callback⟩

theorem undisturbed_succeeds_oneExchange :
    ∃ s, (network 1).execUnder (Admitted 1) (network 1).init oneExchange = some s ∧
      (s.left.session 0).callbacks = [⟨1, bytes "Response", .success⟩] ∧
      Succeeds 1 1 oneExchange s := by
  have hrun : ((network 1).execUnder (Admitted 1) (network 1).init oneExchange).map
      (fun s => (s.left.session 0).callbacks) =
      some [⟨1, bytes "Response", .success⟩] := by decide
  obtain ⟨s, hs, hcallbacks⟩ := Option.map_eq_some_iff.mp hrun
  exact ⟨s, hs, hcallbacks, undisturbed_succeeds (by decide) (by decide) hs (by decide)⟩

end AsioStudy.AsyncTcp
