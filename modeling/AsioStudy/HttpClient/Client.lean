import AsioStudy.HttpClient.Liveness

/-!
# AsioStudy.HttpClient.Client

The class `HTTPClient`: any number of requests made by `create_request`, whose handlers all
run on the one thread `m_thread`, and `close`.

`m_ios` counts the operations that are pending or whose handler runs, and `m_work`. It stops
as soon as the count is zero; then `run` returns, no handler is invoked any more, and `join`
returns.
-/

namespace AsioStudy.HttpClient

/-- Where the thread that calls `close` is. -/
inductive ClosePc
  | idle
  /-- At `m_thread->join()`. -/
  | join
  | returned
  deriving DecidableEq, Repr

structure ClientState where
  /-- The requests in the order of their creation. -/
  requests : List State
  /-- `m_work` has not been reset. -/
  m_work : Bool
  /-- `m_ios` has run out of work. -/
  iosStopped : Bool
  close : ClosePc

inductive ClientAction
  /-- `create_request`, with the host and the resource that are set afterwards. -/
  | create_request (m_host m_uri : Bytes)
  /-- A step of the `i`-th request. -/
  | request (i : Nat) (a : Action)
  /-- `m_work.reset(NULL)` -/
  | close
  /-- `m_thread->join()` returns. -/
  | join
  deriving DecidableEq, Repr

namespace ClientState

def init : ClientState := ⟨[], true, false, .idle⟩

/-- The operations of a request that count as work. -/
def ofRequest (r : State) : Nat := r.pending.length + (r.frame .io).isSome.toNat

def work (s : ClientState) : Nat := (s.requests.map ofRequest).sum + s.m_work.toNat

/-- `m_ios` stops when it has run out of work. -/
def settle (s : ClientState) : ClientState := if s.work = 0 then { s with iosStopped := true } else s

/-- `m_thread` can invoke a handler. -/
def mayInvoke (s : ClientState) : Prop :=
  s.iosStopped = false ∧ ∀ r ∈ s.requests, r.frame .io = none

instance (s : ClientState) : Decidable s.mayInvoke := inferInstanceAs (Decidable (_ ∧ _))

/-- Whether a step of a request may take place. -/
def enabled (s : ClientState) : Action → Prop
  | .complete _ _ _ => s.mayInvoke
  | _ => True

instance (s : ClientState) (a : Action) : Decidable (s.enabled a) :=
  match a with
  | .complete _ _ _ => inferInstanceAs (Decidable s.mayInvoke)
  | .execute | .worker _ _ | .cancel _ | .canceller _ => isTrue trivial

end ClientState

section Steps
variable (P : Platform)

def stepClient (s : ClientState) : ClientAction → Option ClientState
  | .create_request m_host m_uri =>
      some { s with requests := s.requests ++ [.init m_host m_uri] }
  | .request i a =>
      if s.enabled a then
        s.requests[i]?.bind fun r => (step P r a).map fun r =>
          { s with requests := s.requests.set i r }.settle
      else none
  | .close =>
      if s.close = .idle then some { s with m_work := false, close := .join }.settle else none
  | .join => if s.close = .join ∧ s.iosStopped = true then some { s with close := .returned } else none

/-- An `HTTPClient` as a transition system. -/
def client : TransitionSystem ClientState ClientAction := ⟨.init, stepClient P⟩

end Steps

variable {P : Platform} {s s' : ClientState} {a : ClientAction} {i : Nat} {r : State}

@[simp] theorem ClientState.settle_fields (s : ClientState) :
    s.settle.requests = s.requests ∧ s.settle.m_work = s.m_work ∧ s.settle.close = s.close := by
  unfold settle
  split <;> exact ⟨rfl, rfl, rfl⟩

theorem ClientState.settle_stopped (s : ClientState) :
    s.settle.iosStopped = true ↔ s.iosStopped = true ∨ s.work = 0 := by
  unfold settle
  split <;> simp [*]

inductive ClientStep (P : Platform) (s : ClientState) : ClientAction → ClientState → Prop
  | create_request {m_host m_uri} : ClientStep P s (.create_request m_host m_uri)
      { s with requests := s.requests ++ [.init m_host m_uri] }
  | request {i a r r'} : s.requests[i]? = some r → step P r a = some r' → s.enabled a →
      ClientStep P s (.request i a) { s with requests := s.requests.set i r' }.settle
  | close : s.close = .idle → ClientStep P s .close { s with m_work := false, close := .join }.settle
  | join : s.close = .join → s.iosStopped = true → ClientStep P s .join { s with close := .returned }

/-- **Inversion.** Every step of the client is one of the listed ones. -/
theorem client_inv (h : stepClient P s a = some s') : ClientStep P s a s' := by
  cases a with
  | create_request m_host m_uri =>
      obtain rfl := Option.some.inj h
      exact .create_request
  | request i a =>
      simp only [stepClient] at h
      split at h
      · next hok =>
        obtain ⟨r, hr, h⟩ := Option.bind_eq_some_iff.mp h
        obtain ⟨r', hr', rfl⟩ := Option.map_eq_some_iff.mp h
        exact .request hr hr' hok
      · exact absurd h nofun
  | close =>
      simp only [stepClient] at h
      split at h
      · next hclose => obtain rfl := Option.some.inj h; exact .close hclose
      · exact absurd h nofun
  | join =>
      simp only [stepClient] at h
      split at h
      · next hjoin => obtain rfl := Option.some.inj h; exact .join hjoin.1 hjoin.2
      · exact absurd h nofun

/-! ### The requests -/

/-- A request of the client by itself. -/
def OwnRun (P : Platform) (r : State) : Prop :=
  ∃ m_host m_uri, (machine P m_host m_uri).Reachable r

/-- **Every request is a run of its own machine**, so that all that holds of one request holds
of each of them. -/
theorem reachable_ownRun (h : (client P).Reachable s) : ∀ r ∈ s.requests, OwnRun P r := by
  refine h.invariant (P := fun s => ∀ r ∈ s.requests, OwnRun P r)
    (by simp [client, ClientState.init]) ?_
  intro s a s' _ hi hs
  cases client_inv hs with
  | @create_request m_host m_uri =>
      intro r hr
      rcases List.mem_append.mp hr with hr | hr
      · exact hi r hr
      · obtain rfl := List.mem_singleton.mp hr
        exact ⟨m_host, m_uri, .init⟩
  | request hr hr' _ =>
      intro x hx
      rw [(ClientState.settle_fields _).1] at hx
      rcases List.mem_or_eq_of_mem_set hx with hx | rfl
      · exact hi x hx
      · obtain ⟨m_host, m_uri, hreach⟩ := hi _ (List.mem_of_getElem? hr)
        exact ⟨m_host, m_uri, hreach.step hr'⟩
  | close _ =>
      rw [(ClientState.settle_fields _).1]
      exact hi
  | join _ _ => exact hi

/-! ### The thread -/

/-- The handlers that run on `m_thread`. -/
def ClientState.handlers (s : ClientState) : Nat :=
  (s.requests.map fun r => (r.frame .io).isSome.toNat).sum

/-- `m_ios` and its thread. -/
structure IoInv (s : ClientState) : Prop where
  /-- At most one handler runs. -/
  one_handler : s.handlers ≤ 1
  /-- `m_ios` does not go on without work. -/
  stops : s.work = 0 → s.iosStopped = true
  /-- Once it has stopped no handler runs. -/
  idle : s.iosStopped = true → s.handlers = 0 ∧ s.m_work = false
  /-- `m_work` is reset by `close` alone. -/
  work : s.m_work = true ↔ s.close = .idle
  returned : s.close = .returned → s.iosStopped = true

theorem ClientState.handlers_le_work (s : ClientState) : s.handlers + s.m_work.toNat ≤ s.work := by
  have hle : s.handlers ≤ 1 * (s.requests.map ofRequest).sum := by
    refine sum_map_le_mul ?_
    intro r _
    unfold ofRequest
    omega
  unfold work
  omega

/-- Only a completion invokes a handler. -/
theorem Step.io_frame {a : Action} {r' : State} (h : Step P r a r')
    (hno : ∀ stage ec received, a ≠ .complete stage ec received) :
    (r'.frame .io).isSome.toNat ≤ (r.frame .io).isSome.toNat := by
  cases h with
  | execute _ => simp
  | @worker k _ _ h =>
      cases k with
      | user => cases h <;> simp
      | io => cases h <;> simp [*]
  | complete _ _ => exact absurd rfl (hno _ _ _)
  | cancel _ => exact Nat.le_refl _
  | canceller h => cases h <;> exact Nat.le_refl _

/-- What a step of a request does to the thread. -/
theorem request_handlers {a : Action} {r' : State} (hr : s.requests[i]? = some r)
    (h : Step P r a r') (hok : s.enabled a) :
    (({ s with requests := s.requests.set i r' } : ClientState).handlers ≤ s.handlers) ∨
      s.mayInvoke ∧ ({ s with requests := s.requests.set i r' } : ClientState).handlers ≤ 1 := by
  have hset := sum_map_set (fun r : State => (r.frame .io).isSome.toNat) r' hr
  by_cases hcomplete : ∃ stage ec received, a = .complete stage ec received
  · obtain ⟨stage, ec, received, rfl⟩ := hcomplete
    refine .inr ⟨hok, ?_⟩
    have hzero : s.handlers = 0 := by
      have hle : s.handlers ≤ 0 * s.requests.length := by
        refine sum_map_le_length ?_
        intro x hx
        simp [hok.2 x hx]
      omega
    have hone := Bool.toNat_le (r'.frame .io).isSome
    simp only [ClientState.handlers] at hzero ⊢
    omega
  · refine .inl ?_
    have hio := h.io_frame fun stage ec received he => hcomplete ⟨stage, ec, received, he⟩
    simp only [ClientState.handlers]
    omega

/-- What is left to show of a state that is settled. -/
theorem IoInv.settle (hone : s.handlers ≤ 1) (hidle : s.iosStopped = true → s.handlers = 0 ∧
    s.m_work = false) (hwork : s.m_work = true ↔ s.close = .idle)
    (hreturned : s.close = .returned → s.iosStopped = true) : IoInv s.settle := by
  have hfields := s.settle_fields
  have hstopped := s.settle_stopped
  have hhandlers : s.settle.handlers = s.handlers := by
    simp only [ClientState.handlers, hfields.1]
  have hsame : s.settle.work = s.work := by
    simp only [ClientState.work, hfields.1, hfields.2.1]
  refine ⟨by rw [hhandlers]; exact hone, ?_, ?_, ?_, ?_⟩
  · rw [hsame, hstopped]
    exact .inr
  · rw [hstopped, hhandlers, hfields.2.1]
    rintro (hs | hzero)
    · exact hidle hs
    · have hle := s.handlers_le_work
      rw [hzero] at hle
      refine ⟨by omega, ?_⟩
      cases hm : s.m_work
      · rfl
      · rw [hm, Bool.toNat_true] at hle
        omega
  · rw [hfields.2.1, hfields.2.2]
    exact hwork
  · rw [hfields.2.2, hstopped]
    exact fun h => .inl (hreturned h)

theorem ClientStep.ioInv (h : ClientStep P s a s') (hi : IoInv s) : IoInv s' := by
  cases h with
  | @create_request m_host m_uri =>
      have hhandlers : ({ s with requests := s.requests ++ [.init m_host m_uri] } :
          ClientState).handlers = s.handlers := by
        simp [ClientState.handlers, State.init]
      have hsame : ({ s with requests := s.requests ++ [.init m_host m_uri] } :
          ClientState).work = s.work := by
        simp [ClientState.work, ClientState.ofRequest, State.init]
      exact ⟨hhandlers ▸ hi.one_handler, fun h => hi.stops (hsame ▸ h),
        fun h => hhandlers ▸ hi.idle h, hi.work, hi.returned⟩
  | @request i a r r' hr hr' hok =>
      have hle := request_handlers hr (step_inv hr') hok
      refine IoInv.settle ?_ ?_ hi.work hi.returned
      · rcases hle with hle | ⟨-, hle⟩
        · exact Nat.le_trans hle hi.one_handler
        · exact hle
      · intro hstopped
        obtain ⟨hzero, hwork⟩ := hi.idle hstopped
        refine ⟨?_, hwork⟩
        rcases hle with hle | ⟨hmay, -⟩
        · omega
        · exact absurd (hmay.1.symm.trans hstopped) (by simp)
  | close hclose =>
      refine IoInv.settle hi.one_handler ?_ (by simp) (by simp)
      intro hstopped
      exact ⟨(hi.idle hstopped).1, rfl⟩
  | join hclose hstopped =>
      refine ⟨hi.one_handler, hi.stops, hi.idle, ?_, fun _ => hstopped⟩
      have hwork := hi.work
      simp only [hclose, reduceCtorEq, iff_false] at hwork
      simp [hwork]

theorem reachable_ioInv (h : (client P).Reachable s) : IoInv s := by
  refine h.invariant (P := IoInv) ?_ ?_
  · refine ⟨Nat.zero_le _, ?_, nofun, by simp [client, ClientState.init], nofun⟩
    simp [client, ClientState.init, ClientState.work]
  · intro s a s' _ hi hs
    exact (client_inv hs).ioInv hi

/-- What holds of a client at any time. -/
structure ClientSafe (P : Platform) (s : ClientState) : Prop where
  /-- The handlers of all requests run one after the other. -/
  one_handler : s.handlers ≤ 1
  /-- No request is affected by the others. -/
  own_run : ∀ r ∈ s.requests, OwnRun P r
  /-- `m_ios` stops only when no operation of any request is left. -/
  waits : ∀ a s', stepClient P s a = some s' → s.iosStopped = false → s'.iosStopped = true →
    ∀ r ∈ s'.requests, r.pending = [] ∧ r.frame .io = none
  /-- After `close` no handler runs, and none is invoked. -/
  closed : s.close = .returned → (∀ r ∈ s.requests, r.frame .io = none) ∧
    ∀ i stage ec received, stepClient P s (.request i (.complete stage ec received)) = none

theorem sum_map_eq_zero {α : Type*} {f : α → Nat} {l : List α} (h : (l.map f).sum = 0) :
    ∀ x ∈ l, f x = 0 := by
  intro x hx
  have hle := List.single_le_sum (l := l.map f) (by simp) (f x) (List.mem_map_of_mem hx)
  omega

theorem ClientState.ofRequest_eq_zero (h : ofRequest r = 0) : r.pending = [] ∧ r.frame .io = none := by
  unfold ofRequest at h
  refine ⟨List.length_eq_zero_iff.mp (by omega), ?_⟩
  cases hio : r.frame .io with
  | none => rfl
  | some f =>
      rw [hio, Option.isSome_some, Bool.toNat_true] at h
      omega

theorem reachable_clientSafe (h : (client P).Reachable s) : ClientSafe P s := by
  have hi := reachable_ioInv h
  refine ⟨hi.one_handler, reachable_ownRun h, ?_, ?_⟩
  · intro a s' hs hgoes hstops
    have hzero : s'.work = 0 := by
      cases client_inv hs with
      | create_request => exact absurd (hgoes.symm.trans hstops) nofun
      | join _ hstopped => exact absurd (hgoes.symm.trans hstopped) nofun
      | request _ _ _ | close _ =>
          rw [ClientState.settle_stopped] at hstops
          rcases hstops with hstops | hzero
          · exact absurd (hgoes.symm.trans hstops) nofun
          · simpa only [ClientState.work, ClientState.settle_fields] using hzero
    intro r hr
    unfold ClientState.work at hzero
    exact ClientState.ofRequest_eq_zero (sum_map_eq_zero (Nat.add_eq_zero_iff.mp hzero).1 r hr)
  · intro hclosed
    have hstopped := hi.returned hclosed
    refine ⟨?_, ?_⟩
    · intro r hr
      have hzero := sum_map_eq_zero (hi.idle hstopped).1 r hr
      cases hio : r.frame .io with
      | none => rfl
      | some f => simp [hio] at hzero
    · intro i stage ec received
      simp [stepClient, ClientState.enabled, ClientState.mayInvoke, hstopped]

/-- A call of `execute()` that starts the resolution. -/
def executeSteps (i : Nat) : List ClientAction :=
  (Action.execute :: startSteps .user).map (.request i)

/-- The resolution fails, and the callback is invoked. -/
def failSteps (i : Nat) (ec : ErrorCode) : List ClientAction :=
  [Action.complete .on_host_name_resolved ec [], .worker .io true, .worker .io true,
    .worker .io true].map (.request i)

/-- Two requests, as in `main`: the second one is cancelled, and the first one fails. -/
def twoRequests : List ClientAction :=
  .create_request (bytes "h") (bytes "/") :: executeSteps 0 ++
    .create_request (bytes "h") (bytes "/") :: executeSteps 1 ++
    [Action.cancel 0, .canceller 0, .canceller 0, .canceller 0, .canceller 0].map (.request 1) ++
    failSteps 1 .operation_aborted ++ .close :: failSteps 0 .eof ++ [.join]

theorem twoRequests_exec :
    ((client .llp64).exec (client .llp64).init twoRequests).map
      (fun s => (s.close, s.requests.map (·.callbacks.length))) = some (.returned, [1, 1]) := by
  decide

theorem reachable_clientSafe_twoRequests :
    ∃ s, (client .llp64).exec (client .llp64).init twoRequests = some s ∧ s.close = .returned ∧
      ClientSafe .llp64 s := by
  obtain ⟨s, hs, he⟩ := Option.map_eq_some_iff.mp twoRequests_exec
  exact ⟨s, hs, (Prod.mk.inj he).1, reachable_clientSafe (TransitionSystem.reachable_of_exec hs)⟩

/-! ### Completion -/

def ClientAction.ofHandler : ClientAction → Bool
  | .request _ a => a.ofHandler
  | _ => false

def ClientAction.isExecute : ClientAction → Bool
  | .request _ a => a.isExecute
  | _ => false

/-- A step that the client takes by itself. -/
def ClientAction.own : ClientAction → Bool
  | .request _ (.worker _ _) | .request _ (.complete _ _ _) | .request _ (.canceller _)
  | .join => true
  | _ => false

/-- The client can do nothing more by itself. -/
def ClientStill (P : Platform) (s : ClientState) : Prop := (client P).Quiescent ClientAction.own s

/-- No handler of any request has thrown or is in a loop that never ends. -/
def ClientState.Fine (s : ClientState) : Prop :=
  ∀ r ∈ s.requests, ∀ k f, r.frame k = some f → f.pc ≠ .threw ∧ f.pc ≠ .loops

/-- What has become of a request. -/
structure Reported (r : State) : Prop where
  /-- `execute` and all handlers have returned, and so have the `cancel()` calls. -/
  frame : ∀ k, r.frame k = none
  cancel : ∀ n, r.cancel n = .idle
  mutex : r.mutex .m_cancel_mux = none
  /-- The callback of an executed request was invoked, once. -/
  callbacks : r.callbacks.length = r.executed.toNat

/-- Where a run of the client leads. -/
structure ClientCompletes (P : Platform) (as : List ClientAction) (s : ClientState) : Prop where
  /-- Each `execute()` costs at most 47 steps. -/
  bounded : as.countP ClientAction.ofHandler ≤ 47 * as.countP ClientAction.isExecute
  /-- Where the client can do nothing more, every request has been reported, unless it was
  executed after `m_ios` had stopped. -/
  reported : ClientStill P s → s.Fine → ∀ r ∈ s.requests, r.pending = [] → Reported r
  pending : ClientStill P s → s.Fine → s.iosStopped = false → ∀ r ∈ s.requests, r.pending = []
  /-- And `close` has returned if it was called. -/
  closed : ClientStill P s → s.Fine → s.close ≠ .join

theorem client_potential (P : Platform) :
    (client P).Potential (fun _ => True) ClientAction.ofHandler
      (fun a => if a.isExecute then 47 else 0) fun s => (s.requests.map State.cost).sum := by
  refine ⟨?_⟩
  intro s a s' hreach _ hs
  cases client_inv hs with
  | create_request =>
      simp [ClientAction.ofHandler, ClientAction.isExecute, State.cost, State.frameCost, State.init]
  | @request i a r r' hr hr' _ =>
      obtain ⟨m_host, m_uri, hown⟩ := reachable_ownRun hreach r (List.mem_of_getElem? hr)
      have hcost := (step_inv hr').cost (reachable_oneLoad hown)
      have hset := sum_map_set State.cost r' hr
      simp only [ClientState.settle_fields]
      change _ + a.ofHandler.toNat ≤ _ + if a.isExecute then 47 else 0
      omega
  | close _ =>
      simp only [ClientState.settle_fields, ClientAction.ofHandler, Bool.toNat_false]
      omega
  | join _ _ => exact Nat.le_refl _

/-- A client at rest is made of requests at rest. -/
theorem still_of_clientStill (h : ClientStill P s) (hr : r ∈ s.requests) : Still P r := by
  obtain ⟨i, hi⟩ := List.mem_iff_getElem?.mp hr
  refine ⟨?_, ?_⟩
  · intro k shutdown
    have hstep := h (.request i (.worker k shutdown)) rfl
    simpa [client, stepClient, ClientState.enabled, hi] using hstep
  · intro n
    have hstep := h (.request i (.canceller n)) rfl
    simpa [client, stepClient, ClientState.enabled, hi] using hstep

theorem frame_of_clientStill (hreach : (client P).Reachable s) (h : ClientStill P s)
    (hfine : s.Fine) (hr : r ∈ s.requests) (k : Worker) : r.frame k = none := by
  obtain ⟨m_host, m_uri, hown⟩ := reachable_ownRun hreach r hr
  cases hf : r.frame k with
  | none => rfl
  | some f =>
      obtain ⟨hthrew, hloops⟩ := hfine r hr k f hf
      rcases (still_of_clientStill h hr).frame hown hf with hpc | hpc
      · exact absurd hpc hthrew
      · exact absurd hpc hloops

theorem pending_of_clientStill (hreach : (client P).Reachable s) (h : ClientStill P s)
    (hfine : s.Fine) (hgoes : s.iosStopped = false) (hr : r ∈ s.requests) : r.pending = [] := by
  obtain ⟨i, hi⟩ := List.mem_iff_getElem?.mp hr
  have hmay : s.mayInvoke := ⟨hgoes, fun x hx => frame_of_clientStill hreach h hfine hx .io⟩
  have hidle := frame_of_clientStill hreach h hfine hr .io
  cases hpending : r.pending with
  | nil => rfl
  | cons stage stages =>
      have hstep := h (.request i (.complete stage .success [])) rfl
      simp [client, stepClient, ClientState.enabled, hmay, hi, step, hpending, hidle] at hstep

/-- **Every request is reported, and `close` returns**, after a bounded number of steps. -/
theorem client_completes {as : List ClientAction}
    (he : (client P).exec (client P).init as = some s) : ClientCompletes P as s := by
  have hreach := TransitionSystem.reachable_of_exec he
  have hio := reachable_ioInv hreach
  refine ⟨?_, ?_, ?_, ?_⟩
  · have hle := (client_potential P).countP_le .init (fun _ _ => trivial) he
    have hinit : ((client P).init.requests.map State.cost).sum = 0 := rfl
    rw [sum_map_ite, hinit] at hle
    omega
  · intro hstill hfine r hr hpending
    obtain ⟨m_host, m_uri, hown⟩ := reachable_ownRun hreach r hr
    have hframe := frame_of_clientStill hreach hstill hfine hr
    have hr' := still_of_clientStill hstill hr
    refine ⟨hframe, hr'.cancel hown, hr'.mutex hown, ?_⟩
    have hload := (reachable_oneLoad hown).eq
    simpa [State.load, State.busy, hframe, hpending] using hload
  · intro hstill hfine hgoes r hr
    exact pending_of_clientStill hreach hstill hfine hgoes hr
  · intro hstill hfine hclose
    have hjoin := hstill .join rfl
    cases hstopped : s.iosStopped with
    | true => simp [client, stepClient, hclose, hstopped] at hjoin
    | false =>
        have hwork : s.m_work = false := by
          have hiff := hio.work
          simpa [hclose] using hiff
        have hzero : s.work = 0 := by
          have hle : (s.requests.map ClientState.ofRequest).sum ≤ 0 * s.requests.length := by
            refine sum_map_le_length ?_
            intro r hr
            simp [ClientState.ofRequest, pending_of_clientStill hreach hstill hfine hstopped hr,
              frame_of_clientStill hreach hstill hfine hr]
          simp only [ClientState.work, hwork, Bool.toNat_false]
          omega
        exact absurd (hio.stops hzero) (by simp [hstopped])

theorem client_completes_twoRequests :
    ∃ s, (client .llp64).exec (client .llp64).init twoRequests = some s ∧
      s.requests.map (·.callbacks.length) = [1, 1] ∧ ClientCompletes .llp64 twoRequests s := by
  obtain ⟨s, hs, he⟩ := Option.map_eq_some_iff.mp twoRequests_exec
  exact ⟨s, hs, (Prod.mk.inj he).2, client_completes hs⟩

end AsioStudy.HttpClient
