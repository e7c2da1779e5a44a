import AsioStudy.AsyncTcpClient.Liveness

/-!
# AsioStudy.AsyncTcpClient.Close

The threads of the client and `close`. The constructor starts `num_of_threads` threads in
`m_ios.run()` (`ThreadPool/Spawn.lean` says when it ends); `close` resets `m_work` and joins
them. `m_ios` counts `m_work`, the operations that are pending and the handlers that run. It
stops as soon as the count is zero; then `run` returns in every thread, and no handler is invoked
any more, not even for an operation that is started afterwards.
-/

namespace AsioStudy.AsyncTcpClient

open Finset

variable {num_of_threads : Nat} {s s' : State} {a : Action} {S T : SessionId} {op : Op}
  {x y : Session}

/-- Where the thread that calls `close` is. -/
inductive ClosePc
  | idle
  /-- At the joins. -/
  | join
  | returned
  deriving DecidableEq, Repr

/-- The handlers of the session that run. -/
def Session.handlers (x : Session) : Nat :=
  (x.pc .connect).running.toNat + (x.pc .write).running.toNat + (x.pc .read).running.toNat

def State.handlers (s : State) : Nat := ∑ S ∈ range s.next, (s.session S).handlers

/-- What `m_ios` counts. -/
def State.work (s : State) : Nat :=
  ∑ S ∈ range s.next, ((s.session S).pendingOps + (s.session S).handlers) + s.m_work.toNat

structure PoolState where
  client : State
  /-- `m_ios` has run out of work. -/
  iosStopped : Bool
  close : ClosePc

inductive PoolAction
  /-- A step of the client other than `close`. -/
  | client (a : Action)
  /-- `m_work.reset(NULL)` -/
  | close
  /-- The joins return. -/
  | join
  deriving DecidableEq, Repr

namespace PoolState

def init : PoolState := ⟨.init, false, .idle⟩

/-- `m_ios` stops when it has run out of work. -/
def settle (p : PoolState) : PoolState :=
  if p.client.work = 0 then { p with iosStopped := true } else p

/-- A thread is free to invoke a handler. -/
def mayInvoke (num_of_threads : Nat) (p : PoolState) : Prop :=
  p.iosStopped = false ∧ p.client.handlers < num_of_threads

instance (p : PoolState) : Decidable (p.mayInvoke num_of_threads) :=
  inferInstanceAs (Decidable (_ ∧ _))

/-- Whether a step of the client may take place. -/
def enabled (num_of_threads : Nat) (p : PoolState) : Action → Prop
  | .complete _ _ _ _ => p.mayInvoke num_of_threads
  | .close => False
  | _ => True

instance (p : PoolState) (a : Action) : Decidable (p.enabled num_of_threads a) :=
  match a with
  | .complete _ _ _ _ => inferInstanceAs (Decidable (p.mayInvoke num_of_threads))
  | .close => isFalse id
  | .emulateLongComputationOp _ _ _ | .caller _ _ | .handler _ _ | .cancelRequest _ _
  | .canceller _ => isTrue trivial

end PoolState

def stepPool (num_of_threads : Nat) (p : PoolState) : PoolAction → Option PoolState
  | .client a =>
      if p.enabled num_of_threads a then
        (step p.client a).map fun s => { p with client := s }.settle
      else none
  | .close =>
      if p.close = .idle then
        some { p with client := { p.client with m_work := false }, close := .join }.settle
      else none
  | .join =>
      -- with no thread there is nothing to join
      if p.close = .join ∧ (num_of_threads = 0 ∨ p.iosStopped = true) then
        some { p with close := .returned }
      else none

/-- `AsyncTCPClient(num_of_threads)` with its threads. -/
def pool (num_of_threads : Nat) : TransitionSystem PoolState PoolAction :=
  ⟨.init, stepPool num_of_threads⟩

variable {p p' p₀ : PoolState} {b : PoolAction}

@[simp] theorem PoolState.settle_fields (p : PoolState) :
    p.settle.client = p.client ∧ p.settle.close = p.close := by
  unfold settle
  split <;> exact ⟨rfl, rfl⟩

theorem PoolState.settle_stopped (p : PoolState) :
    p.settle.iosStopped = true ↔ p.iosStopped = true ∨ p.client.work = 0 := by
  unfold settle
  split <;> simp [*]

inductive PoolStep (num_of_threads : Nat) (p : PoolState) : PoolAction → PoolState → Prop
  | client {a : Action} {s : State} : step p.client a = some s → p.enabled num_of_threads a →
      PoolStep num_of_threads p (.client a) { p with client := s }.settle
  | close : p.close = .idle → PoolStep num_of_threads p .close
      { p with client := { p.client with m_work := false }, close := .join }.settle
  | join : p.close = .join → num_of_threads = 0 ∨ p.iosStopped = true →
      PoolStep num_of_threads p .join { p with close := .returned }

/-- **Inversion.** Every step of the pool is one of the listed ones. -/
theorem pool_inv (h : stepPool num_of_threads p b = some p') : PoolStep num_of_threads p b p' := by
  cases b with
  | client a =>
      simp only [stepPool] at h
      split at h
      · next hok =>
        obtain ⟨s, hs, rfl⟩ := Option.map_eq_some_iff.mp h
        exact .client hs hok
      · exact absurd h (by simp)
  | close =>
      simp only [stepPool] at h
      split at h
      · next hclose => obtain rfl := Option.some.inj h; exact .close hclose
      · exact absurd h (by simp)
  | join =>
      simp only [stepPool] at h
      split at h
      · next hjoin => obtain rfl := Option.some.inj h; exact .join hjoin.1 hjoin.2
      · exact absurd h (by simp)

/-- The client is one of `Model.lean`. -/
theorem pool_client (h : (pool num_of_threads).Reachable p) : client.Reachable p.client := by
  refine h.invariant (P := fun p => client.Reachable p.client) .init ?_
  intro p b p' _ hi hs
  cases pool_inv hs with
  | client hst _ =>
      rw [(PoolState.settle_fields _).1]
      exact hi.step hst
  | close _ =>
      rw [(PoolState.settle_fields _).1]
      exact hi.step (a := .close) rfl
  | join _ _ => exact hi

/-! ### The handlers that run -/

theorem Session.handlers_eq_zero : x.handlers = 0 ↔ x.Quiet := by
  constructor
  · intro h op
    unfold Session.handlers at h
    cases op with
    | connect | write | read => exact Bool.toNat_eq_zero.mp (by omega)
  · intro h
    simp [Session.handlers, h _]

theorem Session.handlers_setPc (x : Session) (op : Op) (pc : HandlerPc) :
    (x.setPc op pc).handlers + (x.pc op).running.toNat = x.handlers + pc.running.toNat := by
  cases op <;> simp [Session.handlers] <;> omega

theorem Session.handlers_congr (hpc : y.pc = x.pc) : y.handlers = x.handlers := by
  simp only [Session.handlers, hpc]

def Action.completes : Action → Bool
  | .complete _ _ _ _ => true
  | _ => false

theorem HandlerMove.running (h : HandlerMove x op y) : (x.pc op).running = true := by
  cases h with
  | enter hpc | lockCancel hpc | cancelled hpc _ | notCancelled hpc _ | startNext hpc _
  | shutdown hpc | lockActive hpc | eraseEntry hpc | unlockActive hpc | report hpc | callback hpc
  | ret hpc => rw [hpc]; rfl

theorem HandlerMove.handlers (h : HandlerMove x op y) : y.handlers ≤ x.handlers := by
  have hrunning := h.running
  have hset : ∀ pc, (x.setPc op pc).handlers ≤ x.handlers := by
    intro pc
    have hmove := x.handlers_setPc op pc
    have hle := Bool.toNat_le pc.running
    rw [hrunning, Bool.toNat_true] at hmove
    omega
  cases h with
  | @enter ec _ =>
      have hcongr : (x.enter op ec).handlers = (x.setPc op (Session.enterPc op ec)).handlers := by
        refine Session.handlers_congr ?_
        funext o
        simp
      rw [hcongr]
      exact hset _
  | @startNext op' _ hn =>
      have hmove := x.handlers_setPc op' .pending
      have hmove' := (x.setPc op' .pending).handlers_setPc op .ret
      rw [Session.setPc_pc, if_neg (Op.ne_of_next hn).symm, hrunning] at hmove'
      simp only [HandlerPc.running, Bool.toNat_false, Bool.toNat_true] at hmove hmove'
      omega
  | @callback ec _ =>
      have hcongr : ((x.invokeCallback ec).setPc op .ret).handlers = (x.setPc op .ret).handlers :=
        Session.handlers_congr rfl
      rw [hcongr]
      exact hset _
  | _ => exact hset _

/-- Only a completion invokes a handler. -/
theorem SessionStep.handlers (h : SessionStep s S a y) :
    y.handlers ≤ (s.session S).handlers + a.completes.toNat := by
  cases h with
  | construct _ => exact Nat.zero_le _
  | caller h =>
      cases h with
      | asyncConnect _ =>
          have hmove := (s.session S).handlers_setPc .connect .pending
          simp only [HandlerPc.running, Bool.toNat_false] at hmove
          have hcongr : (((s.session S).setPc .connect .pending).setCall .returned).handlers =
              ((s.session S).setPc .connect .pending).handlers := Session.handlers_congr rfl
          rw [hcongr]
          omega
      | _ => exact Nat.le_add_right _ _
  | @complete op ec received _ =>
      have hmove := ((s.session S).receive op received).handlers_setPc op (.entry ec)
      have hcongr : ((s.session S).receive op received).handlers = (s.session S).handlers :=
        Session.handlers_congr (by simp)
      rw [hcongr] at hmove
      simp only [HandlerPc.running, Bool.toNat_true] at hmove
      simp only [Action.completes, Bool.toNat_true]
      omega
  | handler h => exact Nat.le_trans h.handlers (Nat.le_add_right _ _)
  | setCancelled _ => exact Nat.le_add_right _ _

/-- A step invokes at most one handler. -/
theorem Step.handlers (h : Step s a s') : s'.handlers ≤ s.handlers + a.completes.toNat := by
  cases hsession : a.session with
  | some S =>
      obtain ⟨hmove, hothers, hnext, -⟩ := h.moves hsession
      simp only [State.handlers, hnext]
      by_cases hS : S < s.next
      · have hsum := sum_range_add_le (f := fun T => (s.session T).handlers)
          (g := fun T => (s'.session T).handlers) (k := 0) hS hmove.handlers
          fun T hT => by rw [hothers T hT]
        exact hsum
      · refine Nat.le_trans (Nat.le_of_eq (sum_congr rfl ?_)) (Nat.le_add_right _ _)
        intro T hT
        have hne : T ≠ S := by
          intro heq
          exact hS (heq ▸ mem_range.mp hT)
        rw [hothers T hne]
  | none =>
      have hle : ∀ T, (s'.session T).handlers ≤ (s.session T).handlers := by
        intro T
        rcases h.session T with hsame | hstep
        · rw [hsame]
        · have hmove := hstep.handlers
          cases a with
          | complete _ _ _ _ => exact absurd hsession (by simp [Action.session])
          | _ => exact hmove
      refine Nat.le_trans ?_ (Nat.le_add_right _ _)
      cases h with
      | @construct d id =>
          have hnew : ((s.construct d id).session s.next).handlers = 0 := by
            simp [Session.handlers, HandlerPc.running]
          simp only [State.handlers, State.construct_frame, sum_range_succ, hnew, Nat.add_zero]
          exact sum_le_sum fun T _ => hle T
      | canceller h =>
          rw [State.handlers, h.cost.2.2.1]
          exact sum_le_sum fun T _ => hle T
      | badIp | cancelRequest _ | close => exact sum_le_sum fun T _ => hle T
      | _ => exact absurd hsession (by simp [Action.session])

/-! ### `m_ios` -/

/-- Nothing is counted where there is nothing left to do. -/
theorem work_eq_zero (hr : client.Reachable s) : s.work = 0 ↔ s.NoWorkLeft := by
  rw [State.work, Nat.add_eq_zero_iff, sum_eq_zero_iff, Bool.toNat_eq_zero, and_comm]
  refine and_congr_right fun _ => ⟨?_, ?_⟩
  · intro hall S
    by_cases hS : S < s.next
    · have hzero := hall S (mem_range.mpr hS)
      exact ⟨by omega, Session.handlers_eq_zero.mp (by omega)⟩
    · have habsent := (reachable_phase hr).2 S (Nat.le_of_not_lt hS)
      refine ⟨Session.pendingOps_eq_zero.mpr fun op => ?_, fun op => ?_⟩
      · rw [habsent.2.1 op]
        simp
      · rw [habsent.2.1 op]
        rfl
  · intro hno S _
    simp [(hno S).1, Session.handlers_eq_zero.mpr (hno S).2]

/-- `m_ios`, its threads and `close`. -/
structure PoolInv (num_of_threads : Nat) (p : PoolState) : Prop where
  /-- No more handlers run than there are threads. -/
  threads : p.client.handlers ≤ num_of_threads
  /-- `m_ios` does not go on without work. -/
  stops : p.client.NoWorkLeft → p.iosStopped = true
  /-- Once it has stopped no handler runs, and only the operations of new calls are pending. -/
  stopped : p.iosStopped = true → p.client.m_work = false ∧
    ∀ S, (p.client.session S).Quiet ∧
      ∀ op, (p.client.session S).pc op = .pending → op = .connect
  /-- `m_work` is reset by `close` alone. -/
  work : p.client.m_work = true ↔ p.close = .idle
  returned : p.close = .returned → num_of_threads = 0 ∨ p.iosStopped = true

/-- What is left to show of a state that is settled. -/
theorem PoolInv.settle (hr : client.Reachable p.client)
    (hthreads : p.client.handlers ≤ num_of_threads)
    (hstopped : p.iosStopped = true → p.client.m_work = false ∧
      ∀ S, (p.client.session S).Quiet ∧
        ∀ op, (p.client.session S).pc op = .pending → op = .connect)
    (hwork : p.client.m_work = true ↔ p.close = .idle)
    (hreturned : p.close = .returned → num_of_threads = 0 ∨ p.iosStopped = true) :
    PoolInv num_of_threads p.settle := by
  obtain ⟨hclient, hclose⟩ := p.settle_fields
  refine ⟨hclient ▸ hthreads, ?_, ?_, ?_, ?_⟩
  · rw [hclient, PoolState.settle_stopped, work_eq_zero hr]
    exact .inr
  · rw [hclient, PoolState.settle_stopped, work_eq_zero hr]
    intro hsettled
    obtain hs | ⟨hwork, hno⟩ := hsettled
    · exact hstopped hs
    · exact ⟨hwork, fun S => ⟨(hno S).2, fun op hpc =>
        absurd hpc (Session.pendingOps_eq_zero.mp (hno S).1 op)⟩⟩
  · rw [hclient, hclose]
    exact hwork
  · rw [hclose, PoolState.settle_stopped]
    exact fun h => (hreturned h).imp_right .inl

theorem Step.m_work (h : Step s a s') (ha : a ≠ .close) : s'.m_work = s.m_work := by
  cases h with
  | caller h => cases h <;> rfl
  | handler h => cases h <;> rfl
  | canceller h => cases h <;> rfl
  | close => exact absurd rfl ha
  | _ => rfl

/-- Without a handler that runs and without a completion, only a call starts something. -/
theorem SessionStep.quiet (h : SessionStep s S a y) (hquiet : (s.session S).Quiet)
    (hpending : ∀ op, (s.session S).pc op = .pending → op = .connect)
    (ha : a.completes = false) :
    y.Quiet ∧ ∀ op, y.pc op = .pending → op = .connect := by
  cases h with
  | construct _ => exact ⟨fun _ => rfl, fun _ h => absurd h (by simp)⟩
  | caller h =>
      cases h with
      | asyncConnect _ =>
          refine ⟨?_, ?_⟩
          · intro op
            by_cases hop : op = .connect
            · simp [hop, HandlerPc.running]
            · simpa [hop] using hquiet op
          · intro op hpc
            by_contra hop
            exact hop (hpending op (by simpa [hop] using hpc))
      | _ => exact ⟨hquiet, hpending⟩
  | complete _ => exact absurd ha (by simp [Action.completes])
  | @handler op y h => exact absurd (h.running.symm.trans (hquiet op)) (by simp)
  | setCancelled _ => exact ⟨hquiet, hpending⟩

theorem PoolStep.inv (h : PoolStep num_of_threads p b p')
    (hr : AsyncTcpClient.client.Reachable p.client) (hi : PoolInv num_of_threads p) :
    PoolInv num_of_threads p' := by
  cases h with
  | @client a s hs hok =>
      have hst := step_inv hs
      have hclose : a ≠ .close := by
        intro heq
        rw [heq] at hok
        exact hok
      have hwork := hst.m_work hclose
      refine PoolInv.settle (hr.step hs) ?_ ?_ (by rw [hwork]; exact hi.work) hi.returned
      · have hle := hst.handlers
        cases ha : a.completes with
        | false =>
            rw [ha, Bool.toNat_false] at hle
            exact Nat.le_trans hle hi.threads
        | true =>
            rw [ha, Bool.toNat_true] at hle
            cases a with
            | complete S op ec received => exact Nat.le_trans hle hok.2
            | _ => exact absurd ha (by simp [Action.completes])
      · intro hstopped
        obtain ⟨hreset, hidle⟩ := hi.stopped hstopped
        have hcompletes : a.completes = false := by
          cases a with
          | complete S op ec received => exact absurd (hok.1.symm.trans hstopped) (by simp)
          | _ => rfl
        refine ⟨hwork.trans hreset, ?_⟩
        intro S
        rcases hst.session S with hsame | hmoved
        · rw [hsame]
          exact hidle S
        · exact hmoved.quiet (hidle S).1 (hidle S).2 hcompletes
  | close hclose =>
      refine PoolInv.settle (hr.step (a := .close) rfl) hi.threads ?_ (by simp) (by simp)
      intro hstopped
      exact ⟨rfl, (hi.stopped hstopped).2⟩
  | join hclose hstopped =>
      refine ⟨hi.threads, hi.stops, hi.stopped, ?_, fun _ => hstopped⟩
      have hwork := hi.work
      simp only [hclose, reduceCtorEq, iff_false] at hwork
      simp [hwork]

theorem reachable_poolInv (h : (pool num_of_threads).Reachable p) : PoolInv num_of_threads p := by
  refine h.invariant (P := PoolInv num_of_threads) ?_ ?_
  · refine ⟨Nat.zero_le _, ?_, by simp [pool, PoolState.init],
      by simp [pool, PoolState.init, State.init], by simp [pool, PoolState.init]⟩
    exact fun hno => absurd hno.1 (by simp [pool, PoolState.init, State.init])
  · intro p b p' hr hi hs
    exact (pool_inv hs).inv (pool_client hr) hi

/-! ### `close` waits -/

/-- Nothing more happens to a session whose operations have all ended. -/
theorem SessionStep.pc_of_ended (h : SessionStep s S a y) (hcall : (s.session S).call = .returned)
    (hS : S < s.next) (hpending : (s.session S).pendingOps = 0) (hquiet : (s.session S).Quiet) :
    y.pc = (s.session S).pc := by
  cases h with
  | construct hnew => exact absurd hnew (Nat.ne_of_lt hS)
  | caller h =>
      cases h with
      | openThrows hc | opened hc | lockActive hc | insert hc | unlockActive hc
      | asyncConnect hc => exact absurd (hcall.symm.trans hc) (by simp)
  | complete hpc => exact absurd hpc (Session.pendingOps_eq_zero.mp hpending _)
  | @handler op y h => exact absurd (h.running.symm.trans (hquiet op)) (by simp)
  | setCancelled _ => rfl

/-- What `close` has waited for, and what holds it up. -/
structure CloseWaits (num_of_threads : Nat) (p : PoolState) : Prop where
  /-- No more handlers run than there are threads. -/
  threads : p.client.handlers ≤ num_of_threads
  /-- Once `close` has returned no handler runs, and none is invoked any more. -/
  ended : p.close = .returned → ∀ S, (p.client.session S).Quiet ∧ ∀ op ec received,
    stepPool num_of_threads p (.client (.complete S op ec received)) = none
  /-- A request whose call has returned before `close` is called is called back once before
  `close` returns. -/
  answered : p.close = .idle → ∀ S, (p.client.session S).call = .returned →
    ∀ p', ((pool num_of_threads).after p).Reachable p' → p'.close = .returned →
      (p'.client.session S).callbacks.length = 1
  /-- If the lock orders have crossed `close` has not returned. -/
  crossed : Clash p.client → p.close ≠ .returned

theorem call_lt_next (hr : client.Reachable s) (hcall : (s.session S).call = .returned) :
    S < s.next := by
  by_contra hge
  have habsent := (reachable_phase hr).2 S (Nat.le_of_not_lt hge)
  exact absurd (habsent.1.symm.trans hcall) (by simp)

/-- A request that was made before `close` has ended when `m_ios` stops. -/
theorem ended_after (hr : (pool num_of_threads).Reachable p) (hclose : p.close = .idle)
    (hcall : (p.client.session S).call = .returned)
    (h : ((pool num_of_threads).after p).Reachable p') :
    (p'.client.session S).call = .returned ∧ (p'.iosStopped = true →
      (p'.client.session S).pendingOps = 0 ∧ (p'.client.session S).Quiet) := by
  refine hr.invariant_after (P := fun p' => (p'.client.session S).call = .returned ∧
    (p'.iosStopped = true → (p'.client.session S).pendingOps = 0 ∧
      (p'.client.session S).Quiet)) ?_ ?_ h
  · refine ⟨hcall, fun hstopped => ?_⟩
    have hi := reachable_poolInv hr
    exact absurd ((hi.stopped hstopped).1.symm.trans (hi.work.mpr hclose)) (by simp)
  · intro q b q' hrq hi _ hs
    obtain ⟨hcall, hended⟩ := hi
    have hreach := pool_client hrq
    cases pool_inv hs with
    | @client a s hst _ =>
        have hstep := step_inv hst
        have hlt := call_lt_next hreach hcall
        rw [(PoolState.settle_fields _).1, PoolState.settle_stopped, work_eq_zero (hreach.step hst)]
        refine ⟨hstep.call_returned (Nat.ne_of_lt hlt) hcall, ?_⟩
        intro hsettled
        obtain hstopped | ⟨-, hno⟩ := hsettled
        · obtain ⟨hpending, hquiet⟩ := hended hstopped
          have hpc : (s.session S).pc = (q.client.session S).pc := by
            rcases hstep.session S with hsame | hmoved
            · rw [hsame]
            · exact hmoved.pc_of_ended hcall hlt hpending hquiet
          exact ⟨by simpa only [Session.pendingOps, hpc] using hpending,
            by simpa only [Session.Quiet, hpc] using hquiet⟩
        · exact hno S
    | close _ =>
        have hreset : client.Reachable { q.client with m_work := false } :=
          hreach.step (a := .close) rfl
        rw [(PoolState.settle_fields _).1, PoolState.settle_stopped, work_eq_zero hreset]
        refine ⟨hcall, ?_⟩
        intro hsettled
        obtain hstopped | ⟨-, hno⟩ := hsettled
        · exact hended hstopped
        · exact hno S
    | join _ _ => exact ⟨hcall, hended⟩

/-- The joins return when `m_ios` has stopped. -/
theorem PoolInv.stopped_of_returned (hi : PoolInv num_of_threads p)
    (hthreads : 0 < num_of_threads) (hreturned : p.close = .returned) : p.iosStopped = true :=
  (hi.returned hreturned).resolve_left (Nat.ne_of_gt hthreads)

/-- A handler on its cancelled path keeps `m_ios` from stopping. -/
theorem PoolInv.not_returned (hi : PoolInv num_of_threads p) (hthreads : 0 < num_of_threads)
    (hclash : Clash p.client) : p.close ≠ .returned := by
  intro hreturned
  obtain ⟨n, S, op, -, -, -, hheading⟩ := hclash
  have hstopped := hi.stopped_of_returned hthreads hreturned
  have hquiet := ((hi.stopped hstopped).2 S).1 op
  cases hpc : (p.client.session S).pc op <;>
    simp [hpc, HandlerPc.heading, HandlerPc.running] at hheading hquiet

/-- **`close` waits for every request**, in every interleaving. -/
theorem close_waits (hthreads : 0 < num_of_threads) (hr : (pool num_of_threads).Reachable p) :
    CloseWaits num_of_threads p := by
  have hi := reachable_poolInv hr
  refine ⟨hi.threads, ?_, ?_, ?_⟩
  · intro hreturned S
    have hstopped := hi.stopped_of_returned hthreads hreturned
    refine ⟨((hi.stopped hstopped).2 S).1, ?_⟩
    intro op ec received
    simp [stepPool, PoolState.enabled, PoolState.mayInvoke, hstopped]
  · intro hclose S hcall p' h hreturned
    have hr' := hr.after h
    have hstopped := (reachable_poolInv hr').stopped_of_returned hthreads hreturned
    obtain ⟨hcall', hended⟩ := ended_after hr hclose hcall h
    obtain ⟨hpending, hquiet⟩ := hended hstopped
    obtain ⟨q, hq⟩ := (reachable_phase (pool_client hr')).1 S
    have honce := hq.exactly_once hcall' hquiet
    rwa [hpending, Nat.zero_add] at honce
  · exact hi.not_returned hthreads

/-- `close` is called while the connection of a request is pending; it fails, and the request is
reported. A second request comes too late. -/
def closeRun : List PoolAction :=
  .client (.emulateLongComputationOp true 10 1) ::
    List.replicate 5 (.client (.caller 0 true)) ++
    .close :: .client (.complete 0 .connect .eof []) ::
    List.replicate 8 (.client (.handler 0 .connect)) ++
    .client (.emulateLongComputationOp true 11 2) ::
    List.replicate 5 (.client (.caller 1 true)) ++ [.join]

theorem closeRun_exec :
    ((pool 4).exec (pool 4).init closeRun).map (fun p =>
      (p.close, (p.client.session 0).callbacks, (p.client.session 1).pc .connect)) =
      some (.returned, [⟨1, [], .eof⟩], .pending) := by
  decide

theorem close_waits_closeRun :
    ∃ p, (pool 4).exec (pool 4).init closeRun = some p ∧ p.close = .returned ∧ CloseWaits 4 p := by
  obtain ⟨p, hp, he⟩ := Option.map_eq_some_iff.mp closeRun_exec
  exact ⟨p, hp, (Prod.mk.inj he).1, close_waits (by decide) (TransitionSystem.reachable_of_exec hp)⟩

/-! ### `close` returns -/

/-- A step of the client's threads, of an operation or of `close`. -/
def PoolAction.own : PoolAction → Bool
  | .client a => a.own
  | .join => true
  | .close => false

def PoolAction.gain : PoolAction → Nat
  | .client a => a.gain
  | .close => 1
  | .join => 0

def PoolAction.ofClient : PoolAction → Option Action
  | .client a => some a
  | .close | .join => none

/-- Only the first `N` threads call `cancelRequest`. -/
def PoolAction.within (N : Nat) (b : PoolAction) : Prop := ∀ a ∈ b.ofClient, a.cancellers ≤ N

def PoolState.cost (N : Nat) (p : PoolState) : Nat :=
  p.client.cost N + (if p.close = .join then 1 else 0)

theorem pool_potential (N : Nat) :
    (pool num_of_threads).Potential (PoolAction.within N) PoolAction.own PoolAction.gain
      (PoolState.cost N) := by
  refine ⟨?_⟩
  intro p b p' hr hok hs
  cases pool_inv hs with
  | @client a s hst _ =>
      have hpay := (potential N).pays (pool_client hr) (hok a rfl) hst
      simp only [PoolState.cost, PoolState.settle_fields]
      change _ + a.own.toNat ≤ _ + a.gain
      omega
  | close hclose =>
      have hsame : State.cost N { p.client with m_work := false } = State.cost N p.client := rfl
      simp [PoolState.cost, hsame, hclose, PoolAction.own, PoolAction.gain]
  | join hclose _ => simp [PoolState.cost, hclose, PoolAction.own, PoolAction.gain]

/-- **A run has at most 26 steps for each request and 7 for each cancellation**, and one for
`close`. -/
theorem pool_countP_le {bs : List PoolAction}
    (he : (pool num_of_threads).exec (pool num_of_threads).init bs = some p) :
    bs.countP PoolAction.own ≤ (bs.map PoolAction.gain).sum := by
  obtain ⟨N, hN⟩ := exists_cancellers_le (bs.filterMap PoolAction.ofClient)
  have hok : ∀ b ∈ bs, b.within N := fun b h a ha => hN a (List.mem_filterMap.mpr ⟨b, h, ha⟩)
  have hle := (pool_potential N).countP_le .init hok he
  have hzero : PoolState.cost N (pool num_of_threads).init = 0 := by
    simp [PoolState.cost, State.cost, pool, PoolState.init, State.init, CancelPc.cost]
  omega

/-- The pool can do nothing more by itself. -/
def PoolStill (num_of_threads : Nat) (p : PoolState) : Prop :=
  (pool num_of_threads).Quiescent PoolAction.own p

theorem PoolStill.client (h : PoolStill num_of_threads p) :
    AsyncTcpClient.client.Quiescent Action.ofThread p.client := by
  intro a ha
  have hstep := h (.client a) (Action.own_of_ofThread ha)
  cases a with
  | caller _ _ | handler _ _ | canceller _ =>
      simpa [pool, stepPool, PoolState.enabled, AsyncTcpClient.client] using hstep
  | _ => exact absurd ha (by simp [Action.ofThread])

/-- No handler runs where no thread is on its way. -/
theorem quiet_of_quiescent (hq : client.Quiescent Action.ofThread s) (hr : client.Reachable s)
    (hclash : ¬ Clash s) (S : SessionId) : (s.session S).Quiet := by
  intro op
  have hstands := stands_of_quiescent hq hr hclash (.handler S op)
  simp only [State.stands, State.ended, Bool.or_eq_true, decide_eq_true_eq] at hstands
  rcases hstands with (hidle | hfinished) | hpending
  · rw [hidle]; rfl
  · rw [hfinished]; rfl
  · rw [hpending]; rfl

/-- So all threads are free. -/
theorem handlers_of_quiescent (hq : client.Quiescent Action.ofThread s)
    (hr : client.Reachable s) (hclash : ¬ Clash s) : s.handlers = 0 :=
  sum_eq_zero fun S _ => Session.handlers_eq_zero.mpr (quiet_of_quiescent hq hr hclash S)

theorem PoolStill.quiet (h : PoolStill num_of_threads p)
    (hr : (pool num_of_threads).Reachable p) (hclash : ¬ Clash p.client) (S : SessionId) :
    (p.client.session S).Quiet :=
  quiet_of_quiescent h.client (pool_client hr) hclash S

/-- Nothing is pending unless `m_ios` has stopped. -/
theorem PoolStill.pending (h : PoolStill num_of_threads p)
    (hr : (pool num_of_threads).Reachable p) (hthreads : 0 < num_of_threads)
    (hclash : ¬ Clash p.client) (hgoes : p.iosStopped = false) :
    (p.client.session S).pc op ≠ .pending := by
  intro hpc
  have hzero := handlers_of_quiescent h.client (pool_client hr) hclash
  have hstep := h (.client (.complete S op .success [])) rfl
  simp [pool, stepPool, PoolState.enabled, PoolState.mayInvoke, hgoes, hzero, hthreads, step,
    hpc] at hstep

/-- Where a run of the client with its threads leads. -/
structure CloseReturns (num_of_threads : Nat) (bs : List PoolAction) (p : PoolState) : Prop where
  /-- At most 26 steps for each request, 7 for each cancellation and one for `close`. -/
  bounded : bs.countP PoolAction.own ≤ (bs.map PoolAction.gain).sum
  /-- At rest `close`, if it was called, has returned, unless the lock orders have crossed. -/
  returns : PoolStill num_of_threads p → p.close ≠ .idle →
    (p.close = .returned ↔ ¬ Clash p.client)
  /-- Every request has been called back then, unless its call came after `m_ios` had stopped. -/
  answered : PoolStill num_of_threads p → ¬ Clash p.client → ∀ S,
    (p.client.session S).call = .returned → (p.client.session S).callbacks.length = 1 ∨
      p.iosStopped = true ∧ (p.client.session S).pc .connect = .pending

/-- **`close` returns** after a bounded number of steps, unless the lock orders have crossed. -/
theorem close_returns (hthreads : 0 < num_of_threads) {bs : List PoolAction}
    (he : (pool num_of_threads).exec (pool num_of_threads).init bs = some p) :
    CloseReturns num_of_threads bs p := by
  have hr := TransitionSystem.reachable_of_exec he
  have hi := reachable_poolInv hr
  refine ⟨pool_countP_le he, ?_, ?_⟩
  · intro hstill hclose
    refine ⟨fun hreturned hclash => hi.not_returned hthreads hclash hreturned, ?_⟩
    intro hclash
    by_contra hnot
    have hjoining : p.close = .join := by
      cases hp : p.close with
      | idle => exact absurd hp hclose
      | join => rfl
      | returned => exact absurd hp hnot
    have hgoes : p.iosStopped = false := by
      by_contra hstopped
      have hjoin := hstill .join rfl
      simp [pool, stepPool, hjoining, hstopped] at hjoin
    -- without work `m_ios` has stopped
    have hreset : p.client.m_work = false := by
      have hwork := hi.work
      simpa [hjoining] using hwork
    have hstopped := hi.stops ⟨hreset, fun S => ⟨Session.pendingOps_eq_zero.mpr fun op =>
      hstill.pending hr hthreads hclash hgoes, hstill.quiet hr hclash S⟩⟩
    exact absurd (hgoes.symm.trans hstopped) (by simp)
  · intro hstill hclash S hcall
    obtain ⟨q, hq⟩ := (reachable_phase (pool_client hr)).1 S
    have honce := hq.exactly_once hcall (hstill.quiet hr hclash S)
    by_cases hpending : (p.client.session S).pendingOps = 0
    · rw [hpending, Nat.zero_add] at honce
      exact .inl honce
    · obtain ⟨op, hpc⟩ : ∃ op, (p.client.session S).pc op = .pending := by
        by_contra hno
        exact hpending (Session.pendingOps_eq_zero.mpr fun op hpc => hno ⟨op, hpc⟩)
      have hstopped : p.iosStopped = true := by
        by_contra hgoes
        exact hstill.pending hr hthreads hclash (by simpa using hgoes) hpc
      obtain rfl := ((hi.stopped hstopped).2 S).2 op hpc
      exact .inr ⟨hstopped, hpc⟩

theorem close_returns_closeRun :
    ∃ p, (pool 4).exec (pool 4).init closeRun = some p ∧ p.close = .returned ∧
      CloseReturns 4 closeRun p := by
  obtain ⟨p, hp, he⟩ := Option.map_eq_some_iff.mp closeRun_exec
  exact ⟨p, hp, (Prod.mk.inj he).1, close_returns (by decide) hp⟩

end AsioStudy.AsyncTcpClient
