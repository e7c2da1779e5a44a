import Mathlib.Data.Finset.Order
import AsioStudy.AsyncTcpClient.Completion
import AsioStudy.AsyncTcpClient.Deadlock
import AsioStudy.Core.Termination

/-!
# AsioStudy.AsyncTcpClient.Liveness

What a request costs, and how the client is found at rest. A call of `emulateLongComputationOp`
causes at most 26 steps of the client, a call of `cancelRequest` at most 7 (`potential`). A thread
that can take no step although it has not ended waits for a mutex, whose owner has not ended
either; unless the lock orders have crossed this ends with a thread that can take a step. Hence
at rest every request has been reported (`served_of_quiescent`).

Of Asio it is assumed, as before, that a pending operation completes: the completion is one
of the steps of the client. That holds as long as `m_ios` has work; `Close.lean` says when it has
none left, and `Requests.lean` what follows for the requests.
-/

namespace AsioStudy.AsyncTcpClient

open Finset

variable {s s' : State} {a : Action} {S T : SessionId} {op : Op} {n : Nat} {t : Thread}
  {x y : Session}

/-- The steps of the client's own threads and of its operations; the others are calls. -/
def Action.own : Action → Bool
  | .caller _ _ | .complete _ _ _ _ | .handler _ _ | .canceller _ => true
  | .emulateLongComputationOp _ _ _ | .cancelRequest _ _ | .close => false

/-! ### The handler of the read takes no lock of its session -/

/-- The handler is where only those of the connect and of the write come. -/
def HandlerPc.guarded : HandlerPc → Bool
  | .lockCancel | .testCancelled | .startNext => true
  | _ => false

/-- The handler of the read does not look whether the session is cancelled. -/
def Session.ReadUnguarded (x : Session) : Prop := (x.pc .read).guarded = false

theorem Session.ReadUnguarded.setPc (h : x.ReadUnguarded) {pc : HandlerPc}
    (hpc : op = .read → pc.guarded = false) : (x.setPc op pc).ReadUnguarded := by
  unfold Session.ReadUnguarded at *
  by_cases hop : .read = op
  · simpa [hop] using hpc hop.symm
  · simpa [hop] using h

/-- A handler at a guarded point is not that of the read. -/
theorem Session.ReadUnguarded.ne_read (h : x.ReadUnguarded) (hpc : (x.pc op).guarded = true) :
    op ≠ .read := by
  rintro rfl
  exact absurd (h.symm.trans hpc) (by decide)

theorem CallMove.readUnguarded (h : CallMove x y) (hx : x.ReadUnguarded) : y.ReadUnguarded := by
  cases h with
  | asyncConnect _ =>
      have hset : (x.setPc .connect .pending).ReadUnguarded := hx.setPc nofun
      exact hset
  | _ => exact hx

theorem HandlerMove.readUnguarded (h : HandlerMove x op y) (hx : x.ReadUnguarded) :
    y.ReadUnguarded := by
  cases h with
  | @enter ec hpc =>
      have henter : op = .read → (Session.enterPc op ec).guarded = false := by
        rintro rfl
        simp [Session.enterPc, HandlerPc.guarded]
      have hset := hx.setPc henter
      unfold Session.ReadUnguarded at hset ⊢
      simpa using hset
  | lockCancel hpc => exact hx.setPc fun hop => absurd hop (hx.ne_read (by rw [hpc]; rfl))
  | notCancelled hpc _ => exact hx.setPc fun hop => absurd hop (hx.ne_read (by rw [hpc]; rfl))
  | startNext hpc _ => exact (hx.setPc fun _ => rfl).setPc fun _ => rfl
  | callback hpc => exact Session.ReadUnguarded.setPc (x := x.invokeCallback _) hx fun _ => rfl
  | _ => exact hx.setPc fun _ => rfl

theorem reachable_readUnguarded (h : client.Reachable s) : ∀ T, (s.session T).ReadUnguarded := by
  refine h.invariant (P := fun s => ∀ T, (s.session T).ReadUnguarded) (fun _ => rfl) ?_
  intro s a s' _ hi hs T
  rcases (step_inv hs).session T with hsame | hT
  · rw [hsame]
    exact hi T
  · generalize s'.session T = y at hT
    cases hT with
    | construct _ => rfl
    | caller h => exact h.readUnguarded (hi T)
    | @complete op ec received _ =>
        have hr : ((s.session T).receive op received).ReadUnguarded := by
          simpa [Session.ReadUnguarded] using hi T
        exact hr.setPc fun _ => rfl
    | handler h => exact h.readUnguarded (hi T)
    | setCancelled _ => exact hi T

/-! ### What a call costs -/

/-- Six steps for each operation that comes after this one. -/
def Op.behind : Op → Nat
  | .connect => 12
  | .write => 6
  | .read => 0

/-- The steps that are left of a handler and of the operations it still starts. -/
def HandlerPc.cost (op : Op) : HandlerPc → Nat
  | .pending => op.behind + 9
  | .entry _ => op.behind + 8
  | .lockCancel => op.behind + 7
  | .testCancelled => op.behind + 6
  | .startNext => op.behind + 5
  | .shutdown => 7
  | .lockActive => 6
  | .eraseEntry => 5
  | .unlockActive => 4
  | .report => 3
  | .callback _ => 2
  | .ret => 1
  | .idle | .finished => 0

/-- The steps that are left of a call and of the operations it still starts. -/
def CallPc.cost : CallPc → Nat
  | .openSocket => 26
  | .lockActive => 25
  | .insert => 24
  | .unlockActive => 23
  | .asyncConnect => 22
  | .notCalled | .returned | .threw => 0

def CancelPc.cost : CancelPc → Nat
  | .lockActive _ => 7
  | .find _ => 6
  | .lockCancel _ => 5
  | .setCancelled _ => 4
  | .cancelSock _ => 3
  | .unlockCancel _ => 2
  | .unlockActive => 1
  | .idle => 0

def Session.cost (x : Session) : Nat :=
  x.call.cost + ((x.pc .connect).cost .connect + (x.pc .write).cost .write +
    (x.pc .read).cost .read)

/-- The steps that are left, when only the first `N` threads call `cancelRequest`. -/
def State.cost (N : Nat) (s : State) : Nat :=
  ∑ S ∈ range s.next, (s.session S).cost + ∑ n ∈ range N, (s.cancel n).cost

/-- The steps that a call causes. -/
def Action.gain : Action → Nat
  | .emulateLongComputationOp _ _ _ => 26
  | .cancelRequest _ _ => 7
  | _ => 0

/-- At least the first `a.cancellers` threads call `cancelRequest`. -/
def Action.cancellers : Action → Nat
  | .cancelRequest n _ | .canceller n => n + 1
  | _ => 0

/-- Moving one handler changes the cost by what it is worth. -/
theorem Session.cost_setPc (x : Session) (op : Op) (pc : HandlerPc) :
    (x.setPc op pc).cost + (x.pc op).cost op = x.cost + pc.cost op := by
  cases op <;> simp [Session.cost] <;> omega

theorem Session.cost_congr (hcall : y.call = x.call) (hpc : y.pc = x.pc) : y.cost = x.cost := by
  simp only [Session.cost, hcall, hpc]

theorem CallMove.cost (h : CallMove x y) (hp : ∃ p, x.InPhase p) : y.cost + 1 ≤ x.cost := by
  cases h with
  | asyncConnect hc =>
      obtain ⟨p, hp⟩ := hp
      obtain rfl := hp.eq_calling (by rw [hc]; rfl)
      simp [Session.cost, hc, hp.2.1, CallPc.cost, HandlerPc.cost, Op.behind]
  | openThrows hc => simp only [Session.cost, hc, CallPc.cost, Session.setCall_frame]; omega
  | opened hc | lockActive hc | insert hc | unlockActive hc =>
      simp only [Session.cost, hc, CallPc.cost, Session.setCall_frame]
      omega

theorem Op.two_le_behind (h : op ≠ .read) : 2 ≤ op.behind := by
  cases op with
  | read => exact absurd rfl h
  | _ => decide

theorem HandlerPc.cost_enterPc (op : Op) (ec : ErrorCode) :
    (Session.enterPc op ec).cost op + 1 ≤ (HandlerPc.entry ec).cost op := by
  unfold Session.enterPc
  split
  · exact Nat.le_add_left 8 op.behind
  · exact Nat.le_refl _

theorem HandlerMove.cost (h : HandlerMove x op y) (hp : ∃ p, x.InPhase p)
    (hread : x.ReadUnguarded) : y.cost + 1 ≤ x.cost := by
  have hset : ∀ {pc pc' : HandlerPc}, x.pc op = pc → pc'.cost op + 1 ≤ pc.cost op →
      (x.setPc op pc').cost + 1 ≤ x.cost := by
    intro pc pc' hpc hle
    have hmove := x.cost_setPc op pc'
    rw [hpc] at hmove
    omega
  cases h with
  | @enter ec hpc =>
      have hcongr : (x.enter op ec).cost = (x.setPc op (Session.enterPc op ec)).cost := by
        refine Session.cost_congr (by simp) ?_
        funext o
        simp
      rw [hcongr]
      exact hset hpc (HandlerPc.cost_enterPc op ec)
  | cancelled hpc _ =>
      have hbehind := Op.two_le_behind (hread.ne_read (by rw [hpc]; rfl))
      exact hset hpc (by simp only [HandlerPc.cost]; omega)
  | @startNext op' hpc hn =>
      have hidle := Session.idle_of_next hp hpc rfl hn
      have hmove := x.cost_setPc op' .pending
      have hmove' := (x.setPc op' .pending).cost_setPc op .ret
      rw [hidle] at hmove
      rw [Session.setPc_pc, if_neg (Op.ne_of_next hn).symm, hpc] at hmove'
      have hbehind : op.behind = op'.behind + 6 := by cases op <;> cases hn <;> rfl
      simp only [HandlerPc.cost] at hmove hmove'
      omega
  | @callback ec hpc =>
      have hcongr : ((x.invokeCallback ec).setPc op .ret).cost = (x.setPc op .ret).cost :=
        Session.cost_congr rfl rfl
      rw [hcongr]
      exact hset hpc (Nat.le_refl _)
  | lockCancel hpc => exact hset hpc (Nat.le_refl _)
  | notCancelled hpc _ => exact hset hpc (Nat.le_refl _)
  | shutdown hpc => exact hset hpc (Nat.le_refl _)
  | lockActive hpc => exact hset hpc (Nat.le_refl _)
  | eraseEntry hpc => exact hset hpc (Nat.le_refl _)
  | unlockActive hpc => exact hset hpc (Nat.le_refl _)
  | report hpc => exact hset hpc (Nat.le_refl _)
  | ret hpc => exact hset hpc (Nat.le_refl _)

/-! ### The potential -/

/-- The session whose call or handler the action belongs to. -/
def Action.session : Action → Option SessionId
  | .caller S _ | .complete S _ _ _ | .handler S _ => some S
  | _ => none

/-- A step of its call or of a handler costs a session something. -/
theorem SessionStep.cost (h : SessionStep s S a y) (hp : ∃ p, (s.session S).InPhase p)
    (hread : (s.session S).ReadUnguarded) (ha : a.session = some S) :
    y.cost + 1 ≤ (s.session S).cost := by
  cases h with
  | construct _ => exact absurd ha (by simp [Action.session])
  | caller h => exact h.cost hp
  | @complete op ec received hpc =>
      have hmove := ((s.session S).receive op received).cost_setPc op (.entry ec)
      have hcongr : ((s.session S).receive op received).cost = (s.session S).cost :=
        Session.cost_congr (by simp) (by simp)
      rw [hcongr] at hmove
      simp only [Session.receive_frame, hpc, HandlerPc.cost] at hmove
      omega
  | handler h => exact h.cost hp hread
  | setCancelled _ => exact absurd ha (by simp [Action.session])

theorem SessionStep.target (h : SessionStep s T a y) (ha : a.session = some S) : T = S := by
  cases h with
  | caller _ => exact Option.some.inj ha
  | complete _ => exact Option.some.inj ha
  | handler _ => exact Option.some.inj ha
  | _ => exact absurd ha nofun

/-- Such a step moves its session, and no other. -/
theorem Step.moves (h : Step s a s') (ha : a.session = some S) :
    SessionStep s S a (s'.session S) ∧ (∀ T, T ≠ S → s'.session T = s.session T) ∧
      s'.next = s.next ∧ s'.cancel = s.cancel := by
  have hothers : ∀ T, T ≠ S → s'.session T = s.session T := by
    intro T hT
    rcases h.session T with hsame | hstep
    · exact hsame
    · exact absurd (hstep.target ha) hT
  cases h with
  | caller h =>
      obtain rfl := Option.some.inj ha
      exact ⟨.caller h.move, hothers, by cases h <;> rfl, by cases h <;> rfl⟩
  | complete hpc =>
      obtain rfl := Option.some.inj ha
      exact ⟨by simpa using SessionStep.complete hpc, hothers, rfl, rfl⟩
  | handler h =>
      obtain rfl := Option.some.inj ha
      exact ⟨.handler h.move, hothers, by cases h <;> rfl, by cases h <;> rfl⟩
  | _ => exact absurd ha nofun

theorem Session.cost_eq_zero_of_absent (h : x.InPhase .absent) : x.cost = 0 := by
  simp [Session.cost, h.1, h.2.1 _, CallPc.cost, HandlerPc.cost]

/-- A step of a session is paid by the sum over all sessions. -/
theorem Step.sessions_cost (h : Step s a s') (hr : client.Reachable s) (ha : a.session = some S) :
    ∑ T ∈ range s'.next, (s'.session T).cost + 1 ≤ ∑ T ∈ range s.next, (s.session T).cost := by
  obtain ⟨hphase, hfresh⟩ := reachable_phase hr
  obtain ⟨hmove, hothers, hnext, -⟩ := h.moves ha
  have hcost := hmove.cost (hphase S) (reachable_readUnguarded hr S) ha
  have hlt : S < s.next := by
    by_contra hge
    have hzero := Session.cost_eq_zero_of_absent (hfresh S (Nat.le_of_not_lt hge))
    omega
  rw [hnext]
  have hsum := sum_range_add_le (f := fun T => (s.session T).cost)
    (g := fun T => (s'.session T).cost) (l := 0) hlt hcost fun T hT => by rw [hothers T hT]
  exact hsum

theorem CancelStep.cost (h : CancelStep s n s') :
    (s'.cancel n).cost + 1 ≤ (s.cancel n).cost ∧ (∀ m, m ≠ n → s'.cancel m = s.cancel m) ∧
      s'.next = s.next ∧ ∀ T, (s'.session T).cost = (s.session T).cost := by
  cases h with
  | @setCancelled S hpc =>
      refine ⟨by simp [hpc, CancelPc.cost], fun m hm => by simp [hm], rfl, ?_⟩
      intro T
      by_cases hT : T = S
      · subst hT
        simp only [State.setCancel_frame, State.modify_session, if_true]
        exact Session.cost_congr rfl rfl
      · simp [hT]
  | notFound hpc _ =>
      exact ⟨by simp [hpc, CancelPc.cost], fun m hm => by simp [hm], rfl, fun _ => rfl⟩
  | lockActive hpc _ | found hpc _ | lockCancel hpc _ | cancelSock hpc | unlockCancel hpc
  | unlockActive hpc =>
      exact ⟨by simp [hpc, CancelPc.cost], fun m hm => by simp [hm], rfl, fun _ => rfl⟩

/-- **The client pays for every step** with what its calls have brought. -/
theorem potential (N : Nat) :
    client.Potential (·.cancellers ≤ N) Action.own Action.gain (State.cost N) := by
  refine ⟨?_⟩
  intro s a s' hr hok hs
  have hst := step_inv hs
  have hsession : ∀ S, a.session = some S → State.cost N s' + 1 ≤ State.cost N s := by
    intro S ha
    have hsum := hst.sessions_cost hr ha
    obtain ⟨-, -, -, hcancel⟩ := hst.moves ha
    simp only [State.cost, hcancel]
    omega
  cases hst with
  | badIp => exact Nat.le_add_right _ _
  | @construct d id =>
      have hold : ∑ T ∈ range s.next, ((s.construct d id).session T).cost =
          ∑ T ∈ range s.next, (s.session T).cost := by
        refine sum_congr rfl ?_
        intro T hT
        rw [State.construct_session, if_neg (Nat.ne_of_lt (mem_range.mp hT))]
      have hnew : ((s.construct d id).session s.next).cost = 26 := by
        simp [Session.cost, CallPc.cost, HandlerPc.cost]
      simp only [State.cost, State.construct_frame, sum_range_succ, hold, hnew, Action.own,
        Action.gain, Bool.toNat_false]
      omega
  | @caller S opened s' h => exact hsession S rfl
  | @complete S op ec received hpc => exact hsession S rfl
  | @handler S op s' h => exact hsession S rfl
  | @cancelRequest n id hpc =>
      have hsum := sum_range_add_le (f := fun m => (s.cancel m).cost) (k := 0) (l := 7)
        (g := fun m => ((s.setCancel n (.lockActive id)).cancel m).cost) (i := n) (n := N) hok
        (by simp [CancelPc.cost]) fun m hm => by simp [hm]
      simp only [State.cost, State.setCancel_frame, Action.own, Action.gain, Bool.toNat_false]
      omega
  | @canceller n s' h =>
      obtain ⟨hcost, hothers, hnext, hsessions⟩ := h.cost
      have hsum := sum_range_add_le (f := fun m => (s.cancel m).cost)
        (g := fun m => (s'.cancel m).cost) (l := 0) hok hcost fun m hm => by rw [hothers m hm]
      simp only [State.cost, hnext, hsessions, Action.own, Action.gain, Bool.toNat_true]
      omega
  | close => exact Nat.le_refl _

/-- In a finite run only finitely many threads call `cancelRequest`. -/
theorem exists_cancellers_le (as : List Action) : ∃ N, ∀ a ∈ as, a.cancellers ≤ N := by
  obtain ⟨N, hN⟩ := (as.map Action.cancellers).toFinset.exists_le
  exact ⟨N, fun a ha => hN _ (List.mem_toFinset.mpr (List.mem_map_of_mem ha))⟩

/-- A thread that does not call `cancelRequest` is not inside it. -/
theorem Step.cancel_idle (h : Step s a s') (ha : ∀ id, a ≠ .cancelRequest n id)
    (hn : s.cancel n = .idle) : s'.cancel n = .idle := by
  cases h with
  | caller h => cases h <;> exact hn
  | handler h => cases h <;> exact hn
  | @cancelRequest m id _ =>
      have hm : n ≠ m := by
        intro heq
        exact ha id (heq ▸ rfl)
      simpa [hm] using hn
  | @canceller m s' h =>
      by_cases hm : n = m
      · cases h <;> simp_all
      · rw [h.cost.2.1 n hm]
        exact hn
  | _ => exact hn

theorem exec_cancel_idle {as : List Action} (hok : ∀ a ∈ as, ∀ id, a ≠ .cancelRequest n id)
    (hn : s.cancel n = .idle) (he : client.exec s as = some s') : s'.cancel n = .idle :=
  TransitionSystem.exec_stable (P := fun s => s.cancel n = .idle)
    (fun hi ha hs => (step_inv hs).cancel_idle ha hi) hn hok he

theorem step_canceller_idle (hn : s.cancel n = .idle) : step s (.canceller n) = none := by
  simp [step, stepCancel, hn]

theorem Action.ne_cancelRequest (h : a.cancellers ≤ n) (id : UInt32) : a ≠ .cancelRequest n id := by
  intro ha
  rw [ha] at h
  exact absurd h (Nat.not_succ_le_self n)

theorem Action.gain_of_own (h : a.own = true) : a.gain = 0 := by
  cases a <;> simp [Action.own, Action.gain] at h ⊢

/-- Only a step inside `cancelRequest` is one of a thread that calls it. -/
theorem Action.eq_canceller_of_own {N : Nat} (h : a.own = true) (hN : ¬ a.cancellers ≤ N) :
    ∃ n, N ≤ n ∧ a = .canceller n := by
  cases a with
  | canceller n => exact ⟨n, Nat.le_of_lt_succ (Nat.lt_of_not_le hN), rfl⟩
  | cancelRequest n id => exact absurd h Bool.false_ne_true
  | _ => exact absurd (Nat.zero_le N) hN

/-! ### At rest -/

/-- The call, the handler or the `cancelRequest` call has ended, or has not begun. -/
def State.ended (s : State) : Thread → Bool
  | .caller S => !(s.session S).call.inProgress
  | .handler S op => (s.session S).pc op = .idle ∨ (s.session S).pc op = .finished
  | .canceller n => s.cancel n = .idle

/-- The steps of the client's own threads. -/
def Action.ofThread : Action → Bool
  | .caller _ _ | .handler _ _ | .canceller _ => true
  | _ => false

theorem Action.own_of_ofThread (h : a.ofThread = true) : a.own = true := by
  cases a with
  | caller _ _ | handler _ _ | canceller _ => rfl
  | _ => exact absurd h Bool.false_ne_true

/-- The thread is not on its way: it has ended or not begun, or the operation of the handler is
pending. -/
def State.stands (s : State) : Thread → Bool
  | .handler S op => s.ended (.handler S op) || (s.session S).pc op = .pending
  | t => s.ended t

theorem State.ended_of_stands (h : s.stands t = true)
    (hpending : ∀ S op, (s.session S).pc op ≠ .pending) : s.ended t = true := by
  cases t with
  | handler S op => simpa [State.stands, hpending S op] using h
  | _ => exact h

/-- Every request has been answered and nothing is left of it. -/
structure Served (s : State) : Prop where
  /-- All calls have returned or thrown. -/
  ended : ∀ t, s.ended t = true
  /-- The callback of every request was invoked once. -/
  callback : ∀ S, (s.session S).call = .returned → (s.session S).callbacks.length = 1
  map_empty : s.m_active_sessions = .empty
  free : s.mutex = .free

/-- A handler on its cancelled path has not ended. -/
theorem Served.not_clash (h : Served s) : ¬ Clash s := by
  intro hclash
  obtain ⟨n, S, op, -, -, -, hheading⟩ := hclash
  have hended := h.ended (.handler S op)
  cases hpc : (s.session S).pc op <;> simp [State.ended, hpc, HandlerPc.heading] at hended hheading

/-- A lock that cannot be taken is owned. -/
theorem State.owner_of_lock {f : State → State} {m : Mutex} (h : (s.lock m t).map f = none) :
    ∃ u, s.mutex m = some u := by
  rw [Option.map_eq_none_iff, State.lock, Option.map_eq_none_iff] at h
  exact Mutexes.lock_eq_none.mp h

/-- A thread that is on its way and can take no step waits for a mutex that is owned. -/
theorem waits_of_quiescent (hq : client.Quiescent Action.ofThread s) (hr : client.Reachable s)
    (ht : s.stands t = false) : ∃ m u, s.waits t = some m ∧ s.mutex m = some u := by
  cases t with
  | caller S =>
      have hstep : stepCaller s S true = none := hq (.caller S true) rfl
      unfold stepCaller at hstep
      cases hc : (s.session S).call with
      | lockActive =>
          rw [hc] at hstep
          exact ⟨.m_active_sessions_guard, by simpa [State.waits, hc] using State.owner_of_lock hstep⟩
      | _ => simp [State.stands, State.ended, hc, CallPc.inProgress] at ht hstep
  | handler S op =>
      have hstep : stepHandler s S op = none := hq (.handler S op) rfl
      unfold stepHandler at hstep
      cases hpc : (s.session S).pc op with
      | lockCancel =>
          rw [hpc] at hstep
          exact ⟨.m_cancel_guard S, by simpa [State.waits, hpc] using State.owner_of_lock hstep⟩
      | lockActive =>
          rw [hpc] at hstep
          exact ⟨.m_active_sessions_guard, by simpa [State.waits, hpc] using State.owner_of_lock hstep⟩
      | startNext =>
          have hguarded : ((s.session S).pc op).guarded = true := by rw [hpc]; rfl
          have hne := (reachable_readUnguarded hr S).ne_read hguarded
          cases op <;> simp [hpc, Op.next] at hstep hne
      | _ => simp [State.stands, State.ended, hpc] at ht hstep
  | canceller n =>
      have hstep : stepCancel s n = none := hq (.canceller n) rfl
      unfold stepCancel at hstep
      cases hpc : s.cancel n with
      | lockActive id =>
          rw [hpc] at hstep
          exact ⟨.m_active_sessions_guard, by simpa [State.waits, hpc] using State.owner_of_lock hstep⟩
      | lockCancel S =>
          rw [hpc] at hstep
          exact ⟨.m_cancel_guard S, by simpa [State.waits, hpc] using State.owner_of_lock hstep⟩
      | find id => cases hm : s.m_active_sessions (mapKey id) <;> simp [hpc, hm] at hstep
      | _ => simp [State.stands, State.ended, hpc] at ht hstep

/-- A thread that owns `m_active_sessions_guard` is on its way. -/
theorem ActiveGuard.not_stands (hact : ActiveGuard s)
    (hown : s.mutex .m_active_sessions_guard = some t) : s.stands t = false := by
  have hin : s.holdsActive t = true := (hact t).mpr hown
  cases t with
  | caller S =>
      cases hc : (s.session S).call <;>
        simp [State.holdsActive, State.stands, State.ended, hc, CallPc.holdsActive,
          CallPc.inProgress] at hin ⊢
  | handler S op =>
      cases hpc : (s.session S).pc op <;>
        simp [State.holdsActive, State.stands, State.ended, hpc, HandlerPc.holdsActive] at hin ⊢
  | canceller n =>
      cases hpc : s.cancel n <;>
        simp [State.holdsActive, State.stands, State.ended, hpc, CancelPc.holdsActive] at hin ⊢

/-- Nor has one that owns the `m_cancel_guard` of a session. -/
theorem CancelGuard.not_stands (hcan : CancelGuard s)
    (hown : s.mutex (.m_cancel_guard S) = some t) : s.stands t = false := by
  rcases hcan.owner S t hown with ⟨n, rfl⟩ | ⟨op, rfl, hop⟩
  · have hholds := (hcan.canceller n S).mpr hown
    cases hpc : s.cancel n <;>
      simp [State.stands, State.ended, hpc, CancelPc.holdsCancel] at hholds ⊢
  · rcases hop with htest | hret | ⟨hcompl, -⟩
    · cases hpc : (s.session S).pc op <;>
        simp [State.stands, State.ended, hpc, HandlerPc.testing] at htest ⊢
    · simp [State.stands, State.ended, hret]
    · cases hpc : (s.session S).pc op <;>
        simp [State.stands, State.ended, hpc, HandlerPc.completing] at hcompl ⊢

/-- **Where no thread is on its way every mutex is free**, unless the lock orders have crossed:
the owner of one waits for the other, and that one's owner for the first. -/
theorem free_of_quiescent (hq : client.Quiescent Action.ofThread s) (hr : client.Reachable s)
    (hclash : ¬ Clash s) : s.mutex = .free := by
  obtain ⟨hact, hcan⟩ := reachable_locks hr
  have hactive : s.mutex .m_active_sessions_guard = none := by
    by_contra hne
    obtain ⟨t, ht⟩ := Option.ne_none_iff_exists'.mp hne
    obtain ⟨m, u, hw, hu⟩ := waits_of_quiescent hq hr (hact.not_stands ht)
    obtain ⟨n, S, rfl, hn, rfl⟩ := hact.waiting_owner ht hw
    obtain ⟨m', -, hw', -⟩ := waits_of_quiescent hq hr (hcan.not_stands hu)
    obtain ⟨op, rfl, hpc, hflag, -⟩ := hcan.waiting_owner hu hw'
    exact hclash ⟨n, S, op, hn, hu, hflag, by rw [hpc]; rfl⟩
  funext m
  cases m with
  | m_active_sessions_guard => exact hactive
  | m_cancel_guard S =>
      by_contra hne
      obtain ⟨t, ht⟩ := Option.ne_none_iff_exists'.mp hne
      obtain ⟨m, u, hw, hu⟩ := waits_of_quiescent hq hr (hcan.not_stands ht)
      obtain ⟨op, -, -, -, rfl⟩ := hcan.waiting_owner ht hw
      exact absurd (hactive.symm.trans hu) nofun

theorem stands_of_quiescent (hq : client.Quiescent Action.ofThread s) (hr : client.Reachable s)
    (hclash : ¬ Clash s) (t : Thread) : s.stands t = true := by
  by_contra hne
  obtain ⟨m, u, -, hu⟩ := waits_of_quiescent hq hr (by simpa using hne)
  rw [free_of_quiescent hq hr hclash] at hu
  exact absurd hu nofun

/-- **At rest every request has been served.** -/
theorem served_of_quiescent (hq : client.Quiescent Action.own s) (hr : client.Reachable s)
    (hclash : ¬ Clash s) : Served s := by
  have hthreads : client.Quiescent Action.ofThread s := fun a ha =>
    hq a (Action.own_of_ofThread ha)
  have hfree := free_of_quiescent hthreads hr hclash
  have hended : ∀ t, s.ended t = true := by
    intro t
    refine State.ended_of_stands (stands_of_quiescent hthreads hr hclash t) ?_
    intro S op hpc
    have hcomplete : step s (.complete S op .success []) = none :=
      hq (.complete S op .success []) rfl
    simp [step, hpc] at hcomplete
  have hcallback : ∀ S, (s.session S).call = .returned → (s.session S).callbacks.length = 1 := by
    intro S hcall
    obtain ⟨p, hp⟩ := (reachable_phase hr).1 S
    have hpcs : ∀ op, (s.session S).pc op = .idle ∨ (s.session S).pc op = .finished := by
      intro op
      simpa [State.ended] using hended (.handler S op)
    have hpending : (s.session S).pendingOps = 0 := by
      refine Session.pendingOps_eq_zero.mpr ?_
      intro op
      rcases hpcs op with hpc | hpc <;> simp [hpc]
    have honce := hp.exactly_once hcall fun op => by
      rcases hpcs op with hpc | hpc <;> simp [hpc, HandlerPc.running]
    rwa [hpending, Nat.zero_add] at honce
  refine ⟨hended, hcallback, ?_, hfree⟩
  funext k
  cases hk : s.m_active_sessions k with
  | none => rfl
  | some S =>
      -- an entry is that of a request that has not been reported
      obtain ⟨-, hregistered, hpast⟩ := (reachable_registry hr).entry k S hk
      have hcall : (s.session S).call = .returned := by
        have hnot := hended (.caller S)
        cases hc : (s.session S).call <;>
          simp [State.ended, hc, CallPc.registered, CallPc.inProgress] at hnot hregistered ⊢
      have hone := hcallback S hcall
      exact absurd (.inl fun hnil => by simp [hnil] at hone) hpast

end AsioStudy.AsyncTcpClient
