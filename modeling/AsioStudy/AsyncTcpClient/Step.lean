import AsioStudy.AsyncTcpClient.Model

/-!
# AsioStudy.AsyncTcpClient.Step

What one step of the client can do. `Step` lists the steps with their guards and
their complete effect; `step_inv` reads a successful `step` back as one of them, so no
invariant has to unfold the step functions again.
-/

namespace AsioStudy.AsyncTcpClient

/-! ### Frame lemmas of the updates -/

namespace Session

variable (x : Session) (op : Op) (ec : ErrorCode)

@[simp] theorem setPc_pc (op' : Op) (pc : HandlerPc) :
    (x.setPc op pc).pc op' = if op' = op then pc else x.pc op' := by
  simp [setPc, Function.update_apply]

@[simp] theorem setPc_frame (pc : HandlerPc) :
    (x.setPc op pc).call = x.call ∧ (x.setPc op pc).callbacks = x.callbacks ∧
    (x.setPc op pc).m_id = x.m_id ∧ (x.setPc op pc).m_ec = x.m_ec ∧
    (x.setPc op pc).m_was_cancelled = x.m_was_cancelled ∧
    (x.setPc op pc).reported = x.reported :=
  ⟨rfl, rfl, rfl, rfl, rfl, rfl⟩

@[simp] theorem setCall_frame (c : CallPc) :
    (x.setCall c).call = c ∧ (x.setCall c).pc = x.pc ∧
    (x.setCall c).callbacks = x.callbacks ∧ (x.setCall c).m_id = x.m_id ∧
    (x.setCall c).m_ec = x.m_ec ∧ (x.setCall c).m_was_cancelled = x.m_was_cancelled ∧
    (x.setCall c).reported = x.reported :=
  ⟨rfl, rfl, rfl, rfl, rfl, rfl, rfl⟩

@[simp] theorem receive_frame (r : Bytes) :
    (x.receive op r).call = x.call ∧ (x.receive op r).pc = x.pc ∧
    (x.receive op r).callbacks = x.callbacks ∧ (x.receive op r).m_id = x.m_id ∧
    (x.receive op r).m_ec = x.m_ec ∧
    (x.receive op r).m_was_cancelled = x.m_was_cancelled ∧
    (x.receive op r).reported = x.reported := by
  cases op <;> exact ⟨rfl, rfl, rfl, rfl, rfl, rfl, rfl⟩

@[simp] theorem invokeCallback_frame :
    (x.invokeCallback ec).call = x.call ∧ (x.invokeCallback ec).pc = x.pc ∧
    (x.invokeCallback ec).callbacks = x.callbacks ++ [⟨x.m_id, x.m_response, ec⟩] ∧
    (x.invokeCallback ec).m_id = x.m_id ∧ (x.invokeCallback ec).m_ec = x.m_ec ∧
    (x.invokeCallback ec).m_was_cancelled = x.m_was_cancelled ∧
    (x.invokeCallback ec).reported = x.reported :=
  ⟨rfl, rfl, rfl, rfl, rfl, rfl, rfl⟩

/-- Where a handler goes from its entry: to `onRequestComplete`, unless the connection
was made or the request written. -/
def enterPc : HandlerPc := if ec.value ≠ 0 ∨ op = .read then .shutdown else .lockCancel

@[simp] theorem enter_pc (op' : Op) :
    (x.enter op ec).pc op' = if op' = op then enterPc op ec else x.pc op' := by
  unfold enter enterPc
  by_cases h : ec.value = 0
  · cases op <;> simp [h, setPc, Function.update_apply]
  · simp [h, setPc, Function.update_apply]

@[simp] theorem enter_frame :
    (x.enter op ec).call = x.call ∧ (x.enter op ec).callbacks = x.callbacks ∧
    (x.enter op ec).m_id = x.m_id ∧
    (x.enter op ec).m_was_cancelled = x.m_was_cancelled := by
  unfold enter
  split
  · exact ⟨rfl, rfl, rfl, rfl⟩
  · cases op <;> exact ⟨rfl, rfl, rfl, rfl⟩

omit x ec in
@[simp] theorem new_pc (r : Bytes) (id : UInt32) (c : CallPc) : (new r id c).pc op = .idle := rfl

omit x op ec in
@[simp] theorem new_frame (r : Bytes) (id : UInt32) (c : CallPc) :
    (new r id c).call = c ∧ (new r id c).callbacks = [] ∧ (new r id c).m_id = id ∧
    (new r id c).m_was_cancelled = false :=
  ⟨rfl, rfl, rfl, rfl⟩

end Session

namespace State

variable (s : State) (S : SessionId) (n : Nat) (m : Mutex) (t : Thread)

/-- The state in which `t` has just locked `m`. -/
def owned : State := { s with mutex := Function.update s.mutex m (some t) }

variable {s m t} in
theorem lock_eq_some {s' : State} :
    s.lock m t = some s' ↔ s.mutex m = none ∧ s' = s.owned m t :=
  Mutexes.lock_map_eq_some

@[simp] theorem modify_session (S' : SessionId) (f : Session → Session) :
    (s.modify S f).session S' = if S' = S then f (s.session S) else s.session S' := by
  simp [modify, Function.update_apply]

@[simp] theorem modify_frame (f : Session → Session) :
    (s.modify S f).m_active_sessions = s.m_active_sessions ∧
    (s.modify S f).mutex = s.mutex ∧ (s.modify S f).cancel = s.cancel ∧
    (s.modify S f).next = s.next :=
  ⟨rfl, rfl, rfl, rfl⟩

@[simp] theorem setPc_session (S' : SessionId) (op : Op) (pc : HandlerPc) :
    (s.setPc S op pc).session S' =
      if S' = S then (s.session S).setPc op pc else s.session S' :=
  modify_session ..

@[simp] theorem setPc_frame (op : Op) (pc : HandlerPc) :
    (s.setPc S op pc).m_active_sessions = s.m_active_sessions ∧
    (s.setPc S op pc).mutex = s.mutex ∧ (s.setPc S op pc).cancel = s.cancel ∧
    (s.setPc S op pc).next = s.next :=
  ⟨rfl, rfl, rfl, rfl⟩

@[simp] theorem setCall_session (S' : SessionId) (c : CallPc) :
    (s.setCall S c).session S' =
      if S' = S then (s.session S).setCall c else s.session S' :=
  modify_session ..

@[simp] theorem setCall_frame (c : CallPc) :
    (s.setCall S c).m_active_sessions = s.m_active_sessions ∧
    (s.setCall S c).mutex = s.mutex ∧ (s.setCall S c).cancel = s.cancel ∧
    (s.setCall S c).next = s.next :=
  ⟨rfl, rfl, rfl, rfl⟩

@[simp] theorem setCancel_cancel (n' : Nat) (pc : CancelPc) :
    (s.setCancel n pc).cancel n' = if n' = n then pc else s.cancel n' := by
  simp [setCancel, Function.update_apply]

@[simp] theorem setCancel_frame (pc : CancelPc) :
    (s.setCancel n pc).session = s.session ∧
    (s.setCancel n pc).m_active_sessions = s.m_active_sessions ∧
    (s.setCancel n pc).mutex = s.mutex ∧ (s.setCancel n pc).next = s.next :=
  ⟨rfl, rfl, rfl, rfl⟩

@[simp] theorem owned_mutex (m' : Mutex) :
    (s.owned m t).mutex m' = if m' = m then some t else s.mutex m' := by
  simp [owned, Function.update_apply]

@[simp] theorem owned_frame :
    (s.owned m t).session = s.session ∧
    (s.owned m t).m_active_sessions = s.m_active_sessions ∧
    (s.owned m t).cancel = s.cancel ∧ (s.owned m t).next = s.next :=
  ⟨rfl, rfl, rfl, rfl⟩

@[simp] theorem unlock_mutex (m' : Mutex) :
    (s.unlock m).mutex m' = if m' = m then none else s.mutex m' :=
  Mutexes.unlock_apply

@[simp] theorem unlock_frame :
    (s.unlock m).session = s.session ∧
    (s.unlock m).m_active_sessions = s.m_active_sessions ∧
    (s.unlock m).cancel = s.cancel ∧ (s.unlock m).next = s.next :=
  ⟨rfl, rfl, rfl, rfl⟩

@[simp] theorem release_mutex (m' : Mutex) :
    (s.release m t).mutex m' = if m' = m ∧ s.mutex m = some t then none else s.mutex m' :=
  Mutexes.release_apply

@[simp] theorem release_frame :
    (s.release m t).session = s.session ∧
    (s.release m t).m_active_sessions = s.m_active_sessions ∧
    (s.release m t).cancel = s.cancel ∧ (s.release m t).next = s.next :=
  ⟨rfl, rfl, rfl, rfl⟩

@[simp] theorem insert_map (k : Int) :
    (s.insert S).m_active_sessions k =
      if k = mapKey (s.session S).m_id then some S else s.m_active_sessions k :=
  StdMap.insert_apply

@[simp] theorem insert_frame :
    (s.insert S).session = s.session ∧ (s.insert S).mutex = s.mutex ∧
    (s.insert S).cancel = s.cancel ∧ (s.insert S).next = s.next :=
  ⟨rfl, rfl, rfl, rfl⟩

@[simp] theorem erase_map (k : Int) :
    (s.erase S).m_active_sessions k =
      if k = mapKey (s.session S).m_id then none else s.m_active_sessions k :=
  StdMap.erase_apply

@[simp] theorem erase_frame :
    (s.erase S).session = s.session ∧ (s.erase S).mutex = s.mutex ∧
    (s.erase S).cancel = s.cancel ∧ (s.erase S).next = s.next :=
  ⟨rfl, rfl, rfl, rfl⟩

@[simp] theorem construct_frame (d id : UInt32) :
    (s.construct d id).m_active_sessions = s.m_active_sessions ∧
    (s.construct d id).mutex = s.mutex ∧ (s.construct d id).cancel = s.cancel ∧
    (s.construct d id).next = s.next + 1 :=
  ⟨rfl, rfl, rfl, rfl⟩

@[simp] theorem construct_session (d id : UInt32) :
    (s.construct d id).session S =
      if S = s.next then .new (computationRequest d) id .openSocket else s.session S := by
  simp [construct, Function.update_apply]

end State

/-! ### The steps -/

/-- The steps of the call that created `S`. -/
inductive CallerStep (s : State) (S : SessionId) : State → Prop
  | opened : (s.session S).call = .openSocket → CallerStep s S (s.setCall S .lockActive)
  | openThrows : (s.session S).call = .openSocket → CallerStep s S (s.setCall S .threw)
  | lockActive : (s.session S).call = .lockActive → s.mutex .m_active_sessions_guard = none →
      CallerStep s S ((s.owned .m_active_sessions_guard (.caller S)).setCall S .insert)
  | insert : (s.session S).call = .insert →
      CallerStep s S ((s.insert S).setCall S .unlockActive)
  | unlockActive : (s.session S).call = .unlockActive →
      CallerStep s S ((s.unlock .m_active_sessions_guard).setCall S .asyncConnect)
  | asyncConnect : (s.session S).call = .asyncConnect →
      CallerStep s S (s.modify S fun x => (x.setPc .connect .pending).setCall .returned)

/-- The steps of the handler of `op`. -/
inductive HandlerStep (s : State) (S : SessionId) (op : Op) : State → Prop
  | enter {ec} : (s.session S).pc op = .entry ec →
      HandlerStep s S op (s.modify S (·.enter op ec))
  | lockCancel : (s.session S).pc op = .lockCancel → s.mutex (.m_cancel_guard S) = none →
      HandlerStep s S op
        ((s.owned (.m_cancel_guard S) (.handler S op)).setPc S op .testCancelled)
  | cancelled : (s.session S).pc op = .testCancelled → (s.session S).m_was_cancelled = true →
      HandlerStep s S op (s.setPc S op .shutdown)
  | notCancelled : (s.session S).pc op = .testCancelled → (s.session S).m_was_cancelled = false →
      HandlerStep s S op (s.setPc S op .startNext)
  | startNext {op'} : (s.session S).pc op = .startNext → op.next = some op' →
      HandlerStep s S op (s.modify S fun x => (x.setPc op' .pending).setPc op .ret)
  | shutdown : (s.session S).pc op = .shutdown → HandlerStep s S op (s.setPc S op .lockActive)
  | lockActive : (s.session S).pc op = .lockActive → s.mutex .m_active_sessions_guard = none →
      HandlerStep s S op
        ((s.owned .m_active_sessions_guard (.handler S op)).setPc S op .eraseEntry)
  | eraseEntry : (s.session S).pc op = .eraseEntry →
      HandlerStep s S op ((s.erase S).setPc S op .unlockActive)
  | unlockActive : (s.session S).pc op = .unlockActive →
      HandlerStep s S op ((s.unlock .m_active_sessions_guard).setPc S op .report)
  | report : (s.session S).pc op = .report →
      HandlerStep s S op (s.setPc S op (.callback (s.session S).reported))
  | callback {ec} : (s.session S).pc op = .callback ec →
      HandlerStep s S op (s.modify S fun x => (x.invokeCallback ec).setPc op .ret)
  | ret : (s.session S).pc op = .ret →
      HandlerStep s S op ((s.release (.m_cancel_guard S) (.handler S op)).setPc S op .finished)

/-- The steps of a `cancelRequest` call. -/
inductive CancelStep (s : State) (n : Nat) : State → Prop
  | lockActive {id} : s.cancel n = .lockActive id → s.mutex .m_active_sessions_guard = none →
      CancelStep s n ((s.owned .m_active_sessions_guard (.canceller n)).setCancel n (.find id))
  | found {id S} : s.cancel n = .find id → s.m_active_sessions (mapKey id) = some S →
      CancelStep s n (s.setCancel n (.lockCancel S))
  | notFound {id} : s.cancel n = .find id → s.m_active_sessions (mapKey id) = none →
      CancelStep s n (s.setCancel n .unlockActive)
  | lockCancel {S} : s.cancel n = .lockCancel S → s.mutex (.m_cancel_guard S) = none →
      CancelStep s n ((s.owned (.m_cancel_guard S) (.canceller n)).setCancel n (.setCancelled S))
  | setCancelled {S} : s.cancel n = .setCancelled S →
      CancelStep s n
        ((s.modify S ({ · with m_was_cancelled := true })).setCancel n (.cancelSock S))
  | cancelSock {S} : s.cancel n = .cancelSock S →
      CancelStep s n (s.setCancel n (.unlockCancel S))
  | unlockCancel {S} : s.cancel n = .unlockCancel S →
      CancelStep s n ((s.unlock (.m_cancel_guard S)).setCancel n .unlockActive)
  | unlockActive : s.cancel n = .unlockActive →
      CancelStep s n ((s.unlock .m_active_sessions_guard).setCancel n .idle)

/-- The steps of the client. -/
inductive Step (s : State) : Action → State → Prop
  | badIp {d id} : Step s (.emulateLongComputationOp false d id) s
  | construct {d id} : Step s (.emulateLongComputationOp true d id) (s.construct d id)
  | caller {S opened s'} : CallerStep s S s' → Step s (.caller S opened) s'
  | complete {S op ec received} : (s.session S).pc op = .pending →
      Step s (.complete S op ec received)
        (s.modify S fun x => (x.receive op received).setPc op (.entry ec))
  | handler {S op s'} : HandlerStep s S op s' → Step s (.handler S op) s'
  | cancelRequest {n id} : s.cancel n = .idle →
      Step s (.cancelRequest n id) (s.setCancel n (.lockActive id))
  | canceller {n s'} : CancelStep s n s' → Step s (.canceller n) s'
  | close : Step s .close { s with m_work := false }

theorem stepCaller_inv {s s' : State} {S : SessionId} {opened : Bool}
    (h : stepCaller s S opened = some s') : CallerStep s S s' := by
  unfold stepCaller at h
  cases hc : (s.session S).call with
  | openSocket =>
      rw [hc] at h
      obtain rfl := Option.some.inj h
      cases opened
      · exact .openThrows hc
      · exact .opened hc
  | lockActive =>
      simp only [hc, Option.map_eq_some_iff] at h
      obtain ⟨t, ht, rfl⟩ := h
      obtain ⟨hfree, rfl⟩ := State.lock_eq_some.mp ht
      exact .lockActive hc hfree
  | insert => rw [hc] at h; obtain rfl := Option.some.inj h; exact .insert hc
  | unlockActive => rw [hc] at h; obtain rfl := Option.some.inj h; exact .unlockActive hc
  | asyncConnect => rw [hc] at h; obtain rfl := Option.some.inj h; exact .asyncConnect hc
  | notCalled => rw [hc] at h; exact absurd h (by simp)
  | returned => rw [hc] at h; exact absurd h (by simp)
  | threw => rw [hc] at h; exact absurd h (by simp)

theorem stepHandler_inv {s s' : State} {S : SessionId} {op : Op}
    (h : stepHandler s S op = some s') : HandlerStep s S op s' := by
  unfold stepHandler at h
  cases hpc : (s.session S).pc op with
  | entry ec => rw [hpc] at h; obtain rfl := Option.some.inj h; exact .enter hpc
  | lockCancel =>
      simp only [hpc, Option.map_eq_some_iff] at h
      obtain ⟨t, ht, rfl⟩ := h
      obtain ⟨hfree, rfl⟩ := State.lock_eq_some.mp ht
      exact .lockCancel hpc hfree
  | testCancelled =>
      rw [hpc] at h
      obtain rfl := Option.some.inj h
      cases hw : (s.session S).m_was_cancelled
      · exact .notCancelled hpc hw
      · exact .cancelled hpc hw
  | startNext =>
      simp only [hpc, Option.map_eq_some_iff] at h
      obtain ⟨op', hop, rfl⟩ := h
      exact .startNext hpc hop
  | shutdown => rw [hpc] at h; obtain rfl := Option.some.inj h; exact .shutdown hpc
  | lockActive =>
      simp only [hpc, Option.map_eq_some_iff] at h
      obtain ⟨t, ht, rfl⟩ := h
      obtain ⟨hfree, rfl⟩ := State.lock_eq_some.mp ht
      exact .lockActive hpc hfree
  | eraseEntry => rw [hpc] at h; obtain rfl := Option.some.inj h; exact .eraseEntry hpc
  | unlockActive => rw [hpc] at h; obtain rfl := Option.some.inj h; exact .unlockActive hpc
  | report => rw [hpc] at h; obtain rfl := Option.some.inj h; exact .report hpc
  | callback ec => rw [hpc] at h; obtain rfl := Option.some.inj h; exact .callback hpc
  | ret => rw [hpc] at h; obtain rfl := Option.some.inj h; exact .ret hpc
  | idle => rw [hpc] at h; exact absurd h (by simp)
  | pending => rw [hpc] at h; exact absurd h (by simp)
  | finished => rw [hpc] at h; exact absurd h (by simp)

theorem stepCancel_inv {s s' : State} {n : Nat} (h : stepCancel s n = some s') :
    CancelStep s n s' := by
  unfold stepCancel at h
  cases hpc : s.cancel n with
  | lockActive id =>
      simp only [hpc, Option.map_eq_some_iff] at h
      obtain ⟨t, ht, rfl⟩ := h
      obtain ⟨hfree, rfl⟩ := State.lock_eq_some.mp ht
      exact .lockActive hpc hfree
  | find id =>
      rw [hpc] at h
      cases hm : s.m_active_sessions (mapKey id) with
      | none =>
          simp only [hm] at h
          obtain rfl := Option.some.inj h
          exact .notFound hpc hm
      | some S =>
          simp only [hm] at h
          obtain rfl := Option.some.inj h
          exact .found hpc hm
  | lockCancel S =>
      simp only [hpc, Option.map_eq_some_iff] at h
      obtain ⟨t, ht, rfl⟩ := h
      obtain ⟨hfree, rfl⟩ := State.lock_eq_some.mp ht
      exact .lockCancel hpc hfree
  | setCancelled S => rw [hpc] at h; obtain rfl := Option.some.inj h; exact .setCancelled hpc
  | cancelSock S => rw [hpc] at h; obtain rfl := Option.some.inj h; exact .cancelSock hpc
  | unlockCancel S => rw [hpc] at h; obtain rfl := Option.some.inj h; exact .unlockCancel hpc
  | unlockActive => rw [hpc] at h; obtain rfl := Option.some.inj h; exact .unlockActive hpc
  | idle => rw [hpc] at h; exact absurd h (by simp)

/-- **Inversion.** Every step of the client is one of the listed ones. -/
theorem step_inv {s s' : State} {a : Action} (h : step s a = some s') : Step s a s' := by
  cases a with
  | emulateLongComputationOp parsed d id =>
      obtain rfl := Option.some.inj h
      cases parsed
      · exact .badIp
      · exact .construct
  | caller S opened => exact .caller (stepCaller_inv h)
  | complete S op ec received =>
      simp only [step] at h
      split at h
      · next hp =>
        obtain rfl := Option.some.inj h
        exact .complete hp
      · exact absurd h (by simp)
  | handler S op => exact .handler (stepHandler_inv h)
  | cancelRequest n id =>
      simp only [step] at h
      split at h
      · next hp =>
        obtain rfl := Option.some.inj h
        exact .cancelRequest hp
      · exact absurd h (by simp)
  | canceller n => exact .canceller (stepCancel_inv h)
  | close => obtain rfl := Option.some.inj h; exact .close

/-! ### What a step does to one session -/

/-- What a step of the call that created it does to a session. -/
inductive CallMove (x : Session) : Session → Prop
  | opened : x.call = .openSocket → CallMove x (x.setCall .lockActive)
  | openThrows : x.call = .openSocket → CallMove x (x.setCall .threw)
  | lockActive : x.call = .lockActive → CallMove x (x.setCall .insert)
  | insert : x.call = .insert → CallMove x (x.setCall .unlockActive)
  | unlockActive : x.call = .unlockActive → CallMove x (x.setCall .asyncConnect)
  | asyncConnect : x.call = .asyncConnect →
      CallMove x ((x.setPc .connect .pending).setCall .returned)

/-- What a step of the handler of `op` does to its session. -/
inductive HandlerMove (x : Session) (op : Op) : Session → Prop
  | enter {ec} : x.pc op = .entry ec → HandlerMove x op (x.enter op ec)
  | lockCancel : x.pc op = .lockCancel → HandlerMove x op (x.setPc op .testCancelled)
  | cancelled : x.pc op = .testCancelled → x.m_was_cancelled = true →
      HandlerMove x op (x.setPc op .shutdown)
  | notCancelled : x.pc op = .testCancelled → x.m_was_cancelled = false →
      HandlerMove x op (x.setPc op .startNext)
  | startNext {op'} : x.pc op = .startNext → op.next = some op' →
      HandlerMove x op ((x.setPc op' .pending).setPc op .ret)
  | shutdown : x.pc op = .shutdown → HandlerMove x op (x.setPc op .lockActive)
  | lockActive : x.pc op = .lockActive → HandlerMove x op (x.setPc op .eraseEntry)
  | eraseEntry : x.pc op = .eraseEntry → HandlerMove x op (x.setPc op .unlockActive)
  | unlockActive : x.pc op = .unlockActive → HandlerMove x op (x.setPc op .report)
  | report : x.pc op = .report → HandlerMove x op (x.setPc op (.callback x.reported))
  | callback {ec} : x.pc op = .callback ec →
      HandlerMove x op ((x.invokeCallback ec).setPc op .ret)
  | ret : x.pc op = .ret → HandlerMove x op (x.setPc op .finished)

/-- What a step does to session `S` when it concerns it. -/
inductive SessionStep (s : State) (S : SessionId) : Action → Session → Prop
  | construct {d id} : S = s.next → SessionStep s S (.emulateLongComputationOp true d id)
      (.new (computationRequest d) id .openSocket)
  | caller {opened y} : CallMove (s.session S) y → SessionStep s S (.caller S opened) y
  | complete {op ec received} : (s.session S).pc op = .pending →
      SessionStep s S (.complete S op ec received)
        (((s.session S).receive op received).setPc op (.entry ec))
  | handler {op y} : HandlerMove (s.session S) op y → SessionStep s S (.handler S op) y
  | setCancelled {n} : s.cancel n = .setCancelled S →
      SessionStep s S (.canceller n) { s.session S with m_was_cancelled := true }

theorem CallerStep.move {s s' : State} {S : SessionId} (h : CallerStep s S s') :
    CallMove (s.session S) (s'.session S) := by
  cases h with
  | opened hc => simpa using CallMove.opened hc
  | openThrows hc => simpa using CallMove.openThrows hc
  | lockActive hc _ => simpa using CallMove.lockActive hc
  | insert hc => simpa using CallMove.insert hc
  | unlockActive hc => simpa using CallMove.unlockActive hc
  | asyncConnect hc => simpa using CallMove.asyncConnect hc

theorem HandlerStep.move {s s' : State} {S : SessionId} {op : Op} (h : HandlerStep s S op s') :
    HandlerMove (s.session S) op (s'.session S) := by
  cases h with
  | enter hpc => simpa using HandlerMove.enter hpc
  | lockCancel hpc _ => simpa using HandlerMove.lockCancel hpc
  | cancelled hpc hw => simpa using HandlerMove.cancelled hpc hw
  | notCancelled hpc hw => simpa using HandlerMove.notCancelled hpc hw
  | startNext hpc hn => simpa using HandlerMove.startNext hpc hn
  | shutdown hpc => simpa using HandlerMove.shutdown hpc
  | lockActive hpc _ => simpa using HandlerMove.lockActive hpc
  | eraseEntry hpc => simpa using HandlerMove.eraseEntry hpc
  | unlockActive hpc => simpa using HandlerMove.unlockActive hpc
  | report hpc => simpa using HandlerMove.report hpc
  | callback hpc => simpa using HandlerMove.callback hpc
  | ret hpc => simpa using HandlerMove.ret hpc

/-- **A step concerns at most one session**, and this is what it does to it. -/
theorem Step.session {s s' : State} {a : Action} (h : Step s a s') (T : SessionId) :
    s'.session T = s.session T ∨ SessionStep s T a (s'.session T) := by
  cases h with
  | badIp => exact .inl rfl
  | construct =>
      by_cases hT : T = s.next
      · refine .inr ?_
        simpa [hT] using SessionStep.construct rfl
      · exact .inl (by simp [hT])
  | @caller S _ _ h =>
      by_cases hT : T = S
      · subst hT
        exact .inr (.caller h.move)
      · refine .inl ?_
        cases h <;> simp [hT]
  | @complete S _ _ _ hpc =>
      by_cases hT : T = S
      · subst hT
        refine .inr ?_
        simpa using SessionStep.complete hpc
      · exact .inl (by simp [hT])
  | @handler S _ _ h =>
      by_cases hT : T = S
      · subst hT
        exact .inr (.handler h.move)
      · refine .inl ?_
        cases h <;> simp [hT]
  | cancelRequest _ => exact .inl rfl
  | canceller h =>
      cases h with
      | @setCancelled S hpc =>
          by_cases hT : T = S
          · subst hT
            refine .inr ?_
            simpa using SessionStep.setCancelled hpc
          · exact .inl (by simp [hT])
      | _ => exact .inl rfl
  | close => exact .inl rfl

/-- Sessions are never destroyed. -/
theorem Step.next_le {s s' : State} {a : Action} (h : Step s a s') : s.next ≤ s'.next := by
  cases h with
  | construct => exact Nat.le_succ _
  | caller h => cases h <;> exact Nat.le_refl _
  | handler h => cases h <;> exact Nat.le_refl _
  | canceller h => cases h <;> exact Nat.le_refl _
  | _ => exact Nat.le_refl _

end AsioStudy.AsyncTcpClient
