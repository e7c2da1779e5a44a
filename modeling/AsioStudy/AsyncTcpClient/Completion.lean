import AsioStudy.AsyncTcpClient.Registry

/-!
# AsioStudy.AsyncTcpClient.Completion

Every request completes once. The phase of a session (`Phase.lean`) fixes how many of
its operations are pending and how often its callback has been invoked; together with
the registry invariant this gives `reachable_completion`.
-/

namespace AsioStudy.AsyncTcpClient

/-- The number of pending asynchronous operations of a session. -/
def Session.pendingOps (x : Session) : Nat :=
  [Op.connect, Op.write, Op.read].countP fun op => x.pc op = .pending

/-- The handler has been invoked and has not returned. -/
def HandlerPc.running : HandlerPc → Bool
  | .idle | .pending | .finished => false
  | _ => true

/-- No handler of the session is running. -/
def Session.Quiet (x : Session) : Prop := ∀ op, (x.pc op).running = false

/-- `io_service::run` has nothing left to do: `m_work` is reset, no operation is
pending and no handler is running. -/
def State.NoWorkLeft (s : State) : Prop :=
  s.m_work = false ∧ ∀ S, (s.session S).pendingOps = 0 ∧ (s.session S).Quiet

/-- This step throws out of an `emulateLongComputationOp` call. -/
def CallThrows (s : State) (a : Action) (s' : State) : Prop :=
  (∃ duration_sec request_id, a = .emulateLongComputationOp false duration_sec request_id) ∨
  ∃ S, (s.session S).call ≠ .threw ∧ (s'.session S).call = .threw

/-- **Every request completes once.** -/
structure Completion (s : State) : Prop where
  /-- Pending operations and callback invocations never exceed one. -/
  at_most_once : ∀ S, (s.session S).pendingOps + (s.session S).callbacks.length ≤ 1
  /-- There is exactly one once the call has returned and no handler is running. -/
  exactly_once : ∀ S, (s.session S).call = .returned → (s.session S).Quiet →
    (s.session S).pendingOps + (s.session S).callbacks.length = 1
  /-- The sessions in the map have not passed the erase step. -/
  not_erased : ∀ k S, s.m_active_sessions k = some S → ¬ (s.session S).PastErase
  /-- A call that throws leaves the map unchanged. -/
  throws : ∀ a s', step s a = some s' → CallThrows s a s' →
    s'.m_active_sessions = s.m_active_sessions
  /-- With no work left the callback of every call that has returned was invoked once. -/
  callback_once : s.NoWorkLeft → ∀ S, (s.session S).call = .returned →
    (s.session S).callbacks.length = 1
  /-- With no work left and no call under way the map is empty. -/
  map_empty : s.NoWorkLeft → (∀ S, (s.session S).call.inProgress = false) →
    s.m_active_sessions = .empty

/-! ### What a phase says about pending operations and callbacks -/

section Counting

variable {x : Session} {p : Phase} {op : Op}

theorem Session.pendingOps_eq_zero : x.pendingOps = 0 ↔ ∀ op, x.pc op ≠ .pending := by
  simp only [Session.pendingOps, List.countP_eq_zero, decide_eq_true_eq, ne_eq]
  exact ⟨fun h op => h op (by cases op <;> simp), fun h op _ => h op⟩

/-- When at most one operation is pending, it is counted once. -/
theorem Session.pendingOps_eq_one (hop : x.pc op = .pending)
    (hne : ∀ o, o ≠ op → x.pc o ≠ .pending) : x.pendingOps = 1 := by
  have hc := hne .connect
  have hw := hne .write
  have hr := hne .read
  cases op <;> simp_all [Session.pendingOps]

/-- Outside the handled phases nothing is pending. -/
theorem Session.pendingOps_eq_zero_of_not_working (h : ∀ op, (x.pc op).working = false) :
    x.pendingOps = 0 :=
  Session.pendingOps_eq_zero.mpr fun op hpc => by
    have hw := h op
    rw [hpc] at hw
    exact absurd hw (by decide)

theorem Session.Untouched.not_working (h : x.Untouched) : (x.pc op).working = false := by
  rw [h.1 op]
  rfl

/-- In the phase of `op` no other handler is at work. -/
theorem Session.InPhase.not_working_of_ne (h : x.InPhase (.handling op)) {o : Op} (ho : o ≠ op) :
    (x.pc o).working = false := by
  cases hw : (x.pc o).working
  · rfl
  · exact absurd (h.eq_handling rfl hw) (by simpa [eq_comm] using ho)

theorem Session.InPhase.handling_pendingOps (h : x.InPhase (.handling op)) :
    x.pendingOps = if x.pc op = .pending then 1 else 0 := by
  have hothers : ∀ o, o ≠ op → x.pc o ≠ .pending := fun o ho hpc => by
    have hw := h.not_working_of_ne ho
    rw [hpc] at hw
    exact absurd hw (by decide)
  split
  · next hpc => exact Session.pendingOps_eq_one hpc hothers
  · next hpc =>
    refine Session.pendingOps_eq_zero.mpr ?_
    intro o
    by_cases ho : o = op
    · exact ho ▸ hpc
    · exact hothers o ho

theorem Session.InPhase.at_most_once (h : x.InPhase p) :
    x.pendingOps + x.callbacks.length ≤ 1 := by
  cases p with
  | absent =>
      simp [Session.pendingOps_eq_zero_of_not_working fun _ => h.2.not_working, h.2.2]
  | calling =>
      simp [Session.pendingOps_eq_zero_of_not_working fun _ => h.2.not_working, h.2.2]
  | failed =>
      simp [Session.pendingOps_eq_zero_of_not_working fun _ => h.2.not_working, h.2.2]
  | handling op =>
      rw [h.handling_pendingOps, h.2.1]
      split <;> simp
  | completed =>
      simp [Session.pendingOps_eq_zero_of_not_working h.2.2, h.2.1]

theorem Session.InPhase.exactly_once (h : x.InPhase p) (hcall : x.call = .returned)
    (hq : x.Quiet) : x.pendingOps + x.callbacks.length = 1 := by
  cases p with
  | absent => exact absurd hcall (by rw [h.1]; decide)
  | calling => exact absurd h.1 (by rw [hcall]; decide)
  | failed => exact absurd hcall (by rw [h.1]; decide)
  | handling op =>
      -- a working handler that is not running is one whose operation is pending
      have hpc : x.pc op = .pending := by
        have hw := h.2.2.1
        have hr := hq op
        cases hpc : x.pc op <;> simp_all [HandlerPc.working, HandlerPc.running]
      rw [h.handling_pendingOps, if_pos hpc, h.2.1]
      rfl
  | completed =>
      rw [Session.pendingOps_eq_zero_of_not_working h.2.2, h.2.1]

end Counting

/-! ### The theorem -/

variable {s s' : State} {a : Action}

/-- A call throws before it has touched the map. -/
theorem Step.map_of_throws (h : Step s a s') (ht : CallThrows s a s') :
    s'.m_active_sessions = s.m_active_sessions := by
  rcases h.map_cases with hmap | ⟨S, opened, rfl, hc, rfl⟩ | ⟨S, op, rfl, hpc, rfl⟩
  · exact hmap
  · obtain ⟨_, _, h⟩ | ⟨T, hT, hT'⟩ := ht
    · exact absurd h nofun
    · by_cases hTS : T = S
      · simp [hTS] at hT'
      · simp [hTS, hT] at hT'
  · obtain ⟨_, _, h⟩ | ⟨T, hT, hT'⟩ := ht
    · exact absurd h nofun
    · by_cases hTS : T = S
      · subst hTS
        simp [hT] at hT'
      · simp [hTS, hT] at hT'

/-- In every reachable state, whatever was called, cancelled and completed in whatever
order: a session has one pending operation or one callback invocation, never both;
entries of the map have not been erased; and when `run` has nothing left to do every
request has been reported and the map is empty. -/
theorem reachable_completion (h : client.Reachable s) : Completion s := by
  obtain ⟨hp, -⟩ := reachable_phase h
  have hreg := reachable_registry h
  have honce : s.NoWorkLeft → ∀ S, (s.session S).call = .returned →
      (s.session S).callbacks.length = 1 := fun hno S hc => by
    obtain ⟨p, hS⟩ := hp S
    have hsum := hS.exactly_once hc (hno.2 S).2
    rw [(hno.2 S).1, Nat.zero_add] at hsum
    exact hsum
  refine ⟨?_, ?_, fun k S hk => (hreg.entry k S hk).2.2,
    fun a s' hs ht => (step_inv hs).map_of_throws ht, honce, ?_⟩
  · intro S
    obtain ⟨p, hS⟩ := hp S
    exact hS.at_most_once
  · intro S hc hq
    obtain ⟨p, hS⟩ := hp S
    exact hS.exactly_once hc hq
  · intro hno hcalls
    funext k
    cases hk : s.m_active_sessions k with
    | none => rfl
    | some S =>
        obtain ⟨-, hregd, hpast⟩ := hreg.entry k S hk
        have hret : (s.session S).call = .returned := by
          have hin := hcalls S
          cases hc : (s.session S).call <;> simp_all [CallPc.registered, CallPc.inProgress]
        have hone := honce hno S hret
        exact absurd (.inl fun he => by simp [he] at hone) hpast

/-- Two calls re-use id 7; the first is cancelled while its connect is pending, both
connects then complete. -/
def overlappingRun : List Action :=
  [.emulateLongComputationOp true 10 7, .caller 0 true, .caller 0 true, .caller 0 true,
    .caller 0 true, .caller 0 true,
    .cancelRequest 0 7, .canceller 0, .canceller 0, .canceller 0, .canceller 0, .canceller 0,
    .canceller 0, .canceller 0,
    .emulateLongComputationOp true 11 7, .caller 1 true, .caller 1 true, .caller 1 true,
    .caller 1 true, .caller 1 true,
    .complete 0 .connect .operation_aborted [], .handler 0 .connect, .handler 0 .connect,
    .handler 0 .connect, .handler 0 .connect, .handler 0 .connect, .handler 0 .connect,
    .handler 0 .connect, .handler 0 .connect]

theorem reachable_completion_overlapping :
    ∃ s, client.exec client.init overlappingRun = some s ∧
      (s.session 0).callbacks = [⟨7, [], .operation_aborted⟩] ∧ Completion s := by
  have h : ((client.exec client.init overlappingRun).map fun s => (s.session 0).callbacks) =
      some [⟨7, [], .operation_aborted⟩] := by decide
  obtain ⟨s, hs, hcb⟩ := Option.map_eq_some_iff.mp h
  exact ⟨s, hs, hcb, reachable_completion (TransitionSystem.reachable_of_exec hs)⟩

end AsioStudy.AsyncTcpClient
