import AsioStudy.HttpClient.Safety

/-!
# AsioStudy.HttpClient.Refinement

Every `Exchange` is a run of the machine. `Exchange.execute` goes through the stages in one
call; here each stage is a few steps of the worker that runs it, with a whole `cancel()`
call before its lock when the stage is to find the flag set. So what a callback of an
exchange sees is what a callback of the machine is invoked with (`Exchange.execute_calls`),
and the results about the machine hold of every exchange.
-/

namespace AsioStudy.HttpClient

variable {P : Platform} {m_host m_uri : Bytes} {s s₁ : State} {k : Worker} {stage stage' : Stage}
  {pc pc' : Pc} {b : Bool} {x y : HTTPRequest} {ec : ErrorCode}

/-- A reachable state in which only worker `k` runs, nothing is pending and no callback has
been invoked; the flag is `b`. -/
structure Running (P : Platform) (m_host m_uri : Bytes) (s : State) (k : Worker) (stage : Stage)
    (pc : Pc) (b : Bool) (x : HTTPRequest) : Prop where
  reachable : (machine P m_host m_uri).Reachable s
  request : s.request = x
  frame : s.frame k = some ⟨stage, pc⟩
  io : k = .user → s.frame .io = none
  mutex : s.mutex .m_cancel_mux = if pc.holds then some (.worker k) else none
  m_was_cancelled : s.m_was_cancelled = b
  pending : s.pending = []
  callbacks : s.callbacks = []
  cancel : s.cancel 0 = .idle

/-- A reachable state in which only the operation with handler `stage` is pending. -/
structure Waiting (P : Platform) (m_host m_uri : Bytes) (s : State) (stage : Stage)
    (x : HTTPRequest) : Prop where
  reachable : (machine P m_host m_uri).Reachable s
  request : s.request = x
  io : s.frame .io = none
  mutex : s.mutex .m_cancel_mux = none
  m_was_cancelled : s.m_was_cancelled = false
  pending : s.pending = [stage]
  callbacks : s.callbacks = []
  cancel : s.cancel 0 = .idle

/-- The machine can get to the invocation of the callback with these arguments. -/
def Calls (P : Platform) (m_host m_uri : Bytes) (y : HTTPRequest) (ec : ErrorCode) : Prop :=
  ∃ s, (machine P m_host m_uri).Reachable s ∧ s.request = y ∧ s.callbacks = [⟨y.m_response, ec⟩]

/-! ### The steps of a worker -/

theorem reachable_step {a : Action} (h : (machine P m_host m_uri).Reachable s)
    (hs : step P s a = some s₁) : (machine P m_host m_uri).Reachable s₁ :=
  h.step hs

/-- The step of worker `k`. -/
theorem step_worker {f : Frame} (hf : s.frame k = some f) (shutdown : Bool) :
    step P s (.worker k shutdown) = stepFrame P s k shutdown f := by
  simp only [step, hf, Option.bind_some]

/-- A step of the worker within its stage, by way of a state `t`. -/
theorem Running.goto (h : Running P m_host m_uri s k stage pc b x) (t : State) (pc' : Pc)
    (shutdown : Bool) (hs : stepFrame P s k shutdown ⟨stage, pc⟩ = some (t.goto k stage pc'))
    (hrequest : t.request = y) (hframe : t.frame = s.frame)
    (hmutex : t.mutex .m_cancel_mux = if pc'.holds then some (.worker k) else none)
    (hrest : t.m_was_cancelled = s.m_was_cancelled ∧ t.pending = s.pending ∧
      t.callbacks = s.callbacks ∧ t.cancel = s.cancel) :
    Running P m_host m_uri (t.goto k stage pc') k stage pc' b y := by
  obtain ⟨hw, hpending, hcallbacks, hcancel⟩ := hrest
  have hstep : step P s (.worker k shutdown) = some (t.goto k stage pc') := by
    rw [step_worker h.frame]
    exact hs
  refine ⟨reachable_step h.reachable hstep, hrequest, by simp, ?_, by simpa using hmutex, ?_, ?_,
    ?_, ?_⟩
  · intro hk
    have hio : Worker.io ≠ k := by rw [hk]; decide
    simpa [hio, hframe] using h.io hk
  · simpa [hw] using h.m_was_cancelled
  · simpa [hpending] using h.pending
  · simpa [hcallbacks] using h.callbacks
  · simpa [hcancel] using h.cancel

/-- The first part of a stage. -/
theorem Running.enter (h : Running P m_host m_uri s k stage (.entry ec) b x) {shutdown : Bool}
    {exit : Exit} (hpart : stage.firstPart P shutdown ec x = (y, exit)) :
    ∃ s', Running P m_host m_uri s' k stage exit.pc b y := by
  have hs : stepFrame P s k shutdown ⟨stage, .entry ec⟩ =
      some ({ s with request := y }.goto k stage exit.pc) := by
    simp only [stepFrame, h.request, hpart]
  refine ⟨_, h.goto { s with request := y } exit.pc shutdown hs rfl rfl ?_ ⟨rfl, rfl, rfl, rfl⟩⟩
  rw [exit.pc_holds]
  exact h.mutex

/-- The lock and the test of the flag. -/
theorem Running.test (h : Running P m_host m_uri s k stage .lock b x) :
    ∃ s', Running P m_host m_uri s' k stage (if b then .unlock else .start) b x := by
  have hlock : s.lock (.worker k) = some (s.owned (.worker k)) :=
    State.lock_eq_some.mpr ⟨h.mutex, rfl⟩
  have hs : stepFrame P s k true ⟨stage, .lock⟩ =
      some ((s.owned (.worker k)).goto k stage .test) := by
    simp [stepFrame, hlock]
  have htest := h.goto (s.owned (.worker k)) .test true hs h.request rfl (by simp [Pc.holds])
    ⟨rfl, rfl, rfl, rfl⟩
  have hs' := htest.m_was_cancelled
  refine ⟨_, htest.goto _ (if b then .unlock else .start) true ?_ htest.request rfl ?_
    ⟨rfl, rfl, rfl, rfl⟩⟩
  · simp only [stepFrame, hs']
  · cases b <;> exact htest.mutex

/-- The invocation of the callback. -/
theorem Running.calls (h : Running P m_host m_uri s k stage (.callback ec) b x) :
    Calls P m_host m_uri x ec := by
  have hstep : step P s (.worker k true) = some ((s.invokeCallback ec).goto k stage .ret) := by
    rw [step_worker h.frame]
    rfl
  refine ⟨_, reachable_step h.reachable hstep, h.request, ?_⟩
  simp [h.callbacks, h.request]

/-- The cancelled branch. -/
theorem Running.aborts (h : Running P m_host m_uri s k stage .lock true x) :
    Calls P m_host m_uri x .operation_aborted := by
  obtain ⟨t, ht⟩ := h.test
  have hcall := ht.goto t.unlock (.callback .operation_aborted) true rfl ht.request rfl
    (by simp [Pc.holds]) ⟨rfl, rfl, rfl, rfl⟩
  exact hcall.calls

/-- The branch that goes on: the next operation is started and the stage returns. -/
theorem Running.starts (h : Running P m_host m_uri s k stage .lock false x)
    (hnext : stage.next = some stage') : ∃ s', Waiting P m_host m_uri s' stage' x := by
  obtain ⟨t, ht⟩ := h.test
  let t' := (t.startOp stage').goto k stage .ret
  have hstart : step P t (.worker k true) = some t' := by
    rw [step_worker ht.frame]
    simp [stepFrame, hnext, t']
  have hframe : t'.frame k = some ⟨stage, .ret⟩ := by simp [t']
  have hret : step P t' (.worker k true) = some ((t'.release (.worker k)).setFrame k none) := by
    rw [step_worker hframe]
    rfl
  have hreach := reachable_step (reachable_step ht.reachable hstart) hret
  have hown : t.mutex .m_cancel_mux = some (.worker k) := by simpa [Pc.holds] using ht.mutex
  refine ⟨_, hreach, ht.request, ?_, by simp [t', hown], ?_, ?_, ?_, ?_⟩
  · cases k with
    | user => simpa [t'] using ht.io rfl
    | io => simp
  · simpa [t'] using ht.m_was_cancelled
  · simp [t', ht.pending]
  · simpa [t'] using ht.callbacks
  · simpa [t'] using ht.cancel

/-- A whole `cancel()` call comes before the lock. -/
theorem Running.cancelled (h : Running P m_host m_uri s k stage .lock false x) :
    ∃ s', Running P m_host m_uri s' k stage .lock true x := by
  have hfree : s.mutex .m_cancel_mux = none := h.mutex
  let s₁ := s.setCancel 0 .lock
  let s₂ := (s₁.owned (.canceller 0)).setCancel 0 .set
  let s₃ := { s₂ with m_was_cancelled := true }.setCancel 0 .cancelOps
  let s₄ := s₃.setCancel 0 .unlock
  let s₅ := s₄.unlock.setCancel 0 .idle
  have hlock : s₁.lock (.canceller 0) = some (s₁.owned (.canceller 0)) :=
    State.lock_eq_some.mpr ⟨hfree, rfl⟩
  have hcall : step P s (.cancel 0) = some s₁ := by simp [step, h.cancel, s₁]
  have h₁ : step P s₁ (.canceller 0) = some s₂ := by
    have hpc : s₁.cancel 0 = .lock := by simp [s₁]
    simp [step, stepCancel, hpc, hlock, s₂]
  have h₂ : step P s₂ (.canceller 0) = some s₃ := by
    have hpc : s₂.cancel 0 = .set := by simp [s₂]
    simp [step, stepCancel, hpc, s₃]
  have h₃ : step P s₃ (.canceller 0) = some s₄ := by
    have hpc : s₃.cancel 0 = .cancelOps := by simp [s₃]
    simp [step, stepCancel, hpc, s₄]
  have h₄ : step P s₄ (.canceller 0) = some s₅ := by
    have hpc : s₄.cancel 0 = .unlock := by simp [s₄]
    simp [step, stepCancel, hpc, s₅]
  have hreach := reachable_step (reachable_step (reachable_step (reachable_step
    (reachable_step h.reachable hcall) h₁) h₂) h₃) h₄
  refine ⟨s₅, hreach, h.request, h.frame, h.io, ?_, rfl, h.pending, h.callbacks, ?_⟩
  · simp [s₅, Pc.holds]
  · simp [s₅]

/-! ### Whole exchanges -/

/-- The pending operation completes and `run()` invokes its handler. -/
theorem Waiting.complete (h : Waiting P m_host m_uri s stage x) (ec : ErrorCode)
    (received : Bytes) :
    ∃ s', Running P m_host m_uri s' .io stage (.entry ec) false (x.receive stage received) := by
  have hmem : stage ∈ s.pending := by simp [h.pending]
  have hstep : step P s (.complete stage ec received) = some
      ({ s with
        pending := s.pending.erase stage
        request := s.request.receive stage received }.goto .io stage (.entry ec)) :=
    if_pos ⟨hmem, h.io⟩
  refine ⟨_, reachable_step h.reachable hstep, ?_, by simp, nofun, ?_, h.m_was_cancelled, ?_,
    h.callbacks, h.cancel⟩
  · exact congrArg (·.receive stage received) h.request
  · exact h.mutex
  · simp [h.pending]

/-- `execute()` is called. -/
theorem running_execute (P : Platform) (m_host m_uri : Bytes) :
    ∃ s, Running P m_host m_uri s .user .execute .lock false (.new m_host m_uri) := by
  have hstep : step P (.init m_host m_uri) .execute = some
      ({ State.init m_host m_uri with executed := true }.goto .user .execute .lock) := rfl
  refine ⟨_, reachable_step .init hstep, rfl, by simp, ?_, rfl, rfl, rfl, rfl, rfl⟩
  intro _
  simp [State.init]

variable {w : Exchange} {next : HTTPRequest → Outcome} {chunks : List Bytes}

/-- A stage that reaches its lock. -/
theorem Exchange.run_lock (hpart : stage.firstPart w.platform w.shutdown ec x = (y, .lock)) :
    w.run stage x (some ec) next =
      if w.cancelled stage then .callback y .operation_aborted else next y := by
  simp only [Exchange.run, hpart]

/-- What the machine does after the first part of a stage is what `Exchange.run` does. -/
theorem Running.run (h : Running w.platform m_host m_uri s k stage .lock false x)
    (hstart : stage.next = some stage') {o : Outcome}
    (hrun : (if w.cancelled stage then .callback x .operation_aborted else o) = .callback y ec)
    (hnext : ∀ s', Waiting w.platform m_host m_uri s' stage' x → o = .callback y ec →
      Calls w.platform m_host m_uri y ec) :
    Calls w.platform m_host m_uri y ec := by
  by_cases hw : w.cancelled stage
  · rw [if_pos hw] at hrun
    obtain ⟨rfl, rfl⟩ := Outcome.callback.inj hrun
    obtain ⟨t, ht⟩ := h.cancelled
    exact ht.aborts
  · rw [if_neg hw] at hrun
    obtain ⟨t, ht⟩ := h.starts hstart
    exact hnext t ht hrun

/-- Only the last stage has no next one, and it does not reach a lock. -/
theorem firstPart_lock_next {shutdown : Bool}
    (h : stage.firstPart P shutdown ec x = (y, .lock)) : ∃ stage', stage.next = some stage' := by
  cases stage with
  | on_response_body_received =>
      simp only [Stage.firstPart, on_response_body_received] at h
      split at h <;> exact absurd (Prod.mk.inj h).2 (by simp)
  | _ => exact ⟨_, rfl⟩

/-- **One stage of an exchange**, from the completion of the operation before it. -/
theorem Waiting.run (h : Waiting w.platform m_host m_uri s stage x) (received : Bytes)
    {completion : Option ErrorCode}
    (hrun : w.run stage (x.receive stage received) completion next = .callback y ec)
    (hnext : ∀ s' stage' x', stage.next = some stage' →
      Waiting w.platform m_host m_uri s' stage' x' → next x' = .callback y ec →
      Calls w.platform m_host m_uri y ec) :
    Calls w.platform m_host m_uri y ec := by
  unfold Exchange.run at hrun
  cases completion with
  | none => exact absurd hrun nofun
  | some ec' =>
      obtain ⟨t, ht⟩ := h.complete ec' received
      cases hpart : stage.firstPart w.platform w.shutdown ec' (x.receive stage received) with
      | mk x' exit =>
          obtain ⟨t', ht'⟩ := ht.enter hpart
          simp only [hpart] at hrun
          cases exit with
          | on_finish ec'' =>
              obtain ⟨rfl, rfl⟩ := Outcome.callback.inj hrun
              exact ht'.calls
          | lock =>
              obtain ⟨stage', hstage'⟩ := firstPart_lock_next hpart
              exact ht'.run hstage' hrun fun s' hs' => hnext s' stage' x' hstage' hs'
          | threw => exact absurd hrun nofun
          | loops => exact absurd hrun nofun

/-- The reads of an exchange append to the response buffer. -/
theorem exists_receive (x : HTTPRequest) (delim : Bytes) (ending : Ending) (chunks : List Bytes)
    (stage : Stage) (hreads : stage.reads = true) :
    ∃ received, x.withBuf (async_read_until delim none ending
      x.m_response.m_response_buf chunks).buf = x.receive stage received := by
  obtain ⟨received, hbuf⟩ :=
    async_read_until_buf delim none ending x.m_response.m_response_buf chunks
  exact ⟨received, by rw [hbuf, HTTPRequest.receive, if_pos hreads]⟩

/-! ### The stages of an exchange, from the last one on -/

theorem Waiting.read_body (hs : Waiting w.platform m_host m_uri s .on_response_body_received x)
    (h : w.read_body x chunks = .callback y ec) : Calls w.platform m_host m_uri y ec := by
  refine hs.run chunks.flatten h ?_
  intro _ _ _ hnext _ _
  exact absurd hnext nofun

theorem Waiting.read_headers (hs : Waiting w.platform m_host m_uri s .on_headers_received x)
    (h : w.read_headers x chunks = .callback y ec) : Calls w.platform m_host m_uri y ec := by
  obtain ⟨received, hreceive⟩ := exists_receive x (CRLF ++ CRLF) w.incoming.ending chunks
    .on_headers_received rfl
  unfold Exchange.read_headers at h
  simp only [hreceive] at h
  refine hs.run received h ?_
  intro s' stage' x' hnext hs' h'
  obtain rfl := Option.some.inj hnext
  exact hs'.read_body h'

theorem Waiting.read_status_line
    (hs : Waiting w.platform m_host m_uri s .on_status_line_received x)
    (h : w.read_status_line x chunks = .callback y ec) : Calls w.platform m_host m_uri y ec := by
  obtain ⟨received, hreceive⟩ := exists_receive x CRLF w.incoming.ending chunks
    .on_status_line_received rfl
  unfold Exchange.read_status_line at h
  simp only [hreceive] at h
  refine hs.run received h ?_
  intro s' stage' x' hnext hs' h'
  obtain rfl := Option.some.inj hnext
  exact hs'.read_headers h'

theorem Waiting.request_sent (hs : Waiting w.platform m_host m_uri s .on_request_sent x)
    (h : w.request_sent x = .callback y ec) : Calls w.platform m_host m_uri y ec := by
  refine hs.run [] h ?_
  intro s' stage' x' hnext hs' h'
  obtain rfl := Option.some.inj hnext
  exact hs'.read_status_line h'

/-- **Every exchange is a run of the machine**: what the callback of an exchange is invoked
with, a reachable state of the machine has invoked its callback with. -/
theorem Exchange.execute_calls (h : w.execute (.new m_host m_uri) = .callback y ec) :
    Calls w.platform m_host m_uri y ec := by
  obtain ⟨s, hs⟩ := running_execute w.platform m_host m_uri
  unfold Exchange.execute at h
  rw [Exchange.run_lock rfl] at h
  refine hs.run rfl h ?_
  intro s₁ hs₁ h₁
  refine hs₁.run [] h₁ ?_
  intro s₂ _ x₂ hnext hs₂ h₂
  obtain rfl := Option.some.inj hnext
  refine hs₂.run [] h₂ ?_
  intro s₃ _ x₃ hnext hs₃ h₃
  obtain rfl := Option.some.inj hnext
  exact hs₃.request_sent h₃

/-- When the callback of an exchange is invoked nothing is pending, and nothing will be: the
request has used its token. -/
theorem Exchange.execute_final (h : w.execute (.new m_host m_uri) = .callback y ec) :
    ∃ s, (machine w.platform m_host m_uri).Reachable s ∧
      s.callbacks = [⟨y.m_response, ec⟩] ∧ s.pending = [] := by
  obtain ⟨s, hr, -, hcallbacks⟩ := Exchange.execute_calls h
  refine ⟨s, hr, hcallbacks, List.length_eq_zero_iff.mp ?_⟩
  have hle := (reachable_oneToken hr).le
  have hone := Bool.toNat_le s.executed
  simp only [State.tokens, hcallbacks, List.length_singleton] at hle
  omega

end AsioStudy.HttpClient
