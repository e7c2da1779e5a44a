import AsioStudy.HttpClient.Drop

/-!
# AsioStudy.HttpClient.Safety

What holds of an `HTTPRequest` in every run, for any outcomes, any bytes and any `cancel()`
calls.

A request that has been executed is a **token**: a worker has it while it runs a stage,
then a pending operation has it, then the next worker, and in the end the invocation of the
callback. No step makes a second one (`reachable_oneToken`). `Guard` says who owns
`m_cancel_mux`, and with it that the flag a worker has tested is still clear when it starts
the next operation (`Step.clear`).
-/

namespace AsioStudy.HttpClient

variable {P : Platform} {m_host m_uri : Bytes} {s s' : State} {a : Action} {k : Worker}
  {n : Nat} {stage : Stage} {pc : Pc}

/-! ### The token -/

/-- The worker has neither started the next operation nor invoked the callback yet. -/
def Pc.working : Pc → Bool
  | .ret | .threw | .loops => false
  | _ => true

/-- The tokens a worker has. -/
def State.working (s : State) (k : Worker) : Nat :=
  match s.frame k with
  | some f => f.pc.working.toNat
  | none => 0

/-- All tokens. -/
def State.tokens (s : State) : Nat :=
  s.pending.length + s.callbacks.length + (s.working .user + s.working .io)

/-- There is at most one token, and none before `execute()` is called. -/
structure OneToken (s : State) : Prop where
  le : s.tokens ≤ s.executed.toNat
  not_executed : s.executed = false → s.frame .user = none

theorem State.working_le_busy (s : State) (k : Worker) : s.working k ≤ s.busy k := by
  unfold State.working State.busy
  cases s.frame k with
  | none => exact Nat.le_refl _
  | some f =>
      have hpc : f.pc.working.toNat ≤ f.pc.busy.toNat := by
        cases f.pc <;> simp [Pc.working, Pc.busy]
      exact hpc

/-- **A token is a continuation**, of which there is exactly one. -/
theorem reachable_oneToken (h : (machine P m_host m_uri).Reachable s) : OneToken s := by
  have hload := reachable_oneLoad h
  refine ⟨?_, hload.not_executed⟩
  have huser := s.working_le_busy .user
  have hio := s.working_le_busy .io
  rw [← hload.eq, State.tokens, State.load]
  omega

/-! ### `m_cancel_mux` -/

/-- The worker is between the lock of `m_cancel_mux` and its branch. -/
def Pc.holds : Pc → Bool
  | .test | .unlock | .start => true
  | _ => false

/-- The call is between the lock and the unlock. -/
def CancelPc.holds : CancelPc → Bool
  | .set | .cancelOps | .unlock => true
  | _ => false

/-- Who owns `m_cancel_mux`: a worker in its test or on its return from the start of an
operation, or a `cancel()` call. -/
structure Guard (s : State) : Prop where
  holds : ∀ k stage pc, s.frame k = some ⟨stage, pc⟩ → pc.holds = true →
    s.mutex .m_cancel_mux = some (.worker k)
  owner : ∀ k, s.mutex .m_cancel_mux = some (.worker k) →
    ∃ stage pc, s.frame k = some ⟨stage, pc⟩ ∧ (pc.holds = true ∨ pc = .ret)
  canceller : ∀ n, (s.cancel n).holds = true ↔ s.mutex .m_cancel_mux = some (.canceller n)

/-- A worker at a point at which it cannot own the mutex. -/
theorem Guard.not_owner (hg : Guard s) (hf : s.frame k = some ⟨stage, pc⟩)
    (hout : pc.holds = false) (hret : pc ≠ .ret) : s.mutex .m_cancel_mux ≠ some (.worker k) := by
  intro hown
  obtain ⟨stage', pc', hf', hor⟩ := hg.owner k hown
  obtain ⟨rfl, rfl⟩ := Frame.mk.inj (Option.some.inj (hf.symm.trans hf'))
  rcases hor with hh | rfl
  · exact absurd (hh.symm.trans hout) nofun
  · exact hret rfl

/-- **What a step of worker `k` has to respect**: inside the critical section it owns the
mutex, it owns it there or on its return only, and it leaves other owners alone. -/
theorem Guard.step (hg : Guard s) {f : Option Frame}
    (hframe : ∀ k', s'.frame k' = if k' = k then f else s.frame k')
    (hcancel : s'.cancel = s.cancel)
    (hothers : ∀ t, t ≠ .worker k →
      (s'.mutex .m_cancel_mux = some t ↔ s.mutex .m_cancel_mux = some t))
    (hholds : ∀ stage pc, f = some ⟨stage, pc⟩ → pc.holds = true →
      s'.mutex .m_cancel_mux = some (.worker k))
    (howner : s'.mutex .m_cancel_mux = some (.worker k) →
      ∃ stage pc, f = some ⟨stage, pc⟩ ∧ (pc.holds = true ∨ pc = .ret)) : Guard s' := by
  refine ⟨?_, ?_, ?_⟩
  · intro k' stage pc hf hh
    by_cases hk : k' = k
    · subst hk
      exact hholds stage pc (by simpa [hframe] using hf) hh
    · exact (hothers _ (by simpa using hk)).mpr
        (hg.holds k' stage pc (by simpa [hframe, hk] using hf) hh)
  · intro k' hown
    by_cases hk : k' = k
    · subst hk
      simpa [hframe] using howner hown
    · simpa [hframe, hk] using hg.owner k' ((hothers _ (by simpa using hk)).mp hown)
  · intro n
    rw [hcancel, hothers _ (by simp)]
    exact hg.canceller n

/-- A step of a worker that leaves the mutex alone. -/
theorem Guard.goto (hg : Guard s) {s₁ : State} {pc' : Pc} (hf : s.frame k = some ⟨stage, pc⟩)
    (hframe : s₁.frame = s.frame) (hmutex : s₁.mutex = s.mutex) (hcancel : s₁.cancel = s.cancel)
    (hin : pc'.holds = true → pc.holds = true)
    (hout : pc.holds = true ∨ pc = .ret → pc'.holds = true ∨ pc' = .ret) :
    Guard (s₁.goto k stage pc') := by
  refine hg.step (k := k) (f := some ⟨stage, pc'⟩) (fun k' => by simp [hframe])
    (by simpa using hcancel) (fun t _ => by simp [hmutex]) ?_ ?_
  · intro stage' pc₁ he hh
    obtain ⟨-, rfl⟩ := Frame.mk.inj (Option.some.inj he)
    simpa [hmutex] using hg.holds k stage pc hf (hin hh)
  · intro hown
    have hown' : s.mutex .m_cancel_mux = some (.worker k) := by simpa [hmutex] using hown
    obtain ⟨stage₁, pc₁, hf₁, hor⟩ := hg.owner k hown'
    obtain ⟨rfl, rfl⟩ := Frame.mk.inj (Option.some.inj (hf.symm.trans hf₁))
    exact ⟨stage, pc', rfl, hout hor⟩

theorem Exit.pc_holds (exit : Exit) : exit.pc.holds = false := by cases exit <;> rfl

theorem WorkerStep.guard (h : WorkerStep P s k s') (hg : Guard s) : Guard s' := by
  cases h with
  | @enter stage ec request exit _ hf _ =>
      exact hg.goto hf rfl rfl rfl (fun h => absurd h (by simp [Exit.pc_holds]))
        (fun h => absurd h (by simp [Pc.holds]))
  | @lock stage hf hfree =>
      refine hg.step (k := k) (f := some ⟨stage, .test⟩) (fun k' => by simp) (by simp)
        ?_ (fun _ _ _ _ => by simp) (fun _ => ⟨stage, .test, rfl, .inl rfl⟩)
      intro t ht
      have ht' : ¬ Thread.worker k = t := fun he => ht he.symm
      simp [hfree, ht']
  | cancelled hf _ => exact hg.goto hf rfl rfl rfl (fun _ => rfl) (fun _ => .inl rfl)
  | notCancelled hf _ => exact hg.goto hf rfl rfl rfl (fun _ => rfl) (fun _ => .inl rfl)
  | @unlock stage hf =>
      have hown := hg.holds k stage _ hf rfl
      refine hg.step (k := k) (f := some ⟨stage, .callback .operation_aborted⟩)
        (fun k' => by simp) (by simp) ?_ ?_
        (fun hown' => absurd hown' (by simp))
      · intro t ht
        have ht' : ¬ Thread.worker k = t := fun he => ht he.symm
        simp [hown, ht']
      · intro stage' pc' he hh
        obtain ⟨-, rfl⟩ := Frame.mk.inj (Option.some.inj he)
        exact absurd hh (by decide)
  | start hf _ => exact hg.goto hf rfl rfl rfl nofun (fun _ => .inr rfl)
  | callback hf => exact hg.goto hf rfl rfl rfl nofun (fun _ => .inr rfl)
  | ret hf =>
      refine hg.step (k := k) (f := none) (fun k' => by simp) (by simp) ?_
        (fun _ _ he => absurd he nofun) ?_
      · intro t ht
        have ht' : ¬ Thread.worker k = t := fun he => ht he.symm
        by_cases hown : s.mutex .m_cancel_mux = some (.worker k)
        · simp [hown, ht']
        · simp [hown]
      · intro hown
        by_cases hown' : s.mutex .m_cancel_mux = some (.worker k) <;> simp [hown'] at hown

/-- What a step of a `cancel()` call has to respect. -/
theorem Guard.cancelStep (hg : Guard s) (n : Nat) (pc : CancelPc) (hframe : s'.frame = s.frame)
    (hcancel : ∀ m, s'.cancel m = if m = n then pc else s.cancel m)
    (hothers : ∀ t, t ≠ .canceller n →
      (s'.mutex .m_cancel_mux = some t ↔ s.mutex .m_cancel_mux = some t))
    (hmine : pc.holds = true ↔ s'.mutex .m_cancel_mux = some (.canceller n)) : Guard s' := by
  refine ⟨?_, ?_, ?_⟩
  · intro k stage pc hf hh
    exact (hothers _ (by simp)).mpr (hg.holds k stage pc (hframe ▸ hf) hh)
  · intro k hown
    rw [hframe]
    exact hg.owner k ((hothers _ (by simp)).mp hown)
  · intro m
    by_cases hm : m = n
    · subst hm
      simpa [hcancel] using hmine
    · rw [hothers _ (by simpa using hm), hcancel, if_neg hm]
      exact hg.canceller m

theorem CancelStep.guard (h : CancelStep s n s') (hg : Guard s) : Guard s' := by
  cases h with
  | lock _ hfree =>
      refine hg.cancelStep n .set rfl (fun m => by simp) ?_
        (by simp [CancelPc.holds])
      intro t ht
      have ht' : ¬ Thread.canceller n = t := fun he => ht he.symm
      simp [hfree, ht']
  | set hpc =>
      refine hg.cancelStep n .cancelOps rfl (fun m => by simp) (fun t _ => by simp) ?_
      have hown := hg.canceller n
      simpa [hpc, CancelPc.holds] using hown
  | cancelOps hpc =>
      refine hg.cancelStep n .unlock rfl (fun m => by simp) (fun t _ => by simp) ?_
      have hown := hg.canceller n
      simpa [hpc, CancelPc.holds] using hown
  | unlock hpc =>
      have hown : s.mutex .m_cancel_mux = some (.canceller n) :=
        (hg.canceller n).mp (by rw [hpc]; rfl)
      refine hg.cancelStep n .idle rfl (fun m => by simp) ?_
        (by simp [CancelPc.holds])
      intro t ht
      have ht' : ¬ Thread.canceller n = t := fun he => ht he.symm
      simp [hown, ht']

/-- **Only the owner is in its critical section**, after every step. -/
theorem Step.guard (h : Step P s a s') (ht : OneToken s) (hg : Guard s) : Guard s' := by
  cases h with
  | execute he =>
      have hno : s.mutex .m_cancel_mux ≠ some (.worker .user) := by
        intro hown
        obtain ⟨_, _, hf, -⟩ := hg.owner .user hown
        exact absurd ((ht.not_executed he).symm.trans hf) nofun
      refine hg.step (k := .user) (f := some ⟨.execute, .lock⟩) (fun k' => by simp) (by simp)
        (fun t _ => by simp) ?_ (fun hown => absurd hown (by simpa using hno))
      intro stage pc he hh
      obtain ⟨-, rfl⟩ := Frame.mk.inj (Option.some.inj he)
      exact absurd hh (by decide)
  | worker h => exact h.guard hg
  | @complete stage ec received hmem hio =>
      have hno : s.mutex .m_cancel_mux ≠ some (.worker .io) := by
        intro hown
        obtain ⟨_, _, hf, -⟩ := hg.owner .io hown
        exact absurd (hio.symm.trans hf) nofun
      refine hg.step (k := .io) (f := some ⟨stage, .entry ec⟩) (fun k' => by simp) (by simp)
        (fun t _ => by simp) ?_ (fun hown => absurd hown (by simpa using hno))
      intro stage pc he hh
      obtain ⟨-, rfl⟩ := Frame.mk.inj (Option.some.inj he)
      exact absurd hh (by simp [Pc.holds])
  | @cancel n hpc =>
      refine hg.cancelStep n .lock rfl (fun m => by simp) (fun t _ => by simp) ?_
      have hno := hg.canceller n
      simpa [hpc, CancelPc.holds] using hno
  | canceller h => exact h.guard hg

theorem reachable_guard (h : (machine P m_host m_uri).Reachable s) : Guard s := by
  refine h.invariant (P := Guard) ⟨?_, ?_, ?_⟩ ?_
  · exact fun k stage pc hf => absurd hf nofun
  · exact fun k hown => absurd hown nofun
  · simp [machine, State.init, CancelPc.holds]
  · intro s a s' hr hi hs
    exact (step_inv hs).guard (reachable_oneToken hr) hi

/-! ### The flag -/

/-- A worker that is about to start an operation has found the flag clear, and it still
is. -/
def Clear (s : State) : Prop :=
  ∀ k stage, s.frame k = some ⟨stage, .start⟩ → s.m_was_cancelled = false

/-- A step of worker `k` that does not lead to the start of an operation. -/
theorem Clear.goto (hi : Clear s) {s₁ : State} {pc' : Pc} (hframe : s₁.frame = s.frame)
    (hw : s₁.m_was_cancelled = s.m_was_cancelled) (hpc : pc' ≠ .start) :
    Clear (s₁.goto k stage pc') := by
  intro k' stage' hf
  by_cases hk : k' = k
  · subst hk
    simp only [State.goto_frame, if_true, Option.some.injEq, Frame.mk.injEq] at hf
    exact absurd hf.2 hpc
  · simpa [hw] using hi k' stage' (by simpa [hk, hframe] using hf)

theorem Exit.pc_ne_start (exit : Exit) : exit.pc ≠ .start := by cases exit <;> exact nofun

theorem WorkerStep.clear (h : WorkerStep P s k s') (hi : Clear s) : Clear s' := by
  cases h with
  | @enter stage ec request exit _ hf _ => exact hi.goto rfl rfl exit.pc_ne_start
  | lock _ _ => exact hi.goto rfl rfl nofun
  | cancelled _ _ => exact hi.goto rfl rfl nofun
  | notCancelled _ hw => exact fun _ _ _ => by simpa using hw
  | unlock _ => exact hi.goto rfl rfl nofun
  | start _ _ => exact hi.goto rfl rfl nofun
  | callback _ => exact hi.goto rfl rfl nofun
  | ret _ =>
      intro k' stage' hf
      by_cases hk : k' = k
      · simp [hk] at hf
      · simpa using hi k' stage' (by simpa [hk] using hf)

/-- The flag is set under the mutex, which a worker at the start of an operation owns. -/
theorem CancelStep.clear (h : CancelStep s n s') (hg : Guard s) (hi : Clear s) : Clear s' := by
  cases h with
  | set hpc =>
      intro k stage hf
      have hown := (hg.canceller n).mp (by rw [hpc]; rfl)
      have hown' := hg.holds k stage .start hf rfl
      exact absurd (hown.symm.trans hown') (by simp)
  | lock _ _ => exact hi
  | cancelOps _ => exact hi
  | unlock _ => exact hi

theorem Step.clear (h : Step P s a s') (hg : Guard s) (hi : Clear s) : Clear s' := by
  cases h with
  | execute _ => exact hi.goto rfl rfl nofun
  | worker h => exact h.clear hi
  | complete _ _ => exact hi.goto rfl rfl nofun
  | cancel _ => exact hi
  | canceller h => exact h.clear hg hi

theorem reachable_clear (h : (machine P m_host m_uri).Reachable s) : Clear s := by
  refine h.invariant (P := Clear) (fun _ _ _ => rfl) ?_
  intro s a s' hr hi hs
  exact (step_inv hs).clear (reachable_guard hr) hi

/-! ### Safety -/

/-- The flag is never cleared. -/
theorem Step.m_was_cancelled (h : Step P s a s') (hw : s.m_was_cancelled = true) :
    s'.m_was_cancelled = true := by
  cases h with
  | worker h => cases h <;> simpa using hw
  | canceller h =>
      cases h with
      | set _ => simp
      | _ => simpa using hw
  | _ => simpa using hw

/-- A step that adds to the pending operations is a step of a worker at the start of
one. -/
theorem Step.pending_sublist (h : Step P s a s')
    (hno : ∀ k stage, s.frame k ≠ some ⟨stage, .start⟩) : s'.pending.Sublist s.pending := by
  cases h with
  | worker h =>
      cases h with
      | start hf _ => exact absurd hf (hno _ _)
      | _ => simp
  | complete _ _ => simpa using List.erase_sublist
  | canceller h => cases h <;> simp
  | _ => simp

/-- **What every `HTTPRequest` satisfies in every state.** -/
structure Safe (P : Platform) (s : State) : Prop where
  /-- Pending operations and callback invocations never exceed one. -/
  at_most_one : s.pending.length + s.callbacks.length ≤ 1
  /-- Once the flag is set it stays set and no operation is started. -/
  no_start : s.m_was_cancelled = true → ∀ a s', step P s a = some s' →
    s'.m_was_cancelled = true ∧ s'.pending.Sublist s.pending
  /-- A worker that invokes the callback does not own `m_cancel_mux`. -/
  unlocked : ∀ k stage ec, s.frame k = some ⟨stage, .callback ec⟩ →
    s.mutex .m_cancel_mux ≠ some (.worker k)

/-- **At most one completion and no work after cancel**, in every reachable state. -/
theorem reachable_safe (h : (machine P m_host m_uri).Reachable s) : Safe P s := by
  have hguard := reachable_guard h
  refine ⟨?_, ?_, ?_⟩
  · have hle := (reachable_oneToken h).le
    have hone := Bool.toNat_le s.executed
    simp only [State.tokens] at hle
    omega
  · intro hw a s' hs
    have hst := step_inv hs
    refine ⟨hst.m_was_cancelled hw, hst.pending_sublist fun k stage hf => ?_⟩
    exact absurd ((reachable_clear h k stage hf).symm.trans hw) nofun
  · intro k stage ec hf
    exact hguard.not_owner hf rfl nofun

/-- `execute()` starts the resolution; `cancel()` comes before its handler has tested the
flag; the handler then invokes the callback. -/
def cancelledRun : List Action :=
  [.execute, .worker .user true, .worker .user true, .worker .user true, .worker .user true,
    .complete .on_host_name_resolved .success [], .worker .io true,
    .cancel 0, .canceller 0, .canceller 0, .canceller 0, .canceller 0,
    .worker .io true, .worker .io true, .worker .io true]

theorem reachable_safe_cancelled :
    ∃ s, (machine .llp64 (bytes "h") (bytes "/")).exec (.init (bytes "h") (bytes "/"))
        cancelledRun = some s ∧
      s.frame .io = some ⟨.on_host_name_resolved, .callback .operation_aborted⟩ ∧
      Safe .llp64 s := by
  have hrun : ((machine .llp64 (bytes "h") (bytes "/")).exec (.init (bytes "h") (bytes "/"))
      cancelledRun).map (·.frame .io) =
        some (some ⟨.on_host_name_resolved, .callback .operation_aborted⟩) := by decide
  obtain ⟨s, hs, hf⟩ := Option.map_eq_some_iff.mp hrun
  exact ⟨s, hs, hf, reachable_safe (TransitionSystem.reachable_of_exec hs)⟩

end AsioStudy.HttpClient
