import AsioStudy.HttpClient.Safety

/-!
# AsioStudy.HttpClient.Cancel

What a request on which `cancel()` has returned can still report.

Every stage but the last tests `m_was_cancelled` before it starts its operation, so after
`cancel()` no operation is started any more and none of these stages reports success.
`on_response_body_received` does not test the flag: it reports what its operation has
returned. A cancelled request can therefore report success exactly when the read of the
body is already under way at that moment (`BodyUnderWay`).
-/

namespace AsioStudy.HttpClient

variable {P : Platform} {m_host m_uri : Bytes} {s s' s₀ s₁ : State} {a : Action} {k : Worker}
  {n : Nat} {stage : Stage} {pc : Pc} {ec : ErrorCode}

/-- `on_finish` has started. -/
def State.Finishing (s : State) : Prop :=
  s.callbacks ≠ [] ∨ ∃ k stage ec, s.frame k = some ⟨stage, .callback ec⟩

/-- `on_finish` has not been called with success. -/
structure NoSuccess (s : State) : Prop where
  reporting : ∀ k stage ec, s.frame k = some ⟨stage, .callback ec⟩ → ec.value ≠ 0
  reported : ∀ c ∈ s.callbacks, c.ec.value ≠ 0

/-- The next step of this worker is that of `on_response_body_received` after a read that
did not fail. -/
def Frame.endsBody : Frame → Bool
  | ⟨.on_response_body_received, .entry ec⟩ => ec = .eof ∨ ec.value = 0
  | _ => false

/-- `on_response_body_received` does not run after a read that did not fail. -/
def BodyFails (s : State) : Action → Prop
  | .worker k _ => ∀ f ∈ s.frame k, f.endsBody = false
  | _ => True

/-- The read of the body is pending, or it did not fail and its handler is about to report
that. -/
def BodyUnderWay (s : State) : Prop :=
  .on_response_body_received ∈ s.pending ∨ ∃ k, ∃ f ∈ s.frame k, f.endsBody = true

/-! ### Where success comes from -/

/-- A first part calls `on_finish` with success only at the end of the body. -/
theorem endsBody_of_on_finish {shutdown : Bool} {x y : HTTPRequest} {ec' : ErrorCode}
    (h : stage.firstPart P shutdown ec x = (y, .on_finish ec')) (hok : ec'.value = 0) :
    Frame.endsBody ⟨stage, .entry ec⟩ = true := by
  by_cases hstage : stage = .on_response_body_received
  · subst hstage
    simp only [Stage.firstPart, on_response_body_received] at h
    split at h
    · next he => simp [Frame.endsBody, he]
    · obtain ⟨-, he⟩ := Prod.mk.inj h
      obtain rfl := Exit.on_finish.inj he
      simp [Frame.endsBody, hok]
  · exact absurd hok (firstPart_on_finish h hstage)

/-- At the end of the body it does. -/
theorem on_finish_of_endsBody {f : Frame} (h : f.endsBody = true) (shutdown : Bool)
    (x : HTTPRequest) :
    ∃ ec ec', f = ⟨.on_response_body_received, .entry ec⟩ ∧ ec'.value = 0 ∧
      Stage.on_response_body_received.firstPart P shutdown ec x = (x, .on_finish ec') := by
  obtain ⟨stage, pc⟩ := f
  cases stage <;> cases pc <;> simp only [Frame.endsBody, Bool.false_eq_true] at h
  next ec =>
    simp only [decide_eq_true_eq] at h
    by_cases he : ec = .eof
    · exact ⟨ec, .success, rfl, rfl, by simp [Stage.firstPart, on_response_body_received, he]⟩
    · exact ⟨ec, ec, rfl, h.resolve_left he, by
        simp [Stage.firstPart, on_response_body_received, he]⟩

theorem NoSuccess.goto (hi : NoSuccess s) {s₁ : State} {pc' : Pc}
    (hframe : s₁.frame = s.frame) (hcallbacks : s₁.callbacks = s.callbacks)
    (hpc : ∀ ec, pc' = .callback ec → ec.value ≠ 0) : NoSuccess (s₁.goto k stage pc') := by
  refine ⟨?_, by simpa [hcallbacks] using hi.reported⟩
  intro k' stage' ec hf
  by_cases hk : k' = k
  · subst hk
    simp only [State.goto_frame, if_true, Option.some.injEq, Frame.mk.injEq] at hf
    exact hpc ec hf.2
  · exact hi.reporting k' stage' ec (by simpa [hk, hframe] using hf)

theorem Exit.eq_on_finish {exit : Exit} (h : exit.pc = .callback ec) : exit = .on_finish ec := by
  cases exit <;> simp_all [Exit.pc]

/-- **Success is reported by the body stage only.** -/
theorem Step.noSuccess (h : Step P s a s') (hok : BodyFails s a) (hi : NoSuccess s) :
    NoSuccess s' := by
  cases h with
  | execute _ => exact hi.goto rfl rfl (by simp)
  | @worker k shutdown _ hw =>
      cases hw with
      | @enter stage ec request exit _ hf hpart =>
          refine hi.goto rfl rfl ?_
          intro ec' hpc hzero
          rw [Exit.eq_on_finish hpc] at hpart
          exact absurd (hok _ hf) (by simp [endsBody_of_on_finish hpart hzero])
      | lock _ _ => exact hi.goto rfl rfl (by simp)
      | cancelled _ _ => exact hi.goto rfl rfl (by simp)
      | notCancelled _ _ => exact hi.goto rfl rfl (by simp)
      | unlock _ =>
          refine hi.goto rfl rfl ?_
          rintro ec' ⟨⟩
          simp
      | start _ _ => exact hi.goto rfl rfl (by simp)
      | @callback stage ec hf =>
          refine ⟨?_, ?_⟩
          · intro k' stage' ec' hf'
            by_cases hk : k' = k
            · subst hk
              simp at hf'
            · exact hi.reporting k' stage' ec' (by simpa [hk] using hf')
          · intro c hc
            simp only [State.goto_fields, State.invokeCallback_fields, List.mem_append,
              List.mem_singleton] at hc
            rcases hc with hc | rfl
            · exact hi.reported c hc
            · exact hi.reporting k stage ec hf
      | ret _ =>
          refine ⟨?_, by simpa using hi.reported⟩
          intro k' stage' ec' hf'
          by_cases hk : k' = k
          · simp [hk] at hf'
          · exact hi.reporting k' stage' ec' (by simpa [hk] using hf')
  | complete _ _ => exact hi.goto rfl rfl (by simp)
  | cancel _ => exact ⟨hi.reporting, hi.reported⟩
  | canceller h => cases h <;> exact ⟨hi.reporting, hi.reported⟩

/-- **At the end of the body success is reported**, cancelled or not. -/
theorem success_of_endsBody (hs : step P s a = some s') (hbad : ¬ BodyFails s a) :
    ¬ NoSuccess s' := by
  cases a with
  | worker k shutdown =>
      simp only [BodyFails, not_forall, Bool.not_eq_false] at hbad
      obtain ⟨f, hf, hends⟩ := hbad
      obtain ⟨ec, ec', rfl, hzero, hpart⟩ := on_finish_of_endsBody (P := P) hends shutdown s.request
      simp only [step, Option.mem_def.mp hf, Option.bind_some, stepFrame, hpart,
        Option.some.injEq] at hs
      intro hno
      exact hno.reporting k .on_response_body_received ec' (by simp [← hs, Exit.pc]) hzero
  | execute => exact absurd trivial hbad
  | complete _ _ _ => exact absurd trivial hbad
  | cancel _ => exact absurd trivial hbad
  | canceller _ => exact absurd trivial hbad

/-! ### After `cancel()` -/

theorem Frame.of_endsBody (h : Frame.endsBody ⟨stage, pc⟩ = true) :
    stage = .on_response_body_received ∧ ∃ ec, pc = .entry ec := by
  cases stage <;> cases pc <;> simp_all [Frame.endsBody]

/-- The read of the body comes to be under way only through a worker that starts it. -/
theorem Step.bodyUnderWay (h : Step P s a s')
    (hno : ∀ k stage, s.frame k ≠ some ⟨stage, .start⟩) (hb : BodyUnderWay s') :
    BodyUnderWay s := by
  rcases hb with hmem | ⟨k, ⟨stage, pc⟩, hf, hends⟩
  · exact .inl ((h.pending_sublist hno).subset hmem)
  · obtain ⟨rfl, ec, rfl⟩ := Frame.of_endsBody hends
    by_cases hold : s.frame k = some ⟨.on_response_body_received, .entry ec⟩
    · exact .inr ⟨k, _, hold, hends⟩
    refine .inl ?_
    cases h with
    | execute _ =>
        by_cases hk : k = .user <;> simp_all
    | @worker k' _ _ hw =>
        by_cases hk : k = k'
        · subst hk
          cases hw with
          | @enter _ _ _ exit _ _ _ => cases exit <;> simp_all [Exit.pc]
          | _ => simp_all
        · cases hw <;> simp_all
    | @complete stage' _ _ hmem _ =>
        by_cases hk : k = .io
        · subst hk
          simp only [State.goto_frame, if_true, Option.mem_def, Option.some.injEq,
            Frame.mk.injEq] at hf
          rw [← hf.1]
          exact hmem
        · simp_all
    | cancel _ => exact absurd hf hold
    | canceller h => cases h <;> exact absurd hf hold

/-- A call that is past its assignment has set the flag. -/
theorem reachable_cancelling (h : (machine P m_host m_uri).Reachable s) :
    ∀ n, s.cancel n = .cancelOps ∨ s.cancel n = .unlock → s.m_was_cancelled = true := by
  refine h.invariant (P := fun s => ∀ n, s.cancel n = .cancelOps ∨ s.cancel n = .unlock →
    s.m_was_cancelled = true) ?_ ?_
  · simp [machine, State.init]
  · intro s a s' _ hi hs n hn
    have hst := step_inv hs
    by_cases hold : s.cancel n = .cancelOps ∨ s.cancel n = .unlock
    · exact hst.m_was_cancelled (hi n hold)
    · cases hst with
      | worker hw => exact absurd hn (by cases hw <;> simpa using hold)
      | @cancel m _ =>
          by_cases hm : n = m
          · simp [hm] at hn
          · exact absurd (by simpa [hm] using hn) hold
      | @canceller m _ hc =>
          by_cases hm : n = m
          · subst hm
            cases hc <;> simp_all
          · exact absurd hn (by cases hc <;> simpa [hm] using hold)
      | _ => exact absurd hn (by simpa using hold)

/-- A cancelled request that can no longer report success. -/
structure Stopped (s : State) : Prop where
  cancelled : s.m_was_cancelled = true
  body : ¬ BodyUnderWay s
  noSuccess : NoSuccess s

theorem bodyFails_of_not_underWay (h : ¬ BodyUnderWay s) (a : Action) : BodyFails s a := by
  cases a with
  | worker k shutdown =>
      intro f hf
      by_contra hends
      exact h (.inr ⟨k, f, hf, by simpa using hends⟩)
  | execute => trivial
  | complete _ _ _ => trivial
  | cancel _ => trivial
  | canceller _ => trivial

theorem Step.stays_stopped (h : Step P s a s') (hclear : Clear s) (hi : Stopped s) :
    Stopped s' := by
  have hno : ∀ k stage, s.frame k ≠ some ⟨stage, .start⟩ := by
    intro k stage hf
    exact absurd ((hclear k stage hf).symm.trans hi.cancelled) nofun
  exact ⟨h.m_was_cancelled hi.cancelled, fun hb => hi.body (h.bodyUnderWay hno hb),
    h.noSuccess (bodyFails_of_not_underWay hi.body a) hi.noSuccess⟩

/-- While an operation is pending, the thread of the client is on its way out of a handler
at most, and can leave it. -/
theorem exists_idle (hr : (machine P m_host m_uri).Reachable s) (hmem : stage ∈ s.pending) :
    ∃ s', ((machine P m_host m_uri).after s).Reachable s' ∧ s'.frame .io = none ∧
      stage ∈ s'.pending := by
  have hone := reachable_oneLoad hr
  have hpos := List.length_pos_of_mem hmem
  have hle := Bool.toNat_le s.executed
  have hbusy : s.busy .io = 0 := by
    have heq := hone.eq
    simp only [State.load] at heq
    omega
  cases hf : s.frame .io with
  | none => exact ⟨s, .init, hf, hmem⟩
  | some f =>
      obtain ⟨stage', pc⟩ := f
      obtain rfl : pc = .ret := by
        rw [State.busy_of_frame hf] at hbusy
        cases pc <;> simp_all [Pc.busy]
      refine ⟨(s.release (.worker .io)).setFrame .io none, ?_, by simp, by simpa using hmem⟩
      refine TransitionSystem.after_init.after_step (a := .worker .io true) trivial ?_
      simp [machine, step, hf, stepFrame]

variable (P m_host m_uri) in
theorem exists_success_of_frame {f : Frame} (hf : s.frame k = some f) (hends : f.endsBody = true) :
    ∃ s', (machine P m_host m_uri).step s (.worker k true) = some s' ∧ ¬ NoSuccess s' := by
  obtain ⟨ec, ec', rfl, -, hpart⟩ := on_finish_of_endsBody (P := P) hends true s.request
  have hs : step P s (.worker k true) =
      some (s.goto k .on_response_body_received (.callback ec')) := by
    simp [step, hf, stepFrame, hpart, Exit.pc]
  refine ⟨_, hs, success_of_endsBody hs ?_⟩
  intro hfails
  exact absurd (hfails _ hf) (by simp [hends])

/-- **A read of the body that is under way can still end in success.** -/
theorem exists_success (hr : (machine P m_host m_uri).Reachable s) (hb : BodyUnderWay s) :
    ∃ s', ((machine P m_host m_uri).after s).Reachable s' ∧ ¬ NoSuccess s' := by
  rcases hb with hmem | ⟨k, f, hf, hends⟩
  · obtain ⟨t, ht, hidle, hmem⟩ := exists_idle hr hmem
    have hcomplete : (machine P m_host m_uri).step t
        (.complete .on_response_body_received .eof []) =
        some ({ t with
          pending := t.pending.erase .on_response_body_received
          request := t.request.receive .on_response_body_received [] }.goto .io
            .on_response_body_received (.entry .eof)) := by
      simp [machine, step, hmem, hidle]
    obtain ⟨s', hs', hno⟩ := exists_success_of_frame P m_host m_uri
      (State.goto_frame .. |>.trans (if_pos rfl)) (by decide : Frame.endsBody
        ⟨.on_response_body_received, .entry .eof⟩ = true)
    exact ⟨s', (ht.after_step trivial hcomplete).after_step trivial hs', hno⟩
  · obtain ⟨s', hs', hno⟩ := exists_success_of_frame P m_host m_uri hf hends
    exact ⟨s', TransitionSystem.after_init.after_step trivial hs', hno⟩

/-! ### A cancelled request -/

/-- **When `cancel()` has returned before `on_finish` has started, the request can report
success only if the read of the body is under way**, and then it does so exactly when that
read does not fail. -/
theorem cancelled_noSuccess_iff (hr : (machine P m_host m_uri).Reachable s₀)
    (hpc : s₀.cancel n = .unlock) (hs : step P s₀ (.canceller n) = some s₁)
    (hbefore : ¬ s₁.Finishing) :
    ((∀ s, ((machine P m_host m_uri).after s₁).Reachable s → NoSuccess s) ↔
      ¬ BodyUnderWay s₁) ∧
    ∀ s, ((machine P m_host m_uri).after s₁).ReachableUnder BodyFails s →
      NoSuccess s ∧ ∀ a s', step P s a = some s' → (NoSuccess s' ↔ BodyFails s a) := by
  have hr₁ : (machine P m_host m_uri).Reachable s₁ :=
    hr.step (a := .canceller n) hs
  have hflag : s₁.m_was_cancelled = true :=
    (step_inv hs).m_was_cancelled (reachable_cancelling hr n (.inr hpc))
  have hno₁ : NoSuccess s₁ := by
    simp only [State.Finishing, not_or, not_not, not_exists] at hbefore
    refine ⟨fun k stage ec hf => absurd hf (hbefore.2 k stage ec), ?_⟩
    simp [hbefore.1]
  refine ⟨⟨?_, ?_⟩, ?_⟩
  · intro hall hb
    obtain ⟨s, hs, hsuccess⟩ := exists_success hr₁ hb
    exact hsuccess (hall s hs)
  · intro hb s h
    have hstopped : Stopped s := hr₁.invariant_after ⟨hflag, hb, hno₁⟩
      (fun hr hi _ hs => (step_inv hs).stays_stopped (reachable_clear hr) hi) h
    exact hstopped.noSuccess
  · intro s h
    have hno : NoSuccess s := hr₁.invariant_after hno₁
      (fun _ hi hok hs => (step_inv hs).noSuccess hok hi) h
    refine ⟨hno, fun a s' hs => ⟨fun hno' => ?_, fun hok => (step_inv hs).noSuccess hok hno⟩⟩
    by_contra hbad
    exact success_of_endsBody hs hbad hno'

/-- The call of `cancel()` up to its return. -/
def cancelSteps : List Action := [.cancel 0, .canceller 0, .canceller 0, .canceller 0]

/-- `cancel()` comes while the host name is being resolved. -/
theorem cancelled_noSuccess_iff_resolving :
    ∃ s₀ s₁, (machine .llp64 (bytes "h") (bytes "/")).exec (.init (bytes "h") (bytes "/"))
        (.execute :: startSteps .user ++ cancelSteps) = some s₀ ∧
      step .llp64 s₀ (.canceller 0) = some s₁ ∧
      ∀ s, ((machine .llp64 (bytes "h") (bytes "/")).after s₁).Reachable s → NoSuccess s := by
  have hrun : ((machine .llp64 (bytes "h") (bytes "/")).exec (.init (bytes "h") (bytes "/"))
      (.execute :: startSteps .user ++ cancelSteps)).map
        (fun s => (s.cancel 0, s.frame .user, s.frame .io, s.callbacks.length, s.pending)) =
      some (.unlock, none, none, 0, [.on_host_name_resolved]) := by decide
  obtain ⟨s₀, hs₀, he⟩ := Option.map_eq_some_iff.mp hrun
  simp only [Prod.mk.injEq, List.length_eq_zero_iff] at he
  obtain ⟨hpc, huser, hio, hcallbacks, hpending⟩ := he
  have hs : step .llp64 s₀ (.canceller 0) = some (s₀.unlock.setCancel 0 .idle) := by
    simp [step, stepCancel, hpc]
  have hframe : ∀ k, s₀.frame k = none := by
    intro k
    cases k <;> assumption
  have hbefore : ¬ (s₀.unlock.setCancel 0 .idle).Finishing := by
    simp [State.Finishing, hcallbacks, hframe]
  have hbody : ¬ BodyUnderWay (s₀.unlock.setCancel 0 .idle) := by
    simp [BodyUnderWay, hpending, hframe]
  exact ⟨s₀, _, hs₀, hs, (cancelled_noSuccess_iff (TransitionSystem.reachable_of_exec hs₀) hpc hs
    hbefore).1.mpr hbody⟩

/-- The response has arrived and the server has closed the connection; `cancel()` comes
between the invocation of `on_response_body_received` and its first step. -/
def receivedRun : List Action :=
  sentRun ++ .worker .io true :: startSteps .io ++
    [.complete .on_status_line_received .success (bytes "HTTP/1.1 200 OK\r\na:b\r\n\r\n"),
      .worker .io true] ++ startSteps .io ++ completeSteps .on_headers_received ++
    .complete .on_response_body_received .eof [] :: cancelSteps

theorem not_noSuccess_received :
    ¬ ∀ P m_host m_uri n s₀ s₁ s, (machine P m_host m_uri).Reachable s₀ →
      s₀.cancel n = .unlock → step P s₀ (.canceller n) = some s₁ → ¬ s₁.Finishing →
      ((machine P m_host m_uri).after s₁).Reachable s → ∀ c ∈ s.callbacks, c.ec.value ≠ 0 := by
  intro hall
  have hrun : ((machine .llp64 (bytes "h") (bytes "/")).exec (.init (bytes "h") (bytes "/"))
      receivedRun).map (fun s => (s.cancel 0, s.frame .user, s.frame .io, s.callbacks.length)) =
      some (.unlock, none, some ⟨.on_response_body_received, .entry .eof⟩, 0) := by decide
  obtain ⟨s₀, hs₀, he⟩ := Option.map_eq_some_iff.mp hrun
  simp only [Prod.mk.injEq, List.length_eq_zero_iff] at he
  obtain ⟨hpc, huser, hio, hcallbacks⟩ := he
  have hs : step .llp64 s₀ (.canceller 0) = some (s₀.unlock.setCancel 0 .idle) := by
    simp [step, stepCancel, hpc]
  have hbefore : ¬ (s₀.unlock.setCancel 0 .idle).Finishing := by
    rintro (hne | ⟨k, stage, ec, hf⟩)
    · exact hne hcallbacks
    · cases k <;> simp [huser, hio] at hf
  have hrest : ((machine .llp64 (bytes "h") (bytes "/")).exec (.init (bytes "h") (bytes "/"))
      (receivedRun ++ .canceller 0 :: [.worker .io true, .worker .io true])).map
        (fun s => s.callbacks.map (·.ec)) = some [.success] := by decide
  obtain ⟨s, hs', hsuccess⟩ := Option.map_eq_some_iff.mp hrest
  obtain ⟨t, t', ht, hst, ht'⟩ := TransitionSystem.exec_split hs'
  obtain rfl : t = s₀ := Option.some.inj (ht.symm.trans hs₀)
  obtain rfl : t' = t.unlock.setCancel 0 .idle := Option.some.inj (hst.symm.trans hs)
  obtain ⟨c, hc, hec⟩ : ∃ c ∈ s.callbacks, c.ec = .success := by
    have hmem : ErrorCode.success ∈ s.callbacks.map (·.ec) := by simp [hsuccess]
    exact List.mem_map.mp hmem
  exact hall .llp64 (bytes "h") (bytes "/") 0 t _ s (TransitionSystem.reachable_of_exec hs₀) hpc hs
    hbefore (TransitionSystem.reachable_after_of_exec ht') c hc (by rw [hec]; rfl)

end AsioStudy.HttpClient
