import AsioStudy.HttpClient.Exchange
import AsioStudy.HttpClient.Machine

/-!
# AsioStudy.HttpClient.Drop

Whether a request can be dropped: whether an exception can leave a handler, or a handler
return with neither an operation started nor the callback invoked.

Every stage is brought to its return by exactly one of the two (`Step.oneLoad`), so the only
way out is an exception. The one call of a handler that throws is `m_sock.shutdown` in
`on_request_sent`; `ShutdownSucceeds` is the condition on the steps that it does not.
-/

namespace AsioStudy.HttpClient

variable {P : Platform} {m_host m_uri : Bytes} {s s' : State} {a : Action} {k : Worker}
  {n : Nat} {stage : Stage} {pc : Pc}

/-- No exception has left a handler, and between handlers a request on which `execute()`
was called has been reported or has an operation pending. -/
structure Kept (s : State) : Prop where
  no_exception : ∀ k stage, s.frame k ≠ some ⟨stage, .threw⟩
  reported_or_pending : s.executed = true → (∀ k, s.frame k = none) →
    s.callbacks ≠ [] ∨ s.pending ≠ []

/-- The next step of this worker calls `m_sock.shutdown(shutdown_send)`. -/
def Frame.callsShutdown : Frame → Bool
  | ⟨.on_request_sent, .entry ec⟩ => ec.value = 0
  | _ => false

/-- No `m_sock.shutdown(shutdown_send)` fails in this step. -/
def ShutdownSucceeds (s : State) : Action → Prop
  | .worker k false => ∀ f ∈ s.frame k, f.callsShutdown = false
  | _ => True

instance (s : State) (a : Action) : Decidable (ShutdownSucceeds s a) :=
  match a with
  | .worker k false => inferInstanceAs (Decidable (∀ f ∈ s.frame k, f.callsShutdown = false))
  | .worker _ true | .execute | .complete .. | .cancel _ | .canceller _ => isTrue trivial

/-! ### Exactly one continuation -/

/-- The worker has not been brought to its return. -/
def Pc.busy : Pc → Bool
  | .ret => false
  | _ => true

def State.busy (s : State) (k : Worker) : Nat :=
  match s.frame k with
  | some f => f.pc.busy.toNat
  | none => 0

/-- What keeps the request going, and its reports. -/
def State.load (s : State) : Nat :=
  s.pending.length + s.callbacks.length + (s.busy .user + s.busy .io)

/-- An executed request has exactly one of them. -/
structure OneLoad (s : State) : Prop where
  eq : s.load = s.executed.toNat
  not_executed : s.executed = false → s.frame .user = none

theorem State.busy_of_frame (h : s.frame k = some ⟨stage, pc⟩) : s.busy k = pc.busy.toNat := by
  simp [State.busy, h]

@[simp] theorem State.busy_goto (s : State) (k k' : Worker) (stage : Stage) (pc : Pc) :
    (s.goto k stage pc).busy k' = if k' = k then pc.busy.toNat else s.busy k' := by
  by_cases hk : k' = k <;> simp [State.busy, hk]

@[simp] theorem State.busy_setFrame_none (s : State) (k k' : Worker) :
    (s.setFrame k none).busy k' = if k' = k then 0 else s.busy k' := by
  by_cases hk : k' = k <;> simp [State.busy, hk]

theorem State.busy_congr (h : s'.frame = s.frame) (k : Worker) : s'.busy k = s.busy k := by
  simp only [State.busy, h]

/-- A worker that moves on within its stage. -/
theorem load_goto (h : s.frame k = some ⟨stage, pc⟩) (hpc : pc.busy = true) (pc' : Pc)
    (hpc' : pc'.busy = true) {s₁ : State} (hframe : s₁.frame = s.frame)
    (hpending : s₁.pending = s.pending) (hcallbacks : s₁.callbacks = s.callbacks) :
    (s₁.goto k stage pc').load = s.load := by
  have hk := State.busy_of_frame h
  cases k <;> simp [State.load, hpending, hcallbacks, State.busy_congr hframe, hpc, hpc', hk]

theorem Exit.pc_busy (exit : Exit) : exit.pc.busy = true := by cases exit <;> rfl

theorem Exit.eq_threw {exit : Exit} (h : exit.pc = .threw) : exit = .threw := by
  cases exit <;> simp_all [Exit.pc]

theorem WorkerStep.load (h : WorkerStep P s k s') : s'.load = s.load := by
  cases h with
  | enter hf _ => exact load_goto hf rfl _ (Exit.pc_busy _) rfl rfl rfl
  | lock hf _ => exact load_goto hf rfl _ rfl rfl rfl rfl
  | cancelled hf _ => exact load_goto hf rfl _ rfl rfl rfl rfl
  | notCancelled hf _ => exact load_goto hf rfl _ rfl rfl rfl rfl
  | unlock hf => exact load_goto hf rfl _ rfl rfl rfl rfl
  | @start stage stage' hf _ =>
      -- the operation takes over from the worker
      have hk : s.busy k = 1 := State.busy_of_frame hf
      have hsame : ∀ k', (s.startOp stage').busy k' = s.busy k' := State.busy_congr rfl
      cases k <;> simp [State.load, hsame, Pc.busy, hk] <;> omega
  | @callback stage ec hf =>
      have hk : s.busy k = 1 := State.busy_of_frame hf
      have hsame : ∀ k', (s.invokeCallback ec).busy k' = s.busy k' := State.busy_congr rfl
      cases k <;> simp [State.load, hsame, Pc.busy, hk] <;> omega
  | @ret stage hf =>
      have hk : s.busy k = 0 := State.busy_of_frame hf
      have hsame : ∀ k', (s.release (.worker k)).busy k' = s.busy k' := State.busy_congr rfl
      cases k <;> simp [State.load, hsame, hk]

/-- **No step adds or loses a continuation**, except for `execute()`, which makes the
first. -/
theorem Step.oneLoad (h : Step P s a s') (hi : OneLoad s) : OneLoad s' := by
  obtain ⟨heq, hnot⟩ := hi
  cases h with
  | execute he =>
      refine ⟨?_, fun h => absurd h (by simp)⟩
      have huser : s.busy .user = 0 := by simp [State.busy, hnot he]
      have hsame : ∀ k, State.busy { s with executed := true } k = s.busy k := fun _ => rfl
      rw [he, Bool.toNat_false] at heq
      simp only [State.load, huser] at heq
      simp [State.load, hsame, Pc.busy]
      omega
  | @worker k _ _ h =>
      have hex : s'.executed = s.executed := by cases h <;> simp
      refine ⟨by rw [h.load, hex]; exact heq, ?_⟩
      intro he
      have huser := hnot (hex ▸ he)
      cases k <;> cases h <;> simp_all
  | @complete stage ec received hmem hio =>
      refine ⟨?_, fun he => by simpa using hnot he⟩
      have hlen := List.length_erase_of_mem hmem
      have hpos := List.length_pos_of_mem hmem
      have hidle : s.busy .io = 0 := by simp [State.busy, hio]
      have hsame : ∀ k, State.busy
          { s with
            pending := s.pending.erase stage
            request := s.request.receive stage received } k = s.busy k := fun _ => rfl
      simp only [State.load, hidle] at heq
      simp [State.load, hlen, hsame, Pc.busy]
      omega
  | cancel _ => exact ⟨heq, hnot⟩
  | canceller h =>
      have hload : s'.load = s.load := by cases h <;> rfl
      have hex : s'.executed = s.executed := by cases h <;> rfl
      have hframe : s'.frame = s.frame := by cases h <;> rfl
      exact ⟨by rw [hload, hex]; exact heq, fun he => hframe ▸ hnot (hex ▸ he)⟩

theorem reachable_oneLoad (h : (machine P m_host m_uri).Reachable s) : OneLoad s := by
  refine h.invariant (P := OneLoad) ⟨rfl, fun _ => rfl⟩ ?_
  intro s a s' _ hi hs
  exact (step_inv hs).oneLoad hi

/-! ### The throwing call -/

/-- The only first part that throws is that of `on_request_sent`. -/
theorem firstPart_threw {shutdown : Bool} {ec : ErrorCode} {x y : HTTPRequest} :
    stage.firstPart P shutdown ec x = (y, .threw) →
      Frame.callsShutdown ⟨stage, .entry ec⟩ = true ∧ shutdown = false := by
  cases stage with
  | execute => simp [Stage.firstPart]
  | on_host_name_resolved =>
      simp only [Stage.firstPart, on_host_name_resolved]
      split <;> simp
  | on_connection_established =>
      simp only [Stage.firstPart, on_connection_established]
      split <;> simp
  | on_request_sent =>
      simp only [Stage.firstPart, on_request_sent]
      split
      · simp
      · split <;> simp_all [Frame.callsShutdown]
  | on_status_line_received =>
      simp only [Stage.firstPart, on_status_line_received]
      split
      · simp
      · split
        · simp
        · split <;> simp
  | on_headers_received =>
      simp only [Stage.firstPart, on_headers_received]
      split
      · simp
      · split <;> simp
  | on_response_body_received =>
      simp only [Stage.firstPart, on_response_body_received]
      split <;> simp

/-- A step after which a worker has thrown is one in which `shutdown` has failed. -/
theorem not_shutdownSucceeds_of_threw (hs : step P s a = some s')
    (hnot : s.frame k ≠ some ⟨stage, .threw⟩) (hf : s'.frame k = some ⟨stage, .threw⟩) :
    ¬ ShutdownSucceeds s a := by
  intro hok
  have hstep := step_inv hs
  cases hstep with
  | execute _ =>
      by_cases hk : k = .user
      · simp [hk] at hf
      · exact hnot (by simpa [hk] using hf)
  | @worker k' shutdown _ hw =>
      by_cases hk : k = k'
      · subst hk
        cases hw with
        | @enter _ ec request exit _ hf₀ hpart =>
            -- the step once more, this time with the outcome of `shutdown` it was given
            simp only [step, hf₀, Option.bind_some, stepFrame, Option.some.injEq] at hs
            rw [← hs] at hf
            simp only [State.goto_frame, if_true, Option.some.injEq, Frame.mk.injEq] at hf
            obtain ⟨rfl, hpc⟩ := hf
            obtain ⟨hcalls, rfl⟩ := firstPart_threw (Prod.ext rfl (Exit.eq_threw hpc))
            exact absurd (hok _ hf₀) (by simp [hcalls])
        | _ => simp_all
      · refine hnot ?_
        cases hw <;> simpa [hk] using hf
  | @complete stage' ec received _ _ =>
      by_cases hk : k = .io
      · simp [hk] at hf
      · exact hnot (by simpa [hk] using hf)
  | cancel _ => exact hnot hf
  | canceller h => exact hnot (by cases h <;> exact hf)

/-- **A failing `shutdown` throws.** -/
theorem threw_of_not_shutdownSucceeds (hs : step P s a = some s')
    (hbad : ¬ ShutdownSucceeds s a) : ∃ k, s'.frame k = some ⟨.on_request_sent, .threw⟩ := by
  cases a with
  | worker k shutdown =>
      cases shutdown with
      | true => exact absurd trivial hbad
      | false =>
          simp only [ShutdownSucceeds, not_forall, Bool.not_eq_false] at hbad
          obtain ⟨⟨stage, pc⟩, hf, hcalls⟩ := hbad
          cases stage <;> cases pc <;> simp only [Frame.callsShutdown, Bool.false_eq_true,
            decide_eq_true_eq] at hcalls
          simp only [step, Option.mem_def.mp hf, Option.bind_some, stepFrame, Stage.firstPart,
            on_request_sent, hcalls, ne_eq, not_true_eq_false, if_false, Option.some.injEq] at hs
          exact ⟨k, by simp [← hs, Exit.pc]⟩
  | execute => exact absurd trivial hbad
  | complete _ _ _ => exact absurd trivial hbad
  | cancel _ => exact absurd trivial hbad
  | canceller _ => exact absurd trivial hbad

theorem ReachableUnder.no_exception
    (h : (machine P m_host m_uri).ReachableUnder ShutdownSucceeds s) :
    ∀ k stage, s.frame k ≠ some ⟨stage, .threw⟩ := by
  refine h.invariant (P := fun s => ∀ k stage, s.frame k ≠ some ⟨stage, .threw⟩) ?_ ?_
  · intro k stage
    simp [machine, State.init]
  · intro s a s' _ hi hok hs k stage hf
    exact not_shutdownSucceeds_of_threw hs (hi k stage) hf hok

/-! ### No request is dropped -/

/-- Without an exception every reachable state is as it should be. -/
theorem kept_of_no_exception (hr : (machine P m_host m_uri).Reachable s)
    (hno : ∀ k stage, s.frame k ≠ some ⟨stage, .threw⟩) : Kept s := by
  refine ⟨hno, fun he hidle => ?_⟩
  have heq := (reachable_oneLoad hr).eq
  simp only [State.load, State.busy, hidle, he, Bool.toNat_true] at heq
  by_contra hlost
  rw [not_or, not_not, not_not] at hlost
  simp [hlost.1, hlost.2] at heq

/-- **No request is dropped as long as `shutdown` succeeds**, whatever else fails; and the
first `shutdown` that fails drops it. -/
theorem kept_iff_shutdownSucceeds
    (h : (machine P m_host m_uri).ReachableUnder ShutdownSucceeds s) :
    Kept s ∧ ∀ a s', step P s a = some s' → (Kept s' ↔ ShutdownSucceeds s a) := by
  refine ⟨kept_of_no_exception h.reachable (ReachableUnder.no_exception h), ?_⟩
  intro a s' hs
  constructor
  · intro hk
    by_contra hbad
    obtain ⟨k, hf⟩ := threw_of_not_shutdownSucceeds hs hbad
    exact hk.no_exception k _ hf
  · intro hok
    exact kept_of_no_exception (h.reachable.step hs) (ReachableUnder.no_exception (h.step hok hs))

/-- The steps of a stage that starts its operation, from the lock on. -/
def startSteps (k : Worker) : List Action := List.replicate 4 (.worker k true)

/-- The operation of `stage` succeeds and its handler starts the next one. -/
def completeSteps (stage : Stage) : List Action :=
  .complete stage .success [] :: .worker .io true :: startSteps .io

/-- A request up to the invocation of `on_request_sent`. -/
def sentRun : List Action :=
  .execute :: startSteps .user ++ completeSteps .on_host_name_resolved ++
    completeSteps .on_connection_established ++ [.complete .on_request_sent .success []]

theorem kept_iff_shutdownSucceeds_sent :
    ∃ s, (machine .llp64 (bytes "h") (bytes "/")).execUnder ShutdownSucceeds
        (.init (bytes "h") (bytes "/")) (sentRun ++ [.worker .io true]) = some s ∧ Kept s := by
  have hrun : ((machine .llp64 (bytes "h") (bytes "/")).execUnder ShutdownSucceeds
      (.init (bytes "h") (bytes "/")) (sentRun ++ [.worker .io true])).isSome = true := by decide
  obtain ⟨s, hs⟩ := Option.isSome_iff_exists.mp hrun
  exact ⟨s, hs, (kept_iff_shutdownSucceeds (TransitionSystem.reachableUnder_of_execUnder hs)).1⟩

theorem not_kept_shutdown :
    ¬ ∀ P m_host m_uri s, (machine P m_host m_uri).Reachable s → Kept s := by
  intro hall
  have hrun : ((machine .llp64 (bytes "h") (bytes "/")).exec (.init (bytes "h") (bytes "/"))
      (sentRun ++ [.worker .io false])).map (·.frame .io) =
        some (some ⟨.on_request_sent, .threw⟩) := by decide
  obtain ⟨s, hs, hf⟩ := Option.map_eq_some_iff.mp hrun
  exact (hall _ _ _ s (TransitionSystem.reachable_of_exec hs)).no_exception .io _ hf

end AsioStudy.HttpClient
