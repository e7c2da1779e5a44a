import Mathlib.Algebra.BigOperators.Group.List.Basic
import AsioStudy.Core.Termination
import AsioStudy.HttpClient.Safety

/-!
# AsioStudy.HttpClient.Liveness

An `HTTPRequest` comes to rest. Every step of a worker leads down (`WorkerStep.cost`), and a
worker that cannot go on has thrown or is in a loop: nobody waits for `m_cancel_mux` forever
(`Still.frame`).
-/

namespace AsioStudy.HttpClient

variable {P : Platform} {m_host m_uri : Bytes} {s s' : State} {a : Action} {k : Worker}
  {n : Nat} {stage : Stage} {pc : Pc}

/-! ### The steps that are left -/

/-- The stages that may come after this one. -/
def Stage.left : Stage → Nat
  | .execute => 6
  | .on_host_name_resolved => 5
  | .on_connection_established => 4
  | .on_request_sent => 3
  | .on_status_line_received => 2
  | .on_headers_received => 1
  | .on_response_body_received => 0

theorem Stage.left_next {stage' : Stage} (h : stage.next = some stage') :
    stage.left = stage'.left + 1 := by
  cases stage <;> cases h <;> rfl

/-- The steps of a worker from here on, seven for each of the stages `left`. -/
def Pc.cost (left : Nat) : Pc → Nat
  | .entry _ => 6 + 7 * left
  | .lock => 5 + 7 * left
  | .test => 4 + 7 * left
  | .unlock => 3
  | .start => 2 + 7 * left
  | .callback _ => 2
  | .ret => 1
  | .threw | .loops => 0

def Frame.cost (f : Frame) : Nat := f.pc.cost f.stage.left

def State.frameCost (s : State) (k : Worker) : Nat := (s.frame k).elim 0 Frame.cost

/-- The steps that come from a pending operation. -/
def Stage.cost (stage : Stage) : Nat := 7 + 7 * stage.left

/-- The steps that the workers of the request may still take. -/
def State.cost (s : State) : Nat :=
  (s.pending.map Stage.cost).sum + (s.frameCost .user + s.frameCost .io)

theorem State.frameCost_of_frame (h : s.frame k = some ⟨stage, pc⟩) :
    s.frameCost k = pc.cost stage.left := by
  simp [State.frameCost, h, Frame.cost]

@[simp] theorem State.frameCost_goto (s : State) (k k' : Worker) (stage : Stage) (pc : Pc) :
    (s.goto k stage pc).frameCost k' = if k' = k then pc.cost stage.left else s.frameCost k' := by
  by_cases hk : k' = k <;> simp [State.frameCost, Frame.cost, hk]

@[simp] theorem State.frameCost_setFrame_none (s : State) (k k' : Worker) :
    (s.setFrame k none).frameCost k' = if k' = k then 0 else s.frameCost k' := by
  by_cases hk : k' = k <;> simp [State.frameCost, hk]

theorem State.frameCost_congr (h : s'.frame = s.frame) (k : Worker) :
    s'.frameCost k = s.frameCost k := by
  simp only [State.frameCost, h]

/-- A worker that moves on within its stage. -/
theorem cost_goto (h : s.frame k = some ⟨stage, pc⟩) {pc' : Pc}
    (hpc : pc'.cost stage.left + 1 ≤ pc.cost stage.left) {s₁ : State} (hframe : s₁.frame = s.frame)
    (hpending : s₁.pending = s.pending) : (s₁.goto k stage pc').cost + 1 ≤ s.cost := by
  have hk := State.frameCost_of_frame h
  cases k <;> simp [State.cost, hpending, State.frameCost_congr hframe, hk] <;> omega

theorem Exit.pc_cost (exit : Exit) (left : Nat) : exit.pc.cost left ≤ 5 + 7 * left := by
  cases exit <;> simp [Exit.pc, Pc.cost]
  omega

/-- **Every step of a worker leads down.** -/
theorem WorkerStep.cost (h : WorkerStep P s k s') : s'.cost + 1 ≤ s.cost := by
  cases h with
  | @enter stage ec request exit _ hf _ =>
      have hle := exit.pc_cost stage.left
      exact cost_goto hf (Nat.succ_le_succ hle |>.trans (by simp only [Pc.cost]; omega)) rfl rfl
  | lock hf _ => exact cost_goto hf (by simp only [Pc.cost]; omega) rfl rfl
  | cancelled hf _ => exact cost_goto hf (by simp only [Pc.cost]; omega) rfl rfl
  | notCancelled hf _ => exact cost_goto hf (by simp only [Pc.cost]; omega) rfl rfl
  | unlock hf => exact cost_goto hf (by simp only [Pc.cost]; omega) rfl rfl
  | @start stage stage' hf hnext =>
      have hk := State.frameCost_of_frame hf
      have hleft := Stage.left_next hnext
      have hsame : ∀ k', (s.startOp stage').frameCost k' = s.frameCost k' :=
        State.frameCost_congr rfl
      cases k <;> simp [State.cost, hsame, hk, Pc.cost, Stage.cost] <;> omega
  | callback hf => exact cost_goto hf (by simp only [Pc.cost]; omega) rfl rfl
  | @ret stage hf =>
      have hk := State.frameCost_of_frame hf
      have hsame : ∀ k', (s.release (.worker k)).frameCost k' = s.frameCost k' :=
        State.frameCost_congr rfl
      cases k <;> simp +arith [State.cost, hsame, hk, Pc.cost]

/-- A worker takes a step, or a handler is invoked. -/
def Action.ofHandler : Action → Bool
  | .worker _ _ | .complete _ _ _ => true
  | .execute | .cancel _ | .canceller _ => false

def Action.isExecute : Action → Bool
  | .execute => true
  | _ => false

/-- **A call of `execute()` pays for 47 steps.** -/
theorem Step.cost (h : Step P s a s') (hload : OneLoad s) :
    s'.cost + a.ofHandler.toNat ≤ s.cost + if a.isExecute then 47 else 0 := by
  cases h with
  | execute he =>
      have hnone := hload.not_executed he
      have hsame : ∀ k, State.frameCost { s with executed := true } k = s.frameCost k :=
        fun _ => rfl
      simp [State.cost, hsame, Action.ofHandler, Action.isExecute, Pc.cost, Stage.left]
      omega
  | worker h => simpa [Action.ofHandler, Action.isExecute] using h.cost
  | @complete stage ec received hmem hio =>
      have hidle : s.frameCost .io = 0 := by simp [State.frameCost, hio]
      have herase := List.sum_map_erase Stage.cost hmem
      have hsame : ∀ k, State.frameCost
          { s with
            pending := s.pending.erase stage
            request := s.request.receive stage received } k = s.frameCost k := fun _ => rfl
      simp [State.cost, hsame, hidle, Action.ofHandler, Action.isExecute, Pc.cost]
      simp only [Stage.cost] at herase ⊢
      omega
  | cancel _ => exact Nat.le_refl _
  | canceller h => cases h <;> exact Nat.le_refl _

/-! ### At rest -/

/-- Between the lock of `m_cancel_mux` and the start of an operation. -/
def Pc.inner : Pc → Bool
  | .lock | .test | .unlock | .start => true
  | _ => false

/-- A worker that is about to lock `m_cancel_mux` has an operation to start. -/
def Continues (s : State) : Prop :=
  ∀ k stage pc, s.frame k = some ⟨stage, pc⟩ → pc.inner = true → stage.next.isSome = true

theorem Continues.goto (hi : Continues s) {s₁ : State} {pc' : Pc} (hframe : s₁.frame = s.frame)
    (hpc : pc'.inner = true → stage.next.isSome = true) : Continues (s₁.goto k stage pc') := by
  intro k' stage' pc hf hinner
  by_cases hk : k' = k
  · simp only [State.goto_frame, hk, if_true, Option.some.injEq, Frame.mk.injEq] at hf
    obtain ⟨rfl, rfl⟩ := hf
    exact hpc hinner
  · exact hi k' stage' pc (by simpa [hk, hframe] using hf) hinner

theorem firstPart_lock {shutdown : Bool} {ec : ErrorCode} {x y : HTTPRequest}
    (h : stage.firstPart P shutdown ec x = (y, .lock)) : stage.next.isSome = true := by
  cases stage with
  | on_response_body_received =>
      simp only [Stage.firstPart, on_response_body_received] at h
      split at h <;> exact absurd (congrArg Prod.snd h) (by simp)
  | _ => rfl

theorem Exit.eq_lock {exit : Exit} (h : exit.pc.inner = true) : exit = .lock := by
  cases exit <;> simp_all [Exit.pc, Pc.inner]

theorem Step.continues (h : Step P s a s') (hi : Continues s) : Continues s' := by
  cases h with
  | execute _ => exact hi.goto rfl fun _ => rfl
  | @worker k _ _ h =>
      cases h with
      | @enter stage ec request exit _ hf hpart =>
          refine hi.goto rfl ?_
          intro hinner
          rw [Exit.eq_lock hinner] at hpart
          exact firstPart_lock hpart
      | lock hf _ => exact hi.goto rfl fun _ => hi _ _ _ hf rfl
      | cancelled hf _ => exact hi.goto rfl fun _ => hi _ _ _ hf rfl
      | notCancelled hf _ => exact hi.goto rfl fun _ => hi _ _ _ hf rfl
      | unlock _ => exact hi.goto rfl nofun
      | start _ _ => exact hi.goto rfl nofun
      | callback _ => exact hi.goto rfl nofun
      | @ret stage _ =>
          intro k' stage' pc hf hinner
          by_cases hk : k' = k
          · simp [hk] at hf
          · exact hi k' stage' pc (by simpa [hk] using hf) hinner
  | complete _ _ => exact hi.goto rfl nofun
  | cancel _ => exact hi
  | canceller h => cases h <;> exact hi

theorem reachable_continues (h : (machine P m_host m_uri).Reachable s) : Continues s := by
  refine h.invariant (P := Continues) ?_ ?_
  · intro k stage pc hf
    exact absurd hf (by simp [machine, State.init])
  · intro s a s' _ hi hs
    exact (step_inv hs).continues hi

/-- Neither a worker nor a `cancel()` call can take a step. -/
structure Still (P : Platform) (s : State) : Prop where
  worker : ∀ k shutdown, step P s (.worker k shutdown) = none
  canceller : ∀ n, step P s (.canceller n) = none

/-- **Nobody waits for `m_cancel_mux`** in a request at rest. -/
theorem Still.mutex (h : Still P s) (hr : (machine P m_host m_uri).Reachable s) :
    s.mutex .m_cancel_mux = none := by
  have hg := reachable_guard hr
  by_contra hne
  obtain ⟨t, ht⟩ := Option.ne_none_iff_exists'.mp hne
  cases t with
  | canceller n =>
      have hholds := (hg.canceller n).mpr ht
      have hstep := h.canceller n
      cases hpc : s.cancel n <;> simp [hpc, CancelPc.holds, step, stepCancel] at hholds hstep
  | worker k =>
      obtain ⟨stage, pc, hf, hpc⟩ := hg.owner k ht
      have hstep := h.worker k true
      have hcontinues := reachable_continues hr k stage pc hf
      cases pc <;> simp [Pc.holds] at hpc <;>
        simp [step, hf, stepFrame, Pc.inner] at hstep hcontinues
      rw [hstep] at hcontinues
      exact absurd hcontinues (by simp)

/-- A worker that cannot go on has thrown or never ends. -/
theorem Still.frame (h : Still P s) (hr : (machine P m_host m_uri).Reachable s) {f : Frame}
    (hf : s.frame k = some f) : f.pc = .threw ∨ f.pc = .loops := by
  obtain ⟨stage, pc⟩ := f
  have hfree := h.mutex hr
  have hstep := h.worker k true
  have hcontinues := reachable_continues hr k stage pc hf
  cases pc with
  | threw => exact .inl rfl
  | loops => exact .inr rfl
  | lock => simp [step, hf, stepFrame, State.lock, Mutexes.lock, hfree] at hstep
  | start =>
      simp only [step, hf, Option.bind_some, stepFrame, Option.map_eq_none_iff] at hstep
      rw [hstep] at hcontinues
      exact absurd (hcontinues rfl) (by simp)
  | _ => simp [step, hf, stepFrame] at hstep

theorem Still.cancel (h : Still P s) (hr : (machine P m_host m_uri).Reachable s) (n : Nat) :
    s.cancel n = .idle := by
  have hfree := h.mutex hr
  have hstep := h.canceller n
  cases hpc : s.cancel n <;>
    simp [hpc, step, stepCancel, State.lock, Mutexes.lock, hfree] at hstep ⊢

end AsioStudy.HttpClient
