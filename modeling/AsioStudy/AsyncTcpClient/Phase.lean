import AsioStudy.AsyncTcpClient.Step

/-!
# AsioStudy.AsyncTcpClient.Phase

The **abstract life of a request** and the simulation of the client by it.

Seen from outside, a request is being called, fails in its call, is handled by one of
its three operations, or has completed. `Phase.Next` is this automaton; it never
returns to an earlier phase and reports once, on entering `completed`.
`Session.InPhase` relates a session of the model to a phase: exactly one of its handlers
is at work while the request is handled, earlier ones have at most their return left,
later ones have not been started. `Step.phase` shows that every step of the client, by
any thread, leaves the phase of every session as it is or moves it along the automaton, and
`exec_phase` that every run of the client is one of the automaton.
-/

namespace AsioStudy.AsyncTcpClient

/-- The phases of a request. -/
inductive Phase
  | absent
  | calling
  | failed
  | handling (op : Op)
  | completed
  deriving DecidableEq, Repr

/-- The moves of a request. -/
inductive Phase.Next : Phase → Phase → Prop
  | call : Next .absent .calling
  | fail : Next .calling .failed
  | start : Next .calling (.handling .connect)
  | next {op op' : Op} : op.next = some op' → Next (.handling op) (.handling op')
  | complete {op : Op} : Next (.handling op) .completed

/-- The position of an operation in the chain. -/
def Op.rank : Op → Nat
  | .connect => 0
  | .write => 1
  | .read => 2

theorem Op.rank_next {op op' : Op} (h : op.next = some op') : op'.rank = op.rank + 1 := by
  cases op <;> simp [Op.next] at h <;> subst h <;> rfl

theorem Op.rank_injective {op op' : Op} (h : op.rank = op'.rank) : op = op' := by
  cases op <;> cases op' <;> simp [Op.rank] at h <;> rfl

theorem Op.ne_of_rank_lt {op op' : Op} (h : op.rank < op'.rank) : op ≠ op' := by
  intro he
  exact Nat.lt_irrefl _ (he ▸ h)

theorem Op.ne_of_next {op op' : Op} (h : op.next = some op') : op' ≠ op := by
  have hrank := Op.rank_next h
  exact (Op.ne_of_rank_lt (by omega)).symm

/-- The operation is in flight, or its handler still decides the session's fate. -/
def HandlerPc.working : HandlerPc → Bool
  | .idle | .ret | .finished => false
  | _ => true

/-- The handler has started the next operation or invoked the callback. -/
def HandlerPc.left : HandlerPc → Bool
  | .ret | .finished => true
  | _ => false

/-- The call is between the construction of the session and `async_connect`. -/
def CallPc.inProgress : CallPc → Bool
  | .openSocket | .lockActive | .insert | .unlockActive | .asyncConnect => true
  | _ => false

namespace Session

/-- No operation has been started and the callback has not been invoked. -/
def Untouched (x : Session) : Prop := (∀ op, x.pc op = .idle) ∧ x.callbacks = []

/-- The session is in this phase of its life. -/
def InPhase (x : Session) : Phase → Prop
  | .absent => x.call = .notCalled ∧ x.Untouched
  | .calling => x.call.inProgress = true ∧ x.Untouched
  | .failed => x.call = .threw ∧ x.Untouched
  | .handling op =>
      x.call = .returned ∧ x.callbacks = [] ∧ (x.pc op).working = true ∧
      (∀ op', op'.rank < op.rank → (x.pc op').left = true) ∧
      ∀ op', op.rank < op'.rank → x.pc op' = .idle
  | .completed =>
      x.call = .returned ∧ x.callbacks.length = 1 ∧ ∀ op, (x.pc op).working = false

variable {x : Session} {p : Phase} {op op' : Op} {pc pc' : HandlerPc} {ec : ErrorCode}

/-- A handler is at work only in the phase of its operation. -/
theorem InPhase.eq_handling (h : x.InPhase p) (hpc : x.pc op = pc) (hw : pc.working = true) :
    p = .handling op := by
  subst hpc
  cases p with
  | absent => rw [h.2.1 op] at hw; exact absurd hw (by decide)
  | calling => rw [h.2.1 op] at hw; exact absurd hw (by decide)
  | failed => rw [h.2.1 op] at hw; exact absurd hw (by decide)
  | handling op' =>
      obtain ⟨-, -, -, hlt, hgt⟩ := h
      rcases Nat.lt_trichotomy op.rank op'.rank with hr | hr | hr
      · have hl := hlt op hr
        cases hpc : x.pc op <;> simp [hpc, HandlerPc.working, HandlerPc.left] at hw hl
      · rw [Op.rank_injective hr]
      · rw [hgt op hr] at hw
        exact absurd hw (by decide)
  | completed =>
      rw [h.2.2 op] at hw
      exact absurd hw (by decide)

/-- The call of a session whose operations have been started has returned. -/
theorem InPhase.call_eq (h : x.InPhase p) (hpc : x.pc op = pc) (hne : pc ≠ .idle) :
    x.call = .returned := by
  subst hpc
  cases p with
  | absent => exact absurd (h.2.1 op) hne
  | calling => exact absurd (h.2.1 op) hne
  | failed => exact absurd (h.2.1 op) hne
  | handling _ => exact h.1
  | completed => exact h.1

theorem InPhase.eq_absent (h : x.InPhase p) (hc : x.call = .notCalled) : p = .absent := by
  cases p with
  | absent => rfl
  | calling => have hp := h.1; rw [hc] at hp; exact absurd hp (by decide)
  | failed => have hp := h.1; rw [hc] at hp; exact absurd hp (by decide)
  | handling _ => have hp := h.1; rw [hc] at hp; exact absurd hp (by decide)
  | completed => have hp := h.1; rw [hc] at hp; exact absurd hp (by decide)

theorem InPhase.eq_calling (h : x.InPhase p) (hc : x.call.inProgress = true) : p = .calling := by
  cases p with
  | absent => rw [h.1] at hc; exact absurd hc (by decide)
  | calling => rfl
  | failed => rw [h.1] at hc; exact absurd hc (by decide)
  | handling _ => rw [h.1] at hc; exact absurd hc (by decide)
  | completed => rw [h.1] at hc; exact absurd hc (by decide)

/-- The phase looks only at the call, the handlers and the callbacks. -/
theorem InPhase.congr {y : Session} (h : x.InPhase p) (hcall : y.call = x.call)
    (hpc : y.pc = x.pc) (hcb : y.callbacks = x.callbacks) : y.InPhase p := by
  cases p <;> simpa only [InPhase, Untouched, hcall, hpc, hcb] using h

/-- A working handler that stays at work keeps the phase. -/
theorem InPhase.setPc_working (h : x.InPhase p) (hpc : x.pc op = pc) (hw : pc.working = true)
    (hw' : pc'.working = true) : (x.setPc op pc').InPhase p := by
  obtain rfl := h.eq_handling hpc hw
  obtain ⟨hcall, hcb, -, hlt, hgt⟩ := h
  refine ⟨hcall, hcb, by simpa using hw', ?_, ?_⟩
  · intro op' hr
    simpa [Op.ne_of_rank_lt hr] using hlt op' hr
  · intro op' hr
    simpa [(Op.ne_of_rank_lt hr).symm] using hgt op' hr

/-- While a handler is at work, the operation that comes next has not been started. -/
theorem idle_of_next (hp : ∃ p, x.InPhase p) (hpc : x.pc op = pc) (hw : pc.working = true)
    (hn : op.next = some op') : x.pc op' = .idle := by
  obtain ⟨p, hp⟩ := hp
  obtain rfl := hp.eq_handling hpc hw
  exact hp.2.2.2.2 op' (by rw [Op.rank_next hn]; omega)

/-- The return of a handler keeps the phase. -/
theorem InPhase.setPc_finished (h : x.InPhase p) (hpc : x.pc op = .ret) :
    (x.setPc op .finished).InPhase p := by
  have hcall := h.call_eq hpc nofun
  cases p with
  | absent => exact absurd (h.2.1 op) (by simp [hpc])
  | calling => exact absurd (h.2.1 op) (by simp [hpc])
  | failed => exact absurd (h.2.1 op) (by simp [hpc])
  | handling op₀ =>
      obtain ⟨-, hcb, hw, hlt, hgt⟩ := h
      have hne : op₀ ≠ op := by
        intro he
        rw [he, hpc] at hw
        exact absurd hw (by decide)
      refine ⟨hcall, hcb, by simpa [hne] using hw, ?_, ?_⟩
      · intro op' hr
        by_cases he : op' = op
        · simp [he, HandlerPc.left]
        · simpa [he] using hlt op' hr
      · intro op' hr
        by_cases he : op' = op
        · exact absurd (hgt op' hr) (by simp [he, hpc])
        · simpa [he] using hgt op' hr
  | completed =>
      obtain ⟨-, hcb, hw⟩ := h
      refine ⟨hcall, hcb, ?_⟩
      intro op'
      by_cases he : op' = op
      · simp [he, HandlerPc.working]
      · simpa [he] using hw op'

/-- Starting the next operation moves to its phase. -/
theorem InPhase.startNext (h : x.InPhase (.handling op)) (hn : op.next = some op') :
    ((x.setPc op' .pending).setPc op .ret).InPhase (.handling op') := by
  obtain ⟨hcall, hcb, -, hlt, hgt⟩ := h
  have hrank := Op.rank_next hn
  refine ⟨hcall, hcb, by simp [Op.ne_of_next hn, HandlerPc.working], ?_, ?_⟩
  · -- the handlers before the new one are the one that has started it and those before that
    intro o hr
    by_cases ho : o = op
    · simp [ho, HandlerPc.left]
    · have hlt' : o.rank < op.rank :=
        Nat.lt_of_le_of_ne (by omega) fun he => ho (Op.rank_injective he)
      simpa [ho, Op.ne_of_rank_lt hr] using hlt o hlt'
  · intro o hr
    have hr' : op.rank < o.rank := by omega
    simpa [(Op.ne_of_rank_lt hr').symm, (Op.ne_of_rank_lt hr).symm] using hgt o hr'

/-- Invoking the callback completes the request. -/
theorem InPhase.invokeCallback (h : x.InPhase (.handling op)) :
    ((x.invokeCallback ec).setPc op .ret).InPhase .completed := by
  obtain ⟨hcall, hcb, -, hlt, hgt⟩ := h
  refine ⟨hcall, by simp [hcb], ?_⟩
  intro o
  rcases Nat.lt_trichotomy o.rank op.rank with hr | hr | hr
  · have ho := Op.ne_of_rank_lt hr
    have hl := hlt o hr
    cases hpc : x.pc o <;> simp [ho, hpc, HandlerPc.working, HandlerPc.left] at hl ⊢
  · simp [Op.rank_injective hr, HandlerPc.working]
  · have ho := (Op.ne_of_rank_lt hr).symm
    simp [ho, hgt o hr, HandlerPc.working]

end Session

/-! ### The simulation -/

section Simulation

variable {s s' : State} {a : Action} {T : SessionId} {op : Op} {p p' : Phase} {x y : Session}

/-- A phase that is kept or moved along the automaton. -/
def Phase.Follows (p p' : Phase) : Prop := p' = p ∨ p.Next p'

private theorem follows_same (h : y.InPhase p) : ∃ p', y.InPhase p' ∧ p.Follows p' :=
  ⟨p, h, .inl rfl⟩

/-- A move of the call within its progress. -/
private theorem follows_setCall {c : CallPc} (hp : x.InPhase p) (hc : x.call.inProgress = true)
    (hc' : c.inProgress = true) : ∃ p', (x.setCall c).InPhase p' ∧ p.Follows p' := by
  obtain rfl := hp.eq_calling hc
  exact follows_same ⟨hc', hp.2⟩

theorem CallMove.phase (h : CallMove x y) (hp : x.InPhase p) :
    ∃ p', y.InPhase p' ∧ p.Follows p' := by
  cases h with
  | opened hc => exact follows_setCall hp (by rw [hc]; rfl) rfl
  | openThrows hc =>
      obtain rfl := hp.eq_calling (by rw [hc]; rfl)
      exact ⟨.failed, ⟨rfl, hp.2⟩, .inr .fail⟩
  | lockActive hc => exact follows_setCall hp (by rw [hc]; rfl) rfl
  | insert hc => exact follows_setCall hp (by rw [hc]; rfl) rfl
  | unlockActive hc => exact follows_setCall hp (by rw [hc]; rfl) rfl
  | asyncConnect hc =>
      obtain rfl := hp.eq_calling (by rw [hc]; rfl)
      obtain ⟨-, hidle, hcb⟩ := hp
      refine ⟨.handling .connect, ⟨rfl, hcb, by simp [HandlerPc.working], ?_, ?_⟩, .inr .start⟩
      · intro o hr
        exact absurd hr (Nat.not_lt_zero _)
      · intro o hr
        simpa [(Op.ne_of_rank_lt hr).symm] using hidle o

/-- A move of a handler that stays at work. -/
private theorem follows_setPc {pc pc' : HandlerPc} (hp : x.InPhase p) (hpc : x.pc op = pc)
    (hw : pc.working = true) (hw' : pc'.working = true) :
    ∃ p', (x.setPc op pc').InPhase p' ∧ p.Follows p' :=
  follows_same (hp.setPc_working hpc hw hw')

theorem HandlerMove.phase (h : HandlerMove x op y) (hp : x.InPhase p) :
    ∃ p', y.InPhase p' ∧ p.Follows p' := by
  cases h with
  | @enter ec hpc =>
      have hpcw : (Session.enterPc op ec).working = true := by
        unfold Session.enterPc; split <;> rfl
      refine follows_same ((hp.setPc_working hpc rfl hpcw).congr (by simp) ?_ (by simp))
      funext o
      simp
  | lockCancel hpc => exact follows_setPc hp hpc rfl rfl
  | cancelled hpc _ => exact follows_setPc hp hpc rfl rfl
  | notCancelled hpc _ => exact follows_setPc hp hpc rfl rfl
  | startNext hpc hn =>
      obtain rfl := hp.eq_handling hpc rfl
      exact ⟨_, hp.startNext hn, .inr (.next hn)⟩
  | shutdown hpc => exact follows_setPc hp hpc rfl rfl
  | lockActive hpc => exact follows_setPc hp hpc rfl rfl
  | eraseEntry hpc => exact follows_setPc hp hpc rfl rfl
  | unlockActive hpc => exact follows_setPc hp hpc rfl rfl
  | report hpc => exact follows_setPc hp hpc rfl rfl
  | callback hpc =>
      obtain rfl := hp.eq_handling hpc rfl
      exact ⟨.completed, hp.invokeCallback, .inr .complete⟩
  | ret hpc => exact follows_same (hp.setPc_finished hpc)

theorem SessionStep.phase (h : SessionStep s T a y) (hnew : (s.session s.next).InPhase .absent)
    (hp : (s.session T).InPhase p) : ∃ p', y.InPhase p' ∧ p.Follows p' := by
  cases h with
  | construct hT =>
      subst hT
      obtain rfl := hp.eq_absent hnew.1
      exact ⟨.calling, ⟨rfl, fun _ => rfl, rfl⟩, .inr .call⟩
  | caller h => exact h.phase hp
  | @complete op ec received hpc =>
      have hr : ((s.session T).receive op received).InPhase p :=
        hp.congr (by simp) (by simp) (by simp)
      exact follows_setPc hr (by simpa using hpc) rfl rfl
  | handler h => exact h.phase hp
  | setCancelled _ => exact follows_same (hp.congr rfl rfl rfl)

/-- **Simulation.** A step of the client keeps the phase of every session or moves it
along the automaton; `absent` is the phase of the session about to be constructed. -/
theorem Step.phase (h : Step s a s') (hnew : (s.session s.next).InPhase .absent)
    (hp : (s.session T).InPhase p) : ∃ p', (s'.session T).InPhase p' ∧ p.Follows p' := by
  rcases h.session T with hsame | hT
  · rw [hsame]
    exact follows_same hp
  · exact hT.phase hnew hp

theorem CallMove.called (h : CallMove x y) : x.call ≠ .notCalled := by
  cases h <;> simp [*]

theorem HandlerMove.started (h : HandlerMove x op y) : x.pc op ≠ .idle := by
  cases h <;> simp [*]

/-- Sessions that have not been constructed yet are absent. -/
theorem Step.fresh (h : Step s a s') (hnew : ∀ T ≥ s.next, (s.session T).InPhase .absent) :
    ∀ T ≥ s'.next, (s'.session T).InPhase .absent := by
  intro T hT
  have habsent := hnew T (Nat.le_trans h.next_le hT)
  rcases h.session T with hsame | hTs
  · rw [hsame]
    exact habsent
  · -- no step but the one that sets the flag concerns an absent session
    generalize s'.session T = y at hTs
    cases hTs with
    | construct hn =>
        have hlt : s.next < s'.next := by
          cases h with
          | construct => exact Nat.lt_succ_self _
        exact absurd hT (Nat.not_le.mpr (hn ▸ hlt))
    | caller hm => exact absurd habsent.1 hm.called
    | complete hpc => exact absurd (hpc.symm.trans (habsent.2.1 _)) nofun
    | handler hm => exact absurd (habsent.2.1 _) hm.started
    | setCancelled _ => exact habsent.congr rfl rfl rfl

end Simulation

/-- In every reachable state every session is in a phase, and those not yet constructed
are absent. -/
theorem reachable_phase {s : State} (h : client.Reachable s) :
    (∀ T, ∃ p, (s.session T).InPhase p) ∧ ∀ T ≥ s.next, (s.session T).InPhase .absent := by
  refine h.invariant (P := fun s => (∀ T, ∃ p, (s.session T).InPhase p) ∧
    ∀ T ≥ s.next, (s.session T).InPhase .absent) ?_ ?_
  · have habsent : ∀ T, (State.init.session T).InPhase .absent :=
      fun T => ⟨rfl, fun _ => rfl, rfl⟩
    exact ⟨fun T => ⟨.absent, habsent T⟩, fun T _ => habsent T⟩
  · intro s a s' _ ⟨hphase, hfresh⟩ hs
    have hst := step_inv hs
    refine ⟨?_, hst.fresh hfresh⟩
    intro T
    obtain ⟨p, hp⟩ := hphase T
    obtain ⟨p', hp', -⟩ := hst.phase (hfresh s.next (Nat.le_refl _)) hp
    exact ⟨p', hp'⟩

/-- **Every run of the client is a run of the automaton**, for every session. -/
theorem exec_phase {s s' : State} {T : SessionId} {p : Phase} {as : List Action}
    (h : client.Reachable s) (hp : (s.session T).InPhase p) (hrun : client.exec s as = some s') :
    ∃ p', (s'.session T).InPhase p' ∧ Relation.ReflTransGen Phase.Next p p' := by
  refine h.stable (P := fun s => ∃ p', (s.session T).InPhase p' ∧
    Relation.ReflTransGen Phase.Next p p') ?_ ⟨p, hp, .refl⟩ hrun
  intro u a u' hu ⟨q, hq, hpq⟩ hs
  have hnew := (reachable_phase hu).2 u.next (Nat.le_refl _)
  obtain ⟨q', hq', hfollows⟩ := (step_inv hs).phase hnew hq
  rcases hfollows with rfl | hnext
  · exact ⟨q', hq', hpq⟩
  · exact ⟨q', hq', hpq.tail hnext⟩

end AsioStudy.AsyncTcpClient
