import AsioStudy.AsyncTcpClient.Phase

/-!
# AsioStudy.AsyncTcpClient.Locks

Who owns which mutex. `m_active_sessions_guard` is owned exactly by the thread inside
one of its three critical sections (`reachable_locks`), so at most one thread is in
them. `m_cancel_guard` of a session is owned by the `cancelRequest` calls in their
critical section and by handlers of that session only; a handler that owns it inside
`onRequestComplete` has come there by a cancelled branch, so the session is cancelled
(`CancelGuard.owner`).
-/

namespace AsioStudy.AsyncTcpClient

/-! ### Critical sections -/

/-- The call is between the lock and the unlock of `m_active_sessions_guard`. -/
def CallPc.holdsActive : CallPc → Bool
  | .insert | .unlockActive => true
  | _ => false

def HandlerPc.holdsActive : HandlerPc → Bool
  | .eraseEntry | .unlockActive => true
  | _ => false

def CancelPc.holdsActive : CancelPc → Bool
  | .idle | .lockActive _ => false
  | _ => true

/-- The call is between the lock and the unlock of the `m_cancel_guard` of `S`. -/
def CancelPc.holdsCancel (S : SessionId) : CancelPc → Bool
  | .setCancelled S' | .cancelSock S' | .unlockCancel S' => S' = S
  | _ => false

/-- The handler is between the lock of `m_cancel_guard` and its branch. -/
def HandlerPc.testing : HandlerPc → Bool
  | .testCancelled | .startNext => true
  | _ => false

/-- The handler is inside `onRequestComplete`. -/
def HandlerPc.completing : HandlerPc → Bool
  | .shutdown | .lockActive | .eraseEntry | .unlockActive | .report | .callback _ => true
  | _ => false

/-- The thread is in a critical section of `m_active_sessions_guard`. -/
def State.holdsActive (s : State) : Thread → Bool
  | .caller S => (s.session S).call.holdsActive
  | .handler S op => ((s.session S).pc op).holdsActive
  | .canceller n => (s.cancel n).holdsActive

/-- `m_active_sessions_guard` is owned exactly by the thread in a critical section. -/
def ActiveGuard (s : State) : Prop :=
  Mutexes.Guarded s.holdsActive (s.mutex .m_active_sessions_guard)

/-- A handler of this session at this point may own its `m_cancel_guard`. -/
def Session.mayOwn (x : Session) (op : Op) : Prop :=
  (x.pc op).testing = true ∨ x.pc op = .ret ∨
    (x.pc op).completing = true ∧ x.m_was_cancelled = true

/-- Who owns the `m_cancel_guard` of each session. -/
structure CancelGuard (s : State) : Prop where
  canceller : ∀ n S, (s.cancel n).holdsCancel S = true ↔
    s.mutex (.m_cancel_guard S) = some (.canceller n)
  handler : ∀ S op, ((s.session S).pc op).testing = true →
    s.mutex (.m_cancel_guard S) = some (.handler S op)
  owner : ∀ S t, s.mutex (.m_cancel_guard S) = some t →
    (∃ n, t = .canceller n) ∨ ∃ op, t = .handler S op ∧ (s.session S).mayOwn op

variable {s s' : State} {a : Action} {S : SessionId} {op : Op} {n : Nat} {t : Thread}

/-! ### `m_active_sessions_guard` -/

theorem holdsActive_modify {f : Session → Session}
    (hcall : t ≠ .caller S ∨ (f (s.session S)).call = (s.session S).call)
    (hpc : ∀ op, t ≠ .handler S op ∨
      ((f (s.session S)).pc op).holdsActive = ((s.session S).pc op).holdsActive) :
    (s.modify S f).holdsActive t = s.holdsActive t := by
  cases t with
  | caller T =>
      by_cases hT : T = S
      · subst hT
        simp [State.holdsActive, hcall.resolve_left (fun h => h rfl)]
      · simp [State.holdsActive, hT]
  | handler T o =>
      by_cases hT : T = S
      · subst hT
        simpa [State.holdsActive] using (hpc o).resolve_left (fun h => h rfl)
      · simp [State.holdsActive, hT]
  | canceller n => rfl

/-- A change of the handler of `op` alone is seen by no other thread. -/
theorem holdsActive_handler {f : Session → Session} (ht : t ≠ .handler S op)
    (hcall : (f (s.session S)).call = (s.session S).call)
    (hpc : ∀ o ≠ op, ((f (s.session S)).pc o).holdsActive = ((s.session S).pc o).holdsActive) :
    (s.modify S f).holdsActive t = s.holdsActive t := by
  refine holdsActive_modify (.inr hcall) ?_
  intro o
  by_cases ho : o = op
  · exact .inl (ho ▸ ht)
  · exact .inr (hpc o ho)

theorem holdsActive_setPc {pc : HandlerPc} (ht : t ≠ .handler S op) :
    (s.setPc S op pc).holdsActive t = s.holdsActive t :=
  holdsActive_handler ht rfl fun o ho => by simp [ho]

theorem holdsActive_setCall {c : CallPc} (ht : t ≠ .caller S) :
    (s.setCall S c).holdsActive t = s.holdsActive t :=
  holdsActive_modify (.inl ht) fun _ => .inr rfl

theorem holdsActive_setCancel {pc : CancelPc} (ht : t ≠ .canceller n) :
    (s.setCancel n pc).holdsActive t = s.holdsActive t := by
  cases t with
  | caller T => rfl
  | handler T o => rfl
  | canceller m =>
      have hm : m ≠ n := fun he => ht (he ▸ rfl)
      simp [State.holdsActive, hm]

/-- The critical sections look only at the sessions and the `cancelRequest` calls. -/
theorem holdsActive_congr (hs : s'.session = s.session) (hc : s'.cancel = s.cancel) :
    s'.holdsActive t = s.holdsActive t := by
  cases t <;> simp only [State.holdsActive, hs, hc]

/-- A step of thread `t` respects the critical sections of `m_active_sessions_guard`. -/
abbrev ActiveStep (s : State) (t : Thread) (s' : State) : Prop :=
  Mutexes.SectionStep t s.holdsActive s'.holdsActive
    (s.mutex .m_active_sessions_guard) (s'.mutex .m_active_sessions_guard)

theorem CallerStep.activeStep (h : CallerStep s S s')
    (hp : ∃ p, (s.session S).InPhase p) : ActiveStep s (.caller S) s' := by
  cases h with
  | opened hc =>
      exact .stay rfl (by simp [State.holdsActive, hc, CallPc.holdsActive])
        fun u hu => holdsActive_setCall hu
  | openThrows hc =>
      exact .stay rfl (by simp [State.holdsActive, hc, CallPc.holdsActive])
        fun u hu => holdsActive_setCall hu
  | lockActive hc hfree =>
      exact .enter hfree (by simp) (by simp [State.holdsActive, CallPc.holdsActive])
        fun u hu => (holdsActive_setCall hu).trans (holdsActive_congr rfl rfl)
  | insert hc =>
      exact .stay rfl (by simp [State.holdsActive, hc, CallPc.holdsActive])
        fun u hu => (holdsActive_setCall hu).trans (holdsActive_congr rfl rfl)
  | unlockActive hc =>
      exact .leave (by simp [State.holdsActive, hc, CallPc.holdsActive]) (by simp)
        (by simp [State.holdsActive, CallPc.holdsActive])
        fun u hu => (holdsActive_setCall hu).trans (holdsActive_congr rfl rfl)
  | asyncConnect hc =>
      obtain ⟨p, hp⟩ := hp
      obtain rfl := hp.eq_calling (by rw [hc]; rfl)
      refine .stay rfl (by simp [State.holdsActive, hc, CallPc.holdsActive]) fun u hu =>
        holdsActive_modify (.inl hu) fun o => .inr ?_
      by_cases ho : o = .connect <;> simp [ho, hp.2.1, HandlerPc.holdsActive]

theorem HandlerStep.activeStep (h : HandlerStep s S op s')
    (hp : ∃ p, (s.session S).InPhase p) : ActiveStep s (.handler S op) s' := by
  cases h with
  | @enter ec hpc =>
      have henter : (Session.enterPc op ec).holdsActive = false := by
        unfold Session.enterPc; split <;> rfl
      have hself : ((s.session S).pc op).holdsActive = false := by rw [hpc]; rfl
      exact .stay rfl (by simp only [State.holdsActive]; simp [henter, hself])
        fun u hu => holdsActive_handler hu (by simp) fun o ho => by simp [ho]
  | lockCancel hpc _ =>
      exact .stay (by simp) (by simp [State.holdsActive, hpc, HandlerPc.holdsActive])
        fun u hu => (holdsActive_setPc hu).trans (holdsActive_congr rfl rfl)
  | cancelled hpc _ =>
      exact .stay rfl (by simp [State.holdsActive, hpc, HandlerPc.holdsActive])
        fun u hu => holdsActive_setPc hu
  | notCancelled hpc _ =>
      exact .stay rfl (by simp [State.holdsActive, hpc, HandlerPc.holdsActive])
        fun u hu => holdsActive_setPc hu
  | @startNext op' hpc hn =>
      have hidle := Session.idle_of_next hp hpc rfl hn
      have hne : op' ≠ op := Op.ne_of_next hn
      refine .stay rfl (by simp [State.holdsActive, hpc, HandlerPc.holdsActive]) fun u hu =>
        holdsActive_handler hu (by simp) ?_
      intro o ho
      by_cases ho' : o = op'
      · subst ho'
        simp [hne, hidle, HandlerPc.holdsActive]
      · simp [ho, ho']
  | shutdown hpc =>
      exact .stay rfl (by simp [State.holdsActive, hpc, HandlerPc.holdsActive])
        fun u hu => holdsActive_setPc hu
  | lockActive hpc hfree =>
      exact .enter hfree (by simp) (by simp [State.holdsActive, HandlerPc.holdsActive])
        fun u hu => (holdsActive_setPc hu).trans (holdsActive_congr rfl rfl)
  | eraseEntry hpc =>
      exact .stay rfl (by simp [State.holdsActive, hpc, HandlerPc.holdsActive])
        fun u hu => (holdsActive_setPc hu).trans (holdsActive_congr rfl rfl)
  | unlockActive hpc =>
      exact .leave (by simp [State.holdsActive, hpc, HandlerPc.holdsActive]) (by simp)
        (by simp [State.holdsActive, HandlerPc.holdsActive])
        fun u hu => (holdsActive_setPc hu).trans (holdsActive_congr rfl rfl)
  | report hpc =>
      exact .stay rfl (by simp [State.holdsActive, hpc, HandlerPc.holdsActive])
        fun u hu => holdsActive_setPc hu
  | callback hpc =>
      exact .stay rfl (by simp [State.holdsActive, hpc, HandlerPc.holdsActive])
        fun u hu => holdsActive_handler hu (by simp) fun o ho => by simp [ho]
  | ret hpc =>
      exact .stay (by simp) (by simp [State.holdsActive, hpc, HandlerPc.holdsActive])
        fun u hu => (holdsActive_setPc hu).trans (holdsActive_congr rfl rfl)

theorem CancelStep.activeStep (h : CancelStep s n s') : ActiveStep s (.canceller n) s' := by
  cases h with
  | lockActive hpc hfree =>
      exact .enter hfree (by simp) (by simp [State.holdsActive, CancelPc.holdsActive])
        fun u hu => (holdsActive_setCancel hu).trans (holdsActive_congr rfl rfl)
  | found hpc _ =>
      exact .stay rfl (by simp [State.holdsActive, hpc, CancelPc.holdsActive])
        fun u hu => holdsActive_setCancel hu
  | notFound hpc _ =>
      exact .stay rfl (by simp [State.holdsActive, hpc, CancelPc.holdsActive])
        fun u hu => holdsActive_setCancel hu
  | lockCancel hpc _ =>
      exact .stay (by simp) (by simp [State.holdsActive, hpc, CancelPc.holdsActive])
        fun u hu => (holdsActive_setCancel hu).trans (holdsActive_congr rfl rfl)
  | @setCancelled S hpc =>
      exact .stay rfl (by simp [State.holdsActive, hpc, CancelPc.holdsActive]) fun u hu =>
        (holdsActive_setCancel hu).trans (holdsActive_modify (.inr rfl) fun _ => .inr rfl)
  | cancelSock hpc =>
      exact .stay rfl (by simp [State.holdsActive, hpc, CancelPc.holdsActive])
        fun u hu => holdsActive_setCancel hu
  | unlockCancel hpc =>
      exact .stay (by simp) (by simp [State.holdsActive, hpc, CancelPc.holdsActive])
        fun u hu => (holdsActive_setCancel hu).trans (holdsActive_congr rfl rfl)
  | unlockActive hpc =>
      exact .leave (by simp [State.holdsActive, hpc, CancelPc.holdsActive]) (by simp)
        (by simp [State.holdsActive, CancelPc.holdsActive])
        fun u hu => (holdsActive_setCancel hu).trans (holdsActive_congr rfl rfl)

/-- `m_active_sessions_guard` excludes: every step keeps its owner the only thread in a
critical section. -/
theorem Step.activeGuard (h : Step s a s') (hp : ∀ T, ∃ p, (s.session T).InPhase p)
    (hnew : (s.session s.next).InPhase .absent) (hi : ActiveGuard s) : ActiveGuard s' := by
  cases h with
  | badIp => exact hi
  | @construct d id =>
      intro t
      have hsame : (s.construct d id).holdsActive t = s.holdsActive t := by
        cases t with
        | caller T =>
            by_cases hT : T = s.next
            · subst hT
              simp only [State.holdsActive, State.construct_session, if_true, hnew.1]
              rfl
            · simp [State.holdsActive, hT]
        | handler T o =>
            by_cases hT : T = s.next
            · simp [State.holdsActive, hT, hnew.2.1]
            · simp [State.holdsActive, hT]
        | canceller m => rfl
      rw [hsame]
      exact hi t
  | caller h => exact hi.step (h.activeStep (hp _))
  | @complete S op _ _ hpc =>
      refine hi.step (t := .handler S op) (.stay rfl ?_ ?_)
      · simp [State.holdsActive, hpc, HandlerPc.holdsActive]
      · intro u hu
        exact holdsActive_handler hu (by simp) fun o ho => by simp [ho]
  | handler h => exact hi.step (h.activeStep (hp _))
  | @cancelRequest n _ hpc =>
      refine hi.step (t := .canceller n) (.stay rfl ?_ fun u hu => holdsActive_setCancel hu)
      simp [State.holdsActive, hpc, CancelPc.holdsActive]
  | canceller h => exact hi.step h.activeStep
  | close => exact hi

/-! ### `m_cancel_guard` -/

/-- A step that leaves every `m_cancel_guard` alone keeps the ownership facts, when no
handler gets into its test, and none leaves the stretch in which it may own the guard. -/
theorem CancelGuard.congr (hi : CancelGuard s)
    (hmutex : ∀ S, s'.mutex (.m_cancel_guard S) = s.mutex (.m_cancel_guard S))
    (hcancel : ∀ n S, (s'.cancel n).holdsCancel S = (s.cancel n).holdsCancel S)
    (htest : ∀ S op, ((s'.session S).pc op).testing = true →
      ((s.session S).pc op).testing = true)
    (hown : ∀ S op, (s.session S).mayOwn op → (s'.session S).mayOwn op) : CancelGuard s' where
  canceller n S := by rw [hcancel, hmutex]; exact hi.canceller n S
  handler S op ht := by rw [hmutex]; exact hi.handler S op (htest S op ht)
  owner S t ht := by
    rw [hmutex] at ht
    rcases hi.owner S t ht with hn | ⟨op, rfl, hop⟩
    · exact .inl hn
    · exact .inr ⟨op, rfl, hown S op hop⟩

/-- `CancelGuard` after a step that concerns the guard of one session only. -/
theorem CancelGuard.of_session (hi : CancelGuard s)
    (hmutex : ∀ T ≠ S, s'.mutex (.m_cancel_guard T) = s.mutex (.m_cancel_guard T))
    (hcancel : ∀ n, ∀ T ≠ S, (s'.cancel n).holdsCancel T = (s.cancel n).holdsCancel T)
    (hsession : ∀ T ≠ S, s'.session T = s.session T)
    (hcanceller : ∀ n, (s'.cancel n).holdsCancel S = true ↔
      s'.mutex (.m_cancel_guard S) = some (.canceller n))
    (hhandler : ∀ op, ((s'.session S).pc op).testing = true →
      s'.mutex (.m_cancel_guard S) = some (.handler S op))
    (howner : ∀ t, s'.mutex (.m_cancel_guard S) = some t →
      (∃ n, t = .canceller n) ∨ ∃ op, t = .handler S op ∧ (s'.session S).mayOwn op) :
    CancelGuard s' := by
  refine ⟨?_, ?_, ?_⟩
  · intro n T
    by_cases hT : T = S
    · rw [hT]
      exact hcanceller n
    · rw [hcancel n T hT, hmutex T hT]
      exact hi.canceller n T
  · intro T op ht
    by_cases hT : T = S
    · subst hT
      exact hhandler op ht
    · rw [hmutex T hT]
      exact hi.handler T op (hsession T hT ▸ ht)
  · intro T t ht
    by_cases hT : T = S
    · subst hT
      exact howner t ht
    · rw [hsession T hT]
      exact hi.owner T t (hmutex T hT ▸ ht)

/-- A point of a handler at which it cannot own the guard. -/
theorem Session.not_mayOwn {x : Session} {pc : HandlerPc} (hpc : x.pc op = pc)
    (ht : pc.testing = false) (hr : pc ≠ .ret) (hc : pc.completing = false) : ¬ x.mayOwn op := by
  subst hpc
  simp [Session.mayOwn, ht, hr, hc]

/-- `CancelGuard.congr` for a change of one session. -/
theorem CancelGuard.modify {f : Session → Session} (hi : CancelGuard s)
    (htest : ∀ op, ((f (s.session S)).pc op).testing = true →
      ((s.session S).pc op).testing = true)
    (hown : ∀ op, (s.session S).mayOwn op → (f (s.session S)).mayOwn op) :
    CancelGuard (s.modify S f) := by
  refine hi.congr (fun _ => rfl) (fun _ _ => rfl) ?_ ?_
  · intro T o
    by_cases hT : T = S
    · subst hT
      simpa using htest o
    · simp [hT]
  · intro T o
    by_cases hT : T = S
    · subst hT
      simpa using hown o
    · simp [hT]

/-- `CancelGuard.congr` for a change of the handler of `op` alone. -/
theorem CancelGuard.modify_handler {f : Session → Session} (hi : CancelGuard s) (op : Op)
    (hw : (f (s.session S)).m_was_cancelled = (s.session S).m_was_cancelled)
    (hpc : ∀ o ≠ op, (f (s.session S)).pc o = (s.session S).pc o)
    (htest : ((f (s.session S)).pc op).testing = true → ((s.session S).pc op).testing = true)
    (hown : (s.session S).mayOwn op → (f (s.session S)).mayOwn op) :
    CancelGuard (s.modify S f) := by
  refine hi.modify ?_ ?_
  · intro o
    by_cases ho : o = op
    · rw [ho]
      exact htest
    · rw [hpc o ho]
      exact id
  · intro o
    by_cases ho : o = op
    · rw [ho]
      exact hown
    · simp only [Session.mayOwn, hpc o ho, hw]
      exact id

theorem CancelGuard.setPc {pc : HandlerPc} (hi : CancelGuard s)
    (htest : pc.testing = true → ((s.session S).pc op).testing = true)
    (hown : (s.session S).mayOwn op → ((s.session S).setPc op pc).mayOwn op) :
    CancelGuard (s.setPc S op pc) :=
  hi.modify_handler op rfl (fun o ho => by simp [ho]) (by simpa using htest) hown

/-- A step inside `onRequestComplete`. -/
theorem CancelGuard.setPc_completing {pc pc' : HandlerPc} (hi : CancelGuard s)
    (hpc : (s.session S).pc op = pc) (hc : pc.completing = true) (hc' : pc'.completing = true)
    (ht' : pc'.testing = false) : CancelGuard (s.setPc S op pc') := by
  have hout : pc.testing = false ∧ pc ≠ .ret := by
    cases pc <;> simp [HandlerPc.testing, HandlerPc.completing] at hc ⊢
  refine hi.setPc (fun h => absurd h (by simp [ht'])) ?_
  intro h
  have hw : (s.session S).m_was_cancelled = true := by
    rcases h with h | h | h
    · rw [hpc, hout.1] at h
      exact absurd h (by decide)
    · exact absurd (hpc.symm.trans h) hout.2
    · exact h.2
  exact .inr (.inr ⟨by simpa using hc', by simpa using hw⟩)

/-- The owners of the cancel guards look only at part of the state. -/
theorem CancelGuard.of_eq (hi : CancelGuard s)
    (hm : ∀ S, s'.mutex (.m_cancel_guard S) = s.mutex (.m_cancel_guard S))
    (hs : s'.session = s.session) (hc : s'.cancel = s.cancel) : CancelGuard s' :=
  hi.congr hm (fun _ _ => by rw [hc]) (fun _ _ => by rw [hs]; exact id)
    (fun _ _ => by rw [hs]; exact id)

theorem CancelGuard.setCall {c : CallPc} (hi : CancelGuard s) : CancelGuard (s.setCall S c) :=
  CancelGuard.modify (f := (·.setCall c)) hi (fun _ => id) (fun _ => id)

theorem CancelGuard.setCancel {pc : CancelPc} (hi : CancelGuard s)
    (hpc : ∀ S, pc.holdsCancel S = (s.cancel n).holdsCancel S) :
    CancelGuard (s.setCancel n pc) := by
  refine hi.congr (fun _ => rfl) ?_ (fun _ _ => id) (fun _ _ => id)
  intro m S
  by_cases hm : m = n
  · subst hm
    simpa using hpc S
  · simp [hm]

theorem CallerStep.cancelGuard (h : CallerStep s S s') (hp : ∃ p, (s.session S).InPhase p)
    (hi : CancelGuard s) : CancelGuard s' := by
  cases h with
  | opened _ => exact hi.setCall
  | openThrows _ => exact hi.setCall
  | lockActive _ _ =>
      have hi' : CancelGuard (s.owned .m_active_sessions_guard (.caller S)) :=
        hi.of_eq (fun _ => by simp) rfl rfl
      exact hi'.setCall
  | insert _ =>
      have hi' : CancelGuard (s.insert S) := hi.of_eq (fun _ => rfl) rfl rfl
      exact hi'.setCall
  | unlockActive _ =>
      have hi' : CancelGuard (s.unlock .m_active_sessions_guard) :=
        hi.of_eq (fun _ => by simp) rfl rfl
      exact hi'.setCall
  | asyncConnect hc =>
      obtain ⟨p, hp⟩ := hp
      obtain rfl := hp.eq_calling (by rw [hc]; rfl)
      have hnot : ∀ o, ¬ (s.session S).mayOwn o :=
        fun o => Session.not_mayOwn (hp.2.1 o) rfl nofun rfl
      refine hi.modify ?_ (fun o h => absurd h (hnot o))
      intro o
      by_cases ho : o = .connect <;> simp [ho, HandlerPc.testing]

theorem HandlerStep.cancelGuard (h : HandlerStep s S op s') (hp : ∃ p, (s.session S).InPhase p)
    (hi : CancelGuard s) : CancelGuard s' := by
  cases h with
  | @enter ec hpc =>
      have hnot : ¬ (s.session S).mayOwn op := Session.not_mayOwn hpc rfl nofun rfl
      have htest : (Session.enterPc op ec).testing = false := by
        unfold Session.enterPc; split <;> rfl
      exact hi.modify_handler op (by simp) (fun o ho => by simp [ho]) (by simp [htest])
        (fun h => absurd h hnot)
  | lockCancel hpc hfree =>
      refine hi.of_session (S := S) (fun T hT => by simp [hT]) (fun _ _ _ => rfl)
        (fun T hT => by simp [hT]) ?_ ?_ ?_
      · intro n
        have hno := hi.canceller n S
        simp [hfree] at hno
        simp [hno]
      · intro o ht
        by_cases ho : o = op
        · simp [ho]
        · have hown := hi.handler S o (by simpa [ho] using ht)
          simp [hfree] at hown
      · intro t ht
        obtain rfl : t = .handler S op := by simpa [eq_comm] using ht
        exact .inr ⟨op, rfl, .inl (by simp [HandlerPc.testing])⟩
  | cancelled hpc hw =>
      exact hi.setPc nofun fun _ => .inr (.inr ⟨by simp [HandlerPc.completing], by simpa using hw⟩)
  | notCancelled hpc _ =>
      exact hi.setPc (fun _ => by rw [hpc]; rfl) fun _ => .inl (by simp [HandlerPc.testing])
  | @startNext op' hpc hn =>
      have hidle := Session.idle_of_next hp hpc rfl hn
      have hnot : ¬ (s.session S).mayOwn op' := Session.not_mayOwn hidle rfl nofun rfl
      refine hi.modify ?_ ?_
      · intro o
        by_cases ho : o = op
        · simp [ho, HandlerPc.testing]
        · by_cases ho' : o = op'
          · subst ho'
            simp [ho, HandlerPc.testing]
          · simp [ho, ho']
      · intro o
        by_cases ho : o = op
        · exact fun _ => .inr (.inl (by simp [ho]))
        · by_cases ho' : o = op'
          · subst ho'
            exact fun h => absurd h hnot
          · simp [Session.mayOwn, ho, ho']
  | shutdown hpc =>
      exact hi.setPc_completing hpc rfl rfl rfl
  | lockActive hpc _ =>
      have hi' : CancelGuard (s.owned .m_active_sessions_guard (.handler S op)) :=
        hi.of_eq (fun _ => by simp) rfl rfl
      exact hi'.setPc_completing hpc rfl rfl rfl
  | eraseEntry hpc =>
      have hi' : CancelGuard (s.erase S) := hi.of_eq (fun _ => rfl) rfl rfl
      exact hi'.setPc_completing hpc rfl rfl rfl
  | unlockActive hpc =>
      have hi' : CancelGuard (s.unlock .m_active_sessions_guard) :=
        hi.of_eq (fun _ => by simp) rfl rfl
      exact hi'.setPc_completing hpc rfl rfl rfl
  | report hpc =>
      exact hi.setPc_completing hpc rfl rfl rfl
  | callback hpc =>
      exact hi.modify_handler op rfl (fun o ho => by simp [ho]) (by simp [HandlerPc.testing])
        (fun _ => .inr (.inl (by simp)))
  | ret hpc =>
      refine hi.of_session (S := S) (fun T hT => by simp [hT]) (fun _ _ _ => rfl)
        (fun T hT => by simp [hT]) ?_ ?_ ?_
      · intro n
        have hcan := hi.canceller n S
        by_cases hown : s.mutex (.m_cancel_guard S) = some (.handler S op)
        · simp [hown] at hcan
          simp [hown, hcan]
        · simpa [hown] using hcan
      · intro o ht
        by_cases ho : o = op
        · simp [ho, HandlerPc.testing] at ht
        · have hown := hi.handler S o (by simpa [ho] using ht)
          simp [hown, ho]
      · intro t ht
        by_cases hown : s.mutex (.m_cancel_guard S) = some (.handler S op)
        · simp [hown] at ht
        · have ht' : s.mutex (.m_cancel_guard S) = some t := by simpa [hown] using ht
          rcases hi.owner S t ht' with hn | ⟨o, rfl, ho⟩
          · exact .inl hn
          · have hne : o ≠ op := fun he => hown (he ▸ ht')
            exact .inr ⟨o, rfl, by simpa [Session.mayOwn, hne] using ho⟩

/-- `CancelGuard` after a canceller has taken the guard of one session or given it back. -/
theorem CancelGuard.of_canceller (hi : CancelGuard s) (n : Nat) (S : SessionId) (pc : CancelPc)
    (hcancel : ∀ m, s'.cancel m = if m = n then pc else s.cancel m)
    (hmutex : ∀ T ≠ S, s'.mutex (.m_cancel_guard T) = s.mutex (.m_cancel_guard T))
    (hsession : s'.session = s.session)
    (hother : ∀ T ≠ S, pc.holdsCancel T = (s.cancel n).holdsCancel T)
    (hbefore : ∀ t, s.mutex (.m_cancel_guard S) = some t → t = .canceller n)
    (hafter : s'.mutex (.m_cancel_guard S) =
      if pc.holdsCancel S then some (.canceller n) else none) : CancelGuard s' := by
  refine hi.of_session hmutex ?_ (fun T _ => by rw [hsession]) ?_ ?_ ?_
  · intro m T hT
    by_cases hm : m = n
    · rw [hcancel, if_pos hm, hm]
      exact hother T hT
    · rw [hcancel, if_neg hm]
  · intro m
    by_cases hm : m = n
    · rw [hcancel, if_pos hm, hafter, hm]
      cases pc.holdsCancel S <;> simp
    · -- no other canceller had the guard, and none has it now
      have hno : s.mutex (.m_cancel_guard S) ≠ some (.canceller m) := by
        intro hown
        exact hm (Thread.canceller.inj (hbefore _ hown))
      have hno' : s'.mutex (.m_cancel_guard S) ≠ some (.canceller m) := by
        rw [hafter]
        cases pc.holdsCancel S with
        | true => simpa using fun he : n = m => hm he.symm
        | false => simp
      rw [hcancel, if_neg hm]
      exact iff_of_false (fun hheld => hno ((hi.canceller m S).mp hheld)) hno'
  · intro op ht
    rw [hsession] at ht
    exact absurd (hbefore _ (hi.handler S op ht)) (by simp)
  · intro t ht
    rw [hafter] at ht
    cases hheld : pc.holdsCancel S with
    | true => exact .inl ⟨n, by simpa [hheld, eq_comm] using ht⟩
    | false => simp [hheld] at ht

theorem CancelStep.cancelGuard (h : CancelStep s n s') (hi : CancelGuard s) : CancelGuard s' := by
  cases h with
  | lockActive hpc _ =>
      have hi' : CancelGuard (s.owned .m_active_sessions_guard (.canceller n)) :=
        hi.of_eq (fun _ => by simp) rfl rfl
      exact hi'.setCancel fun _ => by simp [hpc, CancelPc.holdsCancel]
  | found hpc _ => exact hi.setCancel fun _ => by simp [hpc, CancelPc.holdsCancel]
  | notFound hpc _ => exact hi.setCancel fun _ => by simp [hpc, CancelPc.holdsCancel]
  | @lockCancel S hpc hfree =>
      refine hi.of_canceller n S (.setCancelled S) (fun _ => by simp)
        (fun T hT => by simp [hT]) rfl ?_ ?_ ?_
      · intro T hT
        have hST : ¬ S = T := fun he => hT he.symm
        simp [hpc, hST, CancelPc.holdsCancel]
      · intro t ht
        simp [hfree] at ht
      · simp [CancelPc.holdsCancel]
  | @setCancelled S hpc =>
      have hi' : CancelGuard (s.modify S ({ · with m_was_cancelled := true })) :=
        hi.modify (fun _ => id) fun _ h => h.imp_right (.imp_right fun h => ⟨h.1, rfl⟩)
      exact hi'.setCancel fun _ => by simp [hpc, CancelPc.holdsCancel]
  | cancelSock hpc => exact hi.setCancel fun _ => by simp [hpc, CancelPc.holdsCancel]
  | @unlockCancel S hpc =>
      have hself : s.mutex (.m_cancel_guard S) = some (.canceller n) :=
        (hi.canceller n S).mp (by simp [hpc, CancelPc.holdsCancel])
      refine hi.of_canceller n S .unlockActive (fun _ => by simp) (fun T hT => by simp [hT]) rfl ?_ ?_ ?_
      · intro T hT
        have hST : ¬ S = T := fun he => hT he.symm
        simp [hpc, hST, CancelPc.holdsCancel]
      · intro t ht
        exact (Option.some.inj (hself.symm.trans ht)).symm
      · simp [CancelPc.holdsCancel]
  | unlockActive hpc =>
      have hi' : CancelGuard (s.unlock .m_active_sessions_guard) :=
        hi.of_eq (fun _ => by simp) rfl rfl
      exact hi'.setCancel fun _ => by simp [hpc, CancelPc.holdsCancel]

theorem Step.cancelGuard (h : Step s a s') (hp : ∀ T, ∃ p, (s.session T).InPhase p)
    (hnew : (s.session s.next).InPhase .absent) (hi : CancelGuard s) : CancelGuard s' := by
  cases h with
  | badIp => exact hi
  | @construct d id =>
      refine hi.congr (fun _ => rfl) (fun _ _ => rfl) ?_ ?_
      · intro T o
        by_cases hT : T = s.next
        · simp [hT, HandlerPc.testing]
        · simp [hT]
      · intro T o
        by_cases hT : T = s.next
        · subst hT
          exact fun h => absurd h (Session.not_mayOwn (hnew.2.1 o) rfl nofun rfl)
        · simp [hT]
  | caller h => exact h.cancelGuard (hp _) hi
  | @complete S op ec _ hpc =>
      have hnot : ¬ (s.session S).mayOwn op := Session.not_mayOwn hpc rfl nofun rfl
      exact hi.modify_handler op (by simp) (fun o ho => by simp [ho]) (by simp [HandlerPc.testing])
        (fun h => absurd h hnot)
  | handler h => exact h.cancelGuard (hp _) hi
  | cancelRequest hpc => exact hi.setCancel fun _ => by simp [hpc, CancelPc.holdsCancel]
  | canceller h => exact h.cancelGuard hi
  | close => exact hi.of_eq (fun _ => rfl) rfl rfl

/-! ### In every reachable state -/

/-- In every reachable state the mutexes are owned by the threads in their critical
sections. -/
theorem reachable_locks (h : client.Reachable s) : ActiveGuard s ∧ CancelGuard s := by
  refine h.invariant (P := fun s => ActiveGuard s ∧ CancelGuard s) ?_ ?_
  · refine ⟨?_, ?_, ?_, ?_⟩
    · intro t
      cases t <;> simp [client, State.init, State.holdsActive, Session.new, CallPc.holdsActive,
        HandlerPc.holdsActive, CancelPc.holdsActive]
    · intro n S
      simp [client, State.init, CancelPc.holdsCancel]
    · intro S op ht
      simp [client, State.init, Session.new, HandlerPc.testing] at ht
    · intro S t ht
      simp [client, State.init] at ht
  · intro s a s' hr ⟨hact, hcan⟩ hs
    obtain ⟨hp, hfresh⟩ := reachable_phase hr
    have hst := step_inv hs
    have hnew := hfresh s.next (Nat.le_refl _)
    exact ⟨hst.activeGuard hp hnew hact, hst.cancelGuard hp hnew hcan⟩

end AsioStudy.AsyncTcpClient
