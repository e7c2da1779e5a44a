import AsioStudy.AsyncTcpClient.Cancellation

/-!
# AsioStudy.AsyncTcpClient.Deadlock

The two kinds of mutex are taken in opposite orders. `cancelRequest` locks
`m_active_sessions_guard` and then the `m_cancel_guard` of the session it has found. A
handler that finds its session cancelled keeps `m_cancel_guard` locked during
`onRequestComplete`, which locks `m_active_sessions_guard`.

`deadlocked_clash` shows that every cycle of the wait-for graph contains such a pair, and
`Clash.leadsToDeadlock` that the pair is not only necessary: once it has formed, the handler
walks into the deadlock. A pair forms at a `Crosses` step only.
-/

namespace AsioStudy.AsyncTcpClient

variable {s s' : State} {a : Action} {S T : SessionId} {op : Op} {n : Nat} {t u : Thread}
  {m : Mutex}

/-! ### The wait-for graph -/

/-- The mutex the thread is about to lock. -/
def State.waits (s : State) : Thread → Option Mutex
  | .caller S =>
      match (s.session S).call with
      | .lockActive => some .m_active_sessions_guard
      | _ => none
  | .handler S op =>
      match (s.session S).pc op with
      | .lockCancel => some (.m_cancel_guard S)
      | .lockActive => some .m_active_sessions_guard
      | _ => none
  | .canceller n =>
      match s.cancel n with
      | .lockActive _ => some .m_active_sessions_guard
      | .lockCancel S => some (.m_cancel_guard S)
      | _ => none

/-- Some threads wait for each other in a cycle. -/
def Deadlocked (s : State) : Prop := Mutexes.Deadlock (fun t m => s.waits t = some m) s.mutex

/-- The handler is on its way from the lock of `m_cancel_guard` to the lock of
`m_active_sessions_guard`, if its session is cancelled. -/
def HandlerPc.heading : HandlerPc → Bool
  | .testCancelled | .shutdown | .lockActive => true
  | _ => false

/-- A handler of a cancelled session owns `m_cancel_guard` and is on its way to
`m_active_sessions_guard`. -/
def OnCancelledPath (s : State) (S : SessionId) (op : Op) : Prop :=
  s.mutex (.m_cancel_guard S) = some (.handler S op) ∧
  (s.session S).m_was_cancelled = true ∧ ((s.session S).pc op).heading = true

/-- A `cancelRequest` call waits for the `m_cancel_guard` of such a session. -/
def Clash (s : State) : Prop :=
  ∃ n S op, s.cancel n = .lockCancel S ∧ OnCancelledPath s S op

/-- The only owner of `m_active_sessions_guard` that waits is a `cancelRequest` call that
has found its session. -/
theorem ActiveGuard.waiting_owner (hact : ActiveGuard s)
    (hown : s.mutex .m_active_sessions_guard = some t) (hw : s.waits t = some m) :
    ∃ n S, t = .canceller n ∧ s.cancel n = .lockCancel S ∧ m = .m_cancel_guard S := by
  have hin : s.holdsActive t = true := (hact t).mpr hown
  cases t with
  | caller S =>
      cases hc : (s.session S).call <;>
        simp [State.holdsActive, State.waits, hc, CallPc.holdsActive] at hin hw
  | handler S op =>
      cases hpc : (s.session S).pc op <;>
        simp [State.holdsActive, State.waits, hpc, HandlerPc.holdsActive] at hin hw
  | canceller n =>
      cases hpc : s.cancel n with
      | lockCancel S =>
          have hm : m = .m_cancel_guard S := by simpa [State.waits, hpc, eq_comm] using hw
          exact ⟨n, S, rfl, hpc, hm⟩
      | lockActive id => simp [State.holdsActive, hpc, CancelPc.holdsActive] at hin
      | _ => simp [State.waits, hpc] at hw

/-- The only owner of a `m_cancel_guard` that waits is a handler of the cancelled session,
inside `onRequestComplete`. -/
theorem CancelGuard.waiting_owner (hcan : CancelGuard s)
    (hown : s.mutex (.m_cancel_guard S) = some t) (hw : s.waits t = some m) :
    ∃ op, t = .handler S op ∧ (s.session S).pc op = .lockActive ∧
      (s.session S).m_was_cancelled = true ∧ m = .m_active_sessions_guard := by
  rcases hcan.owner S t hown with ⟨n, rfl⟩ | ⟨op, rfl, hop⟩
  · have hholds := (hcan.canceller n S).mpr hown
    cases hpc : s.cancel n <;> simp [State.waits, hpc, CancelPc.holdsCancel] at hholds hw
  · refine ⟨op, rfl, ?_⟩
    rcases hop with htest | hret | ⟨hcompl, hflag⟩
    · cases hpc : (s.session S).pc op <;>
        simp [State.waits, hpc, HandlerPc.testing] at htest hw
    · simp [State.waits, hret] at hw
    · cases hpc : (s.session S).pc op <;>
        simp [State.waits, hpc, HandlerPc.completing] at hcompl hw
      exact ⟨rfl, hflag, hw.symm⟩

/-- **Every deadlock is the crossing of the two lock orders.** -/
theorem deadlocked_clash (hact : ActiveGuard s) (hcan : CancelGuard s) (hd : Deadlocked s) :
    Clash s := by
  -- a thread of the cycle that owns `m_active_sessions_guard` gives the pair
  have hactive : ∀ t, Mutexes.OnCycle (fun t m => s.waits t = some m) s.mutex t →
      s.mutex .m_active_sessions_guard = some t → Clash s := by
    intro t ht hown
    obtain ⟨m, u, hw, hm, hu⟩ := ht.next
    obtain ⟨n, S, rfl, hpc, rfl⟩ := hact.waiting_owner hown hw
    obtain ⟨m', -, hw', -, -⟩ := hu.next
    obtain ⟨op, rfl, hpc', hflag, -⟩ := hcan.waiting_owner hm hw'
    exact ⟨n, S, op, hpc, hm, hflag, by rw [hpc']; rfl⟩
  obtain ⟨t, ht⟩ := hd
  obtain ⟨m, u, -, hm, hu⟩ := ht.next
  cases m with
  | m_active_sessions_guard => exact hactive u hu hm
  | m_cancel_guard S =>
      obtain ⟨m', v, hw', hm', hv⟩ := hu.next
      obtain ⟨op, rfl, -, -, rfl⟩ := hcan.waiting_owner hm hw'
      exact hactive v hv hm'

/-! ### How a crossing forms -/

/-- **The condition that fails.** The step crosses the lock orders: a `cancelRequest`
call finds a session of which a handler is on its cancelled path, or a handler of a
cancelled session locks `m_cancel_guard` while a `cancelRequest` call that has found the
session waits for it. -/
def Crosses (s : State) : Action → Prop
  | .canceller n => ∃ id S op, s.cancel n = .find id ∧
      s.m_active_sessions (mapKey id) = some S ∧ OnCancelledPath s S op
  | .handler S op => (s.session S).pc op = .lockCancel ∧
      (s.session S).m_was_cancelled = true ∧
      ∃ n, s.mutex .m_active_sessions_guard = some (.canceller n) ∧ s.cancel n = .lockCancel S
  | _ => False

/-- A call waits for a `m_cancel_guard` after it has found the session. -/
theorem Step.lockCancel (h : Step s a s') (hn : s'.cancel n = .lockCancel S) :
    s.cancel n = .lockCancel S ∨
    a = .canceller n ∧ s' = s.setCancel n (.lockCancel S) ∧
      ∃ id, s.cancel n = .find id ∧ s.m_active_sessions (mapKey id) = some S := by
  cases h with
  | caller h => exact .inl (by cases h <;> exact hn)
  | handler h => exact .inl (by cases h <;> exact hn)
  | @cancelRequest k id hpc =>
      by_cases hk : n = k
      · subst hk
        simp at hn
      · exact .inl (by simpa [hk] using hn)
  | @canceller k _ h =>
      by_cases hk : n = k
      · subst hk
        cases h with
        | @found id S' hpc hmap =>
            obtain rfl : S' = S := by simpa using hn
            exact .inr ⟨rfl, rfl, id, hpc, hmap⟩
        | _ => simp at hn
      · cases h <;> exact .inl (by simpa [hk] using hn)
  | _ => exact .inl hn

/-- A handler gets on the cancelled path by locking `m_cancel_guard`. -/
theorem HandlerStep.onCancelledPath {o : Op} (h : HandlerStep s S op s') (hcan : CancelGuard s)
    (hp : OnCancelledPath s' T o) :
    OnCancelledPath s T o ∨
    S = T ∧ op = o ∧ (s.session T).pc o = .lockCancel ∧
      (s.session T).m_was_cancelled = true := by
  obtain ⟨hown, hflag, hpc'⟩ := hp
  by_cases hTS : T = S
  · subst hTS
    by_cases ho : o = op
    · subst ho
      cases h with
      | enter hpc =>
          -- at its entry the handler does not own the guard
          have hown' : s.mutex (.m_cancel_guard T) = some (.handler T o) := hown
          rcases hcan.owner T _ hown' with ⟨n, hn⟩ | ⟨o', ho', hmay⟩
          · exact absurd hn nofun
          · obtain ⟨-, rfl⟩ := Thread.handler.inj ho'
            exact absurd hmay (Session.not_mayOwn hpc rfl nofun rfl)
      | lockCancel hpc _ => exact .inr ⟨rfl, rfl, hpc, by simpa using hflag⟩
      | cancelled hpc _ =>
          exact .inl ⟨hown, by simpa using hflag, by rw [hpc]; rfl⟩
      | shutdown hpc =>
          exact .inl ⟨hown, by simpa using hflag, by rw [hpc]; rfl⟩
      | _ => simp [HandlerPc.heading] at hpc'
    · refine .inl ?_
      cases h with
      | lockCancel hpc _ => exact absurd (by simpa using hown) (Ne.symm ho)
      | @startNext op' hpc hn =>
          by_cases ho' : o = op'
          · subst ho'
            simp [ho, HandlerPc.heading] at hpc'
          · exact ⟨hown, by simpa using hflag, by simpa [ho, ho'] using hpc'⟩
      | lockActive _ _ =>
          exact ⟨by simpa using hown, by simpa using hflag, by simpa [ho] using hpc'⟩
      | unlockActive _ =>
          exact ⟨by simpa using hown, by simpa using hflag, by simpa [ho] using hpc'⟩
      | ret _ =>
          have hown' : s.mutex (.m_cancel_guard T) = some (.handler T o) := by
            by_cases hself : s.mutex (.m_cancel_guard T) = some (.handler T op)
            · simp [hself] at hown
            · simpa [hself] using hown
          exact ⟨hown', by simpa using hflag, by simpa [ho] using hpc'⟩
      | _ => exact ⟨hown, by simpa using hflag, by simpa [ho] using hpc'⟩
  · refine .inl ?_
    cases h <;> exact ⟨by simpa [hTS] using hown, by simpa [hTS] using hflag,
      by simpa [hTS] using hpc'⟩

theorem CancelStep.onCancelledPath (h : CancelStep s n s') (hcan : CancelGuard s)
    (hp : OnCancelledPath s' T op) : OnCancelledPath s T op := by
  obtain ⟨hown, hflag, hpc⟩ := hp
  cases h with
  | @lockCancel S _ _ =>
      by_cases hTS : T = S
      · simp [hTS] at hown
      · exact ⟨by simpa [hTS] using hown, by simpa using hflag, by simpa using hpc⟩
  | @setCancelled S hn =>
      by_cases hTS : T = S
      · -- the guard is owned by the call that sets the flag
        subst hTS
        have hself := (hcan.canceller n T).mp (by simp [hn, CancelPc.holdsCancel])
        exact absurd (hself.symm.trans hown) (by simp)
      · exact ⟨hown, by simpa [hTS] using hflag, by simpa [hTS] using hpc⟩
  | @unlockCancel S _ =>
      by_cases hTS : T = S
      · simp [hTS] at hown
      · exact ⟨by simpa [hTS] using hown, by simpa using hflag, by simpa using hpc⟩
  | lockActive _ _ => exact ⟨by simpa using hown, by simpa using hflag, by simpa using hpc⟩
  | unlockActive _ => exact ⟨by simpa using hown, by simpa using hflag, by simpa using hpc⟩
  | _ => exact ⟨hown, hflag, hpc⟩

theorem Step.onCancelledPath (h : Step s a s') (hcan : CancelGuard s)
    (hp : OnCancelledPath s' T op) :
    OnCancelledPath s T op ∨
    a = .handler T op ∧ (s.session T).pc op = .lockCancel ∧
      (s.session T).m_was_cancelled = true := by
  cases h with
  | construct =>
      obtain ⟨hown, hflag, hpc⟩ := hp
      by_cases hTn : T = s.next
      · simp [hTn] at hflag
      · exact .inl ⟨hown, by simpa [hTn] using hflag, by simpa [hTn] using hpc⟩
  | @caller S _ _ h =>
      obtain ⟨hown, hflag, hpc⟩ := hp
      refine .inl ?_
      by_cases hTS : T = S
      · subst hTS
        cases h with
        | asyncConnect _ =>
            by_cases ho : op = .connect
            · simp [ho, HandlerPc.heading] at hpc
            · exact ⟨hown, by simpa using hflag, by simpa [ho] using hpc⟩
        | _ => exact ⟨by simpa using hown, by simpa using hflag, by simpa using hpc⟩
      · cases h <;> exact ⟨by simpa [hTS] using hown, by simpa [hTS] using hflag,
          by simpa [hTS] using hpc⟩
  | @complete S o _ _ _ =>
      obtain ⟨hown, hflag, hpc⟩ := hp
      refine .inl ?_
      by_cases hTS : T = S
      · subst hTS
        by_cases ho : op = o
        · simp [ho, HandlerPc.heading] at hpc
        · exact ⟨hown, by simpa using hflag, by simpa [ho] using hpc⟩
      · exact ⟨hown, by simpa [hTS] using hflag, by simpa [hTS] using hpc⟩
  | handler h =>
      rcases h.onCancelledPath hcan hp with hold | ⟨rfl, rfl, hpc, hflag⟩
      · exact .inl hold
      · exact .inr ⟨rfl, hpc, hflag⟩
  | canceller h => exact .inl (h.onCancelledPath hcan hp)
  | _ => exact .inl hp

/-- **A clash is there before the step, or the step crosses the lock orders.** -/
theorem Step.clash (h : Step s a s') (hact : ActiveGuard s) (hcan : CancelGuard s)
    (hc : Clash s') : Clash s ∨ Crosses s a := by
  obtain ⟨n, S, op, hn, hp⟩ := hc
  rcases h.lockCancel hn with hn₀ | ⟨rfl, -, id, hfind, hmap⟩
  · rcases h.onCancelledPath hcan hp with hp₀ | ⟨rfl, hpc, hflag⟩
    · exact .inl ⟨n, S, op, hn₀, hp₀⟩
    · have hin : s.holdsActive (.canceller n) = true := by
        simp [State.holdsActive, hn₀, CancelPc.holdsActive]
      exact .inr ⟨hpc, hflag, n, (hact _).mp hin, hn₀⟩
  · rcases h.onCancelledPath hcan hp with hp₀ | ⟨hact', -⟩
    · exact .inr ⟨id, S, op, hfind, hmap, hp₀⟩
    · exact absurd hact' (by simp)

/-- In a run that never crosses the lock orders there is no clash. -/
theorem no_clash (h : client.ReachableUnder (fun s a => ¬ Crosses s a) s) : ¬ Clash s := by
  refine h.invariant (P := fun s => ¬ Clash s) ?_ ?_
  · intro h
    obtain ⟨n, S, op, hn, -⟩ := h
    exact absurd hn (by simp [client, State.init])
  · intro s a s' hr hi hok hs hc
    obtain ⟨hact, hcan⟩ := reachable_locks hr.reachable
    exact ((step_inv hs).clash hact hcan hc).elim hi hok

/-! ### A clash ends in a deadlock -/

/-- Once both threads wait they are deadlocked. -/
theorem deadlocked_of_waiting (hact : ActiveGuard s) (hn : s.cancel n = .lockCancel S)
    (hown : s.mutex (.m_cancel_guard S) = some (.handler S op))
    (hpc : (s.session S).pc op = .lockActive) : Deadlocked s := by
  have hin : s.holdsActive (.canceller n) = true := by
    simp [State.holdsActive, hn, CancelPc.holdsActive]
  exact .of_pair (t := .canceller n) (u := .handler S op) (by simp [State.waits, hn]) hown
    (by simp [State.waits, hpc]) ((hact _).mp hin)

/-- Some run from here ends in a deadlock. -/
def LeadsToDeadlock (s : State) : Prop := ∃ as s', client.exec s as = some s' ∧ Deadlocked s'

theorem LeadsToDeadlock.of_step (hs : client.step s a = some s') (h : LeadsToDeadlock s') :
    LeadsToDeadlock s := by
  obtain ⟨as, s'', he, hd⟩ := h
  exact ⟨a :: as, s'', TransitionSystem.exec_cons_of_step hs he, hd⟩

theorem leadsToDeadlock_of_lockActive (hr : client.Reachable s) (hn : s.cancel n = .lockCancel S)
    (hown : s.mutex (.m_cancel_guard S) = some (.handler S op))
    (hpc : (s.session S).pc op = .lockActive) : LeadsToDeadlock s :=
  ⟨[], s, rfl, deadlocked_of_waiting (reachable_locks hr).1 hn hown hpc⟩

theorem leadsToDeadlock_of_shutdown (hr : client.Reachable s) (hn : s.cancel n = .lockCancel S)
    (hown : s.mutex (.m_cancel_guard S) = some (.handler S op))
    (hpc : (s.session S).pc op = .shutdown) : LeadsToDeadlock s := by
  have hs : client.step s (.handler S op) = some (s.setPc S op .lockActive) := by
    simp [client, step, stepHandler, hpc]
  exact .of_step hs (leadsToDeadlock_of_lockActive (hr.step hs) hn hown (by simp))

theorem leadsToDeadlock_of_testCancelled (hr : client.Reachable s)
    (hn : s.cancel n = .lockCancel S)
    (hown : s.mutex (.m_cancel_guard S) = some (.handler S op))
    (hflag : (s.session S).m_was_cancelled = true)
    (hpc : (s.session S).pc op = .testCancelled) : LeadsToDeadlock s := by
  have hs : client.step s (.handler S op) = some (s.setPc S op .shutdown) := by
    simp [client, step, stepHandler, hpc, hflag]
  exact .of_step hs (leadsToDeadlock_of_shutdown (hr.step hs) hn hown (by simp))

/-- The handler of a clash walks up to the lock of `m_active_sessions_guard`, which the
waiting call owns. -/
theorem Clash.leadsToDeadlock (hr : client.Reachable s) (hc : Clash s) : LeadsToDeadlock s := by
  obtain ⟨n, S, op, hn, hown, hflag, hhead⟩ := hc
  cases hpc : (s.session S).pc op with
  | testCancelled => exact leadsToDeadlock_of_testCancelled hr hn hown hflag hpc
  | shutdown => exact leadsToDeadlock_of_shutdown hr hn hown hpc
  | lockActive => exact leadsToDeadlock_of_lockActive hr hn hown hpc
  | _ => simp [hpc, HandlerPc.heading] at hhead

/-- A step that crosses the lock orders makes a clash. -/
theorem Crosses.clash (h : Step s a s') (hx : Crosses s a) : Clash s' := by
  cases a with
  | canceller n =>
      obtain ⟨id, S, op, hn, hmap, hown, hflag, hhead⟩ := hx
      obtain ⟨hs, hses, hmut⟩ : s'.cancel n = .lockCancel S ∧ s'.session = s.session ∧
          s'.mutex = s.mutex := by
        cases h with
        | canceller h => cases h <;> simp_all
      exact ⟨n, S, op, hs, by rw [hmut]; exact hown, by rw [hses]; exact hflag,
        by rw [hses]; exact hhead⟩
  | handler S op =>
      obtain ⟨hpc, hflag, n, -, hn⟩ := hx
      cases h with
      | handler h =>
          cases h with
          | lockCancel _ _ =>
              exact ⟨n, S, op, hn, by simp, by simpa using hflag, by simp [HandlerPc.heading]⟩
          | _ => simp_all
  | _ => exact absurd hx id

/-- **No deadlock, unless the lock orders cross.** A run none of whose steps crosses the
lock orders reaches no deadlock; a step that does, in whatever run, leads to one. -/
theorem no_deadlock_of_no_crossing (hr : client.Reachable s) :
    (client.ReachableUnder (fun s a => ¬ Crosses s a) s → ¬ Deadlocked s) ∧
    ∀ a s', step s a = some s' → Crosses s a → LeadsToDeadlock s' := by
  refine ⟨?_, ?_⟩
  · intro hunder hd
    obtain ⟨hact, hcan⟩ := reachable_locks hr
    exact no_clash hunder (deadlocked_clash hact hcan hd)
  · intro a s' hs hx
    exact (hx.clash (step_inv hs)).leadsToDeadlock (hr.step hs)

instance : Decidable (OnCancelledPath s S op) := inferInstanceAs (Decidable (_ ∧ _ ∧ _))

instance : Decidable (∃ op, OnCancelledPath s S op) :=
  decidable_of_iff (OnCancelledPath s S .connect ∨ OnCancelledPath s S .write ∨
      OnCancelledPath s S .read)
    ⟨fun h => by rcases h with h | h | h <;> exact ⟨_, h⟩,
      fun ⟨op, h⟩ => by cases op <;> simp [h]⟩

instance : Decidable (Crosses s a) :=
  match a with
  | .canceller n =>
      match hn : s.cancel n with
      | .find id =>
          match hmap : s.m_active_sessions (mapKey id) with
          | some S => decidable_of_iff (∃ op, OnCancelledPath s S op) (by simp [Crosses, hn, hmap])
          | none => isFalse (by simp [Crosses, hn, hmap])
      | .idle | .lockActive _ | .setCancelled _ | .lockCancel _ | .cancelSock _
      | .unlockCancel _ | .unlockActive => isFalse (by simp [Crosses, hn])
  | .handler S op =>
      match hm : s.mutex .m_active_sessions_guard with
      | some (.canceller n) =>
          decidable_of_iff ((s.session S).pc op = .lockCancel ∧
            (s.session S).m_was_cancelled = true ∧ s.cancel n = .lockCancel S)
            (by simp [Crosses, hm])
      | some (.caller _) | some (.handler _ _) | none => isFalse (by simp [Crosses, hm])
  | .caller .. | .complete .. | .cancelRequest .. | .close | .emulateLongComputationOp .. =>
      isFalse id

/-- A request is cancelled while its connect is pending, the connect succeeds all the same
and its handler reports the cancellation. -/
def cancelledBranchRun : List Action :=
  pendingCancelRun ++ [.canceller 0, .canceller 0, .canceller 0,
    .complete 0 .connect .success [], .handler 0 .connect, .handler 0 .connect]

theorem no_deadlock_cancelledBranch :
    ∃ s, client.Reachable s ∧ s.mutex (.m_cancel_guard 0) = some (.handler 0 .connect) ∧
      ¬ Deadlocked s := by
  have hrun : (client.execUnder (fun s a => ¬ Crosses s a) client.init cancelledBranchRun).map
      (fun s => s.mutex (.m_cancel_guard 0)) = some (some (.handler 0 .connect)) := by decide
  obtain ⟨s, hs, hown⟩ := Option.map_eq_some_iff.mp hrun
  have hunder := TransitionSystem.reachableUnder_of_execUnder hs
  have hr := hunder.reachable
  exact ⟨s, hr, hown, (no_deadlock_of_no_crossing hr).1 hunder⟩

/-- While the handler is on its cancelled path, a second `cancelRequest` call finds the
session. -/
def crossingRun : List Action :=
  cancelledBranchRun ++ [.cancelRequest 1 1, .canceller 1, .canceller 1,
    .handler 0 .connect, .handler 0 .connect]

/-- The second `cancelRequest` call and the connect handler wait for each other. -/
theorem deadlock_of_second_cancel : ¬ ∀ s, client.Reachable s → ¬ Deadlocked s := by
  intro h
  have hrun : (client.exec client.init crossingRun).map (fun s =>
      (s.waits (.canceller 1), s.mutex (.m_cancel_guard 0), s.waits (.handler 0 .connect),
        s.mutex .m_active_sessions_guard)) =
      some (some (.m_cancel_guard 0), some (.handler 0 .connect),
        some .m_active_sessions_guard, some (.canceller 1)) := by decide
  obtain ⟨s, hs, he⟩ := Option.map_eq_some_iff.mp hrun
  simp only [Prod.mk.injEq] at he
  obtain ⟨hw, hown, hw', hown'⟩ := he
  exact h s (TransitionSystem.reachable_of_exec hs) (.of_pair hw hown hw' hown')

end AsioStudy.AsyncTcpClient
