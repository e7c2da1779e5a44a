import AsioStudy.AsyncTcpClient.Registry

/-!
# AsioStudy.AsyncTcpClient.Cancellation

What a `cancelRequest` call that finds its session achieves.

* **It is never lost.** `onRequestComplete` reads `m_was_cancelled` without
  `m_cancel_guard`, but only after it has erased the session's key under
  `m_active_sessions_guard`: a call that has found the session keeps that mutex until the
  flag is set, and a session that has passed the erase step is never found again. So
  the reported code is already final when it is computed (`reachable_report`), and
  `cancellation_not_lost` follows.
* **It does not stop the first operation.** The handlers test the flag under
  `m_cancel_guard` before they start the next operation, but
  `emulateLongComputationOp` registers the session, unlocks, and then calls
  `async_connect` without a test. `stopsWork_of_cancelsAfterConnect` shows that this window is the
  only way a cancelled session can still start an operation.
-/

namespace AsioStudy.AsyncTcpClient

variable {s s' : State} {a : Action} {S T : SessionId} {op : Op} {n : Nat} {x y : Session}

/-! ### The reported error code -/

/-- The codes about to be reported and the codes reported are the ones the session's
members determine. -/
def Session.Reported (x : Session) : Prop :=
  (∀ op ec, x.pc op = .callback ec → ec = x.reported) ∧
  ∀ cb ∈ x.callbacks, cb.ec = x.reported

theorem Session.Reported.of_le {x y : Session} (h : x.Reported) (hrep : y.reported = x.reported)
    (hcb : y.callbacks = x.callbacks)
    (hpc : ∀ op ec, y.pc op = .callback ec → x.pc op = .callback ec) : y.Reported :=
  ⟨fun op ec he => hrep ▸ h.1 op ec (hpc op ec he), fun cb hm => hrep ▸ h.2 cb (hcb ▸ hm)⟩

/-- Before the erase step nothing is reported yet. -/
theorem Session.InFlight.reported {x : Session} (h : x.InFlight) : x.Reported := by
  refine ⟨?_, ?_⟩
  · intro op ec hpc
    exact absurd (.inr ⟨op, by rw [hpc]; rfl⟩) h.2
  · intro cb hm
    exact absurd (.inl fun he => by simp [he] at hm) h.2

/-- A handler that has just been invoked is the only one at work: nothing is reported
yet. -/
theorem Session.InPhase.no_report {x : Session} {p : Phase} {pc : HandlerPc} (hp : x.InPhase p)
    (hpc : x.pc op = pc) (hw : pc.working = true) :
    x.callbacks = [] ∧ ∀ o, o ≠ op → ∀ ec, x.pc o ≠ .callback ec := by
  obtain rfl := hp.eq_handling hpc hw
  refine ⟨hp.2.1, fun o ho ec hec => ho ?_⟩
  exact (Phase.handling.inj (hp.eq_handling hec rfl)).symm

/-- A change of the handler of `op` alone that does not lead to the callback. -/
theorem Session.Reported.setPc {x : Session} (h : x.Reported) (op : Op) (pc : HandlerPc)
    (hpc : ∀ ec, pc ≠ .callback ec) : (x.setPc op pc).Reported := by
  refine h.of_le rfl rfl ?_
  intro o ec ho
  by_cases hop : o = op
  · exact absurd (by simpa [hop] using ho) (hpc ec)
  · simpa [hop] using ho

theorem CallMove.reported (h : CallMove x y) (hx : x.Reported) : y.Reported := by
  cases h with
  | asyncConnect _ => exact (hx.setPc .connect .pending (by simp)).of_le rfl rfl (fun _ _ => id)
  | _ => exact hx.of_le rfl rfl (fun _ _ => id)

theorem HandlerMove.reported (h : HandlerMove x op y) (hp : ∃ p, x.InPhase p)
    (hx : x.Reported) : y.Reported := by
  obtain ⟨p, hp⟩ := hp
  cases h with
  | @enter ec hpc =>
      obtain ⟨hcb, hothers⟩ := hp.no_report hpc rfl
      have henter : ∀ ec', Session.enterPc op ec ≠ .callback ec' := by
        intro ec'; unfold Session.enterPc; split <;> simp
      refine ⟨?_, ?_⟩
      · intro o ec' hec
        by_cases ho : o = op
        · exact absurd (by simpa [ho] using hec) (henter ec')
        · exact absurd (by simpa [ho] using hec) (hothers o ho ec')
      · intro cb hm
        simp [hcb] at hm
  | startNext hpc hn => exact (hx.setPc _ .pending (by simp)).setPc op .ret (by simp)
  | report hpc =>
      refine ⟨?_, hx.2⟩
      intro o ec hec
      by_cases ho : o = op
      · simpa [ho, eq_comm] using hec
      · exact hx.1 o ec (by simpa [ho] using hec)
  | @callback ec hpc =>
      refine ⟨?_, ?_⟩
      · intro o ec' hec
        by_cases ho : o = op
        · simp [ho] at hec
        · exact hx.1 o ec' (by simpa [ho] using hec)
      · intro cb hm
        simp only [Session.setPc_frame, Session.invokeCallback_frame, List.mem_append,
          List.mem_singleton] at hm
        rcases hm with hm | rfl
        · exact hx.2 cb hm
        · exact hx.1 op ec hpc
  | _ => exact hx.setPc op _ (by simp)

theorem SessionStep.reported (h : SessionStep s T a y) (hp : ∃ p, (s.session T).InPhase p)
    (hreg : Registry s) (hT : (s.session T).Reported) : y.Reported := by
  cases h with
  | construct _ =>
      refine ⟨?_, ?_⟩
      · exact fun _ _ h => absurd h (by simp)
      · exact fun cb hm => absurd hm List.not_mem_nil
  | caller h => exact h.reported hT
  | @complete op _ received _ =>
      have hreceive : ((s.session T).receive op received).Reported :=
        hT.of_le (by simp) (by simp) (by simp)
      exact hreceive.setPc op _ (by simp)
  | handler h => exact h.reported hp hT
  | @setCancelled n hpc =>
      -- the call still holds the entry of the session: it has not been reported
      have hentry := hreg.target n T (by rw [hpc]; rfl)
      have hfl := (hreg.entry _ T hentry).2
      have hfl' : ({ s.session T with m_was_cancelled := true } : Session).InFlight := hfl
      exact hfl'.reported

theorem Step.reported (h : Step s a s') (hp : ∀ T, ∃ p, (s.session T).InPhase p)
    (hreg : Registry s) (hT : (s.session T).Reported) : (s'.session T).Reported := by
  rcases h.session T with hsame | hs
  · rw [hsame]
    exact hT
  · exact hs.reported (hp T) hreg hT

/-- In every reachable state the error code of each callback invocation is the one the
session's `m_ec` and `m_was_cancelled` determine. -/
theorem reachable_report (h : client.Reachable s) : ∀ T, (s.session T).Reported := by
  refine h.invariant (P := fun s => ∀ T, (s.session T).Reported) ?_ ?_
  · refine fun T => ⟨?_, ?_⟩
    · intro o ec
      exact nofun
    · intro cb hm
      exact absurd hm List.not_mem_nil
  · intro s a s' hr hi hs T
    exact (step_inv hs).reported (reachable_phase hr).1 (reachable_registry hr) (hi T)

/-! ### A cancellation is never lost -/

/-- In state `s`, the action `a` is the step of a `cancelRequest` call that finds `S`. -/
def Finds (s : State) (a : Action) (S : SessionId) : Prop :=
  ∃ n request_id, a = .canceller n ∧ s.cancel n = .find request_id ∧
    s.m_active_sessions (mapKey request_id) = some S

/-- In state `s`, the action `a` sets the `m_was_cancelled` of `S`. -/
def SetsCancelled (s : State) (a : Action) (S : SessionId) : Prop :=
  ∃ n, a = .canceller n ∧ s.cancel n = .setCancelled S

/-- A session about to be set cancelled has been constructed. -/
theorem SetsCancelled.lt_next (hr : client.Reachable s) (hset : SetsCancelled s a S) :
    S < s.next := by
  obtain ⟨n, -, hn⟩ := hset
  have hreg := reachable_registry hr
  have hentry := hreg.target n S (by rw [hn]; rfl)
  exact (hreg.entry _ S hentry).2.lt_next (reachable_phase hr).2

/-- A `cancelRequest` call has found `S`: it is set, or about to be set, cancelled. -/
def Doomed (s : State) (S : SessionId) : Prop :=
  (s.session S).m_was_cancelled = true ∨
  ∃ n, s.cancel n = .lockCancel S ∨ s.cancel n = .setCancelled S

/-- The flag is never cleared. -/
theorem Step.m_was_cancelled (h : Step s a s') (hT : T ≠ s.next)
    (hw : (s.session T).m_was_cancelled = true) : (s'.session T).m_was_cancelled = true := by
  rcases h.session T with hsame | hs
  · rw [hsame]
    exact hw
  · generalize s'.session T = y at hs
    cases hs with
    | construct hn => exact absurd hn hT
    | caller h => cases h <;> exact hw
    | complete _ => simpa using hw
    | handler h => cases h <;> simpa using hw
    | setCancelled _ => rfl

/-- A found session stays found. -/
theorem Step.doomed (h : Step s a s') (hT : T ≠ s.next) (hd : Doomed s T) : Doomed s' T := by
  rcases hd with hw | ⟨n, hn⟩
  · exact .inl (h.m_was_cancelled hT hw)
  · cases h with
    | caller h => exact .inr ⟨n, by cases h <;> exact hn⟩
    | handler h => exact .inr ⟨n, by cases h <;> exact hn⟩
    | @cancelRequest m _ hpc =>
        have hm : n ≠ m := by
          rintro rfl
          rcases hn with hn | hn <;> simp [hn] at hpc
        exact .inr ⟨n, by simpa [hm] using hn⟩
    | @canceller m _ h =>
        by_cases hm : n = m
        · subst hm
          cases h with
          | @lockCancel S hpc _ =>
              obtain rfl : S = T := by rcases hn with hn | hn <;> simp_all
              exact .inr ⟨n, .inr (by simp)⟩
          | @setCancelled S hpc =>
              obtain rfl : S = T := by rcases hn with hn | hn <;> simp_all
              exact .inl (by simp)
          | _ => rcases hn with hn | hn <;> simp_all
        · exact .inr ⟨n, by cases h <;> simpa [hm] using hn⟩
    | _ => exact .inr ⟨n, hn⟩

/-- The step that finds a session. -/
theorem Step.canceller_found {id : UInt32} (h : Step s (.canceller n) s')
    (hn : s.cancel n = .find id) (hmap : s.m_active_sessions (mapKey id) = some S) :
    s'.cancel n = .lockCancel S := by
  cases h with
  | canceller h => cases h <;> simp_all

/-- The step that sets the flag. -/
theorem Step.canceller_set (h : Step s (.canceller n) s') (hn : s.cancel n = .setCancelled S) :
    (s'.session S).m_was_cancelled = true := by
  cases h with
  | canceller h => cases h <;> simp_all

/-- No callback of a found session reports success. -/
theorem Doomed.callbacks (hr : client.Reachable s) (hd : Doomed s S) :
    ∀ cb ∈ (s.session S).callbacks,
      cb.ec.value ≠ 0 ∧ (cb.ec = .operation_aborted ∨ cb.ec = (s.session S).m_ec) := by
  intro cb hcb
  rcases hd with hw | ⟨n, hn⟩
  · have hec : cb.ec = (s.session S).reported := (reachable_report hr S).2 cb hcb
    by_cases h0 : (s.session S).m_ec.value = 0
    · have hab : (s.session S).reported = .operation_aborted := by
        simp [Session.reported, h0, hw]
      rw [hec, hab]
      exact ⟨by decide, .inl rfl⟩
    · have hm : (s.session S).reported = (s.session S).m_ec := by
        simp [Session.reported, h0]
      rw [hec, hm]
      exact ⟨h0, .inr rfl⟩
  · -- the call that found the session has not set the flag yet: nothing was reported
    have hreg := reachable_registry hr
    have htarget : (s.cancel n).target = some S := by
      rcases hn with hn | hn <;> rw [hn] <;> rfl
    have hfl := (hreg.entry _ S (hreg.target n S htarget)).2
    exact absurd (.inl fun he => by simp [he] at hcb) hfl.2

/-- **A cancellation is never lost.** Take any run and any step of it. If at that step a
`cancelRequest` call finds a session, or sets its flag, then no callback invocation of that
session in the run, before or after, reports success: it reports `operation_aborted`, or
the error recorded in `m_ec`. So a callback that reports success belongs to a session no
`cancelRequest` call of the run has found. -/
theorem cancellation_not_lost {pre post : List Action} {s₁ : State}
    (hpre : client.exec client.init pre = some s₁)
    (hrun : client.exec client.init (pre ++ a :: post) = some s) :
    (Finds s₁ a S ∨ SetsCancelled s₁ a S →
      ∀ cb ∈ (s.session S).callbacks,
        cb.ec.value ≠ 0 ∧ (cb.ec = .operation_aborted ∨ cb.ec = (s.session S).m_ec)) ∧
    (∀ cb ∈ (s.session S).callbacks, cb.ec.value = 0 → ¬ Finds s₁ a S) := by
  obtain ⟨t, s₂, ht, hstep, hpost⟩ := TransitionSystem.exec_split hrun
  obtain rfl : s₁ = t := Option.some.inj (hpre.symm.trans ht)
  have hr₁ : client.Reachable s₁ := TransitionSystem.reachable_of_exec hpre
  have hr₂ : client.Reachable s₂ := hr₁.step hstep
  have hnot : Finds s₁ a S ∨ SetsCancelled s₁ a S →
      ∀ cb ∈ (s.session S).callbacks,
        cb.ec.value ≠ 0 ∧ (cb.ec = .operation_aborted ∨ cb.ec = (s.session S).m_ec) := by
    intro hfound
    -- the step leaves the session doomed, and constructed
    have hdoomed : Doomed s₂ S ∧ S < s₂.next := by
      have hst := step_inv hstep
      have hreg := reachable_registry hr₁
      refine ⟨?_, Nat.lt_of_lt_of_le ?_ hst.next_le⟩
      · rcases hfound with ⟨n, id, rfl, hn, hmap⟩ | ⟨n, rfl, hn⟩
        · exact .inr ⟨n, .inl (hst.canceller_found hn hmap)⟩
        · exact .inl (hst.canceller_set hn)
      · rcases hfound with ⟨n, id, rfl, hn, hmap⟩ | ⟨n, rfl, hn⟩
        · exact (hreg.entry _ S hmap).2.lt_next (reachable_phase hr₁).2
        · exact SetsCancelled.lt_next hr₁ ⟨n, rfl, hn⟩
    have hstable : Doomed s S ∧ S < s.next := by
      refine hr₂.stable (P := fun s => Doomed s S ∧ S < s.next) ?_ hdoomed hpost
      intro u b u' hu ⟨hd, hlt⟩ hs
      have hst := step_inv hs
      exact ⟨hst.doomed (Nat.ne_of_lt hlt) hd, Nat.lt_of_lt_of_le hlt hst.next_le⟩
    exact hstable.1.callbacks (hr₂.exec hpost)
  exact ⟨hnot, fun cb hcb h0 hf => (hnot (.inl hf) cb hcb).1 h0⟩

/-- A whole exchange up to the read handler having stored the response. -/
def exchangeRun : List Action :=
  [.emulateLongComputationOp true 10 1, .caller 0 true, .caller 0 true, .caller 0 true,
    .caller 0 true, .caller 0 true,
    .complete 0 .connect .success [], .handler 0 .connect, .handler 0 .connect,
    .handler 0 .connect, .handler 0 .connect, .handler 0 .connect,
    .complete 0 .write .success [], .handler 0 .write, .handler 0 .write, .handler 0 .write,
    .handler 0 .write, .handler 0 .write,
    .complete 0 .read .success [79, 75, LF], .handler 0 .read]

/-- The rest of a `cancelRequest` call that is about to look the id up, then the rest of
the read handler. -/
def lateCancelRun : List Action :=
  [.canceller 0, .canceller 0, .canceller 0, .canceller 0, .canceller 0,
    .handler 0 .read, .handler 0 .read, .handler 0 .read, .handler 0 .read, .handler 0 .read,
    .handler 0 .read, .handler 0 .read]

/-- A cancel that finds the session when its response is already stored is reported. -/
theorem cancellation_not_lost_late :
    ∃ s, client.exec client.init
        ((exchangeRun ++ [.cancelRequest 0 1, .canceller 0]) ++ .canceller 0 :: lateCancelRun) =
          some s ∧
      (s.session 0).m_response = [79, 75] ∧ (s.session 0).callbacks.length = 1 ∧
      ∀ cb ∈ (s.session 0).callbacks,
        cb.ec.value ≠ 0 ∧ (cb.ec = .operation_aborted ∨ cb.ec = (s.session 0).m_ec) := by
  have hpre : ((client.exec client.init (exchangeRun ++ [.cancelRequest 0 1, .canceller 0])).map
      fun s => (s.cancel 0, s.m_active_sessions 1)) = some (.find 1, some 0) := by decide
  have hrun : ((client.exec client.init
      ((exchangeRun ++ [.cancelRequest 0 1, .canceller 0]) ++ .canceller 0 :: lateCancelRun)).map
      fun s => ((s.session 0).m_response, (s.session 0).callbacks.length)) =
        some ([79, 75], 1) := by decide
  obtain ⟨s₁, hs₁, hfind⟩ := Option.map_eq_some_iff.mp hpre
  obtain ⟨s, hs, hcb⟩ := Option.map_eq_some_iff.mp hrun
  obtain ⟨hcancel, hmap⟩ := Prod.mk.inj hfind
  obtain ⟨hresp, hlen⟩ := Prod.mk.inj hcb
  exact ⟨s, hs, hresp, hlen,
    (cancellation_not_lost hs₁ hs).1 (.inl ⟨0, 1, rfl, hcancel, hmap⟩)⟩

/-! ### The operations a cancelled session may still start -/

/-- In state `s`, the action `a` initiates operation `op` of `S`. -/
def Starts (s : State) (a : Action) (S : SessionId) (op : Op) : Prop :=
  (∃ opened, a = .caller S opened ∧ (s.session S).call = .asyncConnect ∧ op = .connect) ∨
  ∃ op', a = .handler S op' ∧ (s.session S).pc op' = .startNext ∧ op'.next = some op

/-- A handler of this session that is about to start the next operation has the flag
clear. -/
def Session.Clear (x : Session) : Prop :=
  ∀ op, x.pc op = .startNext → x.m_was_cancelled = false

theorem Session.Clear.of_le {x y : Session} (h : x.Clear)
    (hw : y.m_was_cancelled = x.m_was_cancelled)
    (hpc : ∀ op, y.pc op = .startNext → x.pc op = .startNext) : y.Clear :=
  fun op hop => hw.trans (h op (hpc op hop))

theorem Session.Clear.setPc {x : Session} (h : x.Clear) (op : Op) (pc : HandlerPc)
    (hpc : pc ≠ .startNext) : (x.setPc op pc).Clear := by
  refine h.of_le rfl ?_
  intro o ho
  by_cases hop : o = op
  · exact absurd (by simpa [hop] using ho) hpc
  · simpa [hop] using ho

theorem CallMove.clear (h : CallMove x y) (hx : x.Clear) : y.Clear := by
  cases h with
  | asyncConnect _ => exact (hx.setPc .connect .pending (by simp)).of_le rfl (fun _ => id)
  | _ => exact hx.of_le rfl (fun _ => id)

theorem HandlerMove.clear (h : HandlerMove x op y) (hx : x.Clear) : y.Clear := by
  cases h with
  | @enter ec hpc =>
      have henter : Session.enterPc op ec ≠ .startNext := by
        unfold Session.enterPc; split <;> simp
      refine (hx.setPc op _ henter).of_le (by simp) ?_
      intro o
      simp
  | notCancelled hpc hw => exact fun _ _ => hw
  | startNext hpc hn => exact (hx.setPc _ .pending (by simp)).setPc op .ret (by simp)
  | @callback ec hpc =>
      have hinvoked : (x.invokeCallback ec).Clear := hx.of_le rfl (fun _ => id)
      exact hinvoked.setPc op .ret (by simp)
  | _ => exact hx.setPc op _ (by simp)

/-- A handler that has passed its test of the flag holds `m_cancel_guard`, so no
`cancelRequest` call sets the flag before it has started the next operation. -/
theorem SessionStep.clear (h : SessionStep s T a y) (hcan : CancelGuard s)
    (hT : (s.session T).Clear) : y.Clear := by
  cases h with
  | construct _ => exact fun _ _ => rfl
  | caller h => exact h.clear hT
  | @complete op _ received _ =>
      have hreceive : ((s.session T).receive op received).Clear := hT.of_le (by simp) (by simp)
      exact hreceive.setPc op _ (by simp)
  | handler h => exact h.clear hT
  | @setCancelled n hpc =>
      intro o ho
      have hpc' : (s.session T).pc o = .startNext := ho
      have hown := (hcan.canceller n T).mp (by simp [hpc, CancelPc.holdsCancel])
      have hown' := hcan.handler T o (by rw [hpc']; rfl)
      exact absurd (hown.symm.trans hown') (by simp)

theorem Step.clear (h : Step s a s') (hcan : CancelGuard s) (hT : (s.session T).Clear) :
    (s'.session T).Clear := by
  rcases h.session T with hsame | hs
  · rw [hsame]
    exact hT
  · exact hs.clear hcan hT

theorem reachable_clear (h : client.Reachable s) : ∀ T, (s.session T).Clear := by
  refine h.invariant (P := fun s => ∀ T, (s.session T).Clear) ?_ ?_
  · exact fun T op hpc => rfl
  · intro s a s' hr hi hs T
    exact (step_inv hs).clear (reachable_locks hr).2 (hi T)

/-- Only `cancelRequest` sets the flag. -/
theorem Step.sets_flag (h : Step s a s') (hw : (s'.session T).m_was_cancelled = true) :
    (s.session T).m_was_cancelled = true ∨ SetsCancelled s a T := by
  rcases h.session T with hsame | hs
  · exact .inl (hsame ▸ hw)
  · generalize s'.session T = y at hs hw
    cases hs with
    | construct _ => exact absurd hw nofun
    | caller h => exact .inl (by cases h <;> exact hw)
    | complete _ => exact .inl (by simpa using hw)
    | handler h => exact .inl (by cases h <;> simpa using hw)
    | @setCancelled n hpc => exact .inr ⟨n, rfl, hpc⟩

/-- A cancelled session has been constructed. -/
theorem cancelled_lt_next (h : client.Reachable s) :
    ∀ S, (s.session S).m_was_cancelled = true → S < s.next := by
  refine h.invariant (P := fun s => ∀ S, (s.session S).m_was_cancelled = true → S < s.next) ?_ ?_
  · exact fun S hw => absurd hw (by simp [client, State.init])
  · intro s a s' hr hi hs T hw
    have hst := step_inv hs
    have hlt : T < s.next := (hst.sets_flag hw).elim (hi T) (·.lt_next hr)
    exact Nat.lt_of_lt_of_le hlt hst.next_le

/-- **The condition.** A `cancelRequest` call sets the flag of a session only when the
call that registered the session has started `async_connect`. -/
def CancelsAfterConnect (s : State) (a : Action) : Prop :=
  ∀ S, SetsCancelled s a S → (s.session S).call = .returned

instance : Decidable (CancelsAfterConnect s a) :=
  match a with
  | .canceller n =>
      match hn : s.cancel n with
      | .setCancelled S =>
          decidable_of_iff ((s.session S).call = .returned)
            (by simp [CancelsAfterConnect, SetsCancelled, hn])
      | .idle | .lockActive _ | .find _ | .lockCancel _ | .cancelSock _ | .unlockCancel _
      | .unlockActive => isTrue (by simp [CancelsAfterConnect, SetsCancelled, hn])
  | .caller .. | .handler .. | .complete .. | .cancelRequest .. | .close
  | .emulateLongComputationOp .. => isTrue (by simp [CancelsAfterConnect, SetsCancelled])

theorem Step.call_returned (h : Step s a s') (hT : T ≠ s.next)
    (hc : (s.session T).call = .returned) : (s'.session T).call = .returned := by
  rcases h.session T with hsame | hs
  · rw [hsame]
    exact hc
  · generalize s'.session T = y at hs
    cases hs with
    | construct hn => exact absurd hn hT
    | caller h => cases h <;> simp_all
    | complete _ => simpa using hc
    | handler h => cases h <;> simpa using hc
    | setCancelled _ => exact hc

/-- In a run that meets the condition the call of a cancelled session has returned. -/
theorem cancelled_returned (h : client.ReachableUnder CancelsAfterConnect s) :
    ∀ S, (s.session S).m_was_cancelled = true → (s.session S).call = .returned := by
  refine h.invariant (P := fun s => ∀ S, (s.session S).m_was_cancelled = true →
    (s.session S).call = .returned) ?_ ?_
  · exact fun S hw => absurd hw (by simp [client, State.init])
  · intro s a s' hr hi hok hs T hw
    have hst := step_inv hs
    have hret : (s.session T).call = .returned := (hst.sets_flag hw).elim (hi T) (hok T)
    refine hst.call_returned ?_ hret
    rintro rfl
    have habsent := (reachable_phase hr.reachable).2 s.next (Nat.le_refl _)
    rw [habsent.1] at hret
    exact absurd hret (by simp)

/-- The step that sets the flag, and what it leaves unchanged. -/
theorem Step.after_set (h : Step s a s') (hset : SetsCancelled s a S) :
    (s'.session S).m_was_cancelled = true ∧ (s'.session S).call = (s.session S).call := by
  obtain ⟨n, rfl, hn⟩ := hset
  cases h with
  | canceller h => cases h <;> simp_all

/-- A call that is about to set the flag has found a session whose own call is past its
critical section: it is about to start `async_connect`, or has returned. -/
theorem SetsCancelled.call (hr : client.Reachable s) (hset : SetsCancelled s a S) :
    (s.session S).call = .asyncConnect ∨ (s.session S).call = .returned := by
  obtain ⟨n, -, hn⟩ := hset
  have hreg := reachable_registry hr
  have hcall := (hreg.entry _ S (hreg.target n S (by rw [hn]; rfl))).2.1
  have hin : s.holdsActive (.canceller n) = true := by
    simp [State.holdsActive, hn, CancelPc.holdsActive]
  have hout : s.holdsActive (.caller S) = false := by
    cases hS : s.holdsActive (.caller S) with
    | false => rfl
    | true => exact absurd (Mutexes.Guarded.unique (reachable_locks hr).1 hin hS) (by simp)
  cases hc : (s.session S).call <;>
    simp_all [State.holdsActive, CallPc.registered, CallPc.holdsActive]

/-- Nothing keeps a call from starting `async_connect`. -/
theorem exists_step_asyncConnect (hc : (s.session S).call = .asyncConnect) :
    ∃ s', step s (.caller S true) = some s' := by
  simp [step, stepCaller, hc]

/-- Once the flag of a session is set it stays set, and no operation of the session is
initiated any more. -/
def StopsWork (s : State) : Prop :=
  ∀ S, (s.session S).m_was_cancelled = true → ∀ a s', step s a = some s' →
    (s'.session S).m_was_cancelled = true ∧ ∀ op, ¬ Starts s a S op

/-- **Cancellation stops all work, but for the first operation.** In a run that meets the
condition no operation of a cancelled session is started. A step that breaks the condition,
in whatever run, is one after which the call of the cancelled session starts
`async_connect`. -/
theorem stopsWork_of_cancelsAfterConnect (hr : client.Reachable s) :
    (client.ReachableUnder CancelsAfterConnect s → StopsWork s) ∧
    ∀ a s', step s a = some s' → ¬ CancelsAfterConnect s a →
      ∃ S s'', (s'.session S).m_was_cancelled = true ∧
        step s' (.caller S true) = some s'' ∧ Starts s' (.caller S true) S .connect := by
  refine ⟨fun hunder S hw a s' hs => ⟨?_, ?_⟩, ?_⟩
  · exact (step_inv hs).m_was_cancelled (Nat.ne_of_lt (cancelled_lt_next hr S hw)) hw
  · intro op h
    obtain ⟨opened, rfl, hc, rfl⟩ | ⟨op', rfl, hpc, -⟩ := h
    · exact absurd (hc.symm.trans (cancelled_returned hunder S hw)) nofun
    · exact absurd ((reachable_clear hr S op' hpc).symm.trans hw) nofun
  · intro a s' hs hbad
    simp only [CancelsAfterConnect, not_forall] at hbad
    obtain ⟨S, hset, hne⟩ := hbad
    obtain ⟨hflag, hkept⟩ := (step_inv hs).after_set hset
    have hc : (s'.session S).call = .asyncConnect :=
      hkept.trans ((hset.call hr).resolve_right hne)
    obtain ⟨s'', hs''⟩ := exists_step_asyncConnect hc
    exact ⟨S, s'', hflag, hs'', .inl ⟨true, rfl, hc, rfl⟩⟩

/-- A request is cancelled while its connect is pending. -/
def pendingCancelRun : List Action :=
  [.emulateLongComputationOp true 10 1, .caller 0 true, .caller 0 true, .caller 0 true,
    .caller 0 true, .caller 0 true,
    .cancelRequest 0 1, .canceller 0, .canceller 0, .canceller 0, .canceller 0]

theorem stopsWork_pending :
    ∃ s, client.Reachable s ∧ (s.session 0).m_was_cancelled = true ∧
      (s.session 0).pc .connect = .pending ∧ StopsWork s := by
  have hrun : (client.execUnder CancelsAfterConnect client.init pendingCancelRun).map
      (fun s => ((s.session 0).m_was_cancelled, (s.session 0).pc .connect)) =
        some (true, .pending) := by decide
  obtain ⟨s, hs, he⟩ := Option.map_eq_some_iff.mp hrun
  obtain ⟨hw, hpc⟩ := Prod.mk.inj he
  have hunder := TransitionSystem.reachableUnder_of_execUnder hs
  have hr := hunder.reachable
  exact ⟨s, hr, hw, hpc, (stopsWork_of_cancelsAfterConnect hr).1 hunder⟩

/-- The call has unlocked `m_active_sessions_guard` and is about to call `async_connect`;
a `cancelRequest` call finds its session and sets the flag. -/
def earlyCancelRun : List Action :=
  [.emulateLongComputationOp true 10 1, .caller 0 true, .caller 0 true, .caller 0 true,
    .caller 0 true,
    .cancelRequest 0 1, .canceller 0, .canceller 0, .canceller 0, .canceller 0]

/-- The call starts `async_connect` of a session that is already cancelled. -/
theorem not_stopsWork_early : ¬ ∀ s, client.Reachable s → StopsWork s := by
  intro h
  have hrun : (client.exec client.init earlyCancelRun).map
      (fun s => ((s.session 0).m_was_cancelled, (s.session 0).call)) =
        some (true, .asyncConnect) := by decide
  obtain ⟨s, hs, he⟩ := Option.map_eq_some_iff.mp hrun
  obtain ⟨hw, hc⟩ := Prod.mk.inj he
  obtain ⟨s', hs'⟩ := exists_step_asyncConnect hc
  exact (h s (TransitionSystem.reachable_of_exec hs) 0 hw _ s' hs').2 .connect
    (.inl ⟨true, rfl, hc, rfl⟩)

end AsioStudy.AsyncTcpClient
