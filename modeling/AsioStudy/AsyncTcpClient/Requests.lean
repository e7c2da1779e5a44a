import AsioStudy.AsyncTcpClient.Close

/-!
# AsioStudy.AsyncTcpClient.Requests

Every request is answered in the end, as long as `close` has not been called. `m_work` then keeps
`m_ios` going, so at rest nothing is pending, and no handler runs unless one of them and a
`cancelRequest` call wait for each other (`served_iff_of_still`). A client that gets no further
call comes to rest (`exists_still`), and if no `cancelRequest` is under way it does not run into
the deadlock on the way.
-/

namespace AsioStudy.AsyncTcpClient

variable {num_of_threads n : Nat} {p p' : PoolState} {b : PoolAction} {bs : List PoolAction}

theorem PoolAction.gain_of_own (h : b.own = true) : b.gain = 0 := by
  cases b with
  | client a => exact Action.gain_of_own h
  | join => rfl
  | close => exact absurd h Bool.false_ne_true

/-! ### What the steps of the threads leave as it is -/

theorem PoolStep.cancel_idle (h : PoolStep num_of_threads p b p')
    (hb : ∀ id, b ≠ .client (.cancelRequest n id)) (hn : p.client.cancel n = .idle) :
    p'.client.cancel n = .idle := by
  cases h with
  | client hs _ =>
      rw [(PoolState.settle_fields _).1]
      exact (step_inv hs).cancel_idle (fun id ha => hb id (congrArg _ ha)) hn
  | close _ =>
      rw [(PoolState.settle_fields _).1]
      exact hn
  | join _ _ => exact hn

theorem pool_cancel_idle (hok : ∀ b ∈ bs, ∀ id, b ≠ .client (.cancelRequest n id))
    (hn : p.client.cancel n = .idle) (he : (pool num_of_threads).exec p bs = some p') :
    p'.client.cancel n = .idle :=
  TransitionSystem.exec_stable (P := fun p => p.client.cancel n = .idle)
    (fun hi hb hs => (pool_inv hs).cancel_idle hb hi) hn hok he

theorem PoolAction.ne_cancelRequest_of_own (h : b.own = true) (id : UInt32) :
    b ≠ .client (.cancelRequest n id) := by
  intro hb
  rw [hb] at h
  exact absurd h Bool.false_ne_true

/-- Nothing but a call of `close` begins it. -/
theorem PoolStep.close_idle (h : PoolStep num_of_threads p b p') (hb : b.own = true)
    (hclose : p.close = .idle) : p'.close = .idle := by
  cases h with
  | client _ _ =>
      rw [(PoolState.settle_fields _).2]
      exact hclose
  | close _ => exact absurd hb Bool.false_ne_true
  | join hjoin _ => exact absurd (hclose.symm.trans hjoin) (by simp)

/-! ### Coming to rest -/

/-- **A client that gets no further call comes to rest.** -/
theorem exists_still (he : (pool num_of_threads).exec (pool num_of_threads).init bs = some p) :
    ∃ cs p', (∀ c ∈ cs, c.own = true) ∧ (pool num_of_threads).exec p cs = some p' ∧
      PoolStill num_of_threads p' := by
  obtain ⟨N, hN⟩ := exists_cancellers_le (bs.filterMap PoolAction.ofClient)
  obtain ⟨cs, p', hown, he', hq⟩ := (pool_potential N).exists_quiescent
    (fun _ => PoolAction.gain_of_own) (TransitionSystem.reachable_of_exec he)
  refine ⟨cs, p', fun c h => (hown c h).1, he', ?_⟩
  intro c hc
  by_cases hwithin : c.within N
  · exact hq c hc hwithin
  · -- a thread that has never called `cancelRequest`
    have hidle : ∀ n, N ≤ n → p'.client.cancel n = .idle := by
      intro n hn
      have hbs : ∀ b ∈ bs, ∀ id, b ≠ .client (.cancelRequest n id) := by
        intro b hb id heq
        have hle := hN _ (List.mem_filterMap.mpr ⟨b, hb, congrArg PoolAction.ofClient heq⟩)
        exact Action.ne_cancelRequest (Nat.le_trans hle hn) id rfl
      exact pool_cancel_idle (fun c h => PoolAction.ne_cancelRequest_of_own (hown c h).1)
        (pool_cancel_idle hbs rfl he) he'
    simp only [PoolAction.within, not_forall] at hwithin
    obtain ⟨a, ha, hN'⟩ := hwithin
    cases c with
    | client a' =>
        obtain rfl : a' = a := Option.some.inj ha
        obtain ⟨n, hn, rfl⟩ := Action.eq_canceller_of_own hc hN'
        simp [pool, stepPool, step_canceller_idle (hidle n hn)]
    | close | join => exact absurd ha (by simp [PoolAction.ofClient])

/-! ### At rest -/

/-- **At rest every request has been served**, if and only if the lock orders have not crossed. -/
theorem served_iff_of_still (hthreads : 0 < num_of_threads)
    (hr : (pool num_of_threads).Reachable p) (hclose : p.close = .idle)
    (h : PoolStill num_of_threads p) : Served p.client ↔ ¬ Clash p.client := by
  refine ⟨Served.not_clash, ?_⟩
  intro hclash
  have hi := reachable_poolInv hr
  have hgoes : p.iosStopped = false := by
    by_contra hstopped
    have hreset := (hi.stopped (by simpa using hstopped)).1
    exact absurd (hreset.symm.trans (hi.work.mpr hclose)) Bool.false_ne_true
  have hquiescent : client.Quiescent Action.own p.client := by
    intro a ha
    cases a with
    | complete S op ec received =>
        have hpending : (p.client.session S).pc op ≠ .pending :=
          h.pending hr hthreads hclash hgoes
        simp [client, step, hpending]
    | caller _ _ | handler _ _ | canceller _ => exact h.client _ rfl
    | _ => exact absurd ha Bool.false_ne_true
  exact served_of_quiescent hquiescent (pool_client hr) hclash

/-- Where a run of the client leads in which `close` has not been called. -/
structure RequestsServed (num_of_threads : Nat) (bs : List PoolAction) (p : PoolState) : Prop where
  /-- At most 26 steps for each request and 7 for each cancellation. -/
  bounded : bs.countP PoolAction.own ≤ (bs.map PoolAction.gain).sum
  /-- Left alone, the client comes to rest. -/
  comes_to_rest : ∃ cs p', (∀ c ∈ cs, c.own = true) ∧
    (pool num_of_threads).exec p cs = some p' ∧ PoolStill num_of_threads p'
  /-- Wherever it does, every request has been served, unless the lock orders have crossed. They
  do not cross if no `cancelRequest` is under way. -/
  at_rest : ∀ cs p', (∀ c ∈ cs, c.own = true) → (pool num_of_threads).exec p cs = some p' →
    PoolStill num_of_threads p' → (Served p'.client ↔ ¬ Clash p'.client) ∧
      ((∀ n, p.client.cancel n = .idle) → Served p'.client)

/-- **Every request is answered in the end**, in every interleaving. -/
theorem requests_served (hthreads : 0 < num_of_threads)
    (he : (pool num_of_threads).exec (pool num_of_threads).init bs = some p)
    (hclose : p.close = .idle) : RequestsServed num_of_threads bs p := by
  refine ⟨pool_countP_le he, exists_still he, ?_⟩
  intro cs p' hown he' hstill
  have hr := (TransitionSystem.reachable_of_exec he).exec he'
  have hclose' := TransitionSystem.exec_stable (P := fun p => p.close = .idle)
    (fun hi hb hs => (pool_inv hs).close_idle hb hi) hclose hown he'
  have hiff := served_iff_of_still hthreads hr hclose' hstill
  refine ⟨hiff, ?_⟩
  intro hidle
  refine hiff.mpr ?_
  intro hclash
  obtain ⟨n, S, op, hn, -⟩ := hclash
  have hn' := pool_cancel_idle (fun c h => PoolAction.ne_cancelRequest_of_own (hown c h))
    (hidle n) he'
  exact absurd (hn'.symm.trans hn) (by simp)

/-- The request of `cancelledBranchRun` to its end. -/
def servedRun : List PoolAction :=
  (cancelledBranchRun ++ List.replicate 8 (Action.handler 0 .connect)).map .client

theorem requests_served_servedRun :
    ∃ p, (pool 1).exec (pool 1).init servedRun = some p ∧
      (p.client.session 0).callbacks.map (·.ec) = [.operation_aborted] ∧
      RequestsServed 1 servedRun p := by
  have hrun : ((pool 1).exec (pool 1).init servedRun).map (fun p =>
      (p.close, (p.client.session 0).callbacks.map (·.ec))) =
      some (.idle, [.operation_aborted]) := by decide
  obtain ⟨p, hp, he⟩ := Option.map_eq_some_iff.mp hrun
  obtain ⟨hclose, hcallbacks⟩ := Prod.mk.inj he
  exact ⟨p, hp, hcallbacks, requests_served (by decide) hp hclose⟩

end AsioStudy.AsyncTcpClient
