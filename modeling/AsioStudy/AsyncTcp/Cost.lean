import AsioStudy.AsyncTcp.Liveness

/-!
# AsioStudy.AsyncTcp.Cost

What a call costs client, server and network together. Each side has its own account
(`AsyncTcpClient.potential`, `AsyncServer.potential`); the network has one for the bytes that
have not gone out yet and for the connections that have not been accepted (`Net.cost`).
-/

namespace AsioStudy.AsyncTcp

open Finset
open AsyncTcpClient (SessionId Clash computationRequest)
open AsyncTcpServer (service service_linear service_ranked rankOp rankPoint)

variable {num_of_threads thread_pool_size : Nat}
  {s s' : JointState ClientState ServerState Net} {e : Event}
  {c c' : ClientState} {v : ServerState} {net net' : Net} {S : SessionId} {a : ClientAction}
  {es : List Event}

/-- All events but the calls, `Start` and `Stop`, and the accepts that fail. -/
def Event.paid : Event → Bool
  | .client a => a.ofThread
  | .server (.onAccept _) | .server (.service _ (.run _ _)) => true
  | .server _ => false
  | .accept _ ec => ec.value = 0
  | _ => true

/-- The events that another one causes at most. -/
def Event.gain : Event → Nat
  | .client (.emulateLongComputationOp _ _ _) => 76
  | .client (.cancelRequest _ _) => 7
  | .accept _ ec => if ec.value = 0 then 0 else 8
  | _ => 0

theorem Event.paid_of_own (h : e.own = true) : e.paid = true := by
  cases e with
  | client a => exact h
  | accept i ec => exact h
  | server a =>
      cases a with
      | service j b => cases b <;> exact h
      | _ => exact h
  | _ => rfl

/-! ### What has not gone out yet -/

/-- The bytes of a session that still have to be sent, in both directions. -/
def unsent (c : ClientState) (net : Net) (S : SessionId) : Nat :=
  ((c.session S).m_request.length - (net.request S).sent.length) +
    (9 - (net.response S).sent.length)

/-- The bytes to be sent, and nine events for each session that has not been accepted. -/
def Net.cost (c : ClientState) (net : Net) : Nat :=
  ∑ S ∈ range c.next, unsent c net S + 9 * (c.next - net.accepted.length)

theorem Net.cost_congr (hrequest : ∀ S, (net'.request S).sent = (net.request S).sent)
    (hresponse : ∀ S, (net'.response S).sent = (net.response S).sent)
    (haccepted : net'.accepted = net.accepted) : net'.cost c = net.cost c := by
  simp only [Net.cost, unsent, hrequest, hresponse, haccepted]

theorem length_computationRequest_le (duration_sec : UInt32) :
    (computationRequest duration_sec).length ≤ 32 := by
  have hdigits := length_to_string_le duration_sec
  have hverb : (bytes "EMULATE_LONG_CALC_OP ").length = 21 := by decide
  simp only [computationRequest, List.length_append, List.length_singleton, hverb]
  omega

/-- A step of the client leaves the requests as they are, or makes one more. -/
theorem step_requests (h : AsyncTcpClient.Step c a c') :
    (c'.next = c.next ∧ ∀ S < c.next, (c'.session S).m_request = (c.session S).m_request) ∨
      ∃ d id, a = .emulateLongComputationOp true d id ∧ c' = c.construct d id := by
  have hnext := h.next_construct
  cases hc : a.construct with
  | none =>
      refine .inl ⟨by simpa [hc] using hnext, ?_⟩
      intro S hS
      exact (h.m_request (Nat.ne_of_lt hS)).1
  | some call =>
      obtain rfl := AsyncTcpClient.Action.construct_eq_some hc
      cases h with
      | construct => exact .inr ⟨_, _, rfl, rfl⟩

/-- A call brings at most fifty. -/
theorem Net.cost_client (h : AsyncTcpClient.Step c a c') :
    net.cost c' ≤ net.cost c + (if a.construct.isSome then 50 else 0) := by
  rcases step_requests h with ⟨hnext, hsame⟩ | ⟨d, id, rfl, rfl⟩
  · have hsum : ∑ S ∈ range c.next, unsent c' net S = ∑ S ∈ range c.next, unsent c net S := by
      refine sum_congr rfl ?_
      intro S hS
      simp only [unsent, hsame S (mem_range.mp hS)]
    rw [Net.cost, hnext, hsum]
    exact Nat.le_add_right _ _
  · have hold : ∑ S ∈ range c.next, unsent (c.construct d id) net S =
        ∑ S ∈ range c.next, unsent c net S := by
      refine sum_congr rfl ?_
      intro S hS
      simp [unsent, Nat.ne_of_lt (mem_range.mp hS)]
    have hnew : unsent (c.construct d id) net c.next ≤ 41 := by
      have hlen := length_computationRequest_le d
      simp only [unsent, AsyncTcpClient.State.construct_session, if_true,
        AsyncTcpClient.Session.new]
      omega
    simp only [Net.cost, AsyncTcpClient.State.construct_frame, sum_range_succ, hold,
      AsyncTcpClient.Action.construct, Option.isSome_some, if_true]
    omega

/-- There are no more connections than sessions. -/
theorem Linked.length_le (h : Linked c net) (hr : AsyncTcpClient.client.Reachable c) :
    net.accepted.length + net.backlog.length ≤ c.next := by
  have hsub : net.accepted ++ net.backlog ⊆ List.range c.next := fun S hS =>
    List.mem_range.mpr (h.lt_next hr hS)
  have hle := (List.subperm_of_subset h.nodup hsub).length_le
  simpa using hle

/-- What an event uses up of the account of the network. -/
def Event.sends : Event → Nat
  | .sendRequest _ _ | .sendResponse _ _ => 1
  | .accept _ ec => if ec.value = 0 then 9 else 0
  | _ => 0

/-- The network pays for the portions and for the accepts. -/
theorem Net.cost_step (h : NetStep c v net e net') (hr : AsyncTcpClient.client.Reachable c)
    (hlinked : Linked c net) (hattended : Attended v net) :
    net'.cost c + e.sends ≤ net.cost c := by
  cases h with
  | connected _ _ => exact Nat.le_of_eq (Net.cost_congr (fun _ => rfl) (fun _ => rfl) rfl)
  | accepted hec hbacklog =>
      have hle := hlinked.length_le hr
      simp only [Net.cost, unsent, Event.sends, hec, hbacklog, if_true, List.length_append,
        List.length_cons, List.length_nil] at hle ⊢
      omega
  | acceptFails hec => simp [Event.sends, hec]
  | @sendRequest S portion hpc hne hprefix =>
      have hlt : S < c.next := by
        by_contra hge
        have habsent := (AsyncTcpClient.reachable_phase hr).2 S (Nat.le_of_not_lt hge)
        exact absurd ((habsent.2.1 .write).symm.trans hpc) nofun
      have hlen := hprefix.length_le
      have hpos := List.length_pos_of_ne_nil hne
      rw [List.length_append] at hlen
      have hsum := sum_range_add_le (f := unsent c net)
        (g := unsent c (net.setRequest S ((net.request S).write portion))) (k := 1) (l := 0) hlt
        (by simp [unsent]; omega) (fun T hT => by simp [unsent, hT])
      simp only [Net.cost, Net.setRequest_frame, Event.sends]
      omega
  | @sendResponse j portion S x hS hx _ hne hprefix =>
      have hlt := hlinked.lt_next hr (List.mem_append_left _ (List.mem_of_getElem? hS))
      have hnine : x.service.data.m_response.length ≤ 9 := by
        rcases (hattended.served j S x hS hx).response with hnil | ⟨htext, -⟩
        · simp [hnil]
        · rw [htext]
          decide
      have hlen := hprefix.length_le
      have hpos := List.length_pos_of_ne_nil hne
      rw [List.length_append] at hlen
      have hsum := sum_range_add_le (f := unsent c net)
        (g := unsent c (net.setResponse S ((net.response S).write portion))) (k := 1) (l := 0) hlt
        (by simp [unsent]; omega) (fun T hT => by simp [unsent, hT])
      simp only [Net.cost, Net.setResponse_frame, Event.sends]
      omega
  | @readRequest j i received ec S x _ _ _ _ =>
      refine Nat.le_of_eq (Net.cost_congr ?_ (fun _ => rfl) rfl)
      intro T
      by_cases hT : T = S <;> simp [hT]
  | @readResponse S received ec _ =>
      refine Nat.le_of_eq (Net.cost_congr (fun _ => rfl) ?_ rfl)
      intro T
      by_cases hT : T = S <;> simp [hT]
  | _ => exact Nat.le_refl _

/-! ### The whole -/

/-- The events that are left, when only the first `N` threads call `cancelRequest`. -/
def cost (N : Nat) (s : JointState ClientState ServerState Net) : Nat :=
  s.left.cost N + s.right.cost rankOp rankPoint (rankOp service.first) + s.medium.cost s.left

/-- The client takes part in it with one of the first `N` threads that call `cancelRequest`. -/
def Event.within (N : Nat) (e : Event) : Prop := ∀ a ∈ e.left, a.cancellers ≤ N

/-- What the three accounts lose in an event pays for it and for what they gain. -/
theorem Event.balance (h : ∀ a, e = .server a → completesServer a = false) :
    e.paid.toNat + (e.left.map AsyncTcpClient.Action.gain).getD 0 +
        (e.right.map fun a => if a.isAccept then 8 else 0).getD 0 +
        (if (e.left.bind AsyncTcpClient.Action.construct).isSome then 50 else 0) ≤
      e.gain + (e.left.map fun a => a.own.toNat).getD 0 +
        (e.right.map fun a => a.ofHandler.toNat).getD 0 + e.sends := by
  cases e with
  | client a =>
      cases a with
      | emulateLongComputationOp parsed d id =>
          cases parsed with
          | true => exact Nat.le_refl 76
          | false => exact Nat.le_add_right 26 50
      | complete S op ec received => exact Nat.zero_le _
      | _ => exact Nat.le_refl _
  | server a =>
      cases a with
      | accept i ec => exact absurd (h _ rfl) nofun
      | service j b =>
          cases b with
          | complete i ec received => exact Nat.zero_le _
          | run i input => exact Nat.le_refl _
      | _ => exact Nat.le_refl _
  | accept i ec =>
      by_cases hec : ec.value = 0 <;>
        simp [Event.paid, Event.left, Event.right, Event.gain, Event.sends, hec,
          AsyncServer.Action.isAccept]
  | _ => exact Nat.le_refl _

/-- **Client, server and network pay for every event** with what the calls have brought. -/
theorem potential (N : Nat) :
    (network thread_pool_size).Potential (Event.within N) Event.paid Event.gain (cost N) := by
  refine ⟨?_⟩
  intro s e s' hr hok hs
  obtain ⟨hclient, hserver⟩ := Joint.reachable_sides hr
  obtain ⟨hnet, hleft, hright⟩ := network_inv hs
  have hl := (AsyncTcpClient.potential N).move hclient hok hleft
  have hrr := (AsyncServer.potential service_linear service_ranked).move hserver
    (fun _ _ => trivial) hright
  have hm := Net.cost_step hnet hclient (reachable_linked hr) (reachable_attended hr)
  have hcalls : s'.medium.cost s'.left ≤ s'.medium.cost s.left +
      (if (e.left.bind AsyncTcpClient.Action.construct).isSome then 50 else 0) := by
    cases hleft' : e.left with
    | none =>
        rw [hleft'] at hleft
        rw [← Option.some.inj hleft]
        exact Nat.le_refl _
    | some a =>
        rw [hleft'] at hleft
        exact Net.cost_client (AsyncTcpClient.step_inv hleft)
  have hbalance := Event.balance (e := e) fun a ha => by
    subst ha
    generalize s'.medium = net' at hnet
    cases hnet with
    | server h => exact h
  have height : 3 + rankOp service.first = 8 := rfl
  simp only [height] at hrr
  simp only [ClientAction, ServerAction] at hbalance
  simp only [cost]
  omega

theorem Event.gain_of_own (h : e.own = true) : e.gain = 0 := by
  cases e with
  | client a =>
      cases a with
      | emulateLongComputationOp _ _ _ | cancelRequest _ _ => exact absurd h Bool.false_ne_true
      | _ => rfl
  | accept i ec =>
      have hec : ec.value = 0 := by simpa [Event.own] using h
      simp [Event.gain, hec]
  | _ => rfl

/-- **Left alone, the whole comes to rest.** -/
theorem exists_rest
    (he : (network thread_pool_size).exec (network thread_pool_size).init es = some s) :
    ∃ fs s', (∀ e ∈ fs, e.own = true) ∧
      (network thread_pool_size).execUnder (Admitted num_of_threads) s fs = some s' ∧
      AtRest num_of_threads thread_pool_size s' := by
  obtain ⟨N, hok⟩ := AsyncTcpClient.exists_cancellers_le (es.filterMap Event.left)
  obtain ⟨fs, s', hown, he', hq⟩ := ((potential N).mono fun _ => Event.paid_of_own).exists_rest
    (fun _ => Event.gain_of_own) (Admitted num_of_threads)
    (TransitionSystem.reachable_of_exec he)
  refine ⟨fs, s', fun e h => (hown e h).1, he', ?_⟩
  intro e hown' hadmitted
  by_cases hN : e.within N
  · exact hq e hown' hN hadmitted
  · -- a thread that has never called `cancelRequest`
    have hfs : ∀ a ∈ fs.filterMap Event.left, a.cancellers ≤ N := by
      intro a ha
      obtain ⟨f, hf, hfa⟩ := List.mem_filterMap.mp ha
      exact (hown f hf).2 a hfa
    have hidle : ∀ n, N ≤ n → s'.left.cancel n = .idle := by
      intro n hn
      have hne : ∀ {as : List ClientAction}, (∀ a ∈ as, a.cancellers ≤ N) →
          ∀ a ∈ as, ∀ id, a ≠ .cancelRequest n id := fun h a ha =>
        AsyncTcpClient.Action.ne_cancelRequest (Nat.le_trans (h a ha) hn)
      exact AsyncTcpClient.exec_cancel_idle (hne hfs)
        (AsyncTcpClient.exec_cancel_idle (hne hok) rfl (Joint.exec_left he))
        (Joint.exec_left (TransitionSystem.exec_of_execUnder he'))
    simp only [Event.within, not_forall] at hN
    obtain ⟨a, ha, hN⟩ := hN
    cases e with
    | client b =>
        obtain rfl : b = a := Option.some.inj ha
        obtain ⟨n, hn, rfl⟩ := AsyncTcpClient.Action.eq_canceller_of_own
          (AsyncTcpClient.Action.own_of_ofThread hown') hN
        simp [network, Joint.system, AsyncTcpClient.client, Event.left,
          AsyncTcpClient.step_canceller_idle (hidle n hn)]
    | connect S ec | requestSent S ec | readResponse S received ec =>
        obtain rfl := Option.some.inj ha
        exact absurd (Nat.zero_le N) hN
    | _ => exact absurd ha (by simp [Event.left])

/-- An event that goes on by itself neither starts nor stops the server. -/
theorem running_of_own {fs : List Event} (hown : ∀ e ∈ fs, e.own = true)
    (hgoes : s.right.pc = .running) (he : (network thread_pool_size).exec s fs = some s') :
    s'.right.pc = .running := by
  refine TransitionSystem.exec_stable (P := fun s => s.right.pc = .running) ?_ hgoes hown he
  intro s e s' hi he hs
  obtain ⟨-, -, hright⟩ := network_inv hs
  cases hb : e.right with
  | none =>
      rw [hb] at hright
      rw [← Option.some.inj hright]
      exact hi
  | some b =>
      rw [hb] at hright
      refine ((AsyncServer.step_inv hright).pc_eq ?_).trans hi
      intro hserver
      subst hserver
      cases e with
      | server a =>
          obtain rfl := Option.some.inj hb
          exact absurd he Bool.false_ne_true
      | accept _ _ | readRequest _ _ _ _ | responseSent _ _ _ =>
          exact absurd (Option.some.inj hb) (by simp)
      | _ => exact absurd hb (by simp [Event.right])

/-- Nor does it call `cancelRequest`. -/
theorem cancel_idle_of_own {fs : List Event} {n : Nat} (hown : ∀ e ∈ fs, e.own = true)
    (hn : s.left.cancel n = .idle) (he : (network thread_pool_size).exec s fs = some s') :
    s'.left.cancel n = .idle := by
  refine AsyncTcpClient.exec_cancel_idle ?_ hn (Joint.exec_left he)
  intro a ha id heq
  obtain ⟨e, he, hleft⟩ := List.mem_filterMap.mp ha
  have hgain := Event.gain_of_own (hown e he)
  subst heq
  cases e with
  | client a =>
      obtain rfl := Option.some.inj hleft
      exact absurd hgain (by simp [Event.gain])
  | connect _ _ | requestSent _ _ | readResponse _ _ _ =>
      exact absurd (Option.some.inj hleft) (by simp)
  | _ => exact absurd hleft (by simp [Event.left])

/-- **Left alone while the server runs**, nobody waits for the other side at rest, unless the
lock orders of the client have crossed; and they do not if no `cancelRequest` is under way. -/
theorem settled_iff_of_rest (hthreads : 0 < num_of_threads) (hpool : 0 < thread_pool_size)
    {fs : List Event}
    (hrun : (network thread_pool_size).exec (network thread_pool_size).init es = some s)
    (hgoes : s.right.pc = .running) (hown : ∀ e ∈ fs, e.own = true)
    (hfs : (network thread_pool_size).exec s fs = some s')
    (hrest : AtRest num_of_threads thread_pool_size s') :
    (Settled s' ↔ ¬ Clash s'.left) ∧ ((∀ n, s.left.cancel n = .idle) → Settled s') := by
  have hwhole : (network thread_pool_size).exec (network thread_pool_size).init (es ++ fs) =
      some s' := by
    rw [TransitionSystem.exec_append, hrun]
    exact hfs
  have hsettled : ¬ Clash s'.left → Settled s' := fun hclash =>
    settled_of_rest hthreads hpool hwhole hrest (running_of_own hown hgoes hfs) hclash
  refine ⟨⟨fun h => h.client.not_clash, hsettled⟩, ?_⟩
  intro hidle
  refine hsettled ?_
  intro hclash
  obtain ⟨n, S, op, hn, -⟩ := hclash
  exact absurd ((cancel_idle_of_own hown (hidle n) hfs).symm.trans hn) (by simp)

/-- Where a run of client, server and network leads in which `close` is not called. -/
structure Completes (num_of_threads thread_pool_size : Nat) (es : List Event)
    (s : JointState ClientState ServerState Net) : Prop where
  /-- The client is one with its threads, and `m_ios` has not run out of work. -/
  client : (AsyncTcpClient.pool num_of_threads).Reachable ⟨s.left, false, .idle⟩
  /-- At most 76 events for each request, 7 for each cancellation and 8 for each accept that
  fails. -/
  bounded : es.countP Event.paid ≤ (es.map Event.gain).sum
  /-- Left alone, the whole comes to rest. -/
  comes_to_rest : ∃ fs s', (∀ e ∈ fs, e.own = true) ∧
    (network thread_pool_size).execUnder (Admitted num_of_threads) s fs = some s' ∧
    AtRest num_of_threads thread_pool_size s'
  /-- Wherever it does while the server runs, every request is answered, unless the lock orders of
  the client have crossed. They do not cross if no `cancelRequest` is under way. -/
  at_rest : s.right.pc = .running → ∀ fs s', (∀ e ∈ fs, e.own = true) →
    (network thread_pool_size).execUnder (Admitted num_of_threads) s fs = some s' →
    AtRest num_of_threads thread_pool_size s' → (Settled s' ↔ ¬ Clash s'.left) ∧
      ((∀ n, s.left.cancel n = .idle) → Settled s')

/-- **Exchanges come to their end**, in every run of the two programs and the network. -/
theorem exchanges_complete (hthreads : 0 < num_of_threads) (hpool : 0 < thread_pool_size)
    (he : (network thread_pool_size).execUnder (Admitted num_of_threads)
      (network thread_pool_size).init es = some s) :
    Completes num_of_threads thread_pool_size es s := by
  have hrun := TransitionSystem.exec_of_execUnder he
  refine ⟨pool_of_admitted (TransitionSystem.reachableUnder_of_execUnder he), ?_,
    exists_rest hrun, ?_⟩
  · obtain ⟨N, hN⟩ := AsyncTcpClient.exists_cancellers_le (es.filterMap Event.left)
    have hok : ∀ e ∈ es, e.within N := fun e h a ha =>
      hN a (List.mem_filterMap.mpr ⟨e, h, ha⟩)
    have hle := (potential N).countP_le .init hok hrun
    have hzero : cost N (network thread_pool_size).init = 0 := by
      simp [cost, network, Joint.system, AsyncTcpClient.client, AsyncTcpClient.State.cost,
        AsyncTcpClient.State.init, AsyncTcpClient.CancelPc.cost, Net.cost, Net.new,
        AsyncServer.machine, AsyncServer.State.cost, AsyncServer.State.acceptCost,
        AsyncServer.State.init]
    omega
  · intro hgoes fs s' hown hunder hrest
    exact settled_iff_of_rest hthreads hpool hrun hgoes hown
      (TransitionSystem.exec_of_execUnder hunder) hrest

theorem exchanges_complete_oneExchange :
    ∃ s, (network 1).execUnder (Admitted 1) (network 1).init oneExchange = some s ∧
      s.right.pc = .running ∧ Completes 1 1 oneExchange s := by
  have hrun : ((network 1).execUnder (Admitted 1) (network 1).init oneExchange).map
      (·.right.pc) = some .running := by decide
  obtain ⟨s, hs, hgoes⟩ := Option.map_eq_some_iff.mp hrun
  exact ⟨s, hs, hgoes, exchanges_complete (by decide) (by decide) hs⟩

end AsioStudy.AsyncTcp
