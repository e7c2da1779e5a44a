import AsioStudy.AsyncTcp.Network

/-!
# AsioStudy.AsyncTcp.Requests

The client's side of the network. What has gone out of a session is a prefix of its request, and
the whole of it once its `async_write` has succeeded (`Sends`); every connection that waits for
the acceptor or was taken by it is that of one session whose `async_connect` has completed
(`Linked`).
-/

namespace AsioStudy.AsyncTcp

open AsyncTcpClient (SessionId Session HandlerPc CallMove HandlerMove SessionStep)

variable {thread_pool_size : Nat} {s s' : JointState ClientState ServerState Net} {e : Event}
  {c c' : ClientState} {v : ServerState} {net net' : Net} {S T : SessionId} {p p' : Pipe}
  {x y : Session} {o o' op op' : AsyncTcpClient.Op} {a : ClientAction} {pc : HandlerPc}

/-- The handler, called without an error, still has the next operation to start. -/
def goesOn : HandlerPc → Bool
  | .entry ec => ec.value = 0
  | .lockCancel | .testCancelled | .startNext => true
  | _ => false

/-- The operation `op` of the session has succeeded; `op'` is the one that comes next. -/
def Passed (op op' : AsyncTcpClient.Op) (x : Session) : Prop :=
  goesOn (x.pc op) = true ∨ x.pc op' ≠ .idle

/-- What the session has written to its connection. -/
structure Sends (x : Session) (p : Pipe) : Prop where
  isPrefix : p.sent <+: x.m_request
  idle : x.pc .write = .idle → p.sent = []
  written : Passed .write .read x → p.sent = x.m_request

/-! ### One session -/

theorem Op.next_inj (h : op.next = some o') (h' : o.next = some o') : op = o := by
  cases op <;> cases o <;> cases o' <;> simp [AsyncTcpClient.Op.next] at h h' ⊢

/-- A handler moves on. -/
theorem Passed.of_setPc (h : Passed op op' (x.setPc o pc)) (hold : x.pc o ≠ .idle)
    (hgoes : goesOn pc = true → goesOn (x.pc o) = true) : Passed op op' x := by
  rcases h with h | h
  · by_cases ho : op = o
    · exact .inl (ho ▸ hgoes (by simpa [ho] using h))
    · exact .inl (by simpa [ho] using h)
  · by_cases ho : op' = o
    · exact .inr (ho ▸ hold)
    · exact .inr (by simpa [ho] using h)

/-- No step of a handler makes an operation succeed. -/
theorem Passed.of_handlerMove (hy : Passed op op' y) (hn : op.next = some op')
    (h : HandlerMove x o y) : Passed op op' x := by
  have hset : ∀ {pc pc' : HandlerPc}, x.pc o = pc → pc ≠ .idle →
      Passed op op' (x.setPc o pc') → (goesOn pc' = true → goesOn pc = true) →
      Passed op op' x := by
    intro pc pc' hpc hne hy hgoes
    exact hy.of_setPc (hpc ▸ hne) fun hg => hpc ▸ hgoes hg
  cases h with
  | @enter ec hpc =>
      have hy' : Passed op op' (x.setPc o (Session.enterPc o ec)) := by
        simpa [Passed] using hy
      refine hset hpc nofun hy' ?_
      unfold Session.enterPc
      split
      · exact (absurd · Bool.false_ne_true)
      · next hor => exact fun _ => by simpa [goesOn] using fun hec => hor (.inl hec)
  | lockCancel hpc | notCancelled hpc _ => exact hset hpc nofun hy fun _ => rfl
  | @startNext o' hpc hn' =>
      by_cases ho : o = op
      · subst ho
        exact .inl (by rw [hpc]; rfl)
      · -- another operation has been started
        have hop' : op' ≠ o' := by
          rintro rfl
          exact ho (Op.next_inj hn' hn)
        rcases hy with hy | hy
        · by_cases hop : op = o'
          · subst hop
            simp [Ne.symm ho, goesOn] at hy
          · exact .inl (by simpa [Ne.symm ho, hop] using hy)
        · by_cases hoo : op' = o
          · exact .inr (by rw [hoo, hpc]; nofun)
          · exact .inr (by simpa [hoo, hop'] using hy)
  | @callback ec hpc =>
      have hy' : Passed op op' (x.setPc o .ret) := by simpa [Passed] using hy
      exact hset hpc nofun hy' (absurd · Bool.false_ne_true)
  | cancelled hpc _ | shutdown hpc | lockActive hpc | eraseEntry hpc | unlockActive hpc
  | report hpc | ret hpc => exact hset hpc nofun hy (absurd · Bool.false_ne_true)

/-- **An operation passes by completing without an error.** -/
theorem Passed.of_sessionStep (hy : Passed op op' y) (hn : op.next = some op')
    (h : SessionStep c S a y) :
    Passed op op' (c.session S) ∨
      ∃ ec received, a = .complete S op ec received ∧ ec.value = 0 := by
  cases h with
  | construct _ => exact absurd hy (by simp [Passed, goesOn])
  | caller h =>
      refine .inl ?_
      cases h with
      | asyncConnect hcall =>
          have hne : op' ≠ .connect := by
            rintro rfl
            cases op <;> simp [AsyncTcpClient.Op.next] at hn
          rcases hy with hy | hy
          · by_cases hop : op = .connect
            · simp [hop, goesOn] at hy
            · exact .inl (by simpa [hop] using hy)
          · exact .inr (by simpa [hne] using hy)
      | _ => exact hy
  | @complete o ec received hpc =>
      rcases hy with hy | hy
      · by_cases hop : op = o
        · subst hop
          exact .inr ⟨ec, received, rfl, by simpa [goesOn] using hy⟩
        · exact .inl (.inl (by simpa [hop] using hy))
      · by_cases hop : op' = o
        · exact .inl (.inr (by simp [hop, hpc]))
        · exact .inl (.inr (by simpa [hop] using hy))
  | handler h => exact .inl (hy.of_handlerMove hn h)
  | setCancelled _ => exact .inl hy

/-- A handler that has been started stays so. -/
theorem started_of_handlerMove (h : HandlerMove x o y) (hx : x.pc op ≠ .idle) :
    y.pc op ≠ .idle := by
  cases h with
  | @enter ec hpc =>
      by_cases hop : op = o
      · simp only [Session.enter_pc, hop, if_true]
        unfold Session.enterPc
        split <;> nofun
      · simpa [hop] using hx
  | startNext _ _ =>
      simp only [Session.setPc_pc]
      split
      · nofun
      · split
        · nofun
        · exact hx
  | _ =>
      simp only [Session.setPc_pc]
      split
      · nofun
      · exact hx

theorem started_of_sessionStep (h : SessionStep c S a y)
    (hfresh : (c.session c.next).InPhase .absent) (hx : (c.session S).pc op ≠ .idle) :
    y.pc op ≠ .idle := by
  cases h with
  | construct hS =>
      subst hS
      exact absurd (hfresh.2.1 op) hx
  | caller h =>
      cases h with
      | asyncConnect _ =>
          simp only [Session.setCall_frame, Session.setPc_pc]
          split
          · simp
          · exact hx
      | _ => exact hx
  | complete _ =>
      simp only [Session.setPc_pc]
      split
      · simp
      · simpa using hx
  | handler h => exact started_of_handlerMove h hx
  | setCancelled _ => exact hx

theorem Sends.congr (h : Sends x p) (hsent : p'.sent = p.sent) : Sends x p' :=
  ⟨hsent ▸ h.isPrefix, hsent ▸ h.idle, hsent ▸ h.written⟩

/-- **What has gone out stays a prefix of the request**, whatever the client does. -/
theorem Sends.sessionStep (hx : Sends (c.session S) p) (h : SessionStep c S a y)
    (hfresh : (c.session c.next).InPhase .absent)
    (hwrite : ∀ ec received, a = .complete S .write ec received → ec.value = 0 →
      p.sent = (c.session S).m_request) : Sends y p := by
  have hidle : y.pc .write = .idle → p.sent = [] := by
    intro hy
    refine hx.idle ?_
    by_contra hne
    exact started_of_sessionStep h hfresh hne hy
  rcases h.m_request with ⟨rfl, d, id, rfl⟩ | hrequest
  · have hnil := hx.idle (hfresh.2.1 .write)
    exact ⟨hnil ▸ List.nil_prefix, fun _ => hnil, fun hy => absurd hy (by simp [Passed, goesOn])⟩
  · refine ⟨hrequest ▸ hx.isPrefix, hidle, ?_⟩
    intro hy
    rw [hrequest]
    rcases hy.of_sessionStep rfl h with hold | ⟨ec, received, ha, hec⟩
    · exact hx.written hold
    · exact hwrite ec received ha hec

/-- `async_connect` of the session has completed. -/
def Connected (x : Session) : Prop := x.pc .connect ≠ .idle ∧ x.pc .connect ≠ .pending

theorem Connected.setPc (h : Connected x) (hpc : op = .connect → pc ≠ .idle ∧ pc ≠ .pending) :
    Connected (x.setPc op pc) := by
  unfold Connected at *
  by_cases hop : .connect = op
  · simpa [hop] using hpc hop.symm
  · simpa [hop] using h

theorem Connected.handlerMove (hx : Connected x) (h : HandlerMove x op y) : Connected y := by
  cases h with
  | @enter ec hpc =>
      have hset : Connected (x.setPc op (Session.enterPc op ec)) := hx.setPc fun _ => by
        unfold Session.enterPc
        split <;> simp
      simpa [Connected] using hset
  | @startNext op' hpc hn =>
      have hne : op' ≠ .connect := by
        rintro rfl
        cases op <;> simp [AsyncTcpClient.Op.next] at hn
      exact (hx.setPc (absurd · hne)).setPc fun _ => by simp
  | callback hpc => exact Connected.setPc (x := x.invokeCallback _) hx fun _ => by simp
  | _ => exact hx.setPc fun _ => by simp

theorem Connected.sessionStep (hx : Connected (c.session S)) (h : SessionStep c S a y)
    (hphase : ∀ T, ∃ q, (c.session T).InPhase q) (hfresh : (c.session c.next).InPhase .absent) :
    Connected y := by
  cases h with
  | construct hS =>
      subst hS
      exact absurd (hfresh.2.1 .connect) hx.1
  | caller h =>
      cases h with
      | asyncConnect hcall =>
          obtain ⟨q, hq⟩ := hphase S
          obtain rfl := hq.eq_calling (by rw [hcall]; rfl)
          exact absurd (hq.2.1 .connect) hx.1
      | _ => exact hx
  | @complete op ec received hpc =>
      have hreceive : Connected ((c.session S).receive op received) := by
        simpa [Connected] using hx
      exact hreceive.setPc fun _ => by simp
  | handler h => exact hx.handlerMove h
  | setCancelled _ => exact hx

/-! ### All sessions -/

/-- The client and the network agree about what was sent and which connections are made. -/
structure Linked (c : ClientState) (net : Net) : Prop where
  sends : ∀ S, Sends (c.session S) (net.request S)
  /-- A session has one connection. -/
  nodup : (net.accepted ++ net.backlog).Nodup
  connected : ∀ S ∈ net.accepted ++ net.backlog, Connected (c.session S)
  /-- A session writes only on a connection. -/
  made : ∀ S, Passed .connect .write (c.session S) → S ∈ net.accepted ++ net.backlog

/-- A step of the client, seen by the sessions. -/
theorem Linked.move (h : Linked c net) (hr : AsyncTcpClient.client.Reachable c)
    (hs : AsyncTcpClient.client.move c e.left = some c')
    (hwrite : ∀ S ec, e = .requestSent S ec → ec.value = 0 →
      (net.request S).sent = (c.session S).m_request)
    (hclient : ∀ S op ec received, e ≠ .client (.complete S op ec received)) :
    (∀ S, Sends (c'.session S) (net.request S)) ∧
      (∀ S ∈ net.accepted ++ net.backlog, Connected (c'.session S)) ∧
      ∀ S, Passed .connect .write (c'.session S) →
        S ∈ net.accepted ++ net.backlog ∨ ∃ ec, e = .connect S ec ∧ ec.value = 0 := by
  cases hleft : e.left with
  | none =>
      rw [hleft] at hs
      obtain rfl := Option.some.inj hs
      exact ⟨h.sends, h.connected, fun S hS => .inl (h.made S hS)⟩
  | some a =>
      rw [hleft] at hs
      obtain ⟨hphase, hfresh⟩ := AsyncTcpClient.reachable_phase hr
      have hnew := hfresh c.next (Nat.le_refl _)
      have hsession := (AsyncTcpClient.step_inv hs).session
      refine ⟨?_, ?_, ?_⟩
      · intro S
        rcases hsession S with hsame | hstep
        · rw [hsame]
          exact h.sends S
        · refine (h.sends S).sessionStep hstep hnew ?_
          rintro ec received rfl hec
          cases e with
          | client a =>
              obtain rfl := Option.some.inj hleft
              exact absurd rfl (hclient S .write ec received)
          | requestSent T ec' =>
              obtain ⟨rfl, -, rfl, -⟩ := AsyncTcpClient.Action.complete.inj (Option.some.inj hleft)
              exact hwrite T ec' rfl hec
          | connect T ec' | readResponse T received' ec' =>
              obtain ⟨-, hop, -⟩ := AsyncTcpClient.Action.complete.inj (Option.some.inj hleft)
              exact absurd hop nofun
          | _ => exact absurd hleft nofun
      · intro S hS
        rcases hsession S with hsame | hstep
        · rw [hsame]
          exact h.connected S hS
        · exact (h.connected S hS).sessionStep hstep hphase hnew
      · intro S hS
        rcases hsession S with hsame | hstep
        · exact .inl (h.made S (hsame ▸ hS))
        · rcases hS.of_sessionStep rfl hstep with hold | ⟨ec, received, rfl, hec⟩
          · exact .inl (h.made S hold)
          · cases e with
            | client a =>
                obtain rfl := Option.some.inj hleft
                exact absurd rfl (hclient S .connect ec received)
            | connect T ec' =>
                obtain ⟨rfl, -, rfl, -⟩ :=
                  AsyncTcpClient.Action.complete.inj (Option.some.inj hleft)
                exact .inr ⟨_, rfl, hec⟩
            | requestSent T ec' | readResponse T received' ec' =>
                obtain ⟨-, hop, -⟩ := AsyncTcpClient.Action.complete.inj (Option.some.inj hleft)
                exact absurd hop nofun
            | _ => exact absurd hleft nofun

/-- **Every event keeps the client and the network in agreement.** -/
theorem Linked.step (h : Linked c net) (hr : AsyncTcpClient.client.Reachable c)
    (hnet : NetStep c v net e net') (hs : AsyncTcpClient.client.move c e.left = some c') :
    Linked c' net' := by
  obtain ⟨hsends, hconnected, hmade⟩ := h.move hr hs
    (by rintro S ec rfl; cases hnet with | requestSent hall => exact hall)
    (by rintro S op ec received rfl; cases hnet with | client ha => exact absurd ha (by simp [completesClient]))
  -- no session has connected
  have hkeep : ∀ {net' : Net}, (∀ S ec, e = .connect S ec → ec.value ≠ 0) →
      (∀ S, (net'.request S).sent = (net.request S).sent) →
      net'.accepted ++ net'.backlog = net.accepted ++ net.backlog → Linked c' net' := by
    intro net' hfails hsent hlist
    refine ⟨fun S => (hsends S).congr (hsent S), hlist ▸ h.nodup, ?_, ?_⟩
    · rw [hlist]
      exact hconnected
    · rw [hlist]
      intro S hS
      rcases hmade S hS with hold | ⟨ec, he, hec⟩
      · exact hold
      · exact absurd hec (hfails S ec he)
  cases hnet with
  | @connected S ec hec _ =>
      -- a session connects once
      obtain ⟨hpending, rfl⟩ : (c.session S).pc .connect = .pending ∧
          c' = c.modify S fun x => (x.receive .connect []).setPc .connect (.entry ec) := by
        have hstep : AsyncTcpClient.Step c (.complete S .connect ec []) c' :=
          AsyncTcpClient.step_inv hs
        cases hstep with
        | complete hpc => exact ⟨hpc, rfl⟩
      have hnot : S ∉ net.accepted ++ net.backlog := fun hm => (h.connected S hm).2 hpending
      refine ⟨hsends, ?_, ?_, ?_⟩
      · simp only [← List.append_assoc]
        exact List.nodup_append.mpr ⟨h.nodup, List.nodup_singleton S, fun T hT U hU => by
          rintro rfl
          exact hnot (List.mem_singleton.mp hU ▸ hT)⟩
      · intro T hT
        simp only [← List.append_assoc, List.mem_append (s := net.accepted ++ net.backlog),
          List.mem_singleton] at hT
        rcases hT with hT | rfl
        · exact hconnected T hT
        · simp [Connected, Session.receive]
      · intro T hT
        simp only [← List.append_assoc, List.mem_append (s := net.accepted ++ net.backlog),
          List.mem_singleton]
        refine (hmade T hT).imp_right ?_
        rintro ⟨ec', he, -⟩
        exact (Event.connect.inj he).1.symm
  | @connectFails S ec hec =>
      exact hkeep (by rintro T ec' he; exact (Event.connect.inj he).2 ▸ hec) (fun _ => rfl) rfl
  | @accepted i ec S rest _ hbacklog =>
      exact hkeep (by simp) (fun _ => rfl) (by simp [hbacklog])
  | @sendRequest S portion hpending hne hsends =>
      obtain rfl := Option.some.inj hs
      refine ⟨?_, h.nodup, h.connected, h.made⟩
      intro T
      by_cases hT : T = S
      · subst hT
        simp only [Net.setRequest_request, if_true]
        refine ⟨hsends, fun hidle => absurd (hidle.symm.trans hpending) (by simp), ?_⟩
        intro hdone
        -- nothing is left to send once the write has succeeded
        have hsent := (h.sends T).written hdone
        rw [hsent] at hsends
        have hlen := hsends.length_le
        rw [List.length_append] at hlen
        exact absurd (List.length_eq_zero_iff.mp (by omega)) hne
      · simpa [hT] using h.sends T
  | @readRequest j i received ec S x _ _ _ _ =>
      refine hkeep (by simp) ?_ rfl
      intro T
      by_cases hT : T = S <;> simp [hT]
  | _ => exact hkeep (by simp) (fun _ => rfl) rfl

theorem reachable_linked (h : (network thread_pool_size).Reachable s) :
    Linked s.left s.medium := by
  refine h.invariant (P := fun s => Linked s.left s.medium) ?_ ?_
  · refine ⟨fun _ => ⟨List.nil_prefix, fun _ => rfl, fun _ => rfl⟩, List.nodup_nil, ?_, ?_⟩
    · simp [network, Joint.system, Net.new]
    · intro S hS
      rcases hS with hS | hS
      · exact absurd hS Bool.false_ne_true
      · exact absurd rfl hS
  · intro s e s' hr hi hs
    obtain ⟨hnet, hleft, -⟩ := network_inv hs
    exact hi.step (Joint.reachable_sides hr).1 hnet hleft

end AsioStudy.AsyncTcp
