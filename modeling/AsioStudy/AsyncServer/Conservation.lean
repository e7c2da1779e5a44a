import AsioStudy.AsyncServer.Model

/-!
# AsioStudy.AsyncServer.Conservation

What holds of an asynchronous server in every run, for every program of its services.

The chain of accepts is one token: it is a pending `async_accept`, then the `onAccept` of
its completion, then the next `async_accept`; it ends with `m_acceptor.close()` (`Chain`).
Each service is a run of its own program (`ReachableUnder.service`), so that what is proved
of one object holds of every service of every server.
-/

namespace AsioStudy.AsyncServer

variable {Op Point Input Data : Type*} {P : Program Op Point Input Data} {thread_pool_size : Nat}
  {s s' : State Op Point Data} {a : Action Input}

/-! ### The steps -/

inductive Step (P : Program Op Point Input Data) (s : State Op Point Data) :
    Action Input → State Op Point Data → Prop
  | start : s.pc = .idle → Step P s .server { s.InitAccept with pc := .running }
  | acceptorStop : s.pc = .running →
      Step P s .server { s with pc := .stop, m_isStopped := true }
  | iosStop : s.pc = .stop → Step P s .server { s with pc := .join }
  | join : s.pc = .join → s.running = 0 → Step P s .server { s with pc := .returned }
  | accept {i ec sock} : s.accepts[i]? = some sock → s.iosStopped = false →
      Step P s (.accept i ec)
        { s with
          accepts := s.accepts.eraseIdx i
          onAccept := s.onAccept ++ [(sock, .entry ec)]
          accepted := if ec.value = 0 then s.accepted ++ [sock] else s.accepted }
  | onAccept {i sock pc} : s.onAccept[i]? = some (sock, pc) →
      Step P s (.onAccept i) (stepOnAccept P s i sock pc)
  | service {j a x o} : s.services[j]? = some x → P.stepObject x.service a = some o →
      (∀ i ec received, a = .complete i ec received → s.iosStopped = false) →
      Step P s (.service j a) { s with services := s.services.set j { x with service := o } }

theorem stepServer_inv (h : stepServer s = some s') : Step P s .server s' := by
  unfold stepServer at h
  cases hpc : s.pc with
  | idle => rw [hpc] at h; obtain rfl := Option.some.inj h; exact .start hpc
  | running => rw [hpc] at h; obtain rfl := Option.some.inj h; exact .acceptorStop hpc
  | stop => rw [hpc] at h; obtain rfl := Option.some.inj h; exact .iosStop hpc
  | join =>
      simp only [hpc] at h
      split at h
      · next hrunning =>
        obtain rfl := Option.some.inj h
        exact .join hpc hrunning
      · exact absurd h (by simp)
  | returned => rw [hpc] at h; exact absurd h (by simp)

/-- **Inversion.** Every step of the server is one of the listed ones. -/
theorem step_inv (h : step P thread_pool_size s a = some s') : Step P s a s' := by
  simp only [step] at h
  split at h
  · next hok =>
    cases a with
    | server => exact stepServer_inv h
    | accept i ec =>
        obtain ⟨sock, hsock, rfl⟩ := Option.map_eq_some_iff.mp h
        exact .accept hsock hok.1
    | onAccept i =>
        obtain ⟨⟨sock, pc⟩, hpc, rfl⟩ := Option.map_eq_some_iff.mp h
        exact .onAccept hpc
    | service j a =>
        obtain ⟨x, hx, h⟩ := Option.bind_eq_some_iff.mp h
        obtain ⟨o, ho, rfl⟩ := Option.map_eq_some_iff.mp h
        refine .service hx ho ?_
        rintro i ec received rfl
        exact hok.1
  · exact absurd h (by simp)

/-! ### The chain of accepts -/

/-- The socket of an accept that has succeeded and has no service yet. -/
def inFlight : Nat × AcceptPc → Option Nat
  | (sock, .entry ec) => if ec.value = 0 then some sock else none
  | _ => none

/-- The tokens that `Start` has made: one. -/
def State.started (s : State Op Point Data) : Nat := if s.pc = .idle then 0 else 1

@[simp] theorem filterMap_inFlight (sock : Nat) (pc : AcceptPc) :
    [(sock, pc)].filterMap inFlight = (inFlight (sock, pc)).toList := by
  cases h : inFlight (sock, pc) <;> simp [h]

structure Chain (s : State Op Point Data) : Prop where
  /-- A pending accept, an `onAccept` that runs, or a closed acceptor. -/
  token : s.accepts.length + s.onAccept.length + s.closed.toNat = s.started
  /-- The services have the sockets of the accepts that succeeded, in their order. -/
  sockets : s.services.map (·.m_sock) ++ s.onAccept.filterMap inFlight = s.accepted

/-- An `onAccept` that runs is the token. -/
theorem Chain.onAccept (h : Chain s) {i sock : Nat} {pc : AcceptPc}
    (hpc : s.onAccept[i]? = some (sock, pc)) :
    s.accepts = [] ∧ s.onAccept = [(sock, pc)] ∧ i = 0 ∧ s.closed = false ∧ s.started = 1 := by
  have hi : i < s.onAccept.length := (List.getElem?_eq_some_iff.mp hpc).1
  have htoken := h.token
  have hle : s.started ≤ 1 := by unfold State.started; split <;> omega
  obtain ⟨q, hq⟩ := List.length_eq_one_iff.mp (show s.onAccept.length = 1 by omega)
  obtain rfl : i = 0 := by omega
  obtain rfl : q = (sock, pc) := by simpa [hq] using hpc
  refine ⟨List.length_eq_zero_iff.mp (by omega), hq, rfl, ?_, by omega⟩
  cases hclosed : s.closed
  · rfl
  · rw [hclosed, Bool.toNat_true] at htoken
    omega

theorem stepOnAccept_chain {i sock : Nat} {pc : AcceptPc} (h : Chain s)
    (hpc : s.onAccept[i]? = some (sock, pc)) : Chain (stepOnAccept P s i sock pc) := by
  obtain ⟨haccepts, honAccept, rfl, hclosed, hstarted⟩ := h.onAccept hpc
  have hsockets := h.sockets
  rw [honAccept] at hsockets
  cases pc with
  | entry ec =>
      by_cases hec : ec.value = 0
      · refine ⟨?_, ?_⟩
        · simp only [stepOnAccept, hec, if_true, State.goto, haccepts, honAccept, hclosed]
          simpa [State.started] using hstarted.symm
        · simpa [stepOnAccept, hec, State.goto, honAccept, inFlight] using hsockets
      · refine ⟨?_, ?_⟩
        · simp only [stepOnAccept, hec, if_false, State.goto, haccepts, honAccept, hclosed]
          simpa [State.started] using hstarted.symm
        · simpa [stepOnAccept, hec, State.goto, honAccept, inFlight] using hsockets
  | load =>
      refine ⟨?_, ?_⟩
      · simp only [stepOnAccept, State.goto, haccepts, honAccept, hclosed]
        simpa [State.started] using hstarted.symm
      · cases hstop : s.m_isStopped <;>
          simpa [stepOnAccept, hstop, State.goto, honAccept, inFlight] using hsockets
  | InitAccept =>
      refine ⟨?_, ?_⟩
      · simp only [stepOnAccept, State.leave, State.InitAccept, haccepts, honAccept, hclosed]
        simpa [State.started] using hstarted.symm
      · simpa [stepOnAccept, State.leave, State.InitAccept, honAccept, inFlight] using hsockets
  | close =>
      refine ⟨?_, ?_⟩
      · simp only [stepOnAccept, State.leave, haccepts, honAccept]
        simpa [State.started] using hstarted.symm
      · simpa [stepOnAccept, State.leave, honAccept, inFlight] using hsockets

/-- **No step breaks the chain.** -/
theorem Step.chain (h : Step P s a s') (hi : Chain s) : Chain s' := by
  cases h with
  | start hpc =>
      have htoken := hi.token
      simp only [State.started, hpc, if_true] at htoken
      refine ⟨?_, hi.sockets⟩
      simp only [State.started, State.InitAccept, List.length_append, List.length_singleton,
        reduceCtorEq, if_false]
      omega
  | acceptorStop hpc =>
      exact ⟨by simpa [State.started, hpc] using hi.token, hi.sockets⟩
  | iosStop hpc => exact ⟨by simpa [State.started, hpc] using hi.token, hi.sockets⟩
  | join hpc _ => exact ⟨by simpa [State.started, hpc] using hi.token, hi.sockets⟩
  | @accept i ec sock hsock _ =>
      have hi' : i < s.accepts.length := (List.getElem?_eq_some_iff.mp hsock).1
      have htoken := hi.token
      refine ⟨?_, ?_⟩
      · simp only [List.length_eraseIdx_of_lt hi', List.length_append, List.length_singleton]
        change _ = s.started
        omega
      · rw [← hi.sockets, List.filterMap_append]
        by_cases hec : ec.value = 0 <;> simp [hec, inFlight]
  | onAccept hpc => exact stepOnAccept_chain hi hpc
  | @service j a x o hx _ _ =>
      refine ⟨hi.token, ?_⟩
      have hsame : (s.services.set j { x with service := o }).map (·.m_sock) =
          s.services.map (·.m_sock) := by
        obtain ⟨hj, hget⟩ := List.getElem?_eq_some_iff.mp hx
        refine List.ext_getElem (by simp) ?_
        intro i hi₁ hi₂
        by_cases hij : j = i
        · subst hij
          simp [hget]
        · simp [hij]
      rw [hsame]
      exact hi.sockets

theorem reachable_chain (h : (machine P thread_pool_size).Reachable s) : Chain s := by
  refine h.invariant (P := Chain) ⟨rfl, rfl⟩ ?_
  intro s a s' _ hi hs
  exact (step_inv hs).chain hi

/-- After `m_acceptor.close()` the chain has ended. -/
theorem Step.closed (h : Step P s a s') (hi : Chain s) (hclosed : s.closed = true) :
    s'.closed = true ∧ s'.sockets = s.sockets := by
  have htoken := hi.token
  have hle : s.started ≤ 1 := by unfold State.started; split <;> omega
  rw [hclosed, Bool.toNat_true] at htoken
  cases h with
  | start hpc => simp [State.started, hpc] at htoken
  | onAccept hpc => exact absurd (hi.onAccept hpc).2.2.2.1 (by simp [hclosed])
  | _ => exact ⟨hclosed, rfl⟩

theorem Chain.accepts_of_closed (hi : Chain s) (hclosed : s.closed = true) : s.accepts = [] := by
  have htoken := hi.token
  have hle : s.started ≤ 1 := by unfold State.started; split <;> omega
  rw [hclosed, Bool.toNat_true] at htoken
  exact List.length_eq_zero_iff.mp (by omega)

/-! ### The services -/

/-- **Every service is a run of its program**, under a condition on its steps that the
condition on the steps of the server implies. -/
theorem ReachableUnder.service {ok : State Op Point Data → Action Input → Prop}
    {okObject : AsyncObject Op Point Data → ObjectAction Input → Prop}
    (hok : ∀ s j a x, s.services[j]? = some x → ok s (.service j a) → okObject x.service a)
    (h : (machine P thread_pool_size).ReachableUnder ok s) :
    ∀ x ∈ s.services, P.machine.ReachableUnder okObject x.service := by
  refine h.invariant
    (P := fun s => ∀ x ∈ s.services, P.machine.ReachableUnder okObject x.service)
    (by simp [machine, State.init]) ?_
  intro s a s' _ hi hoka hs
  cases step_inv hs with
  | @onAccept i sock pc _ =>
      cases pc with
      | entry ec =>
          by_cases hec : ec.value = 0
          · intro x hx
            simp only [stepOnAccept, hec, if_true, State.goto, List.mem_append,
              List.mem_singleton] at hx
            rcases hx with hx | rfl
            · exact hi x hx
            · exact .init
          · simpa [stepOnAccept, hec, State.goto] using hi
      | load => exact hi
      | InitAccept => exact hi
      | close => exact hi
  | @service j a x o hx ho _ =>
      intro y hy
      rcases List.mem_or_eq_of_mem_set hy with hy | rfl
      · exact hi y hy
      · exact (hi x (List.mem_of_getElem? hx)).step (hok s j a x hx hoka) ho
  | _ => exact hi

theorem reachable_service (h : (machine P thread_pool_size).Reachable s) :
    ∀ x ∈ s.services, P.machine.Reachable x.service :=
  ReachableUnder.service (fun _ _ _ _ _ _ => trivial) h

/-- **A service keeps its place and its socket**, and goes on with its program. -/
theorem service_after {j : Nat} {x : Served Op Point Data}
    (h : ((machine P thread_pool_size).after s).Reachable s') (hx : s.services[j]? = some x) :
    ∃ o, s'.services[j]? = some { x with service := o } ∧
      (P.machine.after x.service).Reachable o := by
  refine h.invariant (P := fun s' => ∃ o, s'.services[j]? = some { x with service := o } ∧
    (P.machine.after x.service).Reachable o) ⟨x.service, hx, .init⟩ ?_
  rintro t a t' _ ⟨o, ho, hr⟩ hs
  cases step_inv hs with
  | @onAccept i sock pc _ =>
      refine ⟨o, ?_, hr⟩
      cases pc with
      | entry ec =>
          by_cases hec : ec.value = 0
          · have hj : j < t.services.length := (List.getElem?_eq_some_iff.mp ho).1
            simpa [stepOnAccept, hec, State.goto, List.getElem?_append_left hj] using ho
          · simpa [stepOnAccept, hec, State.goto] using ho
      | load => exact ho
      | InitAccept => exact ho
      | close => exact ho
  | @service i a y o' hy ho' _ =>
      by_cases hij : i = j
      · subst hij
        obtain rfl := Option.some.inj (hy.symm.trans ho)
        have hj : i < t.services.length := (List.getElem?_eq_some_iff.mp ho).1
        exact ⟨o', by simp [hj], hr.step ho'⟩
      · exact ⟨o, by simpa [hij] using ho, hr⟩
  | _ => exact ⟨o, ho, hr⟩

/-- A deleted service of a linear program stays as it is. -/
theorem deleted_after {j : Nat} {x : Served Op Point Data} (hl : P.Linear)
    (hr : (machine P thread_pool_size).Reachable s) (hx : s.services[j]? = some x)
    (hdeleted : x.service.deleted = 1)
    (h : ((machine P thread_pool_size).after s).Reachable s') :
    s'.services[j]? = some x := by
  have hw := weight_eq_one hl (reachable_service hr x (List.mem_of_getElem? hx))
  obtain ⟨hpending, hrunning⟩ := AsyncObject.ended_of_deleted hw hdeleted
  obtain ⟨o, ho, hreach⟩ := service_after h hx
  obtain rfl : o = x.service := by
    refine hreach.invariant (P := fun o => o = x.service) rfl ?_
    rintro o a o' _ rfl hs
    have hnone : P.stepObject x.service a = none := stepObject_ended hpending hrunning a
    exact absurd (hnone.symm.trans hs) nofun
  exact ho

/-! ### Conservation of connections -/

/-- The accepts and the services of a server are accounted for. -/
structure Conserved (P : Program Op Point Input Data) (thread_pool_size : Nat)
    (s : State Op Point Data) : Prop where
  at_most_one : s.accepts.length ≤ 1
  between_handlers : s.pc ≠ .idle → s.onAccept = [] →
    s.accepts.length = if s.closed then 0 else 1
  /-- After `m_acceptor.close()` no accept is started. -/
  closed_for_good : s.closed = true →
    ∀ s', ((machine P thread_pool_size).after s).Reachable s' →
      s'.accepts = [] ∧ s'.sockets = s.sockets
  /-- The services that were created are those of the accepts that succeeded, less one whose
  `onAccept` has not come to it yet. -/
  one_service_each : s.services.map (·.m_sock) ++ s.onAccept.filterMap inFlight = s.accepted
  pending_or_deleted : ∀ x ∈ s.services, x.service.running = [] →
    x.service.pending.length = 1 ∧ x.service.deleted = 0 ∨
      x.service.pending = [] ∧ x.service.deleted = 1
  /-- No handler of a deleted service runs. -/
  deleted_for_good : ∀ (j : Nat) (x : Served Op Point Data),
    s.services[j]? = some x → x.service.deleted ≠ 0 →
    ∀ s', ((machine P thread_pool_size).after s).Reachable s' →
      s'.services[j]? = some x ∧ x.service.running = []

theorem closed_after (hr : (machine P thread_pool_size).Reachable s) (hclosed : s.closed = true)
    (h : ((machine P thread_pool_size).after s).Reachable s') :
    s'.closed = true ∧ s'.sockets = s.sockets := by
  refine hr.invariant_after (P := fun s' => s'.closed = true ∧ s'.sockets = s.sockets)
    ⟨hclosed, rfl⟩ ?_ h
  rintro t a t' hrt ⟨hc, hsock⟩ - hs
  obtain ⟨hc', hsock'⟩ := (step_inv hs).closed (reachable_chain hrt) hc
  exact ⟨hc', hsock'.trans hsock⟩

/-- **Conservation**, for services that fail in no step. -/
theorem conserved (hl : P.Linear) (hsafe : P.Safe)
    (hr : (machine P thread_pool_size).Reachable s) : Conserved P thread_pool_size s := by
  have hchain := reachable_chain hr
  have htoken := hchain.token
  have hstarted : s.started ≤ 1 := by unfold State.started; split <;> omega
  have hservice := reachable_service hr
  refine ⟨by omega, ?_, ?_, hchain.sockets, ?_, ?_⟩
  · intro hpc hidle
    simp only [hidle, List.length_nil, State.started, hpc, if_false] at htoken
    cases hclosed : s.closed <;> simp [hclosed] at htoken ⊢ <;> omega
  · intro hclosed s' h
    obtain ⟨hc', hsock⟩ := closed_after hr hclosed h
    exact ⟨(reachable_chain (hr.after h)).accepts_of_closed hc', hsock⟩
  · intro x hx hidle
    obtain ⟨hthrew, hundefined⟩ := not_failed_of_safe hsafe (hservice x hx)
    exact AsyncObject.pending_or_deleted (weight_eq_one hl (hservice x hx)) hidle hthrew hundefined
  · intro j x hx hdeleted s' h
    have hw := weight_eq_one hl (hservice x (List.mem_of_getElem? hx))
    have hone : x.service.deleted = 1 := by
      simp only [AsyncObject.weight] at hw
      omega
    exact ⟨deleted_after hl hr hx hone h, (AsyncObject.ended_of_deleted hw hone).2⟩

/-! ### After `Server::Stop` -/

theorem State.running_eq_zero :
    s.running = 0 ↔ s.onAccept = [] ∧ ∀ x ∈ s.services, x.service.running = [] := by
  rw [State.running, Nat.add_eq_zero_iff, List.length_eq_zero_iff, List.length_eq_zero_iff,
    List.flatMap_eq_nil_iff]

theorem step_of_returned (hrunning : s.running = 0) (hpc : s.pc = .returned)
    (a : Action Input) : step P thread_pool_size s a = none := by
  obtain ⟨hidle, hservices⟩ := State.running_eq_zero.mp hrunning
  cases a with
  | server => simp [step, stepServer, hpc, enabled]
  | accept i ec => simp [step, enabled, mayInvoke, State.iosStopped, hpc]
  | onAccept i => simp [step, hidle]
  | service j a =>
      cases a with
      | complete i ec received => simp [step, enabled, mayInvoke, State.iosStopped, hpc]
      | run i input =>
          cases hx : s.services[j]? with
          | none => simp [step, hx]
          | some x =>
              have hno := hservices x (List.mem_of_getElem? hx)
              simp [step, hx, Program.stepObject, hno]

theorem Step.returned (h : Step P s a s') (hpc : s.pc ≠ .returned) (hpc' : s'.pc = .returned) :
    s'.running = 0 := by
  cases h with
  | join _ hrunning => exact hrunning
  | @onAccept i sock pc _ =>
      cases pc with
      | entry ec => exact absurd hpc' (by by_cases hec : ec.value = 0 <;>
          simpa [stepOnAccept, hec, State.goto] using hpc)
      | _ => exact absurd hpc' hpc
  | accept _ _ => exact absurd hpc' hpc
  | service _ _ _ => exact absurd hpc' hpc
  | _ => simp at hpc'

/-- **Once `Stop` has returned nothing happens any more.** -/
theorem returned_final (hr : (machine P thread_pool_size).Reachable s) (hpc : s.pc = .returned) :
    s.running = 0 ∧ ∀ a, step P thread_pool_size s a = none := by
  have hrunning : s.pc = .returned → s.running = 0 := by
    refine hr.invariant (P := fun s => s.pc = .returned → s.running = 0) (fun _ => rfl) ?_
    intro t a t' _ hi hs hpc'
    by_cases hpc : t.pc = .returned
    · exact absurd ((step_of_returned (hi hpc) hpc a).symm.trans hs) nofun
    · exact (step_inv hs).returned hpc hpc'
  exact ⟨hrunning hpc, step_of_returned (hrunning hpc) hpc⟩

end AsioStudy.AsyncServer
