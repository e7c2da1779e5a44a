import AsioStudy.AsyncServer.Conservation
import AsioStudy.Core.RankedProgram

/-!
# AsioStudy.AsyncServer.Liveness

An asynchronous server comes to rest. Each accept costs it a bounded number of steps
(`countP_handlers_le`); where its handlers have nothing more to do, every service has come to
its end (`ended_of_still`); and `Stop`, once it has stopped the `io_service`, waits for a
bounded number of steps and returns (`stops`).
-/

namespace AsioStudy.AsyncServer

variable {Op Point Input Data : Type*} {P : Program Op Point Input Data} {thread_pool_size : Nat}
  {rankOp : Op → Nat} {rankPoint : Point → Nat} {s s' : State Op Point Data} {a : Action Input}

/-! ### The handlers -/

/-- A handler is invoked for a service, or takes a step. -/
def Action.ofHandler : Action Input → Bool
  | .onAccept _ | .service _ _ => true
  | .server | .accept _ _ => false

def Action.isAccept : Action Input → Bool
  | .accept _ _ => true
  | _ => false

/-- The steps an `onAccept` may still take, and `first` more for the service it makes. -/
def AcceptPc.cost (first : Nat) : AcceptPc → Nat
  | .entry _ => 3 + first
  | .load => 2
  | .InitAccept | .close => 1

@[simp] theorem AcceptPc.cost_entry (first : Nat) (ec : ErrorCode) :
    (AcceptPc.entry ec).cost first = 3 + first := rfl
@[simp] theorem AcceptPc.cost_load (first : Nat) : AcceptPc.load.cost first = 2 := rfl
@[simp] theorem AcceptPc.cost_InitAccept (first : Nat) : AcceptPc.InitAccept.cost first = 1 := rfl
@[simp] theorem AcceptPc.cost_close (first : Nat) : AcceptPc.close.cost first = 1 := rfl

def State.acceptCost (first : Nat) (s : State Op Point Data) : Nat :=
  (s.onAccept.map fun q => q.2.cost first).sum

/-- A step of an `onAccept` makes at most one service, and pays for it. -/
theorem stepOnAccept_cost (first : Nat) {i sock : Nat} {pc : AcceptPc}
    (hpc : s.onAccept[i]? = some (sock, pc)) :
    (stepOnAccept P s i sock pc).services = s.services ∧
        (stepOnAccept P s i sock pc).acceptCost first + 1 ≤ s.acceptCost first ∨
      (stepOnAccept P s i sock pc).services = s.services ++ [⟨sock, P.start⟩] ∧
        (stepOnAccept P s i sock pc).acceptCost first + first + 1 ≤ s.acceptCost first := by
  have herase := sum_map_eraseIdx (fun q => q.2.cost first) hpc
  have hset (pc' : AcceptPc) := sum_map_set (fun q => q.2.cost first) (sock, pc') hpc
  cases pc with
  | entry ec =>
      have hload := hset .load
      simp only [AcceptPc.cost_entry, AcceptPc.cost_load] at hload
      by_cases hec : ec.value = 0
      · refine .inr ⟨by simp [stepOnAccept, hec, State.goto], ?_⟩
        simp only [stepOnAccept, hec, if_true, State.goto, State.acceptCost]
        omega
      · refine .inl ⟨by simp [stepOnAccept, hec, State.goto], ?_⟩
        simp only [stepOnAccept, hec, if_false, State.goto, State.acceptCost]
        omega
  | load =>
      have hinit := hset .InitAccept
      have hclose := hset .close
      simp only [AcceptPc.cost_load, AcceptPc.cost_InitAccept, AcceptPc.cost_close]
        at hinit hclose
      refine .inl ⟨rfl, ?_⟩
      cases hstop : s.m_isStopped <;>
        simp only [stepOnAccept, hstop, State.goto, State.acceptCost, if_true, if_false,
          Bool.false_eq_true] <;> omega
  | InitAccept | close =>
      simp only [AcceptPc.cost_InitAccept, AcceptPc.cost_close] at herase
      refine .inl ⟨rfl, ?_⟩
      simp only [stepOnAccept, State.InitAccept, State.leave, State.acceptCost]
      omega

/-- The steps that all handlers may still take, those to come included. -/
def State.cost (rankOp : Op → Nat) (rankPoint : Point → Nat) (first : Nat)
    (s : State Op Point Data) : Nat :=
  s.acceptCost first + (s.services.map fun x => x.service.cost rankOp rankPoint).sum

/-- The steps of the handlers; an accept causes those of its `onAccept` and of its service. -/
theorem potential (hl : P.Linear) (hrank : P.Ranked rankOp rankPoint) :
    (machine P thread_pool_size).Potential (fun _ => True) Action.ofHandler
      (fun a => if a.isAccept then 3 + rankOp P.first else 0)
      (State.cost rankOp rankPoint (rankOp P.first)) := by
  refine ⟨?_⟩
  intro s a s' hr _ hs
  cases step_inv hs with
  | accept _ _ =>
      simp only [State.cost, State.acceptCost, Action.isAccept, Action.ofHandler, List.map_append,
        List.sum_append, List.map_cons, List.map_nil, List.sum_cons, List.sum_nil,
        AcceptPc.cost_entry, if_true, Bool.toNat_false]
      omega
  | onAccept hpc =>
      have hstart : P.start.cost rankOp rankPoint = rankOp P.first := by
        simp [Program.start, AsyncObject.cost, AsyncObject.runningCost]
      simp only [State.cost, Action.isAccept, Action.ofHandler, Bool.toNat_true,
        Bool.false_eq_true, if_false]
      rcases stepOnAccept_cost (P := P) (rankOp P.first) hpc with ⟨hsame, hcost⟩ | ⟨hnew, hcost⟩
      · rw [hsame]
        omega
      · rw [hnew, List.map_append, List.sum_append]
        simp only [List.map_cons, List.map_nil, List.sum_cons, List.sum_nil, hstart]
        omega
  | @service j b x o hx ho _ =>
      have hw := weight_eq_one hl (reachable_service hr x (List.mem_of_getElem? hx))
      have hcost := (stepObject_inv ho).cost hl hrank hw
      have hset := sum_map_set (fun x => x.service.cost rankOp rankPoint)
        { x with service := o } hx
      simp only at hset
      simp only [State.cost, State.acceptCost, Action.isAccept, Action.ofHandler, Bool.toNat_true,
        Bool.false_eq_true, if_false] at hset ⊢
      omega
  | _ => exact Nat.le_refl _

/-- **An accept costs a bounded number of steps**, whatever the others do. -/
theorem countP_handlers_le (hl : P.Linear) (hrank : P.Ranked rankOp rankPoint)
    {as : List (Action Input)}
    (he : (machine P thread_pool_size).exec (machine P thread_pool_size).init as = some s) :
    as.countP Action.ofHandler ≤ (3 + rankOp P.first) * as.countP Action.isAccept := by
  have hle := (potential hl hrank).countP_le .init (fun _ _ => trivial) he
  have hinit : (machine P thread_pool_size).init.cost rankOp rankPoint (rankOp P.first) = 0 := rfl
  rw [sum_map_ite, hinit] at hle
  omega

/-! ### At rest -/

/-- No handler is invoked for a service any more, and none takes a step. -/
def Still (P : Program Op Point Input Data) (thread_pool_size : Nat) (s : State Op Point Data) :
    Prop :=
  (machine P thread_pool_size).Quiescent Action.ofHandler s

/-- No handler runs where none of them can take a step. -/
theorem running_of_stuck
    (honAccept : step P thread_pool_size s (.onAccept 0) = none)
    (hrun : ∀ (j : Nat) (x : Served Op Point Data) (p : Point), s.services[j]? = some x →
      x.service.running[0]? = some p → ∃ input, (P.step p input x.service.data).isSome = true ∧
        step P thread_pool_size s (.service j (.run 0 input)) = none) : s.running = 0 := by
  refine State.running_eq_zero.mpr ⟨?_, ?_⟩
  · cases hs : s.onAccept with
    | nil => rfl
    | cons q qs => simp [step, enabled, hs] at honAccept
  · intro x hx
    obtain ⟨j, hj⟩ := List.mem_iff_getElem?.mp hx
    cases hrunning : x.service.running with
    | nil => rfl
    | cons p ps =>
        obtain ⟨input, hsome, hstep⟩ := hrun j x p hj (by rw [hrunning]; rfl)
        obtain ⟨e, he⟩ := Option.isSome_iff_exists.mp hsome
        simp [step, enabled, hj, Program.stepObject, hrunning, he] at hstep

theorem running_of_still (htotal : P.Total) (h : Still P thread_pool_size s) :
    s.running = 0 := by
  have honAccept : step P thread_pool_size s (.onAccept 0) = none := h (.onAccept 0) rfl
  refine running_of_stuck honAccept ?_
  intro j x p _ _
  obtain ⟨input, hsome⟩ := htotal p x.service.data
  exact ⟨input, hsome, h (.service j (.run 0 input)) rfl⟩

/-- **A server at rest waits for no service**, unless it is being stopped: each has been
deleted or has failed. -/
theorem ended_of_still (hl : P.Linear) (htotal : P.Total) (hpool : 0 < thread_pool_size)
    (hr : (machine P thread_pool_size).Reachable s) (hgoes : s.iosStopped = false)
    (h : Still P thread_pool_size s) :
    s.onAccept = [] ∧ ∀ x ∈ s.services, x.service.pending = [] ∧ x.service.running = [] ∧
      x.service.deleted + x.service.threw + x.service.undefined = 1 := by
  have hzero := running_of_still htotal h
  obtain ⟨honAccept, hrunning⟩ := State.running_eq_zero.mp hzero
  refine ⟨honAccept, ?_⟩
  intro x hx
  have hidle := hrunning x hx
  have hpending : x.service.pending = [] := by
    obtain ⟨j, hj⟩ := List.mem_iff_getElem?.mp hx
    cases hpending : x.service.pending with
    | nil => rfl
    | cons op ops =>
        have hstep := h (.service j (.complete 0 .success [])) rfl
        simp [machine, step, enabled, mayInvoke, hgoes, hzero, hpool, hj, Program.stepObject,
          hpending] at hstep
  have hw := weight_eq_one hl (reachable_service hr x hx)
  simp only [AsyncObject.weight, hpending, hidle, List.length_nil] at hw
  exact ⟨hpending, hidle, by omega⟩

theorem stepOnAccept_pc {i sock : Nat} {pc : AcceptPc} (s : State Op Point Data) :
    (stepOnAccept P s i sock pc).pc = s.pc := by
  cases pc with
  | entry ec => by_cases hec : ec.value = 0 <;> simp [stepOnAccept, hec, State.goto]
  | _ => rfl

/-- Only its own thread starts and stops the server. -/
theorem Step.pc_eq (h : Step P s a s') (ha : a ≠ .server) : s'.pc = s.pc := by
  cases h with
  | start _ | acceptorStop _ | iosStop _ | join _ _ => exact absurd rfl ha
  | accept _ _ | service _ _ _ => rfl
  | onAccept _ => exact stepOnAccept_pc s

/-- **Until `Stop` is called** the acceptor is not closed. -/
theorem open_of_running (hr : (machine P thread_pool_size).Reachable s)
    (hpc : s.pc = .idle ∨ s.pc = .running) :
    s.m_isStopped = false ∧ s.closed = false ∧ ∀ q ∈ s.onAccept, q.2 ≠ .close := by
  refine hr.invariant (P := fun s => s.pc = .idle ∨ s.pc = .running →
    s.m_isStopped = false ∧ s.closed = false ∧ ∀ q ∈ s.onAccept, q.2 ≠ .close) ?_ ?_ hpc
  · exact fun _ => ⟨rfl, rfl, fun _ h => absurd h List.not_mem_nil⟩
  · intro t a t' _ hi hs hpc
    cases step_inv hs with
    | start hidle => exact hi (.inl hidle)
    | accept _ _ =>
        obtain ⟨hstopped, hclosed, hpcs⟩ := hi hpc
        refine ⟨hstopped, hclosed, ?_⟩
        intro q hq
        rcases List.mem_append.mp hq with hq | hq
        · exact hpcs q hq
        · obtain rfl := List.mem_singleton.mp hq
          nofun
    | @onAccept i sock pc hacc =>
        rw [stepOnAccept_pc] at hpc
        obtain ⟨hstopped, hclosed, hpcs⟩ := hi hpc
        have hset : ∀ pc', pc' ≠ .close → ∀ q ∈ t.onAccept.set i (sock, pc'), q.2 ≠ .close := by
          intro pc' hne q hq
          rcases List.mem_or_eq_of_mem_set hq with hq | rfl
          · exact hpcs q hq
          · exact hne
        cases pc with
        | entry ec =>
            by_cases hec : ec.value = 0 <;>
              simp only [stepOnAccept, hec, if_true, if_false, State.goto] <;>
              exact ⟨hstopped, hclosed, hset .load (by simp)⟩
        | load =>
            simp only [stepOnAccept, hstopped]
            exact ⟨hstopped, hclosed, hset .InitAccept (by simp)⟩
        | InitAccept =>
            exact ⟨hstopped, hclosed, fun q hq => hpcs q (List.mem_of_mem_eraseIdx hq)⟩
        | close => exact absurd rfl (hpcs _ (List.mem_of_getElem? hacc))
    | service _ _ _ => exact hi hpc
    | acceptorStop _ | iosStop _ | join _ _ => simp at hpc

/-! ### `Server::Stop` -/

theorem State.running_eq_sum (s : State Op Point Data) :
    s.running = s.onAccept.length + (s.services.map fun x => x.service.running.length).sum := by
  rw [State.running, List.length_flatMap]

/-- A step invokes at most one handler, and only where a thread is free. -/
theorem step_running (hs : step P thread_pool_size s a = some s') :
    s'.running ≤ s.running ∨ s'.running ≤ s.running + 1 ∧ s.running < thread_pool_size := by
  have hok : enabled thread_pool_size s a := by
    by_contra hno
    simp [step, hno] at hs
  cases step_inv hs with
  | accept _ _ =>
      refine .inr ⟨?_, hok.2⟩
      simp only [State.running_eq_sum, List.length_append, List.length_singleton]
      omega
  | @onAccept i sock pc hpc =>
      refine .inl ?_
      have hi : i < s.onAccept.length := (List.getElem?_eq_some_iff.mp hpc).1
      have hlen := List.length_eraseIdx_of_lt hi
      cases pc with
      | entry ec =>
          by_cases hec : ec.value = 0 <;>
            simp [stepOnAccept, hec, State.goto, State.running_eq_sum, Program.start]
      | load =>
          cases hstop : s.m_isStopped <;>
            simp [stepOnAccept, hstop, State.goto, State.running_eq_sum]
      | InitAccept =>
          simp only [stepOnAccept, State.InitAccept, State.leave, State.running_eq_sum]
          omega
      | close =>
          simp only [stepOnAccept, State.leave, State.running_eq_sum]
          omega
  | @service j b x o hx ho _ =>
      have hset := sum_map_set (fun x => x.service.running.length) { x with service := o } hx
      simp only at hset
      simp only [State.running_eq_sum]
      cases stepObject_inv ho with
      | complete _ =>
          refine .inr ⟨?_, State.running_eq_sum s ▸ hok.2⟩
          simp only [List.length_append, List.length_singleton] at hset ⊢
          omega
      | @run i input p e hp _ =>
          refine .inl ?_
          have hi : i < x.service.running.length := (List.getElem?_eq_some_iff.mp hp).1
          have hlen := e.next.length_running hi
          have hweight : e.next.weight ≤ 1 := by cases e.next <;> simp [Next.weight]
          simp only [AsyncObject.perform] at hset ⊢
          omega
  | _ => exact .inl (Nat.le_refl _)

/-- **No more handlers run than the pool has threads.** -/
theorem running_le (h : (machine P thread_pool_size).Reachable s) :
    s.running ≤ thread_pool_size := by
  refine h.invariant (P := fun s => s.running ≤ thread_pool_size) (Nat.zero_le _) ?_
  intro s a s' _ hi hs
  rcases step_running hs with hle | ⟨hle, hfree⟩
  · exact Nat.le_trans hle hi
  · omega

/-- The steps of the handlers that run, and the return of `Stop`. -/
def State.stopCost (rankPoint : Point → Nat) (s : State Op Point Data) : Nat :=
  s.acceptCost 0 + (s.services.map fun x => x.service.runningCost rankPoint).sum +
    (if s.pc = .join then 1 else 0)

theorem Step.iosStopped (h : Step P s a s') (hstopped : s.iosStopped = true) :
    s'.iosStopped = true := by
  cases h with
  | onAccept _ =>
      rw [State.iosStopped, stepOnAccept_pc]
      exact hstopped
  | start hpc | acceptorStop hpc | iosStop hpc => simp [State.iosStopped, hpc] at hstopped
  | join _ _ => rfl
  | _ => exact hstopped

/-- After `m_ios.stop()` every step is one of a handler that runs, or the return of `Stop`. -/
theorem Step.stopCost (h : Step P s a s') (hend : P.HandlersEnd rankPoint)
    (hstopped : s.iosStopped = true) :
    s'.stopCost rankPoint + 1 ≤ s.stopCost rankPoint := by
  cases h with
  | start hpc | acceptorStop hpc | iosStop hpc => simp [State.iosStopped, hpc] at hstopped
  | join hpc _ => simp [State.stopCost, State.acceptCost, hpc]
  | accept _ hgoes => exact absurd (hgoes.symm.trans hstopped) (by simp)
  | onAccept hpc =>
      simp only [State.stopCost, stepOnAccept_pc]
      rcases stepOnAccept_cost (P := P) 0 hpc with ⟨hsame, hcost⟩ | ⟨hnew, hcost⟩
      · rw [hsame]
        omega
      · rw [hnew, List.map_append, List.sum_append]
        simp only [List.map_cons, List.map_nil, List.sum_cons, List.sum_nil, Program.start,
          AsyncObject.runningCost]
        omega
  | @service j b x o hx ho hgoes =>
      cases b with
      | complete i ec received =>
          exact absurd ((hgoes i ec received rfl).symm.trans hstopped) (by simp)
      | run i input =>
          have hcost := hend.runningCost ho
          have hset := sum_map_set (fun x => x.service.runningCost rankPoint)
            { x with service := o } hx
          simp only [State.stopCost, State.acceptCost] at hset ⊢
          omega

/-- At most `depth` steps for each handler that runs. -/
theorem State.stopCost_le {depth : Nat} (hdepth : ∀ p, rankPoint p ≤ depth) (h3 : 3 ≤ depth)
    (s : State Op Point Data) : s.stopCost rankPoint ≤ depth * s.running + 1 := by
  have haccept : s.acceptCost 0 ≤ depth * s.onAccept.length := by
    refine sum_map_le_length ?_
    rintro ⟨sock, pc⟩ -
    cases pc <;> simp <;> omega
  have hservices : (s.services.map fun x => x.service.runningCost rankPoint).sum ≤
      depth * (s.services.map fun x => x.service.running.length).sum :=
    sum_map_le_mul fun x _ => sum_map_le_length fun p _ => hdepth p
  have hjoin : (if s.pc = .join then 1 else 0) ≤ 1 := by split <;> omega
  rw [State.running_eq_sum, Nat.mul_add, State.stopCost]
  omega

/-- How a run goes on once `Stop` has called `m_ios.stop()`. -/
structure Stops (P : Program Op Point Input Data) (thread_pool_size depth : Nat)
    (as : List (Action Input)) (s : State Op Point Data) : Prop where
  /-- Each thread of the pool takes at most `depth` more steps. -/
  bounded : as.length ≤ depth * thread_pool_size + 1
  /-- Where nothing can happen any more, `Stop` has returned. -/
  returned : (∀ a, step P thread_pool_size s a = none) → s.pc = .returned
  /-- Then no handler runs. -/
  idle : s.pc = .returned → s.running = 0

/-- **`Stop` returns**, whatever the server was doing and whoever is connected. -/
theorem stops {depth : Nat} (hend : P.HandlersEnd rankPoint) (htotal : P.Total)
    (hdepth : ∀ p, rankPoint p ≤ depth) (h3 : 3 ≤ depth)
    (hr : (machine P thread_pool_size).Reachable s) (hpc : s.pc = .join)
    {as : List (Action Input)} (he : (machine P thread_pool_size).exec s as = some s') :
    Stops P thread_pool_size depth as s' := by
  have hstopped : s.iosStopped = true := by simp [State.iosStopped, hpc]
  have hkeeps : ∀ {t}, ((machine P thread_pool_size).after s).Reachable t →
      t.iosStopped = true := by
    intro t ht
    refine ht.invariant (P := fun t => t.iosStopped = true) hstopped ?_
    intro t a t' _ hi hs
    exact (step_inv hs).iosStopped hi
  have hpotential : ((machine P thread_pool_size).after s).Potential (fun _ => True)
      (fun _ => true) (fun _ => 0) (State.stopCost rankPoint) := by
    refine ⟨?_⟩
    intro t a t' ht _ hs
    exact (step_inv hs).stopCost hend (hkeeps ht)
  have he' : ((machine P thread_pool_size).after s).exec s as = some s' :=
    (TransitionSystem.after_exec as s).trans he
  refine ⟨?_, ?_, ?_⟩
  · have hle := hpotential.countP_le (s := s) .init (fun _ _ => trivial) he'
    have hcost := State.stopCost_le (s := s) hdepth h3
    have hrunning := Nat.mul_le_mul_left depth (running_le hr)
    simp only [List.countP_true, List.map_const', List.sum_replicate_nat, Nat.mul_zero] at hle
    omega
  · intro hstill
    have hzero : s'.running = 0 := running_of_still htotal fun a _ => hstill a
    have hjoin := hkeeps (TransitionSystem.reachable_after_of_exec he)
    simp only [State.iosStopped, Bool.decide_or, Bool.or_eq_true, decide_eq_true_eq] at hjoin
    rcases hjoin with hjoin | hreturned
    · have hserver := hstill .server
      simp [step, enabled, stepServer, hjoin, hzero] at hserver
    · exact hreturned
  · intro hreturned
    exact (returned_final (hr.exec he) hreturned).1

end AsioStudy.AsyncServer
