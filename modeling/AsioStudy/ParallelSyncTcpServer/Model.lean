import AsioStudy.Core.TransitionSystem

/-!
# AsioStudy.ParallelSyncTcpServer.Model

The parallel synchronous server: one thread accepts in a loop, and each client is served by
a detached thread of its own, which ends with `delete this`. All calls are synchronous; the
outcome of a call is an argument of the action.

An exception that leaves `Run` terminates the program. The model only stops the thread
there, so it has all the states that the program has.
-/

namespace AsioStudy.ParallelSyncTcpServer

/-- Where `HandleClient` is. -/
inductive HandlePc
  /-- At `asio::read_until`. -/
  | read
  /-- At `asio::write`. -/
  | write
  /-- At `delete this`. -/
  | delete
  | ended
  deriving DecidableEq, Repr

/-- A `Service` and its thread. -/
structure Service where
  pc : HandlePc
  /-- How often `delete this` was executed. -/
  deleted : Nat
  deriving DecidableEq, Repr

/-- Where the thread of the server is in `Run`. -/
inductive RunPc
  | idle
  /-- At the constructor of `Acceptor`. -/
  | construct
  /-- At `m_stop.load()`. -/
  | load
  /-- At `m_acceptor.accept`. -/
  | accept
  /-- At `(new Service)->StartHandlingClient(sock)`. -/
  | startHandlingClient
  | ended
  | threw
  deriving DecidableEq, Repr

/-- Where the thread that owns the server is. -/
inductive ServerPc
  /-- Before `Start`. -/
  | idle
  /-- Between `Start` and `Stop`. -/
  | running
  /-- In `Stop`, at `m_thread->join()`. -/
  | join
  /-- `Stop` has returned. -/
  | returned
  deriving DecidableEq, Repr

structure State where
  pc : ServerPc
  m_stop : Bool
  run : RunPc
  services : List Service
  deriving DecidableEq, Repr

def State.init : State := ⟨.idle, false, .idle, []⟩

inductive Action
  /-- The next step of the thread that owns the server. -/
  | server
  /-- The next step of `Run`; `ok` tells whether the call succeeds. -/
  | run (ok : Bool)
  /-- The next step of the `j`-th service. -/
  | service (j : Nat) (ok : Bool)
  deriving DecidableEq, Repr

def stepServer (s : State) : Option State :=
  match s.pc with
  | .idle => some { s with pc := .running, run := .construct }
  | .running => some { s with pc := .join, m_stop := true }
  | .join => if s.run = .ended then some { s with pc := .returned } else none
  | .returned => none

/-- `Server::Run` -/
def stepRun (s : State) (ok : Bool) : Option State :=
  match s.run with
  | .construct => some { s with run := if ok then .load else .threw }
  | .load => some { s with run := if s.m_stop then .ended else .accept }
  | .accept => some { s with run := if ok then .startHandlingClient else .threw }
  | .startHandlingClient => some { s with run := .load, services := s.services ++ [⟨.read, 0⟩] }
  | .idle | .ended | .threw => none

/-- `HandleClient`; the exception of a failing call is caught in it. -/
def stepService (x : Service) (ok : Bool) : Option Service :=
  match x.pc with
  | .read => some { x with pc := if ok then .write else .delete }
  | .write => some { x with pc := .delete }
  | .delete => some ⟨.ended, x.deleted + 1⟩
  | .ended => none

def step (s : State) : Action → Option State
  | .server => stepServer s
  | .run ok => stepRun s ok
  | .service j ok => s.services[j]?.bind fun x =>
      (stepService x ok).map fun x => { s with services := s.services.set j x }

def machine : TransitionSystem State Action := ⟨.init, step⟩

variable {s s' : State} {a : Action}

/-! ### The steps -/

inductive Step (s : State) : Action → State → Prop
  | start : s.pc = .idle → Step s .server { s with pc := .running, run := .construct }
  | store : s.pc = .running → Step s .server { s with pc := .join, m_stop := true }
  | join : s.pc = .join → s.run = .ended → Step s .server { s with pc := .returned }
  | construct {ok} : s.run = .construct →
      Step s (.run ok) { s with run := if ok then .load else .threw }
  | load {ok} : s.run = .load →
      Step s (.run ok) { s with run := if s.m_stop then .ended else .accept }
  | accept {ok} : s.run = .accept →
      Step s (.run ok) { s with run := if ok then .startHandlingClient else .threw }
  | startHandlingClient {ok} : s.run = .startHandlingClient →
      Step s (.run ok) { s with run := .load, services := s.services ++ [⟨.read, 0⟩] }
  | service {j ok x x'} : s.services[j]? = some x → stepService x ok = some x' →
      Step s (.service j ok) { s with services := s.services.set j x' }

theorem step_inv (h : step s a = some s') : Step s a s' := by
  cases a with
  | server =>
      simp only [step, stepServer] at h
      cases hpc : s.pc with
      | idle => rw [hpc] at h; obtain rfl := Option.some.inj h; exact .start hpc
      | running => rw [hpc] at h; obtain rfl := Option.some.inj h; exact .store hpc
      | join =>
          simp only [hpc] at h
          split at h
          · next hrun =>
            obtain rfl := Option.some.inj h
            exact .join hpc hrun
          · exact absurd h (by simp)
      | returned => rw [hpc] at h; exact absurd h (by simp)
  | run ok =>
      simp only [step, stepRun] at h
      cases hrun : s.run with
      | construct => rw [hrun] at h; obtain rfl := Option.some.inj h; exact .construct hrun
      | load => rw [hrun] at h; obtain rfl := Option.some.inj h; exact .load hrun
      | accept => rw [hrun] at h; obtain rfl := Option.some.inj h; exact .accept hrun
      | startHandlingClient =>
          rw [hrun] at h
          obtain rfl := Option.some.inj h
          exact .startHandlingClient hrun
      | idle => rw [hrun] at h; exact absurd h (by simp)
      | ended => rw [hrun] at h; exact absurd h (by simp)
      | threw => rw [hrun] at h; exact absurd h (by simp)
  | service j ok =>
      obtain ⟨x, hx, h⟩ := Option.bind_eq_some_iff.mp h
      obtain ⟨x', hx', rfl⟩ := Option.map_eq_some_iff.mp h
      exact .service hx hx'

/-! ### The services -/

/-- A service is deleted once, when its thread ends. -/
def Service.Owned (x : Service) : Prop := x.deleted = if x.pc = .ended then 1 else 0

theorem stepService_owned {x x' : Service} {ok : Bool} (h : stepService x ok = some x')
    (hi : x.Owned) : x'.Owned := by
  unfold stepService at h
  unfold Service.Owned at hi
  cases hpc : x.pc with
  | read =>
      rw [hpc] at h hi
      obtain rfl := Option.some.inj h
      cases ok <;> simpa [Service.Owned] using hi
  | write =>
      rw [hpc] at h hi
      obtain rfl := Option.some.inj h
      simpa [Service.Owned] using hi
  | delete =>
      rw [hpc] at h hi
      obtain rfl := Option.some.inj h
      simpa [Service.Owned] using hi
  | ended => rw [hpc] at h; exact absurd h (by simp)

theorem Step.owned (h : Step s a s') (hi : ∀ x ∈ s.services, x.Owned) :
    ∀ x ∈ s'.services, x.Owned := by
  cases h with
  | startHandlingClient _ =>
      intro x hx
      rcases List.mem_append.mp hx with hx | hx
      · exact hi x hx
      · obtain rfl := List.mem_singleton.mp hx
        rfl
  | @service j ok x x' hx hx' =>
      intro y hy
      rcases List.mem_or_eq_of_mem_set hy with hy | rfl
      · exact hi y hy
      · exact stepService_owned hx' (hi x (List.mem_of_getElem? hx))
  | _ => exact hi

theorem reachable_owned (h : machine.Reachable s) : ∀ x ∈ s.services, x.Owned := by
  refine h.invariant (P := fun s => ∀ x ∈ s.services, x.Owned) ?_ ?_
  · simp [machine, State.init]
  · intro s a s' _ hi hs
    exact (step_inv hs).owned hi

/-! ### After `Stop` -/

/-- `join` returns when `Run` has. -/
theorem Step.returned (h : Step s a s') (hi : s.pc = .returned → s.run = .ended)
    (hpc : s'.pc = .returned) : s'.run = .ended := by
  cases h with
  | join _ hrun => exact hrun
  | start _ => simp at hpc
  | store _ => simp at hpc
  | service _ _ => exact hi hpc
  | _ hrun => exact absurd ((hi hpc).symm.trans hrun) nofun

theorem reachable_returned (h : machine.Reachable s) : s.pc = .returned → s.run = .ended := by
  refine h.invariant (P := fun s => s.pc = .returned → s.run = .ended) ?_ ?_
  · simp [machine, State.init]
  · intro s a s' _ hi hs
    exact (step_inv hs).returned hi

/-- **When `Stop` has returned no service is created any more.** -/
theorem services_after (hr : machine.Reachable s) (hpc : s.pc = .returned)
    (h : (machine.after s).Reachable s') :
    s'.pc = .returned ∧ s'.services.length = s.services.length := by
  refine hr.invariant_after
    (P := fun s' => s'.pc = .returned ∧ s'.services.length = s.services.length) ⟨hpc, rfl⟩ ?_ h
  rintro t a t' hrt ⟨hpct, hlen⟩ - hs
  have hrun := reachable_returned hrt hpct
  cases step_inv hs with
  | service hx hx' => exact ⟨hpct, by simpa using hlen⟩
  | start hpc' => exact absurd (hpct.symm.trans hpc') nofun
  | store hpc' => exact absurd (hpct.symm.trans hpc') nofun
  | join hpc' _ => exact absurd (hpct.symm.trans hpc') nofun
  | _ hrun' => exact absurd (hrun.symm.trans hrun') nofun

end AsioStudy.ParallelSyncTcpServer
