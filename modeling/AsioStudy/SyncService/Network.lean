import AsioStudy.ParallelSyncTcpServer.Model
import AsioStudy.SyncService.Exchange

/-!
# AsioStudy.SyncService.Network

A synchronous server and any number of clients. `Run` accepts the connections in the order in
which they were made. The loop server calls `HandleClient` itself and accepts the next client
when it has returned; the parallel server calls it in a thread of its own.

Clients connect at any time while the server listens. When it has stopped listening, the
connections that it has not accepted are reset, which their clients see as a failure.
-/

namespace AsioStudy.SyncService

open ParallelSyncTcpServer (ServerPc)

/-- The servers, by their namespaces. -/
inductive Server
  | loop_sync_server
  | parallel_sync_tcp_server
  deriving DecidableEq, Repr

/-- Where the thread of the server is in `Run`. -/
inductive RunPc
  | idle
  /-- At the constructor of `Acceptor`. -/
  | construct
  /-- At `m_stop.load()`. -/
  | load
  /-- At `m_acceptor.accept`. -/
  | accept
  /-- At `svc.HandleClient(sock)`, or at `(new Service)->StartHandlingClient(sock)`. -/
  | serve
  /-- In `HandleClient` of the loop server. -/
  | handleClient
  | ended
  | threw
  deriving DecidableEq, Repr

/-- Where `Run` is when `HandleClient` has begun. -/
def Server.next : Server → RunPc
  | .loop_sync_server => .handleClient
  | .parallel_sync_tcp_server => .load

structure State where
  pc : ServerPc
  m_stop : Bool
  run : RunPc
  /-- The clients in the order of their connections. -/
  sessions : List Session
  /-- How many of them have been accepted. -/
  accepted : Nat
  deriving DecidableEq, Repr

namespace State

def init : State := ⟨.idle, false, .idle, [], 0⟩

/-- The acceptor exists. -/
def listening (s : State) : Bool :=
  match s.run with
  | .load | .accept | .serve | .handleClient => true
  | .idle | .construct | .ended | .threw => false

/-- The client that was accepted last. -/
def last (s : State) : Option Session := s.sessions[s.accepted - 1]?

def setLast (s : State) (x : Session) : State :=
  { s with sessions := s.sessions.set (s.accepted - 1) x }

end State

inductive Action
  /-- The next step of the thread that owns the server. -/
  | server
  /-- The next step of `Run`. -/
  | run (o : Pipe.Outcome)
  /-- `connect` of a new client returns. -/
  | connect (duration_sec : UInt32)
  /-- The next step of the `i`-th client. -/
  | client (i : Nat) (o : Pipe.Outcome)
  /-- The next step of `HandleClient` for the `i`-th client. -/
  | service (i : Nat) (o : Pipe.Outcome)
  deriving DecidableEq, Repr

/-- `Server::Start` and `Server::Stop` -/
def stepServer (s : State) : Option State :=
  match s.pc with
  | .idle => some { s with pc := .running, run := .construct }
  | .running => some { s with pc := .join, m_stop := true }
  | .join => if s.run = .ended then some { s with pc := .returned } else none
  | .returned => none

/-- `Server::Run` -/
def stepRun (server : Server) (s : State) : Pipe.Outcome → Option State
  | .ok _ =>
      match s.run with
      | .construct => some { s with run := .load }
      | .load => some { s with run := if s.m_stop then .ended else .accept }
      | .accept =>
          if s.accepted < s.sessions.length then
            some { s with run := .serve, accepted := s.accepted + 1 }
          else none
      | .serve => s.last.bind fun x => (stepSession x .serve).map fun x =>
          { s.setLast x with run := server.next }
      | .handleClient => s.last.bind fun x =>
          if x.service = .ended then some { s with run := .load } else none
      | .idle | .ended | .threw => none
  | .fails _ =>
      match s.run with
      | .construct | .accept => some { s with run := .threw }
      | .serve =>
          match server with
          | .loop_sync_server => none
          -- the thread cannot be made
          | .parallel_sync_tcp_server => s.last.bind fun x => (stepSession x .drop).map fun x =>
              { s.setLast x with run := .threw }
      | .idle | .load | .handleClient | .ended | .threw => none

def step (server : Server) (s : State) : Action → Option State
  | .server => stepServer s
  | .run o => stepRun server s o
  | .connect duration_sec =>
      if s.listening then some { s with sessions := s.sessions ++ [.new duration_sec] } else none
  | .client i o => s.sessions[i]?.bind fun x =>
      (stepClient x o).map fun y => { s with sessions := s.sessions.set i y }
  | .service i o => s.sessions[i]?.bind fun x =>
      (stepService x o).map fun y => { s with sessions := s.sessions.set i y }

/-- The server and its clients. -/
def network (server : Server) : TransitionSystem State Action := ⟨.init, step server⟩

variable {server : Server} {s s' : State} {a : Action} {x y : Session} {i : Nat}

/-! ### The steps -/

inductive Step (server : Server) (s : State) : Action → State → Prop
  | start : s.pc = .idle → Step server s .server { s with pc := .running, run := .construct }
  | store : s.pc = .running → Step server s .server { s with pc := .join, m_stop := true }
  | join : s.pc = .join → s.run = .ended → Step server s .server { s with pc := .returned }
  | construct {n} : s.run = .construct → Step server s (.run (.ok n)) { s with run := .load }
  | load {n} : s.run = .load →
      Step server s (.run (.ok n)) { s with run := if s.m_stop then .ended else .accept }
  | accept {n} : s.run = .accept → s.accepted < s.sessions.length →
      Step server s (.run (.ok n)) { s with run := .serve, accepted := s.accepted + 1 }
  | serve {n x y} : s.run = .serve → s.last = some x → stepSession x .serve = some y →
      Step server s (.run (.ok n)) { s.setLast y with run := server.next }
  | handled {n x} : s.run = .handleClient → s.last = some x → x.service = .ended →
      Step server s (.run (.ok n)) { s with run := .load }
  | throws {ec} : s.run = .construct ∨ s.run = .accept →
      Step server s (.run (.fails ec)) { s with run := .threw }
  | drop {ec x y} : server = .parallel_sync_tcp_server → s.run = .serve → s.last = some x →
      stepSession x .drop = some y → Step server s (.run (.fails ec)) { s.setLast y with run := .threw }
  | connect {duration_sec} : s.listening = true → Step server s (.connect duration_sec)
      { s with sessions := s.sessions ++ [.new duration_sec] }
  | client {i o x y} : s.sessions[i]? = some x → stepClient x o = some y →
      Step server s (.client i o) { s with sessions := s.sessions.set i y }
  | service {i o x y} : s.sessions[i]? = some x → stepService x o = some y →
      Step server s (.service i o) { s with sessions := s.sessions.set i y }

theorem stepServer_inv (h : stepServer s = some s') : Step server s .server s' := by
  simp only [stepServer] at h
  split at h
  · next hpc => obtain rfl := Option.some.inj h; exact .start hpc
  · next hpc => obtain rfl := Option.some.inj h; exact .store hpc
  · next hpc =>
    split at h
    · next hrun => obtain rfl := Option.some.inj h; exact .join hpc hrun
    · exact absurd h (by simp)
  · exact absurd h (by simp)

theorem stepRun_inv {o : Pipe.Outcome} (h : stepRun server s o = some s') :
    Step server s (.run o) s' := by
  cases o with
  | ok n =>
      simp only [stepRun] at h
      split at h
      · next hrun => obtain rfl := Option.some.inj h; exact .construct hrun
      · next hrun => obtain rfl := Option.some.inj h; exact .load hrun
      · next hrun =>
        split at h
        · next hlt => obtain rfl := Option.some.inj h; exact .accept hrun hlt
        · exact absurd h (by simp)
      · next hrun =>
        obtain ⟨x, hx, h⟩ := Option.bind_eq_some_iff.mp h
        obtain ⟨y, hy, rfl⟩ := Option.map_eq_some_iff.mp h
        exact .serve hrun hx hy
      · next hrun =>
        obtain ⟨x, hx, h⟩ := Option.bind_eq_some_iff.mp h
        split at h
        · next hended => obtain rfl := Option.some.inj h; exact .handled hrun hx hended
        · exact absurd h (by simp)
      all_goals exact absurd h (by simp)
  | fails ec =>
      simp only [stepRun] at h
      split at h
      · next hrun => obtain rfl := Option.some.inj h; exact .throws (.inl hrun)
      · next hrun => obtain rfl := Option.some.inj h; exact .throws (.inr hrun)
      · next hrun =>
        split at h
        · exact absurd h (by simp)
        · obtain ⟨x, hx, h⟩ := Option.bind_eq_some_iff.mp h
          obtain ⟨y, hy, rfl⟩ := Option.map_eq_some_iff.mp h
          exact .drop rfl hrun hx hy
      all_goals exact absurd h (by simp)

theorem step_inv (h : step server s a = some s') : Step server s a s' := by
  cases a with
  | server => exact stepServer_inv h
  | run o => exact stepRun_inv h
  | connect duration_sec =>
      simp only [step] at h
      split at h
      · next hlistening => obtain rfl := Option.some.inj h; exact .connect hlistening
      · exact absurd h (by simp)
  | client i o =>
      obtain ⟨x, hx, h⟩ := Option.bind_eq_some_iff.mp h
      obtain ⟨y, hy, rfl⟩ := Option.map_eq_some_iff.mp h
      exact .client hx hy
  | service i o =>
      obtain ⟨x, hx, h⟩ := Option.bind_eq_some_iff.mp h
      obtain ⟨y, hy, rfl⟩ := Option.map_eq_some_iff.mp h
      exact .service hx hy

/-- The call fails. -/
def Action.fault : Action → Bool
  | .run (.fails _) | .client _ (.fails _) | .service _ (.fails _) => true
  | _ => false

/-- What a step of the network is for the sessions. -/
inductive SessionsStep (sessions : List Session) (a : Action) : List Session → Prop
  | same : SessionsStep sessions a sessions
  | connect (duration_sec : UInt32) : SessionsStep sessions a (sessions ++ [.new duration_sec])
  | step {j u v} (b : SessionAction) : sessions[j]? = some u → stepSession u b = some v →
      (a.fault = false → b.fault = false) → SessionsStep sessions a (sessions.set j v)

/-- **Every session is a run of its own.** -/
theorem Step.sessions (h : Step server s a s') : SessionsStep s.sessions a s'.sessions := by
  cases h with
  | @serve n x y _ hx hy => exact .step .serve hx hy fun _ => rfl
  | @drop ec x y _ _ hx hy => exact .step .drop hx hy fun ha => absurd ha (by simp [Action.fault])
  | connect _ => exact .connect _
  | @client i o x y hx hy =>
      refine .step (.client o) hx hy ?_
      cases o <;> simp [Action.fault, SessionAction.fault]
  | @service i o x y hx hy =>
      refine .step (.service o) hx hy ?_
      cases o <;> simp [Action.fault, SessionAction.fault]
  | _ => exact .same

/-- What holds of a new session and is preserved by its steps holds of all sessions. -/
theorem SessionsStep.forall_mem {P : Session → Prop} {sessions sessions' : List Session}
    (h : SessionsStep sessions a sessions') (hall : ∀ x ∈ sessions, P x)
    (hnew : ∀ duration_sec, P (.new duration_sec))
    (hstep : ∀ x b y, P x → stepSession x b = some y → (a.fault = false → b.fault = false) → P y) :
    ∀ x ∈ sessions', P x := by
  cases h with
  | same => exact hall
  | connect duration_sec =>
      intro x hx
      rcases List.mem_append.mp hx with hx | hx
      · exact hall x hx
      · obtain rfl := List.mem_singleton.mp hx
        exact hnew duration_sec
  | step b hx hy hfault =>
      intro z hz
      rcases List.mem_or_eq_of_mem_set hz with hz | rfl
      · exact hall z hz
      · exact hstep _ b z (hall _ (List.mem_of_getElem? hx)) hy hfault

/-- No session is affected by the others. -/
theorem reachable_ownRun (h : (network server).Reachable s) :
    ∀ x ∈ s.sessions, (session x.duration_sec).Reachable x := by
  refine h.invariant (P := fun s => ∀ x ∈ s.sessions, (session x.duration_sec).Reachable x) ?_ ?_
  · simp [network, State.init]
  · intro s a s' _ hi hs
    refine (step_inv hs).sessions.forall_mem hi ?_ ?_
    · intro duration_sec
      exact .init
    · intro x b y hx hy _
      have hreach := hx.step hy
      rw [(session_inv hreach).duration]
      exact hreach

theorem reachable_session (h : (network server).Reachable s) :
    ∀ x ∈ s.sessions, Inv x.duration_sec x :=
  fun x hx => session_inv (reachable_ownRun h x hx)

/-- Without a failure no session fails. -/
theorem reachable_calm (h : (network server).ReachableUnder (fun _ a => a.fault = false) s) :
    ∀ x ∈ s.sessions, Calm x := by
  refine h.invariant (P := fun s => ∀ x ∈ s.sessions, Calm x) ?_ ?_
  · simp [network, State.init]
  · intro s a s' hr hi hok hs
    have hinv := reachable_session hr.reachable
    have hboth : ∀ x ∈ s.sessions, Calm x ∧ Inv x.duration_sec x := fun x hx => ⟨hi x hx, hinv x hx⟩
    have hall : ∀ x ∈ s'.sessions, Calm x ∧ Inv x.duration_sec x := by
      refine (step_inv hs).sessions.forall_mem hboth ?_ ?_
      · intro duration_sec
        exact ⟨⟨nofun, nofun⟩, session_inv .init⟩
      · intro x b y hx hy hfault
        have hstep := stepSession_inv hy
        have hinv := hstep.inv hx.2
        refine ⟨hstep.calm hx.2 hx.1 (hfault hok), ?_⟩
        rw [hinv.duration]
        exact hinv
    exact fun x hx => (hall x hx).1

end AsioStudy.SyncService
