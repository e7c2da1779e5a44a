import Mathlib.Data.List.TakeWhile
import AsioStudy.Core.ErrorCode

/-!
# AsioStudy.SyncServer.Run

The thread that executes `Server::Run` in the three synchronous servers, as computations
that may throw.

`HandleClient` has all its calls in a `try` block. `Accept` and `Run` have none, so an
exception of `m_acceptor.accept`, of the constructor of `Acceptor` or of the `std::thread`
that the parallel server makes for a client leaves the thread function. `contained_iff` says
that nothing else does.
-/

namespace AsioStudy.SyncServer

/-- What the calls of a server throw. -/
inductive Exception
  /-- `boost::system::system_error` -/
  | system_error (ec : ErrorCode)
  /-- The `std::system_error` of the constructor of `std::thread`. -/
  | thread_error
  deriving DecidableEq, Repr

/-- What the calls made for one connection throw; `none`: the call succeeds. -/
structure Connection where
  /-- `m_acceptor.accept`, and the construction of the stream it is given. -/
  accept : Option ErrorCode
  /-- Whether the thread that the parallel server makes for the connection can be made. -/
  thread : Bool
  handshake : Option ErrorCode
  read_until : Option ErrorCode
  write : Option ErrorCode
  deriving DecidableEq, Repr

/-- What has happened so far. -/
structure Trace where
  /-- The connections that `m_acceptor.accept` was called for. -/
  tried : List Connection
  /-- Those it has accepted. -/
  accepted : List Connection
  /-- Those that were handed to `HandleClient`. -/
  handled : List Connection
  /-- What has left `HandleClient` in a thread of its own; `none`: it has returned. -/
  ended : List (Option Exception)
  deriving DecidableEq, Repr

def Trace.init : Trace := ⟨[], [], [], []⟩

/-- Code that a thread executes. -/
abbrev Code := ExceptT Exception (StateM Trace)

/-- Execute it: how it ends, and what has happened. -/
def Code.exec {α : Type} (code : Code α) (t : Trace) : Except Exception α × Trace :=
  (ExceptT.run code).run t

/-- A call that throws or succeeds. -/
def call : Option ErrorCode → Code Unit
  | none => pure ()
  | some ec => throw (.system_error ec)

/-- `catch (boost::system::system_error& e)` around `body`; the handler prints. -/
def try_catch (body : Code Unit) : Code Unit := do
  try body
  catch e =>
    match e with
    | .system_error _ => pure ()
    | .thread_error => throw e

/-- `m_acceptor.accept` -/
def accept (c : Connection) : Code Unit := do
  modify fun t => { t with tried := t.tried ++ [c] }
  call c.accept
  modify fun t => { t with accepted := t.accepted ++ [c] }

/-- The connection reaches `HandleClient`. -/
def enter (c : Connection) : Code Unit :=
  modify fun t => { t with handled := t.handled ++ [c] }

/-- A detached `std::thread`. Its exceptions do not reach the thread that has made it. -/
def detached (can_be_made : Bool) (body : Code Unit) : Code Unit := do
  if !can_be_made then throw .thread_error
  let t ← get
  match body.exec t with
  | (.ok _, t) => set { t with ended := t.ended ++ [none] }
  | (.error e, t) => set { t with ended := t.ended ++ [some e] }

/-! ### The three servers -/

namespace LoopSyncServer

def HandleClient (c : Connection) : Code Unit := do
  enter c
  try_catch do
    call c.read_until
    call c.write

def Accept (c : Connection) : Code Unit := do
  accept c
  HandleClient c

end LoopSyncServer

namespace ParallelSyncTcpServer

def HandleClient (c : Connection) : Code Unit := do
  enter c
  try_catch do
    call c.read_until
    call c.write

def StartHandlingClient (c : Connection) : Code Unit :=
  detached c.thread (HandleClient c)

def Accept (c : Connection) : Code Unit := do
  accept c
  StartHandlingClient c

end ParallelSyncTcpServer

namespace SslLoopSyncServer

def HandleClient (c : Connection) : Code Unit := do
  enter c
  try_catch do
    call c.handshake
    call c.read_until
    call c.write

def Accept (c : Connection) : Code Unit := do
  accept c
  HandleClient c

end SslLoopSyncServer

inductive Server
  | loop_sync_server
  | parallel_sync_tcp_server
  | ssl_loop_sync_server
  deriving DecidableEq, Repr

/-- `Acceptor::Accept` -/
def Server.Accept : Server → Connection → Code Unit
  | .loop_sync_server => LoopSyncServer.Accept
  | .parallel_sync_tcp_server => ParallelSyncTcpServer.Accept
  | .ssl_loop_sync_server => SslLoopSyncServer.Accept

/-- One turn of the loop in `Run`: what `m_stop.load()` returns, and the connection that is
accepted when it is `false`. -/
structure Turn where
  m_stop : Bool
  connection : Connection
  deriving DecidableEq, Repr

/-- `while (!m_stop.load()) acc.Accept();`, which is at `m_stop.load()` again or has ended after
these turns. -/
def Server.loop (server : Server) : List Turn → Code Unit
  | [] => pure ()
  | turn :: turns =>
      if turn.m_stop then pure ()
      else do
        server.Accept turn.connection
        server.loop turns

/-- `Server::Run`; `construct` is what the constructor of `Acceptor` throws. -/
def Server.Run (server : Server) (construct : Option ErrorCode) (turns : List Turn) :
    Code Unit := do
  call construct
  server.loop turns

/-! ### The connections of a run -/

/-- The connections whose turn comes while `m_stop` is `false`. -/
def served (turns : List Turn) : List Connection :=
  (turns.takeWhile (! ·.m_stop)).map (·.connection)

/-- No failure stops the server: nothing leaves a thread function, `accept` is called for
every connection whose turn comes, and each one it accepts is handed to `HandleClient`
once. -/
structure Contained (server : Server) (construct : Option ErrorCode) (turns : List Turn) :
    Prop where
  returns : ((server.Run construct turns).exec .init).1 = .ok ()
  threads : ∀ e ∈ ((server.Run construct turns).exec .init).2.ended, e = none
  goes_on : ((server.Run construct turns).exec .init).2.tried = served turns
  accepted : ((server.Run construct turns).exec .init).2.accepted =
    (served turns).filter (·.accept = none)
  handled : ((server.Run construct turns).exec .init).2.handled =
    ((server.Run construct turns).exec .init).2.accepted

/-- Nothing outside a `try` block fails. -/
def Server.Admits (server : Server) (c : Connection) : Prop :=
  c.accept = none ∧ (server = .parallel_sync_tcp_server → c.thread = true)

/-- What has happened after a connection that was accepted and handled. -/
def Trace.serve (server : Server) (t : Trace) (c : Connection) : Trace where
  tried := t.tried ++ [c]
  accepted := t.accepted ++ [c]
  handled := t.handled ++ [c]
  ended := if server = .parallel_sync_tcp_server then t.ended ++ [none] else t.ended

/-- **Every failure in `HandleClient` is caught.** -/
theorem Server.Accept_admits {server : Server} {c : Connection} (h : server.Admits c) (t : Trace) :
    (server.Accept c).exec t = (.ok (), t.serve server c) := by
  obtain ⟨accept, thread, handshake, read_until, write⟩ := c
  obtain ⟨haccept, hthread⟩ := h
  obtain rfl : accept = none := haccept
  cases server with
  | loop_sync_server => cases read_until <;> cases write <;> rfl
  | parallel_sync_tcp_server =>
      obtain rfl : thread = true := hthread rfl
      cases read_until <;> cases write <;> rfl
  | ssl_loop_sync_server => cases handshake <;> cases read_until <;> cases write <;> rfl

/-- Any other failure is not. -/
theorem Server.Accept_throws {server : Server} {c : Connection} (h : ¬ server.Admits c)
    (t : Trace) : ∃ e t', (server.Accept c).exec t = (.error e, t') := by
  obtain ⟨accept, thread, handshake, read_until, write⟩ := c
  cases accept with
  | some ec => cases server <;> exact ⟨.system_error ec, _, rfl⟩
  | none =>
      cases server with
      | loop_sync_server => exact absurd ⟨rfl, by simp⟩ h
      | parallel_sync_tcp_server =>
          cases thread with
          | true => exact absurd ⟨rfl, fun _ => rfl⟩ h
          | false => exact ⟨.thread_error, _, rfl⟩
      | ssl_loop_sync_server => exact absurd ⟨rfl, by simp⟩ h

/-! ### Runs -/

theorem Code.exec_bind {α β : Type} (code : Code α) (next : α → Code β) (t : Trace) :
    (code >>= next).exec t =
      match code.exec t with
      | (.ok a, t') => (next a).exec t'
      | (.error e, t') => (.error e, t') := by
  have hrun : (code >>= next).exec t = (ExceptT.run (code >>= next)).run t := rfl
  obtain ⟨result, t', hcode⟩ : ∃ result t', code.exec t = (result, t') := ⟨_, _, rfl⟩
  have hcode' : (ExceptT.run code).run t = (result, t') := hcode
  rw [hrun, hcode, ExceptT.run_bind, StateT.run_bind, hcode']
  cases result <;> rfl

variable {server : Server} {turns : List Turn} {construct : Option ErrorCode}

theorem served_cons (turn : Turn) (turns : List Turn) :
    served (turn :: turns) = if turn.m_stop then [] else turn.connection :: served turns := by
  cases hstop : turn.m_stop <;> simp [served, hstop]

/-- As long as nothing outside a `try` block fails, the loop serves one connection after the
other. -/
theorem Server.loop_admits (h : ∀ c ∈ served turns, server.Admits c) (t : Trace) :
    (server.loop turns).exec t = (.ok (), (served turns).foldl (Trace.serve server) t) := by
  induction turns generalizing t with
  | nil => rfl
  | cons turn turns ih =>
      rw [served_cons] at h ⊢
      cases hstop : turn.m_stop with
      | true =>
          simp only [Server.loop, hstop, if_true]
          rfl
      | false =>
          simp only [hstop, Bool.false_eq_true, if_false] at h ⊢
          simp only [Server.loop, hstop, Bool.false_eq_true, if_false]
          rw [Code.exec_bind, Server.Accept_admits (h _ List.mem_cons_self)]
          exact ih (fun c hc => h c (List.mem_cons_of_mem _ hc)) _

/-- The first failure outside a `try` block leaves the loop. -/
theorem Server.loop_throws (h : ∃ c ∈ served turns, ¬ server.Admits c) (t : Trace) :
    ∃ e t', (server.loop turns).exec t = (.error e, t') := by
  induction turns generalizing t with
  | nil =>
      obtain ⟨c, hc, -⟩ := h
      exact absurd hc List.not_mem_nil
  | cons turn turns ih =>
      rw [served_cons] at h
      cases hstop : turn.m_stop with
      | true => simp [hstop] at h
      | false =>
          simp only [hstop, Bool.false_eq_true, if_false] at h
          simp only [Server.loop, hstop, Bool.false_eq_true, if_false]
          rw [Code.exec_bind]
          by_cases hadmits : server.Admits turn.connection
          · rw [Server.Accept_admits hadmits]
            obtain ⟨c, hc, hnot⟩ := h
            rcases List.mem_cons.mp hc with rfl | hc
            · exact absurd hadmits hnot
            · exact ih ⟨c, hc, hnot⟩ _
          · obtain ⟨e, t', hthrow⟩ := Server.Accept_throws hadmits t
            rw [hthrow]
            exact ⟨e, t', rfl⟩

/-- What has happened after a number of connections. -/
theorem foldl_serve (server : Server) (cs : List Connection) (t : Trace) :
    (cs.foldl (Trace.serve server) t).tried = t.tried ++ cs ∧
      (cs.foldl (Trace.serve server) t).accepted = t.accepted ++ cs ∧
      (cs.foldl (Trace.serve server) t).handled = t.handled ++ cs ∧
      ((∀ e ∈ t.ended, e = none) → ∀ e ∈ (cs.foldl (Trace.serve server) t).ended, e = none) := by
  induction cs generalizing t with
  | nil => simp
  | cons c cs ih =>
      obtain ⟨htried, haccepted, hhandled, hended⟩ := ih (t.serve server c)
      rw [List.foldl_cons, htried, haccepted, hhandled]
      refine ⟨by simp [Trace.serve], by simp [Trace.serve], by simp [Trace.serve], ?_⟩
      intro h
      refine hended ?_
      intro e he
      simp only [Trace.serve] at he
      split at he
      · rcases List.mem_append.mp he with he | he
        · exact h e he
        · exact List.mem_singleton.mp he
      · exact h e he

/-- **When no failure stops a server.** -/
theorem contained_iff (server : Server) (construct : Option ErrorCode) (turns : List Turn) :
    Contained server construct turns ↔
      construct = none ∧ ∀ c ∈ served turns, server.Admits c := by
  constructor
  · intro h
    have hreturns := h.returns
    cases construct with
    | some ec => exact absurd hreturns (by rw [Server.Run, Code.exec_bind]; simp [call, Code.exec])
    | none =>
        refine ⟨rfl, ?_⟩
        -- the first connection that is not admitted ends the thread function
        by_contra hnot
        have hthrows : ∃ c ∈ served turns, ¬ server.Admits c := by simpa using hnot
        obtain ⟨e, t', hrun⟩ := Server.loop_throws hthrows .init
        have hloop : (server.Run none turns).exec .init = (server.loop turns).exec .init := rfl
        rw [hloop, hrun] at hreturns
        exact absurd hreturns (by simp)
  · intro h
    obtain ⟨rfl, hadmits⟩ := h
    have hrun : (server.Run none turns).exec .init = _ := Server.loop_admits hadmits .init
    obtain ⟨htried, haccepted, hhandled, hended⟩ := foldl_serve server (served turns) .init
    have hfilter : (served turns).filter (·.accept = none) = served turns :=
      List.filter_eq_self.mpr fun c hc => by simpa using (hadmits c hc).1
    refine ⟨?_, ?_, ?_, ?_, ?_⟩ <;> rw [hrun]
    · exact hended (by simp [Trace.init])
    · exact htried
    · rw [hfilter]
      exact haccepted
    · exact hhandled.trans haccepted.symm

/-- The first `accept` fails: too many open files. -/
def refusedTurns : List Turn := [⟨false, ⟨some ⟨10024, .system⟩, true, none, none, none⟩⟩]

theorem not_contained_accept :
    ¬ ∀ (server : Server) (turns : List Turn), Contained server none turns := by
  intro hall
  have hreturns := (hall .loop_sync_server refusedTurns).returns
  have hthrows : ((Server.loop_sync_server.Run none refusedTurns).exec .init).1 =
      .error (.system_error ⟨10024, .system⟩) := rfl
  exact absurd (hthrows.symm.trans hreturns) (by simp)

end AsioStudy.SyncServer
