import AsioStudy.Core.AsyncObject

/-!
# AsioStudy.AsyncServer.Model

The classes `Acceptor` and `Server`, which the asynchronous TCP server and the HTTP server
have in common, over the `Program` of the class `Service` each of them has.

The threads of the pool run the handlers: `onAccept` and those of the services. A step
ends at the next access to `m_isStopped`, at the start of an operation, or at the end of a
handler. One more thread calls `Server::Start` and later `Server::Stop`. After
`m_ios.stop()` no handler is invoked any more; those that run go on to their end, and only
then are the threads joined.
-/

namespace AsioStudy.AsyncServer

/-- Where an `onAccept` is. -/
inductive AcceptPc
  | entry (ec : ErrorCode)
  /-- At `m_isStopped.load()`. -/
  | load
  | InitAccept
  /-- At `m_acceptor.close()`. -/
  | close
  deriving DecidableEq, Repr

/-- Where the thread that owns the server is. -/
inductive ServerPc
  /-- Before `Start`. -/
  | idle
  /-- Between `Start` and `Stop`. -/
  | running
  /-- In `Stop`, at `m_ios.stop()`. -/
  | stop
  /-- In `Stop`, at the joins. -/
  | join
  /-- `Stop` has returned. -/
  | returned
  deriving DecidableEq, Repr

/-- A `Service` with the socket it was made for. -/
structure Served (Op Point Data : Type*) where
  m_sock : Nat
  service : AsyncObject Op Point Data

structure State (Op Point Data : Type*) where
  pc : ServerPc
  m_isStopped : Bool
  /-- `m_acceptor.close()` was called. -/
  closed : Bool
  /-- The number of sockets made by `InitAccept`. -/
  sockets : Nat
  /-- The sockets of the pending `async_accept` operations. -/
  accepts : List Nat
  /-- Where each `onAccept` that runs is, with its socket. -/
  onAccept : List (Nat × AcceptPc)
  /-- The sockets of the accepts that succeeded. -/
  accepted : List Nat
  /-- The services that were created. -/
  services : List (Served Op Point Data)

inductive Action (Input : Type*)
  /-- The next step of the thread that owns the server. -/
  | server
  /-- A pending accept completes and its handler is invoked. -/
  | accept (i : Nat) (ec : ErrorCode)
  /-- The next step of an `onAccept`. -/
  | onAccept (i : Nat)
  /-- An operation of the `j`-th service completes, or one of its handlers takes a step. -/
  | service (j : Nat) (a : ObjectAction Input)

variable {Op Point Input Data : Type*}

namespace State

def init : State Op Point Data := ⟨.idle, false, false, 0, [], [], [], []⟩

/-- The number of handlers that run. -/
def running (s : State Op Point Data) : Nat :=
  s.onAccept.length + (s.services.flatMap (·.service.running)).length

/-- `m_ios.stop()` was called. -/
def iosStopped (s : State Op Point Data) : Bool := s.pc = .join ∨ s.pc = .returned

def InitAccept (s : State Op Point Data) : State Op Point Data :=
  { s with sockets := s.sockets + 1, accepts := s.accepts ++ [s.sockets] }

/-- The step of an `onAccept` for the socket `sock`, which is left after it. -/
def leave (s : State Op Point Data) (i : Nat) : State Op Point Data :=
  { s with onAccept := s.onAccept.eraseIdx i }

def goto (s : State Op Point Data) (i : Nat) (sock : Nat) (pc : AcceptPc) :
    State Op Point Data :=
  { s with onAccept := s.onAccept.set i (sock, pc) }

end State

section Steps
variable (P : Program Op Point Input Data) (thread_pool_size : Nat)

/-- A step of the thread that calls `Start` and `Stop`. -/
def stepServer (s : State Op Point Data) : Option (State Op Point Data) :=
  match s.pc with
  | .idle => some { s.InitAccept with pc := .running }
  | .running => some { s with pc := .stop, m_isStopped := true }
  | .stop => some { s with pc := .join }
  | .join => if s.running = 0 then some { s with pc := .returned } else none
  | .returned => none

/-- A step of an `onAccept`. -/
def stepOnAccept (s : State Op Point Data) (i : Nat) (sock : Nat) :
    AcceptPc → State Op Point Data
  | .entry ec =>
      let s := if ec.value = 0 then { s with services := s.services ++ [⟨sock, P.start⟩] } else s
      s.goto i sock .load
  | .load => s.goto i sock (if s.m_isStopped then .close else .InitAccept)
  | .InitAccept => s.InitAccept.leave i
  | .close => { s with closed := true }.leave i

/-- A thread of the pool is free to invoke a handler. -/
def mayInvoke (s : State Op Point Data) : Prop :=
  s.iosStopped = false ∧ s.running < thread_pool_size

instance (s : State Op Point Data) : Decidable (mayInvoke thread_pool_size s) :=
  inferInstanceAs (Decidable (_ ∧ _))

/-- Whether an action may take place: a handler is invoked by a free thread of the pool. -/
def enabled (s : State Op Point Data) : Action Input → Prop
  | .accept _ _ | .service _ (.complete _ _ _) => mayInvoke thread_pool_size s
  | _ => True

instance (s : State Op Point Data) (a : Action Input) :
    Decidable (enabled thread_pool_size s a) :=
  match a with
  | .accept _ _ | .service _ (.complete _ _ _) => inferInstanceAs (Decidable (mayInvoke _ s))
  | .server | .onAccept _ | .service _ (.run _ _) => isTrue trivial

def step (s : State Op Point Data) (a : Action Input) : Option (State Op Point Data) :=
  if enabled thread_pool_size s a then
    match a with
    | .server => stepServer s
    | .accept i ec => s.accepts[i]?.map fun sock =>
        { s with
          accepts := s.accepts.eraseIdx i
          onAccept := s.onAccept ++ [(sock, .entry ec)]
          accepted := if ec.value = 0 then s.accepted ++ [sock] else s.accepted }
    | .onAccept i => s.onAccept[i]?.map fun (sock, pc) => stepOnAccept P s i sock pc
    | .service j a => s.services[j]?.bind fun x => (P.stepObject x.service a).map fun o =>
        { s with services := s.services.set j { x with service := o } }
  else none

/-- A server whose services run the program `P`. -/
def machine : TransitionSystem (State Op Point Data) (Action Input) :=
  ⟨.init, step P thread_pool_size⟩

end Steps

end AsioStudy.AsyncServer
