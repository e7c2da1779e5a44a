import AsioStudy.AsyncServer.Isolation
import AsioStudy.AsyncServer.Liveness
import AsioStudy.HttpServer.Connections
import AsioStudy.HttpServer.Segmentation

/-!
# AsioStudy.HttpServer.Network

The HTTP server on the network: any number of connections, each with bytes of its own that
arrive in any portions, and any interleaving of the handlers.

A read completes as `async_read_until` does on the bytes of its connection; everything else is
the server as it is. `Serves` tells for each service, wherever it is, that what is still to come
is what `Connection.serve` says of this connection alone.
-/

namespace AsioStudy.HttpServer

open AsyncServer

/-- What surrounds the server. -/
structure World where
  platform : Platform
  fs : FileSystem
  /-- What arrives on the `j`-th connection. -/
  incoming : Nat → Incoming

/-- The `j`-th connection by itself. -/
def World.connection (w : World) (j : Nat) : Connection :=
  ⟨w.platform, w.fs, w.incoming j, true⟩

structure Online where
  server : ServerState
  /-- What has not been read yet, for each connection. -/
  chunks : Nat → List Bytes

inductive Event
  | server
  | accept (i : Nat) (ec : ErrorCode)
  | onAccept (i : Nat)
  /-- An operation of the `j`-th service completes. -/
  | completes (j i : Nat) (ec : ErrorCode)
  /-- The next step of a handler; its `shutdown`, if it has one, succeeds or not. -/
  | run (j i : Nat) (shutdown : Bool)
  deriving DecidableEq, Repr

/-- The delimiter of a read; the other operation is the write of the response. -/
def Op.delimiter : Op → Option Bytes
  | .on_request_line_received => some CRLF
  | .on_headers_received => some (CRLF ++ CRLF)
  | .on_response_sent => none

/-- What an operation brings when it completes with `ec`, and what is left to read. A write may
complete in any way. -/
def transferred (ending : Ending) (s : Service) (chunks : List Bytes) (ec : ErrorCode) (op : Op) :
    Option (Bytes × List Bytes) :=
  match op.delimiter with
  | none => some ([], chunks)
  | some delim =>
      let r := async_read_until delim (some max_request) ending s.m_request chunks
      if r.completion = some ec then some (r.buf.drop s.m_request.length, r.chunks) else none

/-- The action of the server behind an event, and what is left to read after it. -/
def World.action (w : World) (s : Online) :
    Event → Option (AsyncServer.Action Input × (Nat → List Bytes))
  | .server => some (.server, s.chunks)
  | .accept i ec => some (.accept i ec, s.chunks)
  | .onAccept i => some (.onAccept i, s.chunks)
  | .run j i shutdown => some (.service j (.run i ⟨shutdown, w.fs⟩), s.chunks)
  | .completes j i ec =>
      s.server.services[j]?.bind fun x => x.service.pending[i]?.bind fun op =>
        (transferred (w.incoming j).ending x.service.data.service (s.chunks j) ec op).map
          fun (received, left) =>
            (.service j (.complete i ec received), Function.update s.chunks j left)

/-- The server in its surroundings. -/
def online (w : World) (thread_pool_size : Nat) : TransitionSystem Online Event where
  init := ⟨.init, fun j => (w.incoming j).chunks⟩
  step s e := (w.action s e).bind fun (a, chunks) =>
    (AsyncServer.step (service w.platform) thread_pool_size s.server a).map (⟨·, chunks⟩)

variable {w : World} {thread_pool_size : Nat} {s s' : Online} {e : Event}

/-- Every step is one of the server. -/
theorem online_inv (hs : (online w thread_pool_size).step s e = some s') :
    ∃ a, w.action s e = some (a, s'.chunks) ∧
      AsyncServer.step (service w.platform) thread_pool_size s.server a = some s'.server := by
  obtain ⟨⟨a, chunks⟩, ha, h⟩ := Option.bind_eq_some_iff.mp hs
  obtain ⟨server, hserver, rfl⟩ := Option.map_eq_some_iff.mp h
  exact ⟨a, ha, hserver⟩

theorem online_server (h : (online w thread_pool_size).Reachable s) :
    (machine (service w.platform) thread_pool_size).Reachable s.server := by
  refine h.invariant (P := fun s => (machine (service w.platform) thread_pool_size).Reachable
    s.server) .init ?_
  intro s e s' _ hi hs
  obtain ⟨a, -, hserver⟩ := online_inv hs
  exact hi.step hserver

/-! ### What is still to come of a service -/

/-- The outcome of a connection whose service waits for a read. -/
def Connection.ofOp (c : Connection) (s : Service) (chunks : List Bytes) : Op → Option Outcome
  | .on_request_line_received =>
      let r := async_read_until CRLF (some max_request) c.incoming.ending s.m_request chunks
      some (c.outcome (run (Service.on_request_line_received { s with m_request := r.buf })
        r.completion fun s => c.read_headers s r.chunks))
  | .on_headers_received => some (c.outcome (c.read_headers s chunks))
  | .on_response_sent => none

/-- The outcome of a connection one of whose handlers runs. -/
def Connection.ofPoint (c : Connection) (s : Service) (chunks : List Bytes) :
    Point → Option Outcome
  | .on_request_line_received ec =>
      some (c.outcome (run s.on_request_line_received (some ec) fun s => c.read_headers s chunks))
  | .on_headers_received ec =>
      some (c.outcome (run s.on_headers_received (some ec) .process_request))
  | .process_request => some (c.outcome (.process_request s))
  | .send_response => some (c.respond s)
  | .on_response_sent _ => none
  | .on_finish => some .on_finish

/-- What has been sent is what `send_response` makes of the service, unless it has thrown. -/
def SendCall.Sent (threw : Nat) (c : SendCall) : Prop :=
  c.response_buffers = none ∧ 0 < threw ∨
    c.response_buffers = (c.service.send_response true).map Prod.snd

/-- The service is on its way to the outcome of its connection. -/
inductive Serves (c : Connection) (chunks : List Bytes) (o : AsyncObject Op Point ServiceData) :
    Prop
  | waits (op : Op) : o.pending = [op] → o.data.sends = [] →
      c.ofOp o.data.service chunks op = some c.serve → Serves c chunks o
  | handles (p : Point) : o.running = [p] → o.data.sends = [] →
      c.ofPoint o.data.service chunks p = some c.serve → Serves c chunks o
  | finished : o.deleted = 1 → o.data.sends = [] → c.serve = .on_finish → Serves c chunks o
  | threw : o.threw = 1 → o.data.sends = [] → c.serve = .threw → Serves c chunks o
  | undefined : o.undefined = 1 → o.data.sends = [] → c.serve = .undefined → Serves c chunks o
  | responded (call : SendCall) : o.data.sends = [call] → c.respond call.service = c.serve →
      call.Sent o.threw → Serves c chunks o

variable {c : Connection} {chunks : List Bytes} {o o' : AsyncObject Op Point ServiceData}

/-- A completed read leaves the buffer of `async_read_until`. -/
theorem transferred_read {ending : Ending} {s : Service} {ec : ErrorCode} {op : Op}
    {delim received : Bytes} {left : List Bytes} (hop : op.delimiter = some delim)
    (h : transferred ending s chunks ec op = some (received, left)) :
    async_read_until delim (some max_request) ending s.m_request chunks =
      ⟨some ec, s.m_request ++ received, left⟩ := by
  obtain ⟨more, hmore⟩ := async_read_until_buf delim (some max_request) ending s.m_request chunks
  simp only [transferred, hop] at h
  split at h
  · next hcompletion =>
    obtain ⟨rfl, rfl⟩ := Prod.mk.inj (Option.some.inj h)
    rw [hmore, List.drop_left, ← hmore, ← hcompletion]
  · exact absurd h nofun

/-- **A read that completes** leads on to the same outcome. -/
theorem Serves.complete (h : Serves c chunks o) (hw : o.weight = 1) {i : Nat} {ec : ErrorCode}
    {op : Op} {received : Bytes} {left : List Bytes} (hop : o.pending[i]? = some op)
    (htransferred : transferred c.incoming.ending o.data.service chunks ec op =
      some (received, left)) (P : Platform)
    (hs : (service P).stepObject o (.complete i ec received) = some o') : Serves c left o' := by
  obtain ⟨hpending, hrunning, rfl⟩ := AsyncObject.only_pending hw hop
  have hweight := hw
  simp only [AsyncObject.weight, hpending, List.length_singleton] at hweight
  simp only [Program.stepObject, hpending, List.getElem?_cons_zero, Option.map_some] at hs
  obtain rfl := Option.some.inj hs
  cases h with
  | waits op' hpending' hsends houtcome =>
      obtain rfl : op = op' := by simpa [hpending] using hpending'
      cases op with
      | on_request_line_received =>
          have hread := transferred_read rfl htransferred
          refine .handles (.on_request_line_received ec) (by simp [hrunning, service])
            (by simpa [service] using hsends) ?_
          simp only [Connection.ofOp, hread] at houtcome
          exact houtcome
      | on_headers_received =>
          have hread := transferred_read rfl htransferred
          refine .handles (.on_headers_received ec) (by simp [hrunning, service])
            (by simpa [service] using hsends) ?_
          simp only [Connection.ofOp, Connection.read_headers, hread] at houtcome
          exact houtcome
      | on_response_sent => exact absurd houtcome (by simp [Connection.ofOp])
  | handles p hp _ _ => exact absurd (hrunning.symm.trans hp) (by simp)
  | finished hdeleted _ _ => omega
  | threw hthrew _ _ => omega
  | undefined hundefined _ _ => omega
  | responded call hsends hrespond hsent =>
      refine .responded call ?_ hrespond hsent
      cases op <;> exact hsends

/-- What the exit of a handler leads to. -/
theorem Serves.exit {d : ServiceData} {go_on e : Effect Op Point ServiceData} {exit : Exit}
    {p : Point} (hrunning : o.running = [p]) (hsends : d.sends = [])
    (he : exit.effect d go_on = some e)
    (hgo : exit = .go_on → Serves c chunks (o.perform 0 go_on))
    (hsend : exit = .send_response → c.respond d.service = c.serve)
    (hfinish : exit = .on_finish → c.serve = .on_finish) : Serves c chunks (o.perform 0 e) := by
  rcases Exit.effect_eq_some he with ⟨hexit, rfl⟩ | ⟨hexit, rfl⟩ | ⟨hexit, rfl⟩
  · exact hgo hexit
  · refine .handles .send_response ?_ hsends (congrArg some (hsend hexit))
    simp [AsyncObject.perform, Next.running, hrunning]
  · refine .handles .on_finish ?_ hsends (congrArg some (hfinish hexit).symm)
    simp [AsyncObject.perform, Next.running, hrunning]

/-- After the response no step but `send_response` touches what was sent. -/
theorem stepPoint_sends {P : Platform} {input : Input} {d : ServiceData} {p : Point}
    {e : Effect Op Point ServiceData} (hp : p ≠ .send_response)
    (he : stepPoint P input d p = some e) : e.data.sends = d.sends := by
  cases p with
  | on_request_line_received ec => rw [Exit.effect_data rfl he]
  | on_headers_received ec => rw [Exit.effect_data rfl he]
  | send_response => exact absurd rfl hp
  | process_request | on_response_sent ec =>
      simp only [stepPoint] at he
      split at he <;> (obtain rfl := Option.some.inj he; rfl)
  | on_finish => obtain rfl := Option.some.inj he; rfl

/-- **A step of a handler** leads on to the same outcome. -/
theorem Serves.run (h : Serves c chunks o) (hr : (service c.platform).machine.Reachable o)
    {i : Nat} {shutdown : Bool}
    (hs : (service c.platform).stepObject o (.run i ⟨shutdown, c.fs⟩) = some o') :
    Serves c chunks o' := by
  have hw := weight_eq_one (service_linear c.platform) hr
  cases stepObject_inv hs with
  | @run i input p e hp he =>
      obtain ⟨hpending, hrunning, rfl, hdeleted, hthrew, hundefined⟩ :=
        AsyncObject.only_running hw hp
      cases h with
      | waits op hpending' _ _ => exact absurd (hpending.symm.trans hpending') (by simp)
      | finished hdeleted' _ _ => omega
      | threw hthrew' _ _ => omega
      | undefined hundefined' _ _ => omega
      | responded call hsends hrespond hsent =>
          have hne : p ≠ .send_response := by
            rintro rfl
            have hholds := (service_invariant c.platform).holds (service_linear c.platform) hr
            have hnone := (hholds.running .send_response (List.mem_of_getElem? hp)).2
            exact absurd (hsends.symm.trans hnone) (by simp)
          refine .responded call ?_ hrespond ?_
          · exact (stepPoint_sends hne he).trans hsends
          · rcases hsent with ⟨hnone, hthrew⟩ | hsome
            · exact .inl ⟨hnone, Nat.lt_of_lt_of_le hthrew (Nat.le_add_right _ _)⟩
            · exact .inr hsome
      | handles p' hp' hsends houtcome =>
          obtain rfl : p = p' := by simpa [hrunning] using hp'
          cases p with
          | on_request_line_received ec =>
              simp only [service, stepPoint] at he
              simp only [Connection.ofPoint, Connection.run, Option.some.injEq] at houtcome
              generalize o.data.service.on_request_line_received ec = r at he houtcome
              obtain ⟨s, exit⟩ := r
              refine Serves.exit (d := ⟨s, o.data.sends⟩) hrunning hsends he ?_ ?_ ?_
              · rintro rfl
                exact .waits .on_headers_received (by simp [AsyncObject.perform, hpending]) hsends
                  (congrArg some houtcome)
              · rintro rfl
                exact houtcome
              · rintro rfl
                exact houtcome.symm
          | on_headers_received ec =>
              simp only [service, stepPoint] at he
              simp only [Connection.ofPoint, Connection.run, Option.some.injEq] at houtcome
              generalize o.data.service.on_headers_received ec = r at he houtcome
              obtain ⟨s, exit⟩ := r
              refine Serves.exit (d := ⟨s, o.data.sends⟩) hrunning hsends he ?_ ?_ ?_
              · rintro rfl
                exact .handles .process_request
                  (by simp [AsyncObject.perform, Next.running, hrunning]) hsends
                  (congrArg some houtcome)
              · rintro rfl
                exact houtcome
              · rintro rfl
                exact houtcome.symm
          | process_request =>
              simp only [service, stepPoint] at he
              simp only [Connection.ofPoint, Connection.outcome, Option.some.injEq] at houtcome
              split at he
              · next hfault =>
                obtain rfl := Option.some.inj he
                rw [hfault] at houtcome
                exact .threw (by simp [AsyncObject.perform, Next.throws, hthrew])
                  hsends houtcome.symm
              · next hfault =>
                obtain rfl := Option.some.inj he
                rw [hfault] at houtcome
                exact .undefined (by simp [AsyncObject.perform, Next.isUndefined, hundefined])
                  hsends houtcome.symm
              · next s hok =>
                obtain rfl := Option.some.inj he
                rw [hok] at houtcome
                exact .handles .send_response
                  (by simp [AsyncObject.perform, Next.running, hrunning]) hsends
                  (congrArg some houtcome)
          | send_response =>
              simp only [Connection.ofPoint, Option.some.injEq] at houtcome
              simp only [service, stepPoint] at he
              split at he
              · obtain rfl := Option.some.inj he
                exact .responded ⟨o.data.service, none⟩ (by simp [AsyncObject.perform, hsends])
                  houtcome (.inl ⟨rfl, by simp [AsyncObject.perform, Next.throws]⟩)
              · next s response_buffers hsome =>
                obtain rfl := Option.some.inj he
                refine .responded ⟨o.data.service, some response_buffers⟩
                  (by simp [AsyncObject.perform, hsends]) houtcome (.inr ?_)
                cases shutdown with
                | false => exact absurd hsome (by simp [Service.send_response])
                | true => rw [hsome]; rfl
          | on_response_sent ec => exact absurd houtcome (by simp [Connection.ofPoint])
          | on_finish =>
              obtain rfl := Option.some.inj he
              refine .finished (by simp [AsyncObject.perform, hdeleted]) hsends ?_
              exact (Option.some.inj houtcome).symm

/-! ### All connections -/

/-- What an event is for the `j`-th service, and what it leaves of the bytes of `j`. -/
inductive Part (w : World) (s : Online) (j : Nat) (chunks : List Bytes) :
    Option (ObjectAction Input) → Prop
  | none : chunks = s.chunks j → Part w s j chunks none
  | run {i : Nat} {shutdown : Bool} : chunks = s.chunks j →
      Part w s j chunks (some (.run i ⟨shutdown, w.fs⟩))
  | complete {i : Nat} {ec : ErrorCode} {received : Bytes} {x : Served Op Point ServiceData}
      {op : Op} : s.server.services[j]? = some x → x.service.pending[i]? = some op →
      transferred (w.incoming j).ending x.service.data.service (s.chunks j) ec op =
        some (received, chunks) →
      Part w s j chunks (some (.complete i ec received))

theorem action_part {a : AsyncServer.Action Input} {chunks : Nat → List Bytes}
    (h : w.action s e = some (a, chunks)) (j : Nat) : Part w s j (chunks j) (a.of j) := by
  cases e with
  | completes j' i ec =>
      obtain ⟨x, hx, h⟩ := Option.bind_eq_some_iff.mp h
      obtain ⟨op, hop, h⟩ := Option.bind_eq_some_iff.mp h
      obtain ⟨⟨received, left⟩, htransferred, h⟩ := Option.map_eq_some_iff.mp h
      obtain ⟨rfl, rfl⟩ := Prod.mk.inj h
      by_cases hj : j' = j
      · subst hj
        simp only [Action.of, if_true, Function.update_self]
        exact .complete hx hop htransferred
      · simp only [Action.of, if_neg hj]
        exact .none (Function.update_of_ne (Ne.symm hj) _ _)
  | run j' i shutdown =>
      obtain ⟨rfl, rfl⟩ := Prod.mk.inj (Option.some.inj h)
      by_cases hj : j' = j
      · simp only [Action.of, hj, if_true]
        exact .run rfl
      · simp only [Action.of, if_neg hj]
        exact .none rfl
  | _ =>
      obtain ⟨rfl, rfl⟩ := Prod.mk.inj (Option.some.inj h)
      exact .none rfl

/-- Every service is on its way to the outcome of its connection, and nothing has been read of
a connection that has no service yet. -/
def AllServed (w : World) (s : Online) : Prop :=
  ∀ j, (s.server.services[j]? = none → s.chunks j = (w.incoming j).chunks) ∧
    ∀ x, s.server.services[j]? = some x → Serves (w.connection j) (s.chunks j) x.service

theorem serves_start (c : Connection) : Serves c c.incoming.chunks (service c.platform).start := by
  refine .waits .on_request_line_received rfl rfl ?_
  rw [Connection.serve_eq]
  rfl

theorem online_allServed (h : (online w thread_pool_size).Reachable s) : AllServed w s := by
  refine h.invariant (P := AllServed w) ?_ ?_
  · intro j
    exact ⟨fun _ => rfl, by simp [online, State.init]⟩
  · intro s e s' hr hi hs j
    obtain ⟨a, ha, hserver⟩ := online_inv hs
    obtain ⟨hnone, hsome⟩ := hi j
    have hpart := action_part ha j
    rcases (step_inv hserver).serviceStep j with
      ⟨y, hold, hof, hnew, hstart⟩ | ⟨y, b, o, hold, hof, ho, hnew⟩ | ⟨hof, hsame⟩
    · rw [hof] at hpart
      cases hpart with
      | none hchunks =>
          rw [hnew]
          refine ⟨by simp, ?_⟩
          rintro x ⟨⟩
          rw [hchunks, hnone hold, hstart]
          exact serves_start (w.connection j)
    · have hserves := hsome y hold
      have hreach := reachable_service (online_server hr) y (List.mem_of_getElem? hold)
      rw [hof] at hpart
      rw [hnew]
      refine ⟨by simp, ?_⟩
      rintro x ⟨⟩
      cases hpart with
      | run hchunks =>
          rw [hchunks]
          exact hserves.run hreach ho
      | complete hx hop htransferred =>
          obtain rfl := Option.some.inj (hold.symm.trans hx)
          exact hserves.complete (weight_eq_one (service_linear w.platform) hreach) hop
            htransferred w.platform ho
    · rw [hof] at hpart
      cases hpart with
      | none hchunks =>
          rw [hsame, hchunks]
          exact ⟨hnone, hsome⟩

end AsioStudy.HttpServer
