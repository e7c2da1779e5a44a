import AsioStudy.Core.Termination
import AsioStudy.Shutdown.Model

/-!
# AsioStudy.Shutdown.Exchange

What the two programs achieve, for any two messages and however the transfers are cut into
portions, interleave and fail.

* `messages_whole`: neither side takes a part of a message for the whole, unless the other
  one has thrown; and no byte of the answer is written before the request has come to its end.
* `exchange_completes`: the exchange is over after a bounded number of steps, and neither side
  is left waiting for the other; without a failure both return with the whole message.
-/

namespace AsioStudy.Shutdown

variable {s s' : State} {o : Pipe.Outcome} {a : Action} {request response : Bytes}

/-! ### Safety -/

/-- What the client has still to write, by where it is. -/
def ClientPc.writer : ClientPc → Pipe.Writer
  | .write left => .writing left
  | .shutdown => .writing []
  | .read | .returned => .finished
  | .threw _ => .broken

/-- What the server has still to write, by where it is. -/
def ServerPc.writer (response : Bytes) : ServerPc → Pipe.Writer
  | .read => .writing response
  | .write left => .writing left
  | .shutdown => .writing []
  | .returned => .finished
  | .threw _ => .broken

/-- The server has left `asio::read` with the end of the stream. -/
def ServerPc.answers : ServerPc → Bool
  | .write _ | .shutdown | .returned => true
  | .read | .threw _ => false

structure Inv (request response : Bytes) (s : State) : Prop where
  client : s.requests.Carries request s.client.writer
  server : s.responses.Carries response (s.server.writer response)
  request_buf : s.request_buf = s.requests.received
  response_buf : s.response_buf = s.responses.received
  answers : s.server.answers = true → s.requests.atEnd = true
  answered : s.responses.sent ≠ [] → s.requests.atEnd = true
  finished : s.client = .returned → s.responses.atEnd = true

theorem ClientStep.inv (h : ClientStep s o s') (hi : Inv request response s) :
    Inv request response s' := by
  obtain ⟨hclient, hserver, hrequest_buf, hresponse_buf, hanswers, hanswered, hfinished⟩ := hi
  cases h with
  | throws hbusy =>
      exact ⟨hclient.abort, hserver, hrequest_buf, hresponse_buf,
        fun ha => Pipe.atEnd_close (hanswers ha), fun ha => Pipe.atEnd_close (hanswered ha), nofun⟩
  | written hpc =>
      rw [hpc] at hclient
      exact ⟨hclient, hserver, hrequest_buf, hresponse_buf, hanswers, hanswered, nofun⟩
  | write hpc hwrite =>
      rw [hpc] at hclient
      obtain ⟨-, -, -, -, -, hreceived⟩ := Pipe.write_some_eq_some hwrite
      have hopen := Pipe.not_atEnd hclient.2
      exact ⟨hclient.write_some hwrite, hserver, hrequest_buf.trans hreceived.symm, hresponse_buf,
        fun ha => absurd (hanswers ha) hopen, fun ha => absurd (hanswered ha) hopen, nofun⟩
  | shutdown hpc =>
      rw [hpc] at hclient
      have hopen := Pipe.not_atEnd hclient.2
      exact ⟨hclient.close, hserver, hrequest_buf, hresponse_buf,
        fun ha => absurd (hanswers ha) hopen, fun ha => absurd (hanswered ha) hopen, nofun⟩
  | eof hpc hend =>
      rw [hpc] at hclient
      exact ⟨hclient, hserver, hrequest_buf, hresponse_buf, hanswers, hanswered, fun _ => hend⟩
  | @read n data responses hpc hread =>
      obtain ⟨-, hsent, hclosed, -, hreceived⟩ := Pipe.read_some_eq_some hread
      refine ⟨hclient, hserver.congr hsent hclosed, hrequest_buf, ?_, hanswers, ?_, ?_⟩
      · rw [hreceived, hresponse_buf]
      · rw [hsent]
        exact hanswered
      · intro hreturned
        exact absurd (hpc.symm.trans hreturned) nofun

theorem ServerStep.inv (h : ServerStep response s o s') (hi : Inv request response s) :
    Inv request response s' := by
  obtain ⟨hclient, hserver, hrequest_buf, hresponse_buf, hanswers, hanswered, hfinished⟩ := hi
  cases h with
  | throws hbusy =>
      exact ⟨hclient, hserver.abort, hrequest_buf, hresponse_buf, nofun, hanswered,
        fun hf => Pipe.atEnd_close (hfinished hf)⟩
  | eof hpc hend =>
      rw [hpc] at hserver
      exact ⟨hclient, hserver, hrequest_buf, hresponse_buf, fun _ => hend, fun _ => hend,
        hfinished⟩
  | @read n data requests hpc hread =>
      have hopen := Pipe.not_atEnd_of_read hread
      obtain ⟨-, hsent, hclosed, -, hreceived⟩ := Pipe.read_some_eq_some hread
      refine ⟨hclient.congr hsent hclosed, hserver, ?_, hresponse_buf, ?_, ?_, hfinished⟩
      · rw [hreceived, hrequest_buf]
      · intro ha
        exact absurd (hanswers ha) hopen
      · intro ha
        exact absurd (hanswered ha) hopen
  | written hpc =>
      rw [hpc] at hserver hanswers
      exact ⟨hclient, hserver, hrequest_buf, hresponse_buf, hanswers, hanswered, hfinished⟩
  | write hpc hwrite =>
      rw [hpc] at hserver hanswers
      obtain ⟨-, -, -, -, -, hreceived⟩ := Pipe.write_some_eq_some hwrite
      have hopen := Pipe.not_atEnd hserver.2
      exact ⟨hclient, hserver.write_some hwrite, hrequest_buf,
        hresponse_buf.trans hreceived.symm, hanswers, fun _ => hanswers rfl,
        fun hf => absurd (hfinished hf) hopen⟩
  | shutdown hpc =>
      rw [hpc] at hserver hanswers
      have hopen := Pipe.not_atEnd hserver.2
      exact ⟨hclient, hserver.close, hrequest_buf, hresponse_buf, hanswers, hanswered,
        fun hf => absurd (hfinished hf) hopen⟩

theorem reachable_inv (h : (exchange request response).Reachable s) :
    Inv request response s := by
  refine h.invariant (P := Inv request response) ?_ ?_
  · exact ⟨⟨rfl, rfl⟩, ⟨rfl, rfl⟩, rfl, rfl, nofun, fun ha => absurd rfl ha, nofun⟩
  · intro s a s' _ hi hs
    cases a with
    | client o => exact (stepClient_inv hs).inv hi
    | server o => exact (stepServer_inv hs).inv hi

theorem Inv.request_whole (hi : Inv request response s) (ha : s.server.answers = true) :
    s.request_buf = request ∨ ∃ ec, s.client = .threw ec ∧ s.request_buf <+: request := by
  have hclient := hi.client
  obtain ⟨hclosed, hall⟩ := Pipe.received_of_atEnd (hi.answers ha)
  rw [hi.request_buf, hall]
  cases hpc : s.client with
  | threw ec => exact .inr ⟨ec, rfl, hclient.isPrefix⟩
  | read | returned =>
      rw [hpc] at hclient
      exact .inl hclient.1
  | write left | shutdown =>
      rw [hpc] at hclient
      exact absurd (hclient.2.symm.trans hclosed) Bool.false_ne_true

theorem Inv.response_whole (hi : Inv request response s) (hf : s.client = .returned) :
    s.response_buf = response ∨ ∃ ec, s.server = .threw ec ∧ s.response_buf <+: response := by
  have hserver := hi.server
  obtain ⟨hclosed, hall⟩ := Pipe.received_of_atEnd (hi.finished hf)
  rw [hi.response_buf, hall]
  cases hpc : s.server with
  | threw ec => exact .inr ⟨ec, rfl, hserver.isPrefix⟩
  | returned =>
      rw [hpc] at hserver
      exact .inl hserver.1
  | read | write left | shutdown =>
      rw [hpc] at hserver
      exact absurd (hserver.2.symm.trans hclosed) Bool.false_ne_true

/-- **No part of a message is taken for the whole**, unless the side that sends it has
thrown. -/
structure MessagesWhole (request response : Bytes) (s : State) : Prop where
  /-- The server answers the whole request. -/
  request : s.server.answers = true →
    s.request_buf = request ∨ ∃ ec, s.client = .threw ec ∧ s.request_buf <+: request
  /-- The client returns with the whole response. -/
  response : s.client = .returned →
    s.response_buf = response ∨ ∃ ec, s.server = .threw ec ∧ s.response_buf <+: response
  /-- No byte of the response is written before the end of the request was read. -/
  order : s.responses.sent ≠ [] → s.requests.closed = true ∧ s.request_buf = s.requests.sent

theorem messages_whole (h : (exchange request response).Reachable s) :
    MessagesWhole request response s := by
  have hi := reachable_inv h
  refine ⟨hi.request_whole, hi.response_whole, ?_⟩
  intro hne
  obtain ⟨hclosed, hall⟩ := Pipe.received_of_atEnd (hi.answered hne)
  exact ⟨hclosed, hi.request_buf.trans hall⟩

/-- A run of the two programs in which the request arrives in two portions. -/
def inPortions : List Action :=
  [.client (.ok 2), .server (.ok 1), .client (.ok 4), .client (.ok 0), .client (.ok 0),
    .server (.ok 5), .server (.ok 0), .server (.ok 3), .client (.ok 3), .server (.ok 0),
    .server (.ok 0), .client (.ok 0)]

/-- The state `inPortions` ends in. -/
def exchanged : State where
  client := .returned
  response_buf := processRequest.response_buf
  server := .returned
  request_buf := communicate.request_buf
  requests := ⟨communicate.request_buf, 6, true, by decide⟩
  responses := ⟨processRequest.response_buf, 3, true, by decide⟩

theorem inPortions_exec : programs.exec programs.init inPortions = some exchanged := by decide

theorem messages_whole_inPortions :
    MessagesWhole communicate.request_buf processRequest.response_buf exchanged :=
  messages_whole (TransitionSystem.reachable_of_exec inPortions_exec)

/-! ### Completion -/

/-- The steps the client still takes on its own account. -/
def ClientPc.cost : ClientPc → Nat
  | .write left => left.length + 3
  | .shutdown => 2
  | .read => 1
  | .returned | .threw _ => 0

def ServerPc.cost (response : Bytes) : ServerPc → Nat
  | .read => response.length + 3
  | .write left => left.length + 2
  | .shutdown => 1
  | .returned | .threw _ => 0

/-- The steps that are left: those of both sides, and a read for each byte not yet read. -/
def State.cost (request response : Bytes) (s : State) : Nat :=
  s.client.cost + s.server.cost response + (request.length - s.requests.taken) +
    (response.length - s.responses.taken)

theorem ClientStep.cost (h : ClientStep s o s') (hi : Inv request response s) :
    s'.cost request response + 1 ≤ s.cost request response := by
  cases h with
  | throws hbusy =>
      have hpos : 1 ≤ s.client.cost := by
        cases hpc : s.client <;> simp [hpc, ClientPc.busy, ClientPc.cost] at hbusy ⊢
      have hthrew : ∀ ec, (ClientPc.threw ec).cost = 0 := fun _ => rfl
      simp only [State.cost, State.clientThrows, Pipe.close_taken, hthrew]
      omega
  | written hpc =>
      simp only [State.cost, hpc, ClientPc.cost, List.length_nil]
      omega
  | write hpc hwrite =>
      obtain ⟨hpos, hlen, -, -, htaken, -⟩ := Pipe.write_some_eq_some hwrite
      simp only [State.cost, hpc, ClientPc.cost, htaken]
      omega
  | shutdown hpc =>
      simp only [State.cost, hpc, ClientPc.cost, Pipe.close_taken]
      omega
  | eof hpc _ =>
      simp only [State.cost, hpc, ClientPc.cost]
      omega
  | @read n data responses hpc hread =>
      obtain ⟨hpos, hsent, -, htaken, -⟩ := Pipe.read_some_eq_some hread
      have hall := hi.server.isPrefix.length_le
      have hle := responses.taken_le
      rw [hsent, htaken] at hle
      simp only [State.cost, htaken]
      omega

theorem ServerStep.cost (h : ServerStep response s o s') (hi : Inv request response s) :
    s'.cost request response + 1 ≤ s.cost request response := by
  cases h with
  | throws hbusy =>
      have hpos : 1 ≤ s.server.cost response := by
        cases hpc : s.server <;> simp [hpc, ServerPc.busy, ServerPc.cost] at hbusy ⊢
      have hthrew : ∀ ec, (ServerPc.threw ec).cost response = 0 := fun _ => rfl
      simp only [State.cost, State.serverThrows, Pipe.close_taken, hthrew]
      omega
  | eof hpc _ =>
      simp only [State.cost, hpc, ServerPc.cost]
      omega
  | @read n data requests hpc hread =>
      obtain ⟨hpos, hsent, -, htaken, -⟩ := Pipe.read_some_eq_some hread
      have hall := hi.client.isPrefix.length_le
      have hle := requests.taken_le
      rw [hsent, htaken] at hle
      simp only [State.cost, htaken]
      omega
  | written hpc =>
      simp only [State.cost, hpc, ServerPc.cost, List.length_nil]
      omega
  | write hpc hwrite =>
      obtain ⟨hpos, hlen, -, -, htaken, -⟩ := Pipe.write_some_eq_some hwrite
      simp only [State.cost, hpc, ServerPc.cost, htaken]
      omega
  | shutdown hpc =>
      simp only [State.cost, hpc, ServerPc.cost, Pipe.close_taken]
      omega

/-- Every step of the exchange is one less to come. -/
theorem potential (request response : Bytes) :
    (exchange request response).Potential (fun _ => True) (fun _ => true) (fun _ => 0)
      (State.cost request response) := by
  refine ⟨?_⟩
  intro s a s' hr _ hs
  have hi := reachable_inv hr
  cases a with
  | client o => exact (stepClient_inv hs).cost hi
  | server o => exact (stepServer_inv hs).cost hi

/-- The call fails. -/
def Action.fault : Action → Bool
  | .client (.fails _) | .server (.fails _) => true
  | .client (.ok _) | .server (.ok _) => false

def ClientPc.ended : ClientPc → Bool
  | .returned | .threw _ => true
  | _ => false

def ServerPc.ended : ServerPc → Bool
  | .returned | .threw _ => true
  | _ => false

/-- Nothing can happen any more but a failure. -/
def Still (response : Bytes) (s : State) : Prop :=
  (∀ n, stepClient s (.ok n) = none) ∧ ∀ n, stepServer response s (.ok n) = none

/-- A client that cannot go on waits for the server. -/
theorem client_waits (h : ∀ n, stepClient s (.ok n) = none) :
    s.client.ended = true ∨ s.client = .read ∧ s.responses.closed = false := by
  cases hpc : s.client with
  | returned | threw ec => exact .inl rfl
  | shutdown => exact absurd (h 0) (by simp [stepClient, hpc])
  | write left =>
      cases left with
      | nil => exact absurd (h 0) (by simp [stepClient, hpc])
      | cons b left =>
          have hwrite := s.requests.exists_write_some (List.cons_ne_nil b left)
          exact absurd (h 1) (by simp [stepClient, hpc, Option.isSome_iff_ne_none.mp hwrite])
  | read =>
      refine .inr ⟨rfl, ?_⟩
      have hstep := h 1
      simp only [stepClient, hpc] at hstep
      split at hstep
      · exact absurd hstep (by simp)
      · next hend =>
        rw [Option.map_eq_none_iff] at hstep
        exact s.responses.open_of_waits hend hstep

theorem server_waits (h : ∀ n, stepServer response s (.ok n) = none) :
    s.server.ended = true ∨ s.server = .read ∧ s.requests.closed = false := by
  cases hpc : s.server with
  | returned | threw ec => exact .inl rfl
  | shutdown => exact absurd (h 0) (by simp [stepServer, hpc])
  | write left =>
      cases left with
      | nil => exact absurd (h 0) (by simp [stepServer, hpc])
      | cons b left =>
          have hwrite := s.responses.exists_write_some (List.cons_ne_nil b left)
          exact absurd (h 1) (by simp [stepServer, hpc, Option.isSome_iff_ne_none.mp hwrite])
  | read =>
      refine .inr ⟨rfl, ?_⟩
      have hstep := h 1
      simp only [stepServer, hpc] at hstep
      split at hstep
      · exact absurd hstep (by simp)
      · next hend =>
        rw [Option.map_eq_none_iff] at hstep
        exact s.requests.open_of_waits hend hstep

/-- **Neither side is left waiting.** -/
theorem over_of_still (hi : Inv request response s) (h : Still response s) :
    s.client.ended = true ∧ s.server.ended = true := by
  have hserver : s.server.ended = true := by
    rcases server_waits h.2 with hover | ⟨-, hopen⟩
    · exact hover
    · -- the direction of the client is open, so the client is not past its shutdown
      have hsends := hi.client
      rcases client_waits h.1 with hover | ⟨hpc, -⟩
      · cases hpc : s.client <;> simp [hpc, ClientPc.ended] at hover <;>
          (rw [hpc] at hsends; exact absurd (hsends.2.symm.trans hopen) nofun)
      · rw [hpc] at hsends
        exact absurd (hsends.2.symm.trans hopen) nofun
  refine ⟨?_, hserver⟩
  rcases client_waits h.1 with hover | ⟨-, hopen⟩
  · exact hover
  · have hsends := hi.server
    cases hpc : s.server <;> simp [hpc, ServerPc.ended] at hserver <;>
      (rw [hpc] at hsends; exact absurd (hsends.2.symm.trans hopen) nofun)

theorem ClientStep.not_threw (h : ClientStep s o s') (ho : (Action.client o).fault = false)
    (hi : ∀ ec, s.client ≠ .threw ec) : ∀ ec, s'.client ≠ .threw ec := by
  cases h with
  | throws _ => exact absurd ho nofun
  | read _ _ => exact hi
  | _ => exact fun _ => nofun

theorem ServerStep.not_threw (h : ServerStep response s o s') (ho : (Action.server o).fault = false)
    (hi : ∀ ec, s.server ≠ .threw ec) : ∀ ec, s'.server ≠ .threw ec := by
  cases h with
  | throws _ => exact absurd ho nofun
  | read _ _ => exact hi
  | _ => exact fun _ => nofun

/-- Without a failure no side throws. -/
theorem not_threw (h : (exchange request response).ReachableUnder (fun _ a => a.fault = false) s) :
    (∀ ec, s.client ≠ .threw ec) ∧ ∀ ec, s.server ≠ .threw ec := by
  refine h.invariant
    (P := fun s => (∀ ec, s.client ≠ .threw ec) ∧ ∀ ec, s.server ≠ .threw ec) ?_ ?_
  · exact ⟨fun _ => nofun, fun _ => nofun⟩
  · intro s a s' _ hi hok hs
    cases a with
    | client o =>
        have hstep := stepClient_inv hs
        refine ⟨hstep.not_threw hok hi.1, ?_⟩
        cases hstep <;> exact hi.2
    | server o =>
        have hstep := stepServer_inv hs
        refine ⟨?_, hstep.not_threw hok hi.2⟩
        cases hstep <;> exact hi.1

/-- How a run of the exchange ends. -/
structure Completes (request response : Bytes) (as : List Action) (s : State) : Prop where
  /-- It is over after a bounded number of steps. -/
  bounded : as.length ≤ 2 * (request.length + response.length) + 6
  /-- Where nothing but a failure can happen any more, both sides have come to their end. -/
  ended : Still response s → s.client.ended = true ∧ s.server.ended = true
  /-- Then, without a failure, both have returned with the whole message. -/
  whole : Still response s → (∀ a ∈ as, a.fault = false) →
    s.client = .returned ∧ s.response_buf = response ∧
      s.server = .returned ∧ s.request_buf = request

/-- **The exchange completes**, for any two messages, in any portions and any interleaving. -/
theorem exchange_completes {as : List Action}
    (he : (exchange request response).exec (exchange request response).init as = some s) :
    Completes request response as s := by
  have hr := TransitionSystem.reachable_of_exec he
  have hi := reachable_inv hr
  refine ⟨?_, over_of_still hi, ?_⟩
  · have hle := (potential request response).countP_le .init (fun _ _ => trivial) he
    have hinit : (exchange request response).init.cost request response =
        2 * (request.length + response.length) + 6 := by
      simp only [exchange, State.init, State.cost, ClientPc.cost, ServerPc.cost, Pipe.new,
        Nat.sub_zero]
      omega
    simp only [List.countP_true, List.map_const', List.sum_replicate_nat, Nat.mul_zero, hinit] at hle
    omega
  · intro hstill hok
    obtain ⟨hclient, hserver⟩ := over_of_still hi hstill
    obtain ⟨hcalm, hcalm'⟩ := not_threw (TransitionSystem.reachableUnder_of_exec
      TransitionSystem.ReachableUnder.init hok he)
    have hreturned : s.client = .returned := by
      cases hpc : s.client with
      | returned => rfl
      | threw ec => exact absurd hpc (hcalm ec)
      | _ => rw [hpc] at hclient; exact absurd hclient Bool.false_ne_true
    have hreturned' : s.server = .returned := by
      cases hpc : s.server with
      | returned => rfl
      | threw ec => exact absurd hpc (hcalm' ec)
      | _ => rw [hpc] at hserver; exact absurd hserver Bool.false_ne_true
    refine ⟨hreturned, ?_, hreturned', ?_⟩
    · rcases hi.response_whole hreturned with hall | ⟨ec, hthrew, -⟩
      · exact hall
      · exact absurd hthrew (hcalm' ec)
    · rcases hi.request_whole (by rw [hreturned']; rfl) with hall | ⟨ec, hthrew, -⟩
      · exact hall
      · exact absurd hthrew (hcalm ec)

theorem exchange_completes_inPortions :
    Completes communicate.request_buf processRequest.response_buf inPortions exchanged :=
  exchange_completes inPortions_exec

end AsioStudy.Shutdown
