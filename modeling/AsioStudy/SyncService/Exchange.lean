import AsioStudy.Core.Termination
import AsioStudy.SyncService.Session

/-!
# AsioStudy.SyncService.Exchange

What one client and its service achieve. The newline is the last byte of the request and of
the response, so whoever has seen it has the whole text (`IsLine.eq_of_mem`), and
whoever waits for it has not been sent the whole text yet.
-/

namespace AsioStudy.SyncService

variable {x y : Session} {o : Pipe.Outcome} {a : SessionAction} {duration_sec : UInt32}

/-! ### The texts -/

theorem isLine_request (duration_sec : UInt32) : IsLine (SyncTcpClient.request duration_sec) :=
  isLine_number (by decide) duration_sec.toNat

theorem isLine_response : IsLine HandleClient.response := ⟨bytes "Response", by decide, by decide⟩

/-- What the client makes of the response. -/
theorem line_response : Session.line HandleClient.response = bytes "Response" := by decide

/-! ### Safety -/

/-- What the client has still to write, by where it is. -/
def ClientPc.writer : ClientPc → Pipe.Writer
  | .sendRequest left => .writing left
  | .receiveResponse | .close _ => .writing []
  | .returned _ => .finished
  | .threw _ => .broken

/-- What the service has still to write, by where it is. -/
def HandlePc.writer : HandlePc → Pipe.Writer
  | .waiting | .read => .writing HandleClient.response
  | .write left => .writing left
  | .ended => .broken

/-- The client has taken this line for the response. -/
def ClientPc.got : ClientPc → Option Bytes
  | .close response | .returned response => some response
  | _ => none

structure Inv (duration_sec : UInt32) (x : Session) : Prop where
  duration : x.duration_sec = duration_sec
  client : x.requests.Carries (SyncTcpClient.request duration_sec) x.client.writer
  service : x.responses.Carries HandleClient.response x.service.writer
  request : x.request = x.requests.received
  buf : x.buf = x.responses.received
  /-- The service answers when it has seen a newline. -/
  answers : ∀ left, x.service = .write left → LF ∈ x.request
  answered : x.responses.sent ≠ [] → LF ∈ x.request
  /-- So does the client take a response. -/
  got : ∀ response, x.client.got = some response → LF ∈ x.buf ∧ response = Session.line x.buf

theorem ClientStep.inv (h : ClientStep x o y) (hi : Inv duration_sec x) : Inv duration_sec y := by
  obtain ⟨hduration, hclient, hservice, hrequest, hbuf, hanswers, hanswered, hgot⟩ := hi
  cases h with
  | throws _ | eof _ _ _ =>
      exact ⟨hduration, hclient.abort, hservice, hrequest, hbuf, hanswers, hanswered,
        fun _ hnone => absurd hnone (by simp [Session.clientThrows, ClientPc.got])⟩
  | sent hpc =>
      rw [hpc] at hclient
      exact ⟨hduration, hclient, hservice, hrequest, hbuf, hanswers, hanswered, nofun⟩
  | write hpc hwrite =>
      rw [hpc] at hclient
      obtain ⟨-, -, -, -, -, hreceived⟩ := Pipe.write_some_eq_some hwrite
      exact ⟨hduration, hclient.write_some hwrite, hservice, hrequest.trans hreceived.symm, hbuf,
        hanswers, hanswered, nofun⟩
  | received hpc hmem =>
      rw [hpc] at hclient
      refine ⟨hduration, hclient, hservice, hrequest, hbuf, hanswers, hanswered, ?_⟩
      intro response hresponse
      exact ⟨hmem, (Option.some.inj hresponse).symm⟩
  | read hpc hmem hread =>
      obtain ⟨-, hsent, hclosed, -, hreceived⟩ := Pipe.read_some_eq_some hread
      refine ⟨hduration, hclient, hservice.congr hsent hclosed, hrequest, ?_, hanswers, ?_, ?_⟩
      · rw [hreceived, hbuf]
      · rw [hsent]
        exact hanswered
      · intro response hresponse
        exact absurd hresponse (by simp [hpc, ClientPc.got])
  | close hpc =>
      rw [hpc] at hclient hgot
      exact ⟨hduration, hclient.close, hservice, hrequest, hbuf, hanswers, hanswered, hgot⟩

theorem ServiceStep.inv (h : ServiceStep x o y) (hi : Inv duration_sec x) : Inv duration_sec y := by
  obtain ⟨hduration, hclient, hservice, hrequest, hbuf, hanswers, hanswered, hgot⟩ := hi
  cases h with
  | throws _ | eof _ _ _ =>
      exact ⟨hduration, hclient, hservice.abort, hrequest, hbuf, nofun, hanswered, hgot⟩
  | received hpc hmem =>
      rw [hpc] at hservice
      exact ⟨hduration, hclient, hservice, hrequest, hbuf, fun _ _ => hmem, fun _ => hmem, hgot⟩
  | read hpc hmem hread =>
      obtain ⟨-, hsent, hclosed, -, hreceived⟩ := Pipe.read_some_eq_some hread
      refine ⟨hduration, hclient.congr hsent hclosed, hservice, ?_, hbuf, ?_, ?_, hgot⟩
      · rw [hreceived, hrequest]
      · intro left hleft
        exact absurd (hpc.symm.trans hleft) nofun
      · intro hne
        exact absurd (hanswered hne) hmem
  | written hpc =>
      rw [hpc] at hservice
      exact ⟨hduration, hclient, hservice.abort, hrequest, hbuf, nofun, hanswered, hgot⟩
  | write hpc hwrite =>
      rw [hpc] at hservice
      obtain ⟨-, -, -, -, -, hreceived⟩ := Pipe.write_some_eq_some hwrite
      exact ⟨hduration, hclient, hservice.write_some hwrite, hrequest, hbuf.trans hreceived.symm,
        fun _ _ => hanswers _ hpc, fun _ => hanswers _ hpc, hgot⟩

theorem SessionStep.inv (h : SessionStep x a y) (hi : Inv duration_sec x) : Inv duration_sec y := by
  cases h with
  | client h => exact h.inv hi
  | service h => exact h.inv hi
  | serve hwaiting =>
      have hservice := hi.service
      rw [hwaiting] at hservice
      exact ⟨hi.duration, hi.client, hservice, hi.request, hi.buf, nofun, hi.answered, hi.got⟩
  | drop hwaiting =>
      exact ⟨hi.duration, hi.client, hi.service.abort, hi.request, hi.buf, nofun, hi.answered,
        hi.got⟩

theorem session_inv (h : (session duration_sec).Reachable x) : Inv duration_sec x := by
  refine h.invariant (P := Inv duration_sec) ?_ ?_
  · exact ⟨rfl, Pipe.new_carries _, Pipe.new_carries _, rfl, rfl, nofun,
      fun hne => absurd rfl hne, nofun⟩
  · intro x a y _ hi hs
    exact (stepSession_inv hs).inv hi

/-- A service that has seen a newline has the request. -/
theorem Inv.request_of_mem (hi : Inv duration_sec x) (hmem : LF ∈ x.request) :
    x.request = SyncTcpClient.request duration_sec := by
  refine (isLine_request duration_sec).eq_of_mem ?_ hmem
  rw [hi.request]
  exact x.requests.received_isPrefix.trans hi.client.isPrefix

theorem Inv.buf_of_mem (hi : Inv duration_sec x) (hmem : LF ∈ x.buf) :
    x.buf = HandleClient.response := by
  refine isLine_response.eq_of_mem ?_ hmem
  rw [hi.buf]
  exact x.responses.received_isPrefix.trans hi.service.isPrefix

/-- **A client that has got a response has got the response to its request.** -/
theorem Inv.response (hi : Inv duration_sec x) {response : Bytes}
    (hgot : x.client.got = some response) :
    response = bytes "Response" ∧ x.request = SyncTcpClient.request duration_sec := by
  obtain ⟨hmem, rfl⟩ := hi.got _ hgot
  have hbuf := hi.buf_of_mem hmem
  refine ⟨by rw [hbuf, line_response], hi.request_of_mem (hi.answered ?_)⟩
  -- what the client has read was sent
  intro hnil
  have hreceived := x.responses.received_isPrefix
  rw [hnil, ← hi.buf, hbuf] at hreceived
  exact absurd hreceived (by decide)

/-! ### The steps that are left -/

/-- The steps the client still takes on its own account. -/
def ClientPc.cost : ClientPc → Nat
  | .sendRequest left => left.length + 3
  | .receiveResponse => 2
  | .close _ => 1
  | .returned _ | .threw _ => 0

def HandlePc.cost : HandlePc → Nat
  | .waiting | .read => HandleClient.response.length + 2
  | .write left => left.length + 1
  | .ended => 0

/-- The steps that are left: those of both sides, and a read for each byte not yet read. -/
def Session.cost (x : Session) : Nat :=
  x.client.cost + x.service.cost +
    ((SyncTcpClient.request x.duration_sec).length - x.requests.taken) +
    (HandleClient.response.length - x.responses.taken)

theorem ClientStep.cost (h : ClientStep x o y) (hi : Inv duration_sec x) :
    y.cost + 1 ≤ x.cost := by
  cases h with
  | @throws ec hbusy =>
      have hpos : 1 ≤ x.client.cost := by
        cases hpc : x.client <;> simp [hpc, Session.clientBusy, ClientPc.cost] at hbusy ⊢
      have hthrew : (ClientPc.threw ec).cost = 0 := rfl
      simp only [Session.cost, Session.clientThrows, Pipe.close_taken, hthrew]
      omega
  | sent hpc =>
      simp only [Session.cost, hpc, ClientPc.cost, List.length_nil]
      omega
  | write hpc hwrite =>
      obtain ⟨hpos, hlen, -, -, htaken, -⟩ := Pipe.write_some_eq_some hwrite
      simp only [Session.cost, hpc, ClientPc.cost, htaken]
      omega
  | received hpc _ =>
      simp only [Session.cost, hpc, ClientPc.cost]
      omega
  | eof hpc _ _ =>
      simp only [Session.cost, Session.clientThrows, hpc, ClientPc.cost, Pipe.close_taken]
      omega
  | @read n data responses hpc _ hread =>
      obtain ⟨hpos, hsent, -, htaken, -⟩ := Pipe.read_some_eq_some hread
      have hall := hi.service.isPrefix.length_le
      have hle := responses.taken_le
      rw [hsent, htaken] at hle
      simp only [Session.cost, htaken]
      omega
  | close hpc =>
      simp only [Session.cost, hpc, ClientPc.cost, Pipe.close_taken]
      omega

theorem ServiceStep.cost (h : ServiceStep x o y) (hi : Inv duration_sec x) :
    y.cost + 1 ≤ x.cost := by
  cases h with
  | throws hbusy =>
      have hpos : 1 ≤ x.service.cost := by
        cases hpc : x.service <;> simp [hpc, Session.serviceBusy, HandlePc.cost] at hbusy ⊢
      have hended : HandlePc.ended.cost = 0 := rfl
      simp only [Session.cost, Session.drop, Pipe.close_taken, hended]
      omega
  | received hpc _ =>
      simp only [Session.cost, hpc, HandlePc.cost]
      omega
  | eof hpc _ _ =>
      simp only [Session.cost, Session.drop, hpc, HandlePc.cost, Pipe.close_taken]
      omega
  | @read n data requests hpc _ hread =>
      obtain ⟨hpos, hsent, -, htaken, -⟩ := Pipe.read_some_eq_some hread
      have hall := hi.client.isPrefix.length_le
      have hle := requests.taken_le
      rw [hsent, htaken] at hle
      have hduration := hi.duration
      subst hduration
      simp only [Session.cost, htaken]
      omega
  | written hpc =>
      simp only [Session.cost, Session.drop, hpc, HandlePc.cost, Pipe.close_taken, List.length_nil]
      omega
  | write hpc hwrite =>
      obtain ⟨hpos, hlen, -, -, htaken, -⟩ := Pipe.write_some_eq_some hwrite
      simp only [Session.cost, hpc, HandlePc.cost, htaken]
      omega

theorem Session.cost_drop_le (x : Session) : x.drop.cost ≤ x.cost := by
  simp only [Session.cost, Session.drop, HandlePc.cost, Pipe.close_taken]
  omega

/-- A request has at most 32 bytes. -/
theorem Session.cost_new_le (duration_sec : UInt32) : (Session.new duration_sec).cost ≤ 87 := by
  have hlen : (SyncTcpClient.request duration_sec).length ≤ 32 := by
    have hverb : (bytes "EMULATE_LONG_COMP_OP ").length = 21 := by decide
    have hend : (bytes "\n").length = 1 := by decide
    have hle := length_to_string_le duration_sec
    rw [SyncTcpClient.request, List.length_append, List.length_append]
    omega
  have hresponse : HandleClient.response.length = 9 := by decide
  simp only [Session.cost, Session.new, ClientPc.cost, HandlePc.cost, Pipe.new, hresponse]
  omega

/-! ### Completion -/

def ClientPc.ended : ClientPc → Bool
  | .returned _ | .threw _ => true
  | _ => false

/-- A client that cannot go on waits for bytes that have not been written. -/
theorem client_waits (h : ∀ n, stepClient x (.ok n) = none) :
    x.client.ended = true ∨ x.client = .receiveResponse ∧ LF ∉ x.buf ∧
      x.responses.closed = false ∧ x.responses.received = x.responses.sent := by
  cases hpc : x.client with
  | returned response | threw ec => exact .inl rfl
  | close response => exact absurd (h 0) (by simp [stepClient, hpc])
  | sendRequest left =>
      cases left with
      | nil => exact absurd (h 0) (by simp [stepClient, hpc])
      | cons b left =>
          have hwrite := x.requests.exists_write_some (List.cons_ne_nil b left)
          exact absurd (h 1) (by simp [stepClient, hpc, Option.isSome_iff_ne_none.mp hwrite])
  | receiveResponse =>
      have hstep := h 1
      simp only [stepClient, hpc] at hstep
      split at hstep
      · exact absurd hstep (by simp)
      · next hmem =>
        split at hstep
        · exact absurd hstep (by simp)
        · next hend =>
          rw [Option.map_eq_none_iff] at hstep
          exact .inr ⟨rfl, fun hin => hmem (List.contains_iff_mem.mpr hin),
            x.responses.open_of_waits hend hstep, x.responses.received_of_waits hstep⟩

theorem service_waits (h : ∀ n, stepService x (.ok n) = none) :
    x.service = .waiting ∨ x.service = .ended ∨ x.service = .read ∧ LF ∉ x.request ∧
      x.requests.closed = false ∧ x.requests.received = x.requests.sent := by
  cases hpc : x.service with
  | waiting => exact .inl rfl
  | ended => exact .inr (.inl rfl)
  | write left =>
      cases left with
      | nil => exact absurd (h 0) (by simp [stepService, hpc])
      | cons b left =>
          have hwrite := x.responses.exists_write_some (List.cons_ne_nil b left)
          exact absurd (h 1) (by simp [stepService, hpc, Option.isSome_iff_ne_none.mp hwrite])
  | read =>
      have hstep := h 1
      simp only [stepService, hpc] at hstep
      split at hstep
      · exact absurd hstep (by simp)
      · next hmem =>
        split at hstep
        · exact absurd hstep (by simp)
        · next hend =>
          rw [Option.map_eq_none_iff] at hstep
          exact .inr (.inr ⟨rfl, fun hin => hmem (List.contains_iff_mem.mpr hin),
            x.requests.open_of_waits hend hstep, x.requests.received_of_waits hstep⟩)

/-- **No service waits for ever**, and no client of a service that was called. -/
theorem Inv.ended_of_still (hi : Inv duration_sec x) (hclient : ∀ n, stepClient x (.ok n) = none)
    (hservice : ∀ n, stepService x (.ok n) = none) (hcalled : x.service ≠ .waiting) :
    x.service = .ended ∧ x.client.ended = true := by
  have hended : x.service = .ended := by
    rcases service_waits hservice with hwaiting | hended | ⟨-, hmem, hopen, hall⟩
    · exact absurd hwaiting hcalled
    · exact hended
    · have hsends := hi.client
      rcases client_waits hclient with hended | ⟨hpc, -, -, -⟩
      · -- the client has closed its direction
        cases hpc : x.client <;> simp [hpc, ClientPc.ended] at hended <;>
          (rw [hpc] at hsends; exact absurd (hsends.2.symm.trans hopen) (by simp))
      · -- the client has sent the newline
        rw [hpc] at hsends
        have hsent : x.request = SyncTcpClient.request duration_sec := by
          rw [hi.request, hall]
          simpa using hsends.1
        exact absurd (hsent ▸ (isLine_request duration_sec).mem) hmem
  refine ⟨hended, ?_⟩
  rcases client_waits hclient with hended' | ⟨-, -, hopen, -⟩
  · exact hended'
  · have hsends := hi.service
    rw [hended] at hsends
    exact absurd (hsends.2.symm.trans hopen) (by simp)

/-! ### Without a failure -/

/-- A call of one side fails, or the service is never called. -/
def SessionAction.fault : SessionAction → Bool
  | .client (.fails _) | .service (.fails _) | .drop => true
  | _ => false

/-- Neither side has failed. -/
structure Calm (x : Session) : Prop where
  client : ∀ ec, x.client ≠ .threw ec
  service : x.service = .ended → x.responses.sent = HandleClient.response

theorem ClientStep.calm (h : ClientStep x o y) (hi : Inv duration_sec x) (hc : Calm x)
    (ho : (SessionAction.client o).fault = false) : Calm y := by
  cases h with
  | throws _ => exact absurd ho (by simp [SessionAction.fault])
  | eof hpc hmem hend =>
      -- the service has ended, so all of the response was sent, and the client has read it
      obtain ⟨hclosed, hall⟩ := Pipe.received_of_atEnd hend
      have hsends := hi.service
      cases hservice : x.service with
      | ended =>
          rw [hi.buf, hall, hc.service hservice] at hmem
          exact absurd isLine_response.mem hmem
      | _ =>
          rw [hservice] at hsends
          exact absurd (hsends.2.symm.trans hclosed) (by simp)
  | read hpc _ hread =>
      obtain ⟨-, hsent, -, -, -⟩ := Pipe.read_some_eq_some hread
      refine ⟨hc.client, ?_⟩
      intro hended
      rw [hsent]
      exact hc.service hended
  | _ => exact ⟨by simp, hc.service⟩

theorem ServiceStep.calm (h : ServiceStep x o y) (hi : Inv duration_sec x) (hc : Calm x)
    (ho : (SessionAction.service o).fault = false) : Calm y := by
  cases h with
  | throws _ => exact absurd ho (by simp [SessionAction.fault])
  | eof hpc hmem hend =>
      -- the client has closed its direction, so it has got a response, but none was sent
      obtain ⟨hclosed, -⟩ := Pipe.received_of_atEnd hend
      have hsends := hi.client
      cases hclient : x.client with
      | threw ec => exact absurd hclient (hc.client ec)
      | returned response =>
          have hrequest := (hi.response (by rw [hclient]; rfl)).2
          rw [hrequest] at hmem
          exact absurd (isLine_request duration_sec).mem hmem
      | _ =>
          rw [hclient] at hsends
          exact absurd (hsends.2.symm.trans hclosed) (by simp)
  | written hpc =>
      have hsends := hi.service
      rw [hpc] at hsends
      refine ⟨hc.client, ?_⟩
      intro _
      show x.responses.sent = HandleClient.response
      simpa using hsends.1
  | read hpc _ _ => exact ⟨hc.client, fun hended => absurd (hpc.symm.trans hended) (by simp)⟩
  | received _ _ | write _ _ => exact ⟨hc.client, by simp⟩

theorem SessionStep.calm (h : SessionStep x a y) (hi : Inv duration_sec x) (hc : Calm x)
    (ha : a.fault = false) : Calm y := by
  cases h with
  | client h => exact h.calm hi hc ha
  | service h => exact h.calm hi hc ha
  | serve _ => exact ⟨hc.client, by simp⟩
  | drop _ => exact absurd ha (by simp [SessionAction.fault])

/-- **Without a failure the client returns the response.** -/
theorem Calm.returned (hc : Calm x) (hi : Inv duration_sec x) (hended : x.client.ended = true) :
    x.client = .returned (bytes "Response") := by
  cases hpc : x.client with
  | threw ec => exact absurd hpc (hc.client ec)
  | returned response =>
      have hgot : x.client.got = some response := by rw [hpc]; rfl
      rw [(hi.response hgot).1]
  | _ => exact absurd hended (by simp [hpc, ClientPc.ended])

end AsioStudy.SyncService
