import AsioStudy.Http.RoundTrip
import AsioStudy.HttpServer.Answers

/-!
# AsioStudy.Http.EndToEnd

The HTTP server at work for the HTTP client of this repository.

Each half is right by itself: the server takes from the request what the client has put into it
and answers it (`Connection.written_answer`), among any number of other connections; the client
reads the response to the end of its status line. The whole is not: the response is refused for
its first word (`Exchange.execute_refused`). `own_clients_refused` puts the halves together.
-/

namespace AsioStudy.Http

open HttpClient (HTTPRequest Exchange)
open HttpServer

/-! ### The client -/

section Client

variable {w : Exchange} {x : HTTPRequest} {chunks : List Bytes} {word rest tail : Bytes}

/-- The handler refuses a first word other than the version as an invalid response. -/
theorem on_status_line_received_refused {P : Platform} (hne : word ≠ [])
    (hword : ∀ c ∈ word, isspace c = false) (hversion : word ≠ bytes "HTTP/1.1")
    (hbuf : x.m_response.m_response_buf = word ++ SP :: tail) :
    HttpClient.on_status_line_received P x .success =
      (x.withBuf (SP :: tail), .on_finish HttpClient.invalid_response) := by
  have hfirst : (IStream.on (word ++ SP :: tail)).extract [] = (word, IStream.on (SP :: tail)) :=
    IStream.extract_token [] (by simp) hne hword isspace_SP []
  simp [HttpClient.on_status_line_received, hbuf, hfirst, hversion]

/-- The status-line stage is the last one then. -/
theorem read_status_line_refused (hne : word ≠ []) (hword : ∀ c ∈ word, isspace c = false)
    (hversion : word ≠ bytes "HTTP/1.1") (hrest : CR ∉ rest)
    (hall : x.m_response.m_response_buf ++ chunks.flatten = word ++ SP :: rest ++ CRLF ++ tail) :
    ∃ y, w.read_status_line x chunks = .callback y HttpClient.invalid_response := by
  have hfound : CRLF <:+: x.m_response.m_response_buf ++ chunks.flatten := by
    rw [hall]
    exact ⟨_, _, rfl⟩
  obtain ⟨buf, chunks', hread, hin, hall'⟩ := async_read_until_found none w.incoming.ending
    (fun _ => nofun) hfound
  have hcr : CR ∉ word ++ SP :: rest := by
    have hsp : ¬ CR = SP := by decide
    have hcr' : CR ∉ word := fun hm => absurd (hword CR hm) (by decide)
    simp [hcr', hsp, hrest]
  obtain ⟨more, rfl, -⟩ := split_at_delim hin (hall'.trans hall) (CRLF_not_infix_line hcr)
  have hbuf : (x.withBuf (word ++ SP :: rest ++ CRLF ++ more)).m_response.m_response_buf =
      word ++ SP :: (rest ++ CRLF ++ more) := by
    simp [HTTPRequest.withBuf]
  have hpart := on_status_line_received_refused (P := w.platform) hne hword hversion hbuf
  refine ⟨x.withBuf (SP :: (rest ++ CRLF ++ more)), ?_⟩
  simp only [Exchange.read_status_line, hread, Exchange.run, HttpClient.Stage.firstPart, hpart]
  rfl

/-- **The client refuses every response of the server** and says so. -/
theorem execute_refused {s₀ s : Service} {shutdown : Bool} {response_buffers : List Bytes}
    (hw : w.Undisturbed) (m_host m_uri : Bytes)
    (hsend : s₀.send_response shutdown = some (s, response_buffers))
    (htext : w.incoming.chunks.flatten = response_buffers.flatten) :
    ∃ y, w.execute (.new m_host m_uri) = .callback y HttpClient.invalid_response := by
  obtain ⟨status_line, tail, hlookup, hflat⟩ := send_response_text hsend
  obtain ⟨word, rest, hline, ⟨hne, hversion, hspace⟩, hcr⟩ := status_table_entry hlookup
  obtain ⟨x, hx, hexecute⟩ := Exchange.execute_undisturbed (x := .new m_host m_uri) hw
  have hall : x.m_response.m_response_buf ++ w.incoming.chunks.flatten =
      word ++ SP :: rest ++ CRLF ++ tail := by
    rw [hx, htext, hflat, hline]
    rfl
  rw [hexecute]
  exact read_status_line_refused hne hspace hversion hcr hall

end Client

/-! ### The server -/

/-- The conditions under which the text of a request says what the client means. -/
structure Sendable (uri host : Bytes) : Prop where
  nonempty : uri ≠ []
  uri_no_space : ∀ c ∈ uri, isspace c = false
  host_no_CR : CR ∉ host
  fits : (HTTPRequest.new host uri).written.length ≤ max_request

theorem host_fields {host : Bytes} (hcr : CR ∉ host) :
    RequestFields [(bytes "HOST", SP :: host)] := by
  intro field hf
  obtain rfl := List.mem_singleton.mp hf
  have hname : COLON ∉ bytes "HOST" ∧ CR ∉ bytes "HOST" := by decide
  have hsp : ¬ CR = SP := by decide
  exact ⟨hname.1, hname.2, by simp [hsp, hcr]⟩

/-- **The server answers what the client has asked for**: the file of that name decides. -/
theorem written_answer {c : Connection} {uri host : Bytes} (hsendable : Sendable uri host)
    (hshutdown : c.shutdown = true)
    (htext : c.incoming.chunks.flatten = (HTTPRequest.new host uri).written) :
    c.answer = fileAnswer c.platform uri (c.fs.entry (bytes "D:\\http_root" ++ uri)) := by
  have hreads := Connection.start_handling_text (w := c) hsendable.nonempty
    hsendable.uri_no_space (host_fields hsendable.host_no_CR) (by simp)
    (htext.trans (written_eq uri host)) (htext ▸ hsendable.fits)
  rw [← Connection.serve_eq_answer hshutdown, Connection.serve_eq, hreads]
  exact Connection.process_request_answer hshutdown rfl rfl

/-! ### Together -/

/-- What has become of a connection on which the client has asked for `uri`. -/
structure Refused (c : Connection) (uri host : Bytes)
    (o : AsyncObject Op Point ServiceData) : Prop where
  /-- One response has been sent, the one the file calls for, and the service is gone. -/
  deleted : o.deleted = 1
  answered : ∃ call response_buffers, o.data.sends = [call] ∧
    call.response_buffers = some response_buffers ∧
    fileAnswer c.platform uri (c.fs.entry (bytes "D:\\http_root" ++ uri)) =
      some (.response call.service.m_response_status_code uri) ∧
    -- however it reaches the client, and whether or not the stream ends behind it
    ∀ e : Exchange, e.Undisturbed → e.incoming.chunks.flatten = response_buffers.flatten →
      ∃ y, e.execute (.new host uri) = .callback y HttpClient.invalid_response

variable {w : World} {thread_pool_size : Nat} {s : Online}

/-- **The two programs do not work together.** Where the handlers of the server have nothing more
to do, every connection on which the client has sent a request has been given the response to
that request, whatever the other connections bring; and the client refuses it. -/
theorem own_clients_refused (hpool : 0 < thread_pool_size)
    (h : (online w thread_pool_size).Reachable s) (hstill : OnlineStill w thread_pool_size s)
    (hgoes : s.server.iosStopped = false) (hfine : s.Fine) {j : Nat}
    {x : AsyncServer.Served Op Point ServiceData} (hx : s.server.services[j]? = some x)
    {uri host : Bytes} (hsendable : Sendable uri host)
    (htext : (w.incoming j).chunks.flatten = (HTTPRequest.new host uri).written) :
    Refused (w.connection j) uri host x.service := by
  have hmem := List.mem_of_getElem? hx
  have hserves := (online_allServed h j).2 x hx
  have hreach := AsyncServer.reachable_service (online_server h) x hmem
  have hrunning := (AsyncServer.State.running_eq_zero.mp (online_running hstill)).2 x hmem
  have hanswered := hserves.answered rfl hreach (hfine x hmem)
  obtain ⟨answer, hanswer, hsettled⟩ := hserves.settled hreach rfl (hfine x hmem) hrunning (by
    intro op hop ec
    have hfirst : x.service.pending[0]? = some op := by rw [hop]; rfl
    exact transferred_of_still hstill hgoes hpool hx hfirst ec)
  rw [written_answer hsendable rfl htext] at hanswer
  obtain ⟨code, rfl⟩ := fileAnswer_response hanswer
  obtain ⟨hdeleted, call, hsends, hcode, -⟩ := hsettled
  obtain ⟨s', response_buffers, hbuffers, hserve⟩ := hanswered.buffers call (by simp [hsends])
  obtain ⟨s₀, hsend⟩ := Connection.serve_responds hserve
  refine ⟨hdeleted, call, response_buffers, hsends, hbuffers, hcode ▸ hanswer, ?_⟩
  intro e he hreceived
  exact execute_refused he host uri hsend hreceived

/-- Two clients: the first one is the client of this repository, its request comes in two
portions; the other one closes. -/
def ownClient : World where
  platform := .llp64
  fs _ := .absent
  incoming j :=
    if j = 0 then ⟨[(HTTPRequest.new (bytes "h") (bytes "/a")).written.take 9,
      (HTTPRequest.new (bytes "h") (bytes "/a")).written.drop 9], .silent⟩
    else ⟨[], .eof⟩

theorem ownClient_exec :
    ((online ownClient 2).exec (online ownClient 2).init twoClientsRun).map
      (fun s => (s.server.onAccept, s.server.iosStopped, s.server.services.map fun x =>
        (x.service.deleted, x.service.threw, x.service.undefined))) =
      some ([], false, [(1, 0, 0), (1, 0, 0)]) := by
  decide

theorem own_clients_refused_ownClient :
    ∃ s, (online ownClient 2).exec (online ownClient 2).init twoClientsRun = some s ∧
      ∃ x, s.server.services[0]? = some x ∧
        Refused (ownClient.connection 0) (bytes "/a") (bytes "h") x.service := by
  obtain ⟨s, hs, he⟩ := Option.map_eq_some_iff.mp ownClient_exec
  obtain ⟨honAccept, he⟩ := Prod.mk.inj he
  obtain ⟨hgoes, he⟩ := Prod.mk.inj he
  have hr := TransitionSystem.reachable_of_exec hs
  have hends : ∀ x ∈ s.server.services,
      x.service.deleted = 1 ∧ x.service.threw = 0 ∧ x.service.undefined = 0 := by
    intro x hx
    have hmem := List.mem_map_of_mem (f := fun x : AsyncServer.Served Op Point ServiceData =>
      (x.service.deleted, x.service.threw, x.service.undefined)) hx
    rw [he] at hmem
    simpa using hmem
  obtain ⟨x, hx⟩ : ∃ x, s.server.services[0]? = some x := by
    cases hservices : s.server.services with
    | nil => simp [hservices] at he
    | cons x xs => exact ⟨x, rfl⟩
  exact ⟨s, hs, x, hx, own_clients_refused (by decide) hr
    (still_of_gone hr honAccept fun x hx => (hends x hx).1) hgoes
    (fun x hx => ⟨(hends x hx).2.1, (hends x hx).2.2⟩) hx
    ⟨by decide, no_space_of_all (by decide), by decide, by decide⟩ (by decide)⟩

end AsioStudy.Http
