import AsioStudy.HttpClient.Exchange
import AsioStudy.HttpServer.Request

/-!
# AsioStudy.Http.RoundTrip

The HTTP client and the HTTP server of this repository, face to face. What the client
writes the server reads back as it was meant exactly when the resource has no white space
and the host no CR (`request_round_trip`). The converse direction does not look at how the
framing breaks: a stored resource never has white space and a stored header value never a
CR, whatever arrives.

In the other direction there is no agreement at all (`response_never_agrees`): the server
writes its status line without a space after the version, and the client compares the whole
first word.
-/

namespace AsioStudy.Http

open HttpClient (HTTPRequest Exchange)
open HttpServer (Service Connection)

/-! ### Requests -/

/-- What the client writes is a request line and one header field. -/
theorem written_eq (uri host : Bytes) :
    (HTTPRequest.new host uri).written = HttpServer.request_line uri ++ CRLF ++
      (HttpServer.field_block [(bytes "HOST", SP :: host)] ++ CRLF) := by
  have hversion : bytes " HTTP/1.1\r\n" = bytes " HTTP/1.1" ++ CRLF := by decide
  have hhost : bytes "HOST: " = bytes "HOST" ++ COLON :: [SP] := by decide
  have hwritten : (HTTPRequest.new host uri).written = HttpClient.request_text uri host := rfl
  rw [hwritten]
  simp [HttpClient.request_text, HttpServer.request_line, HttpServer.field_block,
    HttpServer.field_line, line_block, hversion, hhost]

/-- The server enters `process_request` with this resource and this `HOST` header. -/
def ReadsBack (w : Connection) (uri host : Bytes) : Prop :=
  ∃ s, w.start_handling = .process_request s ∧ s.m_requested_resource = uri ∧
    s.m_request_headers = StdMap.empty.insert (bytes "HOST") (SP :: host)

/-- **Request round trip.** However the text of a request is divided into reads, and
whatever follows it, the server reads the resource and the host back if and only if the
resource has no white space and the host no CR. -/
theorem request_round_trip (w : Connection) (uri host : Bytes) (huri : uri ≠ [])
    (hlen : (HTTPRequest.new host uri).written.length ≤ HttpServer.max_request)
    (htext : w.incoming.chunks.flatten = (HTTPRequest.new host uri).written) :
    ReadsBack w uri host ↔ (∀ c ∈ uri, isspace c = false) ∧ CR ∉ host := by
  constructor
  · rintro ⟨s, hreads, rfl, hheaders⟩
    obtain ⟨hspace, hvalues⟩ := Connection.process_request_clean hreads
    refine ⟨hspace, ?_⟩
    intro hcr
    have hhost : s.m_request_headers (bytes "HOST") = some (SP :: host) := by
      rw [hheaders, StdMap.insert_apply, if_pos rfl]
    exact hvalues _ _ hhost (List.mem_cons_of_mem _ hcr)
  · rintro ⟨hspace, hcr⟩
    have hfields : HttpServer.RequestFields [(bytes "HOST", SP :: host)] := by
      intro field hf
      obtain rfl := List.mem_singleton.mp hf
      have hname : COLON ∉ bytes "HOST" ∧ CR ∉ bytes "HOST" := by decide
      have hne : ¬ CR = SP := by decide
      exact ⟨hname.1, hname.2, by simp [hne, hcr]⟩
    have hreads := Connection.start_handling_text (w := w) huri hspace hfields (by simp)
      (htext.trans (written_eq uri host)) (htext ▸ hlen)
    exact ⟨_, hreads, rfl, rfl⟩

/-- A connection on which these chunks arrive and nothing more. -/
def sampleConnection (chunks : List Bytes) : Connection where
  platform := .llp64
  fs := fun _ => .absent
  incoming := ⟨chunks, .silent⟩
  shutdown := true

/-- A host with a port and a LF in it is read back. -/
theorem request_round_trip_sample :
    ReadsBack (sampleConnection [(HTTPRequest.new (bytes "h:80\n") (bytes "/a")).written])
      (bytes "/a") (bytes "h:80\n") :=
  (request_round_trip _ (bytes "/a") (bytes "h:80\n") (by decide) (by decide)
    (List.append_nil _)).mpr ⟨no_space_of_all (by decide), by decide⟩

/-! ### Responses -/

/-- The client reports success and sees what service `s` has sent: the same status code, the
same header lines and the same body. -/
def Agrees (s : Service) (o : HttpClient.Outcome) : Prop :=
  ∃ y ec lines, o = .callback y ec ∧ ec.value = 0 ∧
    y.m_response.m_status_code = some s.m_response_status_code ∧
    s.m_response_headers = line_block lines ++ CRLF ∧
    y.m_response.m_headers = HttpClient.headerMap lines ∧
    y.m_response.m_response_buf = (s.m_resource_buffer.getD []).take s.m_resource_size_bytes

/-- The status code of every entry of the table is run together with the version. -/
theorem status_table_entry {code : UInt32} {status_line : Bytes}
    (h : Service.http_status_table.lookup code = some status_line) :
    ∃ word rest, bytes "HTTP/1.1" ++ status_line = word ++ SP :: rest ∧
      (word ≠ [] ∧ word ≠ bytes "HTTP/1.1" ∧ ∀ c ∈ word, isspace c = false) ∧ CR ∉ rest := by
  obtain ⟨before, after, htable, -⟩ := List.lookup_eq_some_iff.mp h
  have hmem : (code, status_line) ∈ Service.http_status_table := by
    rw [htable]
    exact List.mem_append_right _ List.mem_cons_self
  simp only [Service.http_status_table, List.mem_cons, Prod.mk.injEq, List.not_mem_nil,
    or_false] at hmem
  rcases hmem with ⟨-, rfl⟩ | ⟨-, rfl⟩ | ⟨-, rfl⟩ | ⟨-, rfl⟩ | ⟨-, rfl⟩ | ⟨-, rfl⟩
  · exact ⟨bytes "HTTP/1.1200", bytes "OK", by decide,
      ⟨by decide, by decide, no_space_of_all (by decide)⟩, by decide⟩
  · exact ⟨bytes "HTTP/1.1404", bytes "Not Found", by decide,
      ⟨by decide, by decide, no_space_of_all (by decide)⟩, by decide⟩
  · exact ⟨bytes "HTTP/1.1413", bytes "Request Entity Too Large", by decide,
      ⟨by decide, by decide, no_space_of_all (by decide)⟩, by decide⟩
  · exact ⟨bytes "HTTP/1.1500", bytes "Server Error", by decide,
      ⟨by decide, by decide, no_space_of_all (by decide)⟩, by decide⟩
  · exact ⟨bytes "HTTP/1.1501", bytes "Not Implemented", by decide,
      ⟨by decide, by decide, no_space_of_all (by decide)⟩, by decide⟩
  · exact ⟨bytes "HTTP/1.1505", bytes "HTTP Version Not Supported", by decide,
      ⟨by decide, by decide, no_space_of_all (by decide)⟩, by decide⟩

/-- What is sent begins with the status line. -/
theorem send_response_text {s₀ s : Service} {shutdown : Bool} {response_buffers : List Bytes}
    (h : s₀.send_response shutdown = some (s, response_buffers)) :
    ∃ status_line tail, Service.http_status_table.lookup s₀.m_response_status_code =
        some status_line ∧
      response_buffers.flatten = bytes "HTTP/1.1" ++ status_line ++ CRLF ++ tail := by
  unfold Service.send_response at h
  split at h
  · obtain ⟨status_line, hlookup, he⟩ := Option.map_eq_some_iff.mp h
    obtain ⟨-, rfl⟩ := Prod.mk.inj he
    refine ⟨status_line, (s₀.m_response_headers ++ CRLF) ++
      (if 0 < s₀.m_resource_size_bytes then
        (s₀.m_resource_buffer.getD []).take s₀.m_resource_size_bytes else []), hlookup, ?_⟩
    have hlen : 0 < (s₀.m_response_headers ++ CRLF).length := by simp
    simp only [hlen, if_true]
    split <;> simp
  · exact absurd h nofun

/-- **No response is understood.** Whatever service `s₀` sends, in whatever state and however
it is divided into reads, the client of this repository does not report success. -/
theorem response_never_agrees (w : Exchange) (m_host m_uri : Bytes) {s₀ s : Service}
    {shutdown : Bool} {response_buffers : List Bytes}
    (hsend : s₀.send_response shutdown = some (s, response_buffers))
    (htext : w.incoming.chunks.flatten = response_buffers.flatten) :
    ¬ Agrees s (w.execute (.new m_host m_uri)) := by
  rintro ⟨y, ec, lines, hcall, hok, -⟩
  obtain ⟨status_line, tail, hlookup, hflat⟩ := send_response_text hsend
  obtain ⟨word, rest, hword, ⟨hne, hversion, hspace⟩, hcr⟩ := status_table_entry hlookup
  obtain ⟨x, hx, hstatus⟩ := Exchange.execute_success hcall hok
  have hall : x.m_response.m_response_buf ++ w.incoming.chunks.flatten =
      word ++ SP :: rest ++ CRLF ++ tail := by
    rw [hx, htext, hflat, hword]
    rfl
  exact Exchange.read_status_line_version hne hspace hversion hcr hall hstatus hok

/-- A service that is asked for a file that does not exist. -/
def notFoundConnection : Connection :=
  sampleConnection [(HTTPRequest.new (bytes "h") (bytes "/a")).written]

/-- What it sends. -/
def notFoundBuffers : List Bytes := [bytes "HTTP/1.1404 Not Found\r\n", CRLF]

/-- The state in which `process_request` has left it. -/
def notFoundService : Service :=
  { Service.new with
    m_requested_resource := bytes "/a"
    m_request_headers := StdMap.empty.insert (bytes "HOST") (bytes " h")
    m_response_status_code := 404 }

theorem response_never_agrees_notFound :
    ∃ s, notFoundService.send_response true = some (s, notFoundBuffers) ∧
      ¬ Agrees s ((Exchange.undisturbed notFoundBuffers).execute
        (.new (bytes "h") (bytes "/a"))) :=
  ⟨_, rfl, @response_never_agrees (.undisturbed notFoundBuffers) (bytes "h") (bytes "/a")
    notFoundService _ true notFoundBuffers rfl rfl⟩

/-- The response to a request of the client itself is refused by the client. -/
theorem not_agrees_notFound :
    ¬ ∀ (c : Connection) (w : Exchange) (m_host m_uri : Bytes) (s : Service)
      (response_buffers : List Bytes), c.serve = .responds s response_buffers →
      w.Undisturbed → w.incoming.chunks.flatten = response_buffers.flatten →
        w.incoming.ending = .eof → Agrees s (w.execute (.new m_host m_uri)) := by
  intro h
  obtain ⟨s, hserve⟩ : ∃ s, notFoundConnection.serve = .responds s notFoundBuffers := ⟨_, rfl⟩
  obtain ⟨y, ec, -, hcall, hok, -⟩ := h notFoundConnection (.undisturbed notFoundBuffers)
    (bytes "h") (bytes "/a") s notFoundBuffers hserve ⟨fun _ => rfl, rfl, rfl, rfl, rfl⟩ rfl rfl
  obtain ⟨y', hinvalid⟩ : ∃ y, (Exchange.undisturbed notFoundBuffers).execute
      (.new (bytes "h") (bytes "/a")) = .callback y HttpClient.invalid_response := ⟨_, rfl⟩
  rw [hinvalid] at hcall
  obtain ⟨-, rfl⟩ := HttpClient.Outcome.callback.inj hcall
  exact absurd hok (by decide)

end AsioStudy.Http
