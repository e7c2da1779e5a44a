import AsioStudy.Core.AsyncRead
import AsioStudy.Core.IStream

/-!
# AsioStudy.HttpClient.Model

`HTTPRequest` and `HTTPResponse`. Seven functions of a request run on threads: `execute`
and the completion handlers of the six operations each of them starts in turn (`Stage`).
All seven are built alike. The **first part** looks at the error code of the completion and
works on the response buffer; it either calls `on_finish` or reaches the construction of
`cancel_lock` (`Exit`). Under the lock they test `m_was_cancelled` and start the next
operation or call `on_finish` with `operation_aborted`.

`Exchange.execute` runs the stages one after the other against given completions and
incoming bytes. `Machine.lean` runs the same first parts in steps between which
`cancel` may come.
-/

namespace AsioStudy.HttpClient

/-- `http_errors::invalid_response` -/
def invalid_response : ErrorCode := ⟨1, .other "http_errors"⟩

structure HTTPResponse where
  /-- Not initialised by the constructor. -/
  m_status_code : Option UInt32
  m_status_message : Bytes
  m_headers : StdMap Bytes Bytes
  /-- The unread bytes, which are also what `m_response_stream` reads. -/
  m_response_buf : Bytes

/-- The members as the constructor leaves them. -/
def HTTPResponse.new : HTTPResponse := ⟨none, [], .empty, []⟩

structure HTTPRequest where
  m_host : Bytes
  m_uri : Bytes
  m_request_buf : Bytes
  m_response : HTTPResponse

/-- The members as the constructor, `set_host` and `set_uri` leave them. -/
def HTTPRequest.new (m_host m_uri : Bytes) : HTTPRequest := ⟨m_host, m_uri, [], .new⟩

/-- The unread bytes of the response buffer become `buf`. -/
def HTTPRequest.withBuf (x : HTTPRequest) (buf : Bytes) : HTTPRequest :=
  { x with m_response := { x.m_response with m_response_buf := buf } }

/-- The functions of a request that run on a thread: `execute` and the six completion
handlers. -/
inductive Stage
  | execute
  | on_host_name_resolved
  | on_connection_established
  | on_request_sent
  | on_status_line_received
  | on_headers_received
  | on_response_body_received
  deriving DecidableEq, Repr

/-- The handler of the operation a stage starts. -/
def Stage.next : Stage → Option Stage
  | .execute => some .on_host_name_resolved
  | .on_host_name_resolved => some .on_connection_established
  | .on_connection_established => some .on_request_sent
  | .on_request_sent => some .on_status_line_received
  | .on_status_line_received => some .on_headers_received
  | .on_headers_received => some .on_response_body_received
  | .on_response_body_received => none

/-- How the first part of a stage ends. -/
inductive Exit
  | on_finish (ec : ErrorCode)
  /-- At the construction of `cancel_lock`. -/
  | lock
  /-- An exception leaves the handler. -/
  | threw
  /-- The `while (true)` loop never ends. -/
  | loops
  deriving DecidableEq, Repr

/-! ### The first parts -/

/-- The text of a request. -/
def request_text (m_uri m_host : Bytes) : Bytes :=
  bytes "GET " ++ m_uri ++ bytes " HTTP/1.1\r\n" ++ (bytes "HOST: " ++ m_host ++ CRLF) ++ CRLF

def on_host_name_resolved (x : HTTPRequest) (ec : ErrorCode) : HTTPRequest × Exit :=
  if ec.value ≠ 0 then (x, .on_finish ec) else (x, .lock)

def on_connection_established (x : HTTPRequest) (ec : ErrorCode) : HTTPRequest × Exit :=
  if ec.value ≠ 0 then (x, .on_finish ec)
  else ({ x with m_request_buf := x.m_request_buf ++ request_text x.m_uri x.m_host }, .lock)

/-- The text handed to `async_write` when the connection is made. -/
def HTTPRequest.written (x : HTTPRequest) : Bytes :=
  (on_connection_established x .success).1.m_request_buf

/-- `shutdown` tells whether `m_sock.shutdown(shutdown_send)` succeeds; it throws when it
does not. -/
def on_request_sent (x : HTTPRequest) (ec : ErrorCode) (shutdown : Bool) : HTTPRequest × Exit :=
  if ec.value ≠ 0 then (x, .on_finish ec)
  else if shutdown then (x, .lock)
  else (x, .threw)

def on_status_line_received (P : Platform) (x : HTTPRequest) (ec : ErrorCode) :
    HTTPRequest × Exit :=
  if ec.value ≠ 0 then (x, .on_finish ec)
  else
    let response_stream := IStream.on x.m_response.m_response_buf
    let (http_version, response_stream) := response_stream.extract []
    if http_version ≠ bytes "HTTP/1.1" then
      (x.withBuf response_stream.rest, .on_finish invalid_response)
    else
      let (str_status_code, response_stream) := response_stream.extract []
      match stoul P str_status_code with
      | none => (x.withBuf response_stream.rest, .on_finish invalid_response)
      | some status_code =>
          let (status_message, response_stream) := response_stream.getline [] CR
          let (_, response_stream) := response_stream.get
          ({ x with m_response := { x.m_response with
              m_status_code := some (UInt32.ofNat status_code)
              m_status_message := status_message
              m_response_buf := response_stream.rest } }, .lock)

/-- The body of the header loop after the test for the empty line. -/
def add_header (m_headers : StdMap Bytes Bytes) (header : Bytes) : StdMap Bytes Bytes :=
  match find header COLON with
  | none => m_headers
  | some separator_pos =>
      let header_name := header.take separator_pos
      let header_value :=
        if separator_pos < header.length - 1 then header.drop (separator_pos + 1) else []
      m_headers.insert header_name header_value

/-- The `while (true)` loop of `on_headers_received`, at most `fuel` iterations of it;
`header` is what the previous iteration left in the string. -/
def header_loop : Nat → Bytes → IStream → StdMap Bytes Bytes →
    Option (IStream × StdMap Bytes Bytes)
  | 0, _, _, _ => none
  | fuel + 1, header, response_stream, m_headers =>
      let (header, response_stream) := response_stream.getline header CR
      let (_, response_stream) := response_stream.get
      if header = [] then some (response_stream, m_headers)
      else header_loop fuel header response_stream (add_header m_headers header)

/-- A loop that has not ended after this many iterations never ends
(`header_loop_stuck`). -/
def on_headers_received (x : HTTPRequest) (ec : ErrorCode) : HTTPRequest × Exit :=
  if ec.value ≠ 0 then (x, .on_finish ec)
  else
    let buf := x.m_response.m_response_buf
    match header_loop (buf.length + 2) [] (IStream.on buf) x.m_response.m_headers with
    | none => (x, .loops)
    | some (response_stream, m_headers) =>
        ({ x with m_response := { x.m_response with
            m_headers := m_headers
            m_response_buf := response_stream.rest } }, .lock)

def on_response_body_received (x : HTTPRequest) (ec : ErrorCode) : HTTPRequest × Exit :=
  if ec = .eof then (x, .on_finish .success) else (x, .on_finish ec)

/-- The first part of a stage. -/
def Stage.firstPart (P : Platform) (shutdown : Bool) (ec : ErrorCode) (x : HTTPRequest) :
    Stage → HTTPRequest × Exit
  | .execute => (x, .lock)
  | .on_host_name_resolved => HttpClient.on_host_name_resolved x ec
  | .on_connection_established => HttpClient.on_connection_established x ec
  | .on_request_sent => HttpClient.on_request_sent x ec shutdown
  | .on_status_line_received => HttpClient.on_status_line_received P x ec
  | .on_headers_received => HttpClient.on_headers_received x ec
  | .on_response_body_received => HttpClient.on_response_body_received x ec

/-! ### One exchange -/

/-- What happens to one `execute()`: how the operations complete, which bytes arrive, and
what each stage finds in `m_was_cancelled`. -/
structure Exchange where
  platform : Platform
  resolve : ErrorCode
  connect : ErrorCode
  write : ErrorCode
  shutdown : Bool
  incoming : Incoming
  cancelled : Stage → Bool

/-- How an exchange ends. -/
inductive Outcome
  /-- `m_callback(*this, m_response, ec)` -/
  | callback (x : HTTPRequest) (ec : ErrorCode)
  /-- The last operation stays pending. -/
  | pending
  | threw
  | loops

namespace Exchange

variable (w : Exchange)

/-- Run a stage; `next` continues after the operation it starts. -/
def run (stage : Stage) (x : HTTPRequest) (completion : Option ErrorCode)
    (next : HTTPRequest → Outcome) : Outcome :=
  match completion with
  | none => .pending
  | some ec =>
      match stage.firstPart w.platform w.shutdown ec x with
      | (x, .on_finish ec) => .callback x ec
      | (x, .lock) => if w.cancelled stage then .callback x .operation_aborted else next x
      | (_, .threw) => .threw
      | (_, .loops) => .loops

/-- From the start of `async_read` on. -/
def read_body (x : HTTPRequest) (chunks : List Bytes) : Outcome :=
  let r := async_read w.incoming.ending x.m_response.m_response_buf chunks
  w.run .on_response_body_received (x.withBuf r.buf) r.completion fun _ => .pending

/-- From the start of `async_read_until(…, "\r\n\r\n")` on. -/
def read_headers (x : HTTPRequest) (chunks : List Bytes) : Outcome :=
  let r := async_read_until (CRLF ++ CRLF) none w.incoming.ending x.m_response.m_response_buf chunks
  w.run .on_headers_received (x.withBuf r.buf) r.completion fun x => w.read_body x r.chunks

/-- From the start of `async_read_until(…, "\r\n")` on. -/
def read_status_line (x : HTTPRequest) (chunks : List Bytes) : Outcome :=
  let r := async_read_until CRLF none w.incoming.ending x.m_response.m_response_buf chunks
  w.run .on_status_line_received (x.withBuf r.buf) r.completion fun x => w.read_headers x r.chunks

/-- From `on_request_sent` on. -/
def request_sent (x : HTTPRequest) : Outcome :=
  w.run .on_request_sent x (some w.write) fun x => w.read_status_line x w.incoming.chunks

/-- One `execute()` of a request. -/
def execute (x : HTTPRequest) : Outcome :=
  w.run .execute x (some .success) fun x =>
    w.run .on_host_name_resolved x (some w.resolve) fun x =>
      w.run .on_connection_established x (some w.connect) w.request_sent

end Exchange

end AsioStudy.HttpClient
