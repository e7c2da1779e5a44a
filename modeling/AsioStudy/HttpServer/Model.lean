import AsioStudy.Core.AsyncRead
import AsioStudy.Core.IStream

/-!
# AsioStudy.HttpServer.Model

`Service`, the object that serves one connection. `on_request_line_received` and
`on_headers_received` are the completion handlers of its two reads; they go on to the next
read, to `process_request`, to `send_response` or to `on_finish` (`Exit`).
`Connection.start_handling` runs them against the bytes that arrive and tells how reading
the request ends; `Connection.serve` goes on from there to the buffers of the response.
-/

namespace AsioStudy.HttpServer

structure Service where
  /-- The unread bytes of the `streambuf`. -/
  m_request : Bytes
  m_request_headers : StdMap Bytes Bytes
  m_requested_resource : Bytes
  /-- The storage the pointer owns; `none`: a null pointer. -/
  m_resource_buffer : Option Bytes
  m_response_status_code : UInt32
  m_resource_size_bytes : Nat
  m_response_headers : Bytes
  m_response_status_line : Bytes

/-- The limit of `m_request`. -/
def max_request : Nat := 4096

/-- The members as the constructor leaves them. -/
def Service.new : Service where
  m_request := []
  m_request_headers := .empty
  m_requested_resource := []
  m_resource_buffer := none
  m_response_status_code := 200
  m_resource_size_bytes := 0
  m_response_headers := []
  m_response_status_line := []

/-- How a handler ends. -/
inductive Exit
  /-- `on_request_line_received` starts `async_read_until(…, "\r\n\r\n")`,
  `on_headers_received` enters `process_request`. -/
  | go_on
  | send_response
  | on_finish
  /-- The `while` loop never ends. -/
  | loops
  deriving DecidableEq, Repr

namespace Service

/-- `error_check`; `none` when it returns `false`. -/
def error_check (s : Service) (ec : ErrorCode) : Option (Service × Exit) :=
  if ec.value ≠ 0 then
    if ec = .not_found then some ({ s with m_response_status_code := 413 }, .send_response)
    else some (s, .on_finish)
  else none

def on_request_line_received (s : Service) (ec : ErrorCode) : Service × Exit :=
  match s.error_check ec with
  | some r => r
  | none =>
      let request_stream := IStream.on s.m_request
      let (request_line, request_stream) := request_stream.getline [] CR
      let (_, request_stream) := request_stream.get
      let s := { s with m_request := request_stream.rest }
      let request_line_stream := IStream.on request_line
      let (request_method, request_line_stream) := request_line_stream.extract []
      if request_method ≠ bytes "GET" then
        ({ s with m_response_status_code := 501 }, .send_response)
      else
        let (resource, request_line_stream) := request_line_stream.extract s.m_requested_resource
        let s := { s with m_requested_resource := resource }
        let (request_http_version, _) := request_line_stream.extract []
        if request_http_version ≠ bytes "HTTP/1.1" then
          ({ s with m_response_status_code := 505 }, .send_response)
        else (s, .go_on)

/-- The `while (!request_stream.eof())` loop of `on_headers_received`, at most `fuel`
iterations of it; `header_name` and `header_value` are what the previous iteration left in
the strings. -/
def header_loop : Nat → Bytes → Bytes → IStream → StdMap Bytes Bytes →
    Option (IStream × StdMap Bytes Bytes)
  | 0, _, _, _, _ => none
  | fuel + 1, header_name, header_value, request_stream, m_request_headers =>
      if request_stream.eof then some (request_stream, m_request_headers)
      else
        let (header_name, request_stream) := request_stream.getline header_name COLON
        if request_stream.eof then
          header_loop fuel header_name header_value request_stream m_request_headers
        else
          let (header_value, request_stream) := request_stream.getline header_value CR
          let (_, request_stream) := request_stream.get
          header_loop fuel header_name header_value request_stream
            (m_request_headers.insert header_name header_value)

/-- Every iteration takes a byte or reaches the end, so `fuel` is enough. -/
def on_headers_received (s : Service) (ec : ErrorCode) : Service × Exit :=
  match s.error_check ec with
  | some r => r
  | none =>
      match header_loop (s.m_request.length + 2) [] [] (IStream.on s.m_request)
          s.m_request_headers with
      | none => (s, .loops)
      | some (request_stream, m_request_headers) =>
          ({ s with
              m_request := request_stream.rest
              m_request_headers := m_request_headers }, .go_on)

end Service

/-! ### The file and the response -/

/-- What a path names. -/
inductive FileEntry
  /-- `boost::filesystem::exists` throws: the path is too long, access is denied. -/
  | inaccessible
  /-- `boost::filesystem::exists` is `false`. -/
  | absent
  /-- The file exists and does not open. -/
  | closed
  /-- The file opens; when it is not seekable `tellg` fails, and with it the stream. -/
  | opened (contents : Bytes) (seekable : Bool)

abbrev FileSystem := Bytes → FileEntry

/-- What the path in a `std::string` names; the calls that take a path see its `c_str()`. -/
def FileSystem.entry (fs : FileSystem) (path : Bytes) : FileEntry := fs (c_str path)

/-- How `process_request` fails. -/
inductive Fault
  /-- An exception leaves it. -/
  | threw
  /-- It writes past the storage of `m_resource_buffer`. -/
  | undefined
  deriving DecidableEq, Repr

namespace Service

/-- The path of the requested resource. -/
def resource_file_path (s : Service) : Bytes := bytes "D:\\http_root" ++ s.m_requested_resource

/-- `istream::read` of `data` into the storage of a pointer; `none` when it would write
where the pointer has no storage. -/
def readInto (storage : Option Bytes) (data : Bytes) : Option (Option Bytes) :=
  match storage with
  | none => if data = [] then some none else none
  | some cells =>
      if data.length ≤ cells.length then some (some (data ++ cells.drop data.length)) else none

def process_request (P : Platform) (fs : FileSystem) (s : Service) : Except Fault Service :=
  match fs.entry s.resource_file_path with
  | .inaccessible => .error .threw
  | .absent => .ok { s with m_response_status_code := 404 }
  | .closed => .ok { s with m_response_status_code := 500 }
  | .opened contents seekable =>
      -- `static_cast<std::size_t>` of what `tellg` returns, which is -1 when it fails
      let size := if seekable then contents.length % (P.SIZE_MAX + 1) else P.SIZE_MAX
      let data := if seekable then contents.take size else []
      match readInto s.m_resource_buffer data with
      | none => .error .undefined
      | some m_resource_buffer => .ok { s with
          m_resource_size_bytes := size
          m_resource_buffer := m_resource_buffer
          m_response_headers := s.m_response_headers ++
            (bytes "content-length" ++ bytes ": " ++ to_string size ++ CRLF) }

/-- `http_status_table` -/
def http_status_table : List (UInt32 × Bytes) :=
  [(200, bytes "200 OK"),
    (404, bytes "404 Not Found"),
    (413, bytes "413 Request Entity Too Large"),
    (500, bytes "500 Server Error"),
    (501, bytes "501 Not Implemented"),
    (505, bytes "505 HTTP Version Not Supported")]

/-- `send_response`: the service afterwards and the buffers handed to `async_write`. It
throws (`none`) when `m_sock->shutdown(shutdown_receive)` fails or `at` finds no entry. The third
buffer has only the bytes that the pointer owns; after a failed `tellg` the code hands over a null
pointer with `SIZE_MAX` bytes there. -/
def send_response (s : Service) (shutdown : Bool) : Option (Service × List Bytes) :=
  if shutdown then
    (http_status_table.lookup s.m_response_status_code).map fun status_line =>
      let s := { s with
        m_response_status_line := bytes "HTTP/1.1" ++ status_line ++ CRLF
        m_response_headers := s.m_response_headers ++ CRLF }
      let response_buffers := [s.m_response_status_line]
      let response_buffers :=
        if 0 < s.m_response_headers.length then response_buffers ++ [s.m_response_headers]
        else response_buffers
      let response_buffers :=
        if 0 < s.m_resource_size_bytes then
          response_buffers ++ [(s.m_resource_buffer.getD []).take s.m_resource_size_bytes]
        else response_buffers
      (s, response_buffers)
  else none

end Service

/-! ### One connection -/

/-- What a service meets: the bytes that arrive, the files, and whether its socket still
shuts down. -/
structure Connection where
  platform : Platform
  fs : FileSystem
  incoming : Incoming
  shutdown : Bool

/-- How the reading of a request ends. -/
inductive Reading
  /-- `process_request` is entered. -/
  | process_request (s : Service)
  /-- `send_response` is called without it. -/
  | send_response (s : Service)
  /-- `on_finish` deletes the service. -/
  | on_finish
  /-- The last read stays pending. -/
  | waiting
  | loops

/-- How serving a connection ends. -/
inductive Outcome
  /-- The buffers handed to `async_write`. -/
  | responds (s : Service) (response_buffers : List Bytes)
  | on_finish
  | waiting
  | loops
  | threw
  /-- `process_request` has written past its buffer. -/
  | undefined

namespace Connection

/-- Run a completion handler; `next` is what comes after it has gone on. -/
def run (handler : ErrorCode → Service × Exit) (completion : Option ErrorCode)
    (next : Service → Reading) : Reading :=
  match completion with
  | none => .waiting
  | some ec =>
      match handler ec with
      | (s, .go_on) => next s
      | (s, .send_response) => .send_response s
      | (_, .on_finish) => .on_finish
      | (_, .loops) => .loops

variable (w : Connection)

/-- From the start of `async_read_until(…, "\r\n\r\n")` on. -/
def read_headers (s : Service) (chunks : List Bytes) : Reading :=
  let r := async_read_until (CRLF ++ CRLF) (some max_request) w.incoming.ending s.m_request chunks
  run (Service.on_headers_received { s with m_request := r.buf }) r.completion .process_request

/-- `start_handling` of a new service. -/
def start_handling : Reading :=
  let s := Service.new
  let r := async_read_until CRLF (some max_request) w.incoming.ending s.m_request w.incoming.chunks
  run (Service.on_request_line_received { s with m_request := r.buf }) r.completion
    fun s => w.read_headers s r.chunks

/-- `send_response` and the outcome of its call. -/
def respond (s : Service) : Outcome :=
  match s.send_response w.shutdown with
  | none => .threw
  | some (s, response_buffers) => .responds s response_buffers

/-- From `start_handling` to the start of the response. -/
def serve : Outcome :=
  match w.start_handling with
  | .process_request s =>
      match s.process_request w.platform w.fs with
      | .error .threw => .threw
      | .error .undefined => .undefined
      | .ok s => w.respond s
  | .send_response s => w.respond s
  | .on_finish => .on_finish
  | .waiting => .waiting
  | .loops => .loops

end Connection

end AsioStudy.HttpServer
