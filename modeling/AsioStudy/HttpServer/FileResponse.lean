import AsioStudy.HttpServer.DocumentRoot
import AsioStudy.HttpServer.Segmentation

/-!
# AsioStudy.HttpServer.FileResponse

What a 200 response carries.

`m_resource_buffer` is never allocated (`start_handling_unallocated`), so there is room in
it for nothing, and the size is taken from `tellg` whether or not that succeeds. What
remains is the file that can be sought and is empty (`carriesFile_iff`); one that is not empty
and whose size comes to 0 as a `std::size_t` is answered like an empty one.
-/

namespace AsioStudy.HttpServer

variable {w : Connection} {s s' : Service} {ec : ErrorCode} {contents : Bytes} {seekable : Bool}

/-! ### The service that enters `process_request` -/

/-- Nothing of the response has been made, and `m_resource_buffer` is a null pointer. -/
structure Unallocated (s : Service) : Prop extends Fresh s where
  buffer : s.m_resource_buffer = none

theorem Unallocated.withRequest (h : Unallocated s) (m_request : Bytes) :
    Unallocated { s with m_request := m_request } :=
  ⟨⟨h.status, h.size, h.headers⟩, h.buffer⟩

theorem Unallocated.on_request_line_received (hs : Unallocated s)
    (h : s.on_request_line_received ec = (s', .go_on)) : Unallocated s' := by
  have hpromise := on_request_line_received_promises ec hs.toFresh
  have hbuffer := on_request_line_received_buffer s ec
  rw [h] at hpromise hbuffer
  exact ⟨hpromise, hbuffer.trans hs.buffer⟩

theorem Unallocated.on_headers_received (hs : Unallocated s)
    (h : s.on_headers_received ec = (s', .go_on)) : Unallocated s' := by
  have hpromise := on_headers_received_promises ec hs.toFresh
  have hbuffer := on_headers_received_buffer s ec
  rw [h] at hpromise hbuffer
  exact ⟨hpromise, hbuffer.trans hs.buffer⟩

/-- **`process_request` is entered with nothing allocated**, whatever bytes arrive. -/
theorem Connection.start_handling_unallocated (h : w.start_handling = .process_request s) :
    Unallocated s := by
  obtain ⟨ec, s₁, hline, h⟩ := Connection.run_process_request h
  obtain ⟨ec', s₂, hheaders, h⟩ := Connection.run_process_request h
  obtain rfl := Reading.process_request.inj h
  have hs₁ : Unallocated s₁ := Unallocated.on_request_line_received ⟨⟨rfl, rfl, rfl⟩, rfl⟩ hline
  exact (hs₁.withRequest _).on_headers_received hheaders

/-! ### The response -/

/-- The bytes a pointer may be written through. -/
def capacity (storage : Option Bytes) : Nat := (storage.getD []).length

/-- The status line, the length of the file, an empty line, and the file. -/
def fileResponse (m_response_status_line contents : Bytes) : Bytes :=
  m_response_status_line ++ (bytes "content-length: " ++ to_string contents.length ++ CRLF) ++
    CRLF ++ contents

/-- The request for a file that opens is answered with another status than 200, or there is
room for the file and the buffers of the response carry exactly it. A file whose size
`tellg` does not tell is not answered with 200. -/
def CarriesFile (P : Platform) (fs : FileSystem) (s : Service) (contents : Bytes)
    (seekable : Bool) : Prop :=
  ∃ s', s.process_request P fs = .ok s' ∧
    (s'.m_response_status_code = 200 →
      seekable = true ∧ s'.m_resource_size_bytes ≤ capacity s.m_resource_buffer ∧
      ∀ shutdown s'' response_buffers,
        s'.send_response shutdown = some (s'', response_buffers) →
          response_buffers.flatten = fileResponse s''.m_response_status_line contents)

/-- `process_request` of a file whose size comes to 0. -/
theorem process_request_nothing {P : Platform} {fs : FileSystem} (hs : Unallocated s)
    (hfile : fs.entry s.resource_file_path = .opened contents true)
    (hsize : contents.length % (P.SIZE_MAX + 1) = 0) :
    s.process_request P fs = .ok { s with
      m_resource_size_bytes := 0
      m_response_headers := bytes "content-length: " ++ to_string 0 ++ CRLF } := by
  have hlit : bytes "content-length" ++ bytes ": " = bytes "content-length: " := by decide
  simp [Service.process_request, hfile, hsize, hs.buffer, hs.headers, Service.readInto, ← hlit]

/-- Its response is that to an empty file. -/
theorem send_response_nothing {shutdown : Bool} {response_buffers : List Bytes}
    (hsize : s.m_resource_size_bytes = 0)
    (hheaders : s.m_response_headers = bytes "content-length: " ++ to_string 0 ++ CRLF)
    (h : s.send_response shutdown = some (s', response_buffers)) :
    response_buffers.flatten = fileResponse s'.m_response_status_line [] := by
  unfold Service.send_response at h
  split at h
  · obtain ⟨status, -, he⟩ := Option.map_eq_some_iff.mp h
    obtain ⟨rfl, rfl⟩ := Prod.mk.inj he
    have hnone : ¬ 0 < s.m_resource_size_bytes := by rw [hsize]; exact Nat.lt_irrefl 0
    have hsome : 0 < (s.m_response_headers ++ CRLF).length := by simp
    simp only [hnone, hsome, if_true, if_false]
    simp [hheaders, fileResponse]
  · exact absurd h (by simp)

/-- Only an empty file has the response to an empty file. -/
theorem fileResponse_eq_nil {line : Bytes} (h : fileResponse line [] = fileResponse line contents) :
    contents = [] := by
  have hlen := congrArg List.length h
  have hzero : (to_string 0).length = 1 := by decide
  have hpos : 0 < (to_string contents.length).length := by
    rw [to_string, List.length_map]
    exact Nat.length_toDigits_pos
  simp only [fileResponse, List.length_append, List.length_nil, hzero] at hlen
  exact List.length_eq_zero_iff.mp (by omega)

/-- **When a 200 response carries exactly the file.** -/
theorem carriesFile_iff (w : Connection) (s : Service) (contents : Bytes) (seekable : Bool)
    (hs : w.start_handling = .process_request s)
    (hfile : w.fs.entry s.resource_file_path = .opened contents seekable) :
    CarriesFile w.platform w.fs s contents seekable ↔ seekable = true ∧ contents = [] := by
  have hun := Connection.start_handling_unallocated hs
  constructor
  · intro h
    obtain ⟨s', hprocess, h200⟩ := h
    have hstatus : s'.m_response_status_code = 200 :=
      (process_request_opened hfile hprocess).1.trans hun.status
    obtain ⟨rfl, -, hflatten⟩ := h200 hstatus
    refine ⟨rfl, ?_⟩
    -- the read does not go through the null pointer
    have hfault := fault_eq_none_of_ok hun.buffer hprocess
    have hsize : contents.length % (w.platform.SIZE_MAX + 1) = 0 := by
      simpa [hfile, FileEntry.fault] using hfault
    obtain rfl := Except.ok.inj (hprocess.symm.trans (process_request_nothing hun hfile hsize))
    have hfound : (Service.http_status_table.lookup (200 : UInt32)).isSome = true := by decide
    obtain ⟨status, hlookup⟩ := Option.isSome_iff_exists.mp hfound
    obtain ⟨⟨s'', response_buffers⟩, hsend⟩ : ∃ r, Service.send_response { s with
        m_resource_size_bytes := 0
        m_response_headers := bytes "content-length: " ++ to_string 0 ++ CRLF } true = some r := by
      simp [Service.send_response, hun.status, hlookup]
    have hnothing := send_response_nothing rfl rfl hsend
    exact fileResponse_eq_nil (hnothing.symm.trans (hflatten true s'' response_buffers hsend))
  · intro h
    obtain ⟨rfl, rfl⟩ := h
    refine ⟨_, process_request_nothing hun hfile (Nat.zero_mod _), ?_⟩
    intro _
    exact ⟨rfl, Nat.zero_le _, fun _ _ _ hsend => send_response_nothing rfl rfl hsend⟩

/-- A request for a file of these contents. -/
def fileConnection (contents : Bytes) : Connection :=
  { uriConnection (bytes "/f") with fs := fun _ => .opened contents true }

theorem carriesFile_iff_empty :
    ∃ s, (fileConnection []).start_handling = .process_request s ∧
      CarriesFile .llp64 (fileConnection []).fs s [] true := by
  obtain ⟨s, hs, -⟩ := start_handling_uri (by decide : bytes "/f" ≠ [])
    (no_space_of_all (by decide)) (by decide)
  have hs' : (fileConnection []).start_handling = .process_request s := hs
  exact ⟨s, hs', (carriesFile_iff (fileConnection []) s [] true hs' rfl).mpr ⟨rfl, rfl⟩⟩

/-- The read of the first file with a byte in it goes through a null pointer. -/
theorem not_carriesFile_byte :
    ¬ ∀ (w : Connection) (s : Service) (contents : Bytes) (seekable : Bool),
      w.start_handling = .process_request s →
      w.fs.entry s.resource_file_path = .opened contents seekable →
        CarriesFile w.platform w.fs s contents seekable := by
  intro hall
  obtain ⟨s, hs, -⟩ := start_handling_uri (by decide : bytes "/f" ≠ [])
    (no_space_of_all (by decide)) (by decide)
  have hs' : (fileConnection (bytes "x")).start_handling = .process_request s := hs
  obtain ⟨s', hprocess, -⟩ := hall (fileConnection (bytes "x")) s (bytes "x") true hs' rfl
  have hundefined : s.process_request .llp64 (fileConnection (bytes "x")).fs =
      .error .undefined :=
    (process_request_eq_error _ (Connection.start_handling_unallocated hs').buffer _).mpr rfl
  exact absurd (hundefined.symm.trans hprocess) (by simp)

end AsioStudy.HttpServer
