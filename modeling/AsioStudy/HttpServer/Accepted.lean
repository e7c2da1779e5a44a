import AsioStudy.HttpServer.Request

/-!
# AsioStudy.HttpServer.Accepted

Which well-formed requests reach `process_request`.

`on_request_line_received` consumes the CRLF that ends the request line, and the header
stage then waits for CRLFCRLF in what is left. Without header fields only the CRLF of the
empty line is left, so that the service waits for more.
-/

namespace AsioStudy.HttpServer

variable {w : Connection} {uri : Bytes} {fields : List (Bytes × Bytes)}

/-- The text of a request. -/
def request_text (uri : Bytes) (fields : List (Bytes × Bytes)) : Bytes :=
  request_line uri ++ CRLF ++ (field_block fields ++ CRLF)

/-- Without a uri the version is taken for the resource, and the third word is missing. -/
theorem on_request_line_received_no_uri (more : Bytes) :
    (Service.on_request_line_received
      { Service.new with m_request := request_line [] ++ CRLF ++ more } .success).2 =
        .send_response := by
  have hbuf : request_line [] ++ CRLF ++ more = request_line [] ++ CR :: LF :: more := by simp
  have hwords : words (request_line []) = [bytes "GET", bytes "HTTP/1.1"] := by decide
  rw [on_request_line_received_words (CR_not_mem_request_line (by simp)) hbuf, hwords]
  rfl

theorem start_handling_no_uri (htext : w.incoming.chunks.flatten = request_text [] fields)
    (hlen : w.incoming.chunks.flatten.length ≤ max_request) (s : Service) :
    w.start_handling ≠ .process_request s := by
  obtain ⟨more, chunks, -, hfirst⟩ :=
    Connection.start_handling_first (CR_not_mem_request_line (by simp)) htext hlen
  have hexit := on_request_line_received_no_uri more
  rw [hfirst]
  simp only [Connection.run]
  split
  · next s' hgo =>
    rw [hgo] at hexit
    exact absurd hexit (by simp)
  · simp
  · simp
  · simp

/-- **Without header fields the service waits** for an empty line that it has consumed. -/
theorem start_handling_bare (hne : uri ≠ []) (huri : ∀ c ∈ uri, isspace c = false)
    (htext : w.incoming.chunks.flatten = request_text uri [])
    (hlen : w.incoming.chunks.flatten.length ≤ max_request)
    (hend : w.incoming.ending = .silent) : w.start_handling = .waiting := by
  obtain ⟨more, chunks, htail, hline⟩ := Connection.start_handling_line hne huri htext hlen
  have hall : more ++ chunks.flatten = CRLF := by simpa [field_block, line_block] using htail
  have hmiss : ¬ CRLF ++ CRLF <:+: more ++ chunks.flatten := by
    rw [hall]
    decide
  have hfit : ∀ m ∈ some max_request, (more ++ chunks.flatten).length ≤ m := by
    intro m hm
    obtain rfl := Option.some.inj hm
    rw [hall]
    decide
  have hwait := async_read_until_missing (some max_request) w.incoming.ending hfit hmiss
  have hfull : some max_request ≠ some (more ++ chunks.flatten).length := by
    rw [hall]
    decide
  rw [if_neg hfull, hend] at hwait
  rw [hline]
  simp only [Connection.read_headers, hend, hwait]
  rfl

/-- **A well-formed request is processed exactly when it has a uri and a header field**,
however it is divided into reads. -/
theorem processed_iff (huri : ∀ c ∈ uri, isspace c = false) (hfields : RequestFields fields)
    (htext : w.incoming.chunks.flatten = request_text uri fields)
    (hlen : w.incoming.chunks.flatten.length ≤ max_request)
    (hend : w.incoming.ending = .silent) :
    (∃ s, w.start_handling = .process_request s ∧ s.m_requested_resource = uri) ↔
      uri ≠ [] ∧ fields ≠ [] := by
  constructor
  · rintro ⟨s, hs, -⟩
    have hne : uri ≠ [] := by
      rintro rfl
      exact start_handling_no_uri htext hlen s hs
    refine ⟨hne, ?_⟩
    rintro rfl
    rw [start_handling_bare hne huri htext hlen hend] at hs
    exact absurd hs nofun
  · rintro ⟨huri_ne, hne⟩
    exact ⟨_, Connection.start_handling_text huri_ne huri hfields hne htext hlen, rfl⟩

/-- `GET /a HTTP/1.1` with one field, in three reads. -/
def acceptedConnection : Connection where
  platform := .llp64
  fs := fun _ => .absent
  incoming := ⟨[bytes "GET /a HT", bytes "TP/1.1\r\nb:c\r", bytes "\n\r\n"], .silent⟩
  shutdown := true

theorem processed_iff_accepted :
    ∃ s, acceptedConnection.start_handling = .process_request s ∧
      s.m_requested_resource = bytes "/a" := by
  have hfields : RequestFields [(bytes "b", bytes "c")] := by
    intro field hf
    obtain rfl := List.mem_singleton.mp hf
    decide
  have hiff : (∃ s, acceptedConnection.start_handling = .process_request s ∧
      s.m_requested_resource = bytes "/a") ↔ bytes "/a" ≠ [] ∧ [(bytes "b", bytes "c")] ≠ [] :=
    processed_iff (no_space_of_all (by decide)) hfields (by decide) (by decide) rfl
  exact hiff.mpr (by decide)

theorem not_processed_bare :
    ¬ ∀ (w : Connection) (uri : Bytes) (fields : List (Bytes × Bytes)),
      (∀ c ∈ uri, isspace c = false) →
      (∀ field ∈ fields, field.1 ≠ [] ∧ COLON ∉ field.1 ∧ CR ∉ field.1 ∧ LF ∉ field.1 ∧
        CR ∉ field.2 ∧ LF ∉ field.2) →
      w.incoming.chunks.flatten = request_text uri fields →
      w.incoming.chunks.flatten.length ≤ max_request → w.incoming.ending = .silent →
      ∃ s, w.start_handling = .process_request s ∧ s.m_requested_resource = uri := by
  intro hall
  obtain ⟨s, hs, -⟩ := hall
    ⟨.llp64, fun _ => .absent, ⟨[request_text (bytes "/") []], .silent⟩, true⟩
    (bytes "/") [] (no_space_of_all (by decide)) (by simp) (by simp) (by decide) rfl
  have hwait := start_handling_bare (w := ⟨.llp64, fun _ => .absent,
    ⟨[request_text (bytes "/") []], .silent⟩, true⟩) (by decide) (no_space_of_all (by decide))
    (List.append_nil _) (by decide) rfl
  exact absurd (hwait.symm.trans hs) nofun

end AsioStudy.HttpServer
