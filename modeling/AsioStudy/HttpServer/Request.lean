import AsioStudy.Core.Lines
import AsioStudy.HttpServer.Model

/-!
# AsioStudy.HttpServer.Request

What the two reading handlers of a `Service` make of a request: on the text of a request
line and of header fields they consume exactly that text (`on_request_line_received_text`,
`header_loop_fields`), and on any bytes at all what they store obeys the rules of the
extraction functions that read it — a resource has no white space
(`resource_no_space`), a header value no CR (`header_loop_values`).
-/

namespace AsioStudy.HttpServer

variable {w : Connection} {s s' : Service} {ec : ErrorCode}

/-! ### On a line -/

/-- **What the first handler makes of a line**, by the words of the line. -/
theorem on_request_line_received_words {line rest : Bytes} {c : UInt8} (hcr : CR ∉ line)
    (hbuf : s.m_request = line ++ CR :: c :: rest) :
    s.on_request_line_received .success =
      if (words line).headD [] ≠ bytes "GET" then
        ({ s with m_request := rest, m_response_status_code := 501 }, .send_response)
      else if (words line).tail.tail.headD [] ≠ bytes "HTTP/1.1" then
        ({ s with
            m_request := rest
            m_requested_resource := (words line).tail.headD s.m_requested_resource
            m_response_status_code := 505 }, .send_response)
      else
        ({ s with
            m_request := rest
            m_requested_resource := (words line).tail.headD s.m_requested_resource }, .go_on) := by
  have hline : (IStream.on (line ++ CR :: c :: rest)).getline [] CR = _ :=
    IStream.getline_delim hcr []
  obtain ⟨hmethod, hafter⟩ := (IStream.on line).extract_words []
  obtain ⟨hresource, hafter'⟩ :=
    ((IStream.on line).extract []).2.extract_words s.m_requested_resource
  obtain ⟨hversion, -⟩ :=
    (((IStream.on line).extract []).2.extract s.m_requested_resource).2.extract_words []
  rw [hafter'] at hversion
  rw [hafter] at hresource hversion
  rw [IStream.words_on] at hmethod hresource hversion
  simp only [Service.on_request_line_received, Service.error_check, ErrorCode.success_value, hbuf,
    hline, IStream.get_cons, hmethod, hresource, hversion]
  rfl

/-! ### On the text of a request -/

/-- The text of a request line. -/
def request_line (uri : Bytes) : Bytes := bytes "GET " ++ uri ++ bytes " HTTP/1.1"

theorem CR_not_mem_request_line {uri : Bytes} (huri : ∀ c ∈ uri, isspace c = false) :
    CR ∉ request_line uri := by
  have hget : CR ∉ bytes "GET " := by decide
  have hversion : CR ∉ bytes " HTTP/1.1" := by decide
  have hcr : CR ∉ uri := fun hm => absurd (huri CR hm) (by decide)
  simp [request_line, hget, hversion, hcr]

theorem words_request_line {uri : Bytes} (hne : uri ≠ []) (huri : ∀ c ∈ uri, isspace c = false) :
    words (request_line uri) = [bytes "GET", uri, bytes "HTTP/1.1"] := by
  have hget : bytes "GET " = bytes "GET" ++ [SP] := by decide
  have hversion : bytes " HTTP/1.1" = SP :: bytes "HTTP/1.1" := by decide
  have hfirst : words (bytes "GET" ++ SP :: (uri ++ SP :: bytes "HTTP/1.1")) =
      bytes "GET" :: words (SP :: (uri ++ SP :: bytes "HTTP/1.1")) :=
    words_token (by decide) (no_space_of_all (by decide)) (by simp)
  have hsecond : words (uri ++ SP :: bytes "HTTP/1.1") = uri :: words (SP :: bytes "HTTP/1.1") :=
    words_token hne huri (by simp)
  have hthird : words (bytes "HTTP/1.1") = [bytes "HTTP/1.1"] := by decide
  rw [words_cons_space isspace_SP, hsecond, words_cons_space isspace_SP, hthird] at hfirst
  rw [← hfirst]
  simp [request_line, hget, hversion]

/-- **A request line is consumed to its end** and its resource stored. -/
theorem on_request_line_received_text {uri more : Bytes} (hne : uri ≠ [])
    (huri : ∀ c ∈ uri, isspace c = false)
    (hbuf : s.m_request = request_line uri ++ CRLF ++ more) :
    s.on_request_line_received .success =
      ({ s with m_request := more, m_requested_resource := uri }, .go_on) := by
  have hbuf' : s.m_request = request_line uri ++ CR :: LF :: more := by simp [hbuf]
  rw [on_request_line_received_words (CR_not_mem_request_line huri) hbuf',
    words_request_line hne huri]
  rfl

/-- The line of a header field. -/
def field_line (field : Bytes × Bytes) : Bytes := field.1 ++ COLON :: field.2

/-- The lines of header fields. -/
def field_block (fields : List (Bytes × Bytes)) : Bytes := line_block (fields.map field_line)

theorem field_block_cons (name value : Bytes) (fields : List (Bytes × Bytes)) :
    field_block ((name, value) :: fields) =
      name ++ COLON :: (value ++ CR :: LF :: field_block fields) := by
  simp [field_block, field_line, line_block_cons]

/-- The map that stores the fields one after the other. -/
def insert_fields (m : StdMap Bytes Bytes) (fields : List (Bytes × Bytes)) : StdMap Bytes Bytes :=
  fields.foldl (fun m field => m.insert field.1 field.2) m

/-- **The loop stores every field** and then, from the empty line on, looks for one more
`':'`; without one it takes everything. -/
theorem header_loop_fields {fields : List (Bytes × Bytes)}
    (hfields : ∀ field ∈ fields, COLON ∉ field.1 ∧ CR ∉ field.2) {tail : Bytes}
    (htail : COLON ∉ tail) {fuel : Nat} (hfuel : fields.length + 2 ≤ fuel)
    (header_name header_value : Bytes) (m : StdMap Bytes Bytes) :
    Service.header_loop fuel header_name header_value (IStream.on (field_block fields ++ tail)) m =
      some (⟨[], true, tail.isEmpty⟩, insert_fields m fields) := by
  induction fields generalizing fuel header_name header_value m with
  | nil =>
      obtain ⟨fuel, rfl⟩ := Nat.exists_eq_add_of_le' hfuel
      have hname : (IStream.on (field_block [] ++ tail)).getline header_name COLON =
          (tail, ⟨[], true, tail.isEmpty⟩) := IStream.getline_end htail header_name
      simp [Service.header_loop, hname, insert_fields]
  | cons field fields ih =>
      obtain ⟨name, value⟩ := field
      obtain ⟨hcolon, hcr⟩ := hfields _ List.mem_cons_self
      cases fuel with
      | zero => exact absurd hfuel (Nat.not_succ_le_zero _)
      | succ fuel =>
          have hname : (IStream.on (field_block ((name, value) :: fields) ++ tail)).getline
              header_name COLON =
                (name, IStream.on (value ++ CR :: LF :: (field_block fields ++ tail))) := by
            rw [field_block_cons]
            simpa using IStream.getline_delim hcolon header_name
          have hvalue : (IStream.on (value ++ CR :: LF :: (field_block fields ++ tail))).getline
              header_value CR = (value, IStream.on (LF :: (field_block fields ++ tail))) :=
            IStream.getline_delim hcr header_value
          have hrest := ih (fun f hf => hfields f (List.mem_cons_of_mem _ hf))
            (Nat.le_of_succ_le_succ hfuel) name value (m.insert name value)
          simp only [Service.header_loop, IStream.on_eof, hname, hvalue, IStream.get_cons]
          simpa [insert_fields] using hrest

theorem on_headers_received_fields {fields : List (Bytes × Bytes)} {tail : Bytes}
    (hfields : ∀ field ∈ fields, COLON ∉ field.1 ∧ CR ∉ field.2) (htail : COLON ∉ tail)
    (hbuf : s.m_request = field_block fields ++ tail) :
    s.on_headers_received .success =
      ({ s with
          m_request := []
          m_request_headers := insert_fields s.m_request_headers fields }, .go_on) := by
  have hfuel : fields.length + 2 ≤ (field_block fields ++ tail).length + 2 := by
    have hlen := length_le_line_block (fields.map field_line)
    simp only [field_block, List.length_append, List.length_map] at hlen ⊢
    omega
  simp only [Service.on_headers_received, Service.error_check, ErrorCode.success_value, hbuf,
    header_loop_fields hfields htail hfuel]
  rfl

/-- The fields of a request whose text is unambiguous. -/
def RequestFields (fields : List (Bytes × Bytes)) : Prop :=
  ∀ field ∈ fields, COLON ∉ field.1 ∧ CR ∉ field.1 ∧ CR ∉ field.2

theorem RequestFields.blockLines {fields : List (Bytes × Bytes)} (h : RequestFields fields) :
    BlockLines (fields.map field_line) := by
  intro l hl
  obtain ⟨field, hf, rfl⟩ := List.mem_map.mp hl
  obtain ⟨-, hname, hvalue⟩ := h field hf
  have hcolon : ¬ CR = COLON := by decide
  simp [field_line, hname, hvalue, hcolon]

/-- The first stage runs on a line and whatever else has been read by then. -/
theorem Connection.start_handling_first {line tail : Bytes} (hcr : CR ∉ line)
    (htext : w.incoming.chunks.flatten = line ++ CRLF ++ tail)
    (hlen : w.incoming.chunks.flatten.length ≤ max_request) :
    ∃ more chunks, more ++ chunks.flatten = tail ∧
      w.start_handling = Connection.run
        (Service.on_request_line_received { Service.new with m_request := line ++ CRLF ++ more })
        (some .success) fun s => w.read_headers s chunks := by
  have hfit : ∀ m ∈ some max_request, ([] ++ w.incoming.chunks.flatten).length ≤ m := by
    intro m hm
    obtain rfl := Option.some.inj hm
    exact hlen
  have hfound : CRLF <:+: [] ++ w.incoming.chunks.flatten := by
    rw [htext]
    exact ⟨_, _, rfl⟩
  obtain ⟨buf, chunks, hread, hin, hall⟩ := async_read_until_found (some max_request)
    w.incoming.ending hfit hfound
  obtain ⟨more, rfl, htail⟩ := split_at_delim hin (hall.trans htext) (CRLF_not_infix_line hcr)
  have hread' : async_read_until CRLF (some max_request) w.incoming.ending Service.new.m_request
      w.incoming.chunks = ⟨some .success, line ++ CRLF ++ more, chunks⟩ := hread
  exact ⟨more, chunks, htail.symm, by simp only [Connection.start_handling, hread']⟩

/-- The first stage hands the rest of the request to the header stage. -/
theorem Connection.start_handling_line {uri tail : Bytes} (hne : uri ≠ [])
    (huri : ∀ c ∈ uri, isspace c = false)
    (htext : w.incoming.chunks.flatten = request_line uri ++ CRLF ++ tail)
    (hlen : w.incoming.chunks.flatten.length ≤ max_request) :
    ∃ more chunks, more ++ chunks.flatten = tail ∧
      w.start_handling = w.read_headers
        { Service.new with m_request := more, m_requested_resource := uri } chunks := by
  obtain ⟨more, chunks, htail, hfirst⟩ :=
    Connection.start_handling_first (CR_not_mem_request_line huri) htext hlen
  have hline := on_request_line_received_text
    (s := { Service.new with m_request := request_line uri ++ CRLF ++ more }) hne huri rfl
  refine ⟨more, chunks, htail, ?_⟩
  rw [hfirst, Connection.run, hline]

/-- The header stage on the fields and their empty line. -/
theorem Connection.read_headers_fields {fields : List (Bytes × Bytes)} {chunks : List Bytes}
    (hfields : RequestFields fields) (hne : fields ≠ [])
    (hall : s.m_request ++ chunks.flatten = field_block fields ++ CRLF)
    (hlen : (field_block fields ++ CRLF).length ≤ max_request) :
    w.read_headers s chunks = .process_request
      { s with
        m_request := []
        m_request_headers := insert_fields s.m_request_headers fields } := by
  have hfit : ∀ m ∈ some max_request, (s.m_request ++ chunks.flatten).length ≤ m := by
    intro m hm
    obtain rfl := Option.some.inj hm
    exact hall ▸ hlen
  have hfound : CRLF ++ CRLF <:+: s.m_request ++ chunks.flatten := by
    have hlines : fields.map field_line ≠ [] := by simpa using hne
    have hin := (infix_emptyLine_iff (fields.map field_line) []).mpr (.inl hlines)
    rwa [List.append_nil, ← field_block, ← hall] at hin
  obtain ⟨buf, chunks', hread, hin, hall'⟩ := async_read_until_found (some max_request)
    w.incoming.ending hfit hfound
  have hsplit : buf ++ chunks'.flatten = (field_block fields ++ CRLF) ++ [] := by
    rw [hall', hall, List.append_nil]
  obtain ⟨rest, rfl, hrest⟩ := split_at_delim hin hsplit (not_infix_blockEnd hfields.blockLines)
  -- nothing comes after the empty line
  obtain rfl : rest = [] := (List.append_eq_nil_iff.mp hrest.symm).1
  have hclean : ∀ f ∈ fields, COLON ∉ f.1 ∧ CR ∉ f.2 :=
    fun f hf => ⟨(hfields f hf).1, (hfields f hf).2.2⟩
  have hnil : field_block fields ++ CRLF ++ [] = field_block fields ++ CRLF := List.append_nil _
  have hheaders := on_headers_received_fields
    (s := { s with m_request := field_block fields ++ CRLF ++ [] }) hclean (by decide) hnil
  simp only [Connection.read_headers, hread, Connection.run, hheaders]

/-- **A request is read as what it says**, however it is divided into reads. -/
theorem Connection.start_handling_text {uri : Bytes} {fields : List (Bytes × Bytes)}
    (huri_ne : uri ≠ []) (huri : ∀ c ∈ uri, isspace c = false) (hfields : RequestFields fields)
    (hne : fields ≠ [])
    (htext : w.incoming.chunks.flatten = request_line uri ++ CRLF ++ (field_block fields ++ CRLF))
    (hlen : w.incoming.chunks.flatten.length ≤ max_request) :
    w.start_handling = .process_request
      { Service.new with
        m_requested_resource := uri
        m_request_headers := insert_fields .empty fields } := by
  obtain ⟨more, chunks, hall, hline⟩ := Connection.start_handling_line huri_ne huri htext hlen
  have hlen' : (field_block fields ++ CRLF).length ≤ max_request := by
    rw [htext, List.length_append] at hlen
    exact Nat.le_trans (Nat.le_add_left _ _) hlen
  rw [hline, Connection.read_headers_fields
    (s := { Service.new with m_request := more, m_requested_resource := uri })
    hfields hne hall hlen']
  rfl

/-! ### On any bytes -/

/-- A handler that has gone on has been called without an error. -/
theorem Service.error_check_go_on (h : s.error_check ec = some (s', .go_on)) : False := by
  unfold Service.error_check at h
  split at h
  · split at h <;> simp at h
  · exact absurd h nofun

theorem Service.go_on_of_error_check {rest : Service × Exit}
    (h : (match s.error_check ec with
      | some r => r
      | none => rest) = (s', .go_on)) : rest = (s', .go_on) := by
  cases hec : s.error_check ec with
  | some r =>
      obtain rfl : r = (s', .go_on) := by simpa only [hec] using h
      exact absurd hec fun hec => Service.error_check_go_on hec
  | none => simpa only [hec] using h

/-- A resource has no white space; the headers are not touched. -/
theorem resource_no_space (h : s.on_request_line_received ec = (s', .go_on))
    (hs : ∀ c ∈ s.m_requested_resource, isspace c = false) :
    (∀ c ∈ s'.m_requested_resource, isspace c = false) ∧
      s'.m_request_headers = s.m_request_headers := by
  unfold Service.on_request_line_received at h
  replace h := Service.go_on_of_error_check h
  dsimp only at h
  split at h
  · exact absurd (Prod.mk.inj h).2 nofun
  · split at h
    · exact absurd (Prod.mk.inj h).2 nofun
    · obtain ⟨rfl, -⟩ := Prod.mk.inj h
      exact ⟨IStream.extract_no_space _ hs, rfl⟩

/-- No value of the map contains CR. -/
def CleanValues (m : StdMap Bytes Bytes) : Prop := ∀ name value, m name = some value → CR ∉ value

theorem CleanValues.insert {m : StdMap Bytes Bytes} {name value : Bytes} (hm : CleanValues m)
    (hvalue : CR ∉ value) : CleanValues (m.insert name value) := by
  intro n v hv
  rw [StdMap.insert_apply] at hv
  split at hv
  · obtain rfl := Option.some.inj hv
    exact hvalue
  · exact hm n v hv

/-- **A header value has no CR**, whatever the bytes. -/
theorem header_loop_values {fuel : Nat} {header_name header_value : Bytes}
    {stream stream' : IStream} {m m' : StdMap Bytes Bytes}
    (h : Service.header_loop fuel header_name header_value stream m = some (stream', m'))
    (hvalue : CR ∉ header_value) (hm : CleanValues m) : CleanValues m' := by
  induction fuel generalizing header_name header_value stream m with
  | zero => exact absurd h nofun
  | succ fuel ih =>
      simp only [Service.header_loop] at h
      split at h
      · obtain ⟨-, rfl⟩ := Prod.mk.inj (Option.some.inj h)
        exact hm
      · split at h
        · exact ih h hvalue hm
        · have hvalue' := IStream.getline_not_mem (stream.getline header_name COLON).2 hvalue
          exact ih h hvalue' (hm.insert hvalue')

theorem headers_no_CR (h : s.on_headers_received ec = (s', .go_on))
    (hs : CleanValues s.m_request_headers) :
    CleanValues s'.m_request_headers ∧ s'.m_requested_resource = s.m_requested_resource := by
  unfold Service.on_headers_received at h
  replace h := Service.go_on_of_error_check h
  split at h
  · exact absurd (Prod.mk.inj h).2 nofun
  · next stream m hloop =>
    obtain ⟨rfl, -⟩ := Prod.mk.inj h
    exact ⟨header_loop_values hloop List.not_mem_nil hs, rfl⟩

/-- A reading that enters `process_request` has gone through its handler. -/
theorem Connection.run_process_request {handler : ErrorCode → Service × Exit}
    {completion : Option ErrorCode} {next : Service → Reading}
    (h : Connection.run handler completion next = .process_request s) :
    ∃ ec s', handler ec = (s', .go_on) ∧ next s' = .process_request s := by
  unfold Connection.run at h
  cases completion with
  | none => exact absurd h nofun
  | some ec =>
      simp only at h
      split at h
      · next s' hgo => exact ⟨ec, s', hgo, h⟩
      all_goals exact absurd h nofun

/-- **What `process_request` is entered with**, whatever bytes arrive: a resource without
white space and header values without CR. -/
theorem Connection.process_request_clean (h : w.start_handling = .process_request s) :
    (∀ c ∈ s.m_requested_resource, isspace c = false) ∧ CleanValues s.m_request_headers := by
  obtain ⟨ec, s₁, hline, h⟩ := Connection.run_process_request h
  obtain ⟨ec', s₂, hheaders, h⟩ := Connection.run_process_request h
  obtain rfl := Reading.process_request.inj h
  obtain ⟨hspace, hmap⟩ := resource_no_space hline (fun c hc => absurd hc List.not_mem_nil)
  have hclean : CleanValues s₁.m_request_headers := by
    rw [hmap]
    exact fun _ _ => nofun
  obtain ⟨hvalues, hresource⟩ := headers_no_CR hheaders hclean
  exact ⟨hresource ▸ hspace, hvalues⟩

end AsioStudy.HttpServer
