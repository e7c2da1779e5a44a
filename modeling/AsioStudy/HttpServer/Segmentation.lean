import AsioStudy.HttpServer.HeaderLoop
import AsioStudy.HttpServer.Request
import AsioStudy.HttpServer.Respond

/-!
# AsioStudy.HttpServer.Segmentation

What a client is answered, as a function of all the bytes it sends.

`answerOf` looks at the bytes alone: the first line up to its CR, the words of that line,
whether each stage finds its delimiter within the limit, and the file. `serve_answer` says
that the service answers this however the bytes are divided into reads: the limit applies to
the unread bytes, and these are always what comes after the part that has been consumed.
-/

namespace AsioStudy.HttpServer

variable {P : Platform} {w : Connection} {s : Service} {ec : ErrorCode} {resource : Bytes}

/-- What becomes of a connection. -/
inductive Answer
  /-- `send_response` is called with this status and this resource. -/
  | response (m_response_status_code : UInt32) (m_requested_resource : Bytes)
  | on_finish
  | waiting
  deriving DecidableEq, Repr

def Outcome.answer : Outcome → Option Answer
  | .responds s _ => some (.response s.m_response_status_code s.m_requested_resource)
  | .on_finish => some .on_finish
  | .waiting => some .waiting
  | .loops | .threw | .undefined => none

/-! ### The answer as a function of the bytes -/

def fileAnswer (P : Platform) (resource : Bytes) (entry : FileEntry) : Option Answer :=
  match entry with
  | .inaccessible => none
  | .absent => some (.response 404 resource)
  | .closed => some (.response 500 resource)
  | .opened _ _ => if entry.fault P = none then some (.response 200 resource) else none

/-- After a read that ends in this way; `next` is the answer of what follows a success. -/
def stageAnswer (ending : Ending) (resource : Bytes) (next : Option Answer) :
    ReadEnd → Option Answer
  | .found => next
  | .full => some (.response 413 resource)
  | .ended =>
      match ending.completion with
      | none => some .waiting
      | some ec => if ec = .not_found then some (.response 413 resource) else some .on_finish

/-- After the first stage has consumed `line`. -/
def lineAnswer (P : Platform) (fs : FileSystem) (ending : Ending) (line rest : Bytes) :
    Option Answer :=
  let method := (words line).headD []
  let resource := (words line).tail.headD []
  let version := (words line).tail.tail.headD []
  if method ≠ bytes "GET" then some (.response 501 [])
  else if version ≠ bytes "HTTP/1.1" then some (.response 505 resource)
  else stageAnswer ending resource
    (fileAnswer P resource (fs.entry (bytes "D:\\http_root" ++ resource)))
    (readEnd (CRLF ++ CRLF) max_request rest)

/-- What a client that sends `text` is answered. -/
def answerOf (P : Platform) (fs : FileSystem) (ending : Ending) (text : Bytes) : Option Answer :=
  stageAnswer ending []
    (lineAnswer P fs ending (text.takeWhile (· != CR)) ((text.dropWhile (· != CR)).drop 2))
    (readEnd CRLF max_request text)

/-! ### The stages -/

/-- The way of a reading on to its outcome. -/
def Connection.outcome (w : Connection) : Reading → Outcome
  | .process_request s =>
      match s.process_request w.platform w.fs with
      | .error .threw => .threw
      | .error .undefined => .undefined
      | .ok s => w.respond s
  | .send_response s => w.respond s
  | .on_finish => .on_finish
  | .waiting => .waiting
  | .loops => .loops

theorem Connection.serve_eq : w.serve = w.outcome w.start_handling := by
  unfold Connection.serve Connection.outcome
  cases w.start_handling <;> rfl

theorem Connection.respond_answer (hshutdown : w.shutdown = true)
    (hfound : (Service.http_status_table.lookup s.m_response_status_code).isSome = true) :
    (w.respond s).answer =
      some (.response s.m_response_status_code s.m_requested_resource) := by
  obtain ⟨status, hstatus⟩ := Option.isSome_iff_exists.mp hfound
  simp [Connection.respond, Service.send_response, hshutdown, hstatus, Outcome.answer]

/-- A handler that begins with `error_check`. -/
def ChecksError (s : Service) (handler : ErrorCode → Service × Exit) : Prop :=
  ∀ ec r, s.error_check ec = some r → handler ec = r

/-- **A stage answers for its read**; after a success the handler does. -/
theorem Connection.run_answer (hshutdown : w.shutdown = true)
    {handler : ErrorCode → Service × Exit} (hcheck : ChecksError s handler)
    (next : Service → Reading) (e : ReadEnd) :
    (w.outcome (Connection.run handler (e.completion w.incoming.ending) next)).answer =
      stageAnswer w.incoming.ending s.m_requested_resource
        (w.outcome (Connection.run handler (some .success) next)).answer e := by
  have h413 : (Service.http_status_table.lookup 413).isSome = true := by decide
  have hfull : (w.outcome (.send_response { s with m_response_status_code := 413 })).answer =
      some (.response 413 s.m_requested_resource) := respond_answer hshutdown h413
  cases e with
  | found => rfl
  | full =>
      have hnot := hcheck .not_found _ rfl
      simp only [ReadEnd.completion, Connection.run, hnot, stageAnswer]
      exact hfull
  | ended =>
      simp only [ReadEnd.completion, stageAnswer]
      cases hend : w.incoming.ending.completion with
      | none => rfl
      | some ec =>
          have hne := Ending.value_ne_zero hend
          by_cases hec : ec = .not_found
          · subst hec
            have hnot := hcheck .not_found _ rfl
            simp only [Connection.run, hnot, if_true]
            exact hfull
          · have hfinish := hcheck ec _ (by rw [Service.error_check, if_pos hne, if_neg hec])
            simp only [Connection.run, hfinish, hec, if_false]
            rfl

theorem checksError_line (s : Service) : ChecksError s s.on_request_line_received := by
  intro ec r h
  simp only [Service.on_request_line_received, h]

theorem checksError_headers (s : Service) : ChecksError s s.on_headers_received := by
  intro ec r h
  simp only [Service.on_headers_received, h]

/-- The header stage goes on to `process_request` after every successful read. -/
theorem on_headers_received_success (s : Service) :
    ∃ s', s.on_headers_received .success = (s', .go_on) ∧
      s'.m_requested_resource = s.m_requested_resource ∧
      s'.m_response_status_code = s.m_response_status_code ∧
      s'.m_resource_buffer = s.m_resource_buffer := by
  obtain ⟨r, hr⟩ := Option.isSome_iff_exists.mp (header_loop_ends_on s.m_request [] []
    s.m_request_headers)
  obtain ⟨stream, m⟩ := r
  have hcheck : s.error_check .success = none := rfl
  simp only [Service.on_headers_received, hcheck, hr]
  exact ⟨_, rfl, rfl, rfl, rfl⟩

/-- The status and the resource are left alone for a file that opens. -/
theorem process_request_opened {P : Platform} {fs : FileSystem} {s' : Service} {contents : Bytes}
    {seekable : Bool} (hfile : fs.entry s.resource_file_path = .opened contents seekable)
    (hp : s.process_request P fs = .ok s') :
    s'.m_response_status_code = s.m_response_status_code ∧
      s'.m_requested_resource = s.m_requested_resource := by
  simp only [Service.process_request, hfile] at hp
  split at hp
  · exact absurd hp (by simp)
  · obtain rfl := Except.ok.inj hp
    exact ⟨rfl, rfl⟩

/-- `process_request` and the response to it. -/
theorem Connection.process_request_answer (hshutdown : w.shutdown = true)
    (hstatus : s.m_response_status_code = 200) (hbuffer : s.m_resource_buffer = none) :
    (w.outcome (.process_request s)).answer =
      fileAnswer w.platform s.m_requested_resource
        (w.fs.entry (bytes "D:\\http_root" ++ s.m_requested_resource)) := by
  have h200 : (Service.http_status_table.lookup 200).isSome = true := by decide
  have h404 : (Service.http_status_table.lookup 404).isSome = true := by decide
  have h500 : (Service.http_status_table.lookup 500).isSome = true := by decide
  have hfault := process_request_eq_error (P := w.platform) w.fs hbuffer
  simp only [Service.resource_file_path] at hfault
  unfold fileAnswer
  cases hfile : w.fs.entry (bytes "D:\\http_root" ++ s.m_requested_resource) with
  | inaccessible =>
      have hp := (hfault .threw).mpr (by rw [hfile]; rfl)
      simp only [Connection.outcome, hp]
      rfl
  | absent =>
      have hp : s.process_request w.platform w.fs =
          .ok { s with m_response_status_code := 404 } := by
        simp [Service.process_request, Service.resource_file_path, hfile]
      simp only [Connection.outcome, hp]
      exact respond_answer hshutdown h404
  | closed =>
      have hp : s.process_request w.platform w.fs =
          .ok { s with m_response_status_code := 500 } := by
        simp [Service.process_request, Service.resource_file_path, hfile]
      simp only [Connection.outcome, hp]
      exact respond_answer hshutdown h500
  | opened contents seekable =>
      rw [hfile] at hfault
      cases hp : s.process_request w.platform w.fs with
      | error fault =>
          have hbad := (hfault fault).mp hp
          cases fault <;> simp [Connection.outcome, hp, hbad, Outcome.answer]
      | ok s' =>
          have hok := fault_eq_none_of_ok hbuffer hp
          rw [Service.resource_file_path, hfile] at hok
          obtain ⟨hstatus', hresource'⟩ := process_request_opened hfile hp
          have hanswer := respond_answer (s := s') hshutdown
            ((hstatus'.trans hstatus) ▸ h200)
          simp only [Connection.outcome, hp, hok, if_true]
          rw [hanswer, hstatus'.trans hstatus, hresource']

/-- **The header stage** on all that is left to read. -/
theorem Connection.read_headers_answer (hshutdown : w.shutdown = true)
    (hstatus : s.m_response_status_code = 200) (hbuffer : s.m_resource_buffer = none)
    {chunks : List Bytes} (hlen : s.m_request.length ≤ max_request) :
    (w.outcome (w.read_headers s chunks)).answer =
      stageAnswer w.incoming.ending s.m_requested_resource
        (fileAnswer w.platform s.m_requested_resource
          (w.fs.entry (bytes "D:\\http_root" ++ s.m_requested_resource)))
        (readEnd (CRLF ++ CRLF) max_request (s.m_request ++ chunks.flatten)) := by
  have hread := async_read_until_limited (CRLF ++ CRLF) w.incoming.ending chunks hlen
  unfold Connection.read_headers
  simp only
  rw [hread.completion, run_answer hshutdown (checksError_headers _)]
  obtain ⟨s', hs', hresource, hstatus', hbuffer'⟩ := on_headers_received_success
    { s with m_request := (async_read_until (CRLF ++ CRLF) (some max_request) w.incoming.ending
      s.m_request chunks).buf }
  have hanswer := process_request_answer (s := s') hshutdown (hstatus'.trans hstatus)
    (hbuffer'.trans hbuffer)
  simp only [Connection.run, hs']
  rw [hanswer, hresource]

/-! ### The first stage -/

/-- A text with CRLF has a byte behind its first CR. -/
theorem exists_line_of_CRLF {buf : Bytes} (hin : CRLF <:+: buf) :
    ∃ line c rest, buf = line ++ CR :: c :: rest ∧ CR ∉ line := by
  have hmem : CR ∈ buf := hin.subset (by simp)
  obtain ⟨line, rest, rfl, hcr⟩ := exists_split_of_mem hmem
  cases rest with
  | nil =>
      have hin' := infix_of_append_of_not_mem hcr hin
      exact absurd hin' (by decide)
  | cons c rest => exact ⟨line, c, rest, rfl, hcr⟩

/-- **The first stage** on a line and all that comes after it. -/
theorem Connection.line_answer (hshutdown : w.shutdown = true) {line rest : Bytes} {c : UInt8}
    {chunks : List Bytes} (hcr : CR ∉ line) (hlen : rest.length ≤ max_request) :
    (w.outcome (Connection.run (Service.on_request_line_received
        { Service.new with m_request := line ++ CR :: c :: rest }) (some .success)
        fun s => w.read_headers s chunks)).answer =
      lineAnswer w.platform w.fs w.incoming.ending line (rest ++ chunks.flatten) := by
  have hline := on_request_line_received_words
    (s := { Service.new with m_request := line ++ CR :: c :: rest }) hcr rfl
  have h501 : (Service.http_status_table.lookup 501).isSome = true := by decide
  have h505 : (Service.http_status_table.lookup 505).isSome = true := by decide
  unfold lineAnswer
  simp only [Connection.run, hline]
  by_cases hmethod : (words line).headD [] = bytes "GET"
  · simp only [hmethod, ne_eq, not_true_eq_false, if_false]
    by_cases hversion : (words line).tail.tail.headD [] = bytes "HTTP/1.1"
    · simp only [hversion, not_true_eq_false, if_false]
      exact read_headers_answer hshutdown rfl rfl hlen
    · simp only [hversion, not_false_eq_true, if_true]
      exact respond_answer hshutdown h505
  · simp only [hmethod, ne_eq, not_false_eq_true, if_true]
    exact respond_answer hshutdown h501

/-- **The service answers what `answerOf` says**, however the bytes are divided. -/
theorem Connection.serve_answer (hshutdown : w.shutdown = true) :
    w.serve.answer =
      answerOf w.platform w.fs w.incoming.ending w.incoming.chunks.flatten := by
  have hempty : Service.new.m_request.length ≤ max_request := Nat.zero_le _
  have hread : LimitedRead CRLF max_request w.incoming.ending w.incoming.chunks.flatten
      (async_read_until CRLF (some max_request) w.incoming.ending Service.new.m_request
        w.incoming.chunks) :=
    async_read_until_limited CRLF w.incoming.ending w.incoming.chunks hempty
  rw [serve_eq]
  unfold Connection.start_handling answerOf
  simp only
  rw [hread.completion, run_answer hshutdown (checksError_line _)]
  cases hend : readEnd CRLF max_request w.incoming.chunks.flatten with
  | full => rfl
  | ended => rfl
  | found =>
      obtain ⟨hall, hin, hlen⟩ := hread.found hend
      generalize async_read_until CRLF (some max_request) w.incoming.ending Service.new.m_request
        w.incoming.chunks = r at hall hin hlen
      obtain ⟨line, c, rest, hbuf, hcr⟩ := exists_line_of_CRLF hin
      have htext : w.incoming.chunks.flatten = line ++ CR :: c :: (rest ++ r.chunks.flatten) := by
        rw [← hall, hbuf]
        simp
      rw [htext, IStream.takeWhile_ne_append hcr, IStream.dropWhile_ne_append hcr]
      have hshort : rest.length ≤ max_request := by
        rw [hbuf] at hlen
        simp only [List.length_append, List.length_cons] at hlen
        omega
      rw [hbuf]
      exact line_answer hshutdown hcr hshort

/-! ### When there is no answer -/

/-- The text is a request that is processed, for this resource: the first line fits the
buffer and has these words, and the empty line comes within the limit behind it. -/
structure Requests (text resource : Bytes) : Prop where
  line_fits : CRLF <:+: text.take max_request
  line : ∃ ws, words (text.takeWhile (· != CR)) = bytes "GET" :: resource :: bytes "HTTP/1.1" :: ws
  headers_fit : CRLF ++ CRLF <:+: ((text.dropWhile (· != CR)).drop 2).take max_request

theorem readEnd_eq_found {delim text : Bytes} {m : Nat} :
    readEnd delim m text = .found ↔ delim <:+: text.take m := by
  unfold readEnd
  split
  · simp [*]
  · split <;> simp [*]

theorem stageAnswer_eq_none {ending : Ending} {next : Option Answer} {e : ReadEnd} :
    stageAnswer ending resource next e = none ↔ e = .found ∧ next = none := by
  cases e with
  | found => simp [stageAnswer]
  | full => simp [stageAnswer]
  | ended =>
      simp only [stageAnswer]
      split
      · simp
      · split <;> simp

theorem fileAnswer_eq_none {entry : FileEntry} :
    fileAnswer P resource entry = none ↔ entry.fault P ≠ none := by
  cases entry with
  | opened contents seekable =>
      rw [fileAnswer]
      split <;> simp [*]
  | _ => simp [fileAnswer, FileEntry.fault]

theorem words_eq_cons_iff (ws : List Bytes) {a b : Bytes} (ha : a ≠ []) (hb : b ≠ []) :
    (ws.headD [] = a ∧ ws.tail.tail.headD [] = b) ↔
      ∃ ws', ws = a :: ws.tail.headD [] :: b :: ws' := by
  match ws with
  | [] => simp [ha.symm]
  | [x] => simp [hb.symm]
  | [x, y] => simp [hb.symm]
  | x :: y :: z :: ws' => simp

theorem lineAnswer_eq_none {fs : FileSystem} {ending : Ending} {line rest : Bytes} :
    lineAnswer P fs ending line rest = none ↔
      ∃ resource, (∃ ws, words line = bytes "GET" :: resource :: bytes "HTTP/1.1" :: ws) ∧
        CRLF ++ CRLF <:+: rest.take max_request ∧
        (fs.entry (bytes "D:\\http_root" ++ resource)).fault P ≠ none := by
  have hwords := words_eq_cons_iff (words line) (by decide : bytes "GET" ≠ [])
    (by decide : bytes "HTTP/1.1" ≠ [])
  unfold lineAnswer
  constructor
  · intro h
    simp only [ne_eq, ite_not] at h
    split at h
    · next hmethod =>
      split at h
      · next hversion =>
        obtain ⟨ws, hws⟩ := hwords.mp ⟨hmethod, hversion⟩
        obtain ⟨hheaders, hfile⟩ := stageAnswer_eq_none.mp h
        exact ⟨_, ⟨ws, hws⟩, readEnd_eq_found.mp hheaders, fileAnswer_eq_none.mp hfile⟩
      · exact absurd h nofun
    · exact absurd h nofun
  · intro h
    obtain ⟨resource, ⟨ws, hws⟩, hheaders, hfile⟩ := h
    simp only [hws, List.headD_cons, List.tail_cons, ne_eq, not_true_eq_false, if_false]
    exact stageAnswer_eq_none.mpr
      ⟨readEnd_eq_found.mpr hheaders, fileAnswer_eq_none.mpr hfile⟩

/-- **There is no answer exactly when the look at the file fails.** -/
theorem answerOf_eq_none {fs : FileSystem} (ending : Ending) {text : Bytes} :
    answerOf P fs ending text = none ↔
      ∃ resource, Requests text resource ∧
        (fs.entry (bytes "D:\\http_root" ++ resource)).fault P ≠ none := by
  unfold answerOf
  rw [stageAnswer_eq_none, readEnd_eq_found, lineAnswer_eq_none]
  constructor
  · intro h
    obtain ⟨hline, resource, hwords, hheaders, hfile⟩ := h
    exact ⟨resource, ⟨hline, hwords, hheaders⟩, hfile⟩
  · intro h
    obtain ⟨resource, ⟨hline, hwords, hheaders⟩, hfile⟩ := h
    exact ⟨hline, resource, hwords, hheaders, hfile⟩

/-! ### Two divisions of one stream -/

/-- Both connections come to the same answer. -/
def Agree (o₁ o₂ : Outcome) : Prop := ∃ answer, o₁.answer = some answer ∧ o₂.answer = some answer

/-- **The answer does not depend on the division into reads exactly when the request is not one
for a file with contents**, or for a path at which `exists` throws; for such a request there is
none. -/
theorem agree_iff (platform : Platform) (fs : FileSystem) (ending : Ending) (text : Bytes) :
    (∀ chunks chunks' : List Bytes, chunks.flatten = text → chunks'.flatten = text →
      Agree (Connection.serve ⟨platform, fs, ⟨chunks, ending⟩, true⟩)
        (Connection.serve ⟨platform, fs, ⟨chunks', ending⟩, true⟩)) ↔
      ¬ ∃ resource, Requests text resource ∧
        (fs.entry (bytes "D:\\http_root" ++ resource)).fault platform ≠ none := by
  rw [← answerOf_eq_none ending]
  have hanswer : ∀ chunks : List Bytes, chunks.flatten = text →
      (Connection.serve ⟨platform, fs, ⟨chunks, ending⟩, true⟩).answer =
        answerOf platform fs ending text := by
    intro chunks htext
    subst htext
    exact Connection.serve_answer rfl
  constructor
  · intro hagree hnone
    obtain ⟨answer, h, -⟩ := hagree [text] [text] (List.append_nil _) (List.append_nil _)
    rw [hanswer [text] (List.append_nil _), hnone] at h
    exact absurd h nofun
  · intro hsome chunks chunks' h h'
    obtain ⟨answer, ha⟩ := Option.ne_none_iff_exists'.mp hsome
    exact ⟨answer, (hanswer chunks h).trans ha, (hanswer chunks' h').trans ha⟩

theorem not_agree_file :
    ¬ ∀ (platform : Platform) (fs : FileSystem) (ending : Ending) (text : Bytes)
      (chunks chunks' : List Bytes), chunks.flatten = text → chunks'.flatten = text →
      Agree (Connection.serve ⟨platform, fs, ⟨chunks, ending⟩, true⟩)
        (Connection.serve ⟨platform, fs, ⟨chunks', ending⟩, true⟩) := by
  intro hall
  obtain ⟨answer, h, -⟩ := hall .llp64 (fun _ => .opened [65] true) .silent
    (bytes "GET /a HTTP/1.1\r\nb:c\r\n\r\n") [bytes "GET /a HTTP/1.1\r\nb:c\r\n\r\n"]
    [bytes "GET /a HTTP/1.1\r\nb:c\r\n\r\n"] (List.append_nil _) (List.append_nil _)
  rw [Connection.serve_answer rfl] at h
  have hnone : answerOf .llp64 (fun _ => .opened [65] true) .silent
      (bytes "GET /a HTTP/1.1\r\nb:c\r\n\r\n") = none := by decide
  simp only [List.flatten_cons, List.flatten_nil, List.append_nil, hnone] at h
  exact absurd h nofun

end AsioStudy.HttpServer
