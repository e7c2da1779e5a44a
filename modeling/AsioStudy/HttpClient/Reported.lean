import AsioStudy.HttpClient.Exchange

/-!
# AsioStudy.HttpClient.Reported

What the callback is given, stage by stage, on any bytes.

A stage waits until the buffer contains its delimiter and then parses all the buffer holds
(`read_status_line_buffered`, `read_headers_buffered`). The lemmas after these say what is
reported for a buffer of a given form, whatever arrives after it.
-/

namespace AsioStudy.HttpClient

variable {P : Platform} {w w' : Exchange} {x y : HTTPRequest} {chunks chunks' : List Bytes}
  {text head tail buf rest : Bytes} {r : HTTPResponse} {ec ec' : ErrorCode} {lines : List RawLine}

/-- What the callback is given; `none`: it is not invoked. -/
def Outcome.reported : Outcome → Option (HTTPResponse × ErrorCode)
  | .callback x ec => some (x.m_response, ec)
  | .pending | .threw | .loops => none

def HTTPResponse.withBuf (r : HTTPResponse) (buf : Bytes) : HTTPResponse :=
  { r with m_response_buf := buf }

/-- Nothing goes wrong and the server ends the stream. -/
structure Exchange.Complete (w : Exchange) : Prop extends w.Undisturbed where
  ending : w.incoming.ending = .eof

/-! ### Running a stage -/

theorem Exchange.run_finishes {stage : Stage} {next : HTTPRequest → Outcome}
    (h : stage.firstPart w.platform w.shutdown ec x = (y, .on_finish ec')) :
    w.run stage x (some ec) next = .callback y ec' := by
  simp only [Exchange.run, h]

theorem Exchange.run_goes_on (hw : w.Undisturbed) {stage : Stage} {next : HTTPRequest → Outcome}
    (h : stage.firstPart w.platform w.shutdown ec x = (y, .lock)) :
    w.run stage x (some ec) next = next y := by
  simp only [Exchange.run, h, hw.cancelled, Bool.false_eq_true, if_false]

/-! ### The header stage -/

theorem Exchange.read_headers_absent (hw : w.Complete) (hx : x.m_response = r.withBuf buf)
    (hall : buf ++ chunks.flatten = text) (hmiss : ¬ CRLF ++ CRLF <:+: text) :
    (w.read_headers x chunks).reported = some (r.withBuf text, .eof) := by
  have hbuf : x.m_response.m_response_buf = buf := by rw [hx]; rfl
  have hmiss' : ¬ CRLF ++ CRLF <:+: x.m_response.m_response_buf ++ chunks.flatten := by
    rwa [hbuf, hall]
  rw [Exchange.read_headers_missing hw.ending hmiss', hbuf, hall]
  simp only [Outcome.reported, HTTPRequest.withBuf, hx]
  rfl

/-- The stage on a buffer that contains the delimiter. -/
theorem Exchange.read_headers_present (hin : CRLF ++ CRLF <:+: x.m_response.m_response_buf) :
    w.read_headers x chunks =
      w.run .on_headers_received x (some .success) fun x => w.read_body x chunks := by
  simp only [Exchange.read_headers, async_read_until_present none _ chunks hin]
  rfl

/-- When the delimiter comes, the stage goes on with some buffer that contains it. -/
theorem Exchange.read_headers_buffered (hin : CRLF ++ CRLF <:+: text)
    (hx : x.m_response = r.withBuf buf) (hall : buf ++ chunks.flatten = text) :
    ∃ y buf' chunks', y.m_response = r.withBuf buf' ∧ CRLF ++ CRLF <:+: buf' ∧
      buf' ++ chunks'.flatten = text ∧ w.read_headers x chunks = w.read_headers y chunks' := by
  subst hall
  have hbuf : x.m_response.m_response_buf = buf := by rw [hx]; rfl
  obtain ⟨buf', chunks', hin', hall', hrun⟩ :=
    Exchange.run_found (w := w) .on_headers_received w.read_body (hbuf.symm ▸ hin)
  refine ⟨x.withBuf buf', buf', chunks', ?_, hin', hbuf ▸ hall', ?_⟩
  · rw [HTTPRequest.withBuf, hx]
    rfl
  · rw [Exchange.read_headers_present (x := x.withBuf buf') hin']
    exact hrun

/-- The body stage after a header block. -/
theorem Exchange.read_headers_lock (hw : w.Complete)
    (hin : CRLF ++ CRLF <:+: x.m_response.m_response_buf) {m : HTTPResponse}
    (hpart : on_headers_received x .success = ({ x with m_response := m }, .lock)) :
    (w.read_headers x chunks).reported =
      some (m.withBuf (m.m_response_buf ++ chunks.flatten), .success) := by
  have hlock : Stage.on_headers_received.firstPart w.platform w.shutdown .success x =
      ({ x with m_response := m }, .lock) := hpart
  rw [Exchange.read_headers_present hin, Exchange.run_goes_on hw.toUndisturbed hlock,
    Exchange.read_body_eof hw.ending]
  rfl

/-- The stage on a buffer in which the loop meets an empty text. -/
theorem Exchange.read_headers_empty (hw : w.Complete) {c : UInt8}
    (hx : x.m_response = r.withBuf (rawLines lines ++ CR :: c :: rest))
    (hin : CRLF ++ CRLF <:+: rawLines lines ++ CR :: c :: rest) :
    (w.read_headers x chunks).reported =
      some (r.withHeaders lines (rest ++ chunks.flatten), .success) := by
  have hbuf : x.m_response.m_response_buf = rawLines lines ++ CR :: c :: rest := by rw [hx]; rfl
  rw [Exchange.read_headers_lock hw (hbuf ▸ hin) (on_headers_received_empty hbuf), hx]
  rfl

/-- The stage on a buffer that ends where the loop begins a line. -/
theorem Exchange.read_headers_end (hw : w.Complete)
    (hx : x.m_response = r.withBuf (rawLines lines ++ tail)) (htail : tail = [] ∨ tail = [CR])
    (hin : CRLF ++ CRLF <:+: rawLines lines ++ tail) :
    (w.read_headers x chunks).reported = some (r.withHeaders lines chunks.flatten, .success) := by
  have hbuf : x.m_response.m_response_buf = rawLines lines ++ tail := by rw [hx]; rfl
  rw [Exchange.read_headers_lock hw (hbuf ▸ hin) (on_headers_received_end hbuf htail), hx]
  rfl

/-- The stage on a buffer that ends in a text. -/
theorem Exchange.read_headers_loops
    (hx : x.m_response = r.withBuf (rawLines lines ++ tail)) (hne : tail ≠ []) (hcr : CR ∉ tail)
    (hin : CRLF ++ CRLF <:+: rawLines lines ++ tail) :
    (w.read_headers x chunks).reported = none := by
  have hbuf : x.m_response.m_response_buf = rawLines lines ++ tail := by rw [hx]; rfl
  have hloops : Stage.on_headers_received.firstPart w.platform w.shutdown .success x =
      (x, .loops) := on_headers_received_loops hbuf hne hcr
  rw [Exchange.read_headers_present (hbuf ▸ hin)]
  simp only [Exchange.run, hloops]
  rfl

/-- The header stage never reports an invalid response. -/
theorem Exchange.read_headers_ne_invalid (hw : w.Complete) :
    (w.read_headers x chunks).reported ≠ some (r, invalid_response) := by
  have heof : ErrorCode.eof ≠ invalid_response := by decide
  have hsuccess : ErrorCode.success ≠ invalid_response := by decide
  by_cases hin : CRLF ++ CRLF <:+: x.m_response.m_response_buf ++ chunks.flatten
  · obtain ⟨y, buf, chunks', hy, hin', -, heq⟩ :=
      Exchange.read_headers_buffered (w := w) (r := x.m_response) hin rfl rfl
    have hbuf : y.m_response.m_response_buf = buf := by rw [hy]; rfl
    rw [heq, Exchange.read_headers_present (hbuf ▸ hin')]
    cases hloop : header_loop (y.m_response.m_response_buf.length + 2) []
        (IStream.on y.m_response.m_response_buf) y.m_response.m_headers with
    | none => simp [Exchange.run, Stage.firstPart, on_headers_received, hloop, Outcome.reported]
    | some p =>
        have hpart : Stage.on_headers_received.firstPart w.platform w.shutdown .success y =
            ({ y with m_response := { y.m_response with
                m_headers := p.2
                m_response_buf := p.1.rest } }, .lock) := by
          simp [Stage.firstPart, on_headers_received, hloop]
        rw [Exchange.run_goes_on hw.toUndisturbed hpart, Exchange.read_body_eof hw.ending]
        simp [Outcome.reported, hsuccess]
  · rw [Exchange.read_headers_absent (r := x.m_response) hw rfl rfl hin]
    simp [heof]

/-! ### When nothing more arrives -/

/-- A first part works on the response data only. -/
theorem firstPart_congr (P : Platform) (shutdown : Bool) (ec : ErrorCode) (stage : Stage)
    (hx : x.m_response = y.m_response) :
    (stage.firstPart P shutdown ec x).1.m_response =
        (stage.firstPart P shutdown ec y).1.m_response ∧
      (stage.firstPart P shutdown ec x).2 = (stage.firstPart P shutdown ec y).2 := by
  cases stage with
  | execute => exact ⟨hx, rfl⟩
  | on_host_name_resolved =>
      simp only [Stage.firstPart, on_host_name_resolved]
      split <;> exact ⟨hx, rfl⟩
  | on_connection_established =>
      simp only [Stage.firstPart, on_connection_established]
      split <;> exact ⟨hx, rfl⟩
  | on_request_sent =>
      simp only [Stage.firstPart, on_request_sent]
      split
      · exact ⟨hx, rfl⟩
      · split <;> exact ⟨hx, rfl⟩
  | on_status_line_received =>
      simp only [Stage.firstPart, on_status_line_received, HTTPRequest.withBuf, hx]
      split
      · exact ⟨hx, rfl⟩
      · split
        · exact ⟨rfl, rfl⟩
        · split <;> exact ⟨rfl, rfl⟩
  | on_headers_received =>
      simp only [Stage.firstPart, on_headers_received, hx]
      split
      · exact ⟨hx, rfl⟩
      · split
        · exact ⟨hx, rfl⟩
        · exact ⟨rfl, rfl⟩
  | on_response_body_received =>
      simp only [Stage.firstPart, on_response_body_received]
      split <;> exact ⟨hx, rfl⟩

/-- Two exchanges with the same response data go through a stage alike. -/
theorem Exchange.run_congr (hw : w.Complete) (hw' : w'.Complete) (hP : w.platform = w'.platform)
    (stage : Stage) (completion : Option ErrorCode) (hx : x.m_response = y.m_response)
    {next next' : HTTPRequest → Outcome}
    (hnext : ∀ x y : HTTPRequest, x.m_response = y.m_response →
      (next x).reported = (next' y).reported) :
    (w.run stage x completion next).reported = (w'.run stage y completion next').reported := by
  unfold Exchange.run
  cases completion with
  | none => rfl
  | some ec =>
      have hpart := firstPart_congr w.platform w.shutdown ec stage hx
      have hshutdown : w'.shutdown = w.shutdown := hw'.shutdown.trans hw.shutdown.symm
      rw [← hP, hshutdown]
      cases hfst : stage.firstPart w.platform w.shutdown ec x with
      | mk x' exit =>
          cases hsnd : stage.firstPart w.platform w.shutdown ec y with
          | mk y' exit' =>
              rw [hfst, hsnd] at hpart
              obtain ⟨hx', rfl⟩ := hpart
              simp only [hfst, hsnd]
              cases exit with
              | on_finish ec' => exact congrArg (fun m => some (m, ec')) hx'
              | lock =>
                  simp only [hw.cancelled, hw'.cancelled, Bool.false_eq_true, if_false]
                  exact hnext x' y' hx'
              | threw => rfl
              | loops => rfl

theorem Exchange.read_body_no_more (hw : w.Complete) (hw' : w'.Complete)
    (hx : x.m_response = y.m_response) (hchunks : chunks.flatten = [])
    (hchunks' : chunks'.flatten = []) :
    (w.read_body x chunks).reported = (w'.read_body y chunks').reported := by
  rw [Exchange.read_body_eof hw.ending, Exchange.read_body_eof hw'.ending, hchunks, hchunks']
  simp only [Outcome.reported, HTTPRequest.withBuf, hx]

theorem Exchange.read_headers_no_more (hw : w.Complete) (hw' : w'.Complete)
    (hP : w.platform = w'.platform) (hx : x.m_response = y.m_response)
    (hchunks : chunks.flatten = []) (hchunks' : chunks'.flatten = []) :
    (w.read_headers x chunks).reported = (w'.read_headers y chunks').reported := by
  obtain ⟨left, hread, hleft⟩ := async_read_until_no_more (CRLF ++ CRLF)
    x.m_response.m_response_buf .eof hchunks
  obtain ⟨left', hread', hleft'⟩ := async_read_until_no_more (CRLF ++ CRLF)
    x.m_response.m_response_buf .eof hchunks'
  simp only [Exchange.read_headers, hw.ending, hw'.ending, ← hx, hread, hread']
  refine Exchange.run_congr hw hw' hP _ _ (by simp only [HTTPRequest.withBuf, hx]) ?_
  intro x y hx
  exact Exchange.read_body_no_more hw hw' hx hleft hleft'

/-! ### The status-line stage -/

theorem Exchange.read_status_line_absent (hw : w.Complete) (hx : x.m_response = .new)
    (hmiss : ¬ CRLF <:+: chunks.flatten) :
    (w.read_status_line x chunks).reported =
      some (HTTPResponse.new.withBuf chunks.flatten, .eof) := by
  have hbuf : x.m_response.m_response_buf ++ chunks.flatten = chunks.flatten := by rw [hx]; rfl
  have hrun : w.read_status_line x chunks = _ :=
    Exchange.run_absent hw.ending (fun _ => rfl) (hbuf.symm ▸ hmiss)
  rw [hrun, hbuf]
  simp only [Outcome.reported, HTTPRequest.withBuf, hx]
  rfl

/-- The stage on a buffer that contains the delimiter. -/
theorem Exchange.read_status_line_present (hin : CRLF <:+: x.m_response.m_response_buf) :
    w.read_status_line x chunks =
      w.run .on_status_line_received x (some .success) fun x => w.read_headers x chunks := by
  simp only [Exchange.read_status_line, async_read_until_present none _ chunks hin]
  rfl

/-- When the delimiter comes, the stage goes on with some buffer that contains it. -/
theorem Exchange.read_status_line_buffered (hx : x.m_response = .new)
    (hin : CRLF <:+: chunks.flatten) :
    ∃ y buf chunks', y.m_response = HTTPResponse.new.withBuf buf ∧ CRLF <:+: buf ∧
      buf ++ chunks'.flatten = chunks.flatten ∧
      w.read_status_line x chunks = w.read_status_line y chunks' := by
  have hbuf : x.m_response.m_response_buf ++ chunks.flatten = chunks.flatten := by rw [hx]; rfl
  obtain ⟨buf, chunks', hin', hall, hrun⟩ :=
    Exchange.run_found (w := w) .on_status_line_received w.read_headers (hbuf.symm ▸ hin)
  refine ⟨x.withBuf buf, buf, chunks', ?_, hin', hall.trans hbuf, ?_⟩
  · rw [HTTPRequest.withBuf, hx]
    rfl
  · rw [Exchange.read_status_line_present (x := x.withBuf buf) hin']
    exact hrun

/-- A first read that brings the delimiter. -/
theorem Exchange.read_status_line_first (hx : x.m_response = .new) (hin : CRLF <:+: buf) :
    w.read_status_line x (buf :: chunks) = w.read_status_line (x.withBuf buf) chunks := by
  have hnil : ¬ CRLF <:+: [] := by decide
  rw [Exchange.read_status_line_present (x := x.withBuf buf) hin]
  simp [Exchange.read_status_line, hx, HTTPResponse.new, async_read_until, transfer, hnil,
    async_read_until_present none _ chunks hin, HTTPRequest.withBuf]

section
variable {ws version ws' word tail' : Bytes} {code : Nat}

/-- What a refused buffer leaves unread. -/
def refusedRest (version tail tail' : Bytes) : Bytes :=
  if version ≠ bytes "HTTP/1.1" then tail else tail'

theorem Exchange.read_status_line_refused (hx : x.m_response = HTTPResponse.new.withBuf buf)
    (hin : CRLF <:+: buf) (hversion : FirstWord buf ws version tail)
    (hword : FirstWord tail ws' word tail')
    (hrefused : version ≠ bytes "HTTP/1.1" ∨ stoul w.platform word = none) :
    (w.read_status_line x chunks).reported =
      some (HTTPResponse.new.withBuf (refusedRest version tail tail'), invalid_response) := by
  have hbuf : x.m_response.m_response_buf = buf := by rw [hx]; rfl
  have hpart : Stage.on_status_line_received.firstPart w.platform w.shutdown .success x =
      (x.withBuf (refusedRest version tail tail'), .on_finish invalid_response) := by
    refine (on_status_line_received_eq hbuf hversion hword).trans ?_
    unfold refusedRest
    split
    · rfl
    · next hv => rw [hrefused.resolve_left hv]
  rw [Exchange.read_status_line_present (hbuf ▸ hin), Exchange.run_finishes hpart]
  simp only [Outcome.reported, HTTPRequest.withBuf, hx]
  rfl

theorem Exchange.read_status_line_accepted (hw : w.Complete)
    (hx : x.m_response = HTTPResponse.new.withBuf buf) (hin : CRLF <:+: buf)
    (hversion : FirstWord buf ws (bytes "HTTP/1.1") tail) (hword : FirstWord tail ws' word tail')
    (hcode : stoul w.platform word = some code) :
    (w.read_status_line x chunks).reported ≠ some (r, invalid_response) := by
  have hbuf : x.m_response.m_response_buf = buf := by rw [hx]; rfl
  have hpart := on_status_line_received_eq (P := w.platform) hbuf hversion hword
  simp only [ne_eq, not_true_eq_false, if_false, hcode] at hpart
  have hlock : Stage.on_status_line_received.firstPart w.platform w.shutdown .success x = _ :=
    hpart
  rw [Exchange.read_status_line_present (hbuf ▸ hin), Exchange.run_goes_on hw.toUndisturbed hlock]
  exact Exchange.read_headers_ne_invalid hw

end

/-- A complete status line is consumed, whatever follows it. -/
theorem Exchange.read_status_line_head (hw : w.Complete) (hP : w.platform = P)
    (h : StatusHead P) (chunks : List Bytes)
    (hx : x.m_response = HTTPResponse.new.withBuf (h.text ++ rest))
    (hin : CRLF <:+: h.text ++ rest) :
    ∃ y, y.m_response = (HTTPResponse.new.withStatus h.code h.message []).withBuf rest ∧
      w.read_status_line x chunks = w.read_headers y chunks := by
  subst hP
  have hbuf : x.m_response.m_response_buf = h.text ++ rest := by rw [hx]; rfl
  have hlock : Stage.on_status_line_received.firstPart w.platform w.shutdown .success x = _ :=
    h.on_status_line_received hbuf
  refine ⟨{ x with m_response := x.m_response.withStatus h.code h.message rest }, ?_, ?_⟩
  · rw [hx]
    rfl
  · rw [Exchange.read_status_line_present (hbuf ▸ hin), Exchange.run_goes_on hw.toUndisturbed hlock]

theorem Exchange.read_status_line_unnumbered (hP : w.platform = P) (h : Unnumbered P buf)
    (hx : x.m_response = HTTPResponse.new.withBuf buf) (hin : CRLF <:+: buf) :
    (w.read_status_line x chunks).reported =
      some (HTTPResponse.new.withBuf [], invalid_response) := by
  subst hP
  have hbuf : x.m_response.m_response_buf = buf := by rw [hx]; rfl
  have hfinish : Stage.on_status_line_received.firstPart w.platform w.shutdown .success x = _ :=
    h.on_status_line_received hbuf
  rw [Exchange.read_status_line_present (hbuf ▸ hin), Exchange.run_finishes hfinish]
  simp only [Outcome.reported, HTTPRequest.withBuf, hx]
  rfl

end AsioStudy.HttpClient
