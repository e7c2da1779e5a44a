import AsioStudy.HttpClient.Response

/-!
# AsioStudy.HttpClient.Exchange

Whole exchanges with a server that sends a well-formed response and ends the stream.

The three reading stages share one buffer and each may read into the part of the next
one. `read_status_line_text`, `read_headers_found` and `read_body_eof` say that a stage
hands on exactly the rest of the text, divided between the buffer and the chunks to come.
From them follow `success_faithful` (what a reported success means) and `accepted_iff`
(when success is reported).
-/

namespace AsioStudy.HttpClient

variable {w : Exchange} {x y : HTTPRequest} {chunks : List Bytes} {ec : ErrorCode}

/-! ### Successful exchanges go through every stage -/

/-- A stage before the last one calls `on_finish` with an error only. -/
theorem firstPart_on_finish {P : Platform} {shutdown : Bool} {ec' : ErrorCode} {stage : Stage}
    (h : stage.firstPart P shutdown ec x = (y, .on_finish ec'))
    (hstage : stage ≠ .on_response_body_received) : ec'.value ≠ 0 := by
  have hinvalid : invalid_response.value ≠ 0 := by decide
  cases stage with
  | execute => exact absurd h (by simp [Stage.firstPart])
  | on_host_name_resolved =>
      simp only [Stage.firstPart, on_host_name_resolved] at h
      split at h <;> simp_all
  | on_connection_established =>
      simp only [Stage.firstPart, on_connection_established] at h
      split at h <;> simp_all
  | on_request_sent =>
      simp only [Stage.firstPart, on_request_sent] at h
      split at h
      · simp_all
      · split at h <;> simp_all
  | on_status_line_received =>
      simp only [Stage.firstPart, on_status_line_received] at h
      split at h
      · simp_all
      · split at h
        · simp_all
        · split at h <;> simp_all
  | on_headers_received =>
      simp only [Stage.firstPart, on_headers_received] at h
      split at h
      · simp_all
      · split at h <;> simp_all
  | on_response_body_received => exact absurd rfl hstage

/-- When success is reported, every stage before the last one has gone on. -/
theorem Exchange.run_success {stage : Stage} {completion : Option ErrorCode}
    {next : HTTPRequest → Outcome} (h : w.run stage x completion next = .callback y ec)
    (hok : ec.value = 0) (hstage : stage ≠ .on_response_body_received) :
    ∃ ec' x', completion = some ec' ∧
      stage.firstPart w.platform w.shutdown ec' x = (x', .lock) ∧ next x' = .callback y ec := by
  unfold Exchange.run at h
  cases completion with
  | none => exact absurd h nofun
  | some ec' =>
      simp only at h
      split at h
      · next x' ec'' hpart =>
        obtain ⟨rfl, rfl⟩ := Outcome.callback.inj h
        exact absurd hok (firstPart_on_finish hpart hstage)
      · next x' hpart =>
        split at h
        · obtain ⟨rfl, rfl⟩ := Outcome.callback.inj h
          exact absurd hok (by decide)
        · exact ⟨ec', x', rfl, hpart, h⟩
      · exact absurd h nofun
      · exact absurd h nofun

/-! ### The reading stages -/

/-- A stage that waits for a delimiter which does not come before the end of the stream. -/
theorem Exchange.run_absent {delim : Bytes} {stage : Stage}
    {next : HTTPRequest → List Bytes → Outcome} (hend : w.incoming.ending = .eof)
    (hfinish : ∀ x, stage.firstPart w.platform w.shutdown .eof x = (x, .on_finish .eof))
    (hmiss : ¬ delim <:+: x.m_response.m_response_buf ++ chunks.flatten) :
    let r := async_read_until delim none w.incoming.ending x.m_response.m_response_buf chunks
    w.run stage (x.withBuf r.buf) r.completion (fun x => next x r.chunks) =
      .callback (x.withBuf (x.m_response.m_response_buf ++ chunks.flatten)) .eof := by
  have hread := async_read_until_missing none .eof (fun _ => nofun) hmiss
  rw [if_neg nofun] at hread
  have hbuf := async_read_until_missing_buf .eof hmiss
  simp only [Exchange.run, hend, hread, hbuf, Ending.completion, hfinish]

/-- When the delimiter comes, the stage runs on some buffer that contains it. -/
theorem Exchange.run_found {delim : Bytes} (stage : Stage)
    (next : HTTPRequest → List Bytes → Outcome)
    (hin : delim <:+: x.m_response.m_response_buf ++ chunks.flatten) :
    let r := async_read_until delim none w.incoming.ending x.m_response.m_response_buf chunks
    ∃ buf chunks', delim <:+: buf ∧
      buf ++ chunks'.flatten = x.m_response.m_response_buf ++ chunks.flatten ∧
      w.run stage (x.withBuf r.buf) r.completion (fun x => next x r.chunks) =
        w.run stage (x.withBuf buf) (some .success) (fun x => next x chunks') := by
  obtain ⟨buf, chunks', hread, hin', hall⟩ := async_read_until_found none w.incoming.ending
    (fun _ => nofun) hin
  exact ⟨buf, chunks', hin', hall, by simp only [hread]⟩

/-- The body stage takes everything up to the end of the stream. -/
theorem Exchange.read_body_eof (hend : w.incoming.ending = .eof) :
    w.read_body x chunks =
      .callback (x.withBuf (x.m_response.m_response_buf ++ chunks.flatten)) .success := by
  simp only [Exchange.read_body, async_read, hend, Ending.completion]
  rfl

/-- The header stage on a header block. -/
theorem Exchange.read_headers_found (hend : w.incoming.ending = .eof) {lines : List Bytes}
    {body : Bytes} (hlines : BlockLines lines)
    (hall : x.m_response.m_response_buf ++ chunks.flatten = line_block lines ++ CRLF ++ body)
    (hfound : CRLF ++ CRLF <:+: line_block lines ++ CRLF ++ body) :
    ∃ y, w.read_headers x chunks =
      if w.cancelled .on_headers_received then .callback y .operation_aborted
      else .callback (x.withHeaders lines body) .success := by
  obtain ⟨buf, chunks', hread, hin, hall'⟩ := async_read_until_found none w.incoming.ending
    (fun _ => nofun) (hall ▸ hfound)
  obtain ⟨more, rfl, rfl⟩ := split_at_delim hin (hall'.trans hall) (not_infix_blockEnd hlines)
  have hpart := on_headers_received_block (x := x.withBuf (line_block lines ++ CRLF ++ more))
    hlines rfl
  refine ⟨(x.withHeaders lines more), ?_⟩
  simp only [Exchange.read_headers, hread, Exchange.run, Stage.firstPart, hpart,
    Exchange.read_body_eof hend]
  rfl

/-- Without the empty line the header stage fails. -/
theorem Exchange.read_headers_missing (hend : w.incoming.ending = .eof)
    (hmiss : ¬ CRLF ++ CRLF <:+: x.m_response.m_response_buf ++ chunks.flatten) :
    w.read_headers x chunks =
      .callback (x.withBuf (x.m_response.m_response_buf ++ chunks.flatten)) .eof :=
  Exchange.run_absent hend (fun _ => rfl) hmiss

/-- The status-line stage hands the rest of the response to the header stage. -/
theorem Exchange.read_status_line_text {r : Response}
    (hall : x.m_response.m_response_buf ++ chunks.flatten = r.text) :
    ∃ more chunks', more ++ chunks'.flatten = line_block r.lines ++ CRLF ++ r.body ∧
      w.read_status_line x chunks =
        if w.cancelled .on_status_line_received then
          .callback (x.withStatus r.code r.reason more) .operation_aborted
        else w.read_headers (x.withStatus r.code r.reason more) chunks' := by
  have hfound : CRLF <:+: x.m_response.m_response_buf ++ chunks.flatten := by
    rw [hall, Response.text]
    exact ⟨_, _, rfl⟩
  obtain ⟨buf, chunks', hread, hin, hall'⟩ := async_read_until_found none w.incoming.ending
    (fun _ => nofun) hfound
  obtain ⟨more, rfl, htail⟩ := split_at_delim hin (hall'.trans hall)
    (CRLF_not_infix_line (CR_not_mem_status_line r.reason_oneLine))
  have hpart := on_status_line_received_text (P := w.platform)
    (x := x.withBuf (status_line r.code r.reason ++ CRLF ++ more)) r.reason_oneLine rfl
  refine ⟨more, chunks', htail.symm, ?_⟩
  simp only [Exchange.read_status_line, hread, Exchange.run, Stage.firstPart, hpart]
  rfl

/-- A text whose first word is not the version never gets past the status-line stage. -/
theorem Exchange.read_status_line_version {word rest tail : Bytes} (hne : word ≠ [])
    (hword : ∀ c ∈ word, isspace c = false) (hversion : word ≠ bytes "HTTP/1.1")
    (hrest : CR ∉ rest)
    (hall : x.m_response.m_response_buf ++ chunks.flatten = word ++ SP :: rest ++ CRLF ++ tail)
    (h : w.read_status_line x chunks = .callback y ec) : ec.value ≠ 0 := by
  intro hok
  have hfound : CRLF <:+: x.m_response.m_response_buf ++ chunks.flatten := by
    rw [hall]
    exact ⟨_, _, rfl⟩
  obtain ⟨buf, chunks', hread, hin, hall'⟩ := async_read_until_found none w.incoming.ending
    (fun _ => nofun) hfound
  have hcr : CR ∉ word ++ SP :: rest := by
    have hne' : ¬ CR = SP := by decide
    have hcr' : CR ∉ word := fun hm => absurd (hword CR hm) (by decide)
    simp [hcr', hne', hrest]
  obtain ⟨more, rfl, -⟩ := split_at_delim hin (hall'.trans hall) (CRLF_not_infix_line hcr)
  obtain ⟨ec', x', -, hpart, -⟩ := Exchange.run_success h hok (by simp)
  rw [hread] at hpart
  have hbuf : word ++ SP :: rest ++ CRLF ++ more = word ++ SP :: (rest ++ CRLF ++ more) := by simp
  exact on_status_line_received_version hne hword hversion hbuf hpart

/-! ### A reported success is faithful -/

/-- The first parts before the response leave the response data alone. -/
theorem firstPart_m_response {P : Platform} {shutdown : Bool} {stage : Stage} {exit : Exit}
    (h : stage.firstPart P shutdown ec x = (y, exit))
    (hstage : stage = .execute ∨ stage = .on_host_name_resolved ∨
      stage = .on_connection_established ∨ stage = .on_request_sent) :
    y.m_response = x.m_response := by
  rcases hstage with rfl | rfl | rfl | rfl
  · obtain ⟨rfl, -⟩ := Prod.mk.inj h
    rfl
  · simp only [Stage.firstPart, on_host_name_resolved] at h
    split at h <;> obtain ⟨rfl, -⟩ := Prod.mk.inj h <;> rfl
  · simp only [Stage.firstPart, on_connection_established] at h
    split at h <;> obtain ⟨rfl, -⟩ := Prod.mk.inj h <;> rfl
  · simp only [Stage.firstPart, on_request_sent] at h
    split at h
    · obtain ⟨rfl, -⟩ := Prod.mk.inj h
      rfl
    · split at h <;> obtain ⟨rfl, -⟩ := Prod.mk.inj h <;> rfl

/-- A successful exchange has reached the status-line stage with the response data as they
were. -/
theorem Exchange.execute_success (h : w.execute x = .callback y ec) (hok : ec.value = 0) :
    ∃ x', x'.m_response = x.m_response ∧
      w.read_status_line x' w.incoming.chunks = .callback y ec := by
  obtain ⟨_, x₁, -, hpart₁, h⟩ := Exchange.run_success h hok (by simp)
  obtain ⟨_, x₂, -, hpart₂, h⟩ := Exchange.run_success h hok (by simp)
  obtain ⟨_, x₃, -, hpart₃, h⟩ := Exchange.run_success h hok (by simp)
  obtain ⟨_, x₄, -, hpart₄, h⟩ := Exchange.run_success h hok (by simp)
  refine ⟨x₄, ?_, h⟩
  rw [firstPart_m_response hpart₄ (by simp), firstPart_m_response hpart₃ (by simp),
    firstPart_m_response hpart₂ (by simp), firstPart_m_response hpart₁ (by simp)]

/-- **A reported success is faithful.** Whatever the operations did and however the text of
a response was divided into reads, a callback with success sees the status code, the map
of the header lines and exactly the body. -/
theorem success_faithful (w : Exchange) (m_host m_uri : Bytes) (r : Response)
    (htext : w.incoming.chunks.flatten = r.text) (hend : w.incoming.ending = .eof)
    (h : w.execute (.new m_host m_uri) = .callback y ec) (hok : ec.value = 0) :
    y.m_response.m_status_code.map UInt32.toNat = some r.code.value ∧
    y.m_response.m_headers = headerMap r.lines ∧
    y.m_response.m_response_buf = r.body := by
  obtain ⟨x, hx, h⟩ := Exchange.execute_success h hok
  have hall : x.m_response.m_response_buf ++ w.incoming.chunks.flatten = r.text := by
    rw [hx, htext]
    rfl
  obtain ⟨more, chunks, hrest, hstatus⟩ := Exchange.read_status_line_text (w := w) hall
  rw [hstatus] at h
  split at h
  · obtain ⟨-, rfl⟩ := Outcome.callback.inj h
    exact absurd hok (by decide)
  · by_cases hfound : CRLF ++ CRLF <:+: line_block r.lines ++ CRLF ++ r.body
    · obtain ⟨y', hheaders⟩ := Exchange.read_headers_found (w := w)
        (x := x.withStatus r.code r.reason more) hend r.blockLines hrest hfound
      rw [hheaders] at h
      split at h
      · obtain ⟨-, rfl⟩ := Outcome.callback.inj h
        exact absurd hok (by decide)
      · obtain ⟨rfl, -⟩ := Outcome.callback.inj h
        refine ⟨congrArg some r.code.toNat_value, ?_, rfl⟩
        have hmap : x.m_response.m_headers = .empty := by rw [hx]; rfl
        rw [← foldl_add_header, ← hmap]
        rfl
    · have hheaders := Exchange.read_headers_missing (w := w)
        (x := x.withStatus r.code r.reason more) hend (hrest ▸ hfound)
      rw [hheaders] at h
      obtain ⟨-, rfl⟩ := Outcome.callback.inj h
      exact absurd hok (by decide)

/-- A response with two fields, one of them empty, and a body that contains an empty line. -/
def sampleResponse : Response where
  code := ⟨2, 0, 0⟩
  reason := bytes "OK"
  lines := [bytes "a:", bytes "b:c"]
  body := CRLF ++ CRLF ++ bytes "x"
  reason_oneLine := ⟨by decide, by decide⟩
  lines_oneLine := by
    intro l hl
    simp only [List.mem_cons, List.not_mem_nil, or_false] at hl
    rcases hl with rfl | rfl <;> exact ⟨by decide, by decide, by decide⟩

/-- An undisturbed exchange in which these chunks arrive. -/
def Exchange.undisturbed (chunks : List Bytes) : Exchange where
  platform := .llp64
  resolve := .success
  connect := .success
  write := .success
  shutdown := true
  incoming := ⟨chunks, .eof⟩
  cancelled := fun _ => false

/-- Its text, divided in the middle of the line end of the status line. -/
def sampleChunks : List Bytes := [sampleResponse.text.take 16, sampleResponse.text.drop 16]

theorem success_faithful_sample :
    ∃ y ec, (Exchange.undisturbed sampleChunks).execute (.new (bytes "h") (bytes "/")) =
        .callback y ec ∧
      y.m_response.m_status_code.map UInt32.toNat = some 200 ∧
      y.m_response.m_headers = headerMap [bytes "a:", bytes "b:c"] ∧
      y.m_response.m_response_buf = CRLF ++ CRLF ++ bytes "x" := by
  refine ⟨_, _, rfl, ?_⟩
  exact success_faithful (.undisturbed sampleChunks) (bytes "h") (bytes "/") sampleResponse
    (by decide) rfl rfl rfl

/-! ### When success is reported -/

/-- Nothing outside goes wrong: no cancellation and no transport error. -/
structure Exchange.Undisturbed (w : Exchange) : Prop where
  cancelled : ∀ stage, w.cancelled stage = false
  resolve : w.resolve = .success
  connect : w.connect = .success
  write : w.write = .success
  shutdown : w.shutdown = true

/-- An undisturbed exchange reaches the status-line stage. -/
theorem Exchange.execute_undisturbed (hw : w.Undisturbed) :
    ∃ x', x'.m_response = x.m_response ∧
      w.execute x = w.read_status_line x' w.incoming.chunks := by
  refine ⟨{ x with m_request_buf := x.m_request_buf ++ request_text x.m_uri x.m_host }, rfl, ?_⟩
  simp only [Exchange.execute, Exchange.request_sent, Exchange.run, Stage.firstPart,
    on_host_name_resolved, on_connection_established, on_request_sent, hw.resolve, hw.connect,
    hw.write, hw.shutdown, hw.cancelled]
  rfl

/-- The callback is invoked with success. -/
def Outcome.Succeeds (o : Outcome) : Prop := ∃ y ec, o = .callback y ec ∧ ec.value = 0

/-- **When a well-formed response is accepted.** The status-line stage has taken the
`"\r\n"` that the header stage needs when there is no header line; then only a body that
supplies another empty line is accepted. -/
theorem accepted_iff (w : Exchange) (m_host m_uri : Bytes) (r : Response) (hw : w.Undisturbed)
    (htext : w.incoming.chunks.flatten = r.text) (hend : w.incoming.ending = .eof) :
    (w.execute (.new m_host m_uri)).Succeeds ↔
      r.lines ≠ [] ∨ CRLF <+: r.body ∨ CRLF ++ CRLF <:+: r.body := by
  rw [← infix_emptyLine_iff r.lines r.body]
  obtain ⟨x, hx, hexec⟩ := Exchange.execute_undisturbed (x := .new m_host m_uri) hw
  have hall : x.m_response.m_response_buf ++ w.incoming.chunks.flatten = r.text := by
    rw [hx, htext]
    rfl
  obtain ⟨more, chunks, hrest, hstatus⟩ := Exchange.read_status_line_text (w := w) hall
  rw [hexec, hstatus, hw.cancelled, if_neg Bool.false_ne_true]
  constructor
  · rintro ⟨y, ec, h, hok⟩
    by_contra hmiss
    have hheaders := Exchange.read_headers_missing (w := w)
      (x := x.withStatus r.code r.reason more) hend (hrest ▸ hmiss)
    rw [hheaders] at h
    obtain ⟨-, rfl⟩ := Outcome.callback.inj h
    exact absurd hok (by decide)
  · intro hfound
    obtain ⟨y', hheaders⟩ := Exchange.read_headers_found (w := w)
      (x := x.withStatus r.code r.reason more) hend r.blockLines hrest hfound
    rw [hheaders, hw.cancelled, if_neg Bool.false_ne_true]
    exact ⟨_, _, rfl, rfl⟩

theorem accepted_iff_sample :
    ((Exchange.undisturbed [sampleResponse.text]).execute
      (.new (bytes "h") (bytes "/"))).Succeeds :=
  (accepted_iff _ _ _ sampleResponse ⟨fun _ => rfl, rfl, rfl, rfl, rfl⟩ (by decide) rfl).mpr
    (.inl nofun)

/-- A response without a header line and without a body. -/
def bareResponse : Response where
  code := ⟨2, 0, 4⟩
  reason := bytes "No Content"
  lines := []
  body := []
  reason_oneLine := ⟨by decide, by decide⟩
  lines_oneLine := nofun

/-- The header stage runs into the end of the stream. -/
theorem not_accepted_bare :
    ¬ ∀ (w : Exchange) (m_host m_uri : Bytes) (r : Response), w.Undisturbed →
      w.incoming.chunks.flatten = r.text → w.incoming.ending = .eof →
        (w.execute (.new m_host m_uri)).Succeeds := by
  intro h
  obtain ⟨y, ec, hcall, hok⟩ := h (.undisturbed [bareResponse.text]) (bytes "h") (bytes "/")
    bareResponse ⟨fun _ => rfl, rfl, rfl, rfl, rfl⟩ (by decide) rfl
  have heof : ∃ y, (Exchange.undisturbed [bareResponse.text]).execute
      (.new (bytes "h") (bytes "/")) = .callback y .eof := ⟨_, rfl⟩
  obtain ⟨y', heof⟩ := heof
  rw [heof] at hcall
  obtain ⟨-, rfl⟩ := Outcome.callback.inj hcall
  exact absurd hok (by decide)

end AsioStudy.HttpClient
