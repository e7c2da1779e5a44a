import AsioStudy.HttpClient.Reported

/-!
# AsioStudy.HttpClient.Reuse

A request object that is executed several times.

No member is cleared when `execute` starts: the request text is appended to
`m_request_buf`, the headers are added to `m_headers`, and the unread bytes of the previous
response stay in front of the next one. (The socket is no obstacle: `async_connect` closes
it and opens it anew.) An execution is `Independent` when it writes and reports what it
would on a new object; whether it is so depends only on what the object holds when it starts
(`allIndependent_iff`).
-/

namespace AsioStudy.HttpClient

variable {w : Exchange} {x y : HTTPRequest} {ec : ErrorCode}

/-- One `execute()` and the target it is made for. -/
structure Execution where
  m_host : Bytes
  m_uri : Bytes
  exchange : Exchange

/-- `set_host` and `set_uri` -/
def HTTPRequest.retarget (x : HTTPRequest) (e : Execution) : HTTPRequest :=
  { x with m_host := e.m_host, m_uri := e.m_uri }

/-- The text handed to `async_write`; `none` when the execution ends before. -/
def Exchange.text_written (w : Exchange) (x : HTTPRequest) : Option Bytes :=
  match on_host_name_resolved x w.resolve with
  | (x, .lock) =>
      match on_connection_established x w.connect with
      | (x, .lock) => some x.m_request_buf
      | _ => none
  | _ => none

/-- Nobody calls `cancel`. -/
def Exchange.NotCancelled (w : Exchange) : Prop := ∀ stage, w.cancelled stage = false

/-- The text is one request for the current target, and the callback is given what it would
be given on a new object. -/
structure Exchange.Independent (w : Exchange) (x : HTTPRequest) : Prop where
  written : ∀ text, w.text_written x = some text → text = request_text x.m_uri x.m_host
  reported : (w.execute x).reported = (w.execute (.new x.m_host x.m_uri)).reported

/-- Every one of the executions is independent, each made when the callback of the previous
one has run. -/
def AllIndependent : HTTPRequest → List Execution → Prop
  | _, [] => True
  | x, e :: es =>
      e.exchange.Independent (x.retarget e) ∧
        ∀ y ec, e.exchange.execute (x.retarget e) = .callback y ec → AllIndependent y es

/-- The connection is established. -/
def Exchange.Connects (w : Exchange) : Prop := w.resolve.value = 0 ∧ w.connect.value = 0

/-- An execution that establishes its connection starts without a request text; one that does
not starts with the response object as it was constructed. -/
structure Exchange.StartsClean (w : Exchange) (x : HTTPRequest) : Prop where
  request : w.Connects → x.m_request_buf = []
  response : ¬ w.Connects → x.m_response = .new

/-- Every one of the executions starts clean. -/
def AllStartClean : HTTPRequest → List Execution → Prop
  | _, [] => True
  | x, e :: es =>
      e.exchange.StartsClean (x.retarget e) ∧
        ∀ y ec, e.exchange.execute (x.retarget e) = .callback y ec → AllStartClean y es

/-! ### What an execution leaves -/

/-- The connection is what the request text comes from. -/
theorem firstPart_m_request_buf {P : Platform} {shutdown : Bool} {stage : Stage} {exit : Exit}
    (hstage : stage ≠ .on_connection_established)
    (h : stage.firstPart P shutdown ec x = (y, exit)) : y.m_request_buf = x.m_request_buf := by
  have hy : y = (stage.firstPart P shutdown ec x).1 := by rw [h]
  subst hy
  cases stage with
  | execute => rfl
  | on_host_name_resolved =>
      simp only [Stage.firstPart, on_host_name_resolved]
      split <;> rfl
  | on_connection_established => exact absurd rfl hstage
  | on_request_sent =>
      simp only [Stage.firstPart, on_request_sent]
      split
      · rfl
      · split <;> rfl
  | on_status_line_received =>
      simp only [Stage.firstPart, on_status_line_received]
      split
      · rfl
      · split
        · rfl
        · split <;> rfl
  | on_headers_received =>
      simp only [Stage.firstPart, on_headers_received]
      split
      · rfl
      · split <;> rfl
  | on_response_body_received =>
      simp only [Stage.firstPart, on_response_body_received]
      split <;> rfl

/-- What every continuation leaves alone, the stage before it leaves alone. -/
theorem Exchange.run_m_request_buf {stage : Stage} {completion : Option ErrorCode}
    {next : HTTPRequest → Outcome} {buf : Bytes} (hstage : stage ≠ .on_connection_established)
    (h : w.run stage x completion next = .callback y ec) (hx : x.m_request_buf = buf)
    (hnext : ∀ x', x'.m_request_buf = buf → next x' = .callback y ec → y.m_request_buf = buf) :
    y.m_request_buf = buf := by
  unfold Exchange.run at h
  cases completion with
  | none => exact absurd h (by simp)
  | some ec' =>
      simp only at h
      split at h
      · next x' ec'' hpart =>
        obtain ⟨rfl, -⟩ := Outcome.callback.inj h
        exact (firstPart_m_request_buf hstage hpart).trans hx
      · next x' hpart =>
        have hx' := (firstPart_m_request_buf hstage hpart).trans hx
        split at h
        · obtain ⟨rfl, -⟩ := Outcome.callback.inj h
          exact hx'
        · exact hnext x' hx' h
      · exact absurd h (by simp)
      · exact absurd h (by simp)

/-- From `on_request_sent` on the text stays as it is. -/
theorem Exchange.request_sent_m_request_buf (h : w.request_sent x = .callback y ec) :
    y.m_request_buf = x.m_request_buf := by
  refine Exchange.run_m_request_buf (by simp) h rfl ?_
  intro x₁ hx₁ h₁
  simp only [Exchange.read_status_line] at h₁
  refine Exchange.run_m_request_buf (by simp) h₁ hx₁ ?_
  intro x₂ hx₂ h₂
  simp only [Exchange.read_headers] at h₂
  refine Exchange.run_m_request_buf (by simp) h₂ hx₂ ?_
  intro x₃ hx₃ h₃
  simp only [Exchange.read_body] at h₃
  -- `on_response_body_received` has no continuation
  exact Exchange.run_m_request_buf (by simp) h₃ hx₃ fun _ _ h₄ => absurd h₄ (by simp)

/-- An execution that does not establish its connection changes nothing. -/
theorem Exchange.execute_not_connects (hw : w.NotCancelled) (hnot : ¬ w.Connects) :
    w.text_written x = none ∧ ∃ ec, ∀ x, w.execute x = .callback x ec := by
  by_cases hresolve : w.resolve.value = 0
  · have hconnect : w.connect.value ≠ 0 := fun h => hnot ⟨hresolve, h⟩
    refine ⟨?_, w.connect, fun x => ?_⟩
    · simp [Exchange.text_written, on_host_name_resolved, on_connection_established, hresolve,
        hconnect]
    · simp [Exchange.execute, Exchange.run, Stage.firstPart, on_host_name_resolved,
        on_connection_established, hw _, hresolve, hconnect]
  · refine ⟨?_, w.resolve, fun x => ?_⟩
    · simp [Exchange.text_written, on_host_name_resolved, hresolve]
    · simp [Exchange.execute, Exchange.run, Stage.firstPart, on_host_name_resolved, hw _, hresolve]

/-- One that does goes on with the text it has made. -/
theorem Exchange.execute_connects (hw : w.NotCancelled) (h : w.Connects) :
    w.text_written x = some x.written ∧
      w.execute x = w.request_sent { x with m_request_buf := x.written } := by
  have hwritten : x.written = x.m_request_buf ++ request_text x.m_uri x.m_host := rfl
  constructor
  · simp [Exchange.text_written, on_host_name_resolved, on_connection_established, h.1, h.2,
      hwritten]
  · simp [Exchange.execute, Exchange.run, Stage.firstPart, on_host_name_resolved,
      on_connection_established, hw _, h.1, h.2, hwritten]

theorem written_ne_nil (x : HTTPRequest) : x.written ≠ [] := by
  have hwritten : x.written = x.m_request_buf ++ request_text x.m_uri x.m_host := rfl
  have hlit : bytes "GET " ≠ [] := by decide
  simp [hwritten, request_text, hlit]

/-- As long as no connection has been established, nothing of a response has been stored. -/
def Untouched (x : HTTPRequest) : Prop := x.m_request_buf = [] → x.m_response = .new

theorem Exchange.execute_untouched (hw : w.NotCancelled) (hx : Untouched x)
    (h : w.execute x = .callback y ec) : Untouched y := by
  by_cases hconnects : w.Connects
  · rw [(Exchange.execute_connects hw hconnects).2] at h
    intro hnil
    -- the buffer is never empty again
    exact absurd ((Exchange.request_sent_m_request_buf h).symm.trans hnil) (written_ne_nil x)
  · obtain ⟨-, ec', hexec⟩ := Exchange.execute_not_connects (x := x) hw hconnects
    obtain ⟨rfl, -⟩ := Outcome.callback.inj ((hexec x).symm.trans h)
    exact hx

/-! ### When an execution is independent -/

theorem Exchange.independent_iff_startsClean (hw : w.NotCancelled) (hx : Untouched x) :
    w.Independent x ↔ w.StartsClean x := by
  by_cases hconnects : w.Connects
  · constructor
    · intro h
      refine ⟨fun _ => ?_, fun hnot => absurd hconnects hnot⟩
      have htext := h.written _ (Exchange.execute_connects hw hconnects).1
      -- the text is appended to what the buffer holds
      have hwritten : x.written = x.m_request_buf ++ request_text x.m_uri x.m_host := rfl
      rw [hwritten] at htext
      exact List.append_left_eq_self.mp htext
    · intro h
      have hbuf := h.request hconnects
      -- with an empty buffer the object is a new one
      have hnew : x = .new x.m_host x.m_uri := by
        show x = ⟨x.m_host, x.m_uri, [], .new⟩
        rw [← hbuf, ← hx hbuf]
      refine ⟨?_, by rw [← hnew]⟩
      intro text htext
      rw [(Exchange.execute_connects hw hconnects).1] at htext
      obtain rfl := Option.some.inj htext
      show x.m_request_buf ++ request_text x.m_uri x.m_host = _
      rw [hbuf, List.nil_append]
  · obtain ⟨htext, ec', hexec⟩ := Exchange.execute_not_connects (x := x) hw hconnects
    constructor
    · intro h
      refine ⟨fun hc => absurd hc hconnects, fun _ => ?_⟩
      have hreported := h.reported
      rw [hexec, hexec] at hreported
      exact (Prod.mk.inj (Option.some.inj hreported)).1
    · intro h
      refine ⟨fun text hsome => absurd (htext.symm.trans hsome) (by simp), ?_⟩
      rw [hexec, hexec]
      show some (x.m_response, ec') = some (HTTPResponse.new, ec')
      rw [h.response hconnects]

/-- **When a request object can be executed again.** -/
theorem allIndependent_iff (executions : List Execution) (m_host m_uri : Bytes)
    (hcancel : ∀ e ∈ executions, e.exchange.NotCancelled) :
    AllIndependent (.new m_host m_uri) executions ↔
      AllStartClean (.new m_host m_uri) executions := by
  suffices h : ∀ x, Untouched x → (AllIndependent x executions ↔ AllStartClean x executions) from
    h _ (fun _ => rfl)
  induction executions with
  | nil => exact fun _ _ => Iff.rfl
  | cons e executions ih =>
      intro x hx
      have hw := hcancel e List.mem_cons_self
      have hrest := ih fun e' he' => hcancel e' (List.mem_cons_of_mem _ he')
      have hx' : Untouched (x.retarget e) := hx
      refine and_congr (Exchange.independent_iff_startsClean hw hx') ?_
      refine forall_congr' fun y => forall_congr' fun ec => forall_congr' fun h => ?_
      exact hrest y (Exchange.execute_untouched hw hx' h)

/-- An execution for the host `h` that meets this. -/
def executionOf (exchange : Exchange) : Execution := ⟨bytes "h", bytes "/", exchange⟩

/-- The server does not accept the connection. -/
def refusedExchange : Exchange :=
  { Exchange.undisturbed [] with connect := ⟨10061, .system⟩ }

/-- After a refused connection the object is as new. -/
theorem allIndependent_iff_refused :
    AllIndependent (.new (bytes "h") (bytes "/"))
      [executionOf refusedExchange, executionOf (.undisturbed sampleChunks)] := by
  refine (allIndependent_iff _ (bytes "h") (bytes "/") ?_).mpr ?_
  · intro e he stage
    simp only [List.mem_cons, List.not_mem_nil, or_false] at he
    rcases he with rfl | rfl <;> rfl
  · have hnot : ¬ refusedExchange.Connects := fun h => absurd h.2 (by decide)
    refine ⟨⟨fun h => absurd h hnot, fun _ => rfl⟩, ?_⟩
    intro y ec h
    obtain ⟨rfl, -⟩ := Outcome.callback.inj h
    exact ⟨⟨fun _ => rfl, fun h => absurd ⟨rfl, rfl⟩ h⟩, fun _ _ _ => trivial⟩

/-- The second execution writes both requests. -/
theorem not_allIndependent_twice :
    ¬ ∀ (executions : List Execution) (m_host m_uri : Bytes),
      (∀ e ∈ executions, e.exchange.NotCancelled) →
        AllIndependent (.new m_host m_uri) executions := by
  intro hall
  have hw : (Exchange.undisturbed sampleChunks).NotCancelled := fun _ => rfl
  have htwice := hall [executionOf (.undisturbed sampleChunks),
    executionOf (.undisturbed sampleChunks)] (bytes "h") (bytes "/") (by simp [executionOf, hw])
  have hcall : ∃ y ec, (Exchange.undisturbed sampleChunks).execute (.new (bytes "h") (bytes "/")) =
      .callback y ec := ⟨_, _, rfl⟩
  obtain ⟨y, ec, hcall⟩ := hcall
  have hsent := hcall
  rw [(Exchange.execute_connects hw ⟨rfl, rfl⟩).2] at hsent
  have hsecond := (htwice.2 y ec hcall).1
  have huntouched := Exchange.execute_untouched hw (fun _ => rfl) hcall
  have hclean := ((Exchange.independent_iff_startsClean hw (x := y.retarget _) huntouched).mp
    hsecond).request ⟨rfl, rfl⟩
  exact written_ne_nil _ ((Exchange.request_sent_m_request_buf hsent).symm.trans hclean)

end AsioStudy.HttpClient
