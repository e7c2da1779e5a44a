import AsioStudy.HttpClient.Response

/-!
# AsioStudy.HttpClient.StatusLine

`on_status_line_received` against the grammar of a status line.

The handler looks at the first two words of the whole buffer. It goes on when they are the
version and something that begins with a number (`Numbered`), wherever the line ends and
whatever the number has around it. It never stores a reason phrase: the space before the
phrase stays in the message (`storedMessage_ne`). So it does what the grammar asks for just
where it refuses the buffer.
-/

namespace AsioStudy.HttpClient

variable {P : Platform} {x y : HTTPRequest} {buf line more : Bytes} {exit : Exit}

/-- `line` is `HTTP/1.1 SP digit digit digit SP reason`. -/
def IsStatusLine (line : Bytes) : Prop := ∃ code reason, line = status_line code reason

/-- What the handler makes of a buffer whose first line is `line` is what the grammar asks
for. -/
structure ExactGrammar (P : Platform) (x : HTTPRequest) (line : Bytes) : Prop where
  goes_on : (on_status_line_received P x .success).2 = .lock ↔ IsStatusLine line
  otherwise : ¬ IsStatusLine line →
    (on_status_line_received P x .success).2 = .on_finish invalid_response
  parsed : ∀ y, on_status_line_received P x .success = (y, .lock) →
    ∀ code reason, line = status_line code reason →
      y.m_response.m_status_code.map UInt32.toNat = some code.value ∧
      y.m_response.m_status_message = reason

/-- The first two words of the buffer are the version and a number. -/
def Numbered (P : Platform) (buf : Bytes) : Prop :=
  (words buf).headD [] = bytes "HTTP/1.1" ∧ NumberWord P ((words buf).tail.headD [])

/-! ### The two words -/

theorem FirstWord.words_eq {text ws tok tail : Bytes} (h : FirstWord text ws tok tail) :
    (words text).headD [] = tok ∧ (words text).tail = words tail := by
  have hextract : (IStream.on text).extract [] = _ := h.extract nofun
  obtain ⟨hhead, htail⟩ := (IStream.on text).extract_words []
  rw [hextract, IStream.words_on] at hhead htail
  refine ⟨hhead.symm, ?_⟩
  rw [← htail]
  cases tail with
  | nil => simp [IStream.words, IStream.good]
  | cons c tail =>
      have hne : tok ≠ [] := fun he => absurd (h.last he) (by simp)
      simp [IStream.words, IStream.good, hne]

/-- **When the handler goes on**, and what it does otherwise. -/
theorem on_status_line_received_exit (hbuf : x.m_response.m_response_buf = buf) :
    (Numbered P buf → (on_status_line_received P x .success).2 = .lock) ∧
      (¬ Numbered P buf →
        (on_status_line_received P x .success).2 = .on_finish invalid_response) := by
  obtain ⟨ws, version, tail, hversion⟩ := exists_firstWord buf
  obtain ⟨ws', word, tail', hword⟩ := exists_firstWord tail
  obtain ⟨hfirst, hrest⟩ := FirstWord.words_eq hversion
  obtain ⟨hsecond, -⟩ := FirstWord.words_eq hword
  rw [on_status_line_received_eq hbuf hversion hword, Numbered, hfirst, hrest, hsecond,
    ← stoul_isSome_iff P hword.no_space]
  by_cases hv : version = bytes "HTTP/1.1"
  · cases hcode : stoul P word with
    | none => simp [hv]
    | some code => simp [hv]
  · simp [hv]

/-! ### On a status line -/

/-- What the handler stores as the message of a status line. -/
def storedMessage (reason more : Bytes) : Bytes :=
  SP :: (reason ++ CRLF ++ more).takeWhile (· != CR)

/-- No reason phrase is a stored message. -/
theorem storedMessage_ne (reason more : Bytes) : storedMessage reason more ≠ reason := by
  intro h
  have hne : ¬ CR = SP := by decide
  have hcr : CR ∉ reason := by
    rw [← h]
    intro hm
    rcases List.mem_cons.mp hm with he | hm
    · exact hne he
    · simpa using List.mem_takeWhile_imp hm
  have htake : (reason ++ CRLF ++ more).takeWhile (· != CR) = reason := by
    rw [List.append_assoc]
    exact IStream.takeWhile_ne_append hcr
  -- the message is one space longer than the phrase
  rw [storedMessage, htake] at h
  simpa using congrArg List.length h

theorem getline_message (tail : Bytes) :
    ((IStream.on (SP :: tail)).getline [] CR).1 = SP :: tail.takeWhile (· != CR) := by
  have hne : (SP != CR) = true := by decide
  simp only [IStream.getline, IStream.on_good, IStream.on_rest, if_true, List.takeWhile_cons_of_pos,
    hne]
  split <;> rfl

/-- The code is the second word of a status line, and the message has the space after it. -/
theorem on_status_line_received_status_line {code : StatusCode} {reason : Bytes}
    (hbuf : x.m_response.m_response_buf = status_line code reason ++ CRLF ++ more) :
    ∃ left, on_status_line_received P x .success =
      ({ x with m_response :=
          x.m_response.withStatus code.value (storedMessage reason more) left }, .lock) := by
  have hlit : bytes "HTTP/1.1 " = bytes "HTTP/1.1" ++ [SP] := by decide
  have hcode : ∀ c ∈ code.text, isspace c = false :=
    fun c hc => isspace_of_isdigit (code.isdigit_text c hc)
  have hversion : FirstWord (status_line code reason ++ CRLF ++ more) [] (bytes "HTTP/1.1")
      ([SP] ++ code.text ++ ([SP] ++ (reason ++ CRLF ++ more))) := by
    have hfirst : FirstWord ([] ++ bytes "HTTP/1.1" ++ ([SP] ++ (code.text ++ ([SP] ++
        (reason ++ CRLF ++ more))))) [] (bytes "HTTP/1.1") _ :=
      firstWord_append (by simp) (by decide) (no_space_of_all (by decide)) (by simp) (by simp) _
    simpa [status_line, hlit] using hfirst
  have hword : FirstWord ([SP] ++ code.text ++ ([SP] ++ (reason ++ CRLF ++ more))) [SP] code.text
      ([SP] ++ (reason ++ CRLF ++ more)) :=
    firstWord_append (by simp) (by simp [StatusCode.text]) hcode (by simp) (by simp) _
  refine ⟨((IStream.on (SP :: (reason ++ CRLF ++ more))).getline [] CR).2.get.2.rest, ?_⟩
  rw [on_status_line_received_eq hbuf hversion hword, code.stoul_text P]
  have hempty : code.text.isEmpty = false := rfl
  simp only [ne_eq, not_true_eq_false, if_false, hempty]
  show ({ x with m_response := _ }, Exit.lock) = _
  rw [storedMessage, ← getline_message]
  rfl

/-- **When the handler keeps to the grammar**: where it refuses the buffer. -/
theorem exactGrammar_iff (P : Platform) (x : HTTPRequest) (line more : Bytes)
    (hline : ¬ CRLF <:+: (line ++ CRLF).dropLast)
    (hbuf : x.m_response.m_response_buf = line ++ CRLF ++ more) :
    ExactGrammar P x line ↔ ¬ Numbered P (line ++ CRLF ++ more) := by
  obtain ⟨hlock, hfinish⟩ := on_status_line_received_exit (P := P) hbuf
  constructor
  · intro h hnumbered
    -- going on is right on a status line only, and there the message is wrong
    obtain ⟨code, reason, rfl⟩ := h.goes_on.mp (hlock hnumbered)
    obtain ⟨left, hpart⟩ := on_status_line_received_status_line (P := P) hbuf
    exact storedMessage_ne reason more (h.parsed _ hpart code reason rfl).2
  · intro hnot
    have hexit := hfinish hnot
    have hne : (on_status_line_received P x .success).2 ≠ .lock := by
      rw [hexit]
      simp
    refine ⟨⟨fun h => absurd h hne, ?_⟩, fun _ => hexit, ?_⟩
    · intro h
      obtain ⟨code, reason, rfl⟩ := h
      obtain ⟨left, hpart⟩ := on_status_line_received_status_line (P := P) hbuf
      rw [hpart]
    · intro y hy
      exact absurd (congrArg Prod.snd hy) hne

/-- A request whose response buffer holds these bytes. -/
def bufferedRequest (buf : Bytes) : HTTPRequest :=
  (HTTPRequest.new (bytes "h") (bytes "/")).withBuf buf

theorem exactGrammar_iff_refused :
    ExactGrammar .llp64 (bufferedRequest (bytes "HTTP/1.0 200 OK" ++ CRLF ++ []))
      (bytes "HTTP/1.0 200 OK") := by
  refine (exactGrammar_iff .llp64 _ (bytes "HTTP/1.0 200 OK") [] (by decide) rfl).mpr ?_
  intro h
  exact absurd h.1 (by decide)

/-- The reason phrase is `"OK"`, the stored message is `" OK"`. -/
theorem not_exactGrammar_ok :
    ¬ ∀ (P : Platform) (x : HTTPRequest) (line more : Bytes),
      ¬ CRLF <:+: (line ++ CRLF).dropLast →
      x.m_response.m_response_buf = line ++ CRLF ++ more → ExactGrammar P x line := by
  intro hall
  have hgrammar := hall .llp64 (bufferedRequest (bytes "HTTP/1.1 200 OK" ++ CRLF ++ []))
    (bytes "HTTP/1.1 200 OK") [] (by decide) rfl
  have hline : bytes "HTTP/1.1 200 OK" = status_line ⟨2, 0, 0⟩ (bytes "OK") := by decide
  have hbuf : (bufferedRequest (bytes "HTTP/1.1 200 OK" ++ CRLF ++ [])).m_response.m_response_buf =
      status_line ⟨2, 0, 0⟩ (bytes "OK") ++ CRLF ++ [] := by rw [← hline]; rfl
  obtain ⟨left, hpart⟩ := on_status_line_received_status_line (P := .llp64) hbuf
  exact storedMessage_ne (bytes "OK") [] (hgrammar.parsed _ hpart ⟨2, 0, 0⟩ (bytes "OK") hline).2

end AsioStudy.HttpClient
