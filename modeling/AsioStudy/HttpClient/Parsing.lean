import AsioStudy.HttpClient.Model

/-!
# AsioStudy.HttpClient.Parsing

The two parsing handlers on any bytes, well-formed or not.

Neither handler knows where its part of the buffer ends. `on_status_line_received_eq` gives
the status-line stage by the first two words of the whole buffer, wherever they are.
`StatusHead` is the part of the buffer that an accepted status line takes when it does not
depend on what follows. The header loop reads **raw lines**, a text up to a CR and one byte
more (`header_loop_rawLines`), until it meets an empty text; every buffer is raw lines and
one of three ends (`exists_rawLines`).
-/

namespace AsioStudy.HttpClient

variable {P : Platform} {x : HTTPRequest} {buf ws ws' word version tail tail' more : Bytes}

/-! ### The status line -/

/-- The response data when a status line has been accepted. -/
def HTTPResponse.withStatus (r : HTTPResponse) (code : Nat) (message buf : Bytes) : HTTPResponse :=
  { r with
    m_status_code := some (UInt32.ofNat code)
    m_status_message := message
    m_response_buf := buf }

/-- **The status-line stage by the first two words of the buffer.** -/
theorem on_status_line_received_eq (hbuf : x.m_response.m_response_buf = buf)
    (hversion : FirstWord buf ws version tail) (hword : FirstWord tail ws' word tail') :
    on_status_line_received P x .success =
      if version ≠ bytes "HTTP/1.1" then (x.withBuf tail, .on_finish invalid_response)
      else match stoul P word with
        | none => (x.withBuf tail', .on_finish invalid_response)
        | some code =>
            let line := (⟨tail', tail'.isEmpty, word.isEmpty⟩ : IStream).getline [] CR
            ({ x with m_response := x.m_response.withStatus code line.1 line.2.get.2.rest },
              .lock) := by
  have hfirst : (IStream.on buf).extract [] = _ := hversion.extract nofun
  simp only [on_status_line_received, ErrorCode.success_value, hbuf, hfirst]
  by_cases hv : version = bytes "HTTP/1.1"
  · subst hv
    have hsecond : (⟨tail, tail.isEmpty, (bytes "HTTP/1.1").isEmpty⟩ : IStream).extract [] = _ :=
      hword.extract (by simp)
    simp only [ne_eq, not_true_eq_false, if_false, hsecond]
    rfl
  · simp [hv]

/-- A part of a stream that the status-line stage accepts, whatever comes after it: the
version, a number, a text up to a CR, and one byte more. -/
structure StatusHead (P : Platform) where
  ws : Bytes
  ws' : Bytes
  word : Bytes
  code : Nat
  message : Bytes
  last : UInt8
  blank : ∀ a ∈ ws, isspace a = true
  blank' : ∀ a ∈ ws', isspace a = true
  separated : ws' ≠ []
  no_space : ∀ a ∈ word, isspace a = false
  stoul_word : stoul P word = some code
  message_space : ∀ a ∈ message.head?, isspace a = true
  message_no_CR : CR ∉ message

def StatusHead.text (h : StatusHead P) : Bytes :=
  h.ws ++ bytes "HTTP/1.1" ++ (h.ws' ++ h.word ++ (h.message ++ [CR, h.last]))

theorem stoul_nil : stoul P [] = none := rfl

theorem ne_nil_of_stoul {code : Nat} (h : stoul P word = some code) : word ≠ [] := by
  rintro rfl
  exact absurd h nofun

theorem StatusHead.firstWord (h : StatusHead P) (more : Bytes) :
    FirstWord (h.text ++ more) h.ws (bytes "HTTP/1.1")
      (h.ws' ++ h.word ++ (h.message ++ CR :: h.last :: more)) := by
  have hfirst := firstWord_append h.blank (by decide : bytes "HTTP/1.1" ≠ [])
    (no_space_of_all (by decide)) h.separated h.blank'
    (h.word ++ (h.message ++ CR :: h.last :: more))
  simpa [StatusHead.text] using hfirst

theorem StatusHead.secondWord (h : StatusHead P) (more : Bytes) :
    FirstWord (h.ws' ++ h.word ++ (h.message ++ CR :: h.last :: more)) h.ws' h.word
      (h.message ++ CR :: h.last :: more) where
  eq := rfl
  blank := h.blank'
  no_space := h.no_space
  ends := by
    intro a ha
    cases hmessage : h.message with
    | nil =>
        obtain rfl : CR = a := by simpa [hmessage] using ha
        rfl
    | cons c message =>
        obtain rfl : c = a := by simpa [hmessage] using ha
        exact h.message_space c (by simp [hmessage])
  last := fun he => absurd he (ne_nil_of_stoul h.stoul_word)

theorem StatusHead.on_status_line_received (h : StatusHead P)
    (hbuf : x.m_response.m_response_buf = h.text ++ more) :
    on_status_line_received P x .success =
      ({ x with m_response := x.m_response.withStatus h.code h.message more }, .lock) := by
  have hempty : h.word.isEmpty = false := by simpa using ne_nil_of_stoul h.stoul_word
  have hline : (IStream.on (h.message ++ CR :: h.last :: more)).getline [] CR = _ :=
    IStream.getline_delim h.message_no_CR []
  have hstream : (⟨h.message ++ CR :: h.last :: more,
      (h.message ++ CR :: h.last :: more).isEmpty, h.word.isEmpty⟩ : IStream) =
      IStream.on (h.message ++ CR :: h.last :: more) := by simp [hempty, IStream.on]
  rw [on_status_line_received_eq hbuf (h.firstWord more) (h.secondWord more), hstream, hline,
    h.stoul_word]
  simp only [ne_eq, not_true_eq_false, if_false, IStream.get_cons, IStream.on_rest]

/-! ### Streams that are never accepted -/

/-- No beginning of this stream has a status code: at most two words, nothing after them, the
first one the version when there is a second, and no beginning of the second a number. -/
def Unnumbered (P : Platform) (text : Bytes) : Prop :=
  ∃ ws version tail ws' word, FirstWord text ws version tail ∧ FirstWord tail ws' word [] ∧
    (version ≠ bytes "HTTP/1.1" → tail = []) ∧ ∀ front, front <+: word → stoul P front = none

theorem Unnumbered.of_prefix {text : Bytes} (h : Unnumbered P text) (hbuf : buf <+: text) :
    Unnumbered P buf := by
  obtain ⟨ws, version, tail, ws', word, hversion, hword, hne, hnumber⟩ := h
  rcases hversion.of_prefix hbuf with ⟨ws₁, version₁, hversion₁, -⟩ | ⟨tail₁, hversion₁, htail⟩
  · refine ⟨_, _, _, _, _, hversion₁, .nil, fun _ => rfl, ?_⟩
    intro front hfront
    rw [List.prefix_nil.mp hfront, stoul_nil]
  · have hne₁ : version ≠ bytes "HTTP/1.1" → tail₁ = [] :=
      fun hv => List.prefix_nil.mp (hne hv ▸ htail)
    rcases hword.of_prefix htail with ⟨ws₂, word₂, hword₂, hpre⟩ | ⟨tail₂, hword₂, hnil⟩
    · refine ⟨_, _, _, _, _, hversion₁, hword₂, hne₁, ?_⟩
      exact fun front hfront => hnumber front (hfront.trans hpre)
    · obtain rfl := List.prefix_nil.mp hnil
      exact ⟨_, _, _, _, _, hversion₁, hword₂, hne₁, hnumber⟩

/-- They are refused with nothing left in the buffer. -/
theorem Unnumbered.on_status_line_received (h : Unnumbered P buf)
    (hbuf : x.m_response.m_response_buf = buf) :
    on_status_line_received P x .success = (x.withBuf [], .on_finish invalid_response) := by
  obtain ⟨ws, version, tail, ws', word, hversion, hword, hne, hnumber⟩ := h
  rw [on_status_line_received_eq hbuf hversion hword, hnumber word List.prefix_rfl]
  by_cases hv : version = bytes "HTTP/1.1"
  · simp [hv]
  · simp [hv, hne hv]

/-! ### The header loop -/

/-- More iterations do not change the result. -/
theorem header_loop_mono {fuel fuel' : Nat} {header : Bytes} {s : IStream}
    {m_headers : StdMap Bytes Bytes} {r : IStream × StdMap Bytes Bytes}
    (h : header_loop fuel header s m_headers = some r) (hle : fuel ≤ fuel') :
    header_loop fuel' header s m_headers = some r := by
  induction fuel generalizing fuel' header s m_headers with
  | zero => exact absurd h (by simp [header_loop])
  | succ fuel ih =>
      cases fuel' with
      | zero => exact absurd hle (Nat.not_succ_le_zero _)
      | succ fuel' =>
          simp only [header_loop] at h ⊢
          split
          · next hempty => simpa [hempty] using h
          · next hne =>
            rw [if_neg hne] at h
            exact ih h (Nat.le_of_succ_le_succ hle)

/-- On a stream that is no longer good `getline` leaves the last line in its string, so a
loop that has got there never sees an empty line. -/
theorem header_loop_not_good (fuel : Nat) {header : Bytes} {s : IStream}
    (m_headers : StdMap Bytes Bytes) (hs : s.good = false) (hne : header ≠ []) :
    header_loop fuel header s m_headers = none := by
  induction fuel generalizing s m_headers with
  | zero => rfl
  | succ fuel ih =>
      have hgood : ({ s with failbit := true } : IStream).good = false := by simp [IStream.good]
      have hline : s.getline header CR = (header, { s with failbit := true }) := by
        simp [IStream.getline, hs]
      have hget : ({ s with failbit := true } : IStream).get =
          (none, { s with failbit := true }) := by
        simp [IStream.get, hgood]
      simp only [header_loop, hline, hget, hne, if_false]
      exact ih _ hgood

/-- **A loop that outlives the buffer never ends.** -/
theorem header_loop_stuck {buf header : Bytes} {m_headers : StdMap Bytes Bytes}
    (h : header_loop (buf.length + 2) header (IStream.on buf) m_headers = none) (fuel : Nat) :
    header_loop fuel header (IStream.on buf) m_headers = none := by
  induction hn : buf.length using Nat.strongRecOn generalizing buf header m_headers fuel with
  | ind n ih =>
      subst hn
      cases fuel with
      | zero => rfl
      | succ fuel =>
          by_cases hcr : CR ∈ buf
          · obtain ⟨line, tail, rfl, hline⟩ := exists_split_of_mem hcr
            simp only [header_loop, IStream.getline_delim hline] at h ⊢
            split
            · next hempty => simp [hempty] at h
            · next hne =>
              rw [if_neg hne] at h
              cases tail with
              | nil => exact header_loop_not_good _ _ rfl hne
              | cons c tail =>
                  have hlt : tail.length < (line ++ CR :: c :: tail).length := by
                    simp only [List.length_append, List.length_cons]
                    omega
                  refine ih tail.length hlt ?_ fuel rfl
                  -- the rest of the buffer is shorter
                  cases hloop : header_loop (tail.length + 2) line (IStream.on tail)
                      (add_header m_headers line) with
                  | none => rfl
                  | some r =>
                      have hle : tail.length + 2 ≤ (line ++ CR :: c :: tail).length + 1 := by omega
                      have hmono := header_loop_mono hloop hle
                      rw [IStream.get_cons] at h
                      exact absurd (hmono.symm.trans h) nofun
          · simp only [header_loop, IStream.getline_end hcr] at h ⊢
            split
            · next hempty => simp [hempty] at h
            · next hne => exact header_loop_not_good _ _ (by simp [IStream.get, IStream.good]) hne

/-- What one iteration of the header loop reads: a text up to a CR, and the byte after it. -/
structure RawLine where
  text : Bytes
  last : UInt8
  ne_nil : text ≠ []
  no_CR : CR ∉ text

def rawLines (lines : List RawLine) : Bytes := lines.flatMap fun l => l.text ++ [CR, l.last]

@[simp] theorem rawLines_nil : rawLines [] = [] := rfl

theorem rawLines_cons (l : RawLine) (lines : List RawLine) (tail : Bytes) :
    rawLines (l :: lines) ++ tail = l.text ++ CR :: l.last :: (rawLines lines ++ tail) := by
  simp [rawLines]

theorem length_le_rawLines (lines : List RawLine) : lines.length ≤ (rawLines lines).length := by
  induction lines with
  | nil => exact Nat.le_refl _
  | cons l lines ih =>
      have hcons := congrArg List.length (rawLines_cons l lines [])
      simp only [List.append_nil, List.length_append, List.length_cons] at hcons ⊢
      omega

/-- **Any bytes are raw lines** and what stops the loop: an empty text, or the end of the
buffer in a text or after its CR. -/
theorem exists_rawLines (buf : Bytes) :
    ∃ lines tail, buf = rawLines lines ++ tail ∧
      (CR ∉ tail ∨ (∃ rest, tail = CR :: rest) ∨
        ∃ text, text ≠ [] ∧ CR ∉ text ∧ tail = text ++ [CR]) := by
  induction hn : buf.length using Nat.strongRecOn generalizing buf with
  | ind n ih =>
      subst hn
      by_cases hcr : CR ∈ buf
      · obtain ⟨text, rest, rfl, htext⟩ := exists_split_of_mem hcr
        by_cases hne : text = []
        · subst hne
          exact ⟨[], CR :: rest, rfl, .inr (.inl ⟨rest, rfl⟩)⟩
        · cases rest with
          | nil => exact ⟨[], text ++ [CR], rfl, .inr (.inr ⟨text, hne, htext, rfl⟩)⟩
          | cons c rest =>
              obtain ⟨lines, tail, rfl, hend⟩ := ih rest.length (by simp; omega) rest rfl
              have hcons := rawLines_cons ⟨text, c, hne, htext⟩ lines tail
              exact ⟨⟨text, c, hne, htext⟩ :: lines, tail, hcons.symm, hend⟩
      · exact ⟨[], buf, rfl, .inl hcr⟩

/-- The headers of raw lines. -/
def rawHeaders (m_headers : StdMap Bytes Bytes) (lines : List RawLine) : StdMap Bytes Bytes :=
  lines.foldl (fun m l => add_header m l.text) m_headers

/-- **The loop goes through raw lines** and adds their headers. -/
theorem header_loop_rawLines (lines : List RawLine) (fuel : Nat) (header tail : Bytes)
    (m_headers : StdMap Bytes Bytes) :
    ∃ header', header_loop (fuel + lines.length) header (IStream.on (rawLines lines ++ tail))
        m_headers =
      header_loop fuel header' (IStream.on tail) (rawHeaders m_headers lines) := by
  induction lines generalizing header m_headers with
  | nil => exact ⟨header, rfl⟩
  | cons l lines ih =>
      obtain ⟨header', hrest⟩ := ih l.text (add_header m_headers l.text)
      refine ⟨header', ?_⟩
      rw [rawLines_cons, List.length_cons, ← Nat.add_assoc, header_loop,
        IStream.getline_delim l.no_CR]
      simp only [IStream.get_cons, l.ne_nil, if_false, hrest]
      rfl

/-- The response data when the header stage has left the loop with `left` unread bytes. -/
def HTTPResponse.withHeaders (r : HTTPResponse) (lines : List RawLine) (left : Bytes) :
    HTTPResponse :=
  { r with m_headers := rawHeaders r.m_headers lines, m_response_buf := left }

/-- The header stage on raw lines and a tail, by what the loop makes of the tail. -/
theorem on_headers_received_rawLines {lines : List RawLine}
    (hbuf : x.m_response.m_response_buf = rawLines lines ++ tail) :
    ∃ fuel header', on_headers_received x .success =
      match header_loop (fuel + 2) header' (IStream.on tail)
          (rawHeaders x.m_response.m_headers lines) with
      | none => (x, .loops)
      | some (response_stream, m_headers) =>
          ({ x with m_response := { x.m_response with
              m_headers := m_headers
              m_response_buf := response_stream.rest } }, .lock) := by
  have hlen := length_le_rawLines lines
  have hfuel : (rawLines lines ++ tail).length + 2 =
      (rawLines lines ++ tail).length - lines.length + 2 + lines.length := by
    simp only [List.length_append]
    omega
  obtain ⟨header', hloop⟩ := header_loop_rawLines lines
    ((rawLines lines ++ tail).length - lines.length + 2) [] tail x.m_response.m_headers
  refine ⟨(rawLines lines ++ tail).length - lines.length, header', ?_⟩
  simp only [on_headers_received, ErrorCode.success_value, hbuf, hfuel, hloop]
  rfl

/-- An empty text ends the loop, and one more byte is taken. -/
theorem on_headers_received_empty {lines : List RawLine} {c : UInt8}
    (hbuf : x.m_response.m_response_buf = rawLines lines ++ CR :: c :: more) :
    on_headers_received x .success =
      ({ x with m_response := x.m_response.withHeaders lines more }, .lock) := by
  obtain ⟨fuel, header', h⟩ := on_headers_received_rawLines hbuf
  have hline : (IStream.on (CR :: c :: more)).getline header' CR = ([], IStream.on (c :: more)) :=
    IStream.getline_delim List.not_mem_nil header'
  rw [h, header_loop, hline]
  rfl

/-- So does the end of the buffer after a whole raw line, or after the CR of an empty text. -/
theorem on_headers_received_end {lines : List RawLine}
    (hbuf : x.m_response.m_response_buf = rawLines lines ++ tail)
    (htail : tail = [] ∨ tail = [CR]) :
    on_headers_received x .success =
      ({ x with m_response := x.m_response.withHeaders lines [] }, .lock) := by
  obtain ⟨fuel, header', h⟩ := on_headers_received_rawLines hbuf
  rw [h]
  rcases htail with rfl | rfl <;> rfl

/-- **In the middle of a text the loop never ends.** -/
theorem on_headers_received_loops {lines : List RawLine}
    (hbuf : x.m_response.m_response_buf = rawLines lines ++ tail) (hne : tail ≠ [])
    (hcr : CR ∉ tail) : on_headers_received x .success = (x, .loops) := by
  obtain ⟨fuel, header', h⟩ := on_headers_received_rawLines hbuf
  have hloop := header_loop_not_good (fuel + 1) (s := (IStream.get ⟨[], true, tail.isEmpty⟩).2)
    (add_header (rawHeaders x.m_response.m_headers lines) tail)
    (by simp [IStream.get, IStream.good]) hne
  rw [h, header_loop, IStream.getline_end hcr]
  simp only [hne, if_false, hloop]

end AsioStudy.HttpClient
