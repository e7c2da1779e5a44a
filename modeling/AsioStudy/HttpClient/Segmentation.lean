import AsioStudy.HttpClient.Reported

/-!
# AsioStudy.HttpClient.Segmentation

Whether what the callback is given depends on how the stream is divided into reads.

A stage runs on a buffer that contains its delimiter, and how much more the buffer holds is
up to the division. The two parsing stages read past their delimiter in two ways. `>>` goes
over line ends, so a status line without a code takes it from the lines that happen to be
there, and a refused one leaves them unread (`Unnumbered` are the streams on which neither
shows). The header loop counts raw lines and may be between two of them when the first
`"\r\n\r\n"` ends (`Overrun`); then it goes on into whatever is there of the body.
`independent_iff` says that nothing else depends on the division, and `Response.settled` that
well-formed responses never do.
-/

namespace AsioStudy.HttpClient

variable {P : Platform} {w w' : Exchange} {x y : HTTPRequest} {chunks chunks' : List Bytes}
  {m_host m_uri text head tail buf left rest : Bytes} {r : HTTPResponse} {lines : List RawLine}

/-- All exchanges in which these bytes arrive report the same. -/
def Independent (P : Platform) (m_host m_uri text : Bytes) : Prop :=
  ∀ w w' : Exchange, w.Complete → w'.Complete → w.platform = P → w'.platform = P →
    w.incoming.chunks.flatten = text → w'.incoming.chunks.flatten = text →
      (w.execute (.new m_host m_uri)).reported = (w'.execute (.new m_host m_uri)).reported

/-- The first `"\r\n\r\n"` ends with a raw line, and something follows it. -/
def Overrun (text : Bytes) : Prop :=
  ∃ lines c rest, text = rawLines lines ++ c :: rest ∧ EndsFirst (CRLF ++ CRLF) (rawLines lines)

/-- Nothing follows the first line, or no part of the stream has a status code, or the status
line is complete and the header block is not overrun. -/
def Settled (P : Platform) (text : Bytes) : Prop :=
  ¬ CRLF <:+: text.dropLast ∨ Unnumbered P text ∨
    ∃ (h : StatusHead P) (rest : Bytes), text = h.text ++ rest ∧
      ¬ CRLF <:+: h.text.dropLast ∧ ¬ Overrun rest

/-! ### Header blocks -/

theorem rawLines_concat (lines : List RawLine) (l : RawLine) :
    rawLines (lines ++ [l]) = rawLines lines ++ l.text ++ [CR, l.last] := by
  simp [rawLines]

/-- The first `"\r\n\r\n"` ends with a raw line or comes behind an empty text. -/
theorem rawLines_of_endsFirst (h : EndsFirst (CRLF ++ CRLF) head) :
    (∃ lines, head = rawLines lines) ∨
      ∃ lines c rest, head = rawLines lines ++ CR :: c :: rest := by
  obtain ⟨front, hfront⟩ := h.suffix
  obtain ⟨lines, tail, rfl, hend⟩ := exists_rawLines head
  have hne : ¬ LF = CR := by decide
  rcases hend with hcr | ⟨rest, rfl⟩ | ⟨text, -, -, rfl⟩
  · rcases List.eq_nil_or_concat tail with rfl | ⟨init, z, rfl⟩
    · exact .inl ⟨lines, List.append_nil _⟩
    · exfalso
      rcases List.eq_nil_or_concat init with rfl | ⟨init, z', rfl⟩
      · -- the last raw line would end in LF CR
        rcases List.eq_nil_or_concat lines with rfl | ⟨lines, l, rfl⟩
        · simpa using congrArg List.length hfront
        · have hlast := congrArg List.reverse hfront
          simp [rawLines_concat, hne] at hlast
      · have hlast := congrArg List.reverse hfront
        simp only [List.reverse_append, List.reverse_cons, List.concat_eq_append, List.reverse_nil,
          List.nil_append, List.cons_append, List.cons.injEq] at hlast
        exact hcr (by simp [hlast.2.1])
  · cases rest with
    | nil =>
        have hlast := congrArg List.reverse hfront
        simp [hne] at hlast
    | cons c rest => exact .inr ⟨lines, c, rest, rfl⟩
  · have hlast := congrArg List.reverse hfront
    simp [hne] at hlast

/-- **A header block that is not overrun is reported alike**, wherever the buffer ends. -/
theorem exists_reported_of_not_overrun (r : HTTPResponse) (hnot : ¬ Overrun text) :
    ∃ reported, ∀ (w : Exchange) x chunks buf, w.Complete → x.m_response = r.withBuf buf →
      buf ++ chunks.flatten = text → (w.read_headers x chunks).reported = reported := by
  by_cases hin : CRLF ++ CRLF <:+: text
  · obtain ⟨head, tail, rfl, hhead⟩ := exists_endsFirst (by simp) hin
    rcases rawLines_of_endsFirst hhead with ⟨lines, rfl⟩ | ⟨lines, c, rest, rfl⟩
    · refine ⟨some (r.withHeaders lines tail, .success), ?_⟩
      intro w x chunks buf hw hx hall
      obtain ⟨y, buf', chunks', hy, hin', hall', heq⟩ := Exchange.read_headers_buffered hin hx hall
      obtain ⟨more, rfl, rfl⟩ := split_at_delim hin' hall' hhead.first
      -- nothing follows the block
      have hmore : more = [] := by
        cases more with
        | nil => rfl
        | cons c more => exact absurd ⟨lines, c, _, rfl, hhead⟩ hnot
      rw [heq, Exchange.read_headers_end hw hy (.inl hmore) hin', hmore, List.nil_append]
    · refine ⟨some (r.withHeaders lines (rest ++ tail), .success), ?_⟩
      intro w x chunks buf hw hx hall
      obtain ⟨y, buf', chunks', hy, hin', hall', heq⟩ := Exchange.read_headers_buffered hin hx hall
      obtain ⟨more, rfl, rfl⟩ := split_at_delim hin' hall' hhead.first
      have hbuf : rawLines lines ++ CR :: c :: rest ++ more =
          rawLines lines ++ CR :: c :: (rest ++ more) := by simp
      rw [heq, Exchange.read_headers_empty hw (hbuf ▸ hy) (hbuf ▸ hin'), List.append_assoc]
  · refine ⟨some (r.withBuf text, .eof), ?_⟩
    intro w x chunks buf hw hx hall
    exact Exchange.read_headers_absent hw hx hall hin

/-- **An overrun block is not**: with the buffer at its end the whole rest is the body, with one
byte more it is not. -/
theorem Exchange.read_headers_overrun (hw : w.Complete) (hw' : w'.Complete) {c : UInt8}
    (hhead : EndsFirst (CRLF ++ CRLF) (rawLines lines))
    (hx : x.m_response = r.withBuf (rawLines lines)) (hchunks : chunks.flatten = c :: rest)
    (hy : y.m_response = r.withBuf (rawLines lines ++ [c])) (hchunks' : chunks'.flatten = rest) :
    (w.read_headers x chunks).reported ≠ (w'.read_headers y chunks').reported := by
  have hin := hhead.suffix.isInfix
  have hx' : x.m_response = r.withBuf (rawLines lines ++ []) := by rwa [List.append_nil]
  rw [Exchange.read_headers_end hw hx' (.inl rfl) (by rwa [List.append_nil]), hchunks]
  have hin' : CRLF ++ CRLF <:+: rawLines lines ++ [c] := hin.trans (List.prefix_append ..).isInfix
  by_cases hc : c = CR
  · rw [Exchange.read_headers_end hw' hy (.inr (by rw [hc])) hin', hchunks']
    intro he
    have hbody : c :: rest = rest :=
      congrArg (fun p => p.1.m_response_buf) (Option.some.inj he)
    exact List.cons_ne_self _ _ hbody
  · rw [Exchange.read_headers_loops hy (List.cons_ne_nil _ _) (by simpa using Ne.symm hc) hin']
    exact nofun

/-! ### Settled streams -/

/-- Nothing follows the first line: then every buffer is the whole stream. -/
theorem Exchange.read_status_line_no_more (hw : w.Complete) (hw' : w'.Complete)
    (hP : w.platform = w'.platform) (hx : x.m_response = .new) (hy : y.m_response = .new)
    (hchunks : chunks.flatten = text) (hchunks' : chunks'.flatten = text)
    (hin : CRLF <:+: text) (hlast : ¬ CRLF <:+: text.dropLast) :
    (w.read_status_line x chunks).reported = (w'.read_status_line y chunks').reported := by
  have hwhole : ∀ buf left, CRLF <:+: buf → buf ++ left = text → buf = text ∧ left = [] := by
    rintro buf left hbuf rfl
    by_cases hleft : left = []
    · exact ⟨by rw [hleft, List.append_nil], hleft⟩
    · rw [List.dropLast_append_of_ne_nil hleft] at hlast
      exact absurd (hbuf.trans (List.prefix_append ..).isInfix) hlast
  obtain ⟨x', buf, left, hx', hbuf, hall, heq⟩ :=
    Exchange.read_status_line_buffered (w := w) hx (hchunks ▸ hin)
  obtain ⟨y', buf', left', hy', hbuf', hall', heq'⟩ :=
    Exchange.read_status_line_buffered (w := w') hy (hchunks' ▸ hin)
  obtain ⟨rfl, hleft⟩ := hwhole buf left.flatten hbuf (hall.trans hchunks)
  obtain ⟨rfl, hleft'⟩ := hwhole buf' left'.flatten hbuf' (hall'.trans hchunks')
  rw [heq, heq', Exchange.read_status_line_present (by rw [hx']; exact hin),
    Exchange.read_status_line_present (by rw [hy']; exact hin)]
  refine Exchange.run_congr hw hw' hP _ _ (hx'.trans hy'.symm) ?_
  intro x y hxy
  exact Exchange.read_headers_no_more hw hw' hP hxy hleft hleft'

/-- **A settled stream is reported alike.** -/
theorem Exchange.read_status_line_settled (hsettled : Settled P text) (hw : w.Complete)
    (hw' : w'.Complete) (hP : w.platform = P) (hP' : w'.platform = P) (hx : x.m_response = .new)
    (hy : y.m_response = .new) (hchunks : chunks.flatten = text)
    (hchunks' : chunks'.flatten = text) :
    (w.read_status_line x chunks).reported = (w'.read_status_line y chunks').reported := by
  by_cases hin : CRLF <:+: text
  · obtain ⟨x', buf, left, hx', hbuf, hall, heq⟩ :=
      Exchange.read_status_line_buffered (w := w) hx (hchunks ▸ hin)
    obtain ⟨y', buf', left', hy', hbuf', hall', heq'⟩ :=
      Exchange.read_status_line_buffered (w := w') hy (hchunks' ▸ hin)
    rw [hchunks] at hall
    rw [hchunks'] at hall'
    rcases hsettled with hlast | hunnumbered | ⟨h, rest, rfl, hfirst, hnot⟩
    · exact Exchange.read_status_line_no_more hw hw' (hP.trans hP'.symm) hx hy hchunks hchunks'
        hin hlast
    · have hpre := hunnumbered.of_prefix ⟨_, hall⟩
      have hpre' := hunnumbered.of_prefix ⟨_, hall'⟩
      rw [heq, heq', Exchange.read_status_line_unnumbered hP hpre hx' hbuf,
        Exchange.read_status_line_unnumbered hP' hpre' hy' hbuf']
    · obtain ⟨more, rfl, hmore⟩ := split_at_delim hbuf hall hfirst
      obtain ⟨more', rfl, hmore'⟩ := split_at_delim hbuf' hall' hfirst
      obtain ⟨z, hz, hhead⟩ := Exchange.read_status_line_head hw hP h left hx' hbuf
      obtain ⟨z', hz', hhead'⟩ := Exchange.read_status_line_head hw' hP' h left' hy' hbuf'
      obtain ⟨reported, hreported⟩ := exists_reported_of_not_overrun
        (HTTPResponse.new.withStatus h.code h.message []) hnot
      rw [heq, heq', hhead, hhead', hreported w z left more hw hz hmore.symm,
        hreported w' z' left' more' hw' hz' hmore'.symm]
  · rw [Exchange.read_status_line_absent hw hx (hchunks ▸ hin),
      Exchange.read_status_line_absent hw' hy (hchunks' ▸ hin), hchunks, hchunks']

/-! ### Streams that are not settled -/

/-- A complete exchange in which these chunks arrive. -/
def Exchange.complete (P : Platform) (chunks : List Bytes) : Exchange :=
  { Exchange.undisturbed chunks with platform := P }

theorem Exchange.complete_complete (P : Platform) (chunks : List Bytes) :
    (Exchange.complete P chunks).Complete :=
  ⟨⟨fun _ => rfl, rfl, rfl, rfl, rfl⟩, rfl⟩

/-- What is reported when a first read brings `buf` and a second one the rest. -/
def reportedAt (P : Platform) (m_host m_uri buf left : Bytes) : Option (HTTPResponse × ErrorCode) :=
  ((Exchange.complete P [buf, left]).execute (.new m_host m_uri)).reported

theorem reportedAt_eq (P : Platform) (m_host m_uri left : Bytes) (hin : CRLF <:+: buf) :
    ∃ x : HTTPRequest, x.m_response = HTTPResponse.new.withBuf buf ∧
      reportedAt P m_host m_uri buf left =
        ((Exchange.complete P [buf, left]).read_status_line x [left]).reported := by
  obtain ⟨x, hx, hexec⟩ := Exchange.execute_undisturbed (x := .new m_host m_uri)
    (Exchange.complete_complete P [buf, left]).toUndisturbed
  refine ⟨x.withBuf buf, by rw [HTTPRequest.withBuf, hx]; rfl, ?_⟩
  rw [reportedAt, hexec]
  exact congrArg Outcome.reported (Exchange.read_status_line_first hx hin)

theorem Independent.reportedAt_congr (h : Independent P m_host m_uri text)
    (buf left buf' left' : Bytes) (hall : buf ++ left = text) (hall' : buf' ++ left' = text) :
    reportedAt P m_host m_uri buf left = reportedAt P m_host m_uri buf' left' := by
  have hchunks : ∀ buf left : Bytes, [buf, left].flatten = buf ++ left := by simp
  exact h _ _ (Exchange.complete_complete ..) (Exchange.complete_complete ..) rfl rfl
    ((hchunks buf left).trans hall) ((hchunks buf' left').trans hall')

/-- **Behind a complete status line the header block is not overrun.** -/
theorem Independent.not_overrun {h : StatusHead P}
    (hind : Independent P m_host m_uri (h.text ++ rest)) : ¬ Overrun rest := by
  rintro ⟨lines, c, rest', rfl, hhead⟩
  have hin : CRLF <:+: rawLines lines := List.IsInfix.trans (by decide) hhead.suffix.isInfix
  have hin₁ : CRLF <:+: h.text ++ rawLines lines := hin.trans (List.suffix_append ..).isInfix
  have hin₂ : CRLF <:+: h.text ++ (rawLines lines ++ [c]) :=
    (hin.trans (List.prefix_append ..).isInfix).trans (List.suffix_append ..).isInfix
  have heq := hind.reportedAt_congr (h.text ++ rawLines lines) (c :: rest')
    (h.text ++ (rawLines lines ++ [c])) rest' (by simp) (by simp)
  obtain ⟨x, hx, hreported⟩ := reportedAt_eq P m_host m_uri (c :: rest') hin₁
  obtain ⟨y, hy, hreported'⟩ := reportedAt_eq P m_host m_uri rest' hin₂
  have hw := Exchange.complete_complete P [h.text ++ rawLines lines, c :: rest']
  have hw' := Exchange.complete_complete P [h.text ++ (rawLines lines ++ [c]), rest']
  obtain ⟨z, hz, hheaders⟩ := Exchange.read_status_line_head hw rfl h [c :: rest'] hx hin₁
  obtain ⟨z', hz', hheaders'⟩ := Exchange.read_status_line_head hw' rfl h [rest'] hy hin₂
  rw [hreported, hreported', hheaders, hheaders'] at heq
  exact Exchange.read_headers_overrun hw hw' hhead hz (List.append_nil _) hz'
    (List.append_nil _) heq

section
variable {ws version ws' word tail' : Bytes} {code : Nat} {c : UInt8}

theorem reportedAt_refused (left : Bytes) (hin : CRLF <:+: buf)
    (hversion : FirstWord buf ws version tail) (hword : FirstWord tail ws' word tail')
    (hrefused : version ≠ bytes "HTTP/1.1" ∨ stoul P word = none) :
    reportedAt P m_host m_uri buf left =
      some (HTTPResponse.new.withBuf (refusedRest version tail tail'), invalid_response) := by
  obtain ⟨x, hx, hreported⟩ := reportedAt_eq P m_host m_uri left hin
  rw [hreported]
  exact Exchange.read_status_line_refused hx hin hversion hword hrefused

theorem reportedAt_accepted (left : Bytes) (hin : CRLF <:+: buf)
    (hversion : FirstWord buf ws (bytes "HTTP/1.1") tail) (hword : FirstWord tail ws' word tail')
    (hcode : stoul P word = some code) :
    reportedAt P m_host m_uri buf left ≠ some (r, invalid_response) := by
  obtain ⟨x, hx, hreported⟩ := reportedAt_eq P m_host m_uri left hin
  rw [hreported]
  exact Exchange.read_status_line_accepted (Exchange.complete_complete ..) hx hin hversion hword
    hcode

/-- **A buffer that is refused before the end of the stream is refused with nothing left**: what
is left would grow with the buffer. -/
theorem Independent.refusedRest_eq_nil (hind : Independent P m_host m_uri (buf ++ c :: rest))
    (hin : CRLF <:+: buf) (hversion : FirstWord buf ws version tail)
    (hword : FirstWord tail ws' word tail')
    (hrefused : version ≠ bytes "HTTP/1.1" ∨ stoul P word = none) :
    refusedRest version tail tail' = [] := by
  by_contra hne
  have hin' : CRLF <:+: buf ++ [c] := hin.trans (List.prefix_append ..).isInfix
  have htail : tail ≠ [] := by
    rintro rfl
    obtain ⟨-, -, rfl⟩ := hword.eq_nil
    exact hne (by simp [refusedRest])
  have hversion' := hversion.append htail [c]
  obtain ⟨ws₂, word₂, tail₂, hword', hrefused', hrest⟩ : ∃ ws₂ word₂ tail₂,
      FirstWord (tail ++ [c]) ws₂ word₂ tail₂ ∧
        (version ≠ bytes "HTTP/1.1" ∨ stoul P word₂ = none) ∧
        refusedRest version (tail ++ [c]) tail₂ = refusedRest version tail tail' ++ [c] := by
    by_cases hv : version = bytes "HTTP/1.1"
    · have htail' : tail' ≠ [] := by simpa [refusedRest, hv] using hne
      exact ⟨_, _, _, hword.append htail' [c], hrefused, by simp [refusedRest, hv]⟩
    · obtain ⟨ws₂, word₂, tail₂, hword'⟩ := exists_firstWord (tail ++ [c])
      exact ⟨_, _, _, hword', .inl hv, by simp [refusedRest, hv]⟩
  have heq := hind.reportedAt_congr buf (c :: rest) (buf ++ [c]) rest rfl (by simp)
  rw [reportedAt_refused _ hin hversion hword hrefused,
    reportedAt_refused _ hin' hversion' hword' hrefused', hrest] at heq
  have hbuf : refusedRest version tail tail' = refusedRest version tail tail' ++ [c] :=
    congrArg (fun p => p.1.m_response_buf) (Option.some.inj heq)
  exact absurd hbuf (by simp)

/-- A read may end anywhere in the word behind the version, and what is there of the word must
not be a number. -/
theorem Independent.stoul_front {front : Bytes} (hind : Independent P m_host m_uri text)
    (hin : CRLF <:+: text)
    (hall : reportedAt P m_host m_uri text [] =
      some (HTTPResponse.new.withBuf [], invalid_response))
    (hversion : FirstWord text ws (bytes "HTTP/1.1") tail) (hword : FirstWord tail ws' word [])
    (hfront : front <+: word) : stoul P front = none := by
  by_contra hnumber
  obtain ⟨code, hcode⟩ := Option.ne_none_iff_exists'.mp hnumber
  have hne : word ≠ [] := by
    rintro rfl
    exact ne_nil_of_stoul hcode (List.prefix_nil.mp hfront)
  have hsep := hword.separated hversion.ends hne
  obtain ⟨left, rfl⟩ := hfront
  have htext : text = ws ++ bytes "HTTP/1.1" ++ ws' ++ (front ++ left) := by
    rw [hversion.eq, hword.eq]
    simp
  -- the line end comes before the word
  have hLF : LF ∉ front ++ left := by
    intro hmem
    exact absurd (hword.no_space LF hmem) (by decide)
  have hin' : CRLF <:+: ws ++ bytes "HTTP/1.1" ++ (ws' ++ front) := by
    have hin₀ : [CR] ++ [LF] <:+: ws ++ bytes "HTTP/1.1" ++ ws' :=
      infix_of_append_of_not_mem_right hLF (htext ▸ hin)
    rw [← List.append_assoc]
    exact hin₀.trans (List.prefix_append ..).isInfix
  have hversion' := firstWord_append hversion.blank (by decide : bytes "HTTP/1.1" ≠ [])
    hversion.no_space hsep hword.blank front
  have hword' : FirstWord (ws' ++ front) ws' front [] :=
    ⟨(List.append_nil _).symm, hword.blank,
      fun a ha => hword.no_space a (List.mem_append_left _ ha), by simp, fun _ => rfl⟩
  have heq := hind.reportedAt_congr (ws ++ bytes "HTTP/1.1" ++ (ws' ++ front)) left text []
    (by simp [htext]) (List.append_nil _)
  exact reportedAt_accepted left hin' hversion' hword' hcode (heq.trans hall)

/-- **A stream that is refused with nothing left**, wherever the buffer ends, **has no status
code.** -/
theorem Independent.unnumbered (hind : Independent P m_host m_uri text) (hin : CRLF <:+: text)
    (hall : reportedAt P m_host m_uri text [] =
      some (HTTPResponse.new.withBuf [], invalid_response)) : Unnumbered P text := by
  obtain ⟨ws, version, tail, hversion⟩ := exists_firstWord text
  obtain ⟨ws', word, tail', hword⟩ := exists_firstWord tail
  have hrefused : version ≠ bytes "HTTP/1.1" ∨ stoul P word = none := by
    by_contra hacc
    rw [not_or, not_not] at hacc
    obtain ⟨rfl, hnumber⟩ := hacc
    obtain ⟨code, hcode⟩ := Option.ne_none_iff_exists'.mp hnumber
    exact reportedAt_accepted [] hin hversion hword hcode hall
  have hrest : refusedRest version tail tail' = [] := by
    rw [reportedAt_refused [] hin hversion hword hrefused] at hall
    exact congrArg (fun p => p.1.m_response_buf) (Option.some.inj hall)
  by_cases hv : version = bytes "HTTP/1.1"
  · subst hv
    obtain rfl : tail' = [] := by simpa [refusedRest] using hrest
    refine ⟨ws, _, tail, ws', word, hversion, hword, fun hne => absurd rfl hne, ?_⟩
    intro front hfront
    exact hind.stoul_front hin hall hversion hword hfront
  · obtain rfl : tail = [] := by simpa [refusedRest, hv] using hrest
    refine ⟨ws, version, [], [], [], hversion, .nil, fun _ => rfl, ?_⟩
    intro front hfront
    rw [List.prefix_nil.mp hfront, stoul_nil]

/-- White space at the end of a text comes after its last word. -/
theorem exists_concat_of_word {front back : Bytes} {a : UInt8} (hne : word ≠ [])
    (hword : ∀ a ∈ word, isspace a = false) (ha : isspace a = true)
    (h : front ++ [a] = ws ++ word ++ back) :
    ∃ back', back = back' ++ [a] ∧ front = ws ++ word ++ back' := by
  rcases List.eq_nil_or_concat back with rfl | ⟨back', z, rfl⟩
  · obtain ⟨init, z, rfl⟩ := (List.eq_nil_or_concat word).resolve_left hne
    rw [List.append_nil, List.concat_eq_append, ← List.append_assoc] at h
    obtain rfl : a = z := (List.append_singleton_inj.mp h).2
    exact absurd ha (by simp [hword a (by simp)])
  · rw [List.concat_eq_append, ← List.append_assoc] at h
    obtain ⟨hfront, rfl⟩ := List.append_singleton_inj.mp h
    exact ⟨back', List.concat_eq_append .., hfront⟩

/-- **An accepted first line has a complete status line.** -/
theorem exists_statusHead (hhead : EndsFirst CRLF head)
    (hversion : FirstWord head ws (bytes "HTTP/1.1") tail) (hword : FirstWord tail ws' word tail')
    (hcode : stoul P word = some code) :
    ∃ (h : StatusHead P) (more : Bytes), head = h.text ++ more := by
  have hne := ne_nil_of_stoul hcode
  obtain ⟨front, hfront⟩ := hhead.suffix
  have hall : front ++ [CR] ++ [LF] = ws ++ bytes "HTTP/1.1" ++ ws' ++ word ++ tail' := by
    rw [List.append_assoc, List.singleton_append, hfront, hversion.eq, hword.eq]
    simp
  -- the line end comes after the code
  obtain ⟨back, rfl, hall'⟩ := exists_concat_of_word hne hword.no_space isspace_LF hall
  obtain ⟨back, rfl, -⟩ := exists_concat_of_word hne hword.no_space isspace_CR hall'
  have hmem : CR ∈ back ++ [CR] ++ [LF] := by simp
  obtain ⟨message, rest, hsplit, hmessage⟩ := exists_split_of_mem hmem
  cases rest with
  | nil => exact absurd (List.append_singleton_inj.mp hsplit).2 (by decide)
  | cons c more =>
      have htext : head =
          ws ++ bytes "HTTP/1.1" ++ (ws' ++ word ++ (message ++ CR :: c :: more)) := by
        rw [← hsplit, ← hword.eq, ← hversion.eq]
      refine ⟨⟨ws, ws', word, code, message, c, hversion.blank, hword.blank,
        hword.separated hversion.ends hne, hword.no_space, hcode, ?_, hmessage⟩, more, ?_⟩
      · intro a ha
        refine hword.ends a ?_
        simp [hsplit, Option.mem_def.mp ha]
      · simpa [StatusHead.text] using htext

end

/-- **A stream that is reported alike is settled.** -/
theorem Independent.settled (hind : Independent P m_host m_uri text) : Settled P text := by
  by_cases hlast : CRLF <:+: text.dropLast
  · have hin : CRLF <:+: text := hlast.trans (List.dropLast_prefix _).isInfix
    obtain ⟨head, tail, rfl, hhead⟩ := exists_endsFirst (by simp) hin
    have hin' := hhead.suffix.isInfix
    cases tail with
    | nil =>
        rw [List.append_nil] at hlast
        exact absurd hlast hhead.first
    | cons c rest =>
        obtain ⟨ws, version, tail, hversion⟩ := exists_firstWord head
        obtain ⟨ws', word, tail', hword⟩ := exists_firstWord tail
        by_cases hrefused : version ≠ bytes "HTTP/1.1" ∨ stoul P word = none
        · refine .inr (.inl (hind.unnumbered hin ?_))
          rw [hind.reportedAt_congr _ [] head (c :: rest) (List.append_nil _) rfl,
            reportedAt_refused _ hin' hversion hword hrefused,
            hind.refusedRest_eq_nil hin' hversion hword hrefused]
        · rw [not_or, not_not] at hrefused
          obtain ⟨rfl, hnumber⟩ := hrefused
          obtain ⟨code, hcode⟩ := Option.ne_none_iff_exists'.mp hnumber
          obtain ⟨h, more, rfl⟩ := exists_statusHead hhead hversion hword hcode
          refine .inr (.inr ⟨h, more ++ c :: rest, List.append_assoc .., ?_, ?_⟩)
          · intro hfirst
            refine hhead.first (hfirst.trans ?_)
            by_cases hmore : more = []
            · rw [hmore, List.append_nil]
            · rw [List.dropLast_append_of_ne_nil hmore]
              exact ((List.dropLast_prefix _).trans (List.prefix_append ..)).isInfix
          · rw [List.append_assoc] at hind
            exact hind.not_overrun
  · exact .inl hlast

/-! ### The streams that are reported alike -/

/-- **What is reported does not depend on the division into reads exactly for the settled
streams.** -/
theorem independent_iff (P : Platform) (m_host m_uri text : Bytes) :
    Independent P m_host m_uri text ↔ Settled P text := by
  refine ⟨Independent.settled, ?_⟩
  intro hsettled w w' hw hw' hP hP' hchunks hchunks'
  obtain ⟨x, hx, hexec⟩ := Exchange.execute_undisturbed (x := .new m_host m_uri) hw.toUndisturbed
  obtain ⟨y, hy, hexec'⟩ := Exchange.execute_undisturbed (x := .new m_host m_uri) hw'.toUndisturbed
  rw [hexec, hexec']
  exact Exchange.read_status_line_settled hsettled hw hw' hP hP' hx hy hchunks hchunks'

/-- A status line that goes on in the next line is refused or accepted, as the reads come. -/
theorem not_independent_split_line :
    ¬ ∀ P m_host m_uri text, Independent P m_host m_uri text := by
  intro hall
  have heq := (hall .llp64 (bytes "h") (bytes "/")
    (bytes "HTTP/1.1\r\n200 OK\r\na:b\r\n\r\n")).reportedAt_congr
      (bytes "HTTP/1.1\r\n") (bytes "200 OK\r\na:b\r\n\r\n")
      (bytes "HTTP/1.1\r\n200 OK\r\na:b\r\n\r\n") [] (by decide) (by decide)
  have hfirst : (reportedAt .llp64 (bytes "h") (bytes "/") (bytes "HTTP/1.1\r\n")
      (bytes "200 OK\r\na:b\r\n\r\n")).map (·.2) = some invalid_response := by decide
  have hwhole : (reportedAt .llp64 (bytes "h") (bytes "/")
      (bytes "HTTP/1.1\r\n200 OK\r\na:b\r\n\r\n") []).map (·.2) = some .success := by decide
  rw [heq, hwhole] at hfirst
  exact absurd hfirst (by decide)

/-! ### Well-formed responses -/

/-- Raw lines at the beginning of a header block are lines of it. -/
theorem exists_line_block_eq {block : List Bytes} {body : Bytes} {c : UInt8}
    (hblock : BlockLines block)
    (h : line_block block ++ (CRLF ++ body) = rawLines lines ++ c :: rest) :
    ∃ more, line_block block = rawLines lines ++ more := by
  induction lines generalizing block with
  | nil => exact ⟨_, rfl⟩
  | cons l lines ih =>
      rw [rawLines_cons] at h
      cases block with
      | nil =>
          -- the empty line begins with a CR, a raw line does not
          have htake := congrArg (List.takeWhile (· != CR)) h
          rw [IStream.takeWhile_ne_append l.no_CR] at htake
          exact absurd htake.symm l.ne_nil
      | cons line block =>
          obtain ⟨-, hcr⟩ := hblock line List.mem_cons_self
          rw [line_block_cons, List.append_assoc, List.cons_append, List.cons_append] at h
          have htake := congrArg (List.takeWhile (· != CR)) h
          rw [IStream.takeWhile_ne_append hcr, IStream.takeWhile_ne_append l.no_CR] at htake
          rw [htake, List.append_cancel_left_eq, List.cons.injEq, List.cons.injEq] at h
          obtain ⟨-, hlast, hrest⟩ := h
          obtain ⟨more, hmore⟩ := ih (fun l hl => hblock l (List.mem_cons_of_mem _ hl)) hrest
          exact ⟨more, by rw [rawLines_cons, line_block_cons, hmore, htake, hlast]⟩

theorem not_overrun_line_block {block : List Bytes} (hblock : BlockLines block) (body : Bytes) :
    ¬ Overrun (line_block block ++ (CRLF ++ body)) := by
  rintro ⟨lines, c, rest, heq, hhead⟩
  obtain ⟨more, hmore⟩ := exists_line_block_eq hblock heq
  refine not_infix_line_block hblock (hhead.suffix.isInfix.trans ?_)
  rw [hmore, List.append_assoc]
  exact (List.prefix_append ..).isInfix

/-- **A well-formed response is settled**: it is reported alike however it is divided. -/
theorem Response.settled (P : Platform) (r : Response) : Settled P r.text := by
  refine .inr (.inr ⟨statusHead P r.code r.reason_oneLine,
    line_block r.lines ++ (CRLF ++ r.body), ?_, ?_, ?_⟩)
  · rw [statusHead_text, Response.text, List.append_assoc (line_block r.lines)]
  · rw [statusHead_text]
    exact CRLF_not_infix_line (CR_not_mem_status_line r.reason_oneLine)
  · exact not_overrun_line_block r.blockLines r.body

end AsioStudy.HttpClient
