import AsioStudy.HttpClient.Parsing

/-!
# AsioStudy.HttpClient.HeaderLoop

When the `while (true)` loop of `on_headers_received` ends.

Its only exit is an empty `header`. The loop goes through the raw lines of the buffer; what
matters is how the bytes after the last of them begin. An empty text is the exit, and so is
the end of the buffer: `getline` still clears its string on the good stream there. A buffer
that ends inside a text, or on the CR of one, leaves the text in `header` for ever.
-/

namespace AsioStudy.HttpClient

variable {buf text tail : Bytes} {lines : List RawLine} {m_headers : StdMap Bytes Bytes}

/-- The loop reaches its `break` after finitely many iterations. -/
def HeaderLoopEnds (buf : Bytes) (m_headers : StdMap Bytes Bytes) : Prop :=
  ∃ iterations, (header_loop iterations [] (IStream.on buf) m_headers).isSome = true

/-- Raw lines up to an empty text, or up to the end of the buffer. -/
def EndsOnRawLine (buf : Bytes) : Prop :=
  ∃ lines tail, buf = rawLines lines ++ tail ∧ (tail = [] ∨ ∃ rest, tail = CR :: rest)

/-- The iteration that meets an empty text, or the end of the buffer, is the last one. -/
theorem header_loop_exit (fuel : Nat) (header : Bytes)
    (htail : tail = [] ∨ ∃ rest, tail = CR :: rest) (m_headers : StdMap Bytes Bytes) :
    (header_loop (fuel + 1) header (IStream.on tail) m_headers).isSome = true := by
  have hline : ((IStream.on tail).getline header CR).1 = [] := by
    rcases htail with rfl | ⟨rest, rfl⟩
    · rw [IStream.getline_end List.not_mem_nil]
    · have hempty : (IStream.on ([] ++ CR :: rest)).getline header CR = ([], IStream.on rest) :=
        IStream.getline_delim List.not_mem_nil header
      exact congrArg Prod.fst hempty
  simp [header_loop, hline]

/-- A text that the buffer does not continue is never left again. -/
theorem header_loop_unfinished (fuel : Nat) (header : Bytes) (hne : text ≠ []) (hcr : CR ∉ text)
    (htail : tail = text ∨ tail = text ++ [CR]) (m_headers : StdMap Bytes Bytes) :
    header_loop fuel header (IStream.on tail) m_headers = none := by
  cases fuel with
  | zero => rfl
  | succ fuel =>
      rcases htail with rfl | rfl
      · -- `getline` has met the end of the buffer
        rw [header_loop, IStream.getline_end hcr]
        simp only [hne, if_false]
        exact header_loop_not_good _ _ (by simp [IStream.get, IStream.good]) hne
      · -- it is the `get` after it that finds nothing
        have hline : (IStream.on (text ++ [CR])).getline header CR = (text, IStream.on []) :=
          IStream.getline_delim hcr header
        rw [header_loop, hline]
        simp only [hne, if_false]
        exact header_loop_not_good _ _ (by simp [IStream.good]) hne

/-- Raw lines before it do not help. -/
theorem not_headerLoopEnds (hne : text ≠ []) (hcr : CR ∉ text)
    (htail : tail = text ∨ tail = text ++ [CR]) :
    ¬ HeaderLoopEnds (rawLines lines ++ tail) m_headers := by
  intro h
  obtain ⟨iterations, hsome⟩ := h
  obtain ⟨r, hr⟩ := Option.isSome_iff_exists.mp hsome
  have hmore := header_loop_mono hr (Nat.le_add_right iterations lines.length)
  obtain ⟨header', hloop⟩ := header_loop_rawLines lines iterations [] tail m_headers
  rw [hloop, header_loop_unfinished iterations header' hne hcr htail] at hmore
  exact absurd hmore (by simp)

/-- **When the header loop ends.** -/
theorem headerLoopEnds_iff (buf : Bytes) (m_headers : StdMap Bytes Bytes) :
    HeaderLoopEnds buf m_headers ↔ EndsOnRawLine buf := by
  constructor
  · intro h
    -- take as many raw lines as there are; three things may follow
    obtain ⟨lines, tail, rfl, hend⟩ := exists_rawLines buf
    rcases hend with hcr | hempty | ⟨text, hne, hcr, htail⟩
    · by_cases htail : tail = []
      · exact ⟨lines, tail, rfl, .inl htail⟩
      · exact absurd h (not_headerLoopEnds htail hcr (.inl rfl))
    · exact ⟨lines, tail, rfl, .inr hempty⟩
    · exact absurd h (not_headerLoopEnds hne hcr (.inr htail))
  · intro h
    obtain ⟨lines, tail, rfl, htail⟩ := h
    obtain ⟨header', hloop⟩ := header_loop_rawLines lines 1 [] tail m_headers
    refine ⟨1 + lines.length, ?_⟩
    rw [hloop]
    exact header_loop_exit 0 header' htail _

/-- A lone CR before the empty line makes the loop read past it; the body then ends in the
middle of a text. -/
def overrunBuffer : Bytes := bytes "a" ++ [CR] ++ CRLF ++ CRLF ++ bytes "b"

theorem not_headerLoopEnds_overrun :
    ¬ ∀ (buf : Bytes) (m_headers : StdMap Bytes Bytes), CRLF ++ CRLF <:+: buf →
      HeaderLoopEnds buf m_headers := by
  intro h
  have hends : HeaderLoopEnds (rawLines [⟨bytes "a", CR, by decide, by decide⟩,
      ⟨[LF], LF, by decide, by decide⟩] ++ bytes "b") .empty :=
    h overrunBuffer .empty (by decide)
  exact not_headerLoopEnds (by decide) (by decide) (.inl rfl) hends

end AsioStudy.HttpClient
