import AsioStudy.HttpServer.HeaderLoop
import AsioStudy.HttpServer.Request

/-!
# AsioStudy.HttpServer.HeaderMap

What `on_headers_received` makes of a header block with more bytes behind it.

The loop does not know the empty line: it goes on to the end of the buffer
(`header_loop_rest`). So a block with nothing behind it gives exactly the map its lines
mean, and whatever does come behind it is gone afterwards.
-/

namespace AsioStudy.HttpServer

variable {s s' : Service}

/-- The meaning of header lines: the value of a name is that of the last line with it. -/
def fieldMap (fields : List (Bytes × Bytes)) : StdMap Bytes Bytes := fun name =>
  (fields.reverse.find? fun field => field.1 = name).map (·.2)

/-- Storing the fields one by one in the empty map gives the map they mean. -/
theorem insert_fields_eq (fields : List (Bytes × Bytes)) :
    insert_fields .empty fields = fieldMap fields := by
  induction fields using List.reverseRecOn with
  | nil => rfl
  | append_singleton fields field ih =>
      have hlast : insert_fields .empty (fields ++ [field]) =
          (insert_fields .empty fields).insert field.1 field.2 := by
        simp [insert_fields]
      rw [hlast, ih]
      funext name
      by_cases hname : field.1 = name
      · simp [fieldMap, StdMap.insert_apply, hname]
      · have hne : name ≠ field.1 := fun he => hname he.symm
        simp [fieldMap, StdMap.insert_apply, hname, hne]

/-! ### Where the loop stops -/

/-- **The loop stops at the end of the buffer** and nowhere else. -/
theorem header_loop_rest {fuel : Nat} {header_name header_value : Bytes} {stream : IStream}
    {m : StdMap Bytes Bytes} {r : IStream × StdMap Bytes Bytes} (h : stream.Consistent)
    (hr : Service.header_loop fuel header_name header_value stream m = some r) :
    r.1.rest = [] := by
  induction fuel generalizing header_name header_value stream m with
  | zero => exact absurd hr (by simp [Service.header_loop])
  | succ fuel ih =>
      cases heof : stream.eof with
      | true =>
          -- the only exit of the loop
          simp only [Service.header_loop, heof, if_true] at hr
          obtain rfl := Option.some.inj hr
          exact h.eof_rest heof
      | false =>
          obtain ⟨header_name', header_value', stream', m', hstep, h', -⟩ :=
            header_loop_step h heof header_name header_value m
          rw [hstep fuel] at hr
          exact ih h' hr

/-- Nothing is left unread. -/
theorem on_headers_received_rest (h : s.on_headers_received .success = (s', .go_on)) :
    s'.m_request = [] := by
  have hcheck : s.error_check .success = none := rfl
  simp only [Service.on_headers_received, hcheck] at h
  split at h
  · exact absurd (congrArg Prod.snd h) (by simp)
  · next hr =>
    obtain ⟨rfl, -⟩ := Prod.mk.inj h
    exact header_loop_rest (IStream.consistent_on s.m_request) hr

/-! ### The header map -/

/-- Header lines `name:value` that no CR, LF or further `':'` makes ambiguous. -/
structure HeaderField (field : Bytes × Bytes) : Prop where
  name_ne_nil : field.1 ≠ []
  name_no_colon : COLON ∉ field.1
  name_one_line : CR ∉ field.1 ∧ LF ∉ field.1
  value_one_line : CR ∉ field.2 ∧ LF ∉ field.2

/-- After the handler the map is that of the header lines, and the bytes behind their empty
line are still unread. -/
def ReadsHeaderBlock (s : Service) (fields : List (Bytes × Bytes)) (further : Bytes) : Prop :=
  ∃ s', s.on_headers_received .success = (s', .go_on) ∧
    s'.m_request_headers = fieldMap fields ∧ s'.m_request = further

/-- **When the header map is exactly the header block.** -/
theorem readsHeaderBlock_iff (s : Service) (fields : List (Bytes × Bytes)) (further : Bytes)
    (hfields : ∀ field ∈ fields, HeaderField field)
    (hempty : s.m_request_headers = .empty)
    (hbuf : s.m_request = field_block fields ++ CRLF ++ further) :
    ReadsHeaderBlock s fields further ↔ further = [] := by
  constructor
  · intro h
    obtain ⟨s', hs', -, hrest⟩ := h
    exact hrest.symm.trans (on_headers_received_rest hs')
  · intro h
    have hbuf' : s.m_request = field_block fields ++ CRLF := by rw [hbuf, h, List.append_nil]
    have hsep : ∀ field ∈ fields, COLON ∉ field.1 ∧ CR ∉ field.2 := by
      intro field hf
      exact ⟨(hfields field hf).name_no_colon, (hfields field hf).value_one_line.1⟩
    refine ⟨_, on_headers_received_fields hsep (by decide) hbuf', ?_, h.symm⟩
    show insert_fields s.m_request_headers fields = fieldMap fields
    rw [hempty, insert_fields_eq]

/-- One header line. -/
def hostField : Bytes × Bytes := (bytes "HOST", bytes " h")

theorem hostField_headerField : ∀ field ∈ [hostField], HeaderField field := by
  intro field hf
  obtain rfl := List.mem_singleton.mp hf
  exact ⟨by decide, by decide, by decide, by decide⟩

theorem readsHeaderBlock_iff_host :
    ReadsHeaderBlock { Service.new with m_request := field_block [hostField] ++ CRLF ++ [] }
      [hostField] [] :=
  (readsHeaderBlock_iff _ [hostField] [] hostField_headerField rfl rfl).mpr rfl

/-- A body with a `':'` becomes a header. -/
theorem not_readsHeaderBlock_body :
    ¬ ∀ (s : Service) (fields : List (Bytes × Bytes)) (further : Bytes), fields ≠ [] →
      (∀ field ∈ fields, HeaderField field) → s.m_request_headers = .empty →
      s.m_request = field_block fields ++ CRLF ++ further →
        ReadsHeaderBlock s fields further := by
  intro h
  obtain ⟨s', hs', hmap, -⟩ := h
    { Service.new with m_request := field_block [hostField] ++ CRLF ++ bytes "a:b" } [hostField]
    (bytes "a:b") (by simp) hostField_headerField rfl rfl
  have hkey : s'.m_request_headers (CRLF ++ bytes "a") = some (bytes "b") := by
    rw [← (Prod.mk.inj hs').1]
    decide
  rw [hmap] at hkey
  exact absurd hkey (by decide)

end AsioStudy.HttpServer
