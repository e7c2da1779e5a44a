import AsioStudy.Core.Lines
import AsioStudy.HttpClient.Parsing

/-!
# AsioStudy.HttpClient.Response

Well-formed responses and what the two parsing handlers do with them.

`Response` is a response as its sender means it: a status code, a reason phrase, header
lines and a body, with the conditions that make its text unambiguous as fields. The text
is `Response.text`; `headerMap` is the meaning of the lines. `on_status_line_received_text`
and `on_headers_received_block` show that each handler consumes its own part of the text,
whatever follows it in the buffer.
-/

namespace AsioStudy.HttpClient

/-- A status code of three digits. -/
structure StatusCode where
  d₁ : Fin 10
  d₂ : Fin 10
  d₃ : Fin 10

def StatusCode.text (c : StatusCode) : Bytes := [digit c.d₁, digit c.d₂, digit c.d₃]

def StatusCode.value (c : StatusCode) : Nat := 100 * c.d₁ + 10 * c.d₂ + c.d₃

/-- A string without CR and LF. -/
def OneLine (s : Bytes) : Prop := CR ∉ s ∧ LF ∉ s

/-- A well-formed response. -/
structure Response where
  code : StatusCode
  reason : Bytes
  lines : List Bytes
  body : Bytes
  reason_oneLine : OneLine reason
  lines_oneLine : ∀ l ∈ lines, l ≠ [] ∧ OneLine l

def status_line (code : StatusCode) (reason : Bytes) : Bytes :=
  bytes "HTTP/1.1 " ++ code.text ++ SP :: reason

/-- The bytes of a response. -/
def Response.text (r : Response) : Bytes :=
  status_line r.code r.reason ++ CRLF ++ (line_block r.lines ++ CRLF ++ r.body)

/-- The name and the value of a header line: what is before and after its first `':'`. -/
def headerField (line : Bytes) : Option (Bytes × Bytes) :=
  if COLON ∈ line then
    some (line.takeWhile (· != COLON), (line.dropWhile (· != COLON)).tail)
  else none

/-- The meaning of header lines: the value of a name is that of the last line with it. -/
def headerMap (lines : List Bytes) : StdMap Bytes Bytes := fun name =>
  ((lines.filterMap headerField).reverse.find? fun field => field.1 = name).map (·.2)

theorem Response.blockLines (r : Response) : BlockLines r.lines :=
  fun l hl => ⟨(r.lines_oneLine l hl).1, (r.lines_oneLine l hl).2.1⟩

/-! ### The header map -/

theorem headerField_append {a b : Bytes} (h : COLON ∉ a) :
    headerField (a ++ COLON :: b) = some (a, b) := by
  have hmem : COLON ∈ a ++ COLON :: b := List.mem_append_right _ List.mem_cons_self
  simp only [headerField, hmem, if_true, IStream.takeWhile_ne_append h,
    IStream.dropWhile_ne_append h, List.tail_cons]

/-- One line adds its field. -/
theorem add_header_eq (m : StdMap Bytes Bytes) (line : Bytes) :
    add_header m line =
      match headerField line with
      | none => m
      | some (name, value) => m.insert name value := by
  by_cases hmem : COLON ∈ line
  · obtain ⟨a, b, rfl, ha⟩ := exists_split_of_mem hmem
    have hvalue : (if a.length < (a ++ COLON :: b).length - 1
        then (a ++ COLON :: b).drop (a.length + 1) else []) = b := by
      cases b with
      | nil => simp
      | cons c b => simp
    have htake : (a ++ COLON :: b).take a.length = a := List.take_left
    simp only [add_header, find_append_cons ha, headerField_append ha, hvalue, htake]
  · simp [add_header, find_eq_none.mpr hmem, headerField, hmem]

theorem headerMap_append (lines : List Bytes) (line : Bytes) :
    headerMap (lines ++ [line]) = add_header (headerMap lines) line := by
  rw [add_header_eq]
  funext name
  cases hf : headerField line with
  | none => simp [headerMap, hf]
  | some field =>
      obtain ⟨n, v⟩ := field
      by_cases hn : n = name
      · simp [headerMap, hf, hn, StdMap.insert_apply]
      · have hn' : name ≠ n := fun he => hn he.symm
        simp [headerMap, hf, hn, hn', StdMap.insert_apply]

/-- Adding the lines one by one to the empty map gives the map they mean. -/
theorem foldl_add_header (lines : List Bytes) :
    lines.foldl add_header .empty = headerMap lines := by
  induction lines using List.reverseRecOn with
  | nil => rfl
  | append_singleton lines line ih => rw [List.foldl_append, ih, headerMap_append]; rfl

/-! ### The status line -/

theorem StatusCode.isdigit_text (c : StatusCode) : ∀ d ∈ c.text, isdigit d = true := by
  intro d hd
  simp only [StatusCode.text, List.mem_cons, List.not_mem_nil, or_false] at hd
  rcases hd with rfl | rfl | rfl <;> exact isdigit_digit _

theorem StatusCode.digitsValue_text (c : StatusCode) : digitsValue c.text = c.value := by
  simp only [digitsValue, StatusCode.text, List.foldl_cons, List.foldl_nil, digit_toNat,
    StatusCode.value]
  omega

theorem StatusCode.value_lt (c : StatusCode) : c.value < 1000 := by
  have h₁ := c.d₁.isLt
  have h₂ := c.d₂.isLt
  have h₃ := c.d₃.isLt
  simp only [StatusCode.value]
  omega

/-- It survives the conversion to `unsigned int`. -/
theorem StatusCode.toNat_value (c : StatusCode) : (UInt32.ofNat c.value).toNat = c.value := by
  have hlt := c.value_lt
  exact UInt32.toNat_ofNat_of_lt' (Nat.lt_trans hlt (by decide))

/-- `std::stoul` reads a three-digit code on every platform. -/
theorem StatusCode.stoul_text (P : Platform) (c : StatusCode) : stoul P c.text = some c.value := by
  have hmax : digitsValue c.text ≤ P.ULONG_MAX := by
    have hlt := c.value_lt
    have hge := P.ULONG_MAX_ge
    rw [c.digitsValue_text]
    omega
  rw [stoul_digits P (by simp [StatusCode.text]) c.isdigit_text hmax, c.digitsValue_text]

theorem CR_not_mem_status_line {code : StatusCode} {reason : Bytes} (h : OneLine reason) :
    CR ∉ status_line code reason := by
  have hversion : CR ∉ bytes "HTTP/1.1 " := by decide
  have hcode : CR ∉ code.text := fun hm => absurd (code.isdigit_text _ hm) (by decide)
  simp only [status_line, List.mem_append, List.mem_cons, not_or]
  exact ⟨⟨hversion, hcode⟩, by decide, h.1⟩

/-- The response data after a status line, with `more` left in the buffer. -/
def HTTPRequest.withStatus (x : HTTPRequest) (code : StatusCode) (reason more : Bytes) :
    HTTPRequest :=
  { x with m_response := { x.m_response with
      m_status_code := some (UInt32.ofNat code.value)
      m_status_message := SP :: reason
      m_response_buf := more } }

/-- A status line of a well-formed response. -/
def statusHead (P : Platform) (code : StatusCode) {reason : Bytes} (h : OneLine reason) :
    StatusHead P where
  ws := []
  ws' := [SP]
  word := code.text
  code := code.value
  message := SP :: reason
  last := LF
  blank := by simp
  blank' := by simp
  separated := by simp
  no_space := fun c hc => isspace_of_isdigit (code.isdigit_text c hc)
  stoul_word := code.stoul_text P
  message_space := by simp
  message_no_CR := by
    have hne : ¬ CR = SP := by decide
    simp [hne, h.1]

theorem statusHead_text {P : Platform} {code : StatusCode} {reason : Bytes} (h : OneLine reason) :
    (statusHead P code h).text = status_line code reason ++ CRLF := by
  have hlit : bytes "HTTP/1.1 " = bytes "HTTP/1.1" ++ [SP] := by decide
  simp [StatusHead.text, statusHead, status_line, hlit]

/-- **A status line is consumed to its end** and its code read. -/
theorem on_status_line_received_text {P : Platform} {x : HTTPRequest} {code : StatusCode}
    {reason more : Bytes} (hreason : OneLine reason)
    (hbuf : x.m_response.m_response_buf = status_line code reason ++ CRLF ++ more) :
    on_status_line_received P x .success = (x.withStatus code reason more, .lock) := by
  rw [← statusHead_text (P := P) hreason] at hbuf
  exact (statusHead P code hreason).on_status_line_received hbuf

/-- A first word other than the version is refused. -/
theorem on_status_line_received_version {P : Platform} {x y : HTTPRequest} {ec : ErrorCode}
    {word tail : Bytes} (hne : word ≠ []) (hword : ∀ c ∈ word, isspace c = false)
    (hversion : word ≠ bytes "HTTP/1.1")
    (hbuf : x.m_response.m_response_buf = word ++ SP :: tail) :
    on_status_line_received P x ec ≠ (y, .lock) := by
  have hfirst : (IStream.on (word ++ SP :: tail)).extract [] = (word, IStream.on (SP :: tail)) :=
    IStream.extract_token [] (by simp) hne hword isspace_SP []
  simp only [on_status_line_received, hbuf, hfirst, hversion, ne_eq, not_false_eq_true, if_true]
  split <;> simp

/-! ### The header block -/

/-- A line of a header block as the loop reads it. -/
def blockLine (line : Bytes) (h : line ≠ [] ∧ CR ∉ line) : RawLine := ⟨line, LF, h.1, h.2⟩

theorem rawLines_pmap {lines : List Bytes} (hlines : BlockLines lines) :
    rawLines (lines.pmap blockLine hlines) = line_block lines := by
  induction lines with
  | nil => rfl
  | cons line lines ih =>
      have hlines' : BlockLines lines := fun l hl => hlines l (List.mem_cons_of_mem _ hl)
      have hcons := rawLines_cons (blockLine line (hlines line List.mem_cons_self))
        (lines.pmap blockLine hlines') []
      rw [List.append_nil, List.append_nil, ih hlines'] at hcons
      rw [line_block_cons]
      exact hcons

theorem rawHeaders_pmap {lines : List Bytes} (hlines : BlockLines lines)
    (m_headers : StdMap Bytes Bytes) :
    rawHeaders m_headers (lines.pmap blockLine hlines) = lines.foldl add_header m_headers := by
  induction lines generalizing m_headers with
  | nil => rfl
  | cons line lines ih => exact ih (fun l hl => hlines l (List.mem_cons_of_mem _ hl)) _

/-- The response data after a header block, with `more` left in the buffer. -/
def HTTPRequest.withHeaders (x : HTTPRequest) (lines : List Bytes) (more : Bytes) : HTTPRequest :=
  { x with m_response := { x.m_response with
      m_headers := lines.foldl add_header x.m_response.m_headers
      m_response_buf := more } }

/-- **A header block is consumed with its empty line**, and every field added. -/
theorem on_headers_received_block {x : HTTPRequest} {lines : List Bytes} {more : Bytes}
    (hlines : BlockLines lines)
    (hbuf : x.m_response.m_response_buf = line_block lines ++ CRLF ++ more) :
    on_headers_received x .success = (x.withHeaders lines more, .lock) := by
  rw [← rawLines_pmap hlines, List.append_assoc] at hbuf
  rw [on_headers_received_empty hbuf, HTTPResponse.withHeaders, rawHeaders_pmap]
  rfl

end AsioStudy.HttpClient
