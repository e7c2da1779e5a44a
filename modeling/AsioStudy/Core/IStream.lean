import AsioStudy.Core.Bytes

/-!
# AsioStudy.Core.IStream

`std::istream` over a buffer that holds all its bytes: the unread bytes and the
state flags `eofbit` and `failbit` (`badbit` is never set by reading memory).

The three extraction functions follow C++11, including what they do on a stream
that is no longer good: `getline` and `>>` then leave their string **unchanged**, and
`get` consumes nothing. A `getline` that starts on a good stream clears its string
first; reaching the end of the buffer sets `eofbit`, and also `failbit` when not even
the delimiter was extracted.
-/

namespace AsioStudy

/-- An input stream: what is unread and the state flags. -/
structure IStream where
  rest : Bytes
  eofbit : Bool
  failbit : Bool
  deriving DecidableEq, Repr

namespace IStream

/-- A fresh stream on a buffer. -/
def on (buf : Bytes) : IStream := ⟨buf, false, false⟩

/-- `istream::good` -/
def good (s : IStream) : Bool := !s.eofbit && !s.failbit

/-- `istream::eof` -/
def eof (s : IStream) : Bool := s.eofbit

/-- The unformatted `istream::get`. -/
def get (s : IStream) : Option UInt8 × IStream :=
  if s.good then
    match s.rest with
    | [] => (none, ⟨[], true, true⟩)
    | c :: rest => (some c, { s with rest := rest })
  else
    (none, { s with failbit := true })

/-- `std::getline(s, str, delim)` -/
def getline (s : IStream) (str : Bytes) (delim : UInt8) : Bytes × IStream :=
  if s.good then
    let line := s.rest.takeWhile (· != delim)
    match s.rest.dropWhile (· != delim) with
    | [] => (line, ⟨[], true, line.isEmpty⟩)
    | _ :: rest => (line, { s with rest := rest })
  else
    (str, { s with failbit := true })

/-- `s >> str`: skip white space, then read up to the next white space. -/
def extract (s : IStream) (str : Bytes) : Bytes × IStream :=
  if s.good then
    match s.rest.dropWhile isspace with
    | [] => (str, ⟨[], true, true⟩)
    | c :: rest =>
        let rest' := (c :: rest).dropWhile (! isspace ·)
        ((c :: rest).takeWhile (! isspace ·), ⟨rest', rest'.isEmpty, false⟩)
  else
    (str, { s with failbit := true })

variable {s : IStream} {buf line tail str tok : Bytes} {delim c : UInt8}

@[simp] theorem on_rest (buf : Bytes) : (on buf).rest = buf := rfl
@[simp] theorem on_good (buf : Bytes) : (on buf).good = true := rfl
@[simp] theorem on_eof (buf : Bytes) : (on buf).eof = false := rfl
@[simp] theorem eof_mk (rest : Bytes) (e f : Bool) : (⟨rest, e, f⟩ : IStream).eof = e := rfl

/-! ### `get` -/

@[simp] theorem get_cons (c : UInt8) (tail : Bytes) :
    (on (c :: tail)).get = (some c, on tail) := rfl
@[simp] theorem get_nil : (on []).get = (none, ⟨[], true, true⟩) := rfl

/-! ### `getline` -/

theorem takeWhile_ne_append (h : delim ∉ line) :
    (line ++ delim :: tail).takeWhile (· != delim) = line := by
  rw [List.takeWhile_append_of_pos (fun a ha => by simpa using fun he : a = delim => h (he ▸ ha))]
  simp

theorem dropWhile_ne_append (h : delim ∉ line) :
    (line ++ delim :: tail).dropWhile (· != delim) = delim :: tail := by
  rw [List.dropWhile_append_of_pos (fun a ha => by simpa using fun he : a = delim => h (he ▸ ha))]
  simp

/-- A line that ends in the delimiter is read without it, and the stream goes on
right after it. -/
theorem getline_delim (h : delim ∉ line) (str : Bytes) :
    (on (line ++ delim :: tail)).getline str delim = (line, on tail) := by
  simp only [getline, on_good, on_rest, if_true, takeWhile_ne_append h, dropWhile_ne_append h]
  rfl

/-- Without a delimiter `getline` takes everything and reaches the end. -/
theorem getline_end (h : delim ∉ buf) (str : Bytes) :
    (on buf).getline str delim = (buf, ⟨[], true, buf.isEmpty⟩) := by
  have hp : ∀ a ∈ buf, (a != delim) = true := fun a ha => by
    simpa using fun he : a = delim => h (he ▸ ha)
  have htake : buf.takeWhile (· != delim) = buf := List.takeWhile_eq_self_iff.mpr hp
  have hdrop : buf.dropWhile (· != delim) = [] := List.dropWhile_eq_nil_iff.mpr hp
  simp [getline, htake, hdrop]

/-- What `getline` leaves in its string has no delimiter. -/
theorem getline_not_mem (s : IStream) (h : delim ∉ str) : delim ∉ (s.getline str delim).1 := by
  have hline : delim ∉ s.rest.takeWhile (· != delim) := fun hm => by
    simpa using List.mem_takeWhile_imp hm
  unfold getline
  split
  · dsimp only
    split <;> exact hline
  · exact h

/-! ### Where the flags are set -/

/-- Reading sets its flags only at the end of the buffer, and `failbit` never without
`eofbit`. -/
structure Consistent (s : IStream) : Prop where
  eof_rest : s.eofbit = true → s.rest = []
  fail_eof : s.failbit = true → s.eofbit = true

theorem good_iff : s.good = true ↔ s.eofbit = false ∧ s.failbit = false := by
  simp [good]

theorem consistent_of_good (h : s.good = true) : s.Consistent := by
  obtain ⟨heof, hfail⟩ := good_iff.mp h
  refine ⟨?_, ?_⟩
  · intro he
    exact absurd (heof.symm.trans he) (by simp)
  · intro hf
    exact absurd (hfail.symm.trans hf) (by simp)

theorem consistent_on (buf : Bytes) : (on buf).Consistent := consistent_of_good rfl

/-- Such a stream is good until its end is reached. -/
theorem Consistent.good_or_eof (h : s.Consistent) : s.good = true ∨ s.eof = true := by
  cases heof : s.eofbit with
  | true => exact .inr heof
  | false =>
      left
      refine good_iff.mpr ⟨heof, ?_⟩
      by_contra hfail
      have hset := h.fail_eof (by simpa using hfail)
      exact absurd (heof.symm.trans hset) (by simp)

theorem Consistent.getline (h : s.Consistent) (str : Bytes) (delim : UInt8) :
    (s.getline str delim).2.Consistent := by
  unfold IStream.getline
  by_cases hgood : s.good = true
  · rw [if_pos hgood]
    dsimp only
    split
    · exact ⟨fun _ => rfl, fun _ => rfl⟩
    · exact consistent_of_good hgood
  · rw [if_neg hgood]
    have heof := h.good_or_eof.resolve_left hgood
    exact ⟨h.eof_rest, fun _ => heof⟩

theorem Consistent.get (h : s.Consistent) : s.get.2.Consistent := by
  unfold IStream.get
  by_cases hgood : s.good = true
  · rw [if_pos hgood]
    split
    · exact ⟨fun _ => rfl, fun _ => rfl⟩
    · exact consistent_of_good hgood
  · rw [if_neg hgood]
    have heof := h.good_or_eof.resolve_left hgood
    exact ⟨h.eof_rest, fun _ => heof⟩

/-! ### What is left to read -/

/-- The bytes that can still be read, and the end. -/
def unread (s : IStream) : Nat := if s.eof then 0 else s.rest.length + 1

theorem unread_of_eof (h : s.eof = true) : s.unread = 0 := by
  rw [unread, if_pos h]

theorem unread_on (buf : Bytes) : (on buf).unread = buf.length + 1 := rfl

theorem unread_of_good (h : s.good = true) (rest : Bytes) :
    ({ s with rest := rest } : IStream).unread = rest.length + 1 := by
  simp [unread, eof, (good_iff.mp h).1]

/-- **Every `getline` on a good stream gets further**, whatever the delimiter. -/
theorem getline_unread_lt (h : s.good = true) (str : Bytes) (delim : UInt8) :
    (s.getline str delim).2.unread < s.unread := by
  have hs : s.unread = s.rest.length + 1 := unread_of_good h s.rest
  unfold IStream.getline
  rw [if_pos h]
  dsimp only
  split
  · rw [hs]
    exact Nat.succ_pos _
  · next c rest hdrop =>
    -- the delimiter is a byte of its own
    have hlen := List.length_dropWhile_le (· != delim) s.rest
    rw [hdrop, List.length_cons] at hlen
    rw [hs, unread_of_good h]
    omega

theorem getline_unread_le (h : s.Consistent) (str : Bytes) (delim : UInt8) :
    (s.getline str delim).2.unread ≤ s.unread := by
  by_cases hgood : s.good = true
  · exact Nat.le_of_lt (getline_unread_lt hgood str delim)
  · have heof : (s.getline str delim).2.eof = true := by
      rw [IStream.getline, if_neg hgood]
      exact h.good_or_eof.resolve_left hgood
    rw [unread_of_eof heof]
    exact Nat.zero_le _

theorem get_unread_le (h : s.Consistent) : s.get.2.unread ≤ s.unread := by
  by_cases hgood : s.good = true
  · have hs : s.unread = s.rest.length + 1 := unread_of_good hgood s.rest
    unfold IStream.get
    rw [if_pos hgood]
    split
    · exact Nat.zero_le _
    · next c rest hrest =>
      rw [unread_of_good hgood, hs, hrest, List.length_cons]
      exact Nat.le_succ _
  · have heof : s.get.2.eof = true := by
      rw [IStream.get, if_neg hgood]
      exact h.good_or_eof.resolve_left hgood
    rw [unread_of_eof heof]
    exact Nat.zero_le _

/-! ### `>>` -/

/-- A token between white space is read without it; the white space after it stays. -/
theorem extract_token (ws : Bytes) (hws : ∀ a ∈ ws, isspace a = true) (hne : tok ≠ [])
    (htok : ∀ a ∈ tok, isspace a = false) (hc : isspace c = true) (str : Bytes) :
    (on (ws ++ tok ++ c :: tail)).extract str = (tok, on (c :: tail)) := by
  obtain ⟨t, ts, rfl⟩ := List.exists_cons_of_ne_nil hne
  have ht : isspace t = false := htok t List.mem_cons_self
  have hskip : (ws ++ (t :: ts) ++ c :: tail).dropWhile isspace = t :: (ts ++ c :: tail) := by
    rw [List.append_assoc, List.dropWhile_append_of_pos hws, List.cons_append,
      List.dropWhile_cons_of_neg (by simp [ht])]
  have hp : ∀ a ∈ t :: ts, (! isspace a) = true := fun a ha => by simp [htok a ha]
  have htake : (t :: (ts ++ c :: tail)).takeWhile (! isspace ·) = t :: ts := by
    rw [← List.cons_append, List.takeWhile_append_of_pos hp,
      List.takeWhile_cons_of_neg (by simp [hc]), List.append_nil]
  have hdrop : (t :: (ts ++ c :: tail)).dropWhile (! isspace ·) = c :: tail := by
    rw [← List.cons_append, List.dropWhile_append_of_pos hp,
      List.dropWhile_cons_of_neg (by simp [hc])]
  simp only [extract, on_good, on_rest, if_true, hskip, htake, hdrop]
  rfl

/-- A token that ends the buffer is read to the end. -/
theorem extract_last (ws : Bytes) (hws : ∀ a ∈ ws, isspace a = true) (hne : tok ≠ [])
    (htok : ∀ a ∈ tok, isspace a = false) (str : Bytes) :
    (on (ws ++ tok)).extract str = (tok, ⟨[], true, false⟩) := by
  obtain ⟨t, ts, rfl⟩ := List.exists_cons_of_ne_nil hne
  have ht : isspace t = false := htok t List.mem_cons_self
  have hskip : (ws ++ t :: ts).dropWhile isspace = t :: ts := by
    rw [List.dropWhile_append_of_pos hws, List.dropWhile_cons_of_neg (by simp [ht])]
  have hp : ∀ a ∈ t :: ts, (! isspace a) = true := fun a ha => by simp [htok a ha]
  have htake : (t :: ts).takeWhile (! isspace ·) = t :: ts := List.takeWhile_eq_self_iff.mpr hp
  have hdrop : (t :: ts).dropWhile (! isspace ·) = [] := List.dropWhile_eq_nil_iff.mpr hp
  simp only [extract, on_good, on_rest, if_true, hskip, htake, hdrop]
  rfl

/-! ### Words -/

end IStream

/-- The words of a text: its parts between white space. -/
def words (text : Bytes) : List Bytes := (text.splitOnP isspace).filter (· ≠ [])

@[simp] theorem words_nil : words [] = [] := by simp [words]

theorem words_cons_space {c : UInt8} {text : Bytes} (hc : isspace c = true) :
    words (c :: text) = words text := by
  have hsplit := List.splitOnP_append_cons [] text hc
  rw [List.nil_append] at hsplit
  simp [words, hsplit]

theorem words_dropWhile (text : Bytes) : words (text.dropWhile isspace) = words text := by
  induction text with
  | nil => rfl
  | cons c text ih =>
      by_cases hc : isspace c = true
      · rw [List.dropWhile_cons_of_pos hc, words_cons_space hc, ih]
      · rw [List.dropWhile_cons_of_neg hc]

/-- The first word and what comes after it. -/
theorem words_token {tok tail : Bytes} (hne : tok ≠ []) (htok : ∀ a ∈ tok, isspace a = false)
    (htail : ∀ c ∈ tail.head?, isspace c = true) : words (tok ++ tail) = tok :: words tail := by
  cases tail with
  | nil => simp [words, List.splitOnP_eq_singleton htok, hne]
  | cons c tail =>
      have hc : isspace c = true := htail c (by simp)
      rw [words_cons_space hc]
      simp [words, List.splitOnP_append_cons _ _ hc, List.splitOnP_eq_singleton htok, hne]

namespace IStream

/-- The words that `>>` can still read. -/
def words (s : IStream) : List Bytes := if s.good then AsioStudy.words s.rest else []

@[simp] theorem words_on (buf : Bytes) : (on buf).words = AsioStudy.words buf := rfl

theorem words_mk (tail : Bytes) :
    (⟨tail, tail.isEmpty, false⟩ : IStream).words = AsioStudy.words tail := by
  cases tail <;> simp [words, good]

/-- **`>>` reads one word after the other** and leaves its string alone when there is none. -/
theorem extract_words (s : IStream) (str : Bytes) :
    (s.extract str).1 = s.words.headD str ∧ (s.extract str).2.words = s.words.tail := by
  unfold extract words
  by_cases hgood : s.good = true
  · simp only [hgood, if_true]
    rw [← words_dropWhile s.rest]
    cases hrest : s.rest.dropWhile isspace with
    | nil => simp [good]
    | cons c rest =>
        have hc : isspace c = false := by
          have hhead := List.head?_dropWhile_not isspace s.rest
          simpa [hrest] using hhead
        have hsplit : AsioStudy.words (c :: rest) = (c :: rest).takeWhile (! isspace ·) ::
            AsioStudy.words ((c :: rest).dropWhile (! isspace ·)) := by
          refine Eq.trans (by rw [List.takeWhile_append_dropWhile]) (words_token ?_ ?_ ?_)
          · simp [hc]
          · intro a ha
            simpa using List.mem_takeWhile_imp ha
          · intro a ha
            have hhead := List.head?_dropWhile_not (! isspace ·) (c :: rest)
            simpa [Option.mem_def.mp ha] using hhead
        rw [hsplit]
        exact ⟨rfl, words_mk _⟩
  · rw [if_neg hgood, if_neg hgood]
    simp [good]

/-! ### The first word -/

end IStream

/-- A text and its first word: white space, the word, and a rest that does not continue it.
The word is empty when the text is white space. -/
structure FirstWord (text ws tok tail : Bytes) : Prop where
  eq : text = ws ++ tok ++ tail
  blank : ∀ a ∈ ws, isspace a = true
  no_space : ∀ a ∈ tok, isspace a = false
  ends : ∀ a ∈ tail.head?, isspace a = true
  last : tok = [] → tail = []

section
variable {text ws tok tail more front : Bytes}

theorem exists_firstWord (text : Bytes) : ∃ ws tok tail, FirstWord text ws tok tail := by
  refine ⟨text.takeWhile isspace, (text.dropWhile isspace).takeWhile (! isspace ·),
    (text.dropWhile isspace).dropWhile (! isspace ·), ?_, ?_, ?_, ?_, ?_⟩
  · rw [List.append_assoc, List.takeWhile_append_dropWhile, List.takeWhile_append_dropWhile]
  · exact fun a ha => List.mem_takeWhile_imp ha
  · intro a ha
    simpa using List.mem_takeWhile_imp ha
  · intro a ha
    have hhead := List.head?_dropWhile_not (! isspace ·) (text.dropWhile isspace)
    simpa [Option.mem_def.mp ha] using hhead
  · intro h
    cases hrest : text.dropWhile isspace with
    | nil => rfl
    | cons c rest =>
        have hhead := List.head?_dropWhile_not isspace text
        simp_all

theorem FirstWord.nil : FirstWord [] [] [] [] :=
  ⟨rfl, by simp, by simp, by simp, fun _ => rfl⟩

theorem FirstWord.eq_nil (h : FirstWord [] ws tok tail) : ws = [] ∧ tok = [] ∧ tail = [] := by
  simpa [and_assoc] using h.eq.symm

theorem firstWord_append (hws : ∀ a ∈ ws, isspace a = true) (hne : tok ≠ [])
    (htok : ∀ a ∈ tok, isspace a = false) (hne' : front ≠ [])
    (hfront : ∀ a ∈ front, isspace a = true) (more : Bytes) :
    FirstWord (ws ++ tok ++ (front ++ more)) ws tok (front ++ more) where
  eq := rfl
  blank := hws
  no_space := htok
  ends := by
    obtain ⟨c, front, rfl⟩ := List.exists_cons_of_ne_nil hne'
    intro a ha
    obtain rfl : c = a := by simpa using ha
    exact hfront c List.mem_cons_self
  last := fun he => absurd he hne

/-- A word is separated from the white space before the text. -/
theorem FirstWord.separated (h : FirstWord text ws tok tail)
    (hspace : ∀ a ∈ text.head?, isspace a = true) (hne : tok ≠ []) : ws ≠ [] := by
  rintro rfl
  obtain ⟨c, tok, rfl⟩ := List.exists_cons_of_ne_nil hne
  have hc := hspace c (by simp [h.eq])
  simp [h.no_space c List.mem_cons_self] at hc

/-- What comes after the rest does not change the first word. -/
theorem FirstWord.append (h : FirstWord text ws tok tail) (hne : tail ≠ []) (more : Bytes) :
    FirstWord (text ++ more) ws tok (tail ++ more) where
  eq := by rw [h.eq, List.append_assoc]
  blank := h.blank
  no_space := h.no_space
  ends := by
    obtain ⟨c, tail, rfl⟩ := List.exists_cons_of_ne_nil hne
    exact h.ends
  last := fun he => absurd (h.last he) hne

theorem prefix_append_cases {a b : Bytes} (h : front <+: a ++ b) :
    front <+: a ∨ ∃ front', front = a ++ front' ∧ front' <+: b := by
  obtain ⟨rest, hrest⟩ := h
  rcases List.append_eq_append_iff.mp hrest with ⟨a', rfl, -⟩ | ⟨front', rfl, rfl⟩
  · exact .inl (List.prefix_append ..)
  · exact .inr ⟨front', rfl, List.prefix_append ..⟩

/-- A text that is cut off in its first word, or after it. -/
theorem FirstWord.of_prefix (h : FirstWord text ws tok tail) (hfront : front <+: text) :
    (∃ ws' tok', FirstWord front ws' tok' [] ∧ tok' <+: tok) ∨
      ∃ tail', FirstWord front ws tok tail' ∧ tail' <+: tail := by
  rw [h.eq, List.append_assoc] at hfront
  rcases prefix_append_cases hfront with hws | ⟨front', rfl, hfront'⟩
  · refine .inl ⟨front, [], ⟨by simp, ?_, by simp, by simp, fun _ => rfl⟩, List.nil_prefix⟩
    exact fun a ha => h.blank a (hws.subset ha)
  · rcases prefix_append_cases hfront' with htok | ⟨tail', rfl, htail⟩
    · refine .inl ⟨ws, front', ⟨by simp, h.blank, ?_, by simp, fun _ => rfl⟩, htok⟩
      exact fun a ha => h.no_space a (htok.subset ha)
    · refine .inr ⟨tail', ⟨by simp, h.blank, h.no_space, ?_, ?_⟩, htail⟩
      · intro a ha
        obtain ⟨rest, rfl⟩ := htail
        exact h.ends a (by simp [Option.mem_def.mp ha])
      · intro he
        exact List.prefix_nil.mp (h.last he ▸ htail)

/-- **`>>` reads the first word**; a stream whose bytes are all read has none. -/
theorem FirstWord.extract (h : FirstWord text ws tok tail) {e : Bool} (he : e = true → text = []) :
    (⟨text, e, false⟩ : IStream).extract [] = (tok, ⟨tail, tail.isEmpty, tok.isEmpty⟩) := by
  cases e with
  | true =>
      obtain rfl := he rfl
      obtain ⟨-, rfl, rfl⟩ := h.eq_nil
      rfl
  | false =>
      obtain ⟨rfl, hws, htok, hends, hlast⟩ := h
      by_cases hne : tok = []
      · obtain rfl := hlast hne
        subst hne
        have hskip : ws.dropWhile isspace = [] := List.dropWhile_eq_nil_iff.mpr hws
        simp [IStream.extract, IStream.good, hskip]
      · have hempty : tok.isEmpty = false := by simpa using hne
        cases tail with
        | nil =>
            rw [List.append_nil, hempty]
            exact IStream.extract_last ws hws hne htok []
        | cons c tail =>
            rw [hempty]
            exact IStream.extract_token ws hws hne htok (hends c (by simp)) []

end

namespace IStream

/-- What `>>` leaves in its string has no white space. -/
theorem extract_no_space (s : IStream) (h : ∀ a ∈ str, isspace a = false) :
    ∀ a ∈ (s.extract str).1, isspace a = false := by
  unfold extract
  split
  · split
    · exact h
    · intro a ha
      simpa using List.mem_takeWhile_imp ha
  · exact h

end IStream

end AsioStudy
