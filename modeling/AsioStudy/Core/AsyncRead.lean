import Mathlib.Data.List.Infix
import AsioStudy.Core.Bytes
import AsioStudy.Core.ErrorCode

/-!
# AsioStudy.Core.AsyncRead

The reading operations of Asio on a `streambuf`, as functions of the bytes that will
arrive. The incoming bytes come in **chunks**, one for each read of the socket, and
end in an `Ending`.

`async_read_until` completes as soon as the unread bytes of the buffer contain the
delimiter and leaves whatever else the last chunk brought in the buffer.
`async_read_until_found` states all that its callers may use: nothing is lost, nothing
is reordered, and the buffer now contains the delimiter. Where the delimiter first
occurs in the incoming bytes decides how the buffer splits (`split_at_delim`), so no
statement about a parser has to mention chunks again.
-/

namespace AsioStudy

/-- What comes after the last chunk. -/
inductive Ending
  | eof
  /-- The connection stays open and nothing more arrives. -/
  | silent
  | failure (ec : ErrorCode) (h : ec.value ≠ 0)
  deriving DecidableEq, Repr

/-- How an operation that waits for more bytes completes; `none`: it stays pending. -/
def Ending.completion : Ending → Option ErrorCode
  | .eof => some .eof
  | .silent => none
  | .failure ec _ => some ec

/-- The bytes that will still arrive. -/
structure Incoming where
  chunks : List Bytes
  ending : Ending

/-- The state after a reading operation. -/
structure ReadResult where
  /-- The error code of the completion; `none`: the operation is still pending. -/
  completion : Option ErrorCode
  /-- The unread bytes of the `streambuf`. -/
  buf : Bytes
  chunks : List Bytes

/-- What one read of a chunk transfers into a buffer limited to `max_size` bytes. -/
def transfer (max_size : Option Nat) (buf chunk : Bytes) : Bytes :=
  match max_size with
  | none => chunk
  | some m => chunk.take (m - buf.length)

/-- `asio::async_read_until` with a string delimiter, on a `streambuf` of `max_size` bytes
(`none`: without a limit). -/
def async_read_until (delim : Bytes) (max_size : Option Nat) (ending : Ending) :
    Bytes → List Bytes → ReadResult
  | buf, [] =>
      if delim <:+: buf then ⟨some .success, buf, []⟩
      else if max_size = some buf.length then ⟨some .not_found, buf, []⟩
      else ⟨ending.completion, buf, []⟩
  | buf, chunk :: chunks =>
      if delim <:+: buf then ⟨some .success, buf, chunk :: chunks⟩
      else if max_size = some buf.length then ⟨some .not_found, buf, chunk :: chunks⟩
      else
        let got := transfer max_size buf chunk
        if got = chunk then async_read_until delim max_size ending (buf ++ chunk) chunks
        else
          -- the read has filled the buffer
          let left := chunk.drop got.length :: chunks
          if delim <:+: buf ++ got then ⟨some .success, buf ++ got, left⟩
          else ⟨some .not_found, buf ++ got, left⟩

/-- `asio::async_read` into a `streambuf` without a limit: it goes on to the end. -/
def async_read (ending : Ending) (buf : Bytes) (chunks : List Bytes) : ReadResult :=
  ⟨ending.completion, buf ++ chunks.flatten, []⟩

variable {delim buf : Bytes} {max_size : Option Nat} {ending : Ending} {chunks : List Bytes}

/-- A chunk that fits is transferred whole. -/
theorem transfer_eq {chunk : Bytes} (h : ∀ m ∈ max_size, buf.length + chunk.length ≤ m) :
    transfer max_size buf chunk = chunk := by
  unfold transfer
  cases max_size with
  | none => rfl
  | some m =>
      have hm := h m rfl
      exact List.take_of_length_le (by omega)

theorem transfer_eq_of_fit {chunk left : Bytes}
    (hfit : ∀ m ∈ max_size, (buf ++ chunk ++ left).length ≤ m) :
    transfer max_size buf chunk = chunk := by
  refine transfer_eq ?_
  intro m hm
  have hlen := hfit m hm
  simp only [List.length_append] at hlen
  omega

/-- A reading operation only adds to the buffer. -/
theorem async_read_until_buf (delim : Bytes) (max_size : Option Nat) (ending : Ending)
    (buf : Bytes) (chunks : List Bytes) :
    ∃ received, (async_read_until delim max_size ending buf chunks).buf = buf ++ received := by
  induction chunks generalizing buf with
  | nil =>
      refine ⟨[], ?_⟩
      unfold async_read_until
      split
      · simp
      · split <;> simp
  | cons chunk chunks ih =>
      unfold async_read_until
      split
      · exact ⟨[], by simp⟩
      · split
        · exact ⟨[], by simp⟩
        · dsimp only
          split
          · obtain ⟨received, hbuf⟩ := ih (buf ++ chunk)
            exact ⟨chunk ++ received, by rw [hbuf, List.append_assoc]⟩
          · split <;> exact ⟨_, rfl⟩

/-- **What a successful `async_read_until` does.** -/
theorem async_read_until_found (max_size : Option Nat) (ending : Ending)
    (hfit : ∀ m ∈ max_size, (buf ++ chunks.flatten).length ≤ m)
    (hfound : delim <:+: buf ++ chunks.flatten) :
    ∃ buf' chunks', async_read_until delim max_size ending buf chunks =
        ⟨some .success, buf', chunks'⟩ ∧
      delim <:+: buf' ∧ buf' ++ chunks'.flatten = buf ++ chunks.flatten := by
  induction chunks generalizing buf with
  | nil =>
      have hbuf : delim <:+: buf := by simpa using hfound
      exact ⟨buf, [], by simp [async_read_until, hbuf], hbuf, rfl⟩
  | cons chunk chunks ih =>
      by_cases hbuf : delim <:+: buf
      · exact ⟨buf, chunk :: chunks, by simp [async_read_until, hbuf], hbuf, rfl⟩
      · have hflat : buf ++ (chunk :: chunks).flatten = (buf ++ chunk) ++ chunks.flatten := by simp
        rw [hflat] at hfit hfound ⊢
        by_cases hfull : max_size = some buf.length
        · -- nothing more fits, so nothing more arrives
          have hlen := hfit _ hfull
          simp only [List.length_append] at hlen
          have hchunk : chunk = [] := List.length_eq_zero_iff.mp (by omega)
          have hrest : chunks.flatten = [] := List.length_eq_zero_iff.mp (by omega)
          rw [hchunk, hrest, List.append_nil, List.append_nil] at hfound
          exact absurd hfound hbuf
        · have hgot := transfer_eq_of_fit hfit
          obtain ⟨buf', chunks', heq, hin, hall⟩ := ih hfit hfound
          refine ⟨buf', chunks', ?_, hin, hall⟩
          simpa [async_read_until, hbuf, hfull, hgot] using heq

/-- Without the delimiter the operation takes everything and ends as the connection
does, or finds the buffer full. -/
theorem async_read_until_missing (max_size : Option Nat) (ending : Ending)
    (hfit : ∀ m ∈ max_size, (buf ++ chunks.flatten).length ≤ m)
    (hmiss : ¬ delim <:+: buf ++ chunks.flatten) :
    (async_read_until delim max_size ending buf chunks).completion =
      if max_size = some (buf ++ chunks.flatten).length then some .not_found
      else ending.completion := by
  induction chunks generalizing buf with
  | nil =>
      have hbuf : ¬ delim <:+: buf := by simpa using hmiss
      simp only [async_read_until, hbuf, if_false, List.flatten_nil, List.append_nil]
      split <;> rfl
  | cons chunk chunks ih =>
      have hbuf : ¬ delim <:+: buf := fun h => hmiss (h.trans (List.prefix_append ..).isInfix)
      have hflat : buf ++ (chunk :: chunks).flatten = (buf ++ chunk) ++ chunks.flatten := by simp
      rw [hflat] at hfit hmiss ⊢
      by_cases hfull : max_size = some buf.length
      · have hlen := hfit _ hfull
        simp only [List.length_append] at hlen
        have hchunk : chunk = [] := List.length_eq_zero_iff.mp (by omega)
        have hrest : chunks.flatten = [] := List.length_eq_zero_iff.mp (by omega)
        simp [async_read_until, hbuf, hfull, hchunk, hrest]
      · have hgot := transfer_eq_of_fit hfit
        simpa [async_read_until, hbuf, hfull, hgot] using ih hfit hmiss

/-- A buffer that contains the delimiter needs no read. -/
theorem async_read_until_present (max_size : Option Nat) (ending : Ending) (chunks : List Bytes)
    (hin : delim <:+: buf) :
    async_read_until delim max_size ending buf chunks = ⟨some .success, buf, chunks⟩ := by
  cases chunks <;> simp [async_read_until, hin]

/-- When nothing more arrives, the buffer stays as it is. -/
theorem async_read_until_no_more (delim buf : Bytes) (ending : Ending)
    (hchunks : chunks.flatten = []) :
    ∃ chunks', async_read_until delim none ending buf chunks =
      ⟨if delim <:+: buf then some .success else ending.completion, buf, chunks'⟩ ∧
      chunks'.flatten = [] := by
  induction chunks with
  | nil => exact ⟨[], by by_cases h : delim <:+: buf <;> simp [async_read_until, h], rfl⟩
  | cons chunk chunks ih =>
      obtain ⟨rfl, hrest⟩ := List.append_eq_nil_iff.mp hchunks
      by_cases h : delim <:+: buf
      · exact ⟨_, by rw [async_read_until_present none ending _ h, if_pos h], hchunks⟩
      · obtain ⟨chunks', heq, hnil⟩ := ih hrest
        refine ⟨chunks', ?_, hnil⟩
        simpa [async_read_until, h, transfer] using heq

/-- An operation that ends with the stream has all of it in the buffer. -/
theorem async_read_until_missing_buf (ending : Ending)
    (hmiss : ¬ delim <:+: buf ++ chunks.flatten) :
    (async_read_until delim none ending buf chunks).buf = buf ++ chunks.flatten := by
  induction chunks generalizing buf with
  | nil =>
      have hbuf : ¬ delim <:+: buf := by simpa using hmiss
      simp [async_read_until, hbuf]
  | cons chunk chunks ih =>
      have hbuf : ¬ delim <:+: buf := by
        intro h
        exact hmiss (h.trans (List.prefix_append ..).isInfix)
      have hflat : buf ++ (chunk :: chunks).flatten = (buf ++ chunk) ++ chunks.flatten := by simp
      rw [hflat] at hmiss ⊢
      simpa [async_read_until, hbuf, transfer] using ih hmiss

/-- What an operation without a limit has read: the reads before the last one have not brought
the delimiter. -/
structure Consumed (delim buf : Bytes) (chunks consumed : List Bytes) (r : ReadResult) : Prop where
  left : chunks = consumed ++ r.chunks
  got : r.buf = buf ++ consumed.flatten
  needed : consumed ≠ [] → ¬ delim <:+: buf ++ consumed.dropLast.flatten

/-- It goes on reading only as long as it has to. -/
theorem async_read_until_consumed (delim : Bytes) (ending : Ending) (buf : Bytes)
    (chunks : List Bytes) :
    ∃ consumed,
      Consumed delim buf chunks consumed (async_read_until delim none ending buf chunks) := by
  induction chunks generalizing buf with
  | nil =>
      refine ⟨[], ?_, ?_, fun hne => absurd rfl hne⟩
      · by_cases hbuf : delim <:+: buf <;> simp [async_read_until, hbuf]
      · by_cases hbuf : delim <:+: buf <;> simp [async_read_until, hbuf]
  | cons chunk chunks ih =>
      by_cases hbuf : delim <:+: buf
      · rw [async_read_until_present none ending _ hbuf]
        exact ⟨[], rfl, by simp, fun hne => absurd rfl hne⟩
      · obtain ⟨consumed, hconsumed⟩ := ih (buf ++ chunk)
        have hstep : async_read_until delim none ending buf (chunk :: chunks) =
            async_read_until delim none ending (buf ++ chunk) chunks := by
          simp [async_read_until, hbuf, transfer]
        rw [hstep]
        refine ⟨chunk :: consumed, ?_, ?_, ?_⟩
        · exact congrArg (chunk :: ·) hconsumed.left
        · rw [hconsumed.got, List.flatten_cons, List.append_assoc]
        · intro _
          by_cases hne : consumed = []
          · simpa [hne] using hbuf
          · have hneeded := hconsumed.needed hne
            rwa [List.dropLast_cons_of_ne_nil hne, List.flatten_cons, ← List.append_assoc]

/-! ### Limited buffers -/

/-- How a read into a buffer of `m` bytes ends when `text` is all that arrives. -/
inductive ReadEnd
  /-- The first `m` bytes contain the delimiter. -/
  | found
  /-- They do not, and fill the buffer. -/
  | full
  /-- Too few bytes arrive. -/
  | ended
  deriving DecidableEq, Repr

def readEnd (delim : Bytes) (m : Nat) (text : Bytes) : ReadEnd :=
  if delim <:+: text.take m then .found
  else if m ≤ text.length then .full
  else .ended

def ReadEnd.completion (ending : Ending) : ReadEnd → Option ErrorCode
  | .found => some .success
  | .full => some .not_found
  | .ended => ending.completion

theorem Ending.value_ne_zero {ec : ErrorCode} (h : ending.completion = some ec) : ec.value ≠ 0 := by
  cases ending with
  | eof => obtain rfl := Option.some.inj h; decide
  | silent => exact absurd h nofun
  | failure ec' hne => obtain rfl := Option.some.inj h; exact hne

theorem readEnd_found {m : Nat} {text : Bytes} (hpre : buf <+: text) (hbuf : buf.length ≤ m)
    (hin : delim <:+: buf) : readEnd delim m text = .found :=
  if_pos (hin.trans (List.prefix_take_iff.mpr ⟨hpre, hbuf⟩).isInfix)

theorem readEnd_full {m : Nat} {text : Bytes} (htake : text.take m = buf) (hlen : m ≤ text.length)
    (hin : ¬ delim <:+: buf) : readEnd delim m text = .full := by
  rw [readEnd, htake, if_neg hin, if_pos hlen]

/-- What a read of `text` into a buffer of `m` bytes may rely on: it ends as `readEnd` tells,
and when it succeeds nothing is lost and the buffer holds the delimiter. -/
structure LimitedRead (delim : Bytes) (m : Nat) (ending : Ending) (text : Bytes)
    (r : ReadResult) : Prop where
  completion : r.completion = (readEnd delim m text).completion ending
  found : readEnd delim m text = .found →
    r.buf ++ r.chunks.flatten = text ∧ delim <:+: r.buf ∧ r.buf.length ≤ m

theorem LimitedRead.of_found {m : Nat} {text : Bytes} (hall : buf ++ chunks.flatten = text)
    (hbuf : buf.length ≤ m) (hin : delim <:+: buf) :
    LimitedRead delim m ending text ⟨some .success, buf, chunks⟩ :=
  ⟨by rw [readEnd_found (hall ▸ List.prefix_append ..) hbuf hin]; rfl, fun _ => ⟨hall, hin, hbuf⟩⟩

theorem LimitedRead.of_full {m : Nat} {text : Bytes} (htake : text.take m = buf)
    (hlen : m ≤ text.length) (hin : ¬ delim <:+: buf) :
    LimitedRead delim m ending text ⟨some .not_found, buf, chunks⟩ := by
  have hfull := readEnd_full htake hlen hin
  exact ⟨by rw [hfull]; rfl, fun h => absurd (hfull.symm.trans h) nofun⟩

/-- **However the bytes arrive, a limited read ends in the same way.** -/
theorem async_read_until_limited (delim : Bytes) (ending : Ending) (chunks : List Bytes) {m : Nat}
    (hbuf : buf.length ≤ m) :
    LimitedRead delim m ending (buf ++ chunks.flatten)
      (async_read_until delim (some m) ending buf chunks) := by
  induction chunks generalizing buf with
  | nil =>
      rw [List.flatten_nil, List.append_nil, async_read_until]
      split
      · next hin => exact .of_found (List.append_nil _) hbuf hin
      · next hin =>
        split
        · next hfull =>
          obtain rfl := Option.some.inj hfull
          exact .of_full List.take_length (Nat.le_refl _) hin
        · next hnot =>
          have hlt : ¬ m ≤ buf.length := fun hle => hnot (congrArg some (Nat.le_antisymm hle hbuf))
          have hended : readEnd delim m buf = .ended := by
            rw [readEnd, List.take_of_length_le hbuf, if_neg hin, if_neg hlt]
          exact ⟨by rw [hended]; rfl, fun h => absurd (hended.symm.trans h) nofun⟩
  | cons chunk chunks ih =>
      rw [async_read_until]
      split
      · next hin => exact .of_found rfl hbuf hin
      · next hin =>
        split
        · next hfull =>
          obtain rfl := Option.some.inj hfull
          exact .of_full List.take_left (by simp) hin
        · next hnot =>
          have hlt : buf.length < m := by
            have hne : m ≠ buf.length := fun he => hnot (congrArg some he)
            omega
          have hflat : buf ++ (chunk :: chunks).flatten = buf ++ chunk ++ chunks.flatten := by simp
          dsimp only
          split
          · next hgot =>
            -- the chunk fits
            have hlen : (buf ++ chunk).length ≤ m := by
              have hle := congrArg List.length hgot
              simp only [transfer, List.length_take] at hle
              simp only [List.length_append]
              omega
            rw [hflat]
            exact ih hlen
          · next hgot =>
            -- the read fills the buffer
            have hmore : m - buf.length < chunk.length := by
              by_contra hle
              exact hgot (List.take_of_length_le (by omega))
            have htake : (buf ++ (chunk :: chunks).flatten).take m =
                buf ++ transfer (some m) buf chunk := by
              rw [List.take_append, List.take_of_length_le hbuf, List.flatten_cons,
                List.take_append_of_le_length (by omega)]
              rfl
            have hlen : (buf ++ transfer (some m) buf chunk).length ≤ m := by
              rw [← htake]
              exact List.length_take_le _ _
            have hdrop : transfer (some m) buf chunk ++
                chunk.drop (transfer (some m) buf chunk).length = chunk :=
              List.prefix_iff_eq_append.mp (List.take_prefix _ _)
            split
            · next hin' =>
              refine .of_found ?_ hlen hin'
              rw [List.flatten_cons, List.flatten_cons, List.append_assoc,
                ← List.append_assoc _ _ chunks.flatten, hdrop]
            · next hin' =>
              refine .of_full htake ?_ hin'
              simp only [List.length_append, List.flatten_cons]
              omega

/-! ### Where the delimiter is -/

/-- A delimiter does not begin among bytes without its first one. -/
theorem infix_of_append_of_not_mem {d : UInt8} {ds a b : Bytes} (h : d ∉ a)
    (hin : d :: ds <:+: a ++ b) : d :: ds <:+: b := by
  induction a with
  | nil => simpa using hin
  | cons x a ih =>
      rw [List.cons_append, List.infix_cons_iff] at hin
      rcases hin with hp | hin
      · have hx : d = x := (List.cons_prefix_cons.mp hp).1
        exact absurd (hx ▸ List.mem_cons_self) h
      · exact ih (fun hm => h (List.mem_cons_of_mem _ hm)) hin

/-- Nor does it end among bytes without its last one. -/
theorem infix_of_append_of_not_mem_right {d : UInt8} {ds a b : Bytes} (h : d ∉ b)
    (hin : ds ++ [d] <:+: a ++ b) : ds ++ [d] <:+: a := by
  induction b using List.reverseRecOn with
  | nil => simpa using hin
  | append_singleton b x ih =>
      rw [← List.append_assoc, List.infix_concat_iff] at hin
      rcases hin with hs | hin
      · obtain ⟨front, hfront⟩ := hs
        have hx : d = x := by simpa using congrArg List.getLast? hfront
        exact absurd (List.mem_append_right _ (List.mem_singleton.mpr hx)) h
      · exact ih (fun hm => h (List.mem_append_left _ hm)) hin

/-- The first occurrence of the delimiter is at the end of `head`. -/
structure EndsFirst (delim head : Bytes) : Prop where
  suffix : delim <:+ head
  first : ¬ delim <:+: head.dropLast

theorem exists_endsFirst {text : Bytes} (hne : delim ≠ []) (hin : delim <:+: text) :
    ∃ head tail, text = head ++ tail ∧ EndsFirst delim head := by
  induction text using List.reverseRecOn with
  | nil => exact absurd (List.infix_nil.mp hin) hne
  | append_singleton text x ih =>
      by_cases hin' : delim <:+: text
      · obtain ⟨head, tail, rfl, hhead⟩ := ih hin'
        exact ⟨head, tail ++ [x], by rw [List.append_assoc], hhead⟩
      · rcases List.infix_concat_iff.mp hin with hs | hi
        · exact ⟨text ++ [x], [], by simp, hs, by rwa [List.dropLast_concat]⟩
        · exact absurd hi hin'

/-- **Splitting the buffer.** When the first occurrence of the delimiter in the incoming
bytes is at the end of `head`, a buffer that contains the delimiter contains `head`. -/
theorem split_at_delim {head tail left : Bytes} (hbuf : delim <:+: buf)
    (hall : buf ++ left = head ++ tail) (hfirst : ¬ delim <:+: head.dropLast) :
    ∃ more, buf = head ++ more ∧ tail = more ++ left := by
  have hpre : buf <+: head ++ tail := hall ▸ List.prefix_append buf left
  have hlen : head.length ≤ buf.length := by
    by_contra hlt
    have hbuf' : buf <+: head := by
      have hle : buf.length ≤ head.length := by omega
      exact List.prefix_of_prefix_length_le hpre (List.prefix_append head tail) hle
    have hdrop : buf <+: head.dropLast := by
      rw [List.dropLast_eq_take]
      exact List.prefix_take_iff.mpr ⟨hbuf', by omega⟩
    exact hfirst (hbuf.trans hdrop.isInfix)
  obtain ⟨more, hmore⟩ : head <+: buf :=
    List.prefix_of_prefix_length_le (List.prefix_append head tail) hpre hlen
  refine ⟨more, hmore.symm, ?_⟩
  rw [← hmore, List.append_assoc] at hall
  exact (List.append_cancel_left hall).symm

end AsioStudy
