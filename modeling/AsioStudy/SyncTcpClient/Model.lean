import AsioStudy.Core.AsyncRead
import AsioStudy.Core.IStream

/-!
# AsioStudy.SyncTcpClient.Model

Reading one line with `read_until` into a `streambuf` of its own, as `SyncTCPClient`,
`SyncSSLClient` and `readFromSocketDelim` do.

`read_until` takes whole reads of the stream, so what the last of them brings beyond the
newline is in the buffer, and the buffer is gone when the call returns. `noneLost_iff` says
when nothing is lost by that.
-/

namespace AsioStudy.SyncTcpClient

/-- A connected stream. -/
structure Stream where
  /-- The bytes that will still arrive. -/
  incoming : Incoming
  /-- The texts written to it. -/
  written : List Bytes

/-- `asio::read_until` into a new `streambuf`: how it completes, the buffer, and the stream;
the contract is that of `async_read_until`. -/
def read_until (stream : Stream) (delim : Bytes) : Option ErrorCode × Bytes × Stream :=
  let r := async_read_until delim none stream.incoming.ending [] stream.incoming.chunks
  (r.completion, r.buf, { stream with incoming := ⟨r.chunks, stream.incoming.ending⟩ })

/-- Read up to the delimiter and return the first line of the buffer, or throw; `none`: wait
for ever. -/
def receive_line (stream : Stream) (delim : Bytes) : Option (Except ErrorCode Bytes × Stream) :=
  match read_until stream delim with
  | (none, _, _) => none
  | (some ec, buf, stream) =>
      if ec.value ≠ 0 then some (.error ec, stream)
      else
        -- whatever else `buf` holds is gone at the end of this block
        let (response, _) := (IStream.on buf).getline [] LF
        some (.ok response, stream)

/-- `asio::write`, which throws `result` when that is an error. -/
def write (stream : Stream) (text : Bytes) (result : Option ErrorCode) :
    Option ErrorCode × Stream :=
  match result with
  | some ec => (some ec, stream)
  | none => (none, { stream with written := stream.written ++ [text] })

/-- A call, and what its write throws. -/
structure Call where
  duration_sec : UInt32
  write : Option ErrorCode

/-- The text of a request. -/
def request (duration_sec : UInt32) : Bytes :=
  bytes "EMULATE_LONG_COMP_OP " ++ to_string duration_sec.toNat ++ bytes "\n"

/-! ### The two clients, which differ in the type of their stream -/

def sendRequest (stream : Stream) (request : Bytes) (result : Option ErrorCode) :
    Option ErrorCode × Stream :=
  write stream request result

def receiveResponse (stream : Stream) : Option (Except ErrorCode Bytes × Stream) :=
  receive_line stream [LF]

def emulateLongComputationOp (stream : Stream) (c : Call) :
    Option (Except ErrorCode Bytes × Stream) :=
  match sendRequest stream (request c.duration_sec) c.write with
  | (some ec, stream) => some (.error ec, stream)
  | (none, stream) => receiveResponse stream

def SyncTCPClient.emulateLongComputationOp (m_sock : Stream) (c : Call) :
    Option (Except ErrorCode Bytes × Stream) :=
  SyncTcpClient.emulateLongComputationOp m_sock c

def SyncSSLClient.emulateLongComputationOp (m_ssl_stream : Stream) (c : Call) :
    Option (Except ErrorCode Bytes × Stream) :=
  SyncTcpClient.emulateLongComputationOp m_ssl_stream c

/-- `sync_read::readFromSocketDelim` -/
def readFromSocketDelim (sock : Stream) : Option (Except ErrorCode Bytes × Stream) :=
  receive_line sock (bytes "\n")

/-- The programs that read lines in this way. -/
inductive Reader
  | SyncTCPClient
  | SyncSSLClient
  | readFromSocketDelim
  deriving DecidableEq, Repr

def Reader.call : Reader → Stream → Call → Option (Except ErrorCode Bytes × Stream)
  | .SyncTCPClient, stream, c => SyncTCPClient.emulateLongComputationOp stream c
  | .SyncSSLClient, stream, c => SyncSSLClient.emulateLongComputationOp stream c
  | .readFromSocketDelim, stream, _ => SyncTcpClient.readFromSocketDelim stream

/-- The call gets as far as to read. -/
def Reader.reads : Reader → Call → Bool
  | .SyncTCPClient, c | .SyncSSLClient, c => c.write = none
  | .readFromSocketDelim, _ => true

/-- What the successful calls among these return, in order. -/
def Reader.returned (reader : Reader) : Stream → List Call → List Bytes
  | _, [] => []
  | stream, c :: calls =>
      match reader.call stream c with
      | none => []
      | some (.ok line, stream) => line :: reader.returned stream calls
      | some (.error _, stream) => reader.returned stream calls

/-- No byte that the peer sends in `lines` is lost. -/
structure NoneLost (reader : Reader) (stream : Stream) (lines : List Bytes) : Prop where
  /-- The `k`-th successful call returns the `k`-th line. -/
  kth : ∀ calls, reader.returned stream calls <+: lines
  /-- A call that reads succeeds as long as a line is left. -/
  each : ∀ calls,
    (reader.returned stream calls).length = min (calls.countP reader.reads) lines.length

/-- No read brings anything beyond a newline. -/
def Whole (chunks : List Bytes) : Prop := ∀ chunk ∈ chunks, LF ∉ chunk.dropLast

instance (chunks : List Bytes) : Decidable (Whole chunks) :=
  inferInstanceAs (Decidable (∀ chunk ∈ chunks, LF ∉ chunk.dropLast))

variable {reader : Reader} {stream : Stream} {lines chunks chunks' consumed : List Bytes}
  {ending : Ending} {written : List Bytes} {c : Call} {l tail more : Bytes}

theorem noneLost_iff_take : NoneLost reader stream lines ↔
    ∀ calls, reader.returned stream calls = lines.take (calls.countP reader.reads) := by
  constructor
  · intro h calls
    have hlen := h.each calls
    have htake := List.prefix_iff_eq_take.mp (h.kth calls)
    rw [htake, hlen, ← List.take_take, List.take_length]
  · intro h
    refine ⟨?_, ?_⟩
    · intro calls
      rw [h calls]
      exact List.take_prefix _ _
    · intro calls
      rw [h calls, List.length_take]

/-! ### One call -/

theorem emulateLongComputationOp_sent (hwrite : c.write = none) (stream : Stream) :
    ∃ written, emulateLongComputationOp stream c =
      receive_line ⟨stream.incoming, written⟩ [LF] := by
  refine ⟨stream.written ++ [request c.duration_sec], ?_⟩
  simp only [emulateLongComputationOp, sendRequest, write, hwrite]
  rfl

theorem emulateLongComputationOp_not_sent {ec : ErrorCode} (hwrite : c.write = some ec)
    (stream : Stream) : emulateLongComputationOp stream c = some (.error ec, stream) := by
  simp only [emulateLongComputationOp, sendRequest, write, hwrite]

theorem Reader.call_of_reads (h : reader.reads c = true) (stream : Stream) :
    ∃ written, reader.call stream c = receive_line ⟨stream.incoming, written⟩ [LF] := by
  cases reader with
  | SyncTCPClient => exact emulateLongComputationOp_sent (of_decide_eq_true h) stream
  | SyncSSLClient => exact emulateLongComputationOp_sent (of_decide_eq_true h) stream
  | readFromSocketDelim => exact ⟨stream.written, rfl⟩

/-- A call whose write fails leaves the stream as it is. -/
theorem Reader.call_of_not_reads (h : reader.reads c = false) (stream : Stream) :
    ∃ ec, reader.call stream c = some (.error ec, stream) := by
  cases reader with
  | SyncTCPClient =>
      obtain ⟨ec, hwrite⟩ := Option.ne_none_iff_exists'.mp (of_decide_eq_false h)
      exact ⟨ec, emulateLongComputationOp_not_sent hwrite stream⟩
  | SyncSSLClient =>
      obtain ⟨ec, hwrite⟩ := Option.ne_none_iff_exists'.mp (of_decide_eq_false h)
      exact ⟨ec, emulateLongComputationOp_not_sent hwrite stream⟩
  | readFromSocketDelim => exact absurd h (by simp [Reader.reads])

theorem ne_nil_of_flatten (hall : consumed.flatten = l ++ LF :: more) : consumed ≠ [] := by
  intro hnil
  rw [hnil] at hall
  exact absurd hall (by simp)

/-- Of reads that had to be made for the first newline, only the last can bring more. -/
theorem whole_iff (hl : LF ∉ l) (hall : consumed.flatten = l ++ LF :: more)
    (hneeded : LF ∉ consumed.dropLast.flatten) : Whole consumed ↔ more = [] := by
  have hne := ne_nil_of_flatten hall
  obtain ⟨front, last, rfl⟩ : ∃ front last, consumed = front ++ [last] :=
    ⟨_, _, (List.dropLast_append_getLast hne).symm⟩
  rw [List.dropLast_concat] at hneeded
  rw [List.flatten_concat] at hall
  -- the first newline is in the last read
  obtain ⟨x, rfl, rfl⟩ : ∃ x, l = front.flatten ++ x ∧ last = x ++ LF :: more := by
    rcases List.append_eq_append_iff.mp hall with ⟨x, hl', hlast⟩ | ⟨x, hfront, hlast⟩
    · exact ⟨x, hl', hlast⟩
    · cases x with
      | nil => exact ⟨[], by simpa using hfront.symm, by simpa using hlast.symm⟩
      | cons a x =>
          obtain rfl : LF = a := (List.cons.inj hlast).1
          exact absurd (by simp [hfront]) hneeded
  constructor
  · intro hwhole
    by_contra hmore
    have hlast := hwhole _ (List.mem_concat_self ..)
    rw [List.dropLast_append_of_ne_nil (List.cons_ne_nil LF more),
      List.dropLast_cons_of_ne_nil hmore] at hlast
    exact hlast (by simp)
  · intro hmore chunk hchunk
    rw [hmore] at hchunk
    rcases List.mem_append.mp hchunk with hfront | hlast
    · intro hmem
      exact hneeded (List.mem_flatten.mpr ⟨chunk, hfront, List.mem_of_mem_dropLast hmem⟩)
    · obtain rfl := List.mem_singleton.mp hlast
      rw [List.dropLast_concat]
      intro hmem
      exact hl (List.mem_append_right _ hmem)

/-- **A call returns the next line**, and drops what its last read has brought beyond it. -/
theorem receive_line_next (hl : LF ∉ l) (hall : chunks.flatten = l ++ LF :: tail)
    (ending : Ending) (written : List Bytes) :
    ∃ more chunks', receive_line ⟨⟨chunks, ending⟩, written⟩ [LF] =
        some (.ok l, ⟨⟨chunks', ending⟩, written⟩) ∧
      tail = more ++ chunks'.flatten ∧ (Whole chunks ↔ more = [] ∧ Whole chunks') := by
  have hhead : chunks.flatten = (l ++ [LF]) ++ tail := by simpa using hall
  have hfound : [LF] <:+: [] ++ chunks.flatten := ⟨l, tail, hhead.symm⟩
  obtain ⟨buf, chunks', hread, hin, hbuf⟩ :=
    async_read_until_found none ending (by simp) hfound
  obtain ⟨consumed, hconsumed⟩ := async_read_until_consumed [LF] ending [] chunks
  obtain ⟨more, rfl, htail⟩ :=
    split_at_delim hin (hbuf.trans hhead) (by simpa [List.singleton_infix_iff] using hl)
  rw [hread] at hconsumed
  have hgot : consumed.flatten = l ++ LF :: more := by simpa using hconsumed.got.symm
  have hneeded : LF ∉ consumed.dropLast.flatten := by
    simpa [List.singleton_infix_iff] using hconsumed.needed (ne_nil_of_flatten hgot)
  refine ⟨more, chunks', ?_, htail, ?_⟩
  · have hline : (IStream.on (l ++ LF :: more)).getline [] LF = (l, IStream.on more) :=
      IStream.getline_delim hl []
    simp [receive_line, read_until, hread, hline, ErrorCode.success]
  · rw [hconsumed.left, ← whole_iff hl hgot hneeded]
    exact List.forall_mem_append

/-- Without a newline it fails or waits for ever. -/
theorem receive_line_missing (hmiss : LF ∉ chunks.flatten) (ending : Ending)
    (written : List Bytes) :
    receive_line ⟨⟨chunks, ending⟩, written⟩ [LF] = none ∨
      ∃ ec chunks', receive_line ⟨⟨chunks, ending⟩, written⟩ [LF] =
        some (.error ec, ⟨⟨chunks', ending⟩, written⟩) ∧ LF ∉ chunks'.flatten := by
  have hmiss' : ¬ [LF] <:+: [] ++ chunks.flatten := by
    simpa [List.singleton_infix_iff] using hmiss
  have hend := async_read_until_missing none ending (by simp) hmiss'
  obtain ⟨consumed, hconsumed⟩ := async_read_until_consumed [LF] ending [] chunks
  cases hcompletion : ending.completion with
  | none =>
      left
      simp [receive_line, read_until, hend, hcompletion]
  | some ec =>
      right
      refine ⟨ec, (async_read_until [LF] none ending [] chunks).chunks, ?_, ?_⟩
      · simp [receive_line, read_until, hend, hcompletion, Ending.value_ne_zero hcompletion]
      · intro hmem
        refine hmiss ?_
        rw [hconsumed.left, List.flatten_append]
        exact List.mem_append_right _ hmem

/-! ### Runs of calls -/

theorem returned_of_not_reads (h : reader.reads c = false) (stream : Stream) (calls : List Call) :
    reader.returned stream (c :: calls) = reader.returned stream calls := by
  obtain ⟨ec, hcall⟩ := reader.call_of_not_reads h stream
  simp only [Reader.returned, hcall]

/-- The first call that reads returns the next line; the others go on after its last read. -/
theorem returned_next (hreads : reader.reads c = true) (hl : LF ∉ l)
    (hall : chunks.flatten = l ++ LF :: tail) (ending : Ending) (written : List Bytes) :
    ∃ more chunks' written', tail = more ++ chunks'.flatten ∧
      (Whole chunks ↔ more = [] ∧ Whole chunks') ∧
      ∀ calls, reader.returned ⟨⟨chunks, ending⟩, written⟩ (c :: calls) =
        l :: reader.returned ⟨⟨chunks', ending⟩, written'⟩ calls := by
  obtain ⟨written', hcall⟩ := reader.call_of_reads hreads ⟨⟨chunks, ending⟩, written⟩
  obtain ⟨more, chunks', hline, htail, hiff⟩ := receive_line_next hl hall ending written'
  refine ⟨more, chunks', written', htail, hiff, ?_⟩
  intro calls
  simp only [Reader.returned, hcall, hline]

/-- Without a newline no call returns. -/
theorem returned_missing (hmiss : LF ∉ chunks.flatten) (calls : List Call) :
    reader.returned ⟨⟨chunks, ending⟩, written⟩ calls = [] := by
  induction calls generalizing chunks written with
  | nil => rfl
  | cons c calls ih =>
      cases hreads : reader.reads c with
      | false =>
          rw [returned_of_not_reads hreads]
          exact ih hmiss
      | true =>
          obtain ⟨written', hcall⟩ := reader.call_of_reads hreads ⟨⟨chunks, ending⟩, written⟩
          rcases receive_line_missing hmiss ending written' with
            hnone | ⟨ec, chunks', hsome, hmiss'⟩
          · -- it waits, and no call comes after it
            simp only [Reader.returned, hcall, hnone]
          · simp only [Reader.returned, hcall, hsome]
            exact ih hmiss'

/-- What the calls return has been received. -/
theorem length_returned_le (calls : List Call) :
    ((reader.returned ⟨⟨chunks, ending⟩, written⟩ calls).flatMap (· ++ [LF])).length ≤
      chunks.flatten.length := by
  induction calls generalizing chunks written with
  | nil => exact Nat.zero_le _
  | cons c calls ih =>
      cases hreads : reader.reads c with
      | false =>
          rw [returned_of_not_reads hreads]
          exact ih
      | true =>
          by_cases hmem : LF ∈ chunks.flatten
          · obtain ⟨l, tail, hall, hl⟩ := List.eq_append_cons_of_mem hmem
            obtain ⟨more, chunks', written', htail, -, hreturned⟩ :=
              returned_next hreads hl hall ending written
            have hle : ((reader.returned ⟨⟨chunks', ending⟩, written'⟩ calls).flatMap
                (· ++ [LF])).length ≤ chunks'.flatten.length := ih
            rw [hreturned, hall, htail]
            simp only [List.flatMap_cons, List.length_append, List.length_cons, List.length_nil]
            omega
          · rw [returned_missing hmem]
            exact Nat.zero_le _

/-- When no read brings anything beyond a newline, every call that reads gets the next line. -/
theorem returned_whole (hlines : ∀ l ∈ lines, LF ∉ l)
    (hall : chunks.flatten = lines.flatMap (· ++ [LF])) (hwhole : Whole chunks)
    (calls : List Call) :
    reader.returned ⟨⟨chunks, ending⟩, written⟩ calls =
      lines.take (calls.countP reader.reads) := by
  induction calls generalizing chunks lines written with
  | nil => rfl
  | cons c calls ih =>
      cases hreads : reader.reads c with
      | false =>
          have hcount : (c :: calls).countP reader.reads = calls.countP reader.reads :=
            List.countP_cons_of_neg (by simp [hreads])
          rw [returned_of_not_reads hreads, hcount]
          exact ih hlines hall hwhole
      | true =>
          cases lines with
          | nil => rw [returned_missing (by simp [hall]), List.take_nil]
          | cons l lines =>
              obtain ⟨hl, hlines⟩ := List.forall_mem_cons.mp hlines
              obtain ⟨more, chunks', written', htail, hiff, hreturned⟩ :=
                returned_next hreads hl (by simpa using hall) ending written
              obtain ⟨rfl, hwhole'⟩ := hiff.mp hwhole
              have hcount : (c :: calls).countP reader.reads = calls.countP reader.reads + 1 :=
                List.countP_cons_of_pos hreads
              rw [hreturned, hcount, List.take_succ_cons]
              exact congrArg (l :: ·) (ih hlines htail.symm hwhole')

/-- When calls that go on reading get all lines, no read brings anything beyond a newline. -/
theorem whole_of_returned (hlines : ∀ l ∈ lines, LF ∉ l)
    (hall : chunks.flatten = lines.flatMap (· ++ [LF])) (hreads : reader.reads c = true)
    (h : ∀ n, reader.returned ⟨⟨chunks, ending⟩, written⟩ (List.replicate n c) = lines.take n) :
    Whole chunks := by
  induction lines generalizing chunks written with
  | nil =>
      intro chunk hchunk
      have hnil : chunk = [] := List.flatten_eq_nil_iff.mp hall chunk hchunk
      simp [hnil]
  | cons l lines ih =>
      obtain ⟨hl, hlines⟩ := List.forall_mem_cons.mp hlines
      obtain ⟨more, chunks', written', htail, hiff, hreturned⟩ :=
        returned_next hreads hl (by simpa using hall) ending written
      have hrest : ∀ n, reader.returned ⟨⟨chunks', ending⟩, written'⟩ (List.replicate n c) =
          lines.take n := by
        intro n
        have hn := h (n + 1)
        rw [List.replicate_succ, hreturned, List.take_succ_cons] at hn
        exact (List.cons.inj hn).2
      have hmore : more = [] := by
        -- the lines that are left have all been received after the first call
        have hle : ((reader.returned ⟨⟨chunks', ending⟩, written'⟩
            (List.replicate lines.length c)).flatMap (· ++ [LF])).length ≤
              chunks'.flatten.length := length_returned_le _
        rw [hrest, List.take_length, htail, List.length_append] at hle
        exact List.length_eq_zero_iff.mp (by omega)
      subst hmore
      exact hiff.mpr ⟨rfl, ih hlines htail.symm hrest⟩

/-- **When no byte is lost.** -/
theorem noneLost_iff (reader : Reader) (stream : Stream) (lines : List Bytes)
    (hlines : ∀ l ∈ lines, LF ∉ l)
    (hall : stream.incoming.chunks.flatten = lines.flatMap (· ++ [LF])) :
    NoneLost reader stream lines ↔ Whole stream.incoming.chunks := by
  rw [noneLost_iff_take]
  constructor
  · intro h
    have hreads : reader.reads ⟨0, none⟩ = true := by cases reader <;> rfl
    have hreturned : ∀ n, reader.returned stream (List.replicate n ⟨0, none⟩) = lines.take n := by
      intro n
      simpa [List.countP_replicate, hreads] using h (List.replicate n ⟨0, none⟩)
    exact whole_of_returned hlines hall hreads hreturned
  · intro hwhole calls
    exact returned_whole hlines hall hwhole calls

theorem noneLost_iff_one :
    NoneLost .SyncTCPClient ⟨⟨[bytes "o", bytes "k\n"], .eof⟩, []⟩ [bytes "ok"] :=
  (noneLost_iff .SyncTCPClient _ [bytes "ok"] (by decide) (by decide)).mpr (by decide)

/-- Two lines, the second of which comes in part with the first. -/
def coalesced : Stream := ⟨⟨[bytes "a\nb", bytes "\n"], .eof⟩, []⟩

/-- The second of two successful calls returns an empty line. -/
theorem not_kth_coalesced : ¬ ∃ reader : Reader, ∀ (stream : Stream) (lines : List Bytes),
    (∀ l ∈ lines, LF ∉ l) → stream.incoming.chunks.flatten = lines.flatMap (· ++ [LF]) →
      ∀ calls, reader.returned stream calls <+: lines := by
  intro h
  obtain ⟨reader, hall⟩ := h
  have hprefix := hall coalesced [bytes "a", bytes "b"] (by decide) (by decide)
    [⟨10, none⟩, ⟨10, none⟩]
  cases reader with
  | SyncTCPClient => exact absurd hprefix (by decide)
  | SyncSSLClient => exact absurd hprefix (by decide)
  | readFromSocketDelim => exact absurd hprefix (by decide)

end AsioStudy.SyncTcpClient
